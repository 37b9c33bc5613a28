import PaymentRail.Chain.Past

/-!
# The stream of statuses about one transaction

The words a watcher can emit about a transaction, over every run: registrations at any time, any
answers of the node with block numbers other than zero, any pattern of failed deliveries.

`Tells` is the inductive invariant: it ties the entry in the map to the events that led to it.
`Tells.admissible` is the step lemma (what one visit emits continues the stream well),
`Tells.step` carries the invariant along, and `stream_admissible` puts the two together for a run.
-/

namespace PaymentRail.Chain

variable {cfg : Config} {tx : TxHash} {past : List Event}

theorem phaseAt_ne (cfg : Config) (depth : UInt64) :
    phaseAt cfg depth ≠ .pending ∧ phaseAt cfg depth ≠ .reorged ∧
      phaseAt cfg depth ≠ .finalized := by
  obtain ⟨-, h⟩ | ⟨-, h⟩ := phaseAt_cases cfg depth <;> simp [h]

/-- The depth of a block other than the genesis block does not overflow. -/
theorem one_le_depth {head number : UInt64} (hle : number ≤ head) (hne : number ≠ 0) :
    1 ≤ head - number + 1 := by
  have hpos : 0 < number.toNat := Nat.pos_of_ne_zero fun h ↦ hne (UInt64.toNat_inj.mp h)
  have hbound : head.toNat < 2 ^ 64 := head.toNat_lt
  have hle' : number.toNat ≤ head.toNat := UInt64.le_iff_toNat_le.mp hle
  have hsum : (head - number + 1).toNat = head.toNat - number.toNat + 1 := by
    rw [UInt64.toNat_add, UInt64.toNat_sub_of_le _ _ hle]
    exact Nat.mod_eq_of_lt (by change head.toNat - number.toNat + 1 < 2 ^ 64; omega)
  rw [UInt64.le_iff_toNat_le, hsum]
  exact Nat.le_add_left 1 _

theorem one_le_receiptDepth (head number : UInt64) : 1 ≤ receiptDepth head number := by
  unfold receiptDepth
  split
  · exact UInt64.le_refl 1
  · next h =>
    rw [UInt64.le_iff_toNat_le]
    exact Nat.pos_of_ne_zero fun hzero ↦ h (UInt64.toNat_inj.mp hzero)

/-! ### One visit -/

section Visit

variable {t : Tracked} {head : UInt64} {answers : Answers} {entry : Option Tracked}
  {out : List Status} {turn : Option UInt64} {blockHash : Hash} {blockNumber depth : UInt64}

/-- A transaction that is seen in the block its entry allows: the status continues the stream. -/
theorem Tells.admissible_seen (h : Tells ⟨some t, turn, []⟩ past) (hphase : t.phase ≠ .confirmed)
    (hanchor : ∀ s, .emitted s ∈ since Event.startsOver past →
      s.anchor = (renderHash blockHash blockNumber, blockNumber))
    (hresume : ∀ anchor, resumeOf past = some anchor →
      (renderHash blockHash blockNumber, blockNumber) = anchor)
    (hdepth : 1 ≤ depth)
    (hdeeper : depth < cfg.depth → ∀ s, .emitted s ∈ since Event.restarts past →
      s.phase = .mined → s.depth < depth) :
    Admissible cfg (.seen cfg tx blockHash blockNumber depth) past where
  registered := (h.live t rfl).1
  anchor := hanchor
  resumed := hresume
  reorged hreorged := absurd hreorged (phaseAt_ne cfg depth).2.1
  confirmed _ between s' earlier hpast hconfirmed hregisters := by
    by_cases hreorg : ∃ r, .emitted r ∈ between ∧ r.phase = .reorged
    · exact .inl hreorg
    · refine .inr (h.unconfirmed t rfl hphase between s' earlier hpast hconfirmed fun e he hover ↦ ?_)
      cases e with
      | registered anchor => exact hregisters _ he rfl
      | emitted r => exact hreorg ⟨r, he, of_decide_eq_true hover⟩
      | delivered s ok => cases hover
  finalized hfinal := absurd hfinal (phaseAt_ne cfg depth).2.2
  last := (h.live t rfl).2
  minedDepth hmined := by
    obtain ⟨-, hat⟩ | ⟨hlt, -⟩ := phaseAt_cases cfg depth
    · rw [Status.seen, hat] at hmined
      cases hmined
    · exact ⟨hdepth, hlt, hdeeper hlt⟩
  confirmedDepth hconfirmed := by
    obtain ⟨hle, -⟩ | ⟨-, hat⟩ := phaseAt_cases cfg depth
    · exact hle
    · rw [Status.seen, hat] at hconfirmed
      cases hconfirmed
  finalizedDepth hfinal := absurd hfinal (phaseAt_ne cfg depth).2.2

/-- Whatever a visit emits continues the stream well. -/
theorem Tells.admissible (h : Tells ⟨some t, turn, []⟩ past)
    (ho : Observed cfg head tx answers t entry out) {s : Status} (hs : s ∈ out) :
    Admissible cfg s past := by
  cases ho with
  | silent => cases hs
  | sighted receipt hphase hreceipt =>
    obtain rfl := List.mem_singleton.mp hs
    obtain ⟨hresume, hnone⟩ := h.pending t rfl hphase
    refine h.admissible_seen (by rw [hphase]; decide) (fun s hs ↦ absurd hs (hnone s))
      (fun anchor hanchor ↦ ?_) (one_le_receiptDepth _ _)
      (fun _ s hs ↦ absurd (mem_since_startsOver hs) (hnone s))
    rw [hresume] at hanchor
    cases hanchor
  | deepened hphase hcanonical hhead hnews =>
    obtain rfl := List.mem_singleton.mp hs
    obtain ⟨hanchor, hresume, -⟩ := h.anchored t rfl (.inl hphase)
    obtain ⟨hnumber, hdepths⟩ := h.mined t rfl hphase
    refine h.admissible_seen (by rw [hphase]; decide) hanchor hresume
      (one_le_depth hhead hnumber) fun hshallow s hs hmined ↦ ?_
    obtain ⟨hlast, hle⟩ := hdepths s hs hmined
    exact UInt64.lt_of_le_of_lt hle (hnews hshallow hlast)
  | orphaned hanchored horphaned =>
    obtain rfl := List.mem_singleton.mp hs
    obtain ⟨hanchor, hresume, hbefore⟩ := h.anchored t rfl hanchored
    exact {
      registered := (h.live t rfl).1
      anchor := hanchor
      resumed := hresume
      reorged := fun _ ↦ hbefore
      confirmed := fun hphase ↦ by cases hphase
      finalized := fun hphase ↦ by cases hphase
      last := (h.live t rfl).2
      minedDepth := fun hphase ↦ by cases hphase
      confirmedDepth := fun hphase ↦ by cases hphase
      finalizedDepth := fun hphase ↦ by cases hphase }
  | finalized hphase hcanonical hhead hdepth =>
    obtain rfl := List.mem_singleton.mp hs
    obtain ⟨hanchor, hresume, -⟩ := h.anchored t rfl (.inr hphase)
    have hdelivered : Delivered past := by
      obtain ⟨s, earlier, hdue, -⟩ | ⟨-, hdelivered⟩ := h.confirmed t rfl hphase
      · cases hdue
      · exact hdelivered
    exact {
      registered := (h.live t rfl).1
      anchor := hanchor
      resumed := hresume
      reorged := fun hphase ↦ by cases hphase
      confirmed := fun hphase ↦ by cases hphase
      finalized := fun _ ↦ hdelivered
      last := (h.live t rfl).2
      minedDepth := fun hphase ↦ by cases hphase
      confirmedDepth := fun hphase ↦ by cases hphase
      finalizedDepth := fun _ ↦ hdepth }

/-- After a status of a transaction that is seen in a block, the entry is what the stream tells. -/
theorem Tells.seen (h : Tells ⟨some t, turn, []⟩ past) (hphase : t.phase ≠ .confirmed)
    (hnumber : blockNumber ≠ 0)
    (ha : Admissible cfg (.seen cfg tx blockHash blockNumber depth) past) :
    Tells ⟨some (.seen cfg blockHash blockNumber depth), none,
        [.seen cfg tx blockHash blockNumber depth]⟩
      (.emitted (.seen cfg tx blockHash blockNumber depth) :: past) := by
  obtain ⟨hpending, hreorged, hfinal⟩ := phaseAt_ne cfg depth
  have hover : (Event.emitted (.seen cfg tx blockHash blockNumber depth)).startsOver = false :=
    decide_eq_false hreorged
  have hrestarts : (Event.emitted (.seen cfg tx blockHash blockNumber depth)).restarts = false :=
    decide_eq_false hreorged
  have hresume : resumeOf (.emitted (.seen cfg tx blockHash blockNumber depth) :: past) =
      resumeOf past := if_neg hreorged
  constructor
  case live =>
    rintro t' -
    refine ⟨ha.registered.imp fun anchor hmem ↦ List.mem_cons_of_mem _ hmem, fun s hs ↦ ?_⟩
    rw [since_cons] at hs
    obtain hs | hs := List.mem_cons.mp hs
    · cases hs
      exact hfinal
    · exact ha.last s hs
  case pending =>
    rintro t' ⟨⟩ hphase'
    exact absurd hphase' hpending
  case anchored =>
    rintro t' ⟨⟩ -
    rw [hresume, since_cons, hover]
    refine ⟨fun s hs ↦ ?_, ha.resumed, .inr ⟨_, List.mem_cons_self, ?_⟩⟩
    · obtain hs | hs := List.mem_cons.mp hs
      · cases hs
        rfl
      · exact ha.anchor s hs
    · obtain ⟨-, hat⟩ | ⟨-, hat⟩ := phaseAt_cases cfg depth
      · exact .inr hat
      · exact .inl hat
  case mined =>
    rintro t' ⟨⟩ hmined
    refine ⟨hnumber, fun s hs hs' ↦ ⟨hmined, ?_⟩⟩
    rw [since_cons, hrestarts] at hs
    obtain hs | hs := List.mem_cons.mp hs
    · cases hs
      exact UInt64.le_refl _
    · exact UInt64.le_of_lt ((ha.minedDepth hmined).2.2 s hs hs')
  case unconfirmed =>
    rintro t' ⟨⟩ hunconfirmed
    refine (h.unconfirmed t rfl hphase).cons ?_
    rintro s ⟨⟩
    exact hunconfirmed
  case confirmed =>
    rintro t' ⟨⟩ hconfirmed
    exact .inl ⟨_, past, rfl, hconfirmed, rfl, h.unconfirmed t rfl hphase, hnumber⟩
  case due =>
    intro s hs hconfirmed
    obtain rfl := List.mem_singleton.mp hs
    exact ⟨_, rfl, hconfirmed⟩

/-- Nothing is told about a transaction without an entry. -/
theorem Tells.absent {due : List Status} (hdue : ∀ s ∈ due, s.phase ≠ .confirmed) :
    Tells ⟨none, turn, due⟩ past where
  live _ h := by cases h
  pending _ h := by cases h
  anchored _ h := by cases h
  mined _ h := by cases h
  unconfirmed _ h := by cases h
  confirmed _ h := by cases h
  due s hs hphase := absurd hphase (hdue s hs)

/-- A visit keeps the entry what the stream tells. -/
theorem Tells.visited (h : Tells ⟨some t, turn, []⟩ past) (hnumbered : Numbered answers)
    (ho : Observed cfg head tx answers t entry out) :
    Tells ⟨entry, none, out⟩ (out.map .emitted ++ past) := by
  cases ho with
  | silent => exact ⟨h.live, h.pending, h.anchored, h.mined, h.unconfirmed, h.confirmed, h.due⟩
  | sighted receipt hphase hreceipt =>
    have hne : t.phase ≠ .confirmed := by
      rw [hphase]
      decide
    exact h.seen hne (hnumbered receipt hreceipt)
      (h.admissible (.sighted receipt hphase hreceipt) List.mem_cons_self)
  | deepened hphase hcanonical hhead hnews =>
    have hne : t.phase ≠ .confirmed := by
      rw [hphase]
      decide
    exact h.seen hne (h.mined t rfl hphase).1
      (h.admissible (.deepened hphase hcanonical hhead hnews) List.mem_cons_self)
  | orphaned hanchored horphaned =>
    have hlive := h.live t rfl
    constructor
    case live =>
      rintro t' -
      refine ⟨hlive.1.imp fun anchor hmem ↦ List.mem_cons_of_mem _ hmem, fun s hs ↦ ?_⟩
      obtain hs | hs := List.mem_cons.mp hs
      · cases hs
        exact Phase.noConfusion
      · exact hlive.2 s hs
    case pending =>
      rintro t' ⟨⟩ -
      exact ⟨rfl, fun s hs ↦ by cases hs⟩
    case anchored =>
      rintro t' ⟨⟩ hanchored'
      exact absurd hanchored' (by decide)
    case mined =>
      rintro t' ⟨⟩ hphase
      cases hphase
    case unconfirmed => exact fun _ _ _ ↦ unconfirmed_of_startsOver rfl
    case confirmed =>
      rintro t' ⟨⟩ hphase
      cases hphase
    case due =>
      intro s hs hphase
      obtain rfl := List.mem_singleton.mp hs
      cases hphase
  | finalized hphase hcanonical hhead hdepth =>
    refine .absent fun s hs hphase ↦ ?_
    obtain rfl := List.mem_singleton.mp hs
    cases hphase

end Visit

/-! ### Registrations and deliveries -/

section Step

variable {entry : Option Tracked} {turn : Option UInt64} {due : List Status} {s : Status}

/-- A delivery that does not take a confirmation back. -/
theorem Tells.delivered (h : Tells ⟨entry, none, s :: due⟩ past) {ok : Bool}
    (hkept : ok = true ∨ s.phase ≠ .confirmed) :
    Tells ⟨entry, none, due⟩ (.delivered s ok :: past) := by
  have hrestarts : (Event.delivered s ok).restarts = false := by
    obtain rfl | hphase := hkept
    · simp [Event.restarts]
    · simp [Event.restarts, hphase]
  have hmem : ∀ {s' : Status} {l : List Event},
      .emitted s' ∈ Event.delivered s ok :: l ↔ .emitted s' ∈ l := by
    simp
  constructor
  case live =>
    intro t ht
    obtain ⟨⟨anchor, hanchor⟩, hlast⟩ := h.live t ht
    exact ⟨⟨anchor, List.mem_cons_of_mem _ hanchor⟩, fun s' hs' ↦ hlast s' (hmem.mp hs')⟩
  case pending =>
    intro t ht hphase
    obtain ⟨hresume, hnone⟩ := h.pending t ht hphase
    exact ⟨hresume, fun s' hs' ↦ hnone s' (hmem.mp hs')⟩
  case anchored =>
    intro t ht hanchored
    obtain ⟨hanchor, hresume, hbefore⟩ := h.anchored t ht hanchored
    refine ⟨fun s' hs' ↦ hanchor s' (hmem.mp hs'), hresume, hbefore.imp_right ?_⟩
    exact fun ⟨s', hs', hphase⟩ ↦ ⟨s', hmem.mpr hs', hphase⟩
  case mined =>
    intro t ht hphase
    obtain ⟨hnumber, hdepths⟩ := h.mined t ht hphase
    refine ⟨hnumber, fun s' hs' ↦ hdepths s' ?_⟩
    rw [since_cons, hrestarts] at hs'
    exact hmem.mp hs'
  case unconfirmed => exact fun t ht hphase ↦ (h.unconfirmed t ht hphase).cons fun s' ↦ by simp
  case confirmed =>
    intro t ht hphase
    obtain ⟨s', earlier, hdue, hconfirmed, rfl, -, -⟩ | ⟨hdue, hdelivered⟩ := h.confirmed t ht hphase
    · obtain ⟨rfl, rfl⟩ := List.cons.inj hdue
      obtain rfl | hkept := hkept
      · refine .inr ⟨fun s' hs' ↦ (by cases hs'), .inr ⟨s, hconfirmed, ?_, ?_⟩⟩
        · simp [Event.startsOver, hconfirmed]
        · simp [Event.startsOver]
      · exact absurd hconfirmed hkept
    · refine .inr ⟨fun s' hs' ↦ hdue s' (List.mem_cons_of_mem _ hs'), hdelivered.imp_right ?_⟩
      rintro ⟨s', hs', hemitted, hdelivered⟩
      exact ⟨s', hs', hmem.mpr hemitted, List.mem_cons_of_mem _ hdelivered⟩
  case due => exact fun s' hs' ↦ h.due s' (List.mem_cons_of_mem _ hs')

/-- The failed delivery of a confirmation takes the entry back to mined. -/
theorem Tells.rolledBack {t : Tracked} (h : Tells ⟨some t, none, s :: due⟩ past)
    (hs : s.phase = .confirmed) (ht : t.phase = .confirmed) :
    Tells ⟨some t.rolledBack, none, due⟩ (.delivered s false :: past) := by
  obtain ⟨s', earlier, hdue, -, rfl, hunconfirmed, hnumber⟩ | ⟨hdue, -⟩ := h.confirmed t rfl ht
  · obtain ⟨rfl, rfl⟩ := List.cons.inj hdue
    obtain ⟨hanchor, hresume, hbefore⟩ := h.anchored t rfl (.inr ht)
    obtain ⟨⟨anchor, hregistered⟩, hlast⟩ := h.live t rfl
    constructor
    case live =>
      rintro t' -
      exact ⟨⟨anchor, List.mem_cons_of_mem _ hregistered⟩, fun s' hs' ↦
        hlast s' (by simpa [Event.registers] using hs')⟩
    case pending =>
      rintro t' ⟨⟩ hphase
      cases hphase
    case anchored =>
      rintro t' ⟨⟩ -
      refine ⟨fun s' hs' ↦ hanchor s' ?_, hresume, hbefore.imp_right ?_⟩
      · rw [since_cons] at hs'
        simpa [Event.startsOver] using hs'
      · rintro ⟨s', hs', hphase⟩
        exact ⟨s', List.mem_cons_of_mem _ hs', hphase⟩
    case mined =>
      rintro t' ⟨⟩ -
      refine ⟨hnumber, fun s' hs' ↦ ?_⟩
      simp [Event.restarts, hs] at hs'
    case unconfirmed => exact fun _ _ _ ↦ hunconfirmed.failed s
    case confirmed =>
      rintro t' ⟨⟩ hphase
      cases hphase
    case due => exact fun s' hs' ↦ by cases hs'
  · exact absurd hs (hdue s List.mem_cons_self)

theorem Tells.tracked (h : Tells ⟨none, turn, due⟩ past) :
    Tells ⟨some .fresh, turn, due⟩ (.registered none :: past) where
  live _ _ := ⟨⟨none, List.mem_cons_self⟩, fun s hs ↦ by cases hs⟩
  pending _ _ _ := ⟨rfl, fun s hs ↦ by cases hs⟩
  anchored t ht hanchored := by
    cases ht
    exact absurd hanchored (by decide)
  mined t ht hphase := by
    cases ht
    cases hphase
  unconfirmed _ _ _ := unconfirmed_of_startsOver rfl
  confirmed t ht hphase := by
    cases ht
    cases hphase
  due s hs hphase := by
    obtain ⟨t, ht, -⟩ := h.due s hs hphase
    cases ht

theorem Tells.resumed (h : Tells ⟨none, turn, due⟩ past) (blockHash : String)
    (blockNumber : UInt64) :
    Tells ⟨some (.resumed cfg (hexToHash blockHash) blockNumber), turn, due⟩
      (.registered (some (resumeAnchor blockHash blockNumber)) :: past) where
  live _ _ := ⟨⟨_, List.mem_cons_self⟩, fun s hs ↦ by cases hs⟩
  pending t ht hphase := by
    cases ht
    cases hphase
  anchored t ht _ := by
    cases ht
    exact ⟨fun s hs ↦ (by cases hs), fun anchor hanchor ↦ Option.some.inj hanchor, .inl rfl⟩
  mined t ht hphase := by
    cases ht
    cases hphase
  unconfirmed _ _ _ := unconfirmed_of_startsOver rfl
  confirmed _ _ _ := by
    refine .inr ⟨fun s hs hphase ↦ ?_, .inl rfl⟩
    obtain ⟨t, ht, -⟩ := h.due s hs hphase
    cases ht
  due s hs hphase := by
    obtain ⟨t, ht, -⟩ := h.due s hs hphase
    cases ht

end Step

/-! ### Whole runs -/

variable {v v' : View} {new : List Event} {w : Watcher}

/-- One step keeps the entry what the stream tells. -/
theorem Tells.step (h : Tells v past) (hshape : ∀ t ∈ v.entry, t.Shape)
    (hstep : ViewStep cfg Numbered tx v new v') : Tells v' (new ++ past) := by
  cases hstep with
  | unseen => exact h
  | tracked turn due => exact h.tracked
  | resumed turn due blockHash blockNumber hhash => exact h.resumed blockHash blockNumber
  | begun t head => exact ⟨h.live, h.pending, h.anchored, h.mined, h.unconfirmed, h.confirmed, h.due⟩
  | visited t head answers hserved entry out hvisit =>
    have ho := observed cfg head tx answers (hshape t rfl)
    rw [hvisit] at ho
    exact h.visited hserved ho
  | delivered entry s due ok =>
    cases ok with
    | true => exact h.delivered (.inl rfl)
    | false =>
      by_cases hs : s.phase = .confirmed
      · obtain ⟨t, rfl, ht⟩ := h.due s List.mem_cons_self hs
        have hfailed : t.afterFailure s = t.rolledBack := if_pos ⟨hs, ht⟩
        rw [afterDelivery, if_neg Bool.false_ne_true, Option.map_some, hfailed]
        exact h.rolledBack hs ht
      · have hkept : Tracked.afterFailure s = id :=
          funext fun t ↦ if_neg fun hboth ↦ hs hboth.1
        rw [afterDelivery, if_neg Bool.false_ne_true, hkept, Option.map_id, id]
        exact h.delivered (.inr hs)

theorem Traced.reached {served : Answers → Prop} (h : Traced cfg served tx w past) :
    w.Reached cfg := by
  induction h with
  | start => exact .start
  | step run hserves hstep ih => exact ih.step hstep

theorem Traced.orderly {served : Answers → Prop} (h : Traced cfg served tx w past) : w.Orderly :=
  h.reached.orderly

/-- In every run the entry is what the stream tells. -/
theorem Traced.tells (h : Traced cfg Numbered tx w past) : Tells (w.view tx) past := by
  induction h with
  | start => exact .absent fun s hs ↦ by cases hs
  | step run hserves hstep ih =>
    exact ih.step (fun t ht ↦ run.orderly.shape tx t ht) (view_step run.orderly hserves hstep)

/-- The status that a step of a view emits continues the stream well. -/
theorem ViewStep.admissible (hstep : ViewStep cfg Numbered tx v new v') (h : Tells v past)
    (hshape : ∀ t ∈ v.entry, t.Shape) {s : Status} (hs : .emitted s ∈ new) :
    new = [.emitted s] ∧ Admissible cfg s past := by
  cases hstep with
  | visited t head answers hserved entry out hvisit =>
    have ho := observed cfg head tx answers (hshape t rfl)
    rw [hvisit] at ho
    obtain ⟨s', hs', heq⟩ := List.mem_map.mp hs
    cases heq
    have hone : out = [s] := (ho.of_mem hs').2
    exact ⟨by rw [hone, List.map_singleton], h.admissible ho hs'⟩
  | unseen => cases hs
  | begun => cases hs
  | tracked | resumed | delivered => simp at hs

/-- Over every run of the watcher, every status about a transaction continues the stream of that
transaction well. -/
theorem stream_admissible (h : Traced cfg Numbered tx w past) {later earlier : List Event}
    {s : Status} (hpast : past = later ++ .emitted s :: earlier) : Admissible cfg s earlier := by
  induction h generalizing later with
  | start => simp at hpast
  | @step w w' past act run hserves hstep ih =>
    have hview : ViewStep cfg Numbered tx (w.view tx) (events cfg tx w act) (w'.view tx) :=
      view_step run.orderly hserves hstep
    have hshape := fun t (ht : t ∈ (w.view tx).entry) ↦ run.orderly.shape tx t ht
    -- the status is among the events of the last step, or of an earlier one
    obtain ⟨rest, rfl, hrest⟩ | ⟨rest, hnew, hrest⟩ := List.append_eq_append_iff.mp hpast
    · exact ih hrest
    · cases rest with
      | nil =>
        have hrest : past = [] ++ .emitted s :: earlier := hrest.symm
        exact ih hrest
      | cons e rest =>
        obtain ⟨rfl, htail⟩ := List.cons.inj hrest
        obtain ⟨hone, hadmissible⟩ := hview.admissible run.tells hshape
          (s := s) (hnew ▸ List.mem_append_right _ List.mem_cons_self)
        rw [hone] at hnew
        obtain ⟨rfl, rfl⟩ : later = [] ∧ rest = [] := by
          cases later with
          | nil => exact ⟨rfl, (List.cons.inj hnew).2.symm⟩
          | cons e later => simp at hnew
        obtain rfl : earlier = past := htail
        exact hadmissible

/-! ### A sample run -/

/-- The watcher and the events about a transaction after a list of steps. -/
def trace (cfg : Config) (tx : TxHash) :
    List Act → Watcher → List Event → Option (Watcher × List Event)
  | [], w, past => some (w, past)
  | act :: acts, w, past =>
    (w.step cfg act).bind fun w' ↦ trace cfg tx acts w' (events cfg tx w act ++ past)

theorem Traced.trace {served : Answers → Prop} {acts : List Act} {w' : Watcher}
    {past' : List Event} (run : Traced cfg served tx w past)
    (hserves : ∀ act ∈ acts, act.Serves served)
    (htrace : trace cfg tx acts w past = some (w', past')) : Traced cfg served tx w' past' := by
  induction acts generalizing w past with
  | nil =>
    cases htrace
    exact run
  | cons act acts ih =>
    obtain ⟨mid, hstep, hrest⟩ := Option.bind_eq_some_iff.mp htrace
    exact ih (run.step (hserves act List.mem_cons_self) hstep)
      (fun act' hact ↦ hserves act' (List.mem_cons_of_mem _ hact)) hrest

/-- A pass over one transaction, with the statuses it emits handed to the sink. -/
def samplePass (head : UInt64) (answers : Answers) (outcomes : List Bool) : List Act :=
  .pollStart head [sampleTx] :: .visit answers :: .pollEnd :: outcomes.map .deliver

/-- Confirmed in block 9, then orphaned, then confirmed in block 10. -/
def sampleActs : List Act :=
  .track sampleTx :: (samplePass 10 (sampleAnswers 1 9) [true] ++
    samplePass 11 ⟨.notFound, fun _ ↦ .fault⟩ [true] ++ samplePass 12 (sampleAnswers 2 10) [])

/-- The second confirmation of the sample run. -/
def sampleStatus : Status := ⟨sampleTx, .confirmed, (2 : Hash).hex, 10, 3⟩

/-- The events before it. -/
def samplePast : List Event :=
  [.delivered ⟨sampleTx, .reorged, (1 : Hash).hex, 9, 0⟩ true,
    .emitted ⟨sampleTx, .reorged, (1 : Hash).hex, 9, 0⟩,
    .delivered ⟨sampleTx, .confirmed, (1 : Hash).hex, 9, 2⟩ true,
    .emitted ⟨sampleTx, .confirmed, (1 : Hash).hex, 9, 2⟩, .registered none]

/-- The stream of a reorg and a new confirmation, reached by a run. -/
theorem stream_admissible_reorg :
    (∃ w, Traced sampleConfig Numbered sampleTx w (.emitted sampleStatus :: samplePast)) ∧
      Admissible sampleConfig sampleStatus samplePast := by
  have htrace : (trace sampleConfig sampleTx sampleActs .empty []).map Prod.snd =
      some (.emitted sampleStatus :: samplePast) := by decide +kernel
  obtain ⟨⟨w, past⟩, hw, rfl⟩ := Option.map_eq_some_iff.mp htrace
  have hserves : ∀ act ∈ sampleActs, act.Serves Numbered := by
    simp [sampleActs, samplePass, Act.Serves, Numbered, sampleAnswers]
  have hrun := Traced.trace .start hserves hw
  have hlast : Event.emitted sampleStatus :: samplePast =
      [] ++ .emitted sampleStatus :: samplePast := rfl
  exact ⟨⟨w, hrun⟩, stream_admissible hrun hlast⟩

end PaymentRail.Chain
