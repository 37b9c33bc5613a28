import PaymentRail.Chainwatcher.Process

/-!
# Confirmations whose delivery failed

In every run of the process, whatever the node answers and however the deliveries end, an entry that
stands as confirmed between two passes has a row that is settled or finalized.  A row that is neither
is therefore still watched for a confirmation: after a re-scan, a pass in which its transaction is
deep enough surfaces it again, provided that the watcher's own anchor, if it has one, can be checked.
-/

namespace PaymentRail.Chainwatcher

open Transaction Chain Rail

/-- The row is there, and its money is with the clearing account. -/
def Cleared (row : Option Settlement) : Prop :=
  ∃ r ∈ row, r.status = .settled ∨ r.status = .finalized

/-- What holds of every transaction in every run. -/
structure Steady (g : Glimpse) : Prop where
  linked : g.view.entry.isSome ∨ g.view.due ≠ [] ∨ g.listed ≠ [] → g.row.isSome
  single : g.view.due.length ≤ 1
  confirmed : ∀ t ∈ g.view.entry, t.phase = .confirmed →
    (∃ s ∈ g.view.due, s.phase = .confirmed) ∨ Cleared g.row
  reorged : ∀ s ∈ g.view.due, s.phase = .reorged → ∀ t ∈ g.view.entry, t.phase ≠ .confirmed
  evicted : g.view.entry = none → ∀ s ∈ g.view.due, s.phase = .finalized
  /-- A row that was listed as settled and may be registered is still settled, or finalized. -/
  stale : g.view.entry = none → ∀ r ∈ g.listed, r.status = .settled → Cleared g.row

section Step

variable {cfg : Config} {tx : TxHash} {served : Answers → Prop} {head : UInt64} {answers : Answers}
  {t : Tracked} {entry : Option Tracked} {out due : List Status} {turn : Option UInt64}
  {row row' : Option Settlement} {r r' : Settlement} {st : Status} {listed : List Settlement}
  {g g' : Glimpse} {move : TxMove} {outcome : Outcome}

/-- The entry that a row is registered with is new, or stands for the settlement of the row. -/
theorem seededEntry_cases (h : seededEntry cfg r = some t) :
    t = .fresh ∨ r.status = .settled ∧ t.phase = .confirmed := by
  unfold seededEntry at h
  split at h
  · next hstatus _ =>
    split at h
    · cases h
      exact .inr ⟨hstatus, rfl⟩
    · cases h
  · split at h
    · cases h
      exact .inl rfl
    · cases h

theorem Steady.seeded {view : View} (h : Steady ⟨view, row, r :: listed⟩) :
    Steady ⟨{ view with entry := view.entry.or (seededEntry cfg r) }, row, listed⟩ := by
  obtain ⟨entry, turn, due⟩ := view
  have hrow : row.isSome := h.linked (.inr (.inr (List.cons_ne_nil _ _)))
  have hstale : entry = none → ∀ r' ∈ listed, r'.status = .settled → Cleared row :=
    fun hnone r' hr' ↦ h.stale hnone r' (List.mem_cons_of_mem _ hr')
  cases entry with
  | some t => exact ⟨fun _ ↦ hrow, h.single, h.confirmed, h.reorged, h.evicted, hstale⟩
  | none =>
    refine ⟨fun _ ↦ hrow, h.single, fun t ht hphase ↦ ?_, fun s hs hreorged ↦ ?_,
      fun _ ↦ h.evicted rfl, fun _ ↦ hstale rfl⟩
    · obtain rfl | ⟨hsettled, -⟩ := seededEntry_cases ht
      · cases hphase
      · exact .inr (h.stale rfl r List.mem_cons_self hsettled)
    · cases (h.evicted rfl s hs).symm.trans hreorged

theorem Steady.visited (h : Steady ⟨⟨some t, some head, []⟩, row, listed⟩)
    (ho : Observed cfg head tx answers t entry out) :
    Steady ⟨⟨entry, none, out⟩, row, listed⟩ := by
  have hrow : row.isSome := h.linked (.inl rfl)
  have hcleared : t.phase = .confirmed → Cleared row := fun hphase ↦
    (h.confirmed t rfl hphase).resolve_left fun ⟨s, hs, _⟩ ↦ by cases hs
  have hseen : ∀ blockHash blockNumber depth, Steady ⟨⟨some (.seen cfg blockHash blockNumber depth),
      none, [.seen cfg tx blockHash blockNumber depth]⟩, row, listed⟩ := by
    intro blockHash blockNumber depth
    refine ⟨fun _ ↦ hrow, le_rfl, fun t' ht' hphase ↦ ?_, fun s hs hreorged ↦ ?_, (by simp),
      (by simp)⟩
    · cases ht'
      exact .inl ⟨_, List.mem_cons_self, hphase⟩
    · obtain rfl := List.mem_singleton.mp hs
      obtain ⟨-, hat⟩ | ⟨-, hat⟩ := phaseAt_cases cfg depth <;> cases hat.symm.trans hreorged
  cases ho with
  | silent =>
    exact ⟨fun _ ↦ hrow, Nat.zero_le _, h.confirmed, h.reorged, h.evicted, (by simp)⟩
  | sighted receipt => exact hseen _ _ _
  | deepened => exact hseen _ _ _
  | orphaned =>
    refine ⟨fun _ ↦ hrow, le_rfl, fun t' ht' hphase ↦ ?_, fun s hs _ t' ht' hphase ↦ ?_,
      (by simp), (by simp)⟩ <;>
    · cases ht'
      cases hphase
  | finalized hphase =>
    refine ⟨fun _ ↦ hrow, le_rfl, (by simp), (by simp), fun _ s hs ↦ ?_,
      fun _ _ _ _ ↦ hcleared hphase⟩
    obtain rfl := List.mem_singleton.mp hs
    rfl

/-- An entry that is confirmed after a delivery was so before, and its confirmation did not fail. -/
theorem confirmed_of_afterDelivery {ok : Bool} {t' : Tracked}
    (h : t' ∈ afterDelivery st ok entry) (hphase : t'.phase = .confirmed) :
    t' ∈ entry ∧ (ok = false → st.phase ≠ .confirmed) := by
  cases ok with
  | true => exact ⟨h, fun hok ↦ by cases hok⟩
  | false =>
    obtain ⟨t, ht, rfl⟩ := Option.map_eq_some_iff.mp h
    unfold Tracked.afterFailure at hphase ⊢
    split at hphase
    · cases hphase
    · next hkept =>
      rw [if_neg hkept]
      exact ⟨ht, fun _ hst ↦ hkept ⟨hst, hphase⟩⟩

theorem Steady.delivered (h : Steady ⟨⟨entry, none, st :: due⟩, row, listed⟩)
    (hfailed : outcome = .failed → row' = row)
    (hmoved : outcome ≠ .failed → ∀ r ∈ row, ∃ r' ∈ row', Moved st r r') :
    Steady ⟨⟨afterDelivery st outcome.ok entry, none, due⟩, row', listed⟩ := by
  obtain rfl : due = [] := List.eq_nil_of_length_eq_zero (Nat.le_zero.mp (Nat.le_of_succ_le_succ h.single))
  obtain ⟨r, hr⟩ := Option.isSome_iff_exists.mp (h.linked (.inr (.inl (List.cons_ne_nil _ _))))
  have hrow : row'.isSome := by
    by_cases hout : outcome = .failed
    · rw [hfailed hout]
      exact Option.isSome_iff_exists.mpr ⟨r, hr⟩
    · obtain ⟨r', hr', -⟩ := hmoved hout r hr
      exact Option.isSome_iff_exists.mpr ⟨r', hr'⟩
  have hkept : Cleared row → st.phase ≠ .reorged → Cleared row' := by
    rintro ⟨r, hr, hcleared⟩ hphase
    by_cases hout : outcome = .failed
    · rw [hfailed hout]
      exact ⟨r, hr, hcleared⟩
    · obtain ⟨r', hr', hmove⟩ := hmoved hout r hr
      exact ⟨r', hr', hmove.cleared hphase hcleared⟩
  have hnone : afterDelivery st outcome.ok entry = none → entry = none := by
    unfold afterDelivery
    split
    · exact id
    · exact Option.map_eq_none_iff.mp
  refine ⟨fun _ ↦ hrow, Nat.zero_le _, fun t ht hphase ↦ .inr ?_, (by simp), (by simp),
    fun hentry r hr hsettled ↦ ?_⟩
  · obtain ⟨hold, hok⟩ := confirmed_of_afterDelivery ht hphase
    by_cases hst : st.phase = .confirmed
    · have hout : outcome ≠ .failed := by
        rintro rfl
        exact hok rfl hst
      obtain ⟨r', hr', hmove⟩ := hmoved hout r hr
      exact ⟨r', hr', hmove.cleared_of_confirmed hst⟩
    · have hcleared := (h.confirmed t hold hphase).resolve_left fun ⟨s, hs, hconfirmed⟩ ↦ by
        obtain rfl := List.mem_singleton.mp hs
        exact hst hconfirmed
      exact hkept hcleared fun hreorged ↦ h.reorged st List.mem_cons_self hreorged t hold hphase
  · have hfinal := h.evicted (hnone hentry) st List.mem_cons_self
    refine hkept (h.stale (hnone hentry) r hr hsettled) fun hreorged ↦ ?_
    cases hfinal.symm.trans hreorged

theorem Steady.step (h : Steady g) (hshape : ∀ t ∈ g.view.entry, t.Shape)
    (hseen : Seen cfg served tx g move g') : Steady g' := by
  cases hseen with
  | unseen => exact h
  | linked view listed r =>
    have hnothing : ¬(view.entry.isSome ∨ view.due ≠ [] ∨ listed ≠ []) := fun hsome ↦ by
      cases h.linked hsome
    obtain ⟨hentry, hrest⟩ := not_or.mp hnothing
    obtain ⟨-, hlisted⟩ := not_or.mp hrest
    refine ⟨fun _ ↦ rfl, h.single, fun t ht ↦ ?_, h.reorged, h.evicted, fun _ r hr ↦ ?_⟩
    · exact absurd (Option.isSome_iff_exists.mpr ⟨t, ht⟩) hentry
    · rw [not_not.mp hlisted] at hr
      cases hr
  | listed view row listed hlisted =>
    refine ⟨fun hsome ↦ ?_, h.single, h.confirmed, h.reorged, h.evicted, fun _ r hr hsettled ↦ ?_⟩
    · obtain hentry | hdue | hlist := hsome
      · exact h.linked (.inl hentry)
      · exact h.linked (.inr (.inl hdue))
      · obtain ⟨r, hr⟩ := List.exists_mem_of_ne_nil _ hlist
        exact Option.isSome_iff_exists.mpr ⟨r, hlisted r hr⟩
    · exact ⟨r, hlisted r hr, .inl hsettled⟩
  | seeded view row r rest => exact h.seeded
  | begun t head row listed =>
    exact ⟨h.linked, h.single, h.confirmed, h.reorged, h.evicted, h.stale⟩
  | visited t head answers hserved entry out hvisit row listed =>
    have ho := observed cfg head tx answers (hshape t rfl)
    rw [hvisit] at ho
    exact h.visited ho
  | delivered entry st due outcome row row' listed hfailed hmoved => exact h.delivered hfailed hmoved

end Step

section Runs

variable {rt : Audit.Runtime} {cfg : Config} {tx : TxHash} {start : Db} {p : Proc} {head : UInt64}
  {answers : Answers} {t : Tracked} {row : Settlement}

theorem Reached.steady {admits : Proc → Move → Prop}
    (hkeys : (start.settlements.map Settlement.txHash).Nodup)
    (h : Reached rt cfg admits start p) (tx : TxHash) : Steady (p.glimpse tx) := by
  refine h.glimpse_induction Steady hkeys ?_ fun p move g hsound _ hsteady hseen ↦ ?_
  · constructor <;> simp
  · exact hsteady.step (fun t ht ↦ hsound.orderly.shape tx t ht) hseen

/-- Between two passes nothing is due. -/
theorem glimpse_of_waiting (hwaiting : p.watcher.Waiting) :
    p.glimpse tx = ⟨⟨p.watcher.tracked.lookup tx, none, []⟩, p.db.settlement tx,
      p.scan.filter (·.txHash = tx)⟩ := by
  have hstage : p.watcher.stage = .delivering [] := hwaiting
  simp [Proc.glimpse, Watcher.view, hstage, Stage.turn, Stage.statuses]

/-- The header at the height of an anchor is served, and the anchor is deep enough if it is the block
at that height. -/
def Checkable (cfg : Config) (head : UInt64) (answers : Answers) (t : Tracked) : Prop :=
  ∃ hash, answers.header t.blockNumber = .found hash ∧
    (hash = t.blockHash → cfg.depth ≤ confirmations head t.blockNumber)

theorem le_of_deep {number : UInt64} (h : cfg.depth ≤ confirmations head number) :
    number ≤ head ∧ confirmations head number = head - number + 1 := by
  unfold confirmations at h ⊢
  split at h
  · exact absurd cfg.depth_pos (UInt64.not_lt.mpr h)
  · next hlag =>
    rw [if_neg hlag]
    exact ⟨UInt64.not_lt.mp hlag, rfl⟩

theorem receiptDepth_of_deep {number : UInt64} (h : cfg.depth ≤ confirmations head number) :
    receiptDepth head number = confirmations head number := by
  unfold receiptDepth
  split
  · next hzero =>
    rw [hzero] at h
    exact absurd cfg.depth_pos (UInt64.not_lt.mpr h)
  · rfl

theorem phaseAt_of_deep {depth : UInt64} (h : cfg.depth ≤ depth) : phaseAt cfg depth = .confirmed :=
  if_pos h

/-- An entry that is not confirmed is surfaced, as confirmed or as reorged, once its transaction is
deep enough and its anchor can be checked. -/
theorem surfaced (hshape : t.Shape) (hphase : t.phase ≠ .confirmed) {receipt : Receipt}
    (hreceipt : answers.receipt = .found receipt)
    (hdeep : cfg.depth ≤ confirmations head receipt.blockNumber)
    (hmined : t.phase = .mined → Checkable cfg head answers t) :
    ∃ s ∈ (observe cfg head tx answers t).2, s.phase = .confirmed ∨ s.phase = .reorged := by
  obtain hpending | hanchored | hconfirmed := hshape.pending_or_anchored
  · rw [observe_receipt hshape hpending hreceipt, receiptDepth_of_deep hdeep]
    exact ⟨_, List.mem_cons_self, .inl (phaseAt_of_deep hdeep)⟩
  · obtain ⟨hash, hheader, hanchor⟩ := hmined hanchored
    by_cases hhash : hash = t.blockHash
    · have hcanonical : checkAnchor answers t = .canonical := by
        simp only [checkAnchor, hreceipt, hheader, hhash, ne_eq, not_true_eq_false, if_false]
      have hdeep' := hanchor hhash
      obtain ⟨hle, hdepth⟩ := le_of_deep hdeep'
      rw [hdepth] at hdeep'
      rw [observe_mined hshape hanchored hcanonical hle,
        if_neg fun hshallow ↦ absurd hshallow.1 (UInt64.not_lt.mpr hdeep')]
      exact ⟨_, List.mem_cons_self, .inl (phaseAt_of_deep hdeep')⟩
    · have horphaned : checkAnchor answers t = .orphaned := by
        simp only [checkAnchor, hreceipt, hheader, ne_eq, hhash, not_false_eq_true, if_true]
      rw [observe_orphaned hshape (.inl hanchored) horphaned]
      exact ⟨_, List.mem_cons_self, .inr rfl⟩
  · exact absurd hconfirmed hphase

/-- A re-scan registers a transaction without an entry from one of the rows it knows. -/
theorem rescan_seeded {t₀ : Tracked} (hrow : p.db.settlement tx = some row)
    (hstatus : row.status = .pending ∨ row.status = .settled ∨ row.status = .reorged)
    (hseeded : seededEntry cfg row = some t₀) {w : Watcher}
    (hlookup : w.tracked.lookup tx = ((p.scan.filter (·.txHash = tx)) ++
      (listPendingSettlements p.db).filter (·.txHash = tx)).findSome? (seededEntry cfg)) :
    ∃ t r, w.tracked.lookup tx = some t ∧ seededEntry cfg r = some t ∧
      r ∈ p.scan.filter (·.txHash = tx) ++ (listPendingSettlements p.db).filter (·.txHash = tx) := by
  have hmem := List.mem_append_right (p.scan.filter (·.txHash = tx)) (mem_listed hrow hstatus)
  obtain ⟨t, ht⟩ := Option.isSome_iff_exists.mp (List.findSome?_isSome_iff.mpr
    ⟨row, hmem, Option.isSome_iff_exists.mpr ⟨t₀, hseeded⟩⟩)
  obtain ⟨r, hr, hrt⟩ := List.exists_of_findSome?_eq_some ht
  exact ⟨t, r, hlookup.trans ht, hrt, hr⟩

/-- An open row with a valid hash is registered by a re-scan, and the re-scan makes no mined entry. -/
theorem rescan_open (hrow : p.db.settlement tx = some row)
    (hopen : row.status = .pending ∨ row.status = .reorged) (hhash : isHexTxHash tx = true)
    {w : Watcher} (hlookup : w.tracked.lookup tx = ((p.watcher.tracked.lookup tx).or
        ((p.scan.filter (·.txHash = tx)).findSome? (seededEntry cfg))).or
          (((listPendingSettlements p.db).filter (·.txHash = tx)).findSome? (seededEntry cfg))) :
    ∃ t, w.tracked.lookup tx = some t ∧
      (t.phase = .mined → p.watcher.tracked.lookup tx = some t) := by
  cases hold : p.watcher.tracked.lookup tx with
  | some t =>
    rw [hold] at hlookup
    exact ⟨t, hlookup, fun _ ↦ rfl⟩
  | none =>
    rw [hold, Option.none_or, ← List.findSome?_append] at hlookup
    have hfresh : seededEntry cfg row = some .fresh := by
      unfold seededEntry
      split
      · next hsettled _ =>
        rw [hsettled] at hopen
        obtain hopen | hopen := hopen <;> cases hopen
      · rw [Table.key_of_lookup hrow, if_pos hhash]
    obtain ⟨t, r, ht, hr, -⟩ := rescan_seeded hrow (hopen.imp_right .inr) hfresh hlookup
    refine ⟨t, ht, fun hmined ↦ ?_⟩
    obtain rfl | ⟨-, hconfirmed⟩ := seededEntry_cases hr
    · cases hmined
    · cases hconfirmed.symm.trans hmined

/-- In every run, with any answers and any failed deliveries: between two passes every entry that is
confirmed has a row that is settled or finalized; and when a row is open, a re-scan and a pass in
which its transaction is deep enough, and the watcher's own anchor can be checked, emit a confirmation
or a reorg. -/
theorem confirmation_not_lost (hkeys : (start.settlements.map Settlement.txHash).Nodup)
    (h : Reached rt cfg (fun _ _ ↦ True) start p) (hwaiting : p.watcher.Waiting) :
    (∀ t, p.watcher.tracked.lookup tx = some t → t.phase = .confirmed →
      ∃ row, p.db.settlement tx = some row ∧ (row.status = .settled ∨ row.status = .finalized)) ∧
    ∀ row, p.db.settlement tx = some row → row.status = .pending ∨ row.status = .reorged →
      isHexTxHash tx = true → ∃ mid, p.run rt cfg p.rescan = some mid ∧
        ∀ head keys reader receipt, keys.Perm mid.watcher.tracked.keys →
          (reader tx).receipt = .found receipt →
          cfg.depth ≤ confirmations head receipt.blockNumber →
          (∀ t, p.watcher.tracked.lookup tx = some t → t.phase = .mined →
            Checkable cfg head (reader tx) t) →
          ∃ p' queue, mid.run rt cfg (pass head keys reader) = some p' ∧
            p'.watcher.stage = .delivering queue ∧
            ∃ s ∈ queue, s.txHash = tx ∧ (s.phase = .confirmed ∨ s.phase = .reorged) := by
  have hcleared : ∀ {p : Proc}, Reached rt cfg (fun _ _ ↦ True) start p → p.watcher.Waiting →
      ∀ t, p.watcher.tracked.lookup tx = some t → t.phase = .confirmed →
      ∃ row, p.db.settlement tx = some row ∧
        (row.status = .settled ∨ row.status = .finalized) := by
    intro p h hwaiting t ht hphase
    have hsteady := h.steady hkeys tx
    rw [glimpse_of_waiting hwaiting] at hsteady
    exact (hsteady.confirmed t ht hphase).resolve_left fun ⟨s, hs, _⟩ ↦ by cases hs
  refine ⟨hcleared h hwaiting, fun row hrow hopen hhash ↦ ?_⟩
  obtain ⟨w, hrun, hstage, hlookup⟩ :
      ∃ w, p.run rt cfg p.rescan = some ⟨w, p.db, []⟩ ∧ w.stage = p.watcher.stage ∧ _ := run_rescan p
  have hreached : Reached rt cfg (fun _ _ ↦ True) start ⟨w, p.db, []⟩ := by
    refine h.run (fun _ _ _ ↦ trivial) (fun db hworld ↦ ?_) hrun
    simp [Proc.rescan] at hworld
  have hwaiting' : w.Waiting := hstage.trans hwaiting
  refine ⟨_, hrun, fun head keys reader receipt hperm hreceipt hdeep hmined ↦ ?_⟩
  obtain ⟨t, ht, hold⟩ := rescan_open hrow hopen hhash (hlookup tx)
  have hphase : t.phase ≠ .confirmed := by
    intro hconfirmed
    obtain ⟨row', hrow', hstatus⟩ := hcleared hreached hwaiting' t ht hconfirmed
    obtain rfl := Option.some.inj (hrow.symm.trans hrow')
    obtain hopen | hopen := hopen <;> rw [hopen] at hstatus <;> obtain hs | hs := hstatus <;> cases hs
  have hsound := hreached.sound hkeys
  obtain ⟨s, hs, hsurfaced⟩ :
      ∃ s ∈ (observe cfg head tx (reader tx) t).2, s.phase = .confirmed ∨ s.phase = .reorged :=
    surfaced (hsound.orderly.shape tx t ht) hphase hreceipt hdeep fun hphase ↦
      hmined t (hold hphase) hphase
  obtain ⟨w', queue, hpass, hqueue, -, hdue⟩ := run_pass hsound hwaiting' hperm ht
  rw [← hdue, List.mem_filter, decide_eq_true_eq] at hs
  exact ⟨_, queue, hpass, hqueue, s, hs.1, hs.2, hsurfaced⟩

end Runs

/-! ### Sample runs -/

/-- The sample transaction is confirmed and the delivery fails. -/
def undelivered : List Move :=
  [.list, .seed] ++ samplePassOf 10 (sampleAnswers 1 9) ++ [.deliver (sampleAmbient 100) .failed]

/-- The confirmation that could not be delivered is emitted again. -/
theorem confirmation_not_lost_sample : ∃ p mid p' queue, sampleProc undelivered = some p ∧
    p.run sampleRuntime sampleConfig p.rescan = some mid ∧
    mid.run sampleRuntime sampleConfig
      (pass 10 mid.watcher.tracked.keys fun _ ↦ sampleAnswers 1 9) = some p' ∧
    p'.watcher.stage = .delivering queue ∧
    ∃ s ∈ queue, s.txHash = sampleTx ∧ (s.phase = .confirmed ∨ s.phase = .reorged) := by
  have hstate : (sampleProc undelivered).map (fun p ↦ (p.watcher.stage,
      p.watcher.tracked.lookup sampleTx, p.db.settlement sampleTx)) =
      some (.delivering [], some ⟨.mined, 1, 9, .pending, 0⟩, some watchedRow) := by decide +kernel
  obtain ⟨p, hp, hfacts⟩ := Option.map_eq_some_iff.mp hstate
  obtain ⟨hstage, hfacts⟩ := Prod.mk.inj hfacts
  obtain ⟨hentry, hrow⟩ := Prod.mk.inj hfacts
  have hreached : Reached sampleRuntime sampleConfig (fun _ _ ↦ True) watchedDb p :=
    Reached.run .start (fun _ _ _ ↦ trivial) (by simp [undelivered, samplePassOf, pass]) hp
  obtain ⟨mid, hrescan, hpass⟩ := (confirmation_not_lost nodup_watchedDb hreached hstage).2
    watchedRow hrow (.inl rfl) (isHexTxHash_hex 7)
  have hcheckable : ∀ t, p.watcher.tracked.lookup sampleTx = some t → t.phase = .mined →
      Checkable sampleConfig 10 (sampleAnswers 1 9) t := by
    intro t ht _
    obtain rfl := Option.some.inj (hentry.symm.trans ht)
    exact ⟨1, rfl, fun _ ↦ by decide⟩
  obtain ⟨p', queue, hrun, hqueue, hs⟩ := hpass 10 mid.watcher.tracked.keys
    (fun _ ↦ sampleAnswers 1 9) ⟨1, 9, 1⟩ (List.Perm.refl _) rfl (by decide) hcheckable
  exact ⟨p, mid, p', queue, hp, hrescan, hrun, hqueue, hs⟩

/-- The sample transaction is mined at height 12. -/
def minedHigh : List Move :=
  [.list, .seed] ++ samplePassOf 12 (sampleAnswers 1 12) ++ [.deliver (sampleAmbient 100) .applied]

/-- A chain that ends at height 10, with the transaction in its block 9. -/
def shorterChain : Answers :=
  ⟨.found ⟨2, 9, 1⟩, fun number ↦ if number ≤ 10 then .found 2 else .notFound⟩

/-- The anchor of a mined entry lies above the head of the chain: its header is not found, which
counts as a fault, and a pass in which the transaction is deep enough emits nothing. -/
theorem anchor_above_head_is_silent :
    (sampleProc minedHigh).map (fun p ↦
      (p.watcher.stage, p.db.settlement sampleTx)) = some (.delivering [], some watchedRow) ∧
    shorterChain.receipt = .found ⟨2, 9, 1⟩ ∧ shorterChain.header 9 = .found 2 ∧
    sampleConfig.depth ≤ confirmations 10 9 ∧
    ((sampleProc minedHigh).bind fun p ↦ p.run sampleRuntime sampleConfig
      (p.rescan ++ samplePassOf 10 shorterChain)).map (fun p ↦ p.watcher.stage) =
      some (.delivering []) := by
  decide +kernel

end PaymentRail.Chainwatcher
