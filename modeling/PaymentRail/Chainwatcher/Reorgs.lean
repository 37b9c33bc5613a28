import PaymentRail.Chainwatcher.Retries

/-!
# Settlements that the chain no longer supports

A row that is settled in a block which is not part of the chain has to be taken back.  The watcher
does so by the reorg it emits for a confirmed entry, so what matters is that every settled row has a
confirmed entry with its anchor.  That can fail in two ways: a reorg whose delivery failed leaves an
entry that starts over beside a row that is still settled, and a registration from an outdated
listing does the same.  `Prompt` rules both out, and then a re-scan and one pass take the settlement
back.  A reorg that was not delivered is never emitted again.
-/

namespace PaymentRail.Chainwatcher

open Transaction Chain Rail

/-- A move that neither loses a reorg nor registers an outdated row: no delivery is committed and
reported as failed, a reorg of a settled row does not fail, and a transaction is registered with its
row as it stands. -/
def TxMove.Prompt (g : Glimpse) : TxMove → Prop
  | .other => True
  | .seed r => g.view.entry = none → g.row = some r
  | .deliver _ .applied => True
  | .deliver _ .lost => False
  | .deliver st .failed => st.phase = .reorged → ∀ r ∈ g.row, r.status ≠ .settled

/-- A move that is prompt for every transaction. -/
def Prompt (p : Proc) (move : Move) : Prop := ∀ tx, (p.txMove tx move).Prompt (p.glimpse tx)

/-- An entry is anchored where a row is settled, if the row names a valid hash. -/
def Matches (t : Tracked) (blockHash : String) (blockNumber : Option Int64) : Prop :=
  isHexTxHash blockHash = true →
    hexToHash blockHash = t.blockHash ∧ (blockNumber.getD 0).toUInt64 = t.blockNumber

/-- What holds of every transaction in a prompt run. -/
structure Watched (g : Glimpse) : Prop where
  /-- The reorg of a settled row is due, or can still be found. -/
  settled : ∀ r ∈ g.row, r.status = .settled → ∀ blockHash ∈ r.settledBlockHash,
    g.view.entry = none ∨ (∃ s ∈ g.view.due, s.phase = .reorged) ∨
      (∃ t ∈ g.view.entry, t.phase = .confirmed ∧ Matches t blockHash r.settledBlockNumber) ∧
        ∀ s ∈ g.view.due, s.phase ≠ .confirmed
  confirming : ∀ s ∈ g.view.due, s.phase = .confirmed →
    (∃ t ∈ g.view.entry, t.phase = .confirmed ∧
      s.blockHash = renderHash t.blockHash t.blockNumber ∧ s.blockNumber = t.blockNumber) ∧
    ∀ r ∈ g.row, r.status = .settled → r.settledBlockHash = none

section Step

variable {cfg : Config} {tx : TxHash} {served : Answers → Prop} {head : UInt64} {answers : Answers}
  {t : Tracked} {entry : Option Tracked} {out due : List Status} {turn : Option UInt64}
  {row row' : Option Settlement} {r r' : Settlement} {st : Status} {listed : List Settlement}
  {g g' : Glimpse} {move : TxMove} {outcome : Outcome}

theorem matches_renderHash (t : Tracked) :
    Matches t (renderHash t.blockHash t.blockNumber) (some t.blockNumber.toInt64) := by
  intro hhash
  unfold renderHash at hhash ⊢
  split at hhash
  · next hnumber =>
    rw [if_pos hnumber, hexToHash_hex]
    exact ⟨rfl, by simp⟩
  · exact absurd hhash (by decide)

theorem matches_resumed (cfg : Config) (blockHash : String) (blockNumber : Option Int64) :
    Matches (.resumed cfg (hexToHash blockHash) (blockNumber.getD 0).toUInt64) blockHash
      blockNumber :=
  fun _ ↦ ⟨rfl, rfl⟩

theorem Watched.seeded {view : View} (h : Watched ⟨view, row, r :: listed⟩)
    (hsteady : Steady ⟨view, row, r :: listed⟩) (hrow : view.entry = none → row = some r) :
    Watched ⟨{ view with entry := view.entry.or (seededEntry cfg r) }, row, listed⟩ := by
  obtain ⟨entry, turn, due⟩ := view
  cases entry with
  | some t => exact ⟨h.settled, h.confirming⟩
  | none =>
    obtain rfl := hrow rfl
    have hfinal : ∀ s ∈ due, s.phase ≠ .confirmed := by
      intro s hs hconfirmed
      cases (hsteady.evicted rfl s hs).symm.trans hconfirmed
    refine ⟨fun r' hr' hsettled blockHash hhash ↦ ?_, fun s hs hconfirmed ↦ ?_⟩
    · cases hr'
      have hhash : r.settledBlockHash = some blockHash := hhash
      simp only [Option.none_or, seededEntry, hsettled, hhash]
      split
      · exact .inr (.inr ⟨⟨_, rfl, rfl, matches_resumed cfg _ _⟩, hfinal⟩)
      · exact .inl rfl
    · exact absurd hconfirmed (hfinal s hs)

theorem Watched.visited (h : Watched ⟨⟨some t, some head, []⟩, row, listed⟩)
    (ho : Observed cfg head tx answers t entry out) : Watched ⟨⟨entry, none, out⟩, row, listed⟩ := by
  -- nothing is due, so a settled row has its anchor in the entry
  have hanchor : ∀ r ∈ row, r.status = .settled → ∀ blockHash ∈ r.settledBlockHash,
      t.phase = .confirmed ∧ Matches t blockHash r.settledBlockNumber := by
    intro r hr hsettled blockHash hhash
    obtain hnone | ⟨s, hs, -⟩ | ⟨⟨t', ht', hphase, hmatches⟩, -⟩ := h.settled r hr hsettled _ hhash
    · cases hnone
    · cases hs
    · cases ht'
      exact ⟨hphase, hmatches⟩
  have hseen : t.phase ≠ .confirmed → ∀ blockHash blockNumber depth,
      Watched ⟨⟨some (.seen cfg blockHash blockNumber depth), none,
        [.seen cfg tx blockHash blockNumber depth]⟩, row, listed⟩ := by
    intro hphase blockHash blockNumber depth
    refine ⟨fun r hr hsettled hash hhash ↦ ?_, fun s hs hconfirmed ↦ ⟨?_, fun r hr hsettled ↦ ?_⟩⟩
    · exact absurd (hanchor r hr hsettled hash hhash).1 hphase
    · obtain rfl := List.mem_singleton.mp hs
      exact ⟨_, rfl, hconfirmed, rfl, rfl⟩
    · refine Option.eq_none_iff_forall_not_mem.mpr fun hash hhash ↦ ?_
      exact hphase (hanchor r hr hsettled hash hhash).1
  cases ho with
  | silent =>
    refine ⟨fun r hr hsettled blockHash hhash ↦ .inr (.inr ⟨?_, (by simp)⟩), (by simp)⟩
    exact ⟨t, rfl, hanchor r hr hsettled blockHash hhash⟩
  | sighted receipt hphase => exact hseen (by rw [hphase]; decide) _ _ _
  | deepened hphase => exact hseen (by rw [hphase]; decide) _ _ _
  | orphaned =>
    refine ⟨fun r hr hsettled blockHash hhash ↦ .inr (.inl ⟨_, List.mem_cons_self, rfl⟩),
      fun s hs hconfirmed ↦ ?_⟩
    obtain rfl := List.mem_singleton.mp hs
    cases hconfirmed
  | finalized =>
    refine ⟨fun _ _ _ _ _ ↦ .inl rfl, fun s hs hconfirmed ↦ ?_⟩
    obtain rfl := List.mem_singleton.mp hs
    cases hconfirmed

/-- A delivery that fails without losing a reorg. -/
theorem Watched.failed (h : Watched ⟨⟨entry, none, [st]⟩, row, listed⟩)
    (hprompt : st.phase = .reorged → ∀ r ∈ row, r.status ≠ .settled) :
    Watched ⟨⟨afterDelivery st false entry, none, []⟩, row, listed⟩ := by
  refine ⟨fun r hr hsettled blockHash hhash ↦ ?_, (by simp)⟩
  obtain hnone | ⟨s, hs, hreorged⟩ | ⟨⟨t, ht, hphase, hmatches⟩, hdue⟩ :=
    h.settled r hr hsettled blockHash hhash
  · refine .inl ?_
    change entry = none at hnone
    rw [hnone]
    rfl
  · obtain rfl := List.mem_singleton.mp hs
    exact absurd hsettled (hprompt hreorged r hr)
  · refine .inr (.inr ⟨⟨t, ?_, hphase, hmatches⟩, (by simp)⟩)
    change entry = some t at ht
    have hkept : ¬(st.phase = .confirmed ∧ t.phase = .confirmed) := fun hboth ↦
      hdue st List.mem_cons_self hboth.1
    rw [ht]
    simp only [afterDelivery, Bool.false_eq_true, if_false, Option.map_some, Tracked.afterFailure,
      if_neg hkept, Option.mem_def]

/-- A delivery that is applied. -/
theorem Watched.applied (h : Watched ⟨⟨entry, none, [st]⟩, some r, listed⟩)
    (hmoved : Moved st r r') : Watched ⟨⟨entry, none, []⟩, some r', listed⟩ := by
  refine ⟨fun r'' hr'' hsettled blockHash hhash ↦ ?_, (by simp)⟩
  cases hr''
  unfold Moved at hmoved
  split at hmoved
  · next hphase =>
    obtain ⟨⟨t, ht, hconfirmed, hanchor, hnumber⟩, hunanchored⟩ :=
      h.confirming st List.mem_cons_self hphase
    split at hmoved
    · obtain ⟨id, rfl⟩ := hmoved
      cases hhash
      refine .inr (.inr ⟨⟨t, ht, hconfirmed, ?_⟩, (by simp)⟩)
      have hmatches := matches_renderHash t
      rwa [← hanchor, ← hnumber] at hmatches
    · subst hmoved
      have hnone : r'.settledBlockHash = none := hunanchored r' rfl hsettled
      rw [hnone] at hhash
      cases hhash
  · split at hmoved
    · subst hmoved
      cases hsettled
    · next hopen =>
      subst hmoved
      exact absurd hsettled hopen
  · split at hmoved
    · subst hmoved
      cases hsettled
    · next hopen =>
      subst hmoved
      exact absurd hsettled hopen
  all_goals
    next hphase =>
      subst hmoved
      obtain hnone | ⟨s, hs, hreorged⟩ | ⟨hanchor, -⟩ := h.settled r' rfl hsettled blockHash hhash
      · exact .inl hnone
      · obtain rfl := List.mem_singleton.mp hs
        cases hphase.symm.trans hreorged
      · exact .inr (.inr ⟨hanchor, (by simp)⟩)

theorem Watched.delivered (h : Watched ⟨⟨entry, none, st :: due⟩, row, listed⟩)
    (hsteady : Steady ⟨⟨entry, none, st :: due⟩, row, listed⟩)
    (hprompt : (TxMove.deliver st outcome).Prompt ⟨⟨entry, none, st :: due⟩, row, listed⟩)
    (hfailed : outcome = .failed → row' = row)
    (hmoved : outcome ≠ .failed → ∀ r ∈ row, ∃ r' ∈ row', Moved st r r') :
    Watched ⟨⟨afterDelivery st outcome.ok entry, none, due⟩, row', listed⟩ := by
  obtain rfl : due = [] :=
    List.eq_nil_of_length_eq_zero (Nat.le_zero.mp (Nat.le_of_succ_le_succ hsteady.single))
  cases outcome with
  | lost => exact hprompt.elim
  | failed =>
    obtain rfl := hfailed rfl
    exact h.failed hprompt
  | applied =>
    obtain ⟨r, hr⟩ := Option.isSome_iff_exists.mp
      (hsteady.linked (.inr (.inl (List.cons_ne_nil _ _))))
    obtain ⟨r', hr', hmove⟩ := hmoved (by decide) r hr
    change row = some r at hr
    subst hr
    cases hr'
    exact h.applied hmove

theorem Watched.step (h : Watched g) (hsteady : Steady g) (hshape : ∀ t ∈ g.view.entry, t.Shape)
    (hprompt : move.Prompt g) (hseen : Seen cfg served tx g move g') : Watched g' := by
  cases hseen with
  | unseen => exact h
  | linked view listed r hpending =>
    refine ⟨fun r' hr' hsettled ↦ ?_, fun s hs hconfirmed ↦ ?_⟩
    · cases hr'
      cases hpending.symm.trans hsettled
    · cases hsteady.linked (.inr (.inl (List.ne_nil_of_mem hs)))
  | listed => exact ⟨h.settled, h.confirming⟩
  | seeded view row r rest => exact h.seeded hsteady hprompt
  | begun => exact ⟨h.settled, h.confirming⟩
  | visited t head answers hserved entry out hvisit row listed =>
    have ho := observed cfg head tx answers (hshape t rfl)
    rw [hvisit] at ho
    exact h.visited ho
  | delivered entry st due outcome row row' listed hfailed hmoved =>
    exact h.delivered hsteady hprompt hfailed hmoved

end Step

section Runs

variable {rt : Audit.Runtime} {cfg : Config} {tx : TxHash} {start : Db} {p p' : Proc}
  {answers : Answers} {t : Tracked} {row : Settlement}

theorem Reached.watched (hkeys : (start.settlements.map Settlement.txHash).Nodup)
    (h : Reached rt cfg Prompt start p) (tx : TxHash) : Watched (p.glimpse tx) := by
  have hboth : Steady (p.glimpse tx) ∧ Watched (p.glimpse tx) := by
    refine h.glimpse_induction (fun g ↦ Steady g ∧ Watched g) hkeys ⟨?_, ?_⟩
      fun p move g hsound hprompt hgood hseen ↦ ?_
    · constructor <;> simp
    · exact ⟨fun _ _ _ _ _ ↦ .inl rfl, by simp⟩
    · have hshape : ∀ t ∈ (p.glimpse tx).view.entry, t.Shape := fun t ht ↦
        hsound.orderly.shape tx t ht
      exact ⟨hgood.1.step hshape hseen, hgood.2.step hgood.1 hshape (hprompt tx) hseen⟩
  exact hboth.2

/-- The chain does not have the transaction, or has another block at the height it was settled at. -/
def Stale (answers : Answers) (blockHash : Hash) (blockNumber : UInt64) : Prop :=
  answers.receipt = .notFound ∨ ∃ receipt hash, answers.receipt = .found receipt ∧
    answers.header blockNumber = .found hash ∧ hash ≠ blockHash

/-- A settled row with a valid anchor has, after a re-scan, a confirmed entry with that anchor. -/
theorem rescan_settled (hkeys : (start.settlements.map Settlement.txHash).Nodup)
    (h : Reached rt cfg Prompt start p) (hwaiting : p.watcher.Waiting)
    (hrow : p.db.settlement tx = some row) (hsettled : row.status = .settled) {blockHash : String}
    (hanchor : row.settledBlockHash = some blockHash) (hhash : isHexTxHash blockHash = true)
    (htx : isHexTxHash tx = true)
    (hscan : p.watcher.tracked.lookup tx = none → ∀ r ∈ p.scan, r.txHash = tx → r = row)
    {w : Watcher} (hlookup : w.tracked.lookup tx = ((p.watcher.tracked.lookup tx).or
        ((p.scan.filter (·.txHash = tx)).findSome? (seededEntry cfg))).or
          (((listPendingSettlements p.db).filter (·.txHash = tx)).findSome? (seededEntry cfg))) :
    ∃ t, w.tracked.lookup tx = some t ∧ t.phase = .confirmed ∧ t.blockHash = hexToHash blockHash ∧
      t.blockNumber = (row.settledBlockNumber.getD 0).toUInt64 := by
  cases hold : p.watcher.tracked.lookup tx with
  | some t =>
    have hwatched := h.watched hkeys tx
    rw [glimpse_of_waiting hwaiting, hold] at hwatched
    rw [hold] at hlookup
    obtain hnone | ⟨s, hs, -⟩ | ⟨⟨t', ht', hphase, hmatches⟩, -⟩ :=
      hwatched.settled row hrow hsettled blockHash hanchor
    · cases hnone
    · cases hs
    · cases ht'
      obtain ⟨hblock, hnumber⟩ := hmatches hhash
      exact ⟨t, hlookup, hphase, hblock.symm, hnumber.symm⟩
  | none =>
    rw [hold, Option.none_or, ← List.findSome?_append] at hlookup
    -- every row that is registered is the current one
    have hrows : ∀ r ∈ p.scan.filter (·.txHash = tx) ++
        (listPendingSettlements p.db).filter (·.txHash = tx), r = row := by
      intro r hr
      obtain hr | hr := List.mem_append.mp hr
      · obtain ⟨hmem, heq⟩ := List.mem_filter.mp hr
        exact hscan hold r hmem (of_decide_eq_true heq)
      · exact Option.some.inj ((listed_row (h.sound hkeys).keys hr).symm.trans hrow)
    have hseeded : seededEntry cfg row =
        some (.resumed cfg (hexToHash blockHash) (row.settledBlockNumber.getD 0).toUInt64) := by
      simp only [seededEntry, hsettled, hanchor, Table.key_of_lookup hrow, htx, hhash, and_self,
        if_true]
    obtain ⟨t, r, ht, hrt, hr⟩ := rescan_seeded hrow (.inr (.inl hsettled)) hseeded hlookup
    rw [hrows r hr, hseeded] at hrt
    cases hrt
    exact ⟨_, ht, rfl, rfl, rfl⟩

/-- The row of a transaction after the deliveries about it, each of them applied. -/
def MovedAll : List Status → Settlement → Settlement → Prop
  | [], row, row' => row' = row
  | st :: rest, row, row' => ∃ mid, Moved st row mid ∧ MovedAll rest mid row'

/-- When every status of a pass is delivered, the row of a transaction is moved by those about it. -/
theorem run_deliveries {queue : List Status} {ambients : List (ℕ → Ambient)}
    (hstage : p.watcher.stage = .delivering queue) (hlength : ambients.length = queue.length)
    (hrun : p.run rt cfg (ambients.map fun ambient ↦ .deliver ambient .applied) = some p')
    (hrow : p.db.settlement tx = some row) :
    ∃ row', p'.db.settlement tx = some row' ∧
      MovedAll (queue.filter (·.txHash = tx)) row row' := by
  induction queue generalizing p row ambients with
  | nil =>
    rw [List.length_nil, List.length_eq_zero_iff] at hlength
    subst hlength
    cases hrun
    exact ⟨row, hrow, rfl⟩
  | cons st queue ih =>
    cases ambients with
    | nil => cases hlength
    | cons ambient ambients =>
      obtain ⟨mid, hstep, hrest⟩ := Option.bind_eq_some_iff.mp hrun
      simp only [Proc.step, hstage, Watcher.step, Option.bind_some] at hstep
      obtain ⟨db', hdb', rfl⟩ := Option.map_eq_some_iff.mp hstep
      obtain ⟨-, hmoved, hothers, -⟩ := delivered_rows hdb'
      have hlength : ambients.length = queue.length := Nat.succ.inj hlength
      by_cases htx : st.txHash = tx
      · subst htx
        obtain ⟨moved, hmid, hmove⟩ := hmoved (by decide) row hrow
        obtain ⟨row', hrow', hall⟩ := ih rfl hlength hrest hmid
        rw [List.filter_cons_of_pos (by simp)]
        exact ⟨row', hrow', moved, hmove, hall⟩
      · rw [List.filter_cons_of_neg (by simpa using htx)]
        exact ih rfl hlength hrest ((hothers tx htx).trans hrow)

/-- In every prompt run, from every state between two passes: if a row is settled at an anchor that
the chain does not support, then a re-scan, one pass without faults, and the delivery of what it
emits leave the row reorged. -/
theorem stale_settlement_reversed (hkeys : (start.settlements.map Settlement.txHash).Nodup)
    (h : Reached rt cfg Prompt start p) (hwaiting : p.watcher.Waiting)
    (hscan : p.watcher.tracked.lookup tx = none → ∀ r ∈ p.scan, r.txHash = tx → r = row)
    (hrow : p.db.settlement tx = some row) (hsettled : row.status = .settled) {blockHash : String}
    (hanchor : row.settledBlockHash = some blockHash) (hhash : isHexTxHash blockHash = true)
    (htx : isHexTxHash tx = true) :
    ∃ mid, p.run rt cfg p.rescan = some mid ∧ ∀ head keys reader,
      keys.Perm mid.watcher.tracked.keys →
      Stale (reader tx) (hexToHash blockHash) (row.settledBlockNumber.getD 0).toUInt64 →
      ∃ polled queue, mid.run rt cfg (pass head keys reader) = some polled ∧
        polled.watcher.stage = .delivering queue ∧
        ∀ (ambients : List (ℕ → Ambient)) (p' : Proc), ambients.length = queue.length →
        polled.run rt cfg (ambients.map fun ambient ↦ .deliver ambient .applied) = some p' →
        ∃ row', p'.db.settlement tx = some row' ∧ row'.status = .reorged := by
  obtain ⟨w, hrescan, hstage, hlookup⟩ :
      ∃ w, p.run rt cfg p.rescan = some ⟨w, p.db, []⟩ ∧ w.stage = p.watcher.stage ∧ _ := run_rescan p
  obtain ⟨t, ht, hphase, hblock, hnumber⟩ :=
    rescan_settled hkeys h hwaiting hrow hsettled hanchor hhash htx hscan (hlookup tx)
  have hsound : Proc.Sound ⟨w, p.db, []⟩ := by
    refine (h.sound hkeys).run (fun db hworld ↦ ?_) hrescan
    simp [Proc.rescan] at hworld
  refine ⟨_, hrescan, fun head keys reader hperm hstale ↦ ?_⟩
  have horphaned : checkAnchor (reader tx) t = .orphaned := by
    refine checkAnchor_eq_orphaned.mpr (hstale.imp_right ?_)
    rintro ⟨receipt, hash, hreceipt, hheader, hne⟩
    exact ⟨receipt, hash, hreceipt, hnumber ▸ hheader, hblock ▸ hne⟩
  obtain ⟨polled, queue, hpass, hqueue, -, hdue⟩ := run_pass hsound (hstage.trans hwaiting) hperm ht
  rw [observe_orphaned (hsound.orderly.shape tx t ht) (.inr hphase) horphaned] at hdue
  refine ⟨_, queue, hpass, hqueue, fun ambients p' hlength hrun ↦ ?_⟩
  obtain ⟨row', hrow', hall⟩ := run_deliveries hqueue hlength hrun hrow
  rw [hdue] at hall
  obtain ⟨moved, hmoved, rfl⟩ := hall
  simp only [Moved, Status.reorg, hsettled, if_true] at hmoved
  subst hmoved
  exact ⟨_, hrow', rfl⟩

/-- An entry that starts over stays as it is while the chain does not have its transaction. -/
theorem seen_unsupported {turn : Option UInt64} {listed : List Settlement} {move : TxMove}
    {g : Glimpse} (hphase : t.phase = .pending)
    (hseen : Seen cfg (fun answers ↦ answers.receipt = .notFound) tx
      ⟨⟨some t, turn, []⟩, some row, listed⟩ move g) :
    ∃ turn' listed', g = ⟨⟨some t, turn', []⟩, some row, listed'⟩ := by
  cases hseen with
  | unseen => exact ⟨turn, listed, rfl⟩
  | listed _ _ listed' => exact ⟨turn, listed', rfl⟩
  | seeded _ _ r rest => exact ⟨turn, rest, rfl⟩
  | begun _ head => exact ⟨some head, listed, rfl⟩
  | visited _ head answers hnotFound entry out hvisit =>
    have hsilent : observe cfg head tx answers t = (some t, []) := by
      refine observe_no_receipt hphase fun receipt hfound ↦ ?_
      cases hnotFound.symm.trans hfound
    obtain ⟨rfl, rfl⟩ := Prod.mk.inj (hsilent.symm.trans hvisit)
    exact ⟨none, listed, rfl⟩

/-- A row whose entry starts over is not changed by any number of re-scans and passes, and deliveries
of what they emit, while the chain does not have the transaction. -/
theorem run_unsupported {moves : List Move} {turn : Option UInt64} {listed : List Settlement}
    (hsound : p.Sound) (hphase : t.phase = .pending)
    (hglimpse : p.glimpse tx = ⟨⟨some t, turn, []⟩, some row, listed⟩)
    (hserves : ∀ move ∈ moves, move.Serves fun answers ↦ answers.receipt = .notFound)
    (hworld : ∀ db, .world db ∉ moves) (hrun : p.run rt cfg moves = some p') :
    p'.db.settlement tx = some row := by
  induction moves generalizing p turn listed with
  | nil =>
    cases hrun
    exact congrArg Glimpse.row hglimpse
  | cons move moves ih =>
    obtain ⟨mid, hstep, hrest⟩ := Option.bind_eq_some_iff.mp hrun
    have hworldly : Worldly p move :=
      worldly_of_ne fun db heq ↦ hworld db (heq ▸ List.mem_cons_self)
    have hseen : Seen cfg _ tx (p.glimpse tx) (p.txMove tx move) (mid.glimpse tx) :=
      glimpse_step hsound (hserves move List.mem_cons_self) hworldly hstep
    rw [hglimpse] at hseen
    obtain ⟨turn', listed', hmid⟩ := seen_unsupported hphase hseen
    exact ih (hsound.step hworldly hstep) hmid
      (fun move hmem ↦ hserves move (List.mem_cons_of_mem _ hmem))
      (fun db hmem ↦ hworld db (List.mem_cons_of_mem _ hmem)) hrest

end Runs

/-! ### Sample runs -/

/-- The sample transaction is settled in block 1. -/
def settledOnce : List Move :=
  [.list, .seed] ++ samplePassOf 10 (sampleAnswers 1 9) ++ [.deliver (sampleAmbient 100) .applied]

/-- What the row says then. -/
def anchorOf (row : Settlement) : SettlementStatus × Option String × Option Int64 :=
  (row.status, row.settledBlockHash, row.settledBlockNumber)

/-- It disappears from the chain, and the delivery of the reorg fails. -/
def reorgUndelivered : List Move :=
  settledOnce ++ samplePassOf 11 noReceipt ++ [.deliver (sampleAmbient 200) .failed]

/-- After a reorg that could not be delivered, no number of re-scans and passes over a chain without
the transaction, with every delivery applied, takes the settlement back. -/
theorem undelivered_reorg_is_lost : ∃ p row, sampleProc reorgUndelivered = some p ∧
    p.watcher.Waiting ∧ p.db.settlement sampleTx = some row ∧
    anchorOf row = (.settled, some (1 : Hash).hex, some 9) ∧
    (p.run sampleRuntime sampleConfig (p.rescan ++ samplePassOf 11 noReceipt)).isSome = true ∧
    ∀ moves p', (∀ move ∈ moves, move.Serves fun answers ↦ answers.receipt = .notFound) →
      (∀ db, .world db ∉ moves) → p.run sampleRuntime sampleConfig moves = some p' →
      p'.db.settlement sampleTx = some row := by
  have hstate : (sampleProc reorgUndelivered).map (fun p ↦ (p.watcher.stage,
      p.watcher.tracked.lookup sampleTx)) = some (.delivering [], some .reversed) := by
    decide +kernel
  obtain ⟨p, hp, hfacts⟩ := Option.map_eq_some_iff.mp hstate
  obtain ⟨hstage, hentry⟩ := Prod.mk.inj hfacts
  have hrow : (sampleProc reorgUndelivered).bind
      (fun p ↦ (p.db.settlement sampleTx).map anchorOf) =
      some (.settled, some (1 : Hash).hex, some 9) := by decide +kernel
  rw [hp, Option.bind_some] at hrow
  obtain ⟨row, hrow, hanchor⟩ := Option.map_eq_some_iff.mp hrow
  have hnext : ((sampleProc reorgUndelivered).bind fun p ↦ p.run sampleRuntime sampleConfig
      (p.rescan ++ samplePassOf 11 noReceipt)).isSome = true := by decide +kernel
  rw [hp, Option.bind_some] at hnext
  have hsound : p.Sound := by
    refine Proc.Sound.run ⟨.empty, nodup_watchedDb⟩ (fun db ↦ ?_) hp
    simp [reorgUndelivered, settledOnce, samplePassOf, pass]
  have hglimpse : p.glimpse sampleTx = ⟨⟨some .reversed, none, []⟩, some row,
      p.scan.filter (·.txHash = sampleTx)⟩ := by
    rw [glimpse_of_waiting hstage, hentry, hrow]
  exact ⟨p, row, hp, hstage, hrow, hanchor, hnext, fun moves p' hserves hworld hrun ↦
    run_unsupported hsound rfl hglimpse hserves hworld hrun⟩

/-- Moves that are prompt in every state. -/
theorem prompt_of_calm {p : Proc} {move : Move} (hseed : move ≠ .seed)
    (hdeliver : ∀ ambient outcome, move = .deliver ambient outcome → outcome = .applied) :
    Prompt p move := by
  intro tx
  cases move with
  | seed => exact absurd rfl hseed
  | deliver ambient outcome =>
    obtain rfl := hdeliver ambient outcome rfl
    unfold Proc.txMove
    dsimp only
    split
    · split <;> trivial
    · trivial
  | list | watch | world => trivial

/-- The sample transaction is settled, and its block is orphaned. -/
theorem stale_settlement_reversed_sample : ∃ p row mid polled queue,
    sampleProc settledOnce = some p ∧ p.db.settlement sampleTx = some row ∧
    anchorOf row = (.settled, some (1 : Hash).hex, some 9) ∧
    p.run sampleRuntime sampleConfig p.rescan = some mid ∧
    mid.run sampleRuntime sampleConfig
      (pass 11 mid.watcher.tracked.keys fun _ ↦ noReceipt) = some polled ∧
    polled.watcher.stage = .delivering queue ∧
    ∀ (ambients : List (ℕ → Ambient)) (p' : Proc), ambients.length = queue.length →
      polled.run sampleRuntime sampleConfig
        (ambients.map fun ambient ↦ .deliver ambient .applied) = some p' →
      ∃ row', p'.db.settlement sampleTx = some row' ∧ row'.status = .reorged := by
  have hrow : (sampleProc settledOnce).bind (fun p ↦ (p.db.settlement sampleTx).map anchorOf) =
      some (.settled, some (1 : Hash).hex, some 9) := by decide +kernel
  have hstate : (sampleProc settledOnce).map (fun p ↦ (p.watcher.stage, p.scan)) =
      some (.delivering [], []) := by decide +kernel
  obtain ⟨p, hp, hfacts⟩ := Option.map_eq_some_iff.mp hstate
  obtain ⟨hstage, hscan⟩ := Prod.mk.inj hfacts
  rw [hp, Option.bind_some] at hrow
  obtain ⟨row, hrow, hanchor⟩ := Option.map_eq_some_iff.mp hrow
  obtain ⟨hsettled, hanchors⟩ := Prod.mk.inj hanchor
  obtain ⟨hhash, -⟩ := Prod.mk.inj hanchors
  have hlisted : (Proc.start watchedDb).step sampleRuntime sampleConfig .list =
      some ⟨.empty, watchedDb, [watchedRow]⟩ := rfl
  have hprompt : Prompt ⟨.empty, watchedDb, [watchedRow]⟩ .seed := by
    intro tx
    simp only [Proc.txMove]
    split
    · next htx =>
      subst htx
      exact fun _ ↦ rfl
    · trivial
  have hreached : Reached sampleRuntime sampleConfig Prompt watchedDb p := by
    have hrun : (Proc.start watchedDb).run sampleRuntime sampleConfig (.list :: .seed ::
        (samplePassOf 10 (sampleAnswers 1 9) ++ [.deliver (sampleAmbient 100) .applied])) = some p := hp
    obtain ⟨listed, hlist, hrun⟩ := Option.bind_eq_some_iff.mp hrun
    obtain rfl := Option.some.inj (hlisted.symm.trans hlist)
    obtain ⟨seeded, hseed, hrun⟩ := Option.bind_eq_some_iff.mp hrun
    have hlist' : Reached sampleRuntime sampleConfig Prompt watchedDb _ :=
      Reached.start.step (prompt_of_calm (by simp) (by simp)) (worldly_of_ne (by simp)) hlist
    refine (hlist'.step hprompt (worldly_of_ne (by simp)) hseed).run (fun move hmove p ↦ ?_)
      (fun db hworld ↦ ?_) hrun
    · refine prompt_of_calm (fun hmoved ↦ ?_) fun ambient outcome hmoved ↦ ?_
      · rw [hmoved] at hmove
        simp [samplePassOf, pass] at hmove
      · rw [hmoved] at hmove
        have hlast : ambient = sampleAmbient 100 ∧ outcome = .applied := by
          simpa [samplePassOf, pass] using hmove
        exact hlast.2
    · simp [samplePassOf, pass] at hworld
  obtain ⟨mid, hrescan, hpass⟩ := stale_settlement_reversed nodup_watchedDb hreached hstage
    (fun _ r hr ↦ by rw [hscan] at hr; cases hr) hrow hsettled hhash (isHexTxHash_hex 1)
    (isHexTxHash_hex 7)
  obtain ⟨polled, queue, hpolled, hqueue, hdelivered⟩ := hpass 11 mid.watcher.tracked.keys
    (fun _ ↦ noReceipt) (List.Perm.refl _) (.inl rfl)
  exact ⟨p, row, mid, polled, queue, hp, hrow, hanchor, hrescan, hpolled, hqueue, hdelivered⟩

end PaymentRail.Chainwatcher
