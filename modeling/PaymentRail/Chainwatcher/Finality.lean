import PaymentRail.Chainwatcher.Reorgs

/-!
# Every settlement becomes final

A chain settles down: the transaction is in one block, which stays and is as deep as finality asks
for, and the node serves what it is asked.  Whatever happened before, faults, failed deliveries, lost
acknowledgements and reorgs included, three rounds of the process are then enough to have the row
finalized.  A round is a re-scan, a pass, and the delivery of what the pass emits.

The three rounds are those of an entry that is anchored in a block which is gone: it is taken back,
seen in the block of the receipt, and found final there.  Every other entry is further along.
-/

namespace PaymentRail.Chainwatcher

open Transaction Chain Rail

/-- The node's answers about a transaction that is final in the block of its receipt. -/
structure Final (cfg : Config) (head : UInt64) (answers : Answers) (receipt : Receipt) : Prop where
  found : answers.receipt = .found receipt
  canonical : answers.header receipt.blockNumber = .found receipt.blockHash
  mined : receipt.blockNumber ≤ head
  deep : cfg.finalityDepth ≤ head - receipt.blockNumber + 1

/-- The entry that a transaction has after a re-scan. -/
def Proc.known (cfg : Config) (p : Proc) (tx : TxHash) : Option Tracked :=
  ((p.watcher.tracked.lookup tx).or
    ((p.scan.filter (·.txHash = tx)).findSome? (seededEntry cfg))).or
      (((listPendingSettlements p.db).filter (·.txHash = tx)).findSome? (seededEntry cfg))

/-- The node serves the header at the height of an anchor, and has the transaction in no other block
than that of its receipt. -/
def Located (answers : Answers) (receipt : Receipt) (t : Tracked) : Prop :=
  ∃ hash, answers.header t.blockNumber = .found hash ∧
    (hash = t.blockHash → t.blockNumber = receipt.blockNumber)

/-- A re-scan, a pass over a chain on which the transaction is final, and the delivery of everything
the pass emitted. -/
inductive Round (rt : Audit.Runtime) (cfg : Config) (tx : TxHash) (receipt : Receipt) (p : Proc) :
    Proc → Prop
  | mk {head : UInt64} {keys : List TxHash} {reader : TxHash → Answers} {mid polled p' : Proc}
      {queue : List Status} {ambients : List (ℕ → Ambient)}
      (final : Final cfg head (reader tx) receipt)
      (located : ∀ t, p.known cfg tx = some t → t.Anchored → Located (reader tx) receipt t)
      (rescan : p.run rt cfg p.rescan = some mid) (perm : keys.Perm mid.watcher.tracked.keys)
      (pass : mid.run rt cfg (pass head keys reader) = some polled)
      (stage : polled.watcher.stage = .delivering queue) (length : ambients.length = queue.length)
      (deliver : polled.run rt cfg (ambients.map fun ambient ↦ .deliver ambient .applied) = some p') :
    Round rt cfg tx receipt p p'

/-- A number of rounds one after the other. -/
inductive Rounds (rt : Audit.Runtime) (cfg : Config) (tx : TxHash) (receipt : Receipt) (p : Proc) :
    ℕ → Proc → Prop
  | none : Rounds rt cfg tx receipt p 0 p
  | more {n : ℕ} {mid p' : Proc} : Rounds rt cfg tx receipt p n mid → Round rt cfg tx receipt mid p' →
      Rounds rt cfg tx receipt p (n + 1) p'

/-- How many rounds a transaction is from finality: its row is final, its entry is confirmed in the
block of the receipt, its entry is pending, or it has any entry. -/
def Remaining (cfg : Config) (tx : TxHash) (receipt : Receipt) (p : Proc) : ℕ → Prop
  | 0 => ∃ row, p.db.settlement tx = some row ∧ row.status = .finalized
  | 1 => ∃ t, p.watcher.tracked.lookup tx = some t ∧ t.phase = .confirmed ∧
      t.blockHash = receipt.blockHash ∧ t.blockNumber = receipt.blockNumber
  | 2 => ∃ t, p.watcher.tracked.lookup tx = some t ∧ t.phase = .pending
  | _ + 3 => ∃ t row, p.known cfg tx = some t ∧ p.db.settlement tx = some row

/-- What a round does to the entry `t` and the row `row` of a transaction: the entry is observed once,
and the row is moved by the statuses that this emits. -/
structure Sighting (cfg : Config) (tx : TxHash) (receipt : Receipt) (t : Tracked) (row : Settlement)
    (p' : Proc) (head : UInt64) (answers : Answers) (row' : Settlement) : Prop where
  final : Final cfg head answers receipt
  located : t.Anchored → Located answers receipt t
  shape : t.Shape
  cleared : t.phase = .confirmed → row.status = .settled ∨ row.status = .finalized
  entry : p'.watcher.tracked.lookup tx = (observe cfg head tx answers t).1
  stored : p'.db.settlement tx = some row'
  moved : MovedAll (observe cfg head tx answers t).2 row row'

section Rounds

variable {rt : Audit.Runtime} {cfg : Config} {tx : TxHash} {receipt : Receipt} {start : Db}
  {p p' : Proc} {t : Tracked} {row row' : Settlement} {head : UInt64} {answers : Answers}
  {queue : List Status} {ambients : List (ℕ → Ambient)}

/-- Deliveries that succeed leave the tracked map alone and nothing to deliver. -/
theorem run_deliveries_watcher (hstage : p.watcher.stage = .delivering queue)
    (hlength : ambients.length = queue.length)
    (hrun : p.run rt cfg (ambients.map fun ambient ↦ .deliver ambient .applied) = some p') :
    p'.watcher = ⟨p.watcher.tracked, .delivering []⟩ := by
  induction queue generalizing p ambients with
  | nil =>
    rw [List.length_nil, List.length_eq_zero_iff] at hlength
    subst hlength
    cases hrun
    rw [← hstage]
  | cons st queue ih =>
    cases ambients with
    | nil => cases hlength
    | cons ambient ambients =>
      obtain ⟨mid, hstep, hrest⟩ := Option.bind_eq_some_iff.mp hrun
      simp only [Proc.step, hstage, Watcher.step, Option.bind_some] at hstep
      obtain ⟨db', -, rfl⟩ := Option.map_eq_some_iff.mp hstep
      exact ih (p := ⟨⟨p.watcher.tracked, .delivering queue⟩, db', p.scan⟩) rfl
        (Nat.succ.inj hlength) hrest

theorem internal_of_mem_passActs {keys : List TxHash} {reader : TxHash → Answers} :
    ∀ act ∈ passActs head keys reader, Internal act = true := by
  intro act hact
  simp only [passActs, List.mem_append, List.mem_cons, List.mem_map, List.not_mem_nil,
    or_false] at hact
  obtain (rfl | ⟨tx, -, rfl⟩) | rfl := hact <;> rfl

/-- A pass leaves the tables alone. -/
theorem db_of_pass {keys : List TxHash} {reader : TxHash → Answers}
    (hrun : p.run rt cfg (pass head keys reader) = some p') : p'.db = p.db := by
  rw [pass, run_watch internal_of_mem_passActs] at hrun
  obtain ⟨w, -, rfl⟩ := Option.map_eq_some_iff.mp hrun
  rfl

/-- The moves of a round are moves of a run. -/
theorem Round.reached (h : Round rt cfg tx receipt p p')
    (hreached : Reached rt cfg (fun _ _ ↦ True) start p) :
    Reached rt cfg (fun _ _ ↦ True) start p' := by
  obtain ⟨-, -, hrescan, -, hpass, -, -, hdeliver⟩ := h
  have hmid := hreached.run (fun _ _ _ ↦ trivial) (by simp [Proc.rescan]) hrescan
  have hpolled := hmid.run (fun _ _ _ ↦ trivial) (by simp [pass]) hpass
  exact hpolled.run (fun _ _ _ ↦ trivial) (by simp) hdeliver

/-- Between two passes an entry that is confirmed has a row that is settled or finalized. -/
theorem cleared_of_waiting (hkeys : (start.settlements.map Settlement.txHash).Nodup)
    (hreached : Reached rt cfg (fun _ _ ↦ True) start p) (hwaiting : p.watcher.Waiting)
    (ht : p.watcher.tracked.lookup tx = some t) (hrow : p.db.settlement tx = some row)
    (hphase : t.phase = .confirmed) : row.status = .settled ∨ row.status = .finalized := by
  have hsteady := hreached.steady hkeys tx
  rw [glimpse_of_waiting hwaiting, hrow] at hsteady
  obtain ⟨s, hs, -⟩ | ⟨r, hr, hcleared⟩ := hsteady.confirmed t ht hphase
  · cases hs
  · cases hr
    exact hcleared

theorem Round.sighting (h : Round rt cfg tx receipt p p')
    (hkeys : (start.settlements.map Settlement.txHash).Nodup)
    (hreached : Reached rt cfg (fun _ _ ↦ True) start p) (hwaiting : p.watcher.Waiting)
    (ht : p.known cfg tx = some t) (hrow : p.db.settlement tx = some row) :
    ∃ head answers row', Sighting cfg tx receipt t row p' head answers row' := by
  obtain @⟨head, keys, reader, mid, polled, _, queue, _, hfinal, hlocated, hrescan, hperm, hpass,
    hstage, hlength, hdeliver⟩ := h
  obtain ⟨w, hrun, hstage', hlookup⟩ :
      ∃ w, p.run rt cfg p.rescan = some ⟨w, p.db, []⟩ ∧ w.stage = p.watcher.stage ∧ _ := run_rescan p
  obtain rfl := Option.some.inj (hrun.symm.trans hrescan)
  have hmid : Reached rt cfg (fun _ _ ↦ True) start ⟨w, p.db, []⟩ :=
    hreached.run (fun _ _ _ ↦ trivial) (by simp [Proc.rescan]) hrescan
  have hsound := hmid.sound hkeys
  have hwaiting' : w.Waiting := hstage'.trans hwaiting
  have ht' : w.tracked.lookup tx = some t := (hlookup tx).trans ht
  obtain ⟨w', queue', hpass', hqueue', hentry, hdue⟩ := run_pass hsound hwaiting' hperm ht'
  obtain rfl := Option.some.inj (hpass'.symm.trans hpass)
  obtain rfl : queue' = queue := Stage.delivering.inj (hqueue'.symm.trans hstage)
  obtain ⟨row', hrow', hmoved⟩ := run_deliveries hqueue' hlength hdeliver hrow
  refine ⟨head, reader tx, row', hfinal, hlocated t ht, hsound.orderly.shape tx t ht',
    cleared_of_waiting hkeys hmid hwaiting' ht' hrow, ?_, hrow', hdue ▸ hmoved⟩
  rw [run_deliveries_watcher hqueue' hlength hdeliver]
  exact hentry

theorem Round.waiting (h : Round rt cfg tx receipt p p') : p'.watcher.Waiting := by
  obtain ⟨-, -, -, -, -, hstage, hlength, hdeliver⟩ := h
  rw [run_deliveries_watcher hstage hlength hdeliver]
  rfl

theorem MovedAll.of_finalized {statuses : List Status} (h : MovedAll statuses row row')
    (hfinal : row.status = .finalized) : row' = row := by
  induction statuses generalizing row with
  | nil => exact h
  | cons st rest ih =>
    obtain ⟨mid, hmoved, hrest⟩ := h
    obtain rfl : mid = row := by
      cases hphase : st.phase <;>
        simpa [Moved, hphase, hfinal, SettlementStatus.settleable] using hmoved
    exact ih hrest hfinal

namespace Final

variable (h : Final cfg head answers receipt)
include h

theorem deep_enough : cfg.depth ≤ head - receipt.blockNumber + 1 :=
  UInt64.le_trans (UInt64.le_of_lt cfg.depth_lt) h.deep

/-- A pending entry is seen in the block of the receipt. -/
theorem observe_pending (hshape : t.Shape) (hphase : t.phase = .pending) :
    (observe cfg head tx answers t).1 =
      some (.seen cfg receipt.blockHash receipt.blockNumber (head - receipt.blockNumber + 1)) := by
  have hdepth : confirmations head receipt.blockNumber = head - receipt.blockNumber + 1 :=
    if_neg (UInt64.not_lt.mpr h.mined)
  have hdeep : cfg.depth ≤ confirmations head receipt.blockNumber := by
    rw [hdepth]
    exact h.deep_enough
  rw [observe_receipt hshape hphase h.found, receiptDepth_of_deep hdeep, hdepth]

theorem checkAnchor_eq (hhash : t.blockHash = receipt.blockHash)
    (hnumber : t.blockNumber = receipt.blockNumber) : checkAnchor answers t = .canonical := by
  simp [checkAnchor, h.found, hnumber, h.canonical, hhash]

/-- An anchor is orphaned, unless it is the block of the receipt. -/
theorem orphaned_or_anchored (hlocated : Located answers receipt t) :
    checkAnchor answers t = .orphaned ∨
      t.blockHash = receipt.blockHash ∧ t.blockNumber = receipt.blockNumber := by
  obtain ⟨hash, hheader, hblock⟩ := hlocated
  by_cases hhash : hash = t.blockHash
  · have hnumber := hblock hhash
    rw [hnumber, h.canonical] at hheader
    exact .inr ⟨by rw [← hhash, Answer.found.inj hheader], hnumber⟩
  · refine .inl (checkAnchor_eq_orphaned.mpr (.inr ?_))
    exact ⟨receipt, hash, h.found, hheader, hhash⟩

end Final

namespace Sighting

variable (h : Sighting cfg tx receipt t row p' head answers row')
include h

/-- A pending entry is confirmed in the block of the receipt. -/
theorem of_pending (hphase : t.phase = .pending) : Remaining cfg tx receipt p' 1 :=
  ⟨_, h.entry.trans (h.final.observe_pending h.shape hphase),
    phaseAt_of_deep h.final.deep_enough, rfl, rfl⟩

/-- An entry that is confirmed in the block of the receipt is found final, and its row with it. -/
theorem of_confirmed (hphase : t.phase = .confirmed) (hhash : t.blockHash = receipt.blockHash)
    (hnumber : t.blockNumber = receipt.blockNumber) : Remaining cfg tx receipt p' 0 := by
  have hdeep : t.blockNumber ≤ head ∧ cfg.finalityDepth ≤ head - t.blockNumber + 1 := by
    rw [hnumber]
    exact ⟨h.final.mined, h.final.deep⟩
  have hmoved := h.moved
  rw [observe_confirmed h.shape hphase (h.final.checkAnchor_eq hhash hnumber), if_pos hdeep] at hmoved
  obtain ⟨mid, hfirst, rfl⟩ := hmoved
  refine ⟨_, h.stored, ?_⟩
  simp only [Moved, Status.final] at hfirst
  obtain hsettled | hfinalized := h.cleared hphase
  · rw [if_pos hsettled] at hfirst
    rw [hfirst]
    rfl
  · rw [if_neg (by simp [hfinalized])] at hfirst
    rw [hfirst, hfinalized]

/-- An entry that is mined in the block of the receipt is confirmed there. -/
theorem of_mined (hphase : t.phase = .mined) (hhash : t.blockHash = receipt.blockHash)
    (hnumber : t.blockNumber = receipt.blockNumber) : Remaining cfg tx receipt p' 1 := by
  have hentry := h.entry
  rw [observe_mined h.shape hphase (h.final.checkAnchor_eq hhash hnumber) (hnumber ▸ h.final.mined),
    hnumber, if_neg fun hshallow ↦ absurd hshallow.1 (UInt64.not_lt.mpr h.final.deep_enough)]
    at hentry
  exact ⟨_, hentry, phaseAt_of_deep h.final.deep_enough, hhash, rfl⟩

/-- Whatever the entry was, at most two rounds remain. -/
theorem remaining : ∃ j ≤ 2, Remaining cfg tx receipt p' j := by
  obtain hphase | hanchored := h.shape.pending_or_anchored
  · exact ⟨1, by decide, h.of_pending hphase⟩
  obtain horphaned | ⟨hhash, hnumber⟩ := h.final.orphaned_or_anchored (h.located hanchored)
  · have hentry := h.entry
    rw [observe_orphaned h.shape hanchored horphaned] at hentry
    exact ⟨2, le_rfl, _, hentry, rfl⟩
  · obtain hphase | hphase := hanchored
    · exact ⟨1, by decide, h.of_mined hphase hhash hnumber⟩
    · exact ⟨0, by decide, h.of_confirmed hphase hhash hnumber⟩

end Sighting

/-- A final row stays as it is. -/
theorem Round.stays (h : Round rt cfg tx receipt p p') (hdone : Remaining cfg tx receipt p 0) :
    Remaining cfg tx receipt p' 0 := by
  obtain ⟨row, hrow, hfinal⟩ := hdone
  obtain ⟨-, -, hrescan, -, hpass, hstage, hlength, hdeliver⟩ := h
  obtain ⟨w, hrun, -⟩ : ∃ w, p.run rt cfg p.rescan = some ⟨w, p.db, []⟩ ∧ _ := run_rescan p
  obtain rfl := Option.some.inj (hrun.symm.trans hrescan)
  have hpolled := (congrArg (Db.settlement · tx) (db_of_pass hpass)).trans hrow
  obtain ⟨row', hrow', hmoved⟩ := run_deliveries hstage hlength hdeliver hpolled
  exact ⟨row', hrow', by rw [hmoved.of_finalized hfinal, hfinal]⟩

/-- An entry between two passes is known after a re-scan, and has a row. -/
theorem known_of_tracked (hkeys : (start.settlements.map Settlement.txHash).Nodup)
    (hreached : Reached rt cfg (fun _ _ ↦ True) start p)
    (hwaiting : p.watcher.Waiting) (ht : p.watcher.tracked.lookup tx = some t) :
    p.known cfg tx = some t ∧ ∃ row, p.db.settlement tx = some row := by
  have hsteady := hreached.steady hkeys tx
  rw [glimpse_of_waiting hwaiting, ht] at hsteady
  constructor
  · rw [Proc.known, ht]
    rfl
  · exact Option.isSome_iff_exists.mp (hsteady.linked (.inl rfl))

/-- A round brings a transaction closer to finality. -/
theorem Round.closer (h : Round rt cfg tx receipt p p')
    (hkeys : (start.settlements.map Settlement.txHash).Nodup)
    (hreached : Reached rt cfg (fun _ _ ↦ True) start p) (hwaiting : p.watcher.Waiting) {n : ℕ}
    (hremaining : ∃ j ≤ n + 1, Remaining cfg tx receipt p j) :
    ∃ j ≤ n, Remaining cfg tx receipt p' j := by
  obtain ⟨j, hj, hnow⟩ := hremaining
  rcases j with _ | _ | _ | j
  · exact ⟨0, Nat.zero_le n, h.stays hnow⟩
  · obtain ⟨t, ht, hphase, hhash, hnumber⟩ := hnow
    obtain ⟨hknown, row, hrow⟩ := known_of_tracked hkeys hreached hwaiting ht
    obtain ⟨head, answers, row', hsighting⟩ := h.sighting hkeys hreached hwaiting hknown hrow
    exact ⟨0, Nat.zero_le n, hsighting.of_confirmed hphase hhash hnumber⟩
  · obtain ⟨t, ht, hphase⟩ := hnow
    obtain ⟨hknown, row, hrow⟩ := known_of_tracked hkeys hreached hwaiting ht
    obtain ⟨head, answers, row', hsighting⟩ := h.sighting hkeys hreached hwaiting hknown hrow
    exact ⟨1, by omega, hsighting.of_pending hphase⟩
  · obtain ⟨t, row, hknown, hrow⟩ := hnow
    obtain ⟨head, answers, row', hsighting⟩ := h.sighting hkeys hreached hwaiting hknown hrow
    obtain ⟨k, hk, hnext⟩ := hsighting.remaining
    exact ⟨k, by omega, hnext⟩

theorem Rounds.closer {n k : ℕ} (h : Rounds rt cfg tx receipt p n p')
    (hkeys : (start.settlements.map Settlement.txHash).Nodup)
    (hreached : Reached rt cfg (fun _ _ ↦ True) start p) (hwaiting : p.watcher.Waiting)
    (hremaining : ∃ j ≤ n + k, Remaining cfg tx receipt p j) :
    Reached rt cfg (fun _ _ ↦ True) start p' ∧ p'.watcher.Waiting ∧
      ∃ j ≤ k, Remaining cfg tx receipt p' j := by
  induction h generalizing k with
  | none => exact ⟨hreached, hwaiting, by simpa using hremaining⟩
  | @more n mid p' _ hround ih =>
    have hmore : ∃ j ≤ n + (k + 1), Remaining cfg tx receipt p j := by
      rwa [← Nat.add_right_comm, Nat.add_assoc] at hremaining
    obtain ⟨hmid, hwaiting', hremaining'⟩ := ih hmore
    exact ⟨hround.reached hmid, hround.waiting,
      hround.closer hkeys hmid hwaiting' hremaining'⟩

/-- A row whose hashes are valid and that is not final is known after a re-scan. -/
theorem known_of_row (hrow : p.db.settlement tx = some row) (hopen : row.status ≠ .finalized)
    (htx : isHexTxHash tx = true) (hanchor : row.status = .settled →
      ∀ blockHash, row.settledBlockHash = some blockHash → isHexTxHash blockHash = true) :
    ∃ t, p.known cfg tx = some t := by
  have hstatus : row.status = .pending ∨ row.status = .settled ∨ row.status = .reorged := by
    cases hstatus : row.status <;> simp_all
  have hhash : row.txHash = tx := Table.key_of_lookup hrow
  have hseeded : (seededEntry cfg row).isSome := by
    unfold seededEntry
    split
    · next blockHash hsettled hblock =>
      rw [if_pos ⟨hhash ▸ htx, hanchor hsettled blockHash hblock⟩]
      rfl
    · rw [if_pos (hhash ▸ htx)]
      rfl
  rw [← Option.isSome_iff_exists, Proc.known, Option.isSome_or, Bool.or_eq_true]
  exact .inr (List.findSome?_isSome_iff.mpr ⟨row, mem_listed hrow hstatus, hseeded⟩)

/-- From every state between two passes, whatever faults and lost deliveries led there: if the hashes
of a row are valid, three rounds or more on a chain where the transaction is final leave the row
finalized. -/
theorem settlement_reaches_finality (hkeys : (start.settlements.map Settlement.txHash).Nodup)
    (hreached : Reached rt cfg (fun _ _ ↦ True) start p) (hwaiting : p.watcher.Waiting)
    (hrow : p.db.settlement tx = some row) (htx : isHexTxHash tx = true)
    (hanchor : row.status = .settled →
      ∀ blockHash, row.settledBlockHash = some blockHash → isHexTxHash blockHash = true) {n : ℕ}
    (hn : 3 ≤ n) (hrounds : Rounds rt cfg tx receipt p n p') :
    ∃ row', p'.db.settlement tx = some row' ∧ row'.status = .finalized := by
  have hremaining : ∃ j ≤ n + 0, Remaining cfg tx receipt p j := by
    by_cases hfinal : row.status = .finalized
    · exact ⟨0, Nat.zero_le _, row, hrow, hfinal⟩
    · obtain ⟨t, ht⟩ := known_of_row hrow hfinal htx hanchor
      exact ⟨3, hn, t, row, ht, hrow⟩
  obtain ⟨-, -, j, hj, hdone⟩ := hrounds.closer hkeys hreached hwaiting hremaining
  rw [Nat.le_zero.mp hj] at hdone
  exact hdone

end Rounds

/-! ### A sample run -/

/-- A round in which the sample transaction is in block 2 at height 10, under head 14. -/
def sampleRound (seed : ℕ) (p : Proc) : Option Proc :=
  (p.run sampleRuntime sampleConfig p.rescan).bind fun mid ↦
    (mid.run sampleRuntime sampleConfig (samplePassOf 14 (sampleAnswers 2 10))).bind fun polled ↦
      if mid.watcher.tracked.keys = [sampleTx] ∧ polled.watcher.stage.statuses.length = 1 ∧
          (p.known sampleConfig sampleTx).all (fun t ↦ t.blockHash ≠ 2 ∨ t.blockNumber = 10) then
        polled.run sampleRuntime sampleConfig [.deliver (sampleAmbient seed) .applied]
      else none

theorem round_of_sampleRound {seed : ℕ} {p p' : Proc} (h : sampleRound seed p = some p') :
    Round sampleRuntime sampleConfig sampleTx ⟨2, 10, 1⟩ p p' := by
  obtain ⟨mid, hrescan, h⟩ := Option.bind_eq_some_iff.mp h
  obtain ⟨polled, hpass, h⟩ := Option.bind_eq_some_iff.mp h
  obtain ⟨⟨hkeys, hlength, hknown⟩, hdeliver⟩ := Option.ite_none_right_eq_some.mp h
  have hlocated : ∀ t, p.known sampleConfig sampleTx = some t → t.Anchored →
      Located (sampleAnswers 2 10) ⟨2, 10, 1⟩ t := by
    intro t ht _
    rw [ht] at hknown
    refine ⟨2, rfl, fun hhash ↦ ?_⟩
    simpa [← hhash] using hknown
  have hstage : polled.watcher.stage = .delivering polled.watcher.stage.statuses := by
    cases hstage : polled.watcher.stage with
    | delivering queue => rfl
    | polling head remaining emitted =>
      simp [Proc.run, Proc.step, hstage] at hdeliver
  have hdeliver : polled.run sampleRuntime sampleConfig
      ([sampleAmbient seed].map fun ambient ↦ .deliver ambient .applied) = some p' := hdeliver
  have hlength : [sampleAmbient seed].length = polled.watcher.stage.statuses.length := hlength.symm
  exact .mk ⟨rfl, rfl, by decide, by decide⟩ hlocated hrescan (.of_eq hkeys.symm) hpass hstage
    hlength hdeliver

/-- The sample transaction was settled in block 1.  It is taken back, settled again in block 2, and
then final. -/
theorem settlement_reaches_finality_sample :
    ∃ p p' row, sampleProc settledOnce = some p ∧
      (sampleRound 300 p).bind (fun p₁ ↦ (sampleRound 400 p₁).bind (sampleRound 500)) = some p' ∧
      p'.db.settlement sampleTx = some row ∧ row.status = .finalized := by
  have hstate : (sampleProc settledOnce).map (fun p ↦ (p.watcher.stage,
      (p.db.settlement sampleTx).map anchorOf)) =
      some (.delivering [], some (.settled, some (1 : Hash).hex, some 9)) := by decide +kernel
  obtain ⟨p, hp, hfacts⟩ := Option.map_eq_some_iff.mp hstate
  obtain ⟨hstage, hrow⟩ := Prod.mk.inj hfacts
  obtain ⟨row, hrow, hfields⟩ := Option.map_eq_some_iff.mp hrow
  have hruns : ((sampleProc settledOnce).bind fun p ↦ (sampleRound 300 p).bind
      fun p₁ ↦ (sampleRound 400 p₁).bind (sampleRound 500)).isSome = true := by decide +kernel
  rw [hp, Option.bind_some] at hruns
  obtain ⟨p', hp'⟩ := Option.isSome_iff_exists.mp hruns
  obtain ⟨p₁, hfirst, hrest⟩ := Option.bind_eq_some_iff.mp hp'
  obtain ⟨p₂, hsecond, hthird⟩ := Option.bind_eq_some_iff.mp hrest
  have hrounds : Rounds sampleRuntime sampleConfig sampleTx ⟨2, 10, 1⟩ p 3 p' :=
    .more (.more (.more .none (round_of_sampleRound hfirst)) (round_of_sampleRound hsecond))
      (round_of_sampleRound hthird)
  have hreached : Reached sampleRuntime sampleConfig (fun _ _ ↦ True) watchedDb p :=
    Reached.run .start (fun _ _ _ ↦ trivial) (by simp [settledOnce, samplePassOf, pass]) hp
  have hanchor : ∀ blockHash, row.settledBlockHash = some blockHash →
      isHexTxHash blockHash = true := by
    intro blockHash hblock
    rw [anchorOf, hblock] at hfields
    simp only [Prod.mk.injEq, Option.some.injEq] at hfields
    rw [hfields.2.1]
    exact isHexTxHash_hex 1
  obtain ⟨row', hrow', hfinal⟩ := settlement_reaches_finality nodup_watchedDb hreached hstage hrow
    (isHexTxHash_hex 7) (fun _ ↦ hanchor) le_rfl hrounds
  exact ⟨p, p', row', hp, hp', hrow', hfinal⟩

end PaymentRail.Chainwatcher
