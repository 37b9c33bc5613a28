import PaymentRail.Chain.View

/-!
# Faults of the node and the order of a pass

A pass is local: what it does to a transaction depends on the head, the entry and the node's answers
about that transaction alone (`outcome_visitAll`).  So neither the order in which the map is iterated
nor a fault in the answers about another transaction is visible to it, and a fault in an answer that
was asked for leaves the transaction as it was.

`pass_steps` ties the pass as a whole (`poll`) to the steps of the state machine.
-/

namespace PaymentRail.Chain

/-- What a pass made of one transaction: its next entry and the statuses about it. -/
def outcome (result : TrackedMap × List Status) (tx : TxHash) : Option Tracked × List Status :=
  (result.1.lookup tx, result.2.filter (·.txHash = tx))

/-- The queries about a transaction. -/
inductive Query where
  | receipt
  | header (number : UInt64)
  deriving DecidableEq

/-- An answer without information: an error other than `NotFound`, or a nil. -/
def Answer.Lost {α : Type} (answer : Answer α) : Prop := answer = .fault ∨ answer = .null

/-- `faulty` answers as `reader` does, except that the answers in `lost` are replaced by errors
or nils. -/
structure Degrades (lost : TxHash → Query → Prop) (reader faulty : TxHash → Answers) : Prop where
  receipt : ∀ tx, ¬lost tx .receipt → (faulty tx).receipt = (reader tx).receipt
  receiptLost : ∀ tx, lost tx .receipt → (faulty tx).receipt.Lost
  header : ∀ tx number, ¬lost tx (.header number) →
    (faulty tx).header number = (reader tx).header number
  headerLost : ∀ tx number, lost tx (.header number) → ((faulty tx).header number).Lost

/-- The queries a pass makes about a transaction: the header of an anchor only with a receipt. -/
def consulted (answers : Answers) (t : Tracked) : List Query :=
  match t.phase, answers.receipt with
  | .pending, _ => [.receipt]
  | .mined, .found _ | .confirmed, .found _ => [.receipt, .header t.blockNumber]
  | .mined, _ | .confirmed, _ => [.receipt]
  | .reorged, _ | .finalized, _ => []

/-- The node's answers say that the block of an anchor is no longer part of the chain. -/
def Orphaned (answers : Answers) (t : Tracked) : Prop :=
  answers.receipt = .notFound ∨ ∃ receipt hash, answers.receipt = .found receipt ∧
    answers.header t.blockNumber = .found hash ∧ hash ≠ t.blockHash

variable {cfg : Config} {head : UInt64} {tx : TxHash} {t : Tracked} {tracked : TrackedMap}
  {keys keys' : List TxHash} {reader faulty : TxHash → Answers} {answers : Answers}
  {lost : TxHash → Query → Prop} {w : Watcher}

/-! ### A pass is local -/

/-- A transaction that is not among the keys of a pass is not touched by it. -/
theorem outcome_of_notMem (hshape : ∀ tx t, tracked.lookup tx = some t → t.Shape)
    (hnotMem : tx ∉ keys) :
    outcome (visitAll cfg head reader keys tracked) tx = (tracked.lookup tx, []) := by
  induction keys generalizing tracked with
  | nil => rfl
  | cons tx' keys ih =>
    obtain ⟨hne, hrest⟩ := not_or.mp (mt List.mem_cons.mpr hnotMem)
    have hothers := Prod.ext_iff.mp (ih (shape_visit cfg head tx' (reader tx') hshape) hrest)
    refine Prod.ext (hothers.1.trans (lookup_visit_of_ne hne)) ?_
    simp only [outcome, visitAll, List.filter_append, filter_visit hshape, if_neg (Ne.symm hne),
      List.nil_append]
    exact hothers.2

/-- What a pass does to a transaction depends on its own entry and answers only. -/
theorem outcome_visitAll (hshape : ∀ tx t, tracked.lookup tx = some t → t.Shape)
    (hnodup : keys.Nodup) (hmem : tx ∈ keys) (hrow : tracked.lookup tx = some t) :
    outcome (visitAll cfg head reader keys tracked) tx = observe cfg head tx (reader tx) t := by
  induction keys generalizing tracked with
  | nil => cases hmem
  | cons tx' keys ih =>
    obtain ⟨hnotMem, hnodup⟩ := List.nodup_cons.mp hnodup
    by_cases htx : tx' = tx
    · -- its own turn: the rest of the pass leaves it alone
      subst htx
      obtain ⟨hentry, hout⟩ := Prod.ext_iff.mp
        (outcome_of_notMem (shape_visit cfg head tx' (reader tx') hshape) hnotMem :
          outcome (visitAll cfg head reader keys (visit cfg head tx' (reader tx') tracked).1) tx' = _)
      refine Prod.ext (hentry.trans ?_) ?_
      · rw [lookup_visit_self, hrow, Option.bind_some]
      · simp only [outcome, visitAll, List.filter_append, filter_visit hshape, if_true]
        rw [visit_eq hrow] at hout ⊢
        exact (congrArg _ hout).trans (List.append_nil _)
    · have hrest : tx ∈ keys := (List.mem_cons.mp hmem).resolve_left (Ne.symm htx)
      have hrow' : (visit cfg head tx' (reader tx') tracked).1.lookup tx = some t :=
        (lookup_visit_of_ne (Ne.symm htx)).trans hrow
      rw [← ih (shape_visit cfg head tx' (reader tx') hshape) hnodup hrest hrow']
      refine Prod.ext rfl ?_
      simp only [outcome, visitAll, List.filter_append, filter_visit hshape, if_neg htx,
        List.nil_append]

/-- The outcome of a pass over the keys of the map, in any order. -/
theorem outcome_poll (hshape : ∀ tx t, tracked.lookup tx = some t → t.Shape)
    (hkeys : keys.Perm tracked.keys) :
    outcome (poll cfg (some head) reader keys tracked) tx =
      match tracked.lookup tx with
      | some t => observe cfg head tx (reader tx) t
      | none => (none, []) := by
  have hnodup : keys.Nodup := hkeys.nodup_iff.mpr tracked.nodupKeys
  cases hrow : tracked.lookup tx with
  | none =>
    have hnotMem : tx ∉ keys := fun hmem ↦
      AList.lookup_eq_none.mp hrow (hkeys.mem_iff.mp hmem)
    exact (outcome_of_notMem hshape hnotMem).trans (by rw [hrow])
  | some t =>
    have hmem : tx ∈ keys := hkeys.mem_iff.mpr
      (AList.lookup_isSome.mp (Option.isSome_iff_exists.mpr ⟨t, hrow⟩))
    exact outcome_visitAll hshape hnodup hmem hrow

/-! ### Faults -/

theorem Answer.Lost.ne_found {α : Type} {answer : Answer α} (h : answer.Lost) (value : α) :
    answer ≠ .found value := by
  obtain rfl | rfl := h <;> exact fun h ↦ by cases h

/-- A lost receipt, or a lost header that was asked for, leaves an anchor unknown. -/
theorem checkAnchor_lost
    (hlost : answers.receipt.Lost ∨
      (∃ receipt, answers.receipt = .found receipt) ∧ (answers.header t.blockNumber).Lost) :
    checkAnchor answers t = .unknown := by
  unfold checkAnchor
  obtain hreceipt | ⟨⟨receipt, hreceipt⟩, hheader⟩ := hlost
  · obtain h | h := hreceipt <;> rw [h]
  · rw [hreceipt]
    obtain h | h := hheader <;> simp only [h]

/-- A fault in an answer that was asked for leaves the entry as it was, and emits nothing. -/
theorem observe_lost (hdegrades : Degrades lost reader faulty)
    (hlost : ∃ query ∈ consulted (faulty tx) t, lost tx query) :
    observe cfg head tx (faulty tx) t = (some t, []) := by
  obtain ⟨query, hquery, hlost⟩ := hlost
  -- the only header that is asked for is the one at the height of the anchor
  have hcases : query = .receipt ∨ t.Anchored ∧ query = .header t.blockNumber ∧
      ∃ receipt, (faulty tx).receipt = .found receipt := by
    unfold consulted at hquery
    split at hquery <;> simp_all [Tracked.Anchored]
  obtain rfl | ⟨hanchored, rfl, hfound⟩ := hcases
  · have hreceipt := hdegrades.receiptLost tx hlost
    cases hphase : t.phase with
    | pending => exact observe_no_receipt hphase hreceipt.ne_found
    | mined => exact observe_unknown (.inl hphase) (checkAnchor_lost (.inl hreceipt))
    | confirmed => exact observe_unknown (.inr hphase) (checkAnchor_lost (.inl hreceipt))
    | reorged => simp only [observe, hphase]
    | finalized => simp only [observe, hphase]
  · have hheader := hdegrades.headerLost tx t.blockNumber hlost
    exact observe_unknown hanchored (checkAnchor_lost (.inr ⟨hfound, hheader⟩))

/-- Faults in answers that were not asked for make no difference. -/
theorem observe_kept (hdegrades : Degrades lost reader faulty)
    (hkept : ∀ query ∈ consulted (faulty tx) t, ¬lost tx query) :
    observe cfg head tx (faulty tx) t = observe cfg head tx (reader tx) t := by
  have hanchor : t.Anchored → checkAnchor (faulty tx) t = checkAnchor (reader tx) t := by
    intro hanchored
    have hasked : Query.receipt ∈ consulted (faulty tx) t := by
      unfold consulted
      split <;> simp_all [Tracked.Anchored]
    unfold checkAnchor
    rw [hdegrades.receipt tx (hkept _ hasked)]
    cases hfound : (reader tx).receipt with
    | found receipt =>
      have hfound' := (hdegrades.receipt tx (hkept _ hasked)).trans hfound
      have hasked : Query.header t.blockNumber ∈ consulted (faulty tx) t := by
        unfold consulted
        split <;> simp_all [Tracked.Anchored]
      simp only [hdegrades.header tx _ (hkept _ hasked)]
    | null => rfl
    | notFound => rfl
    | fault => rfl
  cases hphase : t.phase with
  | pending =>
    have hasked : Query.receipt ∈ consulted (faulty tx) t := by
      unfold consulted
      split <;> simp_all
    simp only [observe, hphase, observePending, hdegrades.receipt tx (hkept _ hasked)]
  | mined => simp only [observe, hphase, observeMined, hanchor (.inl hphase)]
  | confirmed => simp only [observe, hphase, observeConfirmed, hanchor (.inr hphase)]
  | reorged => simp only [observe, hphase]
  | finalized => simp only [observe, hphase]

/-! ### Reorgs -/

theorem checkAnchor_eq_orphaned : checkAnchor answers t = .orphaned ↔ Orphaned answers t := by
  unfold checkAnchor Orphaned
  cases answers.receipt with
  | found receipt => cases answers.header t.blockNumber <;> simp
  | null => simp
  | notFound => simp
  | fault => simp

theorem Observed.orphaned_of_reorged {entry : Option Tracked} {out : List Status}
    (ho : Observed cfg head tx answers t entry out) {s : Status} (hs : s ∈ out)
    (hphase : s.phase = .reorged) : t.Anchored ∧ checkAnchor answers t = .orphaned := by
  have hseen : ∀ {blockHash : Hash} {blockNumber depth : UInt64},
      (Status.seen cfg tx blockHash blockNumber depth).phase ≠ .reorged := fun {_ _ depth} h ↦ by
    obtain ⟨-, hat⟩ | ⟨-, hat⟩ := phaseAt_cases cfg depth <;> rw [Status.seen, hat] at h <;> cases h
  cases ho with
  | silent => cases hs
  | sighted => exact absurd hphase (List.mem_singleton.mp hs ▸ hseen)
  | deepened => exact absurd hphase (List.mem_singleton.mp hs ▸ hseen)
  | orphaned hanchored horphaned => exact ⟨hanchored, horphaned⟩
  | finalized =>
    obtain rfl := List.mem_singleton.mp hs
    cases hphase

/-- A visit emits a reorg exactly when the answers orphan the anchor of the entry. -/
theorem reorged_mem_observe (h : t.Shape) :
    (∃ s ∈ (observe cfg head tx answers t).2, s.phase = .reorged) ↔
      t.Anchored ∧ Orphaned answers t := by
  rw [← checkAnchor_eq_orphaned]
  constructor
  · rintro ⟨s, hs, hphase⟩
    exact (observed cfg head tx answers h).orphaned_of_reorged hs hphase
  · rintro ⟨hanchored, horphaned⟩
    rw [observe_orphaned h hanchored horphaned]
    exact ⟨_, List.mem_cons_self, rfl⟩

/-! ### The pass -/

/-- The steps of a pass, each query about a transaction answered by `reader`. -/
def passActs (head : UInt64) (keys : List TxHash) (reader : TxHash → Answers) : List Act :=
  .pollStart head keys :: (keys.map fun tx ↦ .visit (reader tx)) ++ [.pollEnd]

/-- Run a list of steps. -/
def Watcher.run (cfg : Config) : List Act → Watcher → Option Watcher
  | [], w => some w
  | act :: acts, w => (w.step cfg act).bind (run cfg acts)

theorem Watcher.Reached.run {acts : List Act} {w' : Watcher} (h : w.Reached cfg)
    (hrun : w.run cfg acts = some w') : w'.Reached cfg := by
  induction acts generalizing w with
  | nil =>
    cases hrun
    exact h
  | cons act acts ih =>
    obtain ⟨mid, hstep, hrest⟩ := Option.bind_eq_some_iff.mp hrun
    exact ih (h.step hstep) hrest

theorem run_visits (emitted : List Status) :
    Watcher.run cfg ((keys.map fun tx ↦ .visit (reader tx)) ++ [.pollEnd])
        ⟨tracked, .polling head keys emitted⟩ =
      some ⟨(visitAll cfg head reader keys tracked).1,
        .delivering (emitted ++ (visitAll cfg head reader keys tracked).2)⟩ := by
  induction keys generalizing tracked emitted with
  | nil => simp [Watcher.run, Watcher.step, visitAll]
  | cons tx keys ih =>
    rw [List.map_cons, List.cons_append, Watcher.run, Watcher.step, Option.bind_some, ih]
    simp only [visitAll, List.append_assoc]

/-- The steps of a pass over the keys of a waiting watcher do what `poll` does, and leave its
statuses to be delivered. -/
theorem pass_steps (hwaiting : w.Waiting) (hkeys : keys.Perm w.tracked.keys) :
    w.run cfg (passActs head keys reader) =
      some ⟨(poll cfg (some head) reader keys w.tracked).1,
        .delivering (poll cfg (some head) reader keys w.tracked).2⟩ := by
  have hstart : w.step cfg (.pollStart head keys) = some ⟨w.tracked, .polling head keys []⟩ := by
    rw [Watcher.Waiting] at hwaiting
    simp only [Watcher.step, hwaiting, if_pos hkeys]
  rw [passActs, List.cons_append, Watcher.run, hstart, Option.bind_some, run_visits]
  rfl

/-- In every watcher and every pass: a fault in an answer that was asked for silences its own
transaction and no other, a failed head query changes nothing, the order of the keys does not matter,
and a reorg is emitted exactly for an orphaned anchor. -/
theorem poll_faults_local (hreached : w.Reached cfg) (hkeys : keys.Perm w.tracked.keys)
    (hkeys' : keys'.Perm w.tracked.keys) (hdegrades : Degrades lost reader faulty) :
    (∀ t, w.tracked.lookup tx = some t →
      (∃ query ∈ consulted (faulty tx) t, lost tx query) →
      outcome (poll cfg (some head) faulty keys w.tracked) tx = (some t, [])) ∧
    ((∀ t, w.tracked.lookup tx = some t → ∀ query ∈ consulted (faulty tx) t, ¬lost tx query) →
      outcome (poll cfg (some head) faulty keys w.tracked) tx =
        outcome (poll cfg (some head) reader keys w.tracked) tx) ∧
    poll cfg none reader keys w.tracked = (w.tracked, []) ∧
    outcome (poll cfg (some head) reader keys w.tracked) tx =
      outcome (poll cfg (some head) reader keys' w.tracked) tx ∧
    ((∃ s ∈ (poll cfg (some head) reader keys w.tracked).2, s.txHash = tx ∧ s.phase = .reorged) ↔
      ∃ t, w.tracked.lookup tx = some t ∧ t.Anchored ∧ Orphaned (reader tx) t) := by
  have hshape := hreached.orderly.shape
  refine ⟨fun t hrow hlost ↦ ?_, fun hkept ↦ ?_, rfl, ?_, ?_⟩
  · rw [outcome_poll hshape hkeys, hrow]
    exact observe_lost hdegrades hlost
  · rw [outcome_poll hshape hkeys, outcome_poll hshape hkeys]
    cases hrow : w.tracked.lookup tx with
    | none => rfl
    | some t => exact observe_kept hdegrades (hkept t hrow)
  · rw [outcome_poll hshape hkeys, outcome_poll hshape hkeys']
  · have hstatuses : (poll cfg (some head) reader keys w.tracked).2.filter (·.txHash = tx) =
        (outcome (poll cfg (some head) reader keys w.tracked) tx).2 := rfl
    have hmem : (∃ s ∈ (poll cfg (some head) reader keys w.tracked).2,
        s.txHash = tx ∧ s.phase = .reorged) ↔
        ∃ s ∈ (outcome (poll cfg (some head) reader keys w.tracked) tx).2, s.phase = .reorged := by
      simp only [← hstatuses, List.mem_filter, decide_eq_true_eq, and_assoc]
    rw [hmem, outcome_poll hshape hkeys]
    cases hrow : w.tracked.lookup tx with
    | none => simp
    | some t =>
      rw [reorged_mem_observe (hshape tx t hrow)]
      simp

/-- Confirmation at depth 2, finality at depth 4. -/
def sampleConfig : Config := ⟨2, 4, by decide, by decide⟩

/-- A transaction hash with one digit other than zero. -/
def sampleTx : TxHash := (7 : Hash).hex

/-- A node that serves one receipt and one header at every height. -/
def sampleAnswers (blockHash : Hash) (blockNumber : UInt64) : Answers :=
  ⟨.found ⟨blockHash, blockNumber, 1⟩, fun _ ↦ .found blockHash⟩

/-- Another transaction hash. -/
def otherTx : TxHash := (8 : Hash).hex

/-- The node of the sample, but for the receipt of `sampleTx`. -/
def sampleFault (tx : TxHash) : Answers :=
  if tx = sampleTx then ⟨.fault, (sampleAnswers 1 9).header⟩ else sampleAnswers 1 9

/-- Two tracked transactions: a fault in the receipt of one leaves it pending, and the other one is
confirmed as it would be without the fault. -/
theorem poll_faults_local_sample : ∃ w : Watcher, w.Reached sampleConfig ∧
    w.tracked.lookup sampleTx = some .fresh ∧
    outcome (poll sampleConfig (some 10) sampleFault [sampleTx, otherTx] w.tracked) sampleTx =
      (some .fresh, []) ∧
    outcome (poll sampleConfig (some 10) sampleFault [sampleTx, otherTx] w.tracked) otherTx =
      outcome (poll sampleConfig (some 10) (fun _ ↦ sampleAnswers 1 9) [sampleTx, otherTx]
        w.tracked) otherTx := by
  have hfound : (Watcher.run sampleConfig [.track sampleTx, .track otherTx] .empty).map
      (fun w ↦ (w.tracked.lookup sampleTx, w.tracked.keys)) =
        some (some .fresh, [otherTx, sampleTx]) := by decide +kernel
  obtain ⟨w, hw, hrows⟩ := Option.map_eq_some_iff.mp hfound
  obtain ⟨hsample, hkeys⟩ := Prod.mk.inj hrows
  have hkeys : [sampleTx, otherTx].Perm w.tracked.keys := by
    rw [hkeys]
    exact .swap ..
  have hreached : w.Reached sampleConfig := Watcher.Reached.start.run hw
  have hne : otherTx ≠ sampleTx := by decide
  have hdegrades : Degrades (fun tx query ↦ tx = sampleTx ∧ query = .receipt)
      (fun _ ↦ sampleAnswers 1 9) sampleFault := by
    constructor
    · intro tx hkept
      have htx : tx ≠ sampleTx := fun htx ↦ hkept ⟨htx, rfl⟩
      rw [sampleFault, if_neg htx]
    · rintro tx ⟨rfl, -⟩
      exact .inl rfl
    · intro tx number _
      unfold sampleFault
      split <;> rfl
    · rintro tx number ⟨-, hquery⟩
      cases hquery
  refine ⟨w, hreached, hsample, ?_, ?_⟩
  · exact (poll_faults_local hreached hkeys hkeys hdegrades).1 .fresh hsample
      ⟨.receipt, List.mem_cons_self, rfl, rfl⟩
  · exact (poll_faults_local hreached hkeys hkeys hdegrades).2.1 fun t _ query _ hlost ↦
      hne hlost.1

end PaymentRail.Chain
