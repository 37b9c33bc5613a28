import PaymentRail.Chainwatcher.Retries

/-!
# What a settlement rests on

A row is settled by the delivery of a confirmation and by nothing else, and a confirmation is
emitted by a visit in which the node served a receipt of the transaction and its block was deep
enough.  The receipt's execution status is not looked at on the way: two runs in which the node
differs in that alone are the same run, and a transaction that reverted is settled like any other.
-/

namespace PaymentRail.Chainwatcher

open Transaction Chain Rail Sink

/-- A visit of a pass: the transaction, the head of the pass and what the node answered. -/
structure Visit where
  tx : TxHash
  head : UInt64
  answers : Answers

/-- The visit that a move makes. -/
def Proc.visits (p : Proc) : Move → List Visit
  | .watch (.visit answers) =>
    match p.watcher.stage with
    | .polling head (tx :: _) _ => [⟨tx, head, answers⟩]
    | _ => []
  | _ => []

/-- The processes of all runs from an empty watcher, with the visits made so far, the latest first. -/
inductive Logged (rt : Audit.Runtime) (cfg : Config) (start : Db) : List Visit → Proc → Prop
  | start : Logged rt cfg start [] (.start start)
  | step {visits : List Visit} {p p' : Proc} {move : Move} (run : Logged rt cfg start visits p)
      (hworldly : Worldly p move) (hstep : p.step rt cfg move = some p') :
      Logged rt cfg start (p.visits move ++ visits) p'

/-- A visit that a confirmation can come from: the node has a receipt of the transaction, and the
block of the status, which is the receipt's or one whose header it still serves, is deep enough. -/
structure Confirms (cfg : Config) (visit : Visit) (s : Status) : Prop where
  tx : visit.tx = s.txHash
  deep : cfg.depth ≤ s.depth
  receipt : ∃ receipt, visit.answers.receipt = .found receipt ∧
    (s.blockNumber = receipt.blockNumber ∧
        s.blockHash = renderHash receipt.blockHash receipt.blockNumber ∧
        s.depth = receiptDepth visit.head receipt.blockNumber ∨
      ∃ hash, visit.answers.header s.blockNumber = .found hash ∧
        s.blockHash = renderHash hash s.blockNumber ∧ s.blockNumber ≤ visit.head ∧
        s.depth = visit.head - s.blockNumber + 1)

/-- Answers that differ in the execution status of the receipt at most. -/
structure Answers.Alike (answers answers' : Answers) : Prop where
  header : answers'.header = answers.header
  receipt : answers'.receipt = answers.receipt ∨ ∃ receipt receipt' : Receipt,
    answers.receipt = .found receipt ∧ answers'.receipt = .found receipt' ∧
      receipt'.blockHash = receipt.blockHash ∧ receipt'.blockNumber = receipt.blockNumber

/-- Moves that differ in the execution status of a receipt at most. -/
inductive Move.Alike : Move → Move → Prop
  | refl (move : Move) : Alike move move
  | visit (answers answers' : Answers) (h : Answers.Alike answers answers') :
    Alike (.watch (.visit answers)) (.watch (.visit answers'))

section Blind

variable {rt : Audit.Runtime} {cfg : Config} {head : UInt64} {tx : TxHash}
  {answers answers' : Answers} {t : Tracked} {p : Proc} {move move' : Move}

theorem checkAnchor_alike (h : Answers.Alike answers answers') :
    checkAnchor answers' t = checkAnchor answers t := by
  unfold checkAnchor
  rw [h.header]
  obtain hsame | ⟨receipt, receipt', hfound, hfound', -, -⟩ := h.receipt
  · rw [hsame]
  · rw [hfound, hfound']

theorem observePending_alike (h : Answers.Alike answers answers') :
    observePending cfg head tx answers' t = observePending cfg head tx answers t := by
  unfold observePending
  obtain hsame | ⟨receipt, receipt', hfound, hfound', hhash, hnumber⟩ := h.receipt
  · rw [hsame]
  · rw [hfound, hfound']
    simp only [hhash, hnumber]

/-- A visit does not look at the execution status. -/
theorem observe_alike (h : Answers.Alike answers answers') :
    observe cfg head tx answers' t = observe cfg head tx answers t := by
  unfold observe observeMined observeConfirmed
  rw [checkAnchor_alike h, observePending_alike h]

theorem step_alike (h : Move.Alike move move') : p.step rt cfg move' = p.step rt cfg move := by
  cases h with
  | refl => rfl
  | visit answers answers' h =>
    have hvisit : ∀ head tx (tracked : TrackedMap),
        visit cfg head tx answers' tracked = visit cfg head tx answers tracked := by
      intro head tx tracked
      unfold visit
      simp only [observe_alike h]
    simp only [Proc.step, Watcher.step, hvisit, Internal]

/-- Two runs that differ in execution statuses only are the same. -/
theorem run_alike {moves moves' : List Move} (h : List.Forall₂ Move.Alike moves moves') :
    p.run rt cfg moves' = p.run rt cfg moves := by
  induction h generalizing p with
  | nil => rfl
  | cons hmove _ ih =>
    simp only [Proc.run, step_alike hmove]
    exact congrArg _ (funext fun mid ↦ ih)

end Blind

section Origin

variable {rt : Audit.Runtime} {cfg : Config} {start : Db} {p p' : Proc} {move : Move}
  {visits : List Visit} {tx : TxHash} {head : UInt64} {answers : Answers} {t : Tracked}
  {entry : Option Tracked} {out : List Status} {s st : Status} {outcome : Outcome}

theorem depth_le_of_confirmed {depth : UInt64} (h : phaseAt cfg depth = .confirmed) :
    cfg.depth ≤ depth := by
  obtain ⟨hdeep, -⟩ | ⟨-, hmined⟩ := phaseAt_cases cfg depth
  · exact hdeep
  · cases hmined.symm.trans h

/-- A confirmation that a visit emits rests on the answers of that visit. -/
theorem confirms_of_observed (ho : Observed cfg head tx answers t entry out) (hs : s ∈ out)
    (hphase : s.phase = .confirmed) : Confirms cfg ⟨tx, head, answers⟩ s := by
  cases ho with
  | silent => cases hs
  | sighted receipt _ hreceipt =>
    obtain rfl := List.mem_singleton.mp hs
    exact ⟨rfl, depth_le_of_confirmed hphase, receipt, hreceipt, .inl ⟨rfl, rfl, rfl⟩⟩
  | deepened _ hcanonical hhead =>
    obtain rfl := List.mem_singleton.mp hs
    obtain ⟨receipt, hreceipt, hheader⟩ : ∃ receipt, answers.receipt = .found receipt ∧
        answers.header t.blockNumber = .found t.blockHash := by
      unfold checkAnchor at hcanonical
      split at hcanonical
      · cases hcanonical
      · next receipt hreceipt =>
        split at hcanonical
        · next hash hheader =>
          split at hcanonical
          · cases hcanonical
          · next hhash => exact ⟨receipt, hreceipt, not_not.mp hhash ▸ hheader⟩
        · cases hcanonical
      · cases hcanonical
    exact ⟨rfl, depth_le_of_confirmed hphase, receipt, hreceipt,
      .inr ⟨t.blockHash, hheader, rfl, hhead, rfl⟩⟩
  | orphaned =>
    obtain rfl := List.mem_singleton.mp hs
    cases hphase
  | finalized =>
    obtain rfl := List.mem_singleton.mp hs
    cases hphase

theorem Logged.reached (h : Logged rt cfg start visits p) :
    Reached rt cfg (fun _ _ ↦ True) start p := by
  induction h with
  | start => exact .start
  | step run hworldly hstep ih => exact ih.step trivial hworldly hstep

theorem Logged.run {moves : List Move} (h : Logged rt cfg start visits p)
    (hworld : ∀ db, .world db ∉ moves) (hrun : p.run rt cfg moves = some p') :
    ∃ visits', Logged rt cfg start visits' p' := by
  induction moves generalizing p visits with
  | nil =>
    cases hrun
    exact ⟨visits, h⟩
  | cons move moves ih =>
    obtain ⟨mid, hstep, hrest⟩ := Option.bind_eq_some_iff.mp hrun
    have hworldly : Worldly p move :=
      worldly_of_ne fun db heq ↦ hworld db (heq ▸ List.mem_cons_self)
    exact ih (h.step hworldly hstep) (fun db hmem ↦ hworld db (List.mem_cons_of_mem _ hmem)) hrest

/-- A status that is about to be delivered after a move was so before, or the move emitted it. -/
theorem mem_statuses_step (hsound : p.Sound) (hstep : p.step rt cfg move = some p')
    (hs : s ∈ p'.watcher.stage.statuses) (hphase : s.phase = .confirmed) :
    s ∈ p.watcher.stage.statuses ∨ ∃ visit ∈ p.visits move, Confirms cfg visit s := by
  cases Proc.stepped hstep with
  | list | world => exact .inl hs
  | @seed row rest w' hscan hw' =>
    obtain ⟨hstage, -⟩ : w'.stage = p.watcher.stage ∧ w'.tracked.lookup "" = _ := view_seed hw'
    exact .inl (hstage ▸ hs)
  | deliver hstage hw' hdb' =>
    simp only [Watcher.step, hstage, Option.some.injEq] at hw'
    subst hw'
    rw [hstage]
    exact .inl (List.mem_cons_of_mem _ hs)
  | watch hinternal hw' =>
    cases Watcher.stepped hw' with
    | track | resume | deliver => contradiction
    | headFailed => exact .inl hs
    | pollStart => cases hs
    | pollEnd hstage =>
      rw [hstage]
      exact .inl hs
    | @visit head tx keys emitted answers hstage =>
      rw [hstage]
      obtain hold | hnew := List.mem_append.mp hs
      · exact .inl hold
      · refine .inr ⟨⟨tx, head, answers⟩, ?_, ?_⟩
        · simp only [Proc.visits, hstage, List.mem_singleton]
        · unfold visit at hnew
          split at hnew
          · cases hnew
          · next t ht =>
            exact confirms_of_observed
              (observed cfg head tx answers (hsound.orderly.shape tx t ht)) hnew hphase

/-- Every confirmation that is about to be delivered comes from a visit of the run. -/
theorem Logged.confirms (hkeys : (start.settlements.map Settlement.txHash).Nodup)
    (h : Logged rt cfg start visits p) (hs : s ∈ p.watcher.stage.statuses)
    (hphase : s.phase = .confirmed) : ∃ visit ∈ visits, Confirms cfg visit s := by
  induction h with
  | start => cases hs
  | step run hworldly hstep ih =>
    obtain hold | ⟨visit, hvisit, hconfirms⟩ :=
      mem_statuses_step (run.reached.sound hkeys) hstep hs hphase
    · obtain ⟨visit, hvisit, hconfirms⟩ := ih hold
      exact ⟨visit, List.mem_append_right _ hvisit, hconfirms⟩
    · exact ⟨visit, List.mem_append_left _ hvisit, hconfirms⟩

theorem txMove_deliver (h : p.txMove tx move = .deliver st outcome) :
    ∃ ambient queue, move = .deliver ambient outcome ∧
      p.watcher.stage = .delivering (st :: queue) ∧ st.txHash = tx := by
  unfold Proc.txMove at h
  split at h
  · split at h
    · split at h <;> cases h
    · cases h
  · next ambient outcome' =>
    split at h
    · next st' queue hstage =>
      split at h
      · next htx =>
        cases h
        exact ⟨ambient, queue, rfl, hstage, htx⟩
      · cases h
    · cases h
  all_goals cases h

/-- A settlement entry is posted by the delivery of a confirmation of a linked transaction. -/
theorem settle_posted {ambient : ℕ → Ambient} {db db' : Db} {result : Result} {je : JournalEntry}
    (hrun : atomically queries (body rt (.onStatus st)) ambient db = (.ok result, db'))
    (hje : je ∈ db'.journalEntries) (hnew : je ∉ db.journalEntries)
    (hkind : je.kind = "settlement.settle") :
    st.phase = .confirmed ∧ ∃ row, db.settlement st.txHash = some row ∧
      je.externalRef = settleRef row.paymentID st.blockHash := by
  cases hrow : db.settlement st.txHash with
  | none =>
    obtain ⟨writes, hcommitted, rfl⟩ := committed_of_delivery hrun
    cases hcommitted with
    | nothing | finalized => exact absurd hje hnew
    | settled _ _ _ _ _ _ _ _ resolved => cases hrow.symm.trans resolved.linked
    | reversed _ _ _ _ _ _ _ _ resolved => cases hrow.symm.trans resolved.linked
    | settledUnmarked _ _ _ _ _ _ resolved => cases hrow.symm.trans resolved.linked
    | reversedUnmarked _ _ _ _ _ _ resolved => cases hrow.symm.trans resolved.linked
  | some row =>
    obtain ⟨hsame, -⟩ | ⟨posted, hjournal, hposted⟩ := journal_after_delivery hrun hrow
    · rw [hsame] at hje
      exact absurd hje hnew
    · rw [hjournal, List.mem_append, List.mem_singleton] at hje
      obtain rfl := hje.resolve_left hnew
      obtain ⟨hphase, -, href⟩ | ⟨-, hreversal, -⟩ := hposted
      · exact ⟨hphase, row, rfl, href⟩
      · exact absurd (hkind.symm.trans hreversal) (by decide)

/-- The move delivers a confirmation about the transaction that comes from a visit of the run. -/
def ConfirmedBy (cfg : Config) (visits : List Visit) (p : Proc) (tx : TxHash) (move : Move) : Prop :=
  ∃ ambient outcome st queue, move = .deliver ambient outcome ∧ outcome ≠ .failed ∧
    p.watcher.stage = .delivering (st :: queue) ∧ st.txHash = tx ∧ st.phase = .confirmed ∧
    ∃ visit ∈ visits, Confirms cfg visit st

/-- The row of a transaction changes when it is linked and when a delivery about it is committed. -/
theorem Seen.row_cases {served : Answers → Prop} {g g' : Glimpse} {txMove : TxMove}
    (hseen : Seen cfg served tx g txMove g') (hsteady : Steady g) :
    g'.row = g.row ∨ (∃ row', g'.row = some row' ∧ row'.status = .pending) ∨
      ∃ st outcome row row', txMove = .deliver st outcome ∧ outcome ≠ .failed ∧
        g.row = some row ∧ g'.row = some row' ∧ Moved st row row' := by
  cases hseen with
  | unseen | listed | seeded | begun | visited => exact .inl rfl
  | linked view listed row hpending => exact .inr (.inl ⟨row, rfl, hpending⟩)
  | delivered entry st due outcome row row' listed hfailed hmoved =>
    by_cases houtcome : outcome = .failed
    · exact .inl (hfailed houtcome)
    · obtain ⟨r, hr⟩ := Option.isSome_iff_exists.mp
        (hsteady.linked (.inr (.inl (List.cons_ne_nil _ _))))
      obtain ⟨r', hr', hmove⟩ := hmoved houtcome r hr
      exact .inr (.inr ⟨st, outcome, r, r', rfl, houtcome, hr, hr', hmove⟩)

/-- A move after which a row is settled that was not so before delivers a confirmation. -/
theorem confirmed_of_settled (hkeys : (start.settlements.map Settlement.txHash).Nodup)
    (h : Logged rt cfg start visits p) (hworldly : Worldly p move)
    (hstep : p.step rt cfg move = some p') {row' : Settlement}
    (hrow' : p'.db.settlement tx = some row') (hsettled : row'.status = .settled)
    (hbefore : ∀ row, p.db.settlement tx = some row → row.status ≠ .settled) :
    ConfirmedBy cfg visits p tx move := by
  have hseen : Seen cfg _ tx (p.glimpse tx) (p.txMove tx move) (p'.glimpse tx) :=
    glimpse_step (h.reached.sound hkeys) move.serves_true hworldly hstep
  obtain hsame | ⟨linked, hlinked, hpending⟩ |
      ⟨st, outcome, row, moved, hdeliver, houtcome, hrow, hmid, hmoved⟩ :=
    hseen.row_cases (h.reached.steady hkeys tx)
  · exact absurd hsettled (hbefore row' (hsame.symm.trans hrow'))
  · obtain rfl := Option.some.inj (hlinked.symm.trans hrow')
    cases hpending.symm.trans hsettled
  obtain rfl := Option.some.inj (hmid.symm.trans hrow')
  obtain ⟨ambient, queue, rfl, hstage, htx⟩ := txMove_deliver hdeliver
  have hphase : st.phase = .confirmed := by
    have hopen := hbefore row hrow
    unfold Moved at hmoved
    split at hmoved
    · assumption
    · rw [if_neg hopen] at hmoved
      rw [hmoved] at hsettled
      exact absurd hsettled hopen
    · rw [if_neg hopen] at hmoved
      rw [hmoved] at hsettled
      exact absurd hsettled hopen
    all_goals
      rw [hmoved] at hsettled
      exact absurd hsettled hopen
  have hdue : st ∈ p.watcher.stage.statuses := by
    rw [hstage]
    exact List.mem_cons_self
  exact ⟨ambient, outcome, st, queue, rfl, houtcome, hstage, htx, hphase,
    h.confirms hkeys hdue hphase⟩

/-- A move of the process that posts a settlement delivers a confirmation of the payment's
transaction. -/
theorem confirmed_of_posted (hkeys : (start.settlements.map Settlement.txHash).Nodup)
    (h : Logged rt cfg start visits p) (hmove : ∀ db, move ≠ .world db)
    (hstep : p.step rt cfg move = some p') {je : JournalEntry} (hje : je ∈ p'.db.journalEntries)
    (hnew : je ∉ p.db.journalEntries) (hkind : je.kind = "settlement.settle") :
    ∃ row blockHash, p.db.settlement row.txHash = some row ∧
      je.externalRef = settleRef row.paymentID blockHash ∧
      ConfirmedBy cfg visits p row.txHash move := by
  cases Proc.stepped hstep with
  | list | seed | watch => exact absurd hje hnew
  | world db => exact absurd rfl (hmove db)
  | @deliver ambient outcome st queue w' db' hstage hw' hdb' =>
    have houtcome : outcome ≠ .failed := by
      rintro rfl
      cases hdb'
      exact hnew hje
    obtain ⟨result, hrun⟩ := delivered_run hdb' houtcome
    obtain ⟨hphase, row, hrow, href⟩ := settle_posted hrun hje hnew hkind
    have hdue : st ∈ p.watcher.stage.statuses := by
      rw [hstage]
      exact List.mem_cons_self
    have htx := Table.key_of_lookup hrow
    refine ⟨row, st.blockHash, htx.symm ▸ hrow, href, ambient, outcome, st, queue, rfl, houtcome,
      hstage, htx.symm, hphase, h.confirms hkeys hdue hphase⟩

/-- In every run a row becomes settled, and a settlement is posted for its payment, only by the
delivery of a confirmation that a visit of its transaction emitted, in which the node served a
receipt and the block was deep enough.  The execution status of the receipt has no part in it: runs
that differ in execution statuses only are the same. -/
theorem settled_whatever_execution (hkeys : (start.settlements.map Settlement.txHash).Nodup)
    (h : Logged rt cfg start visits p) (hworldly : Worldly p move)
    (hstep : p.step rt cfg move = some p') :
    (∀ tx row', p'.db.settlement tx = some row' → row'.status = .settled →
      (∀ row, p.db.settlement tx = some row → row.status ≠ .settled) →
      ConfirmedBy cfg visits p tx move) ∧
    ((∀ db, move ≠ .world db) → ∀ je ∈ p'.db.journalEntries, je ∉ p.db.journalEntries →
      je.kind = "settlement.settle" → ∃ row blockHash, p.db.settlement row.txHash = some row ∧
        je.externalRef = settleRef row.paymentID blockHash ∧
        ConfirmedBy cfg visits p row.txHash move) ∧
    ∀ moves moves', List.Forall₂ Move.Alike moves moves' →
      (Proc.start start).run rt cfg moves' = (Proc.start start).run rt cfg moves :=
  ⟨fun _ _ hrow' hsettled hbefore ↦ confirmed_of_settled hkeys h hworldly hstep hrow' hsettled hbefore,
    fun hmove _ hje hnew hkind ↦ confirmed_of_posted hkeys h hmove hstep hje hnew hkind,
    fun _ _ halike ↦ run_alike halike⟩

end Origin

/-! ### A transaction that reverted -/

/-- A node that reports that the sample transaction reverted. -/
def revertedAnswers (blockHash : Hash) (blockNumber : UInt64) : Answers :=
  ⟨.found ⟨blockHash, blockNumber, 0⟩, fun _ ↦ .found blockHash⟩

/-- The sample transaction is registered and seen, and reported as reverted. -/
def revertedPass : List Move := [.list, .seed] ++ samplePassOf 10 (revertedAnswers 1 9)

/-- A reverted transaction is settled, and the merchant is debited. -/
theorem reverted_is_settled :
    (sampleProc (revertedPass ++ [.deliver (sampleAmbient 100) .applied])).map (fun p ↦
        ((p.db.settlement sampleTx).map Settlement.status, p.db.balance 2)) =
      some (some .settled, 100) ∧ watchedDb.balance 2 = 200 := by
  decide +kernel

/-- The delivery that settles it. -/
theorem settled_whatever_execution_sample : ∃ visits p p',
    Logged sampleRuntime sampleConfig watchedDb visits p ∧
    p.step sampleRuntime sampleConfig (.deliver (sampleAmbient 100) .applied) = some p' ∧
    ConfirmedBy sampleConfig visits p sampleTx (.deliver (sampleAmbient 100) .applied) := by
  have hstate : (sampleProc (revertedPass ++ [.deliver (sampleAmbient 100) .applied])).bind (fun p ↦
      (p.db.settlement sampleTx).map Settlement.status) = some .settled := by decide +kernel
  obtain ⟨p', hp', hstatus⟩ := Option.bind_eq_some_iff.mp hstate
  obtain ⟨row', hrow', hsettled⟩ := Option.map_eq_some_iff.mp hstatus
  rw [sampleProc, Proc.run_append] at hp'
  obtain ⟨p, hp, hlast⟩ := Option.bind_eq_some_iff.mp hp'
  obtain ⟨delivered, hstep, hend⟩ := Option.bind_eq_some_iff.mp hlast
  cases hend
  have hrow : (sampleProc revertedPass).map (fun p ↦ p.db.settlement sampleTx) =
      some (some watchedRow) := by decide +kernel
  rw [sampleProc, hp, Option.map_some, Option.some.injEq] at hrow
  obtain ⟨visits, hlogged⟩ : ∃ visits, Logged sampleRuntime sampleConfig watchedDb visits p :=
    Logged.run .start (by simp [revertedPass, samplePassOf, pass]) hp
  have hsettles := (settled_whatever_execution nodup_watchedDb hlogged
    (worldly_of_ne (by simp)) hstep).1 sampleTx row' hrow' hsettled
  refine ⟨visits, p, p', hlogged, hstep, hsettles fun row hold ↦ ?_⟩
  obtain rfl := Option.some.inj (hrow.symm.trans hold)
  decide

end PaymentRail.Chainwatcher
