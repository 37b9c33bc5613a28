import PaymentRail.Payments.Service
import PaymentRail.Settlement.Sink

/-!
# Everything the payment rail can commit

The calls that change the ledger, as transactions over one database.  `Committed` lists what a call
may have written when it commits, with what is then true of the tables: nothing, a payment, its
cancellation, a link, a settlement, a reversal, a finalization.  Two more cases are settlements and
reversals that were posted although the guarded `UPDATE` of the row came back empty.

A restriction `allowed` on the statements of a run is carried along; the two unmarked cases keep the
statement that `allowed` let through.
-/

namespace PaymentRail.Rail

open Transaction Ledger Chain Sink Payments

inductive Call where
  | create (input : CreateInput)
  | cancel (pid : UUID)
  | link (paymentID : UUID) (tx : TxHash)
  | onStatus (st : Status)
  deriving DecidableEq

inductive Result where
  | payment (row : Payment)
  | done
  deriving DecidableEq

/-- The transaction that serves a call. -/
def body (rt : Audit.Runtime) : Call → DbTx Result
  | .create input => do pure (.payment (← create rt input))
  | .cancel pid => do pure (.payment (← cancel rt pid))
  | .link paymentID tx => do
    link paymentID tx
    pure .done
  | .onStatus st => do
    onStatus rt st
    pure .done

/-- The committed tables with the open transactions over them. -/
abbrev RailState := State Reply Db Write Lock Call Err Result

instance (rt : Audit.Runtime) (allowed : Stmt → Ambient → Db → Prop)
    [∀ stmt ambient db, Decidable (allowed stmt ambient db)] (s : RailState)
    (actions : List (Action Call Ambient)) :
    Decidable (PermittedRun queries (body rt) allowed s actions) :=
  decidablePermittedRun queries (body rt) allowed s actions

/-- The writes that end a transition: the change of its row, its event and its audit row. -/
def transition (flip : Write) (sent : OutboxRow) (logged : AuditRow) : List Write :=
  [flip, .insertOutboxEvent sent, .insertAuditEntry logged]

/-- The row that `settle` marks. -/
def markSettled (st : Status) (je : JournalEntry) : Write :=
  .markSettled st.txHash (some je.id) (some st.blockHash) (some st.blockNumber.toInt64)

/-- The payment and the clearing account that a settlement row resolves to. -/
structure Resolved (db : Db) (tx : TxHash) (row : Settlement) (pay : Payment) (house : Account) :
    Prop where
  linked : db.settlement tx = some row
  paid : db.payment row.paymentID = some pay
  clearing : db.accountByNameAndAsset houseAccountName pay.asset = some house

section

variable (rt : Audit.Runtime) (allowed : Stmt → Ambient → Db → Prop) (db : Db)

/-- What a call may write when it commits, on the tables it commits to. -/
inductive Committed : Call → List Write → Prop
  | nothing (call : Call) : Committed call []
  | created (input : CreateInput) (pid : UUID) (je : JournalEntry) (payment : Payment)
      (sent : OutboxRow) (logged : AuditRow) (posting : Posting db (paymentEntry pid input) je)
      (fresh : db.payment pid = none)
      (row : payment = ⟨pid, .completed, input.asset, input.amount, input.sourceAccountID,
        input.destAccountID, je.id, none, payment.createdAt⟩)
      (announced : Audit.Announced rt (Payments.outboxEvent "payment.created" pid payment)
        (Payments.auditEntry "payment.created" pid payment) sent logged) :
      Committed (.create input)
        ((paymentEntry pid input).writes je ++ transition (.insertPayment payment) sent logged)
  | canceled (pid : UUID) (payment : Payment) (je : JournalEntry) (sent : OutboxRow)
      (logged : AuditRow) (row : db.payment pid = some payment)
      (completed : payment.status = .completed) (posting : Posting db (reversalEntry pid payment) je)
      (announced : Audit.Announced rt
        (Payments.outboxEvent "payment.canceled" pid (payment.cancel (some je.id)))
        (Payments.auditEntry "payment.canceled" pid (payment.cancel (some je.id))) sent logged) :
      Committed (.cancel pid)
        ((reversalEntry pid payment).writes je ++
          transition (.cancelPayment pid (some je.id)) sent logged)
  | linked (paymentID : UUID) (tx : TxHash) (row : Settlement) (fresh : db.settlement tx = none)
      (payment : (db.payment paymentID).isSome)
      (pending : row = ⟨row.id, paymentID, tx, .pending, none, row.createdAt, none, none⟩) :
      Committed (.link paymentID tx) [.insertSettlement row]
  | settled (st : Status) (row : Settlement) (pay : Payment) (house : Account) (je : JournalEntry)
      (sent : OutboxRow) (logged : AuditRow) (phase : st.phase = .confirmed)
      (resolved : Resolved db st.txHash row pay house)
      (settleable : row.status.settleable = true)
      (posting : Posting db (settleEntry row.paymentID pay house st.blockHash) je)
      (announced : Audit.Announced rt
        (Sink.outboxEvent "settlement.confirmed" st.txHash
          (settlementEvent row.paymentID st.txHash pay.asset pay.amount))
        (Sink.auditEntry "settlement.confirmed" st.txHash
          (settlementEvent row.paymentID st.txHash pay.asset pay.amount)) sent logged) :
      Committed (.onStatus st)
        ((settleEntry row.paymentID pay house st.blockHash).writes je ++
          transition (markSettled st je) sent logged)
  | reversed (st : Status) (row : Settlement) (pay : Payment) (house : Account) (je : JournalEntry)
      (sent : OutboxRow) (logged : AuditRow) (phase : st.phase = .reorged)
      (resolved : Resolved db st.txHash row pay house) (isSettled : row.status = .settled)
      (posting : Posting db (reverseEntry row.paymentID pay house st.blockHash) je)
      (announced : Audit.Announced rt
        (Sink.outboxEvent "settlement.reorged" st.txHash
          (settlementEvent row.paymentID st.txHash pay.asset pay.amount))
        (Sink.auditEntry "settlement.reorged" st.txHash
          (settlementEvent row.paymentID st.txHash pay.asset pay.amount)) sent logged) :
      Committed (.onStatus st)
        ((reverseEntry row.paymentID pay house st.blockHash).writes je ++
          transition (.markReorged st.txHash) sent logged)
  | finalized (st : Status) (row : Settlement) (sent : OutboxRow) (logged : AuditRow)
      (phase : st.phase = .finalized) (found : db.settlement st.txHash = some row)
      (isSettled : row.status = .settled)
      (announced : Audit.Announced rt
        (Sink.outboxEvent "settlement.finalized" st.txHash
          (settlementEvent row.paymentID st.txHash "" 0))
        (Sink.auditEntry "settlement.finalized" st.txHash
          (settlementEvent row.paymentID st.txHash "" 0)) sent logged) :
      Committed (.onStatus st) (transition (.markFinalized st.txHash) sent logged)
  | settledUnmarked (st : Status) (row : Settlement) (pay : Payment) (house : Account)
      (je : JournalEntry) (phase : st.phase = .confirmed)
      (resolved : Resolved db st.txHash row pay house)
      (posting : Posting db (settleEntry row.paymentID pay house st.blockHash) je)
      (unmarked : ∃ ambient seen, allowed (.markSettlementSettled (settledParams st je)) ambient seen ∧
        ∀ row, seen.settlement st.txHash = some row → row.status.settleable = false) :
      Committed (.onStatus st) ((settleEntry row.paymentID pay house st.blockHash).writes je)
  | reversedUnmarked (st : Status) (row : Settlement) (pay : Payment) (house : Account)
      (je : JournalEntry) (phase : st.phase = .reorged)
      (resolved : Resolved db st.txHash row pay house)
      (posting : Posting db (reverseEntry row.paymentID pay house st.blockHash) je)
      (unmarked : ∃ ambient seen, allowed (.markSettlementReorged st.txHash) ambient seen ∧
        ∀ row, seen.settlement st.txHash = some row → row.status ≠ .settled) :
      Committed (.onStatus st) ((reverseEntry row.paymentID pay house st.blockHash).writes je)

end

section Stability

variable {rt : Audit.Runtime} {allowed : Stmt → Ambient → Db → Prop} {db db' : Db}
  {locks : List Lock}

theorem accountByNameAndAsset_of_rely (h : Rely locks db db') (name asset : String) :
    db'.accountByNameAndAsset name asset = db.accountByNameAndAsset name asset := by
  rw [Db.accountByNameAndAsset, Db.accountByNameAndAsset, h.accounts]

/-- A payment that evolves keeps its asset. -/
theorem Evolves.asset {pay later : Payment} (h : pay.Evolves later) : later.asset = pay.asset := by
  rcases h with rfl | ⟨_, rfl⟩ <;> rfl

/-- What a row resolves to stays the same payment and the same clearing account. -/
theorem Resolved.evolve {tx : TxHash} {row : Settlement} {pay : Payment} {house : Account}
    (h : Resolved db tx row pay house) (hrely : Rely locks db db') :
    ∃ row' pay', Resolved db' tx row' pay' house ∧ row.Evolves row' ∧ pay.Evolves pay' := by
  obtain ⟨row', hrow', hevolves⟩ := hrely.settlement tx row h.linked
  obtain ⟨pay', hpay', hpaid⟩ := hrely.payment row.paymentID pay h.paid
  refine ⟨row', pay', ⟨hrow', ?_, ?_⟩, hevolves, hpaid⟩
  · rw [hevolves.2.1]
    exact hpay'
  · rw [accountByNameAndAsset_of_rely hrely, Evolves.asset hpaid]
    exact h.clearing

/-- Under the lock of the row, the row itself stays. -/
theorem Resolved.evolve_held {tx : TxHash} {row : Settlement} {pay : Payment} {house : Account}
    (h : Resolved db tx row pay house) (hrely : Rely locks db db')
    (hheld : .settlement tx ∈ locks) :
    ∃ pay', Resolved db' tx row pay' house ∧ pay.Evolves pay' := by
  obtain ⟨row', pay', hresolved, -, hpaid⟩ := h.evolve hrely
  have hrow : some row' = some row :=
    hresolved.linked.symm.trans ((hrely.settlementHeld tx hheld).trans h.linked)
  obtain rfl := Option.some.inj hrow
  exact ⟨pay', hresolved, hpaid⟩

theorem guarded_left {first second : List Write} (h : Guarded (first ++ second) locks) :
    Guarded first locks :=
  fun write hwrite ↦ h write (List.mem_append_left _ hwrite)

theorem guarded_flip {first : List Write} {flip : Write} {sent : OutboxRow} {logged : AuditRow}
    (h : Guarded (first ++ transition flip sent logged) locks) :
    ∀ lock ∈ flip.locks, lock ∈ locks :=
  h flip (List.mem_append_right _ (by simp [transition]))

/-- What a call is about to commit stays what it may commit, under the locks it holds. -/
theorem Committed.stable {call : Call} {writes : List Write}
    (h : Committed rt allowed db call writes) (hguarded : Guarded writes locks)
    (hrely : Rely locks db db') : Committed rt allowed db' call writes := by
  cases h with
  | nothing => exact .nothing call
  | created input pid je payment sent logged posting fresh row announced =>
    have hheld : Lock.payment pid ∈ locks :=
      guarded_flip hguarded _ (by rw [row]; simp [Write.locks])
    exact .created input pid je payment sent logged (posting.stable (guarded_left hguarded) hrely)
      ((hrely.paymentHeld pid hheld).trans fresh) row announced
  | canceled pid payment je sent logged row completed posting announced =>
    have hheld : Lock.payment pid ∈ locks := guarded_flip hguarded _ (by simp [Write.locks])
    exact .canceled pid payment je sent logged ((hrely.paymentHeld pid hheld).trans row) completed
      (posting.stable (guarded_left hguarded) hrely) announced
  | linked paymentID tx row fresh payment pending =>
    have hheld : Lock.settlement tx ∈ locks :=
      hguarded (.insertSettlement row) (by simp) _ (by rw [pending]; simp [Write.locks])
    obtain ⟨pay, hpay⟩ := Option.isSome_iff_exists.mp payment
    obtain ⟨later, hlater, -⟩ := hrely.payment paymentID pay hpay
    exact .linked paymentID tx row ((hrely.settlementHeld tx hheld).trans fresh)
      (by rw [hlater]; rfl) pending
  | settled st row pay house je sent logged phase resolved settleable posting announced =>
    have hheld : Lock.settlement st.txHash ∈ locks :=
      guarded_flip hguarded _ (by simp [markSettled, Write.locks])
    obtain ⟨pay', hresolved, hpaid⟩ := resolved.evolve_held hrely hheld
    have hposting := posting.stable (guarded_left hguarded) hrely
    rcases hpaid with rfl | ⟨reversal, rfl⟩
    · exact .settled st row pay' house je sent logged phase hresolved settleable hposting announced
    · exact .settled st row (pay.cancel reversal) house je sent logged phase hresolved settleable
        hposting announced
  | reversed st row pay house je sent logged phase resolved isSettled posting announced =>
    have hheld : Lock.settlement st.txHash ∈ locks := guarded_flip hguarded _ (by simp [Write.locks])
    obtain ⟨pay', hresolved, hpaid⟩ := resolved.evolve_held hrely hheld
    have hposting := posting.stable (guarded_left hguarded) hrely
    rcases hpaid with rfl | ⟨reversal, rfl⟩
    · exact .reversed st row pay' house je sent logged phase hresolved isSettled hposting announced
    · exact .reversed st row (pay.cancel reversal) house je sent logged phase hresolved isSettled
        hposting announced
  | finalized st row sent logged phase found isSettled announced =>
    have hheld : Lock.settlement st.txHash ∈ locks :=
      hguarded (.markFinalized st.txHash) (by simp [transition]) _ (by simp [Write.locks])
    exact .finalized st row sent logged phase ((hrely.settlementHeld _ hheld).trans found) isSettled
      announced
  | settledUnmarked st row pay house je phase resolved posting unmarked =>
    obtain ⟨row', pay', hresolved, hrow, hpaid⟩ := resolved.evolve hrely
    have hposting := posting.stable hguarded hrely
    rw [← hrow.2.1] at hposting ⊢
    rcases hpaid with rfl | ⟨reversal, rfl⟩
    · exact .settledUnmarked st row' pay' house je phase hresolved hposting unmarked
    · exact .settledUnmarked st row' (pay.cancel reversal) house je phase hresolved hposting
        unmarked
  | reversedUnmarked st row pay house je phase resolved posting unmarked =>
    obtain ⟨row', pay', hresolved, hrow, hpaid⟩ := resolved.evolve hrely
    have hposting := posting.stable hguarded hrely
    rw [← hrow.2.1] at hposting ⊢
    rcases hpaid with rfl | ⟨reversal, rfl⟩
    · exact .reversedUnmarked st row' pay' house je phase hresolved hposting unmarked
    · exact .reversedUnmarked st row' (pay.cancel reversal) house je phase hresolved hposting
        unmarked

end Stability

end PaymentRail.Rail
