import PaymentRail.Db.Tables
import PaymentRail.Transaction.Atomic
import Mathlib.Data.List.Sort

/-!
# The queries of the payment rail

The statements of `internal/db` that the payment, settlement, outbox and audit code issues, with
what each of them replies, writes and locks.  `queries` is the engine that the transaction bodies
run on.

Locks follow Postgres at READ COMMITTED.  `SELECT … FOR UPDATE` and `UPDATE` lock the rows they
return; an `UPDATE` whose `WHERE` matches no visible row locks nothing.  An `INSERT` waits for an
open transaction that inserted an equal unique key, which is a lock on the key, and fails on a key
that is visible.  The share locks of foreign keys are left out: they conflict only with the
`FOR UPDATE` locks on accounts, and lines and payments are inserted only for accounts that the same
transaction has locked.

`uuid.New` and `time.Now` are calls of the same kind, answered from the ambient values.
-/

namespace PaymentRail

open Transaction

/-- What `errors.Is` and `errors.As` look for in an error chain. -/
inductive Sentinel where
  | errNoRows
  | uniqueViolation
  | constraintViolation
  | outOfRange
  | errUnbalanced
  | errInsufficientFunds
  | errDuplicateEntry
  | errInvalidEntry
  | errPaymentNotFound
  | errPaymentNotCancelable
  | errInvalidIntent
  deriving DecidableEq

/-- An error: its text and the sentinel in its chain. -/
structure Err where
  text : String
  cause : Option Sentinel
  deriving DecidableEq

namespace Err

/-- `fmt.Errorf` with a trailing `%w`. -/
def wrap (context : String) (err : Err) : Err := ⟨context ++ ": " ++ err.text, err.cause⟩

/-- `errors.Is`. -/
def is (err : Err) (cause : Sentinel) : Bool := err.cause = some cause

/-- `sql.ErrNoRows`. -/
def errNoRows : Err := ⟨"sql: no rows in result set", some .errNoRows⟩

/-- The driver error with code 23505. -/
def unique (constraint : String) : Err :=
  ⟨"pq: duplicate key value violates unique constraint \"" ++ constraint ++ "\" (23505)",
    some .uniqueViolation⟩

/-- The driver error for a foreign key without its row. -/
def foreignKey (table constraint : String) : Err :=
  ⟨"pq: insert or update on table \"" ++ table ++ "\" violates foreign key constraint \"" ++
    constraint ++ "\" (23503)", some .constraintViolation⟩

theorem foreignKey_cause (table constraint : String) :
    (foreignKey table constraint).cause = some .constraintViolation := rfl

/-- The driver error for a failed `CHECK`. -/
def check (table constraint : String) : Err :=
  ⟨"pq: new row for relation \"" ++ table ++ "\" violates check constraint \"" ++ constraint ++
    "\" (23514)", some .constraintViolation⟩

/-- The driver error for a sum that does not fit its `::bigint` cast. -/
def bigint : Err := ⟨"pq: bigint out of range (22003)", some .outOfRange⟩

end Err

/-- What a transaction holds to its end. -/
inductive Lock where
  | account (id : UUID)
  | payment (id : UUID)
  | settlement (txHash : String)
  | settlementID (id : UUID)
  | journalID (id : UUID)
  | journalKey (kind externalRef : String)
  | outboxID (id : UUID)
  | auditSeq (seq : Int64)
  | auditHash (hash : List UInt8)
  | advisory (key : Int64)
  deriving DecidableEq

/-- What a call takes from outside the tables: a random identifier and the clock. -/
structure Ambient where
  uuid : UUID
  now : Time

structure InsertPaymentParams where
  id : UUID
  status : PaymentStatus
  asset : String
  amount : Int64
  sourceAccountID : UUID
  destAccountID : UUID
  journalEntryID : UUID
  deriving DecidableEq

structure MarkSettlementSettledParams where
  txHash : String
  settleEntryID : Option UUID
  settledBlockHash : Option String
  settledBlockNumber : Option Int64
  deriving DecidableEq

inductive Stmt where
  | newUUID
  | timeNow
  | getAccountByNameAndAsset (name asset : String)
  | getAccountsForUpdate (ids : List UUID)
  | getAccountBalance (accountID : UUID)
  | insertJournalEntry (kind externalRef asset : String)
  | insertEntryLine (line : EntryLine)
  | insertPayment (params : InsertPaymentParams)
  | getPayment (id : UUID)
  | cancelPayment (id : UUID) (reversalEntryID : Option UUID)
  | insertSettlement (paymentID : UUID) (txHash : String)
  | getSettlementByTxHash (txHash : String)
  | markSettlementSettled (params : MarkSettlementSettledParams)
  | markSettlementReorged (txHash : String)
  | markSettlementFinalized (txHash : String)
  | insertOutboxEvent (row : OutboxRow)
  | acquireAuditChainLock (key : Int64)
  | getAuditHead
  | insertAuditEntry (row : AuditRow)

abbrev Reply : Stmt → Type
  | .newUUID => UUID
  | .timeNow => Time
  | .getAccountByNameAndAsset .. => Except Err Account
  | .getAccountsForUpdate .. => Except Err (List Account)
  | .getAccountBalance .. => Except Err Int64
  | .insertJournalEntry .. => Except Err JournalEntry
  | .insertEntryLine .. => Except Err EntryLine
  | .insertPayment .. | .getPayment .. | .cancelPayment .. => Except Err Payment
  | .insertSettlement .. | .getSettlementByTxHash .. => Except Err Settlement
  | .markSettlementSettled .. | .markSettlementReorged .. | .markSettlementFinalized .. =>
    Except Err Settlement
  | .insertOutboxEvent .. | .acquireAuditChainLock .. | .insertAuditEntry .. => Except Err Unit
  | .getAuditHead => Except Err AuditRow

namespace Effect

variable {ρ α : Type}

/-- A statement that only reads. -/
def read (reply : ρ) : Effect ρ Write Lock := ⟨reply, [], []⟩

/-- A statement that fails or matches no row. -/
def failed (err : Err) : Effect (Except Err α) Write Lock := ⟨.error err, [], []⟩

/-- A statement that changes a row. -/
def wrote (value : α) (write : Write) (locks : List Lock) : Effect (Except Err α) Write Lock :=
  ⟨.ok value, [write], locks⟩

end Effect

namespace Db

/-- `SELECT … :one` with the row that was found, if any. -/
def one {α : Type} (row : Option α) : Except Err α :=
  match row with
  | some value => .ok value
  | none => .error .errNoRows

def accountByNameAndAsset (db : Db) (name asset : String) : Option Account :=
  db.accounts.find? fun account ↦ account.name = name ∧ account.asset = asset

/-- The rows of `GetAccountsForUpdate`, in the order of their ids. -/
def accountsByID (db : Db) (ids : List UUID) : List Account :=
  (db.accounts.filter fun account ↦ account.id ∈ ids).insertionSort fun a b ↦ a.id ≤ b.id

def hasJournalID (db : Db) (id : UUID) : Bool := db.journalEntries.any fun entry ↦ entry.id = id

/-- The audit row with the highest sequence number. -/
def auditHead (db : Db) : Option AuditRow :=
  db.auditLog.foldl (fun head row ↦
    match head with
    | none => some row
    | some best => if best.seq < row.seq then some row else some best) none

end Db

/-- The guard of `MarkSettlementSettled`. -/
def SettlementStatus.settleable : SettlementStatus → Bool
  | .pending | .reorged => true
  | .settled | .finalized => false

/-- A guarded `UPDATE` of one settlement row, which may set its reference to a journal entry. -/
def markSettlement (db : Db) (txHash : String) (guard : SettlementStatus → Bool)
    (settleEntryID : Option UUID) (change : Settlement → Settlement) (write : Write) :
    Effect (Except Err Settlement) Write Lock :=
  match db.settlement txHash with
  | some row =>
    if ¬guard row.status then Effect.failed .errNoRows
    else if settleEntryID.any fun entryID ↦ ¬db.hasJournalID entryID then
      Effect.failed (.foreignKey "settlements" "settlements_settle_entry_id_fkey")
    else Effect.wrote (change row) write [.settlement txHash]
  | none => Effect.failed .errNoRows

/-- What a statement replies, writes and locks on the rows it sees. -/
def Stmt.eval : (stmt : Stmt) → Ambient → Db → Effect (Reply stmt) Write Lock
  | .newUUID, ambient, _ => Effect.read ambient.uuid
  | .timeNow, ambient, _ => Effect.read ambient.now
  | .getAccountByNameAndAsset name asset, _, db =>
    Effect.read (Db.one (db.accountByNameAndAsset name asset))
  | .getAccountsForUpdate ids, _, db =>
    ⟨.ok (db.accountsByID ids), [], (db.accountsByID ids).map fun account ↦ .account account.id⟩
  | .getAccountBalance accountID, _, db =>
    Effect.read (if -2 ^ 63 ≤ db.balance accountID ∧ db.balance accountID < 2 ^ 63 then
      .ok (Int64.ofInt (db.balance accountID)) else .error .bigint)
  | .insertJournalEntry kind externalRef asset, ambient, db =>
    if db.hasJournalID ambient.uuid then Effect.failed (.unique "journal_entries_pkey")
    else if db.posted kind externalRef then
      Effect.failed (.unique "journal_entries_kind_external_ref_key")
    else
      let entry : JournalEntry := ⟨ambient.uuid, kind, externalRef, asset⟩
      Effect.wrote entry (.insertJournalEntry entry)
        [.journalID ambient.uuid, .journalKey kind externalRef]
  | .insertEntryLine line, _, db =>
    if line.direction ≠ .debit ∧ line.direction ≠ .credit then
      Effect.failed (.check "entry_lines" "entry_lines_direction_check")
    else if line.amount ≤ 0 then Effect.failed (.check "entry_lines" "entry_lines_amount_check")
    else if ¬db.hasJournalID line.entryID then
      Effect.failed (.foreignKey "entry_lines" "entry_lines_entry_id_fkey")
    else if (db.account line.accountID).isNone then
      Effect.failed (.foreignKey "entry_lines" "entry_lines_account_id_fkey")
    else Effect.wrote line (.insertEntryLine line) []
  | .insertPayment params, ambient, db =>
    if params.amount ≤ 0 then Effect.failed (.check "payments" "payments_amount_check")
    else if (db.payment params.id).isSome then Effect.failed (.unique "payments_pkey")
    else if (db.account params.sourceAccountID).isNone then
      Effect.failed (.foreignKey "payments" "payments_source_account_id_fkey")
    else if (db.account params.destAccountID).isNone then
      Effect.failed (.foreignKey "payments" "payments_dest_account_id_fkey")
    else if ¬db.hasJournalID params.journalEntryID then
      Effect.failed (.foreignKey "payments" "payments_journal_entry_id_fkey")
    else
      let payment : Payment :=
        { id := params.id
          status := params.status
          asset := params.asset
          amount := params.amount
          sourceAccountID := params.sourceAccountID
          destAccountID := params.destAccountID
          journalEntryID := params.journalEntryID
          reversalEntryID := none
          createdAt := ambient.now }
      Effect.wrote payment (.insertPayment payment) [.payment params.id]
  | .getPayment id, _, db => Effect.read (Db.one (db.payment id))
  | .cancelPayment id reversalEntryID, _, db =>
    match db.payment id with
    | some payment =>
      if payment.status ≠ .completed then Effect.failed .errNoRows
      else if reversalEntryID.any fun entryID ↦ ¬db.hasJournalID entryID then
        Effect.failed (.foreignKey "payments" "payments_reversal_entry_id_fkey")
      else Effect.wrote (payment.cancel reversalEntryID) (.cancelPayment id reversalEntryID)
        [.payment id]
    | none => Effect.failed .errNoRows
  | .insertSettlement paymentID txHash, ambient, db =>
    -- `ON CONFLICT (tx_hash) DO NOTHING`: a linked hash returns no row
    if (db.settlement txHash).isSome then Effect.failed .errNoRows
    else if db.settlements.any fun row ↦ row.id = ambient.uuid then
      Effect.failed (.unique "settlements_pkey")
    else if (db.payment paymentID).isNone then
      Effect.failed (.foreignKey "settlements" "settlements_payment_id_fkey")
    else
      let row : Settlement :=
        { id := ambient.uuid
          paymentID := paymentID
          txHash := txHash
          status := .pending
          settleEntryID := none
          createdAt := ambient.now
          settledBlockHash := none
          settledBlockNumber := none }
      Effect.wrote row (.insertSettlement row) [.settlement txHash, .settlementID ambient.uuid]
  | .getSettlementByTxHash txHash, _, db => Effect.read (Db.one (db.settlement txHash))
  | .markSettlementSettled params, _, db =>
    markSettlement db params.txHash SettlementStatus.settleable params.settleEntryID
      (·.settle params.settleEntryID params.settledBlockHash params.settledBlockNumber)
      (.markSettled params.txHash params.settleEntryID params.settledBlockHash
        params.settledBlockNumber)
  | .markSettlementReorged txHash, _, db =>
    markSettlement db txHash (· = .settled) none Settlement.reorg (.markReorged txHash)
  | .markSettlementFinalized txHash, _, db =>
    markSettlement db txHash (· = .settled) none Settlement.finalize (.markFinalized txHash)
  | .insertOutboxEvent row, _, db =>
    if db.outbox.any fun sent ↦ sent.id = row.id then Effect.failed (.unique "outbox_pkey")
    else Effect.wrote () (.insertOutboxEvent row) [.outboxID row.id]
  | .acquireAuditChainLock key, _, _ => ⟨.ok (), [], [.advisory key]⟩
  | .getAuditHead, _, db => Effect.read (Db.one db.auditHead)
  | .insertAuditEntry row, _, db =>
    if db.auditLog.any fun logged ↦ logged.seq = row.seq then
      Effect.failed (.unique "audit_log_pkey")
    else if db.auditLog.any fun logged ↦ logged.entryHash = row.entryHash then
      Effect.failed (.unique "audit_log_entry_hash_key")
    else Effect.wrote () (.insertAuditEntry row) [.auditSeq row.seq, .auditHash row.entryHash]

/-- The database as the engine that transaction bodies run on. -/
def queries : Engine Reply Ambient Db Write Lock where
  apply := Db.apply
  eval := Stmt.eval

/-! ### What a statement that succeeded has done -/

section Inversion

variable {ambient : Ambient} {db : Db}

theorem eq_some_of_one {α : Type} {row : Option α} {value : α} (h : Db.one row = .ok value) :
    row = some value := by
  unfold Db.one at h
  split at h
  · rw [Except.ok.inj h]
  · cases h

theorem eval_getAccountBalance {accountID : UUID} {bal : Int64}
    (h : (queries.eval (.getAccountBalance accountID) ambient db).reply = .ok bal) :
    (-2 ^ 63 ≤ db.balance accountID ∧ db.balance accountID < 2 ^ 63) ∧
      bal = Int64.ofInt (db.balance accountID) := by
  simp only [queries, Stmt.eval, Effect.read] at h
  split at h
  · next hrange => exact ⟨hrange, (Except.ok.inj h).symm⟩
  · cases h

theorem eval_insertJournalEntry {kind externalRef asset : String} {entry : JournalEntry}
    (h : (queries.eval (.insertJournalEntry kind externalRef asset) ambient db).reply = .ok entry) :
    entry = ⟨entry.id, kind, externalRef, asset⟩ ∧ db.hasJournalID entry.id = false ∧
      db.posted kind externalRef = false ∧
      queries.eval (.insertJournalEntry kind externalRef asset) ambient db =
        Effect.wrote entry (.insertJournalEntry entry)
          [.journalID entry.id, .journalKey kind externalRef] := by
  simp only [queries, Stmt.eval] at h ⊢
  split at h
  · cases h
  · next hid =>
    split at h
    · cases h
    · next hkey =>
      obtain rfl := Except.ok.inj h
      rw [if_neg hid, if_neg hkey]
      exact ⟨rfl, by simpa using hid, by simpa using hkey, rfl⟩

theorem eval_insertEntryLine {line row : EntryLine}
    (h : (queries.eval (.insertEntryLine line) ambient db).reply = .ok row) :
    queries.eval (.insertEntryLine line) ambient db =
      Effect.wrote line (.insertEntryLine line) [] := by
  simp only [queries, Stmt.eval] at h ⊢
  repeat' split at h
  all_goals first | cases h; done | skip
  next hdirection hamount hentry haccount =>
  simp only [if_neg hdirection, if_neg hamount, if_neg hentry, if_neg haccount]

theorem eval_insertPayment {params : InsertPaymentParams} {payment : Payment}
    (h : (queries.eval (.insertPayment params) ambient db).reply = .ok payment) :
    payment = ⟨params.id, params.status, params.asset, params.amount, params.sourceAccountID,
        params.destAccountID, params.journalEntryID, none, ambient.now⟩ ∧
      db.payment params.id = none ∧
      queries.eval (.insertPayment params) ambient db =
        Effect.wrote payment (.insertPayment payment) [.payment params.id] := by
  simp only [queries, Stmt.eval] at h ⊢
  repeat' split at h
  all_goals first | cases h; done | skip
  next hamount hid hsource hdest hentry =>
  obtain rfl := Except.ok.inj h
  refine ⟨rfl, by simpa using hid, ?_⟩
  simp only [if_neg hamount, if_neg hid, if_neg hsource, if_neg hdest, if_neg hentry]

theorem eval_cancelPayment {id : UUID} {reversalEntryID : Option UUID} {payment : Payment}
    (h : (queries.eval (.cancelPayment id reversalEntryID) ambient db).reply = .ok payment) :
    ∃ before, db.payment id = some before ∧ before.status = .completed ∧
      payment = before.cancel reversalEntryID ∧
      queries.eval (.cancelPayment id reversalEntryID) ambient db =
        Effect.wrote payment (.cancelPayment id reversalEntryID) [.payment id] := by
  simp only [queries, Stmt.eval] at h ⊢
  split at h
  · next before hrow =>
    split at h
    · cases h
    · next hstatus =>
      split at h
      · cases h
      · next hentry =>
        obtain rfl := Except.ok.inj h
        refine ⟨before, hrow, not_not.mp hstatus, rfl, ?_⟩
        simp only [if_neg hstatus, if_neg hentry]
  · cases h

theorem eval_insertSettlement {paymentID : UUID} {txHash : String} {row : Settlement}
    (h : (queries.eval (.insertSettlement paymentID txHash) ambient db).reply = .ok row) :
    row = ⟨row.id, paymentID, txHash, .pending, none, row.createdAt, none, none⟩ ∧
      db.settlement txHash = none ∧ (db.payment paymentID).isSome ∧
      queries.eval (.insertSettlement paymentID txHash) ambient db =
        Effect.wrote row (.insertSettlement row) [.settlement txHash, .settlementID row.id] := by
  simp only [queries, Stmt.eval] at h ⊢
  repeat' split at h
  all_goals first | cases h; done | skip
  next hrow hid hpayment =>
  obtain rfl := Except.ok.inj h
  refine ⟨rfl, by simpa using hrow, Option.isSome_iff_ne_none.mpr (by simpa using hpayment), ?_⟩
  simp only [if_neg hrow, if_neg hid, if_neg hpayment]

theorem eval_insertSettlement_failed {paymentID : UUID} {txHash : String} {err : Err}
    (h : (queries.eval (.insertSettlement paymentID txHash) ambient db).reply = .error err) :
    queries.eval (.insertSettlement paymentID txHash) ambient db = Effect.failed err := by
  simp only [queries, Stmt.eval] at h ⊢
  split at h
  · next hrow => rw [if_pos hrow, Except.error.inj h]
  · next hrow =>
    split at h
    · next hid => rw [if_neg hrow, if_pos hid, Except.error.inj h]
    · next hid =>
      split at h
      · next hpayment => rw [if_neg hrow, if_neg hid, if_pos hpayment, Except.error.inj h]
      · cases h

/-- A guarded `UPDATE` that returned a row found it in a status of its guard. -/
theorem markSettlement_ok {txHash : String} {guard : SettlementStatus → Bool}
    {settleEntryID : Option UUID} {change : Settlement → Settlement} {write : Write}
    {after : Settlement}
    (h : (markSettlement db txHash guard settleEntryID change write).reply = .ok after) :
    ∃ row, db.settlement txHash = some row ∧ guard row.status = true ∧ after = change row ∧
      markSettlement db txHash guard settleEntryID change write =
        Effect.wrote after write [.settlement txHash] := by
  unfold markSettlement at h ⊢
  split at h
  · next row hrow =>
    split at h
    · cases h
    · next hguard =>
      split at h
      · cases h
      · next hentry =>
        obtain rfl := Except.ok.inj h
        refine ⟨row, hrow, by simpa using hguard, rfl, ?_⟩
        simp only [if_neg hguard, if_neg hentry]
  · cases h

/-- A guarded `UPDATE` that came back empty changed nothing and met no row in a status of its
guard. -/
theorem markSettlement_noRows {txHash : String} {guard : SettlementStatus → Bool}
    {settleEntryID : Option UUID} {change : Settlement → Settlement} {write : Write} {err : Err}
    (h : (markSettlement db txHash guard settleEntryID change write).reply = .error err)
    (hnoRows : err.is .errNoRows = true) :
    (∀ row, db.settlement txHash = some row → guard row.status = false) ∧
      markSettlement db txHash guard settleEntryID change write = Effect.failed err := by
  unfold markSettlement at h ⊢
  split at h
  · next row hrow =>
    split at h
    · next hguard =>
      obtain rfl := Except.error.inj h
      refine ⟨fun row' hrow' ↦ ?_, by simp only [if_pos hguard]⟩
      obtain rfl := Option.some.inj (hrow.symm.trans hrow')
      simpa using hguard
    · split at h
      · have herr : Err.foreignKey "settlements" "settlements_settle_entry_id_fkey" = err := by
          simpa only [Effect.failed, Except.error.injEq] using h
        rw [← herr, Err.is, Err.foreignKey_cause] at hnoRows
        simp at hnoRows
      · cases h
  · next hnone =>
    obtain rfl := Except.error.inj h
    refine ⟨fun row hrow ↦ ?_, rfl⟩
    rw [hnone] at hrow
    cases hrow

theorem eval_insertOutboxEvent {row : OutboxRow}
    (h : (queries.eval (.insertOutboxEvent row) ambient db).reply = .ok ()) :
    queries.eval (.insertOutboxEvent row) ambient db =
      Effect.wrote () (.insertOutboxEvent row) [.outboxID row.id] := by
  simp only [queries, Stmt.eval] at h ⊢
  split at h
  · cases h
  · next hid => rw [if_neg hid]

theorem eval_insertAuditEntry {row : AuditRow}
    (h : (queries.eval (.insertAuditEntry row) ambient db).reply = .ok ()) :
    queries.eval (.insertAuditEntry row) ambient db =
      Effect.wrote () (.insertAuditEntry row) [.auditSeq row.seq, .auditHash row.entryHash] := by
  simp only [queries, Stmt.eval] at h ⊢
  split at h
  · cases h
  · next hseq =>
    split at h
    · cases h
    · next hhash => rw [if_neg hseq, if_neg hhash]

end Inversion

/-- A body run in a transaction, or a part of one. -/
abbrev DbTx (α : Type) : Type := Tx Reply Err α

/-- Go on with the value of a reply, or leave the body with its error in context. -/
def orFail {α : Type} (reply : Except Err α) (context : Err → Err) : DbTx α :=
  Tx.ofExcept (reply.mapError context)

theorem wp_orFail {α : Type} {allowed : Stmt → Ambient → Db → Prop}
    {Rely : List Lock → Db → Db → Prop} {reply : Except Err α} {context : Err → Err}
    {post : α → List Write → List Lock → Db → Prop} {writes : List Write} {locks : List Lock}
    {db : Db} :
    wp queries allowed Rely (orFail reply context) (OnSuccess post) writes locks db ↔
      ∀ value, reply = .ok value → post value writes locks db := by
  rw [orFail, wp_success_ofExcept]
  exact forall_congr' fun value ↦ imp_congr mapError_eq_ok Iff.rfl

end PaymentRail
