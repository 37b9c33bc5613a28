import PaymentRail.Codec.Identifier
import PaymentRail.Table.Keyed
import Mathlib.Algebra.BigOperators.Group.List.Basic

/-!
# The tables of the payment rail

The rows of the ledger, payment, settlement, outbox and audit tables (`db/migrations`) and the
writes that the queries of `internal/db` make to them.  A row has the columns some modelled function
uses: the time stamps of accounts, journal entries and updates and the serial number of a line are
left out.  Columns with a `CHECK` on a list of words are enumerations.

No balance is stored.  The balance of an account is the sum over its entry lines, taken here as an
exact integer; the range of the `bigint` that a query returns is the concern of `Db.Queries`.
-/

namespace PaymentRail

/-- Nanoseconds since the epoch. -/
abbrev Time := ℤ

/-- The side of the ledger a line posts to.  The code's type is a string, of which the column
accepts only the two words. -/
inductive Direction where
  | debit
  | credit
  | other (text : String)
  deriving DecidableEq

/-- A row of `accounts`; `(name, asset)` is unique. -/
structure Account where
  id : UUID
  name : String
  kind : String
  asset : String
  status : String
  deriving DecidableEq

/-- A row of `journal_entries`; `(kind, external_ref)` is unique. -/
structure JournalEntry where
  id : UUID
  kind : String
  externalRef : String
  asset : String
  deriving DecidableEq

/-- A row of `entry_lines`. -/
structure EntryLine where
  entryID : UUID
  accountID : UUID
  direction : Direction
  amount : Int64
  deriving DecidableEq

inductive PaymentStatus where
  | completed
  | canceled
  deriving DecidableEq

/-- A row of `payments`. -/
structure Payment where
  id : UUID
  status : PaymentStatus
  asset : String
  amount : Int64
  sourceAccountID : UUID
  destAccountID : UUID
  journalEntryID : UUID
  reversalEntryID : Option UUID
  createdAt : Time
  deriving DecidableEq

inductive SettlementStatus where
  | pending
  | settled
  | reorged
  | finalized
  deriving DecidableEq

/-- A row of `settlements`; `tx_hash` is unique.  The anchor columns are null until the transaction
settles. -/
structure Settlement where
  id : UUID
  paymentID : UUID
  txHash : String
  status : SettlementStatus
  settleEntryID : Option UUID
  createdAt : Time
  settledBlockHash : Option String
  settledBlockNumber : Option Int64
  deriving DecidableEq

/-- The body of a `payment.*` event. -/
structure PaymentEvent where
  id : UUID
  asset : String
  amount : Int64
  source : UUID
  dest : UUID
  status : PaymentStatus
  deriving DecidableEq

/-- The body of a `settlement.*` event.  An empty asset and a zero amount are omitted from its JSON
form, which is how `finalize` leaves them out. -/
structure SettlementEvent where
  paymentID : UUID
  txHash : String
  asset : String
  amount : Int64
  deriving DecidableEq

inductive EventData where
  | payment (event : PaymentEvent)
  | settlement (event : SettlementEvent)
  deriving DecidableEq

/-- The envelope written to the payload column of the outbox. -/
structure Envelope where
  id : String
  type : String
  aggregateType : String
  aggregateID : String
  occurredAt : Time
  schemaVersion : ℕ
  data : EventData
  deriving DecidableEq

/-- A row of `outbox`.  The payload is kept as the decoded JSON value, as `JSONB` does. -/
structure OutboxRow where
  id : UUID
  eventType : String
  aggregateID : String
  payload : Envelope
  deriving DecidableEq

/-- A row of `audit_log`; `occurredAt` has the microsecond precision of the column. -/
structure AuditRow where
  seq : Int64
  prevHash : List UInt8
  entryHash : List UInt8
  actor : String
  action : String
  aggregateType : String
  aggregateID : String
  occurredAt : ℤ
  payload : List UInt8
  deriving DecidableEq

structure Db where
  accounts : List Account
  journalEntries : List JournalEntry
  entryLines : List EntryLine
  payments : List Payment
  settlements : List Settlement
  outbox : List OutboxRow
  auditLog : List AuditRow
  deriving DecidableEq

namespace EntryLine

/-- What a line adds to the balance of its account, as in the `CASE` of the balance query. -/
def signed (line : EntryLine) : ℤ :=
  if line.direction = .credit then line.amount.toInt else -line.amount.toInt

end EntryLine

namespace Db

def account (db : Db) (id : UUID) : Option Account := Table.lookup Account.id db.accounts id

def payment (db : Db) (id : UUID) : Option Payment := Table.lookup Payment.id db.payments id

def settlement (db : Db) (txHash : String) : Option Settlement :=
  Table.lookup Settlement.txHash db.settlements txHash

/-- An entry is posted under this `(kind, external_ref)` key. -/
def posted (db : Db) (kind externalRef : String) : Bool :=
  db.journalEntries.any fun entry ↦ entry.kind = kind ∧ entry.externalRef = externalRef

/-- The lines of one account. -/
def linesOf (db : Db) (accountID : UUID) : List EntryLine :=
  db.entryLines.filter fun line ↦ line.accountID = accountID

/-- The exact derived balance of an account. -/
def balance (db : Db) (accountID : UUID) : ℤ := ((db.linesOf accountID).map EntryLine.signed).sum

end Db

namespace Payment

/-- The `SET` clause of `CancelPayment`. -/
def cancel (payment : Payment) (reversalEntryID : Option UUID) : Payment :=
  { payment with status := .canceled, reversalEntryID := reversalEntryID }

/-- What may become of a payment row: it stays as it is or is canceled. -/
def Evolves (payment later : Payment) : Prop :=
  later = payment ∨ ∃ reversalEntryID, later = payment.cancel reversalEntryID

theorem Evolves.refl (payment : Payment) : payment.Evolves payment := .inl rfl

theorem Evolves.trans {first second third : Payment} (h : first.Evolves second)
    (h' : second.Evolves third) : first.Evolves third := by
  rcases h with rfl | ⟨reversal, rfl⟩
  · exact h'
  · rcases h' with rfl | ⟨reversal', rfl⟩
    · exact .inr ⟨reversal, rfl⟩
    · exact .inr ⟨reversal', rfl⟩

end Payment

namespace Settlement

/-- The `SET` clause of `MarkSettlementSettled`. -/
def settle (row : Settlement) (settleEntryID : Option UUID) (blockHash : Option String)
    (blockNumber : Option Int64) : Settlement :=
  { row with
    status := .settled
    settleEntryID := settleEntryID
    settledBlockHash := blockHash
    settledBlockNumber := blockNumber }

/-- The `SET` clause of `MarkSettlementReorged`, which also clears the anchor. -/
def reorg (row : Settlement) : Settlement :=
  { row with status := .reorged, settledBlockHash := none, settledBlockNumber := none }

/-- The `SET` clause of `MarkSettlementFinalized`. -/
def finalize (row : Settlement) : Settlement := { row with status := .finalized }

/-- What may become of a settlement row: its link to the payment stays. -/
def Evolves (row later : Settlement) : Prop :=
  later.id = row.id ∧ later.paymentID = row.paymentID ∧ later.txHash = row.txHash ∧
    later.createdAt = row.createdAt

theorem Evolves.refl (row : Settlement) : row.Evolves row := ⟨rfl, rfl, rfl, rfl⟩

theorem Evolves.trans {first second third : Settlement} (h : first.Evolves second)
    (h' : second.Evolves third) : first.Evolves third :=
  ⟨h'.1.trans h.1, h'.2.1.trans h.2.1, h'.2.2.1.trans h.2.2.1, h'.2.2.2.trans h.2.2.2⟩

end Settlement

/-- A row change made by one of the queries. -/
inductive Write where
  | insertJournalEntry (entry : JournalEntry)
  | insertEntryLine (line : EntryLine)
  | insertPayment (payment : Payment)
  | cancelPayment (id : UUID) (reversalEntryID : Option UUID)
  | insertSettlement (row : Settlement)
  | markSettled (txHash : String) (settleEntryID : Option UUID) (blockHash : Option String)
      (blockNumber : Option Int64)
  | markReorged (txHash : String)
  | markFinalized (txHash : String)
  | insertOutboxEvent (row : OutboxRow)
  | insertAuditEntry (row : AuditRow)
  deriving DecidableEq

namespace Db

/-- Change the settlement row of a transaction. -/
def updateSettlement (db : Db) (txHash : String) (f : Settlement → Settlement) : Db :=
  { db with settlements := Table.modify Settlement.txHash db.settlements txHash f }

/-- The tables after one write. -/
def apply (db : Db) : Write → Db
  | .insertJournalEntry entry => { db with journalEntries := db.journalEntries ++ [entry] }
  | .insertEntryLine line => { db with entryLines := db.entryLines ++ [line] }
  | .insertPayment payment => { db with payments := db.payments ++ [payment] }
  | .cancelPayment id reversalEntryID =>
    { db with payments := Table.modify Payment.id db.payments id (·.cancel reversalEntryID) }
  | .insertSettlement row => { db with settlements := db.settlements ++ [row] }
  | .markSettled txHash settleEntryID blockHash blockNumber =>
    db.updateSettlement txHash (·.settle settleEntryID blockHash blockNumber)
  | .markReorged txHash => db.updateSettlement txHash Settlement.reorg
  | .markFinalized txHash => db.updateSettlement txHash Settlement.finalize
  | .insertOutboxEvent row => { db with outbox := db.outbox ++ [row] }
  | .insertAuditEntry row => { db with auditLog := db.auditLog ++ [row] }

end Db

end PaymentRail
