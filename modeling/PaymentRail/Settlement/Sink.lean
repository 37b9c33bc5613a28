import PaymentRail.Audit.Append
import PaymentRail.Chain.Watcher
import PaymentRail.Ledger.Post

/-!
# Settling payments on chain

`internal/settlement`: `Link` records which transaction settles a payment, and `OnStatus` turns the
statuses of the chain watcher into ledger entries.  A confirmation moves the payment's amount from
its destination to the clearing account of the asset, a reorg moves it back, and finality only
changes the status of the row.

The status guard, the ledger post and the guarded `UPDATE` are three statements that may see three
states of the row.  When the `UPDATE` comes back empty after the post, the body returns without an
error and the post is committed.
-/

namespace PaymentRail.Sink

open Transaction Ledger Chain

def houseAccountName : String := "onchain_settlement"

/-- The body of a settlement event. -/
def settlementEvent (paymentID : UUID) (tx : TxHash) (asset : String) (amount : Int64) :
    EventData :=
  .settlement ⟨paymentID, tx, asset, amount⟩

/-- The outbox event of a settlement transition. -/
def outboxEvent (type : String) (tx : TxHash) (data : EventData) : Outbox.Event := ⟨type, tx, data⟩

/-- The audit entry of a settlement transition. -/
def auditEntry (action : String) (tx : TxHash) (data : EventData) : Audit.Entry :=
  ⟨"system:chainwatcher", action, "settlement", tx, none, data⟩

def settleRef (paymentID : UUID) (blockHash : String) : String :=
  "settle:" ++ paymentID.string ++ ":" ++ blockHash

def reverseRef (paymentID : UUID) (blockHash : String) : String :=
  "reverse:" ++ paymentID.string ++ ":" ++ blockHash

/-- The entry of a confirmation: the destination releases its provisional credit to the house. -/
def settleEntry (paymentID : UUID) (pay : Payment) (house : Account) (blockHash : String) : Entry :=
  .transfer "settlement.settle" (settleRef paymentID blockHash) pay.asset pay.destAccountID house.id
    pay.amount

/-- The entry of a reorg, the mirror of `settleEntry`. -/
def reverseEntry (paymentID : UUID) (pay : Payment) (house : Account) (blockHash : String) :
    Entry :=
  .transfer "settlement.reversal" (reverseRef paymentID blockHash) pay.asset house.id
    pay.destAccountID pay.amount

/-- What `settle` asks `MarkSettlementSettled` to store. -/
def settledParams (st : Status) (je : JournalEntry) : MarkSettlementSettledParams where
  txHash := st.txHash
  settleEntryID := some je.id
  settledBlockHash := some st.blockHash
  settledBlockNumber := some st.blockNumber.toInt64

/-- What follows a guarded `UPDATE`: nothing if it matched no row, the announcement if it did. -/
def afterMark (rt : Audit.Runtime) (context type : String) (tx : TxHash)
    (data : Settlement → EventData) : Except Err Settlement → DbTx Unit
  | .ok row => Audit.announce rt (outboxEvent type tx (data row)) (auditEntry type tx (data row))
  | .error err => if err.is .errNoRows then pure () else Tx.fail (err.wrap (context ++ tx))

def settle (rt : Audit.Runtime) (sett : Settlement) (pay : Payment) (house : Account)
    (st : Status) : DbTx Unit :=
  if sett.status = .settled then pure ()
  else do
    let je ← postWithin (settleEntry sett.paymentID pay house st.blockHash)
    afterMark rt "settlement: mark settled " "settlement.confirmed" st.txHash
      (fun _ ↦ settlementEvent sett.paymentID st.txHash pay.asset pay.amount)
      (← Tx.stmt (.markSettlementSettled (settledParams st je)))

def reverse (rt : Audit.Runtime) (sett : Settlement) (pay : Payment) (house : Account)
    (st : Status) : DbTx Unit :=
  if sett.status ≠ .settled then pure ()
  else do
    let _ ← postWithin (reverseEntry sett.paymentID pay house st.blockHash)
    afterMark rt "settlement: mark reorged " "settlement.reorged" st.txHash
      (fun _ ↦ settlementEvent sett.paymentID st.txHash pay.asset pay.amount)
      (← Tx.stmt (.markSettlementReorged st.txHash))

def finalize (rt : Audit.Runtime) (st : Status) : DbTx Unit := do
  afterMark rt "settlement: mark finalized " "settlement.finalized" st.txHash
    (fun row ↦ settlementEvent row.paymentID st.txHash "" 0)
    (← Tx.stmt (.markSettlementFinalized st.txHash))

/-- The part of `OnStatus` that resolves the payment and the clearing account of a tracked row. -/
def resolve (rt : Audit.Runtime) (st : Status) (sett : Settlement) : DbTx Unit := do
  let pay ← orFail (← Tx.stmt (.getPayment sett.paymentID))
    (·.wrap ("settlement: get payment " ++ sett.paymentID.string))
  let house ← orFail (← Tx.stmt (.getAccountByNameAndAsset houseAccountName pay.asset))
    (·.wrap ("settlement: resolve " ++ houseAccountName ++ " clearing account for " ++ pay.asset))
  if st.phase = .confirmed then settle rt sett pay house st else reverse rt sett pay house st

/-- What `OnStatus` does with the lookup of the row: an untracked hash is not an error. -/
def dispatch (rt : Audit.Runtime) (st : Status) : Except Err Settlement → DbTx Unit
  | .ok sett => resolve rt st sett
  | .error err =>
    if err.is .errNoRows then pure () else Tx.fail (err.wrap ("settlement: lookup tx " ++ st.txHash))

def onStatus (rt : Audit.Runtime) (st : Status) : DbTx Unit :=
  match st.phase with
  | .confirmed | .reorged => do dispatch rt st (← Tx.stmt (.getSettlementByTxHash st.txHash))
  | .finalized => finalize rt st
  | .pending | .mined => pure ()

/-- `Link` after its insert: a hash that is linked already may only be linked to the same payment.
The two statements run outside a transaction; as nothing follows an insert that took effect, running
them in one has the same effects. -/
def linkOutcome (paymentID : UUID) (tx : TxHash) : Except Err Settlement → DbTx Unit
  | .ok _ => pure ()
  | .error err =>
    if ¬err.is .errNoRows then
      Tx.fail (err.wrap
        ("settlement: link payment " ++ paymentID.string ++ " to tx " ++ tx))
    else do
      let existing ← orFail (← Tx.stmt (.getSettlementByTxHash tx))
        (·.wrap ("settlement: verify existing link for tx " ++ tx))
      if existing.paymentID ≠ paymentID then
        Tx.fail ⟨"settlement: tx " ++ tx ++ " already linked to payment " ++
          existing.paymentID.string ++ ", refusing to relink to " ++ paymentID.string, none⟩
      else pure ()

def link (paymentID : UUID) (tx : TxHash) : DbTx Unit := do
  linkOutcome paymentID tx (← Tx.stmt (.insertSettlement paymentID tx))

end PaymentRail.Sink
