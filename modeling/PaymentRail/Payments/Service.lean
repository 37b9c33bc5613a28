import PaymentRail.Audit.Append
import PaymentRail.Ledger.Post

/-!
# Creating and canceling payments

The two transactions of `internal/payments` that move money: `Create` posts an entry and inserts the
payment it effects, `Cancel` posts the mirror entry and flips the payment to canceled.  Each ends
with one outbox event and one audit row.
-/

namespace PaymentRail.Payments

open Transaction Ledger

structure CreateInput where
  sourceAccountID : UUID
  destAccountID : UUID
  asset : String
  amount : Int64
  deriving DecidableEq

def errPaymentNotFound : Err := ⟨"payments: payment not found", some .errPaymentNotFound⟩

def errPaymentNotCancelable : Err :=
  ⟨"payments: payment not cancelable", some .errPaymentNotCancelable⟩

/-- The status column of a payment. -/
def statusText : PaymentStatus → String
  | .completed => "completed"
  | .canceled => "canceled"

/-- The body of both payment events. -/
def paymentEvent (payment : Payment) : EventData :=
  .payment
    { id := payment.id
      asset := payment.asset
      amount := payment.amount
      source := payment.sourceAccountID
      dest := payment.destAccountID
      status := payment.status }

/-- The outbox event of a payment transition. -/
def outboxEvent (type : String) (pid : UUID) (payment : Payment) : Outbox.Event :=
  ⟨type, pid.string, paymentEvent payment⟩

/-- The audit entry of a payment transition. -/
def auditEntry (action : String) (pid : UUID) (payment : Payment) : Audit.Entry :=
  ⟨"system:payments", action, "payment", pid.string, none, paymentEvent payment⟩

/-- The entry that effects a payment. -/
def paymentEntry (pid : UUID) (input : CreateInput) : Entry :=
  .transfer "payment" pid.string input.asset input.sourceAccountID input.destAccountID input.amount

/-- The entry that undoes a payment. -/
def reversalEntry (pid : UUID) (payment : Payment) : Entry :=
  .transfer "payment.reversal" (pid.string ++ ":reversal") payment.asset payment.destAccountID
    payment.sourceAccountID payment.amount

def create (rt : Audit.Runtime) (input : CreateInput) : DbTx Payment := do
  let pid ← Tx.stmt .newUUID
  let je ← postWithin (paymentEntry pid input)
  let payment ← orFail
    (← Tx.stmt (.insertPayment
      { id := pid
        status := .completed
        asset := input.asset
        amount := input.amount
        sourceAccountID := input.sourceAccountID
        destAccountID := input.destAccountID
        journalEntryID := je.id }))
    id
  Audit.announce rt (outboxEvent "payment.created" pid payment)
    (auditEntry "payment.created" pid payment)
  pure payment

/-- The error of `Cancel` for a payment that could not be read. -/
def readError (pid : UUID) (err : Err) : Err :=
  if err.is .errNoRows then errPaymentNotFound.wrap ("payments: cancel " ++ pid.string)
  else err.wrap ("payments: cancel " ++ pid.string)

/-- The error of `Cancel` for a payment that could not be flipped. -/
def flipError (pid : UUID) (err : Err) : Err :=
  if err.is .errNoRows then
    errPaymentNotCancelable.wrap ("payments: cancel " ++ pid.string ++ " lost race")
  else err.wrap ("payments: cancel " ++ pid.string)

/-- The check of `Cancel` on the status it read. -/
def checkCancelable (pid : UUID) (payment : Payment) : Except Err Unit :=
  if payment.status ≠ .completed then
    .error (errPaymentNotCancelable.wrap
      ("payments: cancel " ++ pid.string ++ " is " ++ statusText payment.status))
  else .ok ()

def cancel (rt : Audit.Runtime) (pid : UUID) : DbTx Payment := do
  let payment ← orFail (← Tx.stmt (.getPayment pid)) (readError pid)
  Tx.ofExcept (checkCancelable pid payment)
  let je ← postWithin (reversalEntry pid payment)
  let canceled ← orFail (← Tx.stmt (.cancelPayment pid (some je.id))) (flipError pid)
  Audit.announce rt (outboxEvent "payment.canceled" pid canceled)
    (auditEntry "payment.canceled" pid canceled)
  pure canceled

end PaymentRail.Payments
