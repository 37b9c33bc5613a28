import PaymentRail.Payments.Idempotency
import PaymentRail.Payments.Service

/-!
# Creating payments over HTTP

The route `POST /v1/payments` of `cmd/api`: the handler that creates a payment and the middleware
that makes it idempotent.  The JSON encodings are library functions, kept as parameters.  A response
is its status and its body; the one header the code sets is the same everywhere.

A request is served in several steps: it claims its key, runs the transaction of the payment, and
then completes or releases the key.  Any number of requests are served at once, with the sweeper of
the keys beside them.
-/

namespace PaymentRail.Api

open Transaction Payments
open Payments.Idempotency (Op OpReply)

/-- A response as the middleware records it. -/
structure Response where
  status : ℤ
  body : List UInt8
  deriving DecidableEq

structure CreateRequest where
  sourceAccountID : UUID
  destAccountID : UUID
  asset : String
  amount : Int64
  deriving DecidableEq

/-- The wire form of a payment. -/
structure PaymentResponse where
  id : UUID
  status : String
  asset : String
  amount : Int64
  sourceAccountID : UUID
  destAccountID : UUID
  journalEntryID : UUID
  reversalEntryID : Option UUID
  createdAt : Time
  deriving DecidableEq

def toPaymentResponse (p : Payment) : PaymentResponse where
  id := p.id
  status := statusText p.status
  asset := p.asset
  amount := p.amount
  sourceAccountID := p.sourceAccountID
  destAccountID := p.destAccountID
  journalEntryID := p.journalEntryID
  reversalEntryID := p.reversalEntryID
  createdAt := p.createdAt

structure ErrorBody where
  code : String
  message : String
  deriving DecidableEq

/-- The library functions the API is built on. -/
structure Runtime extends Audit.Runtime where
  decodeCreateRequest : List UInt8 → Option CreateRequest
  encodePaymentResponse : PaymentResponse → List UInt8
  encodeErrorEnvelope : ErrorBody → List UInt8
  decodeID : List UInt8 → Option UUID

/-- How the transaction of a payment fails: with an error, or with a panic that unwinds the
handler. -/
inductive Failure where
  | error (err : Err)
  | panic

/-- A request as the mux hands it over.  The body is absent if the connection breaks while it is
read. -/
structure Request where
  idempotencyKey : String
  method : String
  path : String
  body : Option (List UInt8)

/-- What the server does for a client, and one tick of the sweeper. -/
inductive Job where
  | create (r : Request)
  | sweep (ttl : Time)

/-- The part of a job that is still to be done. -/
abbrev Serving (α : Type) := Program (Demand.Answer CreateInput Failure Payment OpReply) α

section Handlers

variable (rt : Runtime)

def writeError (status : ℤ) (code message : String) : Response :=
  ⟨status, rt.encodeErrorEnvelope ⟨code, message⟩⟩

def writeServiceError (err : Err) : Response :=
  if err.is .errInvalidEntry then
    writeError rt 400 "invalid_request" "the payment request is invalid"
  else if err.is .errInsufficientFunds then
    writeError rt 422 "insufficient_funds" "insufficient funds for this payment"
  else if err.is .errDuplicateEntry then
    writeError rt 409 "duplicate_payment" "a conflicting payment already exists"
  else if err.is .errPaymentNotFound then writeError rt 404 "not_found" "payment not found"
  else if err.is .errPaymentNotCancelable then
    writeError rt 409 "not_cancelable" "payment cannot be canceled"
  -- an unbalanced entry is logged in its own words and answered like any other error
  else writeError rt 500 "internal" "internal server error"

/-- `unicode.IsSpace`. -/
def isSpace (c : Char) : Bool :=
  c.toNat ∈ [0x09, 0x0a, 0x0b, 0x0c, 0x0d, 0x20, 0x85, 0xa0, 0x1680, 0x2028, 0x2029, 0x202f, 0x205f,
    0x3000] || (0x2000 ≤ c.toNat && c.toNat ≤ 0x200a)

/-- The checks of `handleCreate` on a decoded request, in their order. -/
def validate (req : CreateRequest) : Except String Unit :=
  if req.sourceAccountID = 0 ∨ req.destAccountID = 0 then
    .error "source_account_id and dest_account_id are required"
  else if req.asset.toList.all isSpace then .error "asset is required"
  else if req.amount ≤ 0 then .error "amount must be positive"
  else .ok ()

/-- No response means that the handler panicked. -/
def handleCreate (body : List UInt8) : Serving (Option Response) :=
  match rt.decodeCreateRequest body with
  | none => pure (some (writeError rt 400 "invalid_request" "request body is not valid JSON"))
  | some req =>
    match validate req with
    | .error message => pure (some (writeError rt 400 "invalid_request" message))
    | .ok () => do
      match ← transact ⟨req.sourceAccountID, req.destAccountID, req.asset, req.amount⟩ with
      | .ok payment => pure (some ⟨201, rt.encodePaymentResponse (toPaymentResponse payment)⟩)
      | .error (.error err) => pure (some (writeServiceError rt err))
      | .error .panic => pure none

end Handlers

section Middleware

variable (rt : Runtime)

def maxRequestBodyBytes : ℕ := 64 * 2 ^ 10

/-- Method, path and body, one under the other. -/
def canonicalRequest (r : Request) (body : List UInt8) : List UInt8 :=
  (r.method ++ "\n" ++ r.path ++ "\n").toUTF8.data.toList ++ body

def paymentIDFrom (body : List UInt8) : UUID := (rt.decodeID body).getD 0

def replay (existing : Idempotency.IdempotencyKey) (hash : List UInt8) : Response :=
  if existing.status = .inFlight then
    writeError rt 409 "request_in_flight" "a request with this idempotency key is still in progress"
  else if existing.requestHash ≠ hash then
    writeError rt 422 "idempotency_key_reused"
      "idempotency key was already used with a different request"
  else ⟨(existing.responseStatus.getD 0).toInt, existing.responseBody⟩

def Response.success (response : Response) : Prop := 200 ≤ response.status ∧ response.status < 300

instance (response : Response) : Decidable response.success :=
  inferInstanceAs (Decidable (_ ∧ _))

/-- What becomes of the key once the handler is done: the response is cached or the key released.
An error here is only logged. -/
def conclude (key : String) (recorded : Option Response) : Serving (Except Err Unit) :=
  match recorded with
  -- the deferred release of a handler that panics
  | none => Idempotency.delete key
  | some response =>
    if response.success then
      Idempotency.complete key response.status response.body (paymentIDFrom rt response.body)
    else Idempotency.delete key

/-- Claim the key and run the handler, or answer for the request that claimed it before. -/
def runOnce (next : List UInt8 → Serving (Option Response)) (key : String) (hash body : List UInt8) :
    Serving (Option Response) := do
  match ← Idempotency.begin key hash with
  | .error _ => pure (some (writeError rt 500 "internal" "internal server error"))
  | .ok res =>
    if res.fresh then do
      let recorded ← next body
      let _ ← conclude rt key recorded
      pure recorded
    else pure (some (replay rt res.existing hash))

def withIdempotency (next : List UInt8 → Serving (Option Response)) (r : Request) :
    Serving (Option Response) :=
  if r.idempotencyKey = "" then
    pure (some (writeError rt 400 "missing_idempotency_key" "Idempotency-Key header is required"))
  else
    match r.body with
    | none => pure (some (writeError rt 400 "invalid_request" "could not read request body"))
    | some body =>
      if maxRequestBodyBytes < body.length then
        pure (some (writeError rt 413 "request_too_large"
          "request body exceeds the maximum allowed size"))
      else runOnce rt next r.idempotencyKey (rt.sha256 (canonicalRequest r body)) body

end Middleware

/-- The transaction of a payment.  Its own errors are not panics. -/
def createBody (rt : Runtime) (input : CreateInput) : Program Reply (Except Failure Payment) :=
  Program.bind (create rt.toRuntime input) fun result ↦ .done (result.mapError .error)

def main (rt : Runtime) : Job → Serving (Option Response)
  | .create r => withIdempotency rt (handleCreate rt) r
  | .sweep ttl => do
    let _ ← Idempotency.sweepExpired ttl
    pure none

/-- The API server with its database. -/
def server (rt : Runtime) :
    System Reply Ambient Db Write Lock CreateInput Failure Payment OpReply Idempotency.Choice
      Idempotency.Keys Job (Option Response) where
  engine := queries
  body := createBody rt
  eval := Idempotency.eval
  main := main rt

end PaymentRail.Api
