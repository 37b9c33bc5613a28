import PaymentRail.Codec.BigEndian
import PaymentRail.Transaction.Shared
import PaymentRail.Webhook.Deliveries

/-!
# The webhook service

`internal/webhook` and `cmd/webhookd`: the consumer that fans the events of the topic out to delivery
rows, and the worker that claims due rows and sends them.  `paymentrailctl replay-webhook` is a third
kind of process on the same tables.  Any number of each run at once.

The consume loop has no bound in the code; here a process runs it for some number of rounds.  The log
lines of the service are left out.
-/

namespace PaymentRail.Webhook

open Transaction Outbox

/-- The library functions under the signature of a delivery: HMAC-SHA256, and the text that a `JSONB`
value is read as. -/
structure Platform where
  hmacSHA256 : (secret message : List UInt8) → List UInt8
  jsonText : Json → List UInt8

abbrev Running (α : Type) := Program Reply α

/-- Make a call. -/
def call (stmt : Stmt) : Running (Reply stmt) := .call stmt .done

/-! ### The delivery worker -/

def maxAttempts : Int32 := 8

def backoffBase : ℤ := 2 * 10 ^ 9

def backoffCap : ℤ := 3600 * 10 ^ 9

def leaseSeconds : ℕ := 60

def claimBatch : ℕ := 100

/-- The loop of `backoff`: double until the cap is reached. -/
def double : ℕ → ℤ → ℤ
  | 0, d => d
  | rounds + 1, d => if backoffCap ≤ 2 * d then backoffCap else double rounds (2 * d)

/-- The delay before the next attempt, in nanoseconds. -/
def backoff (attempts : Int32) : ℤ := double (attempts.toInt - 1).toNat backoffBase

def utf8 (text : String) : List UInt8 := text.toList.flatMap String.utf8EncodeChar

def sign (p : Platform) (secret : String) (t : ℤ) (body : List UInt8) : String :=
  let mac := p.hmacSHA256 (utf8 secret) (utf8 (toString t ++ ".") ++ body)
  "t=" ++ toString t ++ ",v1=" ++ String.ofList (Hex.render (2 * mac.length) (BigEndian.read mac))

inductive Outcome where
  | succeeded
  | retry
  | deadLetter
  deriving DecidableEq

/-- A send has failed: with an error, or with a status other than 2xx. -/
def failed : Except String SendResult → Bool
  | .error _ => true
  | .ok res => !(200 ≤ res.statusCode && res.statusCode < 300)

def classify (newAttempts : Int32) (res : Except String SendResult) : Outcome :=
  if failed res then if newAttempts ≥ maxAttempts then .deadLetter else .retry else .succeeded

/-- A status code exists only when the request completed. -/
def statusCode : Except String SendResult → Option Int32
  | .error _ => none
  | .ok res => some (Int32.ofInt res.statusCode)

def deliveryError : Except String SendResult → Option String
  | .error text => some text
  | .ok res => some ("status " ++ toString res.statusCode)

/-- The switch of `deliver`: record the outcome of a send. -/
def record (row : ClaimedRow) (newAttempts : Int32) (res : Except String SendResult) :
    Running (Except Err Unit) :=
  match classify newAttempts res with
  | .succeeded => call (.markDeliverySucceeded ⟨row.id, newAttempts, statusCode res⟩)
  | .deadLetter =>
    call (.markDeliveryDeadLettered ⟨row.id, newAttempts, statusCode res, deliveryError res⟩)
  | .retry => do
    let now ← call .now
    call (.markDeliveryRetry
      ⟨row.id, newAttempts, now + backoff newAttempts, statusCode res, deliveryError res⟩)

/-- Send one claimed row and record the outcome. -/
def deliver (p : Platform) (row : ClaimedRow) : Running (Except Err Unit) := do
  let newAttempts := row.attempts + 1
  let t ← call .now
  let sig := sign p row.signingSecret (t / 10 ^ 9) (p.jsonText row.payload)
  let res ← call (.send row sig newAttempts)
  record row newAttempts res

/-- The loop of `drainOnce`: a row that cannot be marked ends it. -/
def deliverAll (p : Platform) : List ClaimedRow → Running (Except Err Unit)
  | [] => pure (.ok ())
  | row :: rest => do
    match ← deliver p row with
    | .error err => pure (.error err)
    | .ok () => deliverAll p rest

def drainOnce (p : Platform) : Running (Except Err Unit) := do
  match ← call (.claimDueDeliveries leaseSeconds claimBatch) with
  | .error err => pure (.error err)
  | .ok rows => deliverAll p rows

/-! ### The consumer -/

def errPoisonMessage : Err := ⟨"webhook: poison message", some .errPoisonMessage⟩

/-- The insert of `Handle` and its error. -/
def fanOut (eventID : UUID) (type : String) (value : Json) : Running (Except Err Unit) := do
  match ← call (.fanOutDelivery ⟨eventID, type, value⟩) with
  | .error err => pure (.error (err.wrap ("webhook: fan out " ++ eventID.string)))
  | .ok _ => pure (.ok ())

/-- `Handle`.  The text of a poison message is only logged. -/
def handle (value : Json) : Running (Except Err Unit) :=
  match parseEnvelope value with
  | .error text => pure (.error ⟨errPoisonMessage.text ++ ": " ++ text, errPoisonMessage.cause⟩)
  | .ok env =>
    match UUID.parse env.id with
    | .error _ =>
      pure (.error ⟨errPoisonMessage.text ++ ": bad event id " ++ Ledger.quote env.id,
        errPoisonMessage.cause⟩)
    | .ok eventID => fanOut eventID env.type value

/-- The message may be skipped: it was handled, or it never can be. -/
def skippable : Except Err Unit → Bool
  | .error err => err.is .errPoisonMessage
  | .ok () => true

/-- `kafkaConsumer.run`, for some number of rounds. -/
def consume (reader : ℕ) : ℕ → Running (Except Err Unit)
  | 0 => pure (.ok ())
  | rounds + 1 => do
    match ← call (.fetchMessage reader) with
    | .error err => pure (.error err)
    | .ok m => do
      let herr ← handle m.value
      if skippable herr then do
        match ← call (.commitMessages reader m) with
        | .error err =>
          pure (.error (err.wrap ("webhookd: commit offset " ++ toString m.offset)))
        | .ok () => consume reader rounds
      else
        pure (herr.mapError (·.wrap ("webhookd: fan-out failed at offset " ++ toString m.offset ++
          ", redelivering")))

/-! ### The calls that each part makes -/

/-- The calls of the consumer. -/
def Stmt.Consumes : Stmt → Prop
  | .joinGroup | .fetchMessage _ | .commitMessages _ _ | .fanOutDelivery _ => True
  | _ => False

/-- The calls of the worker. -/
def Stmt.Delivers : Stmt → Prop
  | .claimDueDeliveries _ _ | .now | .send _ _ _ => True
  | .markDeliverySucceeded _ | .markDeliveryRetry _ | .markDeliveryDeadLettered _ => True
  | _ => False

theorem issues_call {P : Stmt → Prop} {stmt : Stmt} (h : P stmt) : (call stmt).Issues P :=
  ⟨h, fun _ ↦ trivial⟩

theorem issues_handle (value : Json) : (handle value).Issues Stmt.Consumes := by
  rw [handle]
  split
  · trivial
  · split
    · trivial
    · refine .bind (issues_call trivial) fun reply ↦ ?_
      split <;> trivial

theorem issues_consume (reader rounds : ℕ) : (consume reader rounds).Issues Stmt.Consumes := by
  induction rounds with
  | zero => trivial
  | succ rounds ih =>
    refine .bind (issues_call trivial) fun reply ↦ ?_
    split
    · trivial
    · refine .bind (issues_handle _) fun herr ↦ ?_
      split
      · refine .bind (issues_call trivial) fun reply ↦ ?_
        split
        · trivial
        · exact ih
      · trivial

theorem issues_record (row : ClaimedRow) (attempts : Int32) (res : Except String SendResult) :
    (record row attempts res).Issues Stmt.Delivers := by
  rw [record]
  split
  · exact issues_call trivial
  · exact issues_call trivial
  · exact .bind (issues_call trivial) fun _ ↦ issues_call trivial

theorem issues_deliverAll (p : Platform) (rows : List ClaimedRow) :
    (deliverAll p rows).Issues Stmt.Delivers := by
  induction rows with
  | nil => trivial
  | cons row rest ih =>
    have hdeliver : (deliver p row).Issues Stmt.Delivers :=
      .bind (issues_call trivial) fun _ ↦ .bind (issues_call trivial) fun _ ↦ issues_record _ _ _
    refine .bind hdeliver fun result ↦ ?_
    cases result with
    | error err => trivial
    | ok => exact ih

theorem issues_drainOnce (p : Platform) : (drainOnce p).Issues Stmt.Delivers := by
  refine .bind (issues_call trivial) fun reply ↦ ?_
  cases reply with
  | error err => trivial
  | ok rows => exact issues_deliverAll p rows

/-! ### The processes -/

inductive Job where
  | consumer (rounds : ℕ)
  | worker
  | replayWebhook (subscriptionID : UUID)

def main (p : Platform) : Job → Running (Except Err Unit)
  | .consumer rounds => do
    let reader ← call .joinGroup
    consume reader rounds
  | .worker => drainOnce p
  | .replayWebhook subscriptionID => do
    let requeued ← call (.replayDeadLettered subscriptionID)
    pure ((requeued.map fun _ ↦ ()).mapError (·.wrap "replay-webhook: replay"))

theorem issues_consumer (p : Platform) (rounds : ℕ) :
    (main p (.consumer rounds)).Issues Stmt.Consumes :=
  .bind (issues_call trivial) fun reader ↦ issues_consume reader rounds

theorem issues_replayWebhook (p : Platform) (subscriptionID : UUID) :
    (main p (.replayWebhook subscriptionID)).Issues
      (fun stmt ↦ stmt = .replayDeadLettered subscriptionID) :=
  .bind (issues_call rfl) fun _ ↦ trivial

/-- What happens elsewhere: a transaction commits an event, the relay publishes one, as often as it
likes, and the subscriptions are changed. -/
inductive Happening where
  | emit (event : Outbox.Event) (id : UUID) (now : Time)
  | publish (id : UUID) (partition : ℕ)
  | subscribe (subscriptions : List Subscription)

/-- The message of a row of the outbox. -/
def message (row : OutboxRow) : Option Json := marshal row.payload

/-- A time that cannot be written fails `Emit`.  A subscription that is referred to stays. -/
def occur : Happening → State → State
  | .emit event id now, s =>
    if id ∉ s.emitted.map OutboxRow.id ∧ (message (event.row id now)).isSome then
      { s with emitted := s.emitted ++ [event.row id now] }
    else s
  | .publish id partition, s =>
    match (Table.lookup OutboxRow.id s.emitted id).bind message with
    | none => s
    | some value =>
      { s with topic := Function.update s.topic partition (s.topic partition ++ [value]) }
  | .subscribe subscriptions, s =>
    if (subscriptions.map Subscription.id).Nodup ∧
        ∀ row ∈ s.deliveries, row.subscriptionID ∈ subscriptions.map Subscription.id then
      { s with subscriptions := subscriptions }
    else s

theorem deliveries_occur (event : Happening) (s : State) :
    (occur event s).deliveries = s.deliveries := by
  cases event <;> simp only [occur] <;> split <;> rfl

def webhookd (p : Platform) : Sharing Reply Choice State Happening Job (Except Err Unit) where
  main := main p
  eval := eval
  occur := occur

abbrev Log := List (Record Reply Choice Happening Job)

abbrev View := Scene Reply Choice State Happening Job

/-! ### A small run -/

def mutePlatform : Platform := ⟨fun _ _ ↦ [], fun _ ↦ []⟩

/-- A call at some second with an endpoint that answers with a status. -/
def callAt (second : ℤ) (status : ℤ) : Choice :=
  ⟨second * 10 ^ 9, .received, fun _ ↦ false, fun _ ↦ 0, fun id ↦ id + 100, 0, .ok ⟨status⟩⟩

/-- One subscription, and one event that is emitted, published and fanned out. -/
def opening : List (Turn Choice Happening Job) :=
  [.occur (.subscribe [⟨1, "https://example.com", ["payment.completed"], "secret", true⟩]),
    .occur (.emit ⟨"payment.completed", "7", .payment ⟨7, "USDC", 5, 1, 2, .completed⟩⟩ 7 0),
    .occur (.publish 7 0), .spawn 0 (.consumer 1)] ++ List.replicate 4 (.call 0 (callAt 0 200))

/-- A worker starts and makes some number of calls. -/
def working (pid calls : ℕ) (second status : ℤ) : List (Turn Choice Happening Job) :=
  .spawn pid .worker :: List.replicate calls (.call pid (callAt second status))

/-- After the opening, seven workers fail one after the other. -/
def sevenFailures : List (Turn Choice Happening Job) :=
  opening ++ (List.range 7).flatMap fun n ↦ working (n + 1) 5 (n * 4000) 500

end PaymentRail.Webhook
