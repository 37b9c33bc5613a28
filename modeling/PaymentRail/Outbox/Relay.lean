import PaymentRail.Outbox.Message
import PaymentRail.Table.Keyset
import PaymentRail.Table.Lanes
import PaymentRail.Transaction.Ack
import PaymentRail.Transaction.Shared

/-!
# The outbox relay

`internal/outbox/relay.go` with the queries of `db/query/outbox.sql`.  A tick claims the oldest unsent
rows, publishes them and marks them as sent, in one transaction: until its commit the marks are those
of the transaction only, and a crash or an error drops them.

A publication delivers for each key some first messages of the batch, in any interleaving, and is
acknowledged only if all of them were delivered.  The other transactions of the service commit rows
with the time at which they began.  The ticker is left out: a relay takes some number of ticks.
-/

namespace PaymentRail.Outbox.Relay

open Table Transaction

/-- A row of `outbox`. -/
structure Stored extends OutboxRow where
  createdAt : Time
  sentAt : Option Time

/-- A `Message`: the aggregate is the key, and the payload is published as it is. -/
structure Message where
  key : String
  value : Json

def Stored.message (row : Stored) : Message := ⟨row.aggregateID, Envelope.json row.payload⟩

/-- A row after a transaction that has marked some rows as sent. -/
def Stored.settle (marks : List UUID) (now : Time) (row : Stored) : Stored :=
  if marks.contains row.id then { row with sentAt := some now } else row

/-- The table, the topic, and the rows that the open transaction of the relay has marked. -/
structure State where
  outbox : List Stored
  topic : List Message
  marks : Option (List UUID)

def State.initial : State := ⟨[], [], none⟩

inductive Stmt where
  | begin
  | claimUnsentOutbox (limit : ℕ)
  | publish (msgs : List Message)
  | markOutboxSent (ids : List UUID)
  | commit
  | rollback

abbrev Reply : Stmt → Type
  | .begin | .publish _ | .commit | .rollback => Except String Unit
  | .claimUnsentOutbox _ => Except String (List Stored)
  | .markOutboxSent _ => Except String ℕ

/-- What the environment has to say about a call: the time, what becomes of the call, the order of rows
of one instant, and the keys of the messages that a publication delivers. -/
structure Choice where
  now : Time
  ack : Ack String
  rank : UUID → ℕ
  picks : List String

namespace State

variable (s : State)

/-- The rows that a claim selects. -/
def oldest (rank : UUID → ℕ) (limit : ℕ) : List Stored :=
  (ordered Stored.createdAt (ordered (fun row ↦ rank row.id)
    (s.outbox.filter fun row ↦ row.sentAt.isNone && !(s.marks.getD []).contains row.id))).take limit

/-- The marks of the transaction take effect. -/
def settle (now : Time) : State :=
  { s with outbox := s.outbox.map (Stored.settle (s.marks.getD []) now), marks := none }

end State

def errIncomplete : String := "kafka: write errors"

/-- The effect of a call.  A transaction that the relay has left open is rolled back before the next
one begins. -/
def eval : (stmt : Stmt) → Choice → State → Reply stmt × State
  | .begin, choice, s =>
    match choice.ack.check with
    | .error text => (.error text, { s with marks := none })
    | .ok () => (.ok (), { s with marks := some [] })
  | .claimUnsentOutbox limit, choice, s =>
    (choice.ack.check.map fun _ ↦ s.oldest choice.rank limit, s)
  | .publish msgs, choice, s =>
    let delivered := taken Message.key choice.picks msgs
    (if delivered.length = msgs.length then choice.ack.check else .error errIncomplete,
      { s with topic := s.topic ++ delivered })
  | .markOutboxSent ids, choice, s =>
    match choice.ack.check with
    | .error text => (.error text, s)
    | .ok () => (.ok ids.length, { s with marks := s.marks.map (· ++ ids) })
  | .commit, choice, s => choice.ack.settle (.ok ()) { s with marks := none } (s.settle choice.now)
  | .rollback, choice, s => (choice.ack.check, { s with marks := none })

/-! ### The programs -/

abbrev Running (α : Type) := Program Reply α

/-- Make a call. -/
def call (stmt : Stmt) : Running (Reply stmt) := .call stmt .done

/-- Claim, publish, mark. -/
def drainBatch (batch : ℕ) : Running (Except String ℕ) := do
  match ← call (.claimUnsentOutbox batch) with
  | .error err => pure (.error err)
  | .ok rows =>
    if rows.isEmpty then pure (.ok 0)
    else do
      match ← call (.publish (rows.map Stored.message)) with
      | .error err => pure (.error err)
      | .ok () => do
        match ← call (.markOutboxSent (rows.map fun row ↦ row.id)) with
        | .error err => pure (.error err)
        | .ok _ => pure (.ok rows.length)

/-- `SQLStore.ExecTx`. -/
def execTx (fn : Running (Except String ℕ)) : Running (Except String Unit) := do
  match ← call .begin with
  | .error err => pure (.error ("ledger: begin tx: " ++ err))
  | .ok () => do
    match ← fn with
    | .error err => do
      match ← call .rollback with
      | .error rbErr => pure (.error (err ++ "\n" ++ "ledger: rollback: " ++ rbErr))
      | .ok () => pure (.error err)
    | .ok _ => do
      match ← call .commit with
      | .error err => pure (.error ("ledger: commit tx: " ++ err))
      | .ok () => pure (.ok ())

/-- `Relay.Run`, for some number of ticks: a tick that fails is logged, and the next one follows. -/
def run (batch : ℕ) : ℕ → Running Unit
  | 0 => pure ()
  | ticks + 1 => do
    let _ ← execTx (drainBatch batch)
    run batch ticks

/-- A relay that is started. -/
structure Job where
  batch : ℕ
  ticks : ℕ

/-- An event that `Emit` writes, with the identifier and the time that it takes. -/
structure Emission where
  event : Event
  id : UUID
  now : Time

def Emission.row (e : Emission) (createdAt : Time) : Stored :=
  { e.event.row e.id e.now with createdAt := createdAt, sentAt := none }

/-- A transaction that began at some time commits its events. -/
structure Happening where
  createdAt : Time
  events : List Emission

/-- The identifiers are new, or the transaction fails. -/
def occur (tx : Happening) (s : State) : State :=
  if ((s.outbox ++ tx.events.map (·.row tx.createdAt)).map fun row ↦ row.id).Nodup then
    { s with outbox := s.outbox ++ tx.events.map (·.row tx.createdAt) }
  else s

def relay : Sharing Reply Choice State Happening Job Unit where
  main job := run job.batch job.ticks
  eval := eval
  occur := occur

abbrev Log := List (Record Reply Choice Happening Job)

abbrev View := Scene Reply Choice State Happening Job

/-- The process that begins a transaction in an entry of the log. -/
def beginner : Record Reply Choice Happening Job → Option ℕ
  | .called pid _ .begin _ _ => some pid
  | _ => none

/-- The process that was the last to begin a transaction. -/
def active (log : Log) : Option ℕ := log.findSome? beginner

/-- There is one relay at a time: once another one has begun a transaction, a relay makes no calls any
more.  The events of an aggregate are written one after the other, at increasing times. -/
def oneAtATime : Rules Reply Choice State Happening Job where
  calls pid _ stmt _ v := stmt = .begin ∨ active v.log = some pid
  events tx v := (tx.events.map fun e ↦ e.event.aggregateID).Nodup ∧
    ∀ e ∈ tx.events, ∀ row ∈ v.state.outbox, row.aggregateID = e.event.aggregateID →
      row.createdAt < tx.createdAt

instance (pid : ℕ) (job : Job) (stmt : Stmt) (choice : Choice) (v : View) :
    Decidable (oneAtATime.calls pid job stmt choice v) :=
  match stmt with
  | .begin => .isTrue (.inl rfl)
  | .claimUnsentOutbox _ | .publish _ | .markOutboxSent _ | .commit | .rollback =>
    decidable_of_iff (active v.log = some pid) ⟨.inr, fun h ↦ h.resolve_left nofun⟩

instance (tx : Happening) (v : View) : Decidable (oneAtATime.events tx v) :=
  inferInstanceAs (Decidable (_ ∧ ∀ e ∈ tx.events, ∀ row ∈ v.state.outbox, _ → _))

/-- A publication can deliver every sequence that has of each key some first messages of the batch. -/
theorem exists_publish (msgs delivered : List Message) (s : State) (choice : Choice)
    (h : ∀ key, lane Message.key delivered key <+: lane Message.key msgs key) :
    ∃ picks, (eval (.publish msgs) { choice with picks := picks } s).2.topic =
      s.topic ++ delivered := by
  refine ⟨delivered.map Message.key, ?_⟩
  rw [← taken_of_lanes h]
  simp [eval, taken_of_lanes h]

end PaymentRail.Outbox.Relay
