import PaymentRail.Db.Locking

/-!
# Emitting an event

`Emit` wraps an event in an envelope and appends it to the outbox in the transaction of its caller.
The row and the envelope carry one generated identifier.  Encoding the envelope as JSON cannot fail
for the event bodies of the payment and settlement code, so that branch is left out.
-/

namespace PaymentRail.Outbox

open Transaction

def schemaVersion : ℕ := 1

structure Event where
  type : String
  aggregateID : String
  data : EventData

/-- `strings.SplitN(type, ".", 2)[0]`. -/
def aggregateType (type : String) : String := String.ofList (type.toList.takeWhile (· ≠ '.'))

/-- The row that `Emit` inserts for an event. -/
def Event.row (event : Event) (id : UUID) (now : Time) : OutboxRow where
  id := id
  eventType := event.type
  aggregateID := event.aggregateID
  payload :=
    { id := id.string
      type := event.type
      aggregateType := aggregateType event.type
      aggregateID := event.aggregateID
      occurredAt := now
      schemaVersion := schemaVersion
      data := event.data }

def emit (event : Event) : DbTx Unit := do
  let id ← Tx.stmt .newUUID
  let now ← Tx.stmt .timeNow
  orFail (← Tx.stmt (.insertOutboxEvent (event.row id now)))
    (·.wrap ("outbox: emit " ++ event.type))

/-- `Emit` adds one row for its event. -/
theorem wp_emit {allowed : Stmt → Ambient → Db → Prop} {event : Event} {writes : List Write}
    {locks : List Lock} {db : Db} {post : Unit → List Write → List Lock → Db → Prop}
    (hpost : ∀ id now after, Rely locks db after →
      post () (writes ++ [.insertOutboxEvent (event.row id now)]) (locks ++ [.outboxID id]) after) :
    wp queries allowed Rely (emit event) (OnSuccess post) writes locks db := by
  rw [emit, wp_stmt_bind]
  intro named first hfirst _
  rw [wp_stmt_bind]
  intro timed second hsecond _
  rw [wp_stmt_bind]
  intro _ third hthird _
  rw [wp_orFail]
  intro _ hinserted
  rw [eval_insertOutboxEvent hinserted]
  simp only [queries, Stmt.eval, Effect.read, Effect.wrote, List.append_nil] at hsecond hthird ⊢
  exact hpost named.uuid timed.now third (hfirst.trans (hsecond.trans hthird))

end PaymentRail.Outbox
