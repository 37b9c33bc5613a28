import PaymentRail.Outbox.Envelope

/-!
# Appending to the audit log

`Append` chains an entry onto the audit log in the transaction of its caller: under the advisory
lock of the chain it reads the head and inserts the next row, whose hash covers the hash of the
head.  SHA-256 and the JSON encoding of an event body are library functions, kept as parameters.

Every transition of a payment or a settlement ends with the same two records, its outbox event and
its audit row (`announce`).
-/

namespace PaymentRail.Audit

open Transaction

/-- The library functions the audit log is built on. -/
structure Runtime where
  sha256 : List UInt8 → List UInt8
  marshal : EventData → List UInt8

def chainAdvisoryKey : Int64 := 8516588576188130913

def genesisPrevHash : List UInt8 := List.replicate 32 0

/-- `occurredAt` is absent for the zero time. -/
structure Entry where
  actor : String
  action : String
  aggregateType : String
  aggregateID : String
  occurredAt : Option Time
  data : EventData

/-- `binary.BigEndian.PutUint64`. -/
def bigEndian (v : UInt64) : List UInt8 :=
  [v >>> 56, v >>> 48, v >>> 40, v >>> 32, v >>> 24, v >>> 16, v >>> 8, v].map UInt64.toUInt8

/-- A field with its length in front. -/
def field (bytes : List UInt8) : List UInt8 := bigEndian bytes.length.toUInt64 ++ bytes

def canonical (seq : Int64) (actor action aggType aggID : String) (occurredMicros : Int64)
    (payload : List UInt8) : List UInt8 :=
  bigEndian seq.toUInt64 ++ bigEndian occurredMicros.toUInt64 ++ field actor.toUTF8.data.toList ++
    field action.toUTF8.data.toList ++ field aggType.toUTF8.data.toList ++
    field aggID.toUTF8.data.toList ++ field payload

def entryHash (rt : Runtime) (prevHash canonicalBytes : List UInt8) : List UInt8 :=
  rt.sha256 (prevHash ++ canonicalBytes)

/-- The row that `Append` inserts at a place of the chain. -/
def Entry.row (rt : Runtime) (entry : Entry) (occurred : Time) (seq : Int64)
    (prev : List UInt8) : AuditRow :=
  -- truncation to microseconds
  let micros := occurred / 1000
  { seq := seq
    prevHash := prev
    entryHash := entryHash rt prev (canonical seq entry.actor entry.action entry.aggregateType
      entry.aggregateID (Int64.ofInt micros) (rt.marshal entry.data))
    actor := entry.actor
    action := entry.action
    aggregateType := entry.aggregateType
    aggregateID := entry.aggregateID
    occurredAt := micros
    payload := rt.marshal entry.data }

/-- The event time of an entry, by default the clock. -/
def occurredAt (entry : Entry) : DbTx Time :=
  match entry.occurredAt with
  | some time => pure time
  | none => Tx.stmt Stmt.timeNow

/-- Where the next row goes: its sequence number and the hash it is chained to. -/
def nextPlace : Except Err AuditRow → DbTx (Int64 × List UInt8)
  | .ok head => pure (head.seq + 1, head.entryHash)
  | .error err =>
    if err.is .errNoRows then pure (1, genesisPrevHash) else Tx.fail (err.wrap "audit: read head")

/-- Insert the row of an entry at its place. -/
def insertAt (rt : Runtime) (entry : Entry) (occurred : Time) (place : Int64 × List UInt8) :
    DbTx Unit := do
  orFail (← Tx.stmt (.insertAuditEntry (entry.row rt occurred place.1 place.2)))
    (·.wrap ("audit: insert entry seq " ++ toString place.1))

def append (rt : Runtime) (entry : Entry) : DbTx Unit := do
  let occurred ← occurredAt entry
  orFail (← Tx.stmt (.acquireAuditChainLock chainAdvisoryKey))
    (·.wrap "audit: acquire chain lock")
  let place ← nextPlace (← Tx.stmt .getAuditHead)
  insertAt rt entry occurred place

/-- The end of a transition: its event, then its audit row. -/
def announce (rt : Runtime) (event : Outbox.Event) (entry : Entry) : DbTx Unit := do
  Outbox.emit event
  append rt entry

/-- The two rows that announce a transition. -/
structure Announced (rt : Runtime) (event : Outbox.Event) (entry : Entry) (sent : OutboxRow)
    (logged : AuditRow) : Prop where
  event : ∃ id now, sent = event.row id now
  entry : ∃ occurred seq prev, logged = entry.row rt occurred seq prev

section Spec

variable {allowed : Stmt → Ambient → Db → Prop} {writes : List Write} {locks : List Lock} {db : Db}

theorem wp_occurredAt {entry : Entry} :
    wp queries allowed Rely (occurredAt entry) (OnSuccess fun _ writes' locks' after ↦
      writes' = writes ∧ locks' = locks ∧ Rely locks db after) writes locks db := by
  unfold occurredAt
  split
  · exact ⟨rfl, rfl, .refl _ _⟩
  · intro ambient after hrely _
    exact ⟨List.append_nil _, List.append_nil _, hrely⟩

/-- `Append` adds one row for its entry. -/
theorem wp_append {rt : Runtime} {entry : Entry}
    {post : Unit → List Write → List Lock → Db → Prop}
    (hpost : ∀ occurred seq prev after, Rely locks db after →
      post () (writes ++ [.insertAuditEntry (entry.row rt occurred seq prev)])
        (locks ++ [.advisory chainAdvisoryKey] ++
          (Write.insertAuditEntry (entry.row rt occurred seq prev)).locks) after) :
    wp queries allowed Rely (append rt entry) (OnSuccess post) writes locks db := by
  rw [append, wp_success_bind]
  refine wp_success_mono ?_ wp_occurredAt
  rintro occurred writes' locks' first ⟨rfl, rfl, hfirst⟩
  rw [wp_stmt_bind]
  intro _ locked hlocked _
  rw [wp_success_bind, wp_orFail]
  intro _ _
  rw [wp_stmt_bind]
  intro _ read hread _
  rw [wp_success_bind]
  simp only [queries, Stmt.eval, Effect.read, List.append_nil] at hread ⊢
  -- both ways to find the place of the next row lead to the same insert
  have hinsert : ∀ place, wp queries allowed Rely (insertAt rt entry occurred place)
      (OnSuccess post) writes' (locks' ++ [.advisory chainAdvisoryKey]) read := by
    intro place
    rw [insertAt, wp_stmt_bind]
    intro _ after hafter _
    rw [wp_orFail]
    intro _ hinserted
    rw [eval_insertAuditEntry hinserted]
    exact hpost occurred place.1 place.2 after (hfirst.trans (hlocked.trans
      ((hread.trans hafter).anti (by simp +contextual))))
  unfold nextPlace
  split
  · exact hinsert _
  · split
    · exact hinsert _
    · trivial

/-- Announcing a transition adds its two rows, under their own locks. -/
theorem wp_announce {rt : Runtime} {event : Outbox.Event} {entry : Entry}
    {post : Unit → List Write → List Lock → Db → Prop}
    (hpost : ∀ sent logged more after, Announced rt event entry sent logged →
      Rely (locks ++ more) db after →
      Guarded [.insertOutboxEvent sent, .insertAuditEntry logged] more →
      post () (writes ++ [.insertOutboxEvent sent, .insertAuditEntry logged]) (locks ++ more)
        after) :
    wp queries allowed Rely (announce rt event entry) (OnSuccess post) writes locks db := by
  rw [announce, wp_success_bind]
  refine Outbox.wp_emit fun id now emitted hemitted ↦ wp_append fun occurred seq prev after hafter ↦ ?_
  have hrely : Rely locks db after := hemitted.trans (hafter.anti (by simp +contextual))
  have h := hpost (event.row id now) (entry.row rt occurred seq prev)
    (.outboxID id :: .advisory chainAdvisoryKey ::
      (Write.insertAuditEntry (entry.row rt occurred seq prev)).locks) after
    ⟨⟨id, now, rfl⟩, ⟨occurred, seq, prev, rfl⟩⟩
    (hrely.append_logs (by simp [Lock.ofLog, Write.locks])) (by simp [Guarded, Write.locks, Outbox.Event.row])
  simpa using h

end Spec

end PaymentRail.Audit
