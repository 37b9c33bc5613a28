import PaymentRail.Db.Queries
import PaymentRail.Transaction.Ack
import PaymentRail.Transaction.Process

/-!
# The idempotency keys

The table `idempotency_keys` and the store over it (`internal/payments/idempotency.go`).  Every
operation of the store is one statement outside any transaction.  A statement may be answered, fail
without an effect, or take effect while its caller gets an error.
-/

namespace PaymentRail.Payments.Idempotency

open Transaction

inductive Status where
  | inFlight
  | completed
  deriving DecidableEq

/-- A row of `idempotency_keys`. -/
structure IdempotencyKey where
  key : String
  requestHash : List UInt8
  status : Status
  responseStatus : Option Int32
  responseBody : List UInt8
  paymentID : Option UUID
  createdAt : Time
  completedAt : Option Time
  deriving DecidableEq

structure CompleteIdempotencyKeyParams where
  key : String
  responseStatus : Option Int32
  responseBody : List UInt8
  paymentID : Option UUID
  deriving DecidableEq

/-- The calls that the store makes: its statements, and the clock for the sweeper. -/
inductive Op where
  | now
  | insertIdempotencyKey (key : String) (requestHash : List UInt8)
  | getIdempotencyKey (key : String)
  | completeIdempotencyKey (params : CompleteIdempotencyKeyParams)
  | deleteIdempotencyKey (key : String)
  | deleteExpiredIdempotencyKeys (createdAt : Time)
  deriving DecidableEq

abbrev OpReply : Op → Type
  | .now => Time
  | .insertIdempotencyKey _ _ | .getIdempotencyKey _ => Except Err IdempotencyKey
  | .completeIdempotencyKey _ | .deleteIdempotencyKey _ => Except Err Unit
  | .deleteExpiredIdempotencyKeys _ => Except Err ℕ

/-- The time at which a call is made and what becomes of it. -/
structure Choice where
  now : Time
  ack : Ack Err

abbrev Keys := List IdempotencyKey

/-- The row of a key. -/
def Keys.row (keys : Keys) (key : String) : Option IdempotencyKey :=
  Table.lookup IdempotencyKey.key keys key

/-- The row of a fresh claim. -/
def claimed (key : String) (requestHash : List UInt8) (now : Time) : IdempotencyKey :=
  ⟨key, requestHash, .inFlight, none, [], none, now, none⟩

/-- The `UPDATE` of a completion. -/
def IdempotencyKey.complete (params : CompleteIdempotencyKeyParams) (now : Time)
    (row : IdempotencyKey) : IdempotencyKey :=
  { row with
    status := .completed
    responseStatus := params.responseStatus
    responseBody := params.responseBody
    paymentID := params.paymentID
    completedAt := some now }

def eval : (op : Op) → Choice → Keys → OpReply op × Keys
  | .now, choice, keys => (choice.now, keys)
  | .insertIdempotencyKey key requestHash, choice, keys =>
    -- ON CONFLICT DO NOTHING returns no row
    if (keys.row key).isSome then choice.ack.settle (.error .errNoRows) keys keys
    else
      let row := claimed key requestHash choice.now
      choice.ack.settle (.ok row) keys (keys ++ [row])
  | .getIdempotencyKey key, choice, keys =>
    choice.ack.settle ((keys.row key).elim (.error .errNoRows) .ok) keys keys
  | .completeIdempotencyKey params, choice, keys =>
    choice.ack.settle (.ok ()) keys
      (Table.modify IdempotencyKey.key keys params.key (.complete params choice.now))
  | .deleteIdempotencyKey key, choice, keys =>
    choice.ack.settle (.ok ()) keys (keys.filter fun row ↦ row.key ≠ key)
  | .deleteExpiredIdempotencyKeys createdAt, choice, keys =>
    let expired := keys.filter fun row ↦ row.createdAt < createdAt
    choice.ack.settle (.ok expired.length) keys (keys.filter fun row ↦ ¬ row.createdAt < createdAt)

/-! ### The store -/

structure BeginResult where
  fresh : Bool
  existing : IdempotencyKey

section Store

variable {Call ε ρ : Type}

def begin (key : String) (hash : List UInt8) :
    Program (Demand.Answer Call ε ρ OpReply) (Except Err BeginResult) := do
  match ← perform (Op.insertIdempotencyKey key hash) with
  | .ok row => pure (.ok ⟨true, row⟩)
  | .error err =>
    if err.is .errNoRows then
      match ← perform (Op.getIdempotencyKey key) with
      | .ok existing => pure (.ok ⟨false, existing⟩)
      | .error err => pure (.error (err.wrap "payments: load idempotency key"))
    else pure (.error (err.wrap "payments: begin idempotency key"))

def complete (key : String) (status : ℤ) (body : List UInt8) (paymentID : UUID) :
    Program (Demand.Answer Call ε ρ OpReply) (Except Err Unit) := do
  let reply ← perform (Op.completeIdempotencyKey
    ⟨key, some (Int32.ofInt status), body, if paymentID = 0 then none else some paymentID⟩)
  pure (reply.mapError (.wrap "payments: complete idempotency key"))

def delete (key : String) : Program (Demand.Answer Call ε ρ OpReply) (Except Err Unit) := do
  let reply ← perform (Op.deleteIdempotencyKey key)
  pure (reply.mapError (.wrap "payments: delete idempotency key"))

def sweepExpired (olderThan : Time) :
    Program (Demand.Answer Call ε ρ OpReply) (Except Err ℕ) := do
  let now ← perform Op.now
  let reply ← perform (Op.deleteExpiredIdempotencyKeys (now - olderThan))
  pure (reply.mapError (.wrap "payments: sweep idempotency keys"))

end Store

/-! ### What a statement does to the row of one key -/

/-- The key that a statement names. -/
def Op.key : Op → Option String
  | .insertIdempotencyKey key _ | .getIdempotencyKey key | .deleteIdempotencyKey key => some key
  | .completeIdempotencyKey params => some params.key
  | .now | .deleteExpiredIdempotencyKeys _ => none

/-- The row of a key survives a statement of the sweeper. -/
def Op.Spares (key : String) (keys : Keys) : Op → Prop
  | .deleteExpiredIdempotencyKeys createdAt =>
    ∀ row, keys.row key = some row → ¬ row.createdAt < createdAt
  | _ => True

instance (key : String) (keys : Keys) (op : Op) : Decidable (op.Spares key keys) :=
  match op with
  | .deleteExpiredIdempotencyKeys _ => inferInstanceAs (Decidable (∀ row, _ = some row → _))
  | .now | .insertIdempotencyKey _ _ | .getIdempotencyKey _ | .completeIdempotencyKey _
  | .deleteIdempotencyKey _ => inferInstanceAs (Decidable True)

variable {keys : Keys} {key : String} {choice : Choice}

@[simp]
theorem status_claimed (key : String) (hash : List UInt8) (now : Time) :
    (claimed key hash now).status = .inFlight := rfl

theorem row_claim (hfree : keys.row key = none) (hash : List UInt8) (now : Time) :
    Keys.row (keys ++ [claimed key hash now]) key = some (claimed key hash now) :=
  @Table.lookup_append_self _ _ _ IdempotencyKey.key _ (claimed key hash now) hfree

theorem row_complete (params : CompleteIdempotencyKeyParams) (now : Time) (key : String) :
    Keys.row (Table.modify IdempotencyKey.key keys params.key (.complete params now)) key =
      (keys.row key).map fun row ↦ if key = params.key then row.complete params now else row :=
  Table.lookup_modify fun _ ↦ rfl

theorem row_delete (key : String) : Keys.row (keys.filter fun row ↦ row.key ≠ key) key = none := by
  refine Table.lookup_eq_none.mpr fun row hrow ↦ ?_
  simpa using (List.mem_filter.mp hrow).2

/-- A statement about other keys, or a sweep that spares the row, is not seen in the row of a key. -/
theorem row_eval_of_ne {op : Op} (hkey : op.key ≠ some key) (hspares : op.Spares key keys) :
    (eval op choice keys).2.row key = keys.row key := by
  have hsettle : ∀ {α : Type} (reply : Except Err α) (after : Keys),
      after.row key = keys.row key →
        (choice.ack.settle reply keys after).2.row key = keys.row key := by
    intro α reply after hafter
    exact Ack.settle_cases (P := fun keys' : Keys ↦ keys'.row key = keys.row key) _ _ rfl hafter
  cases op with
  | now => rfl
  | insertIdempotencyKey other hash =>
    have hne : other ≠ key := fun h ↦ hkey (congrArg some h)
    simp only [eval]
    split
    · exact hsettle _ _ rfl
    · exact hsettle _ _ (Table.lookup_append_of_ne hne)
  | getIdempotencyKey other => exact hsettle _ _ rfl
  | completeIdempotencyKey params =>
    have hne : params.key ≠ key := fun h ↦ hkey (congrArg some h)
    refine hsettle _ _ ?_
    rw [row_complete]
    simp [Ne.symm hne]
  | deleteIdempotencyKey other =>
    have hne : other ≠ key := fun h ↦ hkey (congrArg some h)
    refine hsettle _ _ (Table.lookup_filter fun row hrow ↦ ?_)
    rw [Table.key_of_lookup hrow]
    simpa using hne.symm
  | deleteExpiredIdempotencyKeys createdAt =>
    refine hsettle _ _ (Table.lookup_filter fun row hrow ↦ ?_)
    simpa using hspares row hrow

/-- A read changes nothing; the row it returns is there. -/
theorem eval_get (keys : Keys) (key : String) (choice : Choice) :
    (eval (.getIdempotencyKey key) choice keys).2 = keys ∧
      ∀ row, (eval (.getIdempotencyKey key) choice keys).1 = .ok row → keys.row key = some row := by
  obtain ⟨now, ack⟩ := choice
  cases hrow : keys.row key <;> cases ack <;> simp [eval, hrow, Ack.settle]

/-- A claim has one of three outcomes: the key was free and is the caller's, or the caller got an error
and the row is as it was, or the caller got an error and the key is claimed by nobody. -/
theorem eval_insert (keys : Keys) (key : String) (hash : List UInt8) (choice : Choice) :
    (∃ row, keys.row key = none ∧ (eval (.insertIdempotencyKey key hash) choice keys).1 = .ok row ∧
      (eval (.insertIdempotencyKey key hash) choice keys).2.row key = some row ∧
        row.status = .inFlight) ∨
    (∃ err, (eval (.insertIdempotencyKey key hash) choice keys).1 = .error err) ∧
      ((eval (.insertIdempotencyKey key hash) choice keys).2.row key = keys.row key ∨
        keys.row key = none ∧ ∃ row, row.status = .inFlight ∧
          (eval (.insertIdempotencyKey key hash) choice keys).2.row key = some row) := by
  obtain ⟨now, ack⟩ := choice
  cases hrow : keys.row key with
  | some row => cases ack <;> simp [eval, hrow, Ack.settle]
  | none => cases ack <;> simp [eval, hrow, Ack.settle, row_claim hrow]

end PaymentRail.Payments.Idempotency
