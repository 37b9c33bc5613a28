import PaymentRail.Transaction.Program

/-!
# Interleaved transactions at READ COMMITTED

An `Engine` says what one statement does: its reply, the writes it adds to its transaction and the
locks it must hold from then on.  A statement sees the database as committed when it runs, with the
writes of its own transaction on top.  Writes reach the committed database only at COMMIT; locks are
held to the end of the transaction, and a statement whose lock another transaction holds waits.

`step` runs one action of a schedule.  A transaction may abort at any point, which covers both a
body that returned an error and a failure of the database.  The history of committed transactions
is recorded beside the database, newest first.
-/

namespace PaymentRail.Transaction

/-- The reply of one statement, with the writes it makes and the locks it takes. -/
structure Effect (ρ Write Lock : Type) where
  reply : ρ
  writes : List Write
  locks : List Lock

/-- The meaning of the statements of an interface over a database. -/
structure Engine {Stmt : Type} (Reply : Stmt → Type) (Ambient Db Write Lock : Type) where
  apply : Db → Write → Db
  eval : (s : Stmt) → Ambient → Db → Effect (Reply s) Write Lock

variable {Stmt : Type} {Reply : Stmt → Type} {Ambient Db Write Lock Call ε ρ : Type}

namespace Engine

/-- The database with a list of writes applied in order. -/
def view (E : Engine Reply Ambient Db Write Lock) (db : Db) (writes : List Write) : Db :=
  writes.foldl E.apply db

@[simp]
theorem view_nil (E : Engine Reply Ambient Db Write Lock) (db : Db) : E.view db [] = db := rfl

@[simp]
theorem view_cons (E : Engine Reply Ambient Db Write Lock) (db : Db) (write : Write)
    (writes : List Write) : E.view db (write :: writes) = E.view (E.apply db write) writes := rfl

@[simp]
theorem view_append (E : Engine Reply Ambient Db Write Lock) (db : Db) (first second : List Write) :
    E.view db (first ++ second) = E.view (E.view db first) second :=
  List.foldl_append

end Engine

/-- An open transaction: the call it serves, the rest of its body, its uncommitted writes and the
locks it holds. -/
structure Session (Reply : Stmt → Type) (Write Lock Call ε ρ : Type) where
  call : Call
  rest : Program Reply (Except ε ρ)
  writes : List Write
  locks : List Lock

/-- A committed transaction: its call, its result and what it wrote. -/
structure Commit (Write Call ρ : Type) where
  call : Call
  result : ρ
  writes : List Write

/-- The committed database, the open transactions, the lock table and the commits so far. -/
structure State (Reply : Stmt → Type) (Db Write Lock Call ε ρ : Type) where
  db : Db
  session : ℕ → Option (Session Reply Write Lock Call ε ρ)
  holder : Lock → Option ℕ
  history : List (Commit Write Call ρ)

/-- One action of a schedule. -/
inductive Action (Call Ambient : Type) where
  | start (tid : ℕ) (call : Call)
  | exec (tid : ℕ) (ambient : Ambient)
  | commit (tid : ℕ)
  | abort (tid : ℕ)

namespace State

/-- No transaction is open and none has committed yet. -/
def idle (db : Db) : State Reply Db Write Lock Call ε ρ where
  db := db
  session := fun _ ↦ none
  holder := fun _ ↦ none
  history := []

/-- Drop a transaction: its uncommitted writes are forgotten and its locks released. -/
def close (s : State Reply Db Write Lock Call ε ρ) (tid : ℕ) :
    State Reply Db Write Lock Call ε ρ :=
  { s with
    session := Function.update s.session tid none
    holder := fun lock ↦ if s.holder lock = some tid then none else s.holder lock }

end State

variable [DecidableEq Lock]

/-- Run one action; `none` when it is not enabled, in particular when a lock is taken. -/
def step (E : Engine Reply Ambient Db Write Lock) (body : Call → Program Reply (Except ε ρ))
    (s : State Reply Db Write Lock Call ε ρ) :
    Action Call Ambient → Option (State Reply Db Write Lock Call ε ρ)
  | .start tid call =>
    match s.session tid with
    | some _ => none
    | none => some { s with session := Function.update s.session tid (some ⟨call, body call, [], []⟩) }
  | .exec tid ambient =>
    match s.session tid with
    | some ⟨call, .call stmt next, writes, locks⟩ =>
      let effect := E.eval stmt ambient (E.view s.db writes)
      if ∀ lock ∈ effect.locks, s.holder lock = none ∨ s.holder lock = some tid then
        some { s with
          session := Function.update s.session tid
            (some ⟨call, next effect.reply, writes ++ effect.writes, locks ++ effect.locks⟩)
          holder := fun lock ↦ if lock ∈ effect.locks then some tid else s.holder lock }
      else none
    | _ => none
  | .commit tid =>
    match s.session tid with
    | some ⟨call, .done (.ok result), writes, _⟩ =>
      some { s.close tid with
        db := E.view s.db writes
        history := ⟨call, result, writes⟩ :: s.history }
    | _ => none
  | .abort tid =>
    match s.session tid with
    | some _ => some (s.close tid)
    | none => none

section Inversion

variable {E : Engine Reply Ambient Db Write Lock} {body : Call → Program Reply (Except ε ρ)}
  {s s' : State Reply Db Write Lock Call ε ρ} {tid : ℕ}

theorem step_start {call : Call} (h : step E body s (.start tid call) = some s') :
    s' = { s with session := Function.update s.session tid (some ⟨call, body call, [], []⟩) } := by
  simp only [step] at h
  split at h
  · cases h
  · exact (Option.some.inj h).symm

theorem step_exec {ambient : Ambient} (h : step E body s (.exec tid ambient) = some s') :
    ∃ call stmt next writes locks, s.session tid = some ⟨call, .call stmt next, writes, locks⟩ ∧
      (∀ lock ∈ (E.eval stmt ambient (E.view s.db writes)).locks,
        s.holder lock = none ∨ s.holder lock = some tid) ∧
      s' = { s with
        session := Function.update s.session tid
          (some ⟨call, next (E.eval stmt ambient (E.view s.db writes)).reply,
            writes ++ (E.eval stmt ambient (E.view s.db writes)).writes,
            locks ++ (E.eval stmt ambient (E.view s.db writes)).locks⟩)
        holder := fun lock ↦
          if lock ∈ (E.eval stmt ambient (E.view s.db writes)).locks then some tid
          else s.holder lock } := by
  simp only [step] at h
  split at h
  · next call stmt next writes locks hopen =>
    split at h
    · next hfree =>
      exact ⟨call, stmt, next, writes, locks, hopen, hfree, (Option.some.inj h).symm⟩
    · cases h
  · cases h

theorem step_commit (h : step E body s (.commit tid : Action Call Ambient) = some s') :
    ∃ call result writes locks, s.session tid = some ⟨call, .done (.ok result), writes, locks⟩ ∧
      s' = { s.close tid with
        db := E.view s.db writes
        history := ⟨call, result, writes⟩ :: s.history } := by
  simp only [step] at h
  split at h
  · next call result writes locks hopen =>
    exact ⟨call, result, writes, locks, hopen, (Option.some.inj h).symm⟩
  · cases h

theorem step_abort (h : step E body s (.abort tid : Action Call Ambient) = some s') :
    s' = s.close tid := by
  simp only [step] at h
  split at h
  · exact (Option.some.inj h).symm
  · cases h

end Inversion

/-- Run a whole schedule. -/
def schedule (E : Engine Reply Ambient Db Write Lock) (body : Call → Program Reply (Except ε ρ))
    (s : State Reply Db Write Lock Call ε ρ) :
    List (Action Call Ambient) → Option (State Reply Db Write Lock Call ε ρ)
  | [] => some s
  | action :: rest => (step E body s action).bind fun s' ↦ schedule E body s' rest

section Restriction

omit [DecidableEq Lock]

/-- The next statement of a transaction is one that `allowed` admits, with the ambient values it
gets and on the rows it sees. -/
def Session.Admits (E : Engine Reply Ambient Db Write Lock) (allowed : Stmt → Ambient → Db → Prop)
    (db : Db) (ambient : Ambient) : Session Reply Write Lock Call ε ρ → Prop
  | ⟨_, .call stmt _, writes, _⟩ => allowed stmt ambient (E.view db writes)
  | ⟨_, .done _, _, _⟩ => True

/-- The statement an action executes is one that `allowed` admits. -/
def Permitted (E : Engine Reply Ambient Db Write Lock) (allowed : Stmt → Ambient → Db → Prop)
    (s : State Reply Db Write Lock Call ε ρ) : Action Call Ambient → Prop
  | .exec tid ambient => (s.session tid).elim True (Session.Admits E allowed s.db ambient)
  | _ => True

variable (E : Engine Reply Ambient Db Write Lock) (allowed : Stmt → Ambient → Db → Prop)
  [∀ stmt ambient db, Decidable (allowed stmt ambient db)]

instance (db : Db) (ambient : Ambient) : (session : Session Reply Write Lock Call ε ρ) →
    Decidable (session.Admits E allowed db ambient)
  | ⟨_, .call stmt _, writes, _⟩ =>
    inferInstanceAs (Decidable (allowed stmt ambient (E.view db writes)))
  | ⟨_, .done _, _, _⟩ => isTrue trivial

instance (s : State Reply Db Write Lock Call ε ρ) : (action : Action Call Ambient) →
    Decidable (Permitted E allowed s action)
  | .exec tid ambient =>
    decidable_of_iff (∀ session ∈ s.session tid, session.Admits E allowed s.db ambient) (by
      simp only [Permitted]
      cases s.session tid <;> simp)
  | .start .. | .commit .. | .abort .. => isTrue trivial

end Restriction

/-- Every action of a schedule is permitted when its turn comes. -/
def PermittedRun (E : Engine Reply Ambient Db Write Lock) (body : Call → Program Reply (Except ε ρ))
    (allowed : Stmt → Ambient → Db → Prop) :
    State Reply Db Write Lock Call ε ρ → List (Action Call Ambient) → Prop
  | _, [] => True
  | s, action :: rest => Permitted E allowed s action ∧
      ((step E body s action).elim True fun s' ↦ PermittedRun E body allowed s' rest)

instance decidablePermittedRun (E : Engine Reply Ambient Db Write Lock)
    (body : Call → Program Reply (Except ε ρ)) (allowed : Stmt → Ambient → Db → Prop)
    [∀ stmt ambient db, Decidable (allowed stmt ambient db)] :
    (s : State Reply Db Write Lock Call ε ρ) → (actions : List (Action Call Ambient)) →
      Decidable (PermittedRun E body allowed s actions)
  | _, [] => isTrue trivial
  | s, action :: rest =>
    have : Decidable ((step E body s action).elim True fun s' ↦
        PermittedRun E body allowed s' rest) :=
      match step E body s action with
      | none => isTrue trivial
      | some s' => decidablePermittedRun E body allowed s' rest
    inferInstanceAs (Decidable (_ ∧ _))

/-- The states that schedules of permitted actions reach from an idle database. -/
inductive Reaches (E : Engine Reply Ambient Db Write Lock)
    (body : Call → Program Reply (Except ε ρ)) (allowed : Stmt → Ambient → Db → Prop) (db : Db) :
    State Reply Db Write Lock Call ε ρ → Prop
  | idle : Reaches E body allowed db (State.idle db)
  | step {s s' : State Reply Db Write Lock Call ε ρ} {action : Action Call Ambient} :
      Reaches E body allowed db s → Permitted E allowed s action →
        Transaction.step E body s action = some s' → Reaches E body allowed db s'

/-- Any statement may run on any rows. -/
def unrestricted : Stmt → Ambient → Db → Prop := fun _ _ _ ↦ True

/-- A schedule of permitted actions that runs to its end reaches its last state. -/
theorem reaches_of_schedule {E : Engine Reply Ambient Db Write Lock}
    {body : Call → Program Reply (Except ε ρ)} {allowed : Stmt → Ambient → Db → Prop} {db : Db}
    {s s' : State Reply Db Write Lock Call ε ρ} {actions : List (Action Call Ambient)}
    (hs : Reaches E body allowed db s) (h : schedule E body s actions = some s')
    (hpermitted : PermittedRun E body allowed s actions) : Reaches E body allowed db s' := by
  induction actions generalizing s with
  | nil =>
    simp only [schedule, Option.some.injEq] at h
    exact h ▸ hs
  | cons action rest ih =>
    obtain ⟨mid, hmid, hrest⟩ := Option.bind_eq_some_iff.mp h
    obtain ⟨hfirst, hlater⟩ := hpermitted
    rw [hmid] at hlater
    exact ih (hs.step hfirst hmid) hrest hlater

section Unrestricted

variable {E : Engine Reply Ambient Db Write Lock} {body : Call → Program Reply (Except ε ρ)}

omit [DecidableEq Lock] in
/-- Without a restriction every action is permitted. -/
theorem permitted_unrestricted (s : State Reply Db Write Lock Call ε ρ)
    (action : Action Call Ambient) : Permitted E unrestricted s action := by
  cases action with
  | exec tid ambient =>
    simp only [Permitted]
    rcases s.session tid with _ | ⟨_, _ | _, _, _⟩ <;> trivial
  | _ => trivial

theorem permittedRun_unrestricted (s : State Reply Db Write Lock Call ε ρ)
    (actions : List (Action Call Ambient)) : PermittedRun E body unrestricted s actions := by
  induction actions generalizing s with
  | nil => trivial
  | cons action rest ih =>
    refine ⟨permitted_unrestricted s action, ?_⟩
    cases step E body s action with
    | none => trivial
    | some s' => exact ih s'

end Unrestricted

end PaymentRail.Transaction
