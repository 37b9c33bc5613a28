import PaymentRail.Transaction.Program
import Mathlib.Data.List.Basic

/-!
# Programs that talk to one peer

A program whose statements are calls to a peer has a result and a list of calls once the answers of the
peer are given, one for each call.  For a program that makes no call twice this covers every behaviour
of the peer.  `Issues` speaks of every call that a program may make, whatever the answers are, and
`Yields` of what it returns as well.
`translate` runs a program over another interface, each call by a program of that one.
-/

namespace PaymentRail.Transaction.Program

variable {Stmt Stmt' : Type} {Reply : Stmt → Type} {Reply' : Stmt' → Type} {α β : Type}

/-- The result of a program whose calls get these answers. -/
def answered (answer : (s : Stmt) → Reply s) : Program Reply α → α
  | .done result => result
  | .call stmt next => (next (answer stmt)).answered answer

/-- The calls that a program makes when they get these answers. -/
def issued (answer : (s : Stmt) → Reply s) : Program Reply α → List Stmt
  | .done _ => []
  | .call stmt next => stmt :: (next (answer stmt)).issued answer

/-- Make every call by a program over another interface. -/
def translate (f : (s : Stmt) → Program Reply' (Reply s)) : Program Reply α → Program Reply' α
  | .done result => .done result
  | .call stmt next => (f stmt).bind fun reply ↦ (next reply).translate f

instance : Monad (Program Reply) where
  pure := .done
  bind := .bind

/-- Every call that a program may make has a property. -/
def Issues (P : Stmt → Prop) : Program Reply α → Prop
  | .done _ => True
  | .call stmt next => P stmt ∧ ∀ reply, (next reply).Issues P

theorem Issues.bind {P : Stmt → Prop} {program : Program Reply α} {rest : α → Program Reply β}
    (hprogram : program.Issues P) (hrest : ∀ result, (rest result).Issues P) :
    (program >>= rest).Issues P := by
  induction program with
  | done result => exact hrest result
  | call stmt next ih => exact ⟨hprogram.1, fun reply ↦ ih reply (hprogram.2 reply)⟩

theorem issues_of_forall {P : Stmt → Prop} {program : Program Reply α} (h : ∀ stmt, P stmt) :
    program.Issues P := by
  induction program with
  | done result => trivial
  | call stmt next ih => exact ⟨h stmt, ih⟩

theorem Issues.mono {P Q : Stmt → Prop} {program : Program Reply α} (h : ∀ stmt, P stmt → Q stmt)
    (hprogram : program.Issues P) : program.Issues Q := by
  induction program with
  | done result => trivial
  | call stmt next ih => exact ⟨h stmt hprogram.1, fun reply ↦ ih reply (hprogram.2 reply)⟩

/-- A translated program makes the calls of the programs that stand for its own. -/
theorem Issues.translate {P : Stmt → Prop} {Q : Stmt' → Prop} {program : Program Reply α}
    {f : (s : Stmt) → Program Reply' (Reply s)} (hprogram : program.Issues P)
    (hf : ∀ stmt, P stmt → (f stmt).Issues Q) : (program.translate f).Issues Q := by
  induction program with
  | done result => trivial
  | call stmt next ih =>
    exact Issues.bind (hf stmt hprogram.1) fun reply ↦ ih reply (hprogram.2 reply)

/-- Every call that a program may make has a property, and so has whatever it returns. -/
def Yields (P : Stmt → Prop) (Q : α → Prop) : Program Reply α → Prop
  | .done result => Q result
  | .call stmt next => P stmt ∧ ∀ reply, (next reply).Yields P Q

section Yields

variable {P : Stmt → Prop} {Q : α → Prop} {R : β → Prop} {program : Program Reply α}

theorem Issues.yields (h : program.Issues P) : program.Yields P fun _ ↦ True := by
  induction program with
  | done result => trivial
  | call stmt next ih => exact ⟨h.1, fun reply ↦ ih reply (h.2 reply)⟩

theorem Yields.bind {rest : α → Program Reply β} (h : program.Yields P Q)
    (hrest : ∀ result, Q result → (rest result).Yields P R) : (program >>= rest).Yields P R := by
  induction program with
  | done result => exact hrest result h
  | call stmt next ih => exact ⟨h.1, fun reply ↦ ih reply (h.2 reply)⟩

end Yields

variable {answer : (s : Stmt) → Reply s}

@[simp]
theorem issued_done (result : α) : (Program.done result : Program Reply α).issued answer = [] := rfl

@[simp]
theorem issued_call (stmt : Stmt) (next : Reply stmt → Program Reply α) :
    (Program.call stmt next).issued answer = stmt :: (next (answer stmt)).issued answer := rfl

@[simp]
theorem answered_bind (program : Program Reply α) (rest : α → Program Reply β) :
    (program.bind rest).answered answer = (rest (program.answered answer)).answered answer := by
  induction program with
  | done result => rfl
  | call stmt next ih => exact ih _

@[simp]
theorem issued_bind (program : Program Reply α) (rest : α → Program Reply β) :
    (program.bind rest).issued answer =
      program.issued answer ++ (rest (program.answered answer)).issued answer := by
  induction program with
  | done result => rfl
  | call stmt next ih => simp [bind, answered, ih]

end PaymentRail.Transaction.Program

namespace PaymentRail.Transaction.Tx

open Program

variable {Stmt : Type} {Reply : Stmt → Type} {ε α β : Type} {answer : (s : Stmt) → Reply s}

/-- Go on with the result of a body, be it a value or an error. -/
def handle (body : Tx Reply ε α) (rest : Except ε α → Program Reply β) : Program Reply β :=
  Program.bind body rest

section Issues

variable {P : Stmt → Prop}

theorem issues_handle {body : Tx Reply ε α} {rest : Except ε α → Program Reply β}
    (hbody : Issues P body) (hrest : ∀ result, Issues P (rest result)) :
    Issues P (handle body rest) := Issues.bind hbody hrest

theorem issues_bind {body : Tx Reply ε α} {rest : α → Tx Reply ε β} (hbody : Issues P body)
    (hrest : ∀ value, Issues P (rest value)) : Issues P (body >>= rest : Tx Reply ε β) := by
  refine Issues.bind hbody fun result ↦ ?_
  cases result with
  | error err => trivial
  | ok value => exact hrest value

theorem issues_stmt {stmt : Stmt} (h : P stmt) :
    Issues P (Tx.stmt stmt : Tx Reply ε (Reply stmt)) := ⟨h, fun _ ↦ trivial⟩

theorem issues_ofExcept (result : Except ε α) : Issues P (Tx.ofExcept result : Tx Reply ε α) := by
  cases result <;> trivial

end Issues

section Yields

variable {P : Stmt → Prop} {Q : α → Prop} {R : β → Prop}

/-- What a body returns, if it does not leave with an error. -/
def IfOk (Q : α → Prop) (result : Except ε α) : Prop := ∀ value, result = .ok value → Q value

theorem yields_bind {body : Tx Reply ε α} {rest : α → Tx Reply ε β} (hbody : Yields P (IfOk Q) body)
    (hrest : ∀ value, Q value → Yields P (IfOk R) (rest value)) :
    Yields P (IfOk R) (body >>= rest : Tx Reply ε β) := by
  refine Yields.bind hbody fun result hresult ↦ ?_
  cases result with
  | error err =>
    intro value heq
    cases heq
  | ok value => exact hrest value (hresult value rfl)

theorem yields_stmt {stmt : Stmt} (h : P stmt) :
    Yields P (IfOk fun _ ↦ True) (Tx.stmt stmt : Tx Reply ε (Reply stmt)) :=
  ⟨h, fun _ _ _ ↦ trivial⟩

theorem yields_ofExcept {result : Except ε α} (h : IfOk Q result) :
    Yields P (IfOk Q) (Tx.ofExcept result : Tx Reply ε α) := by
  cases result <;> exact h

end Yields

theorem answered_handle (body : Tx Reply ε α) (rest : Except ε α → Program Reply β) :
    answered answer (handle body rest) = answered answer (rest (answered answer body)) :=
  Program.answered_bind body rest

theorem mem_issued_handle {body : Tx Reply ε α} {rest : Except ε α → Program Reply β} {stmt : Stmt} :
    stmt ∈ issued answer (handle body rest) ↔
      stmt ∈ issued answer body ∨ stmt ∈ issued answer (rest (answered answer body)) := by
  have hbind : issued answer (handle body rest) =
      issued answer body ++ issued answer (rest (answered answer body)) :=
    Program.issued_bind body rest
  rw [hbind, List.mem_append]

/-- The result of a body is that of its first part, followed by that of the rest. -/
theorem answered_bind (body : Tx Reply ε α) (rest : α → Tx Reply ε β) :
    answered answer (body >>= rest : Tx Reply ε β) =
      (answered answer body >>= fun value ↦ answered answer (rest value) : Except ε β) := by
  have hbind : answered answer (body >>= rest : Tx Reply ε β) =
      answered answer (andThen rest (answered answer body)) := answered_handle body _
  rw [hbind]
  cases answered answer body <;> rfl

/-- A body succeeds if its first part does, and then the rest. -/
theorem answered_bind_eq_ok {body : Tx Reply ε α} {rest : α → Tx Reply ε β} {result : β} :
    answered answer (body >>= rest : Tx Reply ε β) = .ok result ↔
      ∃ value, answered answer body = .ok value ∧ answered answer (rest value) = .ok result := by
  rw [answered_bind, bind_eq_ok]

/-- A body calls what its first part calls and, if that succeeds, what the rest calls. -/
theorem mem_issued_bind {body : Tx Reply ε α} {rest : α → Tx Reply ε β} {stmt : Stmt} :
    stmt ∈ issued answer (body >>= rest : Tx Reply ε β) ↔ stmt ∈ issued answer body ∨
      ∃ value, answered answer body = .ok value ∧ stmt ∈ issued answer (rest value) := by
  have hbind : stmt ∈ issued answer (body >>= rest : Tx Reply ε β) ↔
      stmt ∈ issued answer body ∨ stmt ∈ issued answer (andThen rest (answered answer body)) :=
    mem_issued_handle
  rw [hbind]
  cases answered answer body with
  | error err => simp [andThen]
  | ok value => simp [andThen]

@[simp]
theorem answered_stmt (stmt : Stmt) :
    answered answer (Tx.stmt stmt : Tx Reply ε (Reply stmt)) = .ok (answer stmt) := rfl

@[simp]
theorem issued_stmt (stmt : Stmt) :
    issued answer (Tx.stmt stmt : Tx Reply ε (Reply stmt)) = [stmt] := rfl

@[simp]
theorem issued_pure (value : α) : issued answer (pure value : Tx Reply ε α) = [] := rfl

@[simp]
theorem answered_ofExcept (result : Except ε α) :
    answered answer (Tx.ofExcept result : Tx Reply ε α) = result := by
  cases result <;> rfl

@[simp]
theorem issued_ofExcept (result : Except ε α) :
    issued answer (Tx.ofExcept result : Tx Reply ε α) = [] := by
  cases result <;> rfl

end PaymentRail.Transaction.Tx
