import PaymentRail.Codec.Except

/-!
# Programs over a statement interface

A `Program` issues statements of an interface one at a time and continues with the reply each of
them gets.  Nothing here fixes what a statement does: the same program is given its meaning by a
sequential executor, by an interleaving scheduler, or by the weakest-precondition calculus of
`PaymentRail.Transaction.Interference`.

`Tx` adds early return with an error, which is how a function with an error result leaves a
transaction body.
-/

namespace PaymentRail.Transaction

/-- A program that calls statements and goes on with their replies. -/
inductive Program {Stmt : Type} (Reply : Stmt → Type) (α : Type) where
  | done (result : α)
  | call (stmt : Stmt) (next : Reply stmt → Program Reply α)

namespace Program

variable {Stmt : Type} {Reply : Stmt → Type} {α β : Type}

/-- Run the first program, then the one its result selects. -/
def bind : Program Reply α → (α → Program Reply β) → Program Reply β
  | .done result, rest => rest result
  | .call stmt next, rest => .call stmt fun reply ↦ (next reply).bind rest

@[simp]
theorem bind_done (result : α) (rest : α → Program Reply β) :
    (Program.done result : Program Reply α).bind rest = rest result := rfl

@[simp]
theorem bind_call (stmt : Stmt) (next : Reply stmt → Program Reply α)
    (rest : α → Program Reply β) :
    (Program.call stmt next).bind rest = .call stmt fun reply ↦ (next reply).bind rest := rfl

end Program

/-- A program whose result is a value or an error. -/
def Tx {Stmt : Type} (Reply : Stmt → Type) (ε α : Type) : Type :=
  Program Reply (Except ε α)

namespace Tx

variable {Stmt : Type} {Reply : Stmt → Type} {ε α β : Type}

/-- What follows a fallible step: the rest of the body, or the error handed on unchanged. -/
def andThen (rest : α → Tx Reply ε β) : Except ε α → Program Reply (Except ε β)
  | .ok value => rest value
  | .error err => .done (.error err)

instance : Monad (Tx Reply ε) where
  pure value := Program.done (.ok value)
  bind body rest := Program.bind body (andThen rest)

/-- Leave the body with an error. -/
def fail (err : ε) : Tx Reply ε α := Program.done (.error err)

/-- One statement, as a step of a transaction body. -/
def stmt (s : Stmt) : Tx Reply ε (Reply s) := Program.call s fun reply ↦ .done (.ok reply)

/-- A pure fallible computation, as a step of a transaction body. -/
def ofExcept : Except ε α → Tx Reply ε α
  | .ok value => Program.done (.ok value)
  | .error err => Program.done (.error err)

end Tx

end PaymentRail.Transaction
