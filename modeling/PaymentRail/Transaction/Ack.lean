import Mathlib.Logic.Basic

/-!
# What becomes of a call

A call over a connection is answered, or it fails without an effect, or it has its effect and the answer is
lost.  The caller cannot tell the last two apart.
-/

namespace PaymentRail.Transaction

inductive Ack (ε : Type) where
  | received
  | failed (err : ε)
  | lost (err : ε)

namespace Ack

variable {ε ε' α σ : Type}

instance (ack : Ack ε) : Decidable (ack = .received) :=
  match ack with
  | .received => .isTrue rfl
  | .failed _ | .lost _ => .isFalse nofun

/-- The same with other errors. -/
def map (f : ε → ε') : Ack ε → Ack ε'
  | .received => .received
  | .failed err => .failed (f err)
  | .lost err => .lost (f err)

/-- The error of a call that is not answered. -/
def check : Ack ε → Except ε Unit
  | .received => .ok ()
  | .failed err | .lost err => .error err

/-- The answer to a call and the state after it. -/
def settle (ack : Ack ε) (reply : Except ε α) (before after : σ) : Except ε α × σ :=
  match ack with
  | .received => (reply, after)
  | .failed err => (.error err, before)
  | .lost err => (.error err, after)

variable {ack : Ack ε} {reply : Except ε α} {before after : σ} {result : α}

/-- A call has its effect or none. -/
theorem settle_state (ack : Ack ε) (reply : Except ε α) (before after : σ) :
    (ack.settle reply before after).2 = before ∨ (ack.settle reply before after).2 = after := by
  cases ack
  · exact .inr rfl
  · exact .inl rfl
  · exact .inr rfl

/-- What holds either way holds in the end. -/
theorem settle_cases {P : σ → Prop} (ack : Ack ε) (reply : Except ε α) (hbefore : P before)
    (hafter : P after) : P (ack.settle reply before after).2 := by
  rcases ack.settle_state reply before after with hstate | hstate
  · rw [hstate]
    exact hbefore
  · rw [hstate]
    exact hafter

/-- It has its effect if it is answered. -/
theorem settle_ok (h : (ack.settle reply before after).1 = .ok result) :
    reply = .ok result ∧ (ack.settle reply before after).2 = after := by
  cases ack with
  | received => exact ⟨h, rfl⟩
  | failed err => cases h
  | lost err => cases h

end Ack

end PaymentRail.Transaction
