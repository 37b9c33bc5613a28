import Mathlib.Data.Nat.Notation
import Mathlib.Data.List.Basic
import Mathlib.Tactic.IntervalCases
import Mathlib.Tactic.Ring

/-!
# Fixed-width hexadecimal

Big-endian rendering of a number in a fixed number of hexadecimal digits, and its reading back.
Rendering uses lower-case digits; reading accepts both cases.
-/

namespace PaymentRail.Hex

/-- The lower-case digit of a value below sixteen. -/
def digit (value : ℕ) : Char := Char.ofNat (if value < 10 then 48 + value else 87 + value)

/-- The value of a digit in either case. -/
def digitValue (c : Char) : Option ℕ :=
  if 48 ≤ c.toNat ∧ c.toNat ≤ 57 then some (c.toNat - 48)
  else if 97 ≤ c.toNat ∧ c.toNat ≤ 102 then some (c.toNat - 87)
  else if 65 ≤ c.toNat ∧ c.toNat ≤ 70 then some (c.toNat - 55)
  else none

theorem digitValue_digit {value : ℕ} (h : value < 16) : digitValue (digit value) = some value := by
  interval_cases value <;> rfl

theorem digitValue_lt {c : Char} {value : ℕ} (h : digitValue c = some value) : value < 16 := by
  unfold digitValue at h
  split_ifs at h <;> cases h <;> omega

/-- The last `width` hexadecimal digits of `n`, most significant first. -/
def render : ℕ → ℕ → List Char
  | 0, _ => []
  | width + 1, n => render width (n / 16) ++ [digit (n % 16)]

@[simp]
theorem length_render (width n : ℕ) : (render width n).length = width := by
  induction width generalizing n with
  | zero => rfl
  | succ width ih => rw [render, List.length_append, ih, List.length_singleton]

/-- Read digits most significant first, continuing from `acc`; `none` on a character that is not
a digit. -/
def readFrom (acc : ℕ) : List Char → Option ℕ
  | [] => some acc
  | c :: rest => (digitValue c).bind fun value ↦ readFrom (acc * 16 + value) rest

/-- The number a digit string denotes. -/
def read (digits : List Char) : Option ℕ := readFrom 0 digits

theorem readFrom_append (acc : ℕ) (first second : List Char) :
    readFrom acc (first ++ second) = (readFrom acc first).bind fun mid ↦ readFrom mid second := by
  induction first generalizing acc with
  | nil => rfl
  | cons c rest ih =>
    simp only [List.cons_append, readFrom]
    cases digitValue c with
    | none => rfl
    | some value => exact ih _

/-- Reading what was rendered gives the number back, up to the width. -/
theorem readFrom_render (acc width n : ℕ) :
    readFrom acc (render width n) = some (acc * 16 ^ width + n % 16 ^ width) := by
  induction width generalizing n with
  | zero => simp [render, readFrom, Nat.mod_one]
  | succ width ih =>
    have hlast := digitValue_digit (Nat.mod_lt n (by norm_num : 16 > 0))
    have hsplit : n % 16 ^ (width + 1) = 16 * (n / 16 % 16 ^ width) + n % 16 := by
      rw [pow_succ', Nat.mod_mul]
      ring
    rw [render, readFrom_append, ih, Option.bind_some]
    simp only [readFrom, hlast, Option.bind_some, hsplit, Option.some.injEq]
    ring

theorem read_render (width n : ℕ) : read (render width n) = some (n % 16 ^ width) := by
  simp [read, readFrom_render]

/-- Every rendered character is a digit. -/
theorem digitValue_of_mem_render {width n : ℕ} {c : Char} (h : c ∈ render width n) :
    (digitValue c).isSome := by
  induction width generalizing n with
  | zero => simp [render] at h
  | succ width ih =>
    rw [render, List.mem_append, List.mem_singleton] at h
    rcases h with h | rfl
    · exact ih h
    · rw [digitValue_digit (Nat.mod_lt n (by norm_num))]
      rfl

end PaymentRail.Hex
