import Mathlib.Data.Nat.Notation
import Mathlib.Data.List.DropRight
import Mathlib.Tactic.IntervalCases
import Mathlib.Tactic.Ring

/-!
# Fixed-width decimals

Numbers in a fixed number of decimal digits, and fractions of a fixed number of digits whose zeros at
the end are left out, as in a time of day.
-/

namespace PaymentRail.Decimal

def digit (value : ℕ) : Char := Char.ofNat (48 + value)

def digitValue (c : Char) : Option ℕ :=
  if 48 ≤ c.toNat ∧ c.toNat ≤ 57 then some (c.toNat - 48) else none

def isDigit (c : Char) : Bool := (digitValue c).isSome

theorem digitValue_digit {value : ℕ} (h : value < 10) : digitValue (digit value) = some value := by
  interval_cases value <;> rfl

/-- The last `width` digits of a number, most significant first. -/
def render : ℕ → ℕ → List Char
  | 0, _ => []
  | width + 1, n => render width (n / 10) ++ [digit (n % 10)]

@[simp]
theorem length_render (width n : ℕ) : (render width n).length = width := by
  induction width generalizing n with
  | zero => rfl
  | succ width ih => rw [render, List.length_append, ih, List.length_singleton]

/-- Read digits most significant first, continuing from `acc`. -/
def readFrom (acc : ℕ) : List Char → Option ℕ
  | [] => some acc
  | c :: rest => (digitValue c).bind fun value ↦ readFrom (acc * 10 + value) rest

def read (digits : List Char) : Option ℕ := readFrom 0 digits

theorem readFrom_append (acc : ℕ) (first second : List Char) :
    readFrom acc (first ++ second) = (readFrom acc first).bind fun mid ↦ readFrom mid second := by
  induction first generalizing acc with
  | nil => rfl
  | cons c rest ih =>
    simp only [List.cons_append, readFrom]
    cases digitValue c with
    | none => rfl
    | some value => exact ih _

theorem readFrom_render (acc width n : ℕ) :
    readFrom acc (render width n) = some (acc * 10 ^ width + n % 10 ^ width) := by
  induction width generalizing n with
  | zero => simp [render, readFrom, Nat.mod_one]
  | succ width ih =>
    have hlast := digitValue_digit (Nat.mod_lt n (by norm_num : 10 > 0))
    have hsplit : n % 10 ^ (width + 1) = 10 * (n / 10 % 10 ^ width) + n % 10 := by
      rw [pow_succ', Nat.mod_mul]
      ring
    rw [render, readFrom_append, ih, Option.bind_some]
    simp only [readFrom, hlast, Option.bind_some, hsplit, Option.some.injEq]
    ring

theorem read_render {width n : ℕ} (h : n < 10 ^ width) : read (render width n) = some n := by
  rw [read, readFrom_render, Nat.zero_mul, Nat.zero_add, Nat.mod_eq_of_lt h]

theorem isDigit_of_mem_render {width n : ℕ} {c : Char} (h : c ∈ render width n) : isDigit c := by
  induction width generalizing n with
  | zero => simp [render] at h
  | succ width ih =>
    rw [render, List.mem_append, List.mem_singleton] at h
    rcases h with h | rfl
    · exact ih h
    · rw [isDigit, digitValue_digit (Nat.mod_lt n (by norm_num))]
      rfl

/-- Digits, at least one. -/
def natural (digits : List Char) : Option ℕ := if digits = [] then none else read digits

/-- `strconv.Atoi`. -/
def atoi (s : String) : Option ℤ :=
  let value : Option ℤ :=
    match s.toList with
    | '+' :: digits => (natural digits).map fun n ↦ (n : ℤ)
    | '-' :: digits => (natural digits).map fun n ↦ -(n : ℤ)
    | digits => (natural digits).map fun n ↦ (n : ℤ)
  value.filter fun n ↦ -2 ^ 63 ≤ n ∧ n < 2 ^ 63

/-! ### Fractions -/

/-- The digits of a fraction without the zeros at its end. -/
def trimZeros (digits : List Char) : List Char := digits.rdropWhile (· = '0')

/-- The digits of a fraction as a number of `width` digits. -/
def readFraction (width : ℕ) (digits : List Char) : Option ℕ :=
  (read (digits.take width)).map fun n ↦ n * 10 ^ (width - (digits.take width).length)

theorem readFrom_replicate (acc count : ℕ) :
    readFrom acc (List.replicate count '0') = some (acc * 10 ^ count) := by
  induction count generalizing acc with
  | zero => simp [readFrom]
  | succ count ih =>
    have hzero : digitValue '0' = some 0 := rfl
    rw [List.replicate_succ, readFrom, hzero, Option.bind_some, ih, Option.some.injEq]
    ring

/-- What is left out are zeros. -/
theorem exists_trimZeros_append (digits : List Char) :
    ∃ count, digits = trimZeros digits ++ List.replicate count '0' := by
  refine ⟨(digits.rtakeWhile (· = '0')).length, ?_⟩
  have hzeros : digits.rtakeWhile (· = '0') =
      List.replicate (digits.rtakeWhile (· = '0')).length '0' := by
    refine List.eq_replicate_of_mem fun c hc ↦ ?_
    simpa using List.mem_rtakeWhile_imp hc
  rw [← hzeros]
  exact (List.rdropWhile_append_rtakeWhile ..).symm

theorem readFraction_trimZeros {width n : ℕ} (h : n < 10 ^ width) :
    readFraction width (trimZeros (render width n)) = some n := by
  obtain ⟨count, hcount⟩ := exists_trimZeros_append (render width n)
  generalize htrimmed : trimZeros (render width n) = trimmed at hcount
  have hlength : trimmed.length + count = width := by
    have := congrArg List.length hcount
    simpa using this.symm
  have hread := read_render h
  rw [hcount, read, readFrom_append] at hread
  rw [readFraction, List.take_of_length_le (by omega), read]
  cases hvalue : readFrom 0 trimmed with
  | none =>
    rw [hvalue] at hread
    cases hread
  | some value =>
    rw [hvalue, Option.bind_some, readFrom_replicate] at hread
    rw [Option.map_some, (by omega : width - trimmed.length = count)]
    exact hread

end PaymentRail.Decimal
