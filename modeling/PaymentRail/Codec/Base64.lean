import Mathlib.Data.Nat.Notation
import Mathlib.Data.List.Basic
import Mathlib.Tactic.IntervalCases

/-!
# Base64 for URLs

`base64.RawURLEncoding`: groups of three bytes as four symbols, the last group without padding.
Decoding passes over line breaks and does not look at the bits that a short group leaves over.
-/

namespace PaymentRail.Base64

/-- The symbol of a value below 64. -/
def symbol (value : ℕ) : Char :=
  if value < 26 then Char.ofNat (65 + value)
  else if value < 52 then Char.ofNat (71 + value)
  else if value < 62 then Char.ofNat (value - 4)
  else if value = 62 then '-'
  else '_'

def symbolValue (c : Char) : Option ℕ :=
  if 65 ≤ c.toNat ∧ c.toNat ≤ 90 then some (c.toNat - 65)
  else if 97 ≤ c.toNat ∧ c.toNat ≤ 122 then some (c.toNat - 71)
  else if 48 ≤ c.toNat ∧ c.toNat ≤ 57 then some (c.toNat + 4)
  else if c = '-' then some 62
  else if c = '_' then some 63
  else none

/-- The values of the symbols of some bytes. -/
def split : List UInt8 → List ℕ
  | a :: b :: c :: rest =>
    let group := a.toNat * 65536 + b.toNat * 256 + c.toNat
    group / 262144 :: group / 4096 % 64 :: group / 64 % 64 :: group % 64 :: split rest
  | [a, b] =>
    let group := a.toNat * 65536 + b.toNat * 256
    [group / 262144, group / 4096 % 64, group / 64 % 64]
  | [a] => [a.toNat / 4, a.toNat * 16 % 64]
  | [] => []

/-- The bytes of some symbols. -/
def join : List ℕ → Option (List UInt8)
  | u :: v :: w :: x :: rest =>
    let group := u * 262144 + v * 4096 + w * 64 + x
    (join rest).map fun bytes ↦
      .ofNat (group / 65536) :: .ofNat (group / 256 % 256) :: .ofNat (group % 256) :: bytes
  | [u, v, w] =>
    let group := u * 262144 + v * 4096 + w * 64
    some [.ofNat (group / 65536), .ofNat (group / 256 % 256)]
  | [u, v] => some [.ofNat (u * 4 + v / 16)]
  | [_] => none
  | [] => some []

def encode (bytes : List UInt8) : List Char := (split bytes).map symbol

/-- The values of the symbols of a text. -/
def values : List Char → Option (List ℕ)
  | [] => some []
  | c :: rest =>
    if c = '\n' ∨ c = '\r' then values rest
    else (symbolValue c).bind fun value ↦ (values rest).map (value :: ·)

def decode (text : List Char) : Option (List UInt8) := (values text).bind join

theorem symbolValue_symbol {value : ℕ} (h : value < 64) : symbolValue (symbol value) = some value := by
  interval_cases value <;> rfl

theorem symbol_ne_break {value : ℕ} (h : value < 64) :
    ¬(symbol value = '\n' ∨ symbol value = '\r') := by
  interval_cases value <;> decide

theorem values_map_symbol {list : List ℕ} (h : ∀ value ∈ list, value < 64) :
    values (list.map symbol) = some list := by
  induction list with
  | nil => rfl
  | cons value rest ih =>
    have hvalue := h value (List.mem_cons_self ..)
    rw [List.map_cons, values, if_neg (symbol_ne_break hvalue), symbolValue_symbol hvalue,
      Option.bind_some, ih fun other hother ↦ h other (List.mem_cons_of_mem _ hother)]
    rfl

theorem lt_of_mem_split {bytes : List UInt8} {value : ℕ} (h : value ∈ split bytes) : value < 64 := by
  induction bytes using split.induct with
  | case1 a b c rest ih =>
    have ha := a.toNat_lt
    have hb := b.toNat_lt
    have hc := c.toNat_lt
    simp only [split, List.mem_cons] at h
    rcases h with rfl | rfl | rfl | rfl | h
    · omega
    · omega
    · omega
    · omega
    · exact ih h
  | case2 a b =>
    have ha := a.toNat_lt
    have hb := b.toNat_lt
    simp only [split, List.mem_cons, List.not_mem_nil, or_false] at h
    omega
  | case3 a =>
    have ha := a.toNat_lt
    simp only [split, List.mem_cons, List.not_mem_nil, or_false] at h
    omega
  | case4 => cases h

theorem ofNat_eq {byte : UInt8} {n : ℕ} (h : n = byte.toNat) : UInt8.ofNat n = byte := by
  rw [h, UInt8.ofNat_toNat]

/-- The groups are put together again. -/
theorem join_split (bytes : List UInt8) : join (split bytes) = some bytes := by
  induction bytes using split.induct with
  | case1 a b c rest ih =>
    have ha := a.toNat_lt
    have hb := b.toNat_lt
    have hc := c.toNat_lt
    simp only [split, join, ih, Option.map_some, Option.some.injEq, List.cons.injEq, and_true]
    exact ⟨ofNat_eq (by omega), ofNat_eq (by omega), ofNat_eq (by omega)⟩
  | case2 a b =>
    have ha := a.toNat_lt
    have hb := b.toNat_lt
    simp only [split, join, Option.some.injEq, List.cons.injEq, and_true]
    exact ⟨ofNat_eq (by omega), ofNat_eq (by omega)⟩
  | case3 a =>
    have ha := a.toNat_lt
    simp only [split, join, Option.some.injEq, List.cons.injEq, and_true]
    exact ofNat_eq (by omega)
  | case4 => rfl

theorem decode_encode (bytes : List UInt8) : decode (encode bytes) = some bytes := by
  rw [decode, encode, values_map_symbol fun _ ↦ lt_of_mem_split]
  exact join_split bytes

end PaymentRail.Base64
