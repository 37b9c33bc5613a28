import Mathlib.Data.Nat.Log
import Mathlib.Data.List.Induction
import Mathlib.Tactic.Ring

/-!
# Big-endian bytes

A number as big-endian bytes: in a fixed width (`big.Int.FillBytes`), in as few bytes as it needs
(`big.Int.Bytes`), and read back (`big.Int.SetBytes`).
-/

namespace PaymentRail.BigEndian

/-- The last `width` bytes of `n`, most significant first. -/
def bytes : ℕ → ℕ → List UInt8
  | 0, _ => []
  | width + 1, n => bytes width (n / 256) ++ [UInt8.ofNat n]

/-- Read bytes most significant first, continuing from `acc`. -/
def readFrom (acc : ℕ) (bytes : List UInt8) : ℕ :=
  bytes.foldl (fun value byte ↦ value * 256 + byte.toNat) acc

/-- The number that bytes denote. -/
def read (bytes : List UInt8) : ℕ := readFrom 0 bytes

/-- As few bytes as a number needs: none for zero. -/
def minimal (n : ℕ) : List UInt8 := if n = 0 then [] else bytes (Nat.log 256 n + 1) n

@[simp]
theorem length_bytes (width n : ℕ) : (bytes width n).length = width := by
  induction width generalizing n with
  | zero => rfl
  | succ width ih => rw [bytes, List.length_append, ih, List.length_singleton]

theorem readFrom_append (acc : ℕ) (first second : List UInt8) :
    readFrom acc (first ++ second) = readFrom (readFrom acc first) second := List.foldl_append

theorem readFrom_bytes (acc width n : ℕ) :
    readFrom acc (bytes width n) = acc * 256 ^ width + n % 256 ^ width := by
  induction width generalizing n with
  | zero => simp [bytes, readFrom, Nat.mod_one]
  | succ width ih =>
    have hsplit : n % 256 ^ (width + 1) = 256 * (n / 256 % 256 ^ width) + n % 256 := by
      rw [pow_succ', Nat.mod_mul]
      ring
    rw [bytes, readFrom_append, ih, hsplit]
    simp only [readFrom, List.foldl_cons, List.foldl_nil, UInt8.toNat_ofNat']
    ring

/-- Reading a fixed width gives the number back, up to the width. -/
theorem read_bytes (width n : ℕ) : read (bytes width n) = n % 256 ^ width := by
  simp [read, readFrom_bytes]

theorem read_bytes_of_lt {width n : ℕ} (h : n < 256 ^ width) : read (bytes width n) = n := by
  rw [read_bytes, Nat.mod_eq_of_lt h]

theorem read_minimal (n : ℕ) : read (minimal n) = n := by
  unfold minimal
  split
  · next hzero => rw [hzero]; rfl
  · exact read_bytes_of_lt (Nat.lt_pow_succ_log_self (by norm_num) n)

theorem length_minimal_le {width n : ℕ} (h : n < 256 ^ width) : (minimal n).length ≤ width := by
  unfold minimal
  split
  · exact Nat.zero_le width
  · next hzero =>
    rw [length_bytes]
    exact Nat.log_lt_of_lt_pow hzero h

theorem readFrom_lt {acc bound : ℕ} (list : List UInt8) (h : acc < bound) :
    readFrom acc list < bound * 256 ^ list.length := by
  induction list generalizing acc bound with
  | nil => simpa [readFrom] using h
  | cons byte rest ih =>
    have hbyte := byte.toNat_lt
    have hnext : acc * 256 + byte.toNat < bound * 256 := by omega
    have hrest := ih hnext
    rw [List.length_cons, pow_succ', ← mul_assoc]
    exact hrest

theorem read_lt (list : List UInt8) : read list < 256 ^ list.length := by
  simpa [read] using readFrom_lt list Nat.zero_lt_one

/-- Bytes are determined by their number and how many they are. -/
theorem bytes_read (list : List UInt8) : bytes list.length (read list) = list := by
  induction list using List.reverseRecOn with
  | nil => rfl
  | append_singleton front last ih =>
    have hread : read (front ++ [last]) = read front * 256 + last.toNat := by
      simp [read, readFrom, List.foldl_append]
    have hlast := last.toNat_lt
    have hdiv : (read front * 256 + last.toNat) / 256 = read front := by omega
    have hbyte : UInt8.ofNat (read front * 256 + last.toNat) = last := by
      apply UInt8.toNat.inj
      rw [UInt8.toNat_ofNat']
      omega
    rw [List.length_append, List.length_singleton, bytes, hread, hdiv, hbyte, ih]

end PaymentRail.BigEndian
