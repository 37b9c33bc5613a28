import PaymentRail.Codec.BigEndian
import PaymentRail.Codec.Hex

/-!
# Account addresses

`common.Address` by its 20 bytes, read as one big-endian number, with the conversions of the
go-ethereum package `common` that the code uses.  `ofHex` accepts any text: digits are decoded
up to the first that is not hexadecimal, and the result is cut or padded to 20 bytes on the left.
Only a text that `isHexAddress` accepts keeps its bytes.
-/

namespace PaymentRail

/-- A `common.Address`; the zero address stands for a missing recipient. -/
abbrev Address := BitVec 160

/-- `common.FromHex` without the `0x` prefix, if there is one. -/
def dropHexPrefix : List Char → List Char
  | '0' :: 'x' :: rest | '0' :: 'X' :: rest => rest
  | chars => chars

/-- `hex.DecodeString`, whose error is ignored: the bytes before the first bad pair. -/
def decodePairs : List Char → List UInt8
  | high :: low :: rest =>
    match Hex.digitValue high, Hex.digitValue low with
    | some first, some second => UInt8.ofNat (first * 16 + second) :: decodePairs rest
    | _, _ => []
  | _ => []

/-- `common.FromHex`, for texts of ASCII characters: one of odd length gets a digit 0 in front. -/
def fromHex (s : String) : List UInt8 :=
  let digits := dropHexPrefix s.toList
  decodePairs (if digits.length % 2 = 1 then '0' :: digits else digits)

/-- `common.IsHexAddress`. -/
def isHexAddress (s : String) : Bool :=
  let digits := dropHexPrefix s.toList
  digits.length == 40 && digits.all fun c ↦ (Hex.digitValue c).isSome

namespace Address

/-- `Address.Bytes`. -/
def bytes (address : Address) : List UInt8 := BigEndian.bytes 20 address.toNat

/-- `common.BytesToAddress`. -/
def ofBytes (bytes : List UInt8) : Address := BitVec.ofNat 160 (BigEndian.read bytes)

/-- `common.HexToAddress`. -/
def ofHex (s : String) : Address := ofBytes (fromHex s)

@[simp]
theorem length_bytes (address : Address) : address.bytes.length = 20 := BigEndian.length_bytes ..

theorem ofBytes_bytes (address : Address) : ofBytes address.bytes = address := by
  have hlt : address.toNat < 256 ^ 20 := address.isLt
  rw [ofBytes, bytes, BigEndian.read_bytes_of_lt hlt, BitVec.ofNat_toNat, BitVec.setWidth_eq]

theorem bytes_ofBytes {list : List UInt8} (h : list.length = 20) : (ofBytes list).bytes = list := by
  have hlt : BigEndian.read list < 2 ^ 160 := by
    have hread := BigEndian.read_lt list
    rwa [h] at hread
  rw [bytes, ofBytes, BitVec.toNat_ofNat, Nat.mod_eq_of_lt hlt, ← h, BigEndian.bytes_read]

end Address

theorem length_decodePairs {digits : List Char} (h : ∀ c ∈ digits, (Hex.digitValue c).isSome) :
    (decodePairs digits).length = digits.length / 2 := by
  fun_induction decodePairs digits with
  | case1 high low rest first hfirst second hsecond ih =>
    simp only [List.mem_cons, forall_eq_or_imp] at h
    rw [List.length_cons, ih h.2.2, List.length_cons, List.length_cons]
    omega
  | case2 high low rest hbad =>
    simp only [List.mem_cons, forall_eq_or_imp] at h
    obtain ⟨first, hfirst⟩ := Option.isSome_iff_exists.mp h.1
    obtain ⟨second, hsecond⟩ := Option.isSome_iff_exists.mp h.2.1
    exact (hbad first second hfirst hsecond).elim
  | case3 digits hshort =>
    match digits, hshort with
    | [], _ | [_], _ => simp
    | high :: low :: rest, hshort => exact (hshort high low rest rfl).elim

/-- An address keeps the bytes of a text that is one. -/
theorem Address.bytes_ofHex {s : String} (h : isHexAddress s) :
    (Address.ofHex s).bytes = fromHex s := by
  simp only [isHexAddress, Bool.and_eq_true, beq_iff_eq, List.all_eq_true] at h
  obtain ⟨hlength, hdigits⟩ := h
  have hbytes : (fromHex s).length = 20 := by
    rw [fromHex, hlength, if_neg (by decide), length_decodePairs hdigits, hlength]
  exact Address.bytes_ofBytes hbytes

end PaymentRail
