import PaymentRail.Codec.Hex

/-!
# UUIDs and chain hashes

The two identifier types of the repository in their text forms: `uuid.UUID` with its `String`
method and `uuid.Parse`, and `common.Hash` with `Hex`, `common.HexToHash` and the watcher's boundary check
`isHexTxHash`.  Both are modelled by their 16 and 32 bytes, read as one big-endian number.
-/

namespace PaymentRail

/-- A `uuid.UUID`; byte order is numeric order. -/
abbrev UUID := BitVec 128

namespace UUID

instance lawfulBEq : LawfulBEq UUID := inferInstance

/-- The 32 hexadecimal digits of a UUID. -/
def digits (id : UUID) : List Char := Hex.render 32 id.toNat

/-- The text form split in groups of 8, 4, 4, 4 and 12 digits. -/
def chars (id : UUID) : List Char :=
  id.digits.take 8 ++ '-' :: ((id.digits.drop 8).take 4 ++ '-' :: ((id.digits.drop 12).take 4 ++
    '-' :: ((id.digits.drop 16).take 4 ++ '-' :: id.digits.drop 20)))

/-- `UUID.String`. -/
def string (id : UUID) : String := String.ofList id.chars

/-- The bytes of a text, each as a character. -/
def byteChars (s : String) : List Char :=
  (s.toList.flatMap String.utf8EncodeChar).map fun byte ↦ Char.ofNat byte.toNat

/-- Why a text is not a UUID. -/
inductive ParseError where
  | invalidLength (length : ℕ)
  | invalidPrefix (text : String)
  | invalidFormat

def ofDigits (digits : List Char) : Except ParseError UUID :=
  (Hex.read digits).elim (.error .invalidFormat) fun n ↦ .ok (BitVec.ofNat 128 n)

/-- Read groups of 8, 4, 4, 4 and 12 digits with dashes between them; what follows is ignored. -/
def ofGroups (bytes : List Char) : Except ParseError UUID :=
  if bytes[8]? = some '-' ∧ bytes[13]? = some '-' ∧ bytes[18]? = some '-' ∧ bytes[23]? = some '-' then
    ofDigits (bytes.take 8 ++ ((bytes.drop 9).take 4 ++ ((bytes.drop 14).take 4 ++
      ((bytes.drop 19).take 4 ++ (bytes.drop 24).take 12))))
  else .error .invalidFormat

/-- `uuid.Parse`: the text form, with `urn:uuid:` before it, with a character on either side, or only
the digits. -/
def parse (s : String) : Except ParseError UUID :=
  let bytes := byteChars s
  if bytes.length = 36 then ofGroups bytes
  else if bytes.length = 45 then
    if (bytes.take 9).map Char.toLower = "urn:uuid:".toList then ofGroups (bytes.drop 9)
    else .error (.invalidPrefix (String.ofList (bytes.take 9)))
  else if bytes.length = 38 then ofGroups (bytes.drop 1)
  else if bytes.length = 32 then ofDigits bytes
  else .error (.invalidLength bytes.length)

/-- The groups are consecutive. -/
theorem take_append_groups (id : UUID) :
    id.digits.take 8 ++ ((id.digits.drop 8).take 4 ++ ((id.digits.drop 12).take 4 ++
      ((id.digits.drop 16).take 4 ++ id.digits.drop 20))) = id.digits := by
  have hgroups : ∀ n m, (id.digits.drop n).take m ++ id.digits.drop (n + m) = id.digits.drop n := by
    intro n m
    rw [← List.drop_drop]
    exact List.take_append_drop m _
  rw [hgroups 16 4, hgroups 12 4, hgroups 8 4]
  exact List.take_append_drop 8 _

theorem length_chars (id : UUID) : id.chars.length = 36 := by
  simp [chars, digits]

/-- Dropping the dashes of the text form leaves the digits. -/
theorem filter_chars (id : UUID) : id.chars.filter (· ≠ '-') = id.digits := by
  have hdigit : ∀ group : List Char, (∀ c ∈ group, c ∈ id.digits) →
      group.filter (· ≠ '-') = group := by
    intro group hgroup
    refine List.filter_eq_self.mpr fun c hc ↦ ?_
    have hsome := Hex.digitValue_of_mem_render (hgroup c hc)
    have hne : c ≠ '-' := by
      rintro rfl
      exact absurd hsome (by decide)
    simpa using hne
  have hdrop : ∀ n, ∀ c ∈ id.digits.drop n, c ∈ id.digits := fun n c hc ↦ List.mem_of_mem_drop hc
  have htake : ∀ n m, ∀ c ∈ (id.digits.drop n).take m, c ∈ id.digits := fun n m c hc ↦
    hdrop n c (List.mem_of_mem_take hc)
  have hfirst := hdigit (id.digits.take 8) fun c hc ↦ List.mem_of_mem_take hc
  have hdash : ∀ rest : List Char,
      ('-' :: rest).filter (· ≠ '-') = rest.filter (· ≠ '-') := fun rest ↦
    List.filter_cons_of_neg (by simp)
  simp only [chars, List.filter_append, hdash, hfirst, hdigit _ (htake 8 4), hdigit _ (htake 12 4),
    hdigit _ (htake 16 4), hdigit _ (hdrop 20)]
  exact id.take_append_groups

theorem byteChars_ofList {chars : List Char} (h : ∀ c ∈ chars, c.toNat < 128) :
    byteChars (String.ofList chars) = chars := by
  rw [byteChars, String.toList_ofList]
  induction chars with
  | nil => rfl
  | cons c rest ih =>
    have hc : c.toNat < 128 := h c List.mem_cons_self
    have hencode : String.utf8EncodeChar c = [UInt8.ofNat c.toNat] := if_pos (Nat.le_of_lt_succ hc)
    have hbyte : (UInt8.ofNat c.toNat).toNat = c.toNat := UInt8.toNat_ofNat_of_lt' (hc.trans (by decide))
    rw [List.flatMap_cons, hencode, List.map_append, ih fun c hc ↦ h c (List.mem_cons_of_mem _ hc)]
    simp only [List.map_cons, List.map_nil, hbyte, Char.ofNat_toNat, List.singleton_append]

/-- The digits and dashes of a text form are ASCII. -/
theorem toNat_lt_of_mem_chars {id : UUID} {c : Char} (h : c ∈ id.chars) : c.toNat < 128 := by
  by_cases hdash : c = '-'
  · subst hdash
    decide
  · have hdigit : c ∈ id.digits := by
      rw [← filter_chars]
      exact List.mem_filter.mpr ⟨h, by simpa using hdash⟩
    have hsome := Hex.digitValue_of_mem_render hdigit
    by_contra hlt
    rw [Hex.digitValue, if_neg (by omega), if_neg (by omega), if_neg (by omega)] at hsome
    cases hsome

theorem ofGroups_append {a b c d e : List Char} (ha : a.length = 8) (hb : b.length = 4)
    (hc : c.length = 4) (hd : d.length = 4) (he : e.length = 12) :
    ofGroups (a ++ '-' :: (b ++ '-' :: (c ++ '-' :: (d ++ '-' :: e)))) =
      ofDigits (a ++ (b ++ (c ++ (d ++ e)))) := by
  have hskip : ∀ (group rest : List Char) (n : ℕ),
      (group ++ '-' :: rest).drop (group.length + 1 + n) = rest.drop n := by
    intro group rest n
    rw [Nat.add_assoc, List.drop_length_add_append, Nat.add_comm, List.drop_succ_cons]
  have hb' := hskip a (b ++ '-' :: (c ++ '-' :: (d ++ '-' :: e)))
  have hc' := hskip b (c ++ '-' :: (d ++ '-' :: e))
  have hd' := hskip c (d ++ '-' :: e)
  have he' := hskip d e
  rw [ha] at hb'
  rw [hb] at hc'
  rw [hc] at hd'
  rw [hd] at he'
  rw [ofGroups, if_pos (by simp [ha, hb, hc, hd, he]), hb' 0, hb' 5, hb' 10, hb' 15, hc' 0, hc' 5, hc' 10,
    hd' 0, hd' 5, he' 0]
  simp only [List.drop_zero, List.take_left' ha, List.take_left' hb, List.take_left' hc,
    List.take_left' hd, List.take_of_length_le he.le]

/-- The text form of a UUID is read back. -/
theorem parse_string (id : UUID) : parse id.string = .ok id := by
  have hbytes : byteChars id.string = id.chars := byteChars_ofList fun _ ↦ toNat_lt_of_mem_chars
  have hlength : id.digits.length = 32 := Hex.length_render ..
  have hread : Hex.read id.digits = some id.toNat := by
    have hwidth : (16 : ℕ) ^ 32 = 2 ^ 128 := by norm_num
    rw [digits, Hex.read_render, hwidth, Nat.mod_eq_of_lt id.isLt]
  have hgroups : ofGroups id.chars = ofDigits id.digits := by
    rw [chars, ofGroups_append (by simp [hlength]) (by simp [hlength]) (by simp [hlength])
      (by simp [hlength]) (by simp [hlength])]
    exact congrArg ofDigits id.take_append_groups
  simp only [parse, hbytes, length_chars, if_true, hgroups, ofDigits, hread, Option.elim_some, BitVec.ofNat_toNat, BitVec.setWidth_eq]

theorem string_injective : Function.Injective string := by
  intro first second h
  have hparse := congrArg parse h
  rwa [parse_string, parse_string, Except.ok.injEq] at hparse

end UUID

/-- A `common.Hash`: the identity of a block or a transaction on chain. -/
abbrev Hash := BitVec 256

namespace Hash

/-- `Hash.Hex`: the `0x` form with 64 lower-case digits. -/
def hex (hash : Hash) : String := String.ofList ('0' :: 'x' :: Hex.render 64 hash.toNat)

end Hash

/-- `isHexTxHash`: `0x` or `0X` followed by 64 hexadecimal digits. -/
def isHexTxHash (s : String) : Bool :=
  match s.toList with
  | '0' :: mark :: digits =>
    (mark == 'x' || mark == 'X') && digits.length == 64 && (Hex.read digits).isSome
  | _ => false

/-- `common.HexToHash` on the strings that pass `isHexTxHash`; the zero hash on any other. -/
def hexToHash (s : String) : Hash := BitVec.ofNat 256 ((Hex.read (s.toList.drop 2)).getD 0)

theorem isHexTxHash_hex (hash : Hash) : isHexTxHash hash.hex = true := by
  simp [isHexTxHash, Hash.hex, Hex.read_render]

/-- The text form of a hash reads back as the hash. -/
theorem hexToHash_hex (hash : Hash) : hexToHash hash.hex = hash := by
  have hwidth : (16 : ℕ) ^ 64 = 2 ^ 256 := by norm_num
  have hread : Hex.read (hash.hex.toList.drop 2) = some hash.toNat := by
    rw [Hash.hex, String.toList_ofList, List.drop_succ_cons, List.drop_succ_cons, List.drop_zero,
      Hex.read_render, hwidth, Nat.mod_eq_of_lt hash.isLt]
  rw [hexToHash, hread, Option.getD_some, BitVec.ofNat_toNat, BitVec.setWidth_eq]

theorem Hash.hex_ne_empty (hash : Hash) : hash.hex ≠ "" := by
  intro h
  have hlist := congrArg String.toList h
  rw [Hash.hex, String.toList_ofList] at hlist
  cases hlist

end PaymentRail
