import PaymentRail.Evm.Request

/-!
# The answers of the signer on the wire

`Server.SignTransaction` answers a request that it decoded with the signed transaction or with a gRPC
status that names the kind of the error only (`mapSignError`), and `signerClient.Sign` reads the answer
back.  The sender travels as text with a checksum in its case; the hash of the checksum is a parameter,
and what is read back does not depend on it.
-/

namespace PaymentRail

namespace Address

/-- The case of a digit of `Address.Hex`: a letter is in upper case if the digit of the hash at its
place is above 7. -/
def checksumDigit (hash : List UInt8) (place : ℕ) (c : Char) : Char :=
  let byte := (hash.getD (place / 2) 0).toNat
  let digit := if place % 2 = 0 then byte / 16 else byte % 16
  if '9' < c ∧ 7 < digit then Char.ofNat (c.toNat - 32) else c

/-- `Address.Hex`. -/
def checksumHex (keccak : List UInt8 → List UInt8) (address : Address) : String :=
  let digits := Hex.render 40 address.toNat
  let hash := keccak (digits.map fun c ↦ UInt8.ofNat c.toNat)
  String.ofList ('0' :: 'x' :: digits.mapIdx (checksumDigit hash))

/-- The case of a digit is not part of its value. -/
theorem digitValue_checksumDigit (hash : List UInt8) (place : ℕ) {value : ℕ} (h : value < 16) :
    Hex.digitValue (checksumDigit hash place (Hex.digit value)) = some value := by
  have hupper : '9' < Hex.digit value →
      Hex.digitValue (Char.ofNat ((Hex.digit value).toNat - 32)) = some value := by
    intro hletter
    interval_cases value <;> first | rfl | exact absurd hletter (by decide)
  unfold checksumDigit
  dsimp only
  by_cases hmark : '9' < Hex.digit value ∧
      7 < (if place % 2 = 0 then (hash.getD (place / 2) 0).toNat / 16
        else (hash.getD (place / 2) 0).toNat % 16)
  · rw [if_pos hmark]
    exact hupper hmark.1
  · rw [if_neg hmark]
    exact Hex.digitValue_digit h

/-- Bytes that are written in pairs of digits are read back. -/
theorem readFrom_decodePairs {digits : List Char} {acc value : ℕ} (heven : digits.length % 2 = 0)
    (h : Hex.readFrom acc digits = some value) :
    BigEndian.readFrom acc (decodePairs digits) = value := by
  fun_induction decodePairs digits generalizing acc with
  | case1 high low rest first second hsecond hfirst ih =>
    have hlt : first * 16 + second < 256 := by
      have := Hex.digitValue_lt hfirst
      have := Hex.digitValue_lt hsecond
      omega
    simp only [Hex.readFrom, hfirst, hsecond, Option.bind_some] at h
    rw [List.length_cons, List.length_cons] at heven
    have hacc : (acc * 16 + first) * 16 + second = acc * 256 + (first * 16 + second) := by ring
    rw [hacc] at h
    have hstep : BigEndian.readFrom acc (UInt8.ofNat (first * 16 + second) :: decodePairs rest) =
        BigEndian.readFrom (acc * 256 + (first * 16 + second)) (decodePairs rest) := by
      rw [BigEndian.readFrom, List.foldl_cons, UInt8.toNat_ofNat', Nat.mod_eq_of_lt hlt]
      rfl
    rw [hstep]
    exact ih (by omega) h
  | case2 high low rest hbad =>
    simp only [Hex.readFrom] at h
    obtain ⟨first, hfirst, h⟩ := Option.bind_eq_some_iff.mp h
    obtain ⟨second, hsecond, -⟩ := Option.bind_eq_some_iff.mp h
    exact (hbad first second hfirst hsecond).elim
  | case3 digits hshort =>
    rcases digits with _ | ⟨high, _ | ⟨low, rest⟩⟩
    · exact Option.some.inj h
    · simp at heven
    · exact (hshort high low rest rfl).elim

/-- Digits of the same values denote the same number. -/
theorem readFrom_mapIdx {marked : ℕ → Char → Char} (acc width n : ℕ)
    (h : ∀ place value, value < 16 → Hex.digitValue (marked place (Hex.digit value)) = some value) :
    Hex.readFrom acc ((Hex.render width n).mapIdx marked) = Hex.readFrom acc (Hex.render width n) := by
  induction width generalizing n with
  | zero => rfl
  | succ width ih =>
    have hlt := Nat.mod_lt n (by norm_num : 16 > 0)
    rw [Hex.render, List.mapIdx_append, Hex.readFrom_append, Hex.readFrom_append, ih]
    congr 1
    funext mid
    simp only [List.mapIdx_cons, List.mapIdx_nil, Hex.readFrom, h _ _ hlt, Hex.digitValue_digit hlt]

theorem fromHex_mark {digits : List Char} (h : digits.length % 2 = 0) :
    fromHex (String.ofList ('0' :: 'x' :: digits)) = decodePairs digits := by
  have hmark : dropHexPrefix ('0' :: 'x' :: digits) = digits := rfl
  rw [fromHex, String.toList_ofList, hmark]
  exact congrArg decodePairs (if_neg (by omega))

/-- An address is read back from its text, whatever the case of the letters says. -/
theorem ofHex_checksumHex (keccak : List UInt8 → List UInt8) (address : Address) :
    ofHex (checksumHex keccak address) = address := by
  generalize hhash : keccak ((Hex.render 40 address.toNat).map fun c ↦ UInt8.ofNat c.toNat) = hash
  have hlength : ((Hex.render 40 address.toNat).mapIdx (checksumDigit hash)).length % 2 = 0 := by
    rw [List.length_mapIdx, Hex.length_render]
  have hlt : address.toNat < 16 ^ 40 := address.isLt
  have hread : Hex.readFrom 0 ((Hex.render 40 address.toNat).mapIdx (checksumDigit hash)) =
      some address.toNat := by
    rw [readFrom_mapIdx _ _ _ fun place value ↦ digitValue_checksumDigit hash place,
      Hex.readFrom_render, zero_mul, zero_add, Nat.mod_eq_of_lt hlt]
  rw [ofHex, checksumHex, hhash, fromHex_mark hlength, ofBytes, BigEndian.read,
    readFrom_decodePairs hlength hread, BitVec.ofNat_toNat, BitVec.setWidth_eq]

end Address

namespace Evm

/-- The gRPC codes of the server. -/
inductive Code where
  | invalidArgument
  | notFound
  | resourceExhausted
  | internal
  deriving DecidableEq

def Code.string : Code → String
  | .invalidArgument => "InvalidArgument"
  | .notFound => "NotFound"
  | .resourceExhausted => "ResourceExhausted"
  | .internal => "Internal"

/-- An error of the server. -/
structure Status where
  code : Code
  message : String
  deriving DecidableEq

def mapSignError (err : Signer.Err) : Status :=
  if err.is .errUnknownKey then ⟨.notFound, "unknown key"⟩
  else if err.is .errChainMismatch then ⟨.invalidArgument, "chain_id does not match key"⟩
  else if err.is .errMalformedTx then ⟨.invalidArgument, "malformed transaction"⟩
  else if err.is .errSpendLimitExceeded then ⟨.resourceExhausted, "spend limit exceeded"⟩
  else ⟨.internal, "internal signing error"⟩

def InvalidArgument.status (err : InvalidArgument) : Status := ⟨.invalidArgument, err.message⟩

/-- `signerpb.SignTransactionResponse`. -/
structure SignTransactionResponse where
  rawTransaction : List UInt8
  txHash : List UInt8
  «from» : String
  deriving DecidableEq

/-- The answer of `SignTransaction` once the signer has its own. -/
def respond (keccak : List UInt8 → List UInt8) (result : Except Signer.Err Signer.SignedTx) :
    Except Status SignTransactionResponse :=
  match result with
  | .error err => .error (mapSignError err)
  | .ok signed =>
    .ok ⟨signed.rawTransaction, BigEndian.bytes 32 signed.txHash.toNat,
      signed.from.checksumHex keccak⟩

/-- What `signerClient.Sign` makes of an answer. -/
def readResponse (reply : Except Status SignTransactionResponse) : Except String Signer.SignedTx :=
  match reply with
  | .error status => .error ("signer rpc " ++ status.code.string ++ ": rpc error: code = " ++
      status.code.string ++ " desc = " ++ status.message)
  | .ok resp => .ok ⟨resp.rawTransaction, BitVec.ofNat 256 (BigEndian.read resp.txHash),
      Address.ofHex resp.from⟩

/-- A signed transaction arrives as it left the signer. -/
theorem readResponse_ok (keccak : List UInt8 → List UInt8) (signed : Signer.SignedTx) :
    readResponse (respond keccak (.ok signed)) = .ok signed := by
  have hlt : signed.txHash.toNat < 256 ^ 32 := signed.txHash.isLt
  simp only [respond, readResponse, BigEndian.read_bytes_of_lt hlt, BitVec.ofNat_toNat,
    BitVec.setWidth_eq, Address.ofHex_checksumHex]

/-- Nothing else arrives as a signed transaction. -/
theorem readResponse_eq_ok {keccak : List UInt8 → List UInt8}
    {result : Except Signer.Err Signer.SignedTx} {signed : Signer.SignedTx} :
    readResponse (respond keccak result) = .ok signed ↔ result = .ok signed := by
  cases result with
  | error err => simp [respond, readResponse]
  | ok other => rw [readResponse_ok, Except.ok.injEq, Except.ok.injEq]

end Evm

end PaymentRail
