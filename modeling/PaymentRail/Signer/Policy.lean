import PaymentRail.Codec.Address
import PaymentRail.Codec.Identifier
import PaymentRail.Transaction.Fault

/-!
# The trust boundary of the signer

`internal/signer`: what a request must satisfy before its key is used (`validate`), the amount that
is charged for it (`chargedAmount`), and the transaction that is signed for it (`signTx`).

Numbers of arbitrary size are pointers in the code and optional here.  The defensive copy of a
request is the identity on values.  Keys and signatures are byte strings; the signature scheme and
the encoding of signed transactions belong to go-ethereum and are kept as parameters (`Ethereum`).
-/

namespace PaymentRail.Signer

open Transaction

inductive Sentinel where
  | errUnknownKey
  | errChainMismatch
  | errMalformedTx
  | errSpendLimitExceeded
  deriving DecidableEq

abbrev Err := Fault Sentinel

def errUnknownKey : Err := ⟨"signer: unknown key_id", some .errUnknownKey⟩

def errChainMismatch : Err := ⟨"signer: chain_id does not match key", some .errChainMismatch⟩

def errMalformedTx : Err := ⟨"signer: malformed transaction", some .errMalformedTx⟩

def errSpendLimitExceeded : Err := ⟨"signer: spend limit exceeded", some .errSpendLimitExceeded⟩

structure SignRequest where
  keyID : String
  chainID : UInt64
  nonce : UInt64
  gasLimit : UInt64
  «to» : Address
  value : Option ℤ
  maxFeePerGas : Option ℤ
  maxPriorityFeePerGas : Option ℤ
  data : List UInt8
  deriving DecidableEq

structure SignedTx where
  rawTransaction : List UInt8
  txHash : Hash
  «from» : Address
  deriving DecidableEq

/-- A loaded key; `LoadKeyring` accepts no negative limit. -/
structure KeyEntry where
  privateKey : List UInt8
  address : Address
  chainID : UInt64
  limit : ℤ
  limit_nonneg : 0 ≤ limit
  deriving DecidableEq

/-- The loaded keys by their id. -/
structure Keyring where
  lookup : String → Option KeyEntry

/-! ### Validation -/

def minGasLimit : UInt64 := 21000

def maxGasLimit : UInt64 := 30000000

def erc20TransferCalldataLen : ℕ := 68

def erc20TransferSelector : List UInt8 := [0xa9, 0x05, 0x9c, 0xbb]

/-- Go on only if a condition holds. -/
def require (condition : Prop) [Decidable condition] (err : Err) : Except Err Unit :=
  if condition then .ok () else .error err

/-- A field that must be an unsigned number of 256 bits. -/
def uint256 (name : String) : Option ℤ → Except Err ℤ
  | none => .error (errMalformedTx.wrap ("signer: " ++ name ++ " is required"))
  | some value =>
    if value < 0 ∨ 2 ^ 256 ≤ value then
      .error (errMalformedTx.wrap ("signer: " ++ name ++ " is not a valid uint256"))
    else .ok value

/-- The amount that counts against the limit of a key: the value of a native transfer, or the amount
word of an ERC-20 transfer without a value.  Other calldata is refused. -/
def chargedAmount (value : ℤ) (data : List UInt8) : Except Err ℤ :=
  if data = [] then .ok value
  else if data.length ≠ erc20TransferCalldataLen ∨ data.take 4 ≠ erc20TransferSelector ∨ value ≠ 0 then
    .error (errMalformedTx.wrap "signer: calldata is not an allowed ERC-20 transfer")
  else .ok (BigEndian.read ((data.drop 36).take 32))

def errGasLimit (gasLimit : UInt64) : Err :=
  errMalformedTx.wrap ("signer: gas_limit " ++ toString gasLimit ++ " outside [" ++
    toString minGasLimit ++ ", " ++ toString maxGasLimit ++ "]")

/-- The checks in their order; the key and the amount to charge. -/
def validate (kr : Keyring) (r : SignRequest) : Except Err (KeyEntry × ℤ) :=
  match kr.lookup r.keyID with
  | none =>
    .error (errUnknownKey.wrap "signer: no key registered for the requested key_id")
  | some key => do
    require (r.chainID = key.chainID)
      (errChainMismatch.wrap "signer: request chain_id does not match the key's chain")
    require (r.to ≠ 0) (errMalformedTx.wrap
      "signer: destination address is missing (contract creation is not permitted)")
    let value ← uint256 "value" r.value
    let maxFee ← uint256 "max_fee_per_gas" r.maxFeePerGas
    let tip ← uint256 "max_priority_fee_per_gas" r.maxPriorityFeePerGas
    require (maxFee ≠ 0) (errMalformedTx.wrap "signer: max_fee_per_gas must be positive")
    require (tip ≤ maxFee)
      (errMalformedTx.wrap "signer: max_fee_per_gas is below max_priority_fee_per_gas")
    require (minGasLimit ≤ r.gasLimit ∧ r.gasLimit ≤ maxGasLimit) (errGasLimit r.gasLimit)
    let charged ← chargedAmount value r.data
    return (key, charged)

/-! ### Signing -/

/-- The fields of a `types.DynamicFeeTx`.  Without a recipient it creates a contract. -/
structure DynamicFeeTx where
  chainID : UInt64
  nonce : UInt64
  gasTipCap : Option ℤ
  gasFeeCap : Option ℤ
  gas : UInt64
  «to» : Option Address
  value : Option ℤ
  data : List UInt8
  deriving DecidableEq

/-- A `types.Transaction` with its signature. -/
structure SignedTransaction where
  inner : DynamicFeeTx
  signature : List UInt8
  deriving DecidableEq

/-- What go-ethereum provides: the encoding of signed transactions, which is read back, and the hash. -/
structure Ethereum where
  marshalBinary : SignedTransaction → Except String (List UInt8)
  unmarshalBinary : List UInt8 → Except String SignedTransaction
  hash : SignedTransaction → Hash
  unmarshal_marshal : ∀ tx raw, marshalBinary tx = .ok raw → unmarshalBinary raw = .ok tx

/-- The transaction of a request. -/
def SignRequest.tx (r : SignRequest) : DynamicFeeTx :=
  { chainID := r.chainID
    nonce := r.nonce
    gasTipCap := r.maxPriorityFeePerGas
    gasFeeCap := r.maxFeePerGas
    gas := r.gasLimit
    «to» := some r.to
    value := r.value
    data := r.data }

/-- `signTx`, with the outcome of `types.SignTx`. -/
def signTx (eth : Ethereum) (key : KeyEntry) (r : SignRequest)
    (signed : Except String (List UInt8)) : Except Err SignedTx :=
  match signed with
  | .error text => .error (.plain ("signer: sign transaction: " ++ text))
  | .ok signature =>
    match eth.marshalBinary ⟨r.tx, signature⟩ with
    | .error text => .error (.plain ("signer: encode signed transaction: " ++ text))
    | .ok raw => .ok ⟨raw, eth.hash ⟨r.tx, signature⟩, key.address⟩

/-! ### What a validated request is -/

/-- The amount that a transaction itself moves. -/
def DynamicFeeTx.moved (tx : DynamicFeeTx) : ℤ :=
  if tx.data = [] then tx.value.getD 0 else BigEndian.read ((tx.data.drop 36).take 32)

@[simp]
theorem require_eq_ok {condition : Prop} [Decidable condition] {err : Err} {result : Unit} :
    require condition err = .ok result ↔ condition := by
  unfold require
  split <;> simp [*]

theorem uint256_eq_ok {name : String} {field : Option ℤ} {value : ℤ} :
    uint256 name field = .ok value ↔ field = some value ∧ 0 ≤ value ∧ value < 2 ^ 256 := by
  cases field with
  | none => simp [uint256]
  | some number =>
    simp only [uint256, Option.some.injEq]
    split
    · next hbad => simp; omega
    · next hgood => simp; omega

theorem validate_eq_ok {kr : Keyring} {r : SignRequest} {key : KeyEntry} {charged : ℤ} :
    validate kr r = .ok (key, charged) ↔
      kr.lookup r.keyID = some key ∧ r.chainID = key.chainID ∧ r.to ≠ 0 ∧
      ∃ value maxFee tip, (r.value = some value ∧ 0 ≤ value ∧ value < 2 ^ 256) ∧
        (r.maxFeePerGas = some maxFee ∧ 0 ≤ maxFee ∧ maxFee < 2 ^ 256) ∧
        (r.maxPriorityFeePerGas = some tip ∧ 0 ≤ tip ∧ tip < 2 ^ 256) ∧
        maxFee ≠ 0 ∧ tip ≤ maxFee ∧ (minGasLimit ≤ r.gasLimit ∧ r.gasLimit ≤ maxGasLimit) ∧
        chargedAmount value r.data = .ok charged := by
  unfold validate
  cases hkey : kr.lookup r.keyID with
  | none => simp
  | some entry =>
    simp only [bind_eq_ok, require_eq_ok, uint256_eq_ok, Option.some.injEq]
    constructor
    · rintro ⟨-, hchain, -, hto, value, hvalue, maxFee, hfee, tip, htip, -, hpositive, -, hle, -, hgas,
        amount, hcharged, hpair⟩
      obtain ⟨rfl, rfl⟩ := Prod.mk.inj (Except.ok.inj hpair)
      exact ⟨rfl, hchain, hto, value, maxFee, tip, hvalue, hfee, htip, hpositive, hle, hgas, hcharged⟩
    · rintro ⟨rfl, hchain, hto, value, maxFee, tip, hvalue, hfee, htip, hpositive, hle, hgas, hcharged⟩
      exact ⟨(), hchain, (), hto, value, hvalue, maxFee, hfee, tip, htip, (), hpositive, (), hle, (),
        hgas, charged, hcharged, rfl⟩

/-- The amount charged for a request is what its transaction moves. -/
theorem moved_of_chargedAmount {r : SignRequest} {value charged : ℤ} (hvalue : r.value = some value)
    (h : chargedAmount value r.data = .ok charged) : r.tx.moved = charged := by
  unfold chargedAmount at h
  unfold DynamicFeeTx.moved SignRequest.tx
  split at h
  · next hdata => simp [hdata, hvalue, Except.ok.inj h]
  · next hdata =>
    split at h
    · cases h
    · simp only [if_neg hdata]
      exact Except.ok.inj h

theorem moved_of_validate {kr : Keyring} {r : SignRequest} {key : KeyEntry} {charged : ℤ}
    (h : validate kr r = .ok (key, charged)) : r.tx.moved = charged := by
  obtain ⟨-, -, -, value, -, -, ⟨hvalue, -, -⟩, -, -, -, -, -, hcharged⟩ := validate_eq_ok.mp h
  exact moved_of_chargedAmount hvalue hcharged

/-- What `signTx` returns encodes the transaction of the request. -/
theorem signTx_ok {eth : Ethereum} {key : KeyEntry} {r : SignRequest}
    {signed : Except String (List UInt8)} {tx : SignedTx} (h : signTx eth key r signed = .ok tx) :
    ∃ signature, eth.unmarshalBinary tx.rawTransaction = .ok ⟨r.tx, signature⟩ := by
  unfold signTx at h
  split at h
  · cases h
  · next signature =>
    split at h
    · cases h
    · next raw hraw =>
      rw [← Except.ok.inj h]
      exact ⟨signature, eth.unmarshal_marshal _ _ hraw⟩

end PaymentRail.Signer
