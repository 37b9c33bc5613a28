import PaymentRail.Evm.Adapter

/-!
# From an intent to a validated request

What the adapter asks the signer for, on its way to the signer: `signerClient.Sign` encodes the request
for the wire, `toDomainRequest` decodes it, `validate` checks it.  The two sides are written separately
and agree on every request that the adapter makes.
-/

namespace PaymentRail.Evm

open Transaction

/-! ### The wire -/

/-- `signerpb.SignTransactionRequest`. -/
structure SignTransactionRequest where
  keyId : String
  chainId : UInt64
  nonce : UInt64
  gasLimit : UInt64
  «to» : List UInt8
  value : List UInt8
  maxFeePerGas : List UInt8
  maxPriorityFeePerGas : List UInt8
  data : List UInt8
  deriving DecidableEq

/-- `big.Int.Bytes`, which drops the sign. -/
def bigBytes (value : ℤ) : List UInt8 := BigEndian.minimal value.natAbs

/-- The message that `signerClient.Sign` sends. -/
def SignerRequest.encode (req : SignerRequest) : SignTransactionRequest :=
  { keyId := req.keyID
    chainId := req.chainID
    nonce := req.nonce
    gasLimit := req.gasLimit
    «to» := req.to.bytes
    value := bigBytes req.value
    maxFeePerGas := bigBytes req.maxFeePerGas
    maxPriorityFeePerGas := bigBytes req.maxPriorityFeePerGas
    data := req.data }

/-- A gRPC status with the code `InvalidArgument`. -/
structure InvalidArgument where
  message : String
  deriving DecidableEq

def toUint256 (bytes : List UInt8) (field : String) : Except InvalidArgument ℤ :=
  if 32 < bytes.length then
    .error ⟨"malformed transaction: " ++ field ++ " must be at most 32 bytes"⟩
  else .ok (BigEndian.read bytes)

def toDomainRequest (req : SignTransactionRequest) : Except InvalidArgument Signer.SignRequest :=
  if req.to.length ≠ 20 then
    .error ⟨"malformed transaction: destination address must be 20 bytes"⟩
  else do
    let value ← toUint256 req.value "value"
    let maxFee ← toUint256 req.maxFeePerGas "max_fee_per_gas"
    let maxTip ← toUint256 req.maxPriorityFeePerGas "max_priority_fee_per_gas"
    return { keyID := req.keyId
             chainID := req.chainId
             nonce := req.nonce
             gasLimit := req.gasLimit
             «to» := Address.ofBytes req.to
             value := some value
             maxFeePerGas := some maxFee
             maxPriorityFeePerGas := some maxTip
             data := req.data }

/-- The request of the adapter as one of the signer. -/
def SignerRequest.domain (req : SignerRequest) : Signer.SignRequest :=
  { keyID := req.keyID
    chainID := req.chainID
    nonce := req.nonce
    gasLimit := req.gasLimit
    «to» := req.to
    value := some req.value
    maxFeePerGas := some req.maxFeePerGas
    maxPriorityFeePerGas := some req.maxPriorityFeePerGas
    data := req.data }

/-- An unsigned number of 256 bits. -/
def IsUint256 (value : ℤ) : Prop := 0 ≤ value ∧ value < 2 ^ 256

theorem toUint256_bigBytes {value : ℤ} (h : IsUint256 value) (field : String) :
    toUint256 (bigBytes value) field = .ok value := by
  have hlt : value.natAbs < 256 ^ 32 := by
    have hpow : (256 : ℕ) ^ 32 = 2 ^ 256 := by norm_num
    have := h.1
    have := h.2
    omega
  have hlength := BigEndian.length_minimal_le hlt
  rw [toUint256, bigBytes, if_neg (not_lt.mpr hlength), BigEndian.read_minimal,
    Int.natAbs_of_nonneg h.1]

/-- What was encoded is decoded field for field. -/
theorem toDomainRequest_encode {req : SignerRequest} (hvalue : IsUint256 req.value)
    (hfee : IsUint256 req.maxFeePerGas) (htip : IsUint256 req.maxPriorityFeePerGas) :
    toDomainRequest req.encode = .ok req.domain := by
  have hto : req.encode.to.length = 20 := Address.length_bytes req.to
  rw [toDomainRequest, if_neg (not_not.mpr hto)]
  simp only [SignerRequest.encode, toUint256_bigBytes hvalue, toUint256_bigBytes hfee,
    toUint256_bigBytes htip, Address.ofBytes_bytes]
  rfl

/-! ### What the adapter asks for -/

theorem packERC20Transfer_ok {«to» : Address} {amount : ℤ} (hpos : 0 < amount)
    (hlt : amount < 2 ^ 256) :
    packERC20Transfer «to» (some amount) = .ok (transferCalldata «to» amount.toNat) := by
  rw [packERC20Transfer, if_neg (not_le.mpr hpos), if_neg (not_le.mpr hlt)]

theorem prepare_ok {a : Adapter} {intent : PaymentIntent} {data : List UInt8}
    (h : prepare a intent = .ok data) :
    ∃ amount, intent.amount = some amount ∧ (0 < amount ∧ amount < 2 ^ 256) ∧
      isHexAddress intent.to ∧ data = transferCalldata (Address.ofHex intent.to) amount.toNat := by
  unfold prepare at h
  split at h
  · cases h
  split at h
  · cases h
  next haddress =>
  split at h
  · cases h
  split at h
  · cases h
  next hamount =>
  split at h
  · cases h
  rw [not_not, Option.any_eq_true] at hamount
  obtain ⟨amount, hsome, hrange⟩ := hamount
  rw [decide_eq_true_eq] at hrange
  rw [hsome, packERC20Transfer_ok hrange.1 hrange.2] at h
  exact ⟨amount, hsome, hrange, not_not.mp haddress, (Except.ok.inj h).symm⟩

theorem bufferGas_ok {gasLimitCap estimate gasLimit : UInt64}
    (h : bufferGas gasLimitCap estimate = .ok gasLimit) :
    gasLimit.toNat = estimate.toNat * 125 / 100 ∧ gasLimit ≤ gasLimitCap := by
  simp only [bufferGas] at h
  split at h
  · cases h
  next hfits =>
  split at h
  · cases h
  next hcap =>
  have hlt : estimate.toNat * gasLimitBufferPct.toNat < 2 ^ 64 := by omega
  rw [← Except.ok.inj h]
  refine ⟨?_, UInt64.not_lt.mp hcap⟩
  rw [UInt64.toNat_div, UInt64.toNat_ofNat_of_lt' hlt]
  rfl

theorem priceFees_ok {feeCap tip : ℤ} {gasLimit : UInt64} {header : Option ℤ} {gp : GasParams}
    (h : priceFees feeCap gasLimit tip header = .ok gp) :
    ∃ baseFee, header = some baseFee ∧ gp.gasLimit = gasLimit ∧ gp.tip = tip ∧
      gp.maxFee = 2 * baseFee + tip ∧ gp.maxFee ≤ feeCap := by
  cases header with
  | none => cases h
  | some baseFee =>
    simp only [priceFees] at h
    split at h
    · cases h
    next hcap =>
    rw [← Except.ok.inj h]
    exact ⟨baseFee, rfl, rfl, rfl, by rw [baseFeeHeadroom, mul_comm], not_lt.mp hcap⟩

section Node

variable {node : (rpc : Rpc) → RpcReply rpc}

theorem answered_orReject {α : Type} {reply : Except String α} {err : Err} {value : α} :
    Program.answered node (orReject reply err) = .ok value ↔ reply = .ok value := by
  rw [orReject, Tx.answered_ofExcept, mapError_eq_ok]

theorem issued_orReject {α : Type} (reply : Except String α) (err : Err) :
    Program.issued node (orReject reply err) = [] := Tx.issued_ofExcept _

/-- A price comes from the three answers of the node. -/
theorem answered_gasEstimate {a : Adapter} {msg : CallMsg} {gp : GasParams}
    (h : Program.answered node (gasEstimate a msg) = .ok gp) :
    ∃ estimate tip baseFee, node (.estimateGas msg) = .ok estimate ∧
      node .suggestGasTipCap = .ok tip ∧ node .headerByNumber = .ok (some baseFee) ∧
      gp.gasLimit.toNat = estimate.toNat * 125 / 100 ∧ gp.gasLimit ≤ a.gasLimitCap ∧
      gp.tip = tip ∧ gp.maxFee = 2 * baseFee + tip ∧ gp.maxFee ≤ a.maxFeePerGasCapWei := by
  simp only [gasEstimate, Tx.answered_bind_eq_ok, Tx.answered_stmt, Except.ok.injEq,
    answered_orReject, Tx.answered_ofExcept, exists_eq_left'] at h
  obtain ⟨estimate, hestimate, gasLimit, hgas, tip, htip, header, hheader, hprice⟩ := h
  obtain ⟨baseFee, rfl, hlimit, hgptip, hfee, hcap⟩ := priceFees_ok hprice
  obtain ⟨hbuffer, hgascap⟩ := bufferGas_ok hgas
  exact ⟨estimate, tip, baseFee, hestimate, htip, hheader, by rw [hlimit]; exact hbuffer,
    by rw [hlimit]; exact hgascap, hgptip, hfee, hcap⟩

/-- Pricing does not reach the signer. -/
theorem sign_notMem_gasEstimate {a : Adapter} {msg : CallMsg} {req : SignerRequest} :
    Rpc.sign req ∉ Program.issued node (gasEstimate a msg) := by
  simp [gasEstimate, Tx.mem_issued_bind, issued_orReject]

theorem sign_mem_signAndSend {eth : Signer.Ethereum} {a : Adapter} {data : List UInt8}
    {gp : GasParams} {nonce : UInt64} {req : SignerRequest}
    (h : Rpc.sign req ∈ Program.issued node (signAndSend eth a data gp nonce)) :
    req = signerRequest a data gp nonce := by
  rw [signAndSend, Tx.mem_issued_bind, Tx.issued_stmt, List.mem_singleton] at h
  rcases h with hsign | ⟨reply, -, h⟩
  · exact Rpc.sign.inj hsign
  · rw [Tx.mem_issued_bind, issued_orReject, or_iff_right List.not_mem_nil] at h
    obtain ⟨signed, -, h⟩ := h
    split at h
    · cases h
    · simp [Tx.mem_issued_bind, issued_orReject] at h

/-- A submission that reaches the signer has passed the checks and was priced. -/
theorem sign_mem_submit {eth : Signer.Ethereum} {a : Adapter} {next : Nonces}
    {intent : PaymentIntent} {req : SignerRequest}
    (h : Rpc.sign req ∈ Program.issued node (submit eth a next intent)) :
    ∃ data gp nonce, prepare a intent = .ok data ∧
      Program.answered node (gasEstimate a ⟨a.from, a.token, 0, data⟩) = .ok gp ∧
      req = signerRequest a data gp nonce := by
  unfold submit at h
  split at h
  · cases h
  next data hdata =>
  rw [Tx.mem_issued_handle, or_iff_right sign_notMem_gasEstimate] at h
  split at h
  · cases h
  next gp hgp =>
  rw [withNonce, Program.issued_call, List.mem_cons, or_iff_right (by simp)] at h
  split at h
  · cases h
  next pending _ =>
  rw [Tx.mem_issued_handle] at h
  rcases h with hsign | hrest
  · exact ⟨data, gp, _, hdata, hgp, sign_mem_signAndSend hsign⟩
  · split at hrest <;> cases hrest

end Node

/-! ### What the signer makes of it -/

section Calldata

variable (recipient : Address) (amount : ℕ)

theorem length_transferCalldata : (transferCalldata recipient amount).length = 68 := by
  simp [transferCalldata, erc20TransferSelector]

theorem take_transferCalldata :
    (transferCalldata recipient amount).take 4 = Signer.erc20TransferSelector := rfl

/-- The recipient word. -/
theorem recipient_transferCalldata : ((transferCalldata recipient amount).drop 4).take 32 =
    List.replicate 12 0 ++ recipient.bytes := by
  have hdrop : (transferCalldata recipient amount).drop 4 =
      (List.replicate 12 0 ++ recipient.bytes) ++ BigEndian.bytes 32 amount := rfl
  rw [hdrop]
  exact List.take_left' (by simp)

/-- The amount word. -/
theorem amount_transferCalldata : ((transferCalldata recipient amount).drop 36).take 32 =
    BigEndian.bytes 32 amount := by
  have hdrop : (transferCalldata recipient amount).drop 36 = BigEndian.bytes 32 amount := by
    have hsplit : transferCalldata recipient amount =
        (erc20TransferSelector ++ (List.replicate 12 0 ++ recipient.bytes)) ++
          BigEndian.bytes 32 amount := (List.append_assoc _ _ _).symm
    rw [hsplit]
    exact List.drop_left' (by simp [erc20TransferSelector])
  rw [hdrop]
  exact List.take_of_length_le (by simp)

/-- The signer charges the amount of the call. -/
theorem chargedAmount_transferCalldata (h : amount < 2 ^ 256) :
    Signer.chargedAmount 0 (transferCalldata recipient amount) = .ok (amount : ℤ) := by
  have hne : transferCalldata recipient amount ≠ [] := by
    intro hnil
    have hlength := length_transferCalldata recipient amount
    rw [hnil] at hlength
    cases hlength
  have hlt : amount < 256 ^ 32 := by
    have hpow : (256 : ℕ) ^ 32 = 2 ^ 256 := by norm_num
    rw [hpow]
    exact h
  rw [Signer.chargedAmount, if_neg hne, length_transferCalldata, take_transferCalldata,
    amount_transferCalldata, BigEndian.read_bytes_of_lt hlt]
  rfl

end Calldata

theorem newAdapter_ok {cfg : Config} {a : Adapter} (h : newAdapter cfg = .ok a) :
    a.keyID = cfg.keyID ∧ a.chainID = cfg.chainID ∧ a.from = cfg.from ∧ a.token = cfg.token ∧
      a.gasLimitCap = cfg.gasLimitCap ∧ cfg.maxFeePerGasCapWei = some a.maxFeePerGasCapWei := by
  unfold newAdapter at h
  split at h
  · cases h
  split at h
  · cases h
  split at h
  · cases h
  split at h
  · cases h
  split at h
  · cases h
  next feeCap hfee =>
  split at h
  · cases h
  rw [← Except.ok.inj h]
  exact ⟨rfl, rfl, rfl, rfl, rfl, hfee⟩

/-- What the adapter asks the signer for is priced exactly and within the caps, reaches the signer as
it was sent, and is accepted there for the amount and the recipient of the intent. -/
theorem submitted_request_is_accepted {cfg : Config} {a : Adapter} (ha : newAdapter cfg = .ok a)
    (hgascap : cfg.gasLimitCap ≤ 30000000)
    (hfeecap : ∀ feeCap ∈ cfg.maxFeePerGasCapWei, feeCap < 2 ^ 256) (eth : Signer.Ethereum)
    (next : Nonces) (intent : PaymentIntent) (node : (rpc : Rpc) → RpcReply rpc)
    (htip : ∀ tip, node .suggestGasTipCap = .ok tip → 0 ≤ tip)
    (hbase : ∀ baseFee, node .headerByNumber = .ok (some baseFee) → 0 ≤ baseFee)
    {req : SignerRequest} (h : Rpc.sign req ∈ (submit eth a next intent).issued node) :
    (∃ estimate tip baseFee, node (.estimateGas ⟨cfg.from, cfg.token, 0, req.data⟩) = .ok estimate ∧
      node .suggestGasTipCap = .ok tip ∧ node .headerByNumber = .ok (some baseFee) ∧
      req.gasLimit.toNat = estimate.toNat * 125 / 100 ∧ req.gasLimit ≤ cfg.gasLimitCap ∧
      req.maxPriorityFeePerGas = tip ∧ tip ≤ req.maxFeePerGas ∧
      req.maxFeePerGas = 2 * baseFee + tip ∧
      ∀ feeCap ∈ cfg.maxFeePerGasCapWei, req.maxFeePerGas ≤ feeCap) ∧
    toDomainRequest req.encode = .ok req.domain ∧
    (21000 ≤ req.gasLimit → 0 < req.maxFeePerGas → ∀ (kr : Signer.Keyring) (key : Signer.KeyEntry),
      kr.lookup req.keyID = some key → key.chainID = cfg.chainID →
      ∃ amount, intent.amount = some amount ∧
        Signer.validate kr req.domain = .ok (key, amount)) ∧
    req.data.length = 68 ∧ (req.data.drop 4).take 32 = List.replicate 12 0 ++ fromHex intent.to ∧
    req.to = cfg.token := by
  obtain ⟨-, hchain, hfrom, htoken, hcap, hfeeCap⟩ := newAdapter_ok ha
  obtain ⟨data, gp, nonce, hdata, hgp, rfl⟩ := sign_mem_submit h
  obtain ⟨amount, hamount, ⟨hpos, hlt⟩, haddress, rfl⟩ := prepare_ok hdata
  obtain ⟨estimate, tip, baseFee, hestimate, htipOk, hheader, hgas, hgasle, hgptip, hmaxFee, hfeele⟩ :=
    answered_gasEstimate hgp
  have htip0 := htip tip htipOk
  have hbase0 := hbase baseFee hheader
  have hcap256 := hfeecap _ hfeeCap
  have hvalue : IsUint256 (0 : ℤ) := by constructor <;> norm_num
  have hfee : IsUint256 gp.maxFee := by constructor <;> omega
  have hgptip256 : IsUint256 gp.tip := by constructor <;> omega
  refine ⟨⟨estimate, tip, baseFee, ?_, htipOk, hheader, hgas, ?_, hgptip, ?_, hmaxFee, ?_⟩,
    toDomainRequest_encode hvalue hfee hgptip256, ?_, length_transferCalldata _ _, ?_, htoken⟩
  · rw [← hfrom, ← htoken]
    exact hestimate
  · rw [← hcap]
    exact hgasle
  · show tip ≤ gp.maxFee
    omega
  · intro feeCap hmem
    rw [hfeeCap, Option.mem_some_iff] at hmem
    rw [← hmem]
    exact hfeele
  · intro hmin hpositive kr key hlookup hkeychain
    refine ⟨amount, hamount, Signer.validate_eq_ok.mpr ⟨hlookup, ?_, a.token_ne, 0, gp.maxFee, gp.tip,
      ⟨rfl, hvalue⟩, ⟨rfl, hfee⟩, ⟨rfl, hgptip256⟩, hpositive.ne', ?_, ⟨hmin, ?_⟩, ?_⟩⟩
    · rw [hkeychain]
      exact hchain
    · omega
    · rw [hcap] at hgasle
      exact UInt64.le_trans hgasle hgascap
    · have hcharged := chargedAmount_transferCalldata (Address.ofHex intent.to) amount.toNat (by omega)
      rw [Int.toNat_of_nonneg hpos.le] at hcharged
      exact hcharged
  · rw [← Address.bytes_ofHex haddress]
    exact recipient_transferCalldata _ _

def sampleConfig : Config := ⟨"hot", 5, 1, 2, 100000, some 1000⟩

def sampleAdapter : Adapter :=
  ⟨"hot", 5, 1, 2, 100000, 1000, by decide, by decide, by decide, by decide, by decide⟩

def sampleIntent : PaymentIntent :=
  ⟨"hot", "USDC", "0x00000000000000000000000000000000000000A7", some 1500000⟩

/-- A node that answers every question, and a signer that declines. -/
def sampleNode : (rpc : Rpc) → RpcReply rpc
  | .chainID => .ok (some 5)
  | .headerByNumber => .ok (some 30)
  | .pendingNonceAt _ => .ok 9
  | .estimateGas _ => .ok 50001
  | .suggestGasTipCap => .ok 2
  | .sendTransaction _ => .ok ()
  | .sign _ => .error "declined"

/-- No transaction is encoded. -/
def sampleEncoding : Signer.Ethereum := ⟨fun _ ↦ .error "", fun _ ↦ .error "", fun _ ↦ 0, by simp⟩

theorem submitted_request_is_accepted_sample :
    let req := signerRequest sampleAdapter (transferCalldata 0xA7 1500000) ⟨62501, 62, 2⟩ 9
    Rpc.sign req ∈ (submit sampleEncoding sampleAdapter (fun _ ↦ 0) sampleIntent).issued sampleNode ∧
    toDomainRequest req.encode = .ok req.domain := by
  intro req
  have hreq : Rpc.sign req ∈
      (submit sampleEncoding sampleAdapter (fun _ ↦ 0) sampleIntent).issued sampleNode := by
    decide +kernel
  have hadapter : newAdapter sampleConfig = .ok sampleAdapter := rfl
  have hfeecap : ∀ feeCap ∈ sampleConfig.maxFeePerGasCapWei, feeCap < 2 ^ 256 := by
    rintro _ ⟨⟩
    norm_num
  have htip : ∀ tip, sampleNode .suggestGasTipCap = .ok tip → 0 ≤ tip := by
    rintro _ ⟨⟩
    norm_num
  have hbase : ∀ baseFee, sampleNode .headerByNumber = .ok (some baseFee) → 0 ≤ baseFee := by
    rintro _ ⟨⟩
    norm_num
  exact ⟨hreq, (submitted_request_is_accepted hadapter (by decide) hfeecap _ _ _ _ htip hbase
    hreq).2.1⟩

end PaymentRail.Evm
