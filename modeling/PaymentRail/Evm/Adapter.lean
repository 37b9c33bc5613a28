import PaymentRail.Ledger.Balance
import PaymentRail.Signer.Policy
import PaymentRail.Transaction.Answers

/-!
# The EVM adapter

`internal/chain/evm`: one payment as a signed EIP-1559 transfer of an ERC-20 token.  `submit` is a
program over the calls that the adapter makes, those of the JSON-RPC client and the one to the signer;
what the node and the signer answer is not fixed here.

An `Adapter` is a configuration that `NewAdapter` accepted.  The nonces it has used are passed along as
the map of the next nonce for each sender.  The log line of an outcome is left out.
-/

namespace PaymentRail.Evm

open Transaction

inductive Sentinel where
  | errInvalidIntent
  | errUnsupportedAsset
  | errSignerRejected
  | errBroadcast
  | errNonceUnavailable
  | errGasEstimation
  | errGasCapExceeded
  | errFeeCapExceeded
  deriving DecidableEq

abbrev Err := Fault Sentinel

def errInvalidIntent : Err := ⟨"chain: invalid payment intent", some .errInvalidIntent⟩

def errUnsupportedAsset : Err := ⟨"chain: unsupported asset", some .errUnsupportedAsset⟩

def errSignerRejected : Err := ⟨"chain: signer rejected transaction", some .errSignerRejected⟩

def errBroadcast : Err := ⟨"chain: broadcast failed", some .errBroadcast⟩

def errNonceUnavailable : Err := ⟨"evm: nonce unavailable", some .errNonceUnavailable⟩

def errGasEstimation : Err := ⟨"evm: gas estimation failed", some .errGasEstimation⟩

def errGasCapExceeded : Err := ⟨"evm: gas limit cap exceeded", some .errGasCapExceeded⟩

def errFeeCapExceeded : Err := ⟨"evm: max fee per gas cap exceeded", some .errFeeCapExceeded⟩

/-- `chain.PaymentIntent`. -/
structure PaymentIntent where
  keyID : String
  asset : String
  «to» : String
  amount : Option ℤ
  deriving DecidableEq

structure Config where
  keyID : String
  chainID : UInt64
  «from» : Address
  token : Address
  gasLimitCap : UInt64
  maxFeePerGasCapWei : Option ℤ

/-- A configuration that can send transactions. -/
structure Adapter where
  keyID : String
  chainID : UInt64
  «from» : Address
  token : Address
  gasLimitCap : UInt64
  maxFeePerGasCapWei : ℤ
  keyID_ne : keyID ≠ ""
  from_ne : «from» ≠ 0
  token_ne : token ≠ 0
  gasLimitCap_ne : gasLimitCap ≠ 0
  feeCap_pos : 0 < maxFeePerGasCapWei

def newAdapter (cfg : Config) : Except Err Adapter :=
  if hkey : cfg.keyID = "" then .error (.plain "evm: config KeyID is required")
  else if hfrom : cfg.from = 0 then .error (.plain "evm: config From address is required")
  else if htoken : cfg.token = 0 then .error (.plain "evm: config Token address is required")
  else if hgas : cfg.gasLimitCap = 0 then .error (.plain "evm: config GasLimitCap must be positive")
  else
    match cfg.maxFeePerGasCapWei with
    | none => .error (.plain "evm: config MaxFeePerGasCapWei must be positive")
    | some feeCap =>
      if hfee : feeCap ≤ 0 then .error (.plain "evm: config MaxFeePerGasCapWei must be positive")
      else .ok ⟨cfg.keyID, cfg.chainID, cfg.from, cfg.token, cfg.gasLimitCap, feeCap, hkey, hfrom,
        htoken, hgas, not_le.mp hfee⟩

/-! ### The calls of the adapter -/

/-- `ethereum.CallMsg`, as far as it is filled in. -/
structure CallMsg where
  «from» : Address
  «to» : Address
  value : ℤ
  data : List UInt8
  deriving DecidableEq

structure SignerRequest where
  keyID : String
  chainID : UInt64
  nonce : UInt64
  gasLimit : UInt64
  «to» : Address
  value : ℤ
  maxFeePerGas : ℤ
  maxPriorityFeePerGas : ℤ
  data : List UInt8
  deriving DecidableEq

/-- The methods of `ethRPC` that a submission uses, and `Signer.Sign`. -/
inductive Rpc where
  | chainID
  | pendingNonceAt (account : Address)
  | headerByNumber
  | suggestGasTipCap
  | estimateGas (msg : CallMsg)
  | sendTransaction (tx : Signer.SignedTransaction)
  | sign (req : SignerRequest)
  deriving DecidableEq

/-- An error of a call is only ever replaced by one of the adapter's own.  The header is its base fee,
which is missing before EIP-1559. -/
abbrev RpcReply : Rpc → Type
  | .chainID | .headerByNumber => Except String (Option ℤ)
  | .pendingNonceAt .. | .estimateGas .. => Except String UInt64
  | .suggestGasTipCap => Except String ℤ
  | .sendTransaction .. => Except String Unit
  | .sign .. => Except String Signer.SignedTx

/-- The value of an answer, or the error that stands for its failure. -/
def orReject {α : Type} (reply : Except String α) (err : Err) : Tx RpcReply Err α :=
  Tx.ofExcept (reply.mapError fun _ ↦ err)

/-- `VerifyChainID`. -/
def verifyChainID (a : Adapter) : Tx RpcReply Err Unit := do
  match ← Tx.stmt Rpc.chainID with
  | .error text => Tx.fail (.plain ("evm: query chain id: " ++ text))
  | .ok got =>
    if got = some (a.chainID.toNat : ℤ) then pure ()
    else Tx.fail (.plain ("evm: chain id mismatch: node reports " ++ (got.elim "<nil>" toString) ++
      ", configured " ++ toString a.chainID))

/-! ### Calldata -/

def erc20TransferSelector : List UInt8 := [0xa9, 0x05, 0x9c, 0xbb]

/-- A call of `transfer` in 68 bytes: the selector, and the recipient and the amount in a word each. -/
def transferCalldata (recipient : Address) (amount : ℕ) : List UInt8 :=
  erc20TransferSelector ++ ((List.replicate 12 0 ++ recipient.bytes) ++ BigEndian.bytes 32 amount)

def packERC20Transfer («to» : Address) (amount : Option ℤ) : Except Err (List UInt8) :=
  match amount with
  | none => .error (errInvalidIntent.wrap "evm: transfer amount is required")
  | some amount =>
    if amount ≤ 0 then .error (errInvalidIntent.wrap "evm: transfer amount must be positive")
    else if 2 ^ 256 ≤ amount then
      .error (errInvalidIntent.wrap "evm: transfer amount does not fit in uint256")
    else .ok (transferCalldata «to» amount.toNat)

/-! ### Gas -/

def gasLimitBufferPct : UInt64 := 125

def baseFeeHeadroom : ℤ := 2

structure GasParams where
  gasLimit : UInt64
  maxFee : ℤ
  tip : ℤ

/-- The gas limit for an estimate: a quarter more, from the 128-bit product. -/
def bufferGas (gasLimitCap estimate : UInt64) : Except Err UInt64 :=
  let product := estimate.toNat * gasLimitBufferPct.toNat
  if product / 2 ^ 64 ≠ 0 then
    .error (errGasCapExceeded.wrap
      ("evm: gas estimate " ++ toString estimate ++ " too large to buffer"))
  else
    let gasLimit := UInt64.ofNat product / 100
    if gasLimitCap < gasLimit then
      .error (errGasCapExceeded.wrap ("evm: buffered gas limit " ++ toString gasLimit ++
        " exceeds cap " ++ toString gasLimitCap))
    else .ok gasLimit

/-- The fees for a tip and the base fee of the latest header. -/
def priceFees (feeCap : ℤ) (gasLimit : UInt64) (tip : ℤ) : Option ℤ → Except Err GasParams
  | none => .error (errGasEstimation.wrap "evm: chain header has no base fee (pre-EIP-1559?)")
  | some baseFee =>
    let maxFee := baseFee * baseFeeHeadroom + tip
    if feeCap < maxFee then .error (errFeeCapExceeded.wrap "evm: max fee per gas exceeds cap")
    else .ok ⟨gasLimit, maxFee, tip⟩

def gasEstimate (a : Adapter) (msg : CallMsg) : Tx RpcReply Err GasParams := do
  let estimate ← orReject (← Tx.stmt (.estimateGas msg)) (errGasEstimation.wrap "evm: estimate gas")
  let gasLimit ← Tx.ofExcept (bufferGas a.gasLimitCap estimate)
  let tip ← orReject (← Tx.stmt .suggestGasTipCap) (errGasEstimation.wrap "evm: suggest gas tip")
  let baseFee ← orReject (← Tx.stmt .headerByNumber) (errGasEstimation.wrap "evm: latest header")
  Tx.ofExcept (priceFees a.maxFeePerGasCapWei gasLimit tip baseFee)

/-! ### Submitting -/

/-- The next nonce of each sender that the adapter has sent for; 0 for the others. -/
abbrev Nonces := Address → UInt64

/-- Run a step with the next nonce, which is used up only if the step succeeds. -/
def withNonce {α : Type} (next : Nonces) («from» : Address) (fn : UInt64 → Tx RpcReply Err α) :
    Program RpcReply (Except Err α × Nonces) :=
  .call (.pendingNonceAt «from») fun
    | .error _ => .done (.error (errNonceUnavailable.wrap "evm: query pending nonce"), next)
    | .ok pending =>
      let nonce := if pending < next «from» then next «from» else pending
      Tx.handle (fn nonce) fun
        | .error err => .done (.error err, next)
        | .ok value => .done (.ok value, Function.update next «from» (nonce + 1))

def assetUSDC : String := "USDC"

/-- The checks on an intent and its calldata. -/
def prepare (a : Adapter) (intent : PaymentIntent) : Except Err (List UInt8) :=
  if intent.asset ≠ assetUSDC then
    .error (errUnsupportedAsset.wrap ("evm: asset " ++ Ledger.quote intent.asset ++ " has no route"))
  else if ¬isHexAddress intent.to then
    .error (errInvalidIntent.wrap "evm: recipient is not a valid address")
  else if Address.ofHex intent.to = 0 then
    .error (errInvalidIntent.wrap "evm: recipient is the zero address")
  else if ¬intent.amount.any fun amount ↦ 0 < amount ∧ amount < 2 ^ 256 then
    .error (errInvalidIntent.wrap "evm: amount is not a positive uint256")
  else if intent.keyID ≠ "" ∧ intent.keyID ≠ a.keyID then
    .error (errInvalidIntent.wrap "evm: intent key_id is not bound to this adapter")
  else packERC20Transfer (Address.ofHex intent.to) intent.amount

/-- What the adapter asks the signer to sign. -/
def signerRequest (a : Adapter) (data : List UInt8) (gp : GasParams) (nonce : UInt64) :
    SignerRequest :=
  { keyID := a.keyID
    chainID := a.chainID
    nonce := nonce
    gasLimit := gp.gasLimit
    «to» := a.token
    value := 0
    maxFeePerGas := gp.maxFee
    maxPriorityFeePerGas := gp.tip
    data := data }

/-- The critical section of a submission: sign, check the sender, send. -/
def signAndSend (eth : Signer.Ethereum) (a : Adapter) (data : List UInt8) (gp : GasParams)
    (nonce : UInt64) : Tx RpcReply Err String := do
  let signed ← orReject (← Tx.stmt (.sign (signerRequest a data gp nonce)))
    (errSignerRejected.wrap "evm: signer declined")
  if signed.from ≠ a.from then
    Tx.fail (errSignerRejected.wrap "evm: signed sender does not match configured from")
  else
    let tx ← orReject (eth.unmarshalBinary signed.rawTransaction)
      (errBroadcast.wrap "evm: decode signed transaction")
    orReject (← Tx.stmt (.sendTransaction tx)) (errBroadcast.wrap "evm: broadcast transaction")
    return signed.txHash.hex

/-- `Adapter.Submit`. -/
def submit (eth : Signer.Ethereum) (a : Adapter) (next : Nonces) (intent : PaymentIntent) :
    Program RpcReply (Except Err String × Nonces) :=
  match prepare a intent with
  | .error err => .done (.error err, next)
  | .ok data =>
    Tx.handle (gasEstimate a ⟨a.from, a.token, 0, data⟩) fun
      | .error err => .done (.error err, next)
      | .ok gp => withNonce next a.from (signAndSend eth a data gp)

/-! ### The one transaction of a submission -/

/-- A conversation that sends at most one transaction, with its last call.  It ends in `failed` if it
does not send or the call is answered with an error, and in `sent` otherwise. -/
def SendsLast {ρ : Type} (failed sent : ρ → Prop) : Program RpcReply ρ → Prop
  | .done result => failed result
  | .call (.sendTransaction _) next =>
    (∀ text, ∃ result, failed result ∧ next (.error text) = .done result) ∧
      ∃ result, sent result ∧ next (.ok ()) = .done result
  | .call _ next => ∀ reply, SendsLast failed sent (next reply)

/-- Calls other than the one that sends. -/
def Preparing : Rpc → Prop
  | .sendTransaction _ => False
  | _ => True

/-- A result that is an error, and one that is a hash. -/
def Failed (result : Except Err String) : Prop := ∃ err, result = .error err

def Sent (result : Except Err String) : Prop := ∃ hash, result = .ok hash ∧ hash ≠ ""

/-- The same of a body that returns one or the other. -/
def TxSendsLast (body : Tx RpcReply Err String) : Prop := SendsLast Failed Sent body

section

variable {α ρ ρ' : Type} {failed sent : ρ → Prop} {failed' sent' : ρ' → Prop}

/-- What is done with the result of a conversation that sends. -/
theorem SendsLast.bind {program : Program RpcReply ρ} {rest : ρ → Program RpcReply ρ'}
    (h : SendsLast failed sent program)
    (hfailed : ∀ result, failed result → ∃ result', failed' result' ∧ rest result = .done result')
    (hsent : ∀ result, sent result → ∃ result', sent' result' ∧ rest result = .done result') :
    SendsLast failed' sent' (program >>= rest) := by
  induction program with
  | done result =>
    obtain ⟨result', hresult', hrest⟩ := hfailed result h
    change SendsLast failed' sent' (rest result)
    rw [hrest]
    exact hresult'
  | call call next ih =>
    cases call with
    | sendTransaction tx =>
      obtain ⟨herror, result, hresult, hok⟩ := h
      obtain ⟨result', hresult', hrest⟩ := hsent result hresult
      refine ⟨fun text ↦ ?_, result', hresult', (congrArg (· >>= rest) hok).trans hrest⟩
      obtain ⟨result, hresult, htext⟩ := herror text
      obtain ⟨result', hresult', hrest⟩ := hfailed result hresult
      exact ⟨result', hresult', (congrArg (· >>= rest) htext).trans hrest⟩
    | _ => exact fun reply ↦ ih reply (h reply)

/-- What is done before a conversation that sends. -/
theorem SendsLast.of_preparing {program : Program RpcReply α} {rest : α → Program RpcReply ρ}
    (hprogram : program.Issues Preparing) (hrest : ∀ value, SendsLast failed sent (rest value)) :
    SendsLast failed sent (program >>= rest) := by
  induction program with
  | done result => exact hrest result
  | call call next ih =>
    cases call with
    | sendTransaction tx => exact hprogram.1.elim
    | _ => exact fun reply ↦ ih reply (hprogram.2 reply)

end

theorem issues_gasEstimate (a : Adapter) (msg : CallMsg) :
    Program.Issues Preparing (gasEstimate a msg) := by
  refine Tx.issues_bind (Tx.issues_stmt trivial) fun _ ↦ Tx.issues_bind (Tx.issues_ofExcept _) fun _ ↦ ?_
  refine Tx.issues_bind (Tx.issues_ofExcept _) fun _ ↦ Tx.issues_bind (Tx.issues_stmt trivial) fun _ ↦ ?_
  refine Tx.issues_bind (Tx.issues_ofExcept _) fun _ ↦ Tx.issues_bind (Tx.issues_stmt trivial) fun _ ↦ ?_
  exact Tx.issues_bind (Tx.issues_ofExcept _) fun _ ↦ Tx.issues_ofExcept _

theorem sendsLast_signAndSend (eth : Signer.Ethereum) (a : Adapter) (data : List UInt8)
    (gp : GasParams) (nonce : UInt64) : TxSendsLast (signAndSend eth a data gp nonce) := by
  intro signed
  cases signed with
  | error text => exact ⟨_, rfl⟩
  | ok signed =>
    change TxSendsLast (ite _ _ _)
    split
    · exact ⟨_, rfl⟩
    · cases htx : eth.unmarshalBinary signed.rawTransaction with
      | error text => exact ⟨_, rfl⟩
      | ok tx =>
        exact ⟨fun text ↦ ⟨_, ⟨_, rfl⟩, rfl⟩, _, ⟨_, rfl, Hash.hex_ne_empty _⟩, rfl⟩

/-- A submission sends at most one transaction, with its last call.  It returns a hash if that call
succeeded and an error in every other case. -/
theorem sendsLast_submit (eth : Signer.Ethereum) (a : Adapter) (next : Nonces)
    (intent : PaymentIntent) :
    SendsLast (fun result ↦ Failed result.1) (fun result ↦ Sent result.1)
      (submit eth a next intent) := by
  unfold submit
  split
  · exact ⟨_, rfl⟩
  · next data _ =>
    refine SendsLast.of_preparing (issues_gasEstimate a _) fun estimate ↦ ?_
    cases estimate with
    | error err => exact ⟨_, rfl⟩
    | ok gp =>
      intro pending
      cases pending with
      | error text => exact ⟨_, rfl⟩
      | ok pending =>
        refine SendsLast.bind (sendsLast_signAndSend eth a data gp _) ?_ ?_
        · rintro _ ⟨err, rfl⟩
          exact ⟨_, ⟨err, rfl⟩, rfl⟩
        · rintro _ ⟨hash, rfl, hne⟩
          exact ⟨_, ⟨hash, rfl, hne⟩, rfl⟩

end PaymentRail.Evm
