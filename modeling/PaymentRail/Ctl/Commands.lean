import PaymentRail.Ctl.ApprovalStore
import PaymentRail.Evm.Adapter

/-!
# Submitting and approving payments

The commands `submit` and `approve` of `paymentrailctl` as processes over the approval store.  A payment
below the approval threshold is broadcast by `submit`.  One at or above it is parked, and `approve` claims
it for a second operator, broadcasts it, and reopens it if it was not sent.

What the commands ask of others is a call to the outside: the velocity limiter, the signer, the chain
node and the link to the payment.  A call gets any answer.  `handOver` stands for the call of the
adapter's `Submit` itself, so that the log of a run shows it.  The flags are given as `flag.Parse` leaves
them, and the configuration as `config.Load` does.  Log lines and prints are left out.
-/

namespace PaymentRail.Ctl

open Transaction Ledger Policy

/-- The settings that the two commands read. -/
structure Config where
  signerGRPCAddr : String
  chainRPCURL : String
  chainID : UInt64
  chainKeyID : String
  chainFromAddress : String
  chainUSDCAddress : String
  chainGasLimitCap : UInt64
  chainMaxFeePerGasCapWei : String
  policyDenylist : String
  policyVelocityWindow : ℤ
  policyVelocityMaxCount : UInt64
  policyVelocityMaxAmount : String
  policyApprovalThreshold : String
  policyApprovers : List String

/-- What the commands run in: their configuration, the files it names, and the transaction format. -/
structure Environment where
  cfg : Config
  manifests : Manifests
  eth : Signer.Ethereum

structure SubmitFlags where
  «to» : String
  amount : String
  asset : String := "USDC"
  keyID : String
  paymentID : String
  proposer : String

structure ApproveFlags where
  approvalID : String
  approver : String

inductive Job where
  | submit (flags : SubmitFlags)
  | approve (flags : ApproveFlags)

inductive Op where
  | openDatabase
  | charge (caps : VelocityCaps) (keyID : String) (amount : ℤ)
  | dialSigner (addr : String)
  | dialChain (url : String)
  | rpc (call : Evm.Rpc)
  | handOver (intent : Intent)
  | link (paymentID : UUID) (txHash : String)

abbrev OpReply : Op → Type
  | .openDatabase | .charge .. | .dialSigner _ | .dialChain _ | .link .. => Except Err Unit
  | .rpc call => Evm.RpcReply call
  | .handOver _ => Unit

/-- The answer that a call gets, whatever it is, and whether the network took what it sent. -/
structure Choice where
  answer : (op : Op) → OpReply op
  delivered : Bool

/-- The part of a command that is still to be done. -/
abbrev Running (α : Type) := Program (Demand.Answer Call Err Outcome OpReply) α

/-- The same with an error to leave it by. -/
abbrev Fallible (α : Type) := Tx (Demand.Answer Call Err Outcome OpReply) Err α

/-! ### Configuration -/

/-- Decimal digits, at least one. -/
def decimal (digits : List Char) : Option ℕ :=
  if digits = [] then none
  else digits.foldlM (fun acc c ↦ if c.isDigit then some (acc * 10 + (c.toNat - 48)) else none) 0

/-- `big.Int.SetString` in base 10. -/
def setString (s : String) : Option ℤ :=
  match s.toList with
  | '+' :: digits => (decimal digits).map fun n ↦ (n : ℤ)
  | '-' :: digits => (decimal digits).map fun n ↦ -(n : ℤ)
  | digits => (decimal digits).map fun n ↦ (n : ℤ)

def buildApprovalGate (cfg : Config) : Except Err ApprovalGate :=
  if cfg.policyApprovalThreshold = "" ∨ cfg.policyApprovalThreshold = "0" then
    .ok ⟨none, cfg.policyApprovers⟩
  else
    let invalid : Err := .plain ("config: invalid PAYMENT_RAIL_POLICY_APPROVAL_THRESHOLD " ++
      quote cfg.policyApprovalThreshold)
    match setString cfg.policyApprovalThreshold with
    | none => .error invalid
    | some threshold =>
      if threshold ≤ 0 then .error invalid
      else if cfg.policyApprovers = [] then
        .error (.plain ("config: PAYMENT_RAIL_POLICY_APPROVAL_THRESHOLD is set but " ++
          "PAYMENT_RAIL_POLICY_APPROVERS is empty — gated payments would be un-approvable"))
      else .ok ⟨some threshold, cfg.policyApprovers⟩

/-- The checks of `broadcastIntent` on the configuration: that of the adapter and the velocity caps. -/
def broadcastConfig (cfg : Config) (intent : Intent) : Except Err (Evm.Config × VelocityCaps) := do
  if cfg.chainRPCURL = "" then throw (.plain "broadcast: PAYMENT_RAIL_CHAIN_RPC_URL is required")
  if cfg.chainFromAddress = "" then
    throw (.plain "broadcast: PAYMENT_RAIL_CHAIN_FROM_ADDRESS is required")
  if cfg.chainUSDCAddress = "" then
    throw (.plain "broadcast: PAYMENT_RAIL_CHAIN_USDC_ADDRESS is required")
  if intent.keyID = "" then
    throw (.plain "broadcast: PAYMENT_RAIL_CHAIN_KEY_ID (or --key-id) is required")
  let some feeCap := setString cfg.chainMaxFeePerGasCapWei
    | throw (.plain ("broadcast: PAYMENT_RAIL_CHAIN_MAX_FEE_PER_GAS_CAP_WEI " ++
        quote cfg.chainMaxFeePerGasCapWei ++ " is not a valid decimal integer"))
  let evmCfg : Evm.Config :=
    ⟨intent.keyID, cfg.chainID, Address.ofHex cfg.chainFromAddress, Address.ofHex cfg.chainUSDCAddress,
      cfg.chainGasLimitCap, some feeCap⟩
  if cfg.policyVelocityMaxAmount = "" then
    return (evmCfg, ⟨cfg.policyVelocityWindow, cfg.policyVelocityMaxCount, none⟩)
  let some maxAmount := setString cfg.policyVelocityMaxAmount
    | throw (.plain ("broadcast: PAYMENT_RAIL_POLICY_VELOCITY_MAX_AMOUNT " ++
        quote cfg.policyVelocityMaxAmount ++ " is not a valid decimal integer"))
  return (evmCfg, ⟨cfg.policyVelocityWindow, cfg.policyVelocityMaxCount, some maxAmount⟩)

/-! ### Broadcasting -/

/-- A call to the outside, as a step that may leave. -/
def ask (op : Op) : Fallible (OpReply op) := Tx.stmt (Demand.perform op)

/-- A conversation with the node and the signer. -/
def converse {α : Type} (program : Program Evm.RpcReply α) : Running α :=
  program.translate fun call ↦ perform (Op.rpc call)

/-- An error of the adapter.  Nobody looks for its sentinel here. -/
def ofEvm (err : Evm.Err) : Err := .plain err.text

/-- Charge the payment to the limits of its key, if there are any. -/
def enforceVelocity (caps : VelocityCaps) (intent : Intent) : Fallible Unit :=
  if caps.enabled then do
    Tx.orFail (← ask .openDatabase) (Fault.wrap "broadcast: velocity check: open database")
    Tx.orFail (← ask (.charge caps intent.keyID intent.amount)) (Fault.wrap "broadcast: velocity check")
  else pure ()

/-- Dial the signer and the node, build the adapter and check the chain. -/
def connect (cfg : Config) (evmCfg : Evm.Config) : Fallible Evm.Adapter := do
  Tx.orFail (← ask (.dialSigner cfg.signerGRPCAddr))
    (Fault.wrap ("broadcast: dial signer at " ++ cfg.signerGRPCAddr))
  Tx.orFail (← ask (.dialChain cfg.chainRPCURL))
    (Fault.wrap ("broadcast: dial chain rpc at " ++ cfg.chainRPCURL))
  let adapter ← Tx.ofExcept ((Evm.newAdapter evmCfg).mapError fun err ↦
    (ofEvm err).wrap "broadcast: build adapter")
  Tx.handle (converse (Evm.verifyChainID adapter)) fun verified ↦
    Tx.ofExcept ((verified.mapError fun err ↦ (ofEvm err).wrap "broadcast: verify chain id").map
      fun _ ↦ adapter)

/-- Everything that `broadcastIntent` does before it submits. -/
def readyAdapter (env : Environment) (intent : Intent) : Fallible Evm.Adapter := do
  let (evmCfg, caps) ← Tx.ofExcept (broadcastConfig env.cfg intent)
  enforceVelocity caps intent
  connect env.cfg evmCfg

/-- Record which payment a transaction settles.  The payment is sent whatever becomes of this. -/
def linkPayment (intent : Intent) (txHash : String) : Running (String × Option Err) :=
  if intent.paymentID = "" then pure (txHash, none)
  else
    match UUID.parse intent.paymentID with
    | .error err =>
      pure (txHash, some (.plain ("broadcast: tx " ++ txHash ++ " broadcast succeeded but payment id " ++
        quote intent.paymentID ++ " is not a valid uuid — reconcile manually: " ++ parseErrorText err)))
    | .ok paymentID => do
      let failed := "broadcast: tx " ++ txHash ++ " broadcast succeeded but linking to payment " ++
        paymentID.string ++ " failed"
      match ← perform Op.openDatabase with
      | .error err => pure (txHash, some (err.wrap (failed ++ ": open database")))
      | .ok () =>
        match ← perform (Op.link paymentID txHash) with
        | .error err => pure (txHash, some (err.wrap (failed ++ " — reconcile manually")))
        | .ok () => pure (txHash, none)

/-- What the adapter is handed. -/
def paymentIntent (intent : Intent) : Evm.PaymentIntent :=
  ⟨intent.keyID, intent.asset, intent.to, some intent.amount⟩

/-- The hash is empty unless the adapter returned it; an error may come with or without. -/
def broadcastIntent (env : Environment) (intent : Intent) : Running (String × Option Err) := do
  match ← readyAdapter env intent with
  | .error err => pure ("", some err)
  | .ok adapter =>
    perform (Op.handOver intent)
    -- the command has used no nonce before
    match (← converse (Evm.submit env.eth adapter (fun _ ↦ 0) (paymentIntent intent))).1 with
    | .error err => pure ("", some ((ofEvm err).wrap "broadcast"))
    | .ok txHash => linkPayment intent txHash

/-! ### Submit -/

/-- The checks on the flags; the amount is returned. -/
def checkFlags (flags : SubmitFlags) : Except Err ℤ := do
  if flags.to = "" then throw (.plain "submit: --to is required")
  if ¬isHexAddress flags.to then
    throw (.plain ("submit: --to " ++ quote flags.to ++ " is not a valid address"))
  if flags.amount = "" then throw (.plain "submit: --amount is required")
  let some amount := setString flags.amount
    | throw (.plain ("submit: --amount " ++ quote flags.amount ++ " is not a valid decimal integer"))
  if amount ≤ 0 then throw (.plain "submit: --amount must be positive")
  let _ ← parsePaymentID "submit: --payment-id" flags.paymentID
  return amount

/-- Load the denylist and screen a destination. -/
def screenDestination (env : Environment) («to» : String) : Except Err Unit := do
  let denylist ← (Denylist.load env.manifests env.cfg.policyDenylist).mapError fun err ↦
    (ofPolicy err).wrap "submit: load policy denylist"
  (denylist.screen «to»).mapError fun err ↦ (ofPolicy err).wrap "submit: screen destination"

/-- The intent of a submission. -/
def SubmitFlags.intent (flags : SubmitFlags) (cfg : Config) (amount : ℤ) : Intent where
  «to» := flags.to
  asset := flags.asset
  keyID := if flags.keyID = "" then cfg.chainKeyID else flags.keyID
  paymentID := flags.paymentID
  amount := amount

/-- Park a payment for a second operator. -/
def park (gate : ApprovalGate) (proposer : String) (intent : Intent) : Running (Except Err Unit) :=
  if proposer = "" then
    pure (.error (.plain ("submit: --proposer is required for a payment at or above the four-eyes " ++
      "approval threshold")))
  else if ¬gate.knownApprover proposer then
    pure (.error (.plain ("submit: proposer " ++ quote proposer ++ " is not in the approver allowlist")))
  else do
    match ← perform Op.openDatabase with
    | .error err => pure (.error (err.wrap "submit: four-eyes: open database"))
    | .ok () =>
      match ← transact (.propose proposer intent) with
      | .error err => pure (.error (err.wrap "submit: four-eyes: record pending approval"))
      | .ok _ => pure (.ok ())

def runSubmit (env : Environment) (flags : SubmitFlags) : Running (Except Err Unit) :=
  match checkFlags flags with
  | .error err => pure (.error err)
  | .ok amount =>
    match screenDestination env flags.to with
    | .error err => pure (.error err)
    | .ok () =>
      match buildApprovalGate env.cfg with
      | .error err => pure (.error (err.wrap "submit"))
      | .ok gate =>
        if gate.required (some amount) then
          park gate flags.proposer (flags.intent env.cfg amount)
        else do
          let sent ← broadcastIntent env (flags.intent env.cfg amount)
          pure (sent.2.elim (.ok ()) .error)

/-! ### Approve -/

/-- What a claim returned. -/
def claimedIntent : Except Err Outcome → Except Err Intent
  | .ok (.claimed intent) => .ok intent
  | .ok _ => .error (.plain "approval: not a claim")
  | .error err => .error err

/-- The decision that a claim takes under the lock of its row. -/
def decideClaim (gate : ApprovalGate) (approver : String) (pa : PendingApproval) : Except Err Unit :=
  (gate.authorize pa.proposer approver).mapError ofPolicy

def claimError (flags : ApproveFlags) (err : Err) : Err :=
  if err.is .errApprovalNotFound then
    .plain ("approve: no pending approval with id " ++ flags.approvalID)
  else if err.is .errAlreadyApproved then
    .plain ("approve: approval " ++ flags.approvalID ++
      " is not pending (already approved, broadcast, or being claimed)")
  else if err.is (.policy .errUnknownApprover) then
    .plain ("approve: approver " ++ quote flags.approver ++ " is not in the approver allowlist")
  else if err.is (.policy .errSelfApproval) then
    .plain ("approve: approver " ++ quote flags.approver ++
      " must differ from the proposer (four-eyes)")
  else err.wrap ("approve: claim approval " ++ flags.approvalID)

/-- Broadcast a claimed payment and record what became of it. -/
def broadcastClaimed (env : Environment) (approvalID : String) (intent : Intent) :
    Running (Except Err Unit) := do
  match ← broadcastIntent env intent with
  | (hash, some err) =>
    if hash = "" then do
      -- whether it was reopened is only printed
      let _ ← transact (.reopen approvalID)
      pure (.error err)
    else pure (.error err)
  | (hash, none) => do
    -- a failure to record the hash is only logged
    let _ ← transact (.markBroadcast approvalID hash)
    pure (.ok ())

def runApprove (env : Environment) (flags : ApproveFlags) : Running (Except Err Unit) :=
  if flags.approvalID = "" then pure (.error (.plain "approve: <approval-id> is required"))
  else if flags.approver = "" then pure (.error (.plain "approve: --approver is required"))
  else
    match buildApprovalGate env.cfg with
    | .error err => pure (.error (err.wrap "approve"))
    | .ok gate => do
      match ← perform Op.openDatabase with
      | .error err => pure (.error (err.wrap "approve: open database"))
      | .ok () =>
        let claimed ← transact (.claim flags.approvalID flags.approver (decideClaim gate flags.approver))
        match claimedIntent claimed with
        | .error err => pure (.error (claimError flags err))
        | .ok intent => broadcastClaimed env flags.approvalID intent

def main (env : Environment) : Job → Running (Except Err Unit)
  | .submit flags => runSubmit env flags
  | .approve flags => runApprove env flags

/-- The commands over one approval table. -/
def commands (env : Environment) : System Reply Ambient Approvals Write UUID Call Err Outcome OpReply
    Choice Unit Job (Except Err Unit) where
  engine := store
  body := body
  eval op choice ext := (choice.answer op, ext)
  main := main env

end PaymentRail.Ctl
