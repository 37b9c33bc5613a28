import PaymentRail.Ctl.Verification

/-!
# Four eyes, and one transaction for an approval

Two properties of every run of the commands, in any interleaving and with crashes anywhere.

A payment at or above the threshold reaches the adapter only if one operator of the allowlist proposed
it and another one claimed it since (`gated_payment_has_two_operators`).

The network takes at most one transaction for an approval, as long as it never takes one that the node
answered with an error (`one_transaction_per_approval`).  `approve` takes such an answer for a failure
before the send and reopens the approval, so that it is paid a second time under the next nonce
(`taken_although_rejected_pays_twice`).
-/

namespace PaymentRail.Ctl

open Transaction Policy

/-- A run starts lawfully if it knows the approvals that are already there. -/
theorem lawful_start {S : Setting} {approvals : Approvals}
    (h : ∀ id row, approvals.row id = some row → S.initial id) : Lawful S ⟨approvals, (), []⟩ where
  proposed id row hrow hnew := absurd (h id row hrow) hnew
  claimed _ _ _ hmem := by cases hmem
  single _ := Nat.zero_le 1
  unsent _ _ _ := rfl
  once _ _ := Nat.zero_le 1
  handed _ := trivial

/-- The gate of a configuration with a threshold. -/
theorem gate_of_threshold {cfg : Config} {threshold : ℤ} {gate : ApprovalGate}
    (hthreshold : setString cfg.policyApprovalThreshold = some threshold) (hpositive : 0 < threshold)
    (h : buildApprovalGate cfg = .ok gate) : gate = ⟨some threshold, cfg.policyApprovers⟩ := by
  unfold buildApprovalGate at h
  split at h
  · next hdisabled =>
    -- the texts that disable the gate are no positive number
    rcases hdisabled with htext | htext
    · rw [htext] at hthreshold
      cases hthreshold
    · rw [htext] at hthreshold
      cases hthreshold
      cases hpositive
  · simp only [hthreshold, if_neg (not_le.mpr hpositive)] at h
    split at h
    · cases h
    · exact (Except.ok.inj h).symm

/-- In every run of the commands on a table without approvals, a payment at or above the threshold that
is handed to the adapter was proposed by an operator of the allowlist, for a destination that passed the
screen, and, since the approval was last reopened, claimed once, by another operator of the
allowlist. -/
theorem gated_payment_has_two_operators {env : Environment} {threshold : ℤ}
    (hthreshold : setString env.cfg.policyApprovalThreshold = some threshold) (hpositive : 0 < threshold)
    {w : World Reply Approvals Write UUID Call Err Outcome OpReply Choice Unit Job (Except Err Unit)}
    (h : (commands env).Reaches .none [] () w) {newer older : List CtlEvent} {pid : ℕ} {job : Job}
    {intent : Intent} {choice : Choice} {reply : Unit}
    (hlog : w.log = newer ++ .performed pid job (.handOver intent) choice reply :: older)
    (hamount : threshold ≤ intent.amount) :
    Justified env ⟨some threshold, env.cfg.policyApprovers⟩ intent older := by
  let S : Setting := ⟨env, ⟨some threshold, env.cfg.policyApprovers⟩, fun _ ↦ False, False,
    fun _ ↦ gate_of_threshold hthreshold hpositive⟩
  have hverified : Verified (commands S.env) .none (contract S) := verified fun honest ↦ honest.elim
  have hinv : Lawful S w.view :=
    (hverified.sound (lawful_start fun _ _ hrow ↦ by cases hrow) h).inv
  have hhanded : Handed S.env S.gate w.log := hinv.handed fun _ hinitial ↦ hinitial
  rw [hlog] at hhanded
  exact hhanded.of_append (by simp [S, ApprovalGate.required, ApprovalGate.enabled, hpositive, hamount])

/-! ### A gated payment -/

/-- Payments from 1000 on need two of three operators; no denylist and no velocity limits. -/
def sampleConfig : Config where
  signerGRPCAddr := "signer:9000"
  chainRPCURL := "http://node:8545"
  chainID := 5
  chainKeyID := "hot"
  chainFromAddress := "0x0000000000000000000000000000000000000001"
  chainUSDCAddress := "0x0000000000000000000000000000000000000002"
  chainGasLimitCap := 100000
  chainMaxFeePerGasCapWei := "1000"
  policyDenylist := ""
  policyVelocityWindow := 0
  policyVelocityMaxCount := 0
  policyVelocityMaxAmount := ""
  policyApprovalThreshold := "1000"
  policyApprovers := ["alice", "bob", "carol"]

/-- The transaction that the sample payment becomes under a nonce. -/
def sampleTx (nonce : UInt8) : Signer.SignedTransaction :=
  ⟨⟨5, nonce.toUInt64, some 2, some 62, 62501, some 2, some 0, Evm.transferCalldata 0xA7 1500⟩, []⟩

/-- Only the transactions of the sample payment are encoded, by their nonce. -/
def sampleEthereum : Signer.Ethereum where
  marshalBinary tx :=
    if tx = sampleTx tx.inner.nonce.toUInt8 then .ok [tx.inner.nonce.toUInt8] else .error ""
  unmarshalBinary
    | [nonce] => .ok (sampleTx nonce)
    | _ => .error ""
  hash tx := BitVec.ofNat 256 tx.inner.nonce.toNat
  unmarshal_marshal tx raw h := by
    split at h
    · next htx =>
      cases h
      exact congrArg Except.ok htx.symm
    · cases h

def sampleEnvironment : Environment := ⟨sampleConfig, fun _ ↦ .ok [], sampleEthereum⟩

/-- Everybody answers.  The node counts transactions up to `nonce` and answers what is sent with
`sent`. -/
def sampleAnswer (nonce : UInt8) (sent : Except String Unit) : (op : Op) → OpReply op
  | .openDatabase | .charge .. | .dialSigner _ | .dialChain _ | .link .. => .ok ()
  | .handOver _ => ()
  | .rpc .chainID => .ok (some 5)
  | .rpc (.pendingNonceAt _) => .ok nonce.toUInt64
  | .rpc .headerByNumber => .ok (some 30)
  | .rpc .suggestGasTipCap => .ok 2
  | .rpc (.estimateGas _) => .ok 50001
  | .rpc (.sendTransaction _) => sent
  | .rpc (.sign req) => .ok ⟨[req.nonce.toUInt8], 0, 1⟩

abbrev CtlMove := Move Job Ambient Choice Err

/-- A transaction of a process, with this many statements. -/
def transacting (pid statements : ℕ) (uuid : UUID) : List CtlMove :=
  [.begin pid] ++ List.replicate statements (.exec pid ⟨uuid, none⟩) ++ [.commit pid none]

/-- Calls of a process to the outside. -/
def calling (pid calls : ℕ) (nonce : UInt8) (sent : Except String Unit) : List CtlMove :=
  List.replicate calls (.perform pid ⟨sampleAnswer nonce sent, true⟩)

/-- An operator approves the payment with id 7, up to the point where it is handed to the adapter. -/
def claiming (pid : ℕ) (approver : String) : List CtlMove :=
  [.spawn pid (.approve ⟨UUID.string 7, approver⟩)] ++ calling pid 1 0 (.ok ()) ++
    transacting pid 3 0 ++ calling pid 4 0 (.ok ())

def sampleFlags : SubmitFlags where
  «to» := "0x00000000000000000000000000000000000000A7"
  amount := "1500"
  keyID := ""
  paymentID := ""
  proposer := "alice"

/-- One operator proposes a payment, another one approves it. -/
def proposedAndClaimed : List CtlMove :=
  [.spawn 0 (.submit sampleFlags)] ++ calling 0 1 0 (.ok ()) ++ transacting 0 2 7 ++ [.finish 0] ++
    claiming 1 "bob"

def sampleRun (approvals : Approvals) (limits : Limits Job Call Op Choice Unit)
    [∀ job call, Decidable (limits.losesAck job call)]
    [∀ job op choice ext, Decidable (limits.admits job op choice ext)] (moves : List CtlMove) :=
  (commands sampleEnvironment).run limits (.idle approvals ()) moves

instance (job : Job) (call : Call) :
    Decidable ((Limits.none : Limits Job Call Op Choice Unit).losesAck job call) :=
  inferInstanceAs (Decidable True)

instance (job : Job) (op : Op) (choice : Choice) (ext : Unit) :
    Decidable ((Limits.none : Limits Job Call Op Choice Unit).admits job op choice ext) :=
  inferInstanceAs (Decidable True)

/-- The amount that the last event handed to the adapter. -/
def lastHanded : List CtlEvent → Option ℤ
  | .performed _ _ (.handOver intent) _ _ :: _ => some intent.amount
  | _ => none

theorem lastHanded_eq_some {log : List CtlEvent} {amount : ℤ} (h : lastHanded log = some amount) :
    ∃ pid job intent choice reply older, intent.amount = amount ∧
      log = [] ++ .performed pid job (.handOver intent) choice reply :: older := by
  unfold lastHanded at h
  split at h
  · next pid job intent choice reply older =>
    exact ⟨pid, job, intent, choice, reply, older, Option.some.inj h, rfl⟩
  · cases h

theorem gated_payment_has_two_operators_sample :
    (sampleRun [] .none proposedAndClaimed).map (fun w ↦ lastHanded w.log) = some (some 1500) ∧
    ∃ w pid job intent choice reply older, sampleRun [] .none proposedAndClaimed = some w ∧
      w.log = [] ++ .performed pid job (.handOver intent) choice reply :: older ∧
      Justified sampleEnvironment ⟨some 1000, ["alice", "bob", "carol"]⟩ intent older := by
  have hrun : (sampleRun [] .none proposedAndClaimed).map (fun w ↦ lastHanded w.log) =
      some (some 1500) := by
    decide +kernel
  obtain ⟨w, hw, hlast⟩ := Option.map_eq_some_iff.mp hrun
  obtain ⟨pid, job, intent, choice, reply, older, hamount, hlog⟩ := lastHanded_eq_some hlast
  have hthreshold : setString sampleEnvironment.cfg.policyApprovalThreshold = some 1000 := by
    decide +kernel
  exact ⟨hrun, w, pid, job, intent, choice, reply, older, hw, hlog,
    gated_payment_has_two_operators hthreshold (by norm_num) (reaches_of_run .idle hw) hlog
      (by rw [hamount]; norm_num)⟩

/-! ### One transaction for an approval -/

/-- A transaction that is answered with an error is not taken by the network. -/
def Choice.faithful (choice : Choice) : Op → Bool
  | .rpc (.sendTransaction tx) =>
    (choice.answer (.rpc (.sendTransaction tx))).isOk || !choice.delivered
  | _ => true

/-- Anything may go wrong, but an error of `SendTransaction` means that nothing was sent. -/
def rejectionIsFinal : Limits Job Call Op Choice Unit where
  losesAck _ _ := True
  admits _ op choice _ := choice.faithful op = true

/-- The setting of a run on any table.  A configuration that gives no gate lets nobody claim, and any
gate can stand for it. -/
def honestSetting (env : Environment) : Setting where
  env := env
  gate := (buildApprovalGate env.cfg).toOption.getD ⟨none, []⟩
  initial _ := True
  honest := True
  built g hg := by
    rw [hg]
    rfl

theorem bound_rejectionIsFinal (env : Environment) : Bound (honestSetting env) rejectionIsFinal := by
  intro _ job tx choice ext hadmits text hanswer
  have hfaithful : ((choice.answer (.rpc (.sendTransaction tx))).isOk || !choice.delivered) = true :=
    hadmits
  rw [hanswer] at hfaithful
  simpa [Except.isOk, Except.toBool] using hfaithful

/-- In every run in which the network never takes a transaction that the node answered with an error, it
takes at most one transaction for an approval, and none for one that is pending. -/
theorem one_transaction_per_approval {env : Environment} {approvals : Approvals}
    {w : World Reply Approvals Write UUID Call Err Outcome OpReply Choice Unit Job (Except Err Unit)}
    (h : (commands env).Reaches rejectionIsFinal approvals () w) (id : UUID) :
    (deliveries id w.log).length ≤ 1 ∧
      ∀ row, w.tables.db.row id = some row → row.status = .pending → deliveries id w.log = [] := by
  have hinv : Lawful (honestSetting env) w.view :=
    ((verified (bound_rejectionIsFinal env)).sound (lawful_start fun _ _ _ ↦ trivial) h).inv
  refine ⟨hinv.once trivial id, fun row hrow hpending ↦ hinv.unsent trivial id fun found hfound ↦ ?_⟩
  obtain rfl : row = found := Option.some.inj (hrow.symm.trans hfound)
  exact hpending

instance (job : Job) (call : Call) : Decidable (rejectionIsFinal.losesAck job call) :=
  inferInstanceAs (Decidable True)

instance (job : Job) (op : Op) (choice : Choice) (ext : Unit) :
    Decidable (rejectionIsFinal.admits job op choice ext) :=
  inferInstanceAs (Decidable (choice.faithful op = true))

/-- The payment that was proposed above. -/
def sampleApproval : PaymentApproval :=
  ⟨7, "0x00000000000000000000000000000000000000A7", 1500, "USDC", "hot", none, "alice", none, .pending,
    none, by decide⟩

/-- The adapter sends the payment, and the command records or reopens it. -/
def sending (pid : ℕ) (nonce : UInt8) (sent : Except String Unit) : List CtlMove :=
  calling pid 6 nonce sent ++ transacting pid 1 0 ++ [.finish pid]

/-- Bob's command sends the payment; Carol's comes too late. -/
def sentOnce : List CtlMove :=
  claiming 0 "bob" ++ sending 0 5 (.ok ()) ++
    [.spawn 1 (.approve ⟨UUID.string 7, "carol"⟩)] ++ calling 1 1 6 (.ok ()) ++
    [.begin 1, .exec 1 ⟨0, none⟩, .fail 1 (.plain ""), .finish 1]

theorem one_transaction_per_approval_sample :
    (sampleRun [sampleApproval] rejectionIsFinal sentOnce).map
      (fun w ↦ (deliveries 7 w.log).map (·.inner.nonce)) = some [5] ∧
    ∃ w, sampleRun [sampleApproval] rejectionIsFinal sentOnce = some w ∧
      (deliveries 7 w.log).length ≤ 1 ∧
      ∀ row, w.tables.db.row 7 = some row → row.status = .pending → deliveries 7 w.log = [] := by
  have hrun : (sampleRun [sampleApproval] rejectionIsFinal sentOnce).map
      (fun w ↦ (deliveries 7 w.log).map (·.inner.nonce)) = some [5] := by
    decide +kernel
  obtain ⟨w, hw, -⟩ := Option.map_eq_some_iff.mp hrun
  exact ⟨hrun, w, hw, one_transaction_per_approval (reaches_of_run .idle hw) 7⟩

/-- The node takes the transaction of Bob's command and answers with a timeout; the command reopens the
approval and Carol's command sends it again. -/
def sentTwice : List CtlMove :=
  claiming 0 "bob" ++ sending 0 5 (.error "context deadline exceeded") ++
    claiming 1 "carol" ++ sending 1 6 (.ok ())

/-- A `SendTransaction` that delivers and returns an error is followed by a second transfer for the same
approval under the next nonce. -/
theorem taken_although_rejected_pays_twice :
    ∃ w, (commands sampleEnvironment).Reaches .none [sampleApproval] () w ∧
      (deliveries 7 w.log).map (·.inner.nonce) = [6, 5] := by
  have hrun : (sampleRun [sampleApproval] .none sentTwice).map
      (fun w ↦ (deliveries 7 w.log).map (·.inner.nonce)) = some [6, 5] := by
    decide +kernel
  obtain ⟨w, hw, hnonces⟩ := Option.map_eq_some_iff.mp hrun
  exact ⟨w, reaches_of_run .idle hw, hnonces⟩

end PaymentRail.Ctl
