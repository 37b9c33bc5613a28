import PaymentRail.Ctl.Commands
import PaymentRail.Transaction.Contract

/-!
# The life of an approval

What the log of a run says about an approval: who has claimed it since it was last reopened, and which
transactions the network took for it.  A process that claimed an approval holds it until it reopens it.

`Lawful` is what holds at any time.  Every row was proposed by an operator of the allowlist, for a
destination that passed the screen.  A claimed row is approved and has one claim, by an operator who may
approve it.  If the node is `honest`, that is, if a transaction that it rejects is never taken by the
network, a row that is not approved has no transaction and no row has two.  Every gated payment that was
handed to the adapter was justified by what came before.  `Respects` is what a holder relies on.
-/

namespace PaymentRail.Ctl

open Transaction Policy

abbrev CtlEvent := Event Job Call Outcome Choice OpReply (Except Err Unit)

abbrev CtlView := View Approvals Unit Job Call Outcome Choice OpReply (Except Err Unit)

/-! ### What the log says -/

/-- A text that is an id. -/
def names (text : String) (id : UUID) : Bool := (UUID.parse text).toOption = some id

/-- What an event does to the claims on an approval. -/
inductive Mark where
  | claimed (pid : ℕ) (approver : String)
  | reopened

def mark? (id : UUID) : CtlEvent → Option Mark
  | .committed pid _ (.claim approvalID approver _) _ =>
    if names approvalID id then some (.claimed pid approver) else none
  | .committed _ _ (.reopen approvalID) _ => if names approvalID id then some .reopened else none
  | _ => none

/-- The committed claims on an approval since it was last reopened, newest first: the process and the
operator. -/
def claimsSince (id : UUID) : List CtlEvent → List (ℕ × String)
  | [] => []
  | event :: log =>
    match mark? id event with
    | none => claimsSince id log
    | some (.claimed pid approver) => (pid, approver) :: claimsSince id log
    | some .reopened => []

/-- The command works on an approval. -/
def Job.approves (id : UUID) : Job → Bool
  | .approve flags => names flags.approvalID id
  | .submit _ => false

/-- The transaction that an event put on the network for an approval. -/
def delivery? (id : UUID) : CtlEvent → Option Signer.SignedTransaction
  | .performed _ job (.rpc (.sendTransaction tx)) choice _ =>
    if job.approves id && choice.delivered then some tx else none
  | _ => none

/-- The transactions that the network took for an approval, newest first. -/
def deliveries (id : UUID) (log : List CtlEvent) : List Signer.SignedTransaction :=
  log.filterMap (delivery? id)

/-- A destination that passes the screen. -/
def Screened (env : Environment) («to» : String) : Prop :=
  ∃ denylist, Denylist.load env.manifests env.cfg.policyDenylist = .ok denylist ∧
    denylist.screen «to» = .ok ()

/-- A submission of an operator of the allowlist, for a destination that passes the screen, has
committed a proposal. -/
def Proposed (env : Environment) (gate : ApprovalGate) (id : UUID) (proposer : String)
    (intent : Intent) (log : List CtlEvent) : Prop :=
  (∃ pid flags, .committed pid (.submit flags) (.propose proposer intent) (.proposed id.string) ∈ log) ∧
    gate.knownApprover proposer = true ∧ Screened env intent.to

/-- The same payment: the payment ids are both absent or the same UUID. -/
structure SamePayment (intent intent' : Intent) : Prop where
  «to» : intent.to = intent'.to
  amount : intent.amount = intent'.amount
  asset : intent.asset = intent'.asset
  keyID : intent.keyID = intent'.keyID
  paymentID : (intent.paymentID = "" ∧ intent'.paymentID = "") ∨
    ∃ id, UUID.parse intent.paymentID = .ok id ∧ UUID.parse intent'.paymentID = .ok id

/-- A payment that was proposed by one operator of the allowlist and, since it was last reopened,
claimed once, by another operator of the allowlist. -/
def Justified (env : Environment) (gate : ApprovalGate) (intent : Intent) (log : List CtlEvent) : Prop :=
  ∃ id proposer proposal pid approver, Proposed env gate id proposer proposal log ∧
    SamePayment intent proposal ∧ claimsSince id log = [(pid, approver)] ∧
    gate.knownApprover approver = true ∧ approver ≠ proposer

/-- Every payment at or above the threshold that was handed to the adapter was justified before. -/
def Handed (env : Environment) (gate : ApprovalGate) : List CtlEvent → Prop
  | [] => True
  | event :: log => (∀ pid job intent choice reply,
      event = .performed pid job (.handOver intent) choice reply →
        gate.required (some intent.amount) = true → Justified env gate intent log) ∧ Handed env gate log

theorem Handed.of_append {env : Environment} {gate : ApprovalGate} {newer older : List CtlEvent}
    {pid : ℕ} {job : Job} {intent : Intent} {choice : Choice} {reply : Unit}
    (h : Handed env gate (newer ++ .performed pid job (.handOver intent) choice reply :: older))
    (hrequired : gate.required (some intent.amount) = true) : Justified env gate intent older := by
  induction newer with
  | nil => exact h.1 pid job intent choice reply rfl hrequired
  | cons event newer ih => exact ih h.2

/-- What a row gives back is what was proposed. -/
theorem PaymentApproval.Records.samePayment {row : PaymentApproval} {proposer : String}
    {proposal : Intent} (h : row.Records proposer proposal) : SamePayment row.intent proposal := by
  refine ⟨h.to, h.amount, h.asset, h.keyID, ?_⟩
  have hpayment := h.paymentID
  unfold PaymentApproval.intent
  cases hid : row.paymentID with
  | none =>
    rw [hid, parsePaymentID_eq_none] at hpayment
    exact .inl ⟨rfl, hpayment⟩
  | some id =>
    rw [hid] at hpayment
    exact .inr ⟨id, UUID.parse_string id, parse_of_parsePaymentID hpayment⟩

/-! ### The contract -/

/-- What a run starts from and what is assumed of the node. -/
structure Setting where
  env : Environment
  gate : ApprovalGate
  /-- The approvals that were there before. -/
  initial : UUID → Prop
  /-- A transaction that the node rejects is not taken by the network. -/
  honest : Prop
  built : ∀ g, buildApprovalGate env.cfg = .ok g → g = gate

structure Lawful (S : Setting) (v : CtlView) : Prop where
  proposed : ∀ id row, v.db.row id = some row → ¬S.initial id →
    ∃ proposer intent, Proposed S.env S.gate id proposer intent v.log ∧ row.Records proposer intent
  claimed : ∀ id pid approver, (pid, approver) ∈ claimsSince id v.log →
    ∃ row, v.db.row id = some row ∧ row.status = .approved ∧
      S.gate.authorize row.proposer approver = .ok ()
  single : ∀ id, (claimsSince id v.log).length ≤ 1
  unsent : S.honest → ∀ id, (∀ row, v.db.row id = some row → row.status = .pending) →
    deliveries id v.log = []
  once : S.honest → ∀ id, (deliveries id v.log).length ≤ 1
  handed : (∀ id, ¬S.initial id) → Handed S.env S.gate v.log

/-- The approvals that a process holds stay as they are. -/
def Respects (pid : ℕ) (v v' : CtlView) : Prop :=
  ∀ id approver, claimsSince id v.log = [(pid, approver)] →
    claimsSince id v'.log = [(pid, approver)] ∧ v'.db.row id = v.db.row id ∧
      deliveries id v'.log = deliveries id v.log

/-- A process holds an approval. -/
structure Holds (id : UUID) (pid : ℕ) (approver : String) (row : PaymentApproval) (v : CtlView) :
    Prop where
  claim : claimsSince id v.log = [(pid, approver)]
  row : v.db.row id = some row

/-- The same, and a node that is honest has not been given a transaction for it. -/
def Unsent (S : Setting) (id : UUID) (pid : ℕ) (approver : String) (row : PaymentApproval)
    (v : CtlView) : Prop :=
  Holds id pid approver row v ∧ (S.honest → deliveries id v.log = [])

def contract (S : Setting) :
    Contract Approvals Unit Write Job Call Outcome Choice OpReply (Except Err Unit) where
  inv := Lawful S
  rely := Respects
  post call outcome writes approvals := ∃ locks, Commits approvals locks call outcome writes

/-! ### Steps -/

section Steps

variable {S : Setting} {v : CtlView} {event : CtlEvent} {log : List CtlEvent} {id : UUID} {pid : ℕ}
  {approver : String}

theorem names_iff {text : String} : names text id = true ↔ UUID.parse text = .ok id := by
  unfold names
  cases UUID.parse text <;> simp [Except.toOption]

/-- A text is at most one id. -/
theorem not_names {text : String} {other : UUID} (h : UUID.parse text = .ok id) (hne : other ≠ id) :
    names text other = false := by
  rw [Bool.eq_false_iff, ne_eq, names_iff, h, Except.ok.injEq]
  exact hne.symm

theorem claimsSince_of_none (h : mark? id event = none) :
    claimsSince id (event :: log) = claimsSince id log := by
  rw [claimsSince, h]

theorem deliveries_of_none (h : delivery? id event = none) :
    deliveries id (event :: log) = deliveries id log := List.filterMap_cons_none h

theorem Proposed.cons {env : Environment} {gate : ApprovalGate} {proposer : String} {intent : Intent}
    (h : Proposed env gate id proposer intent log) :
    Proposed env gate id proposer intent (event :: log) := by
  obtain ⟨⟨pid, flags, hmem⟩, hknown, hscreened⟩ := h
  exact ⟨⟨pid, flags, List.mem_cons_of_mem _ hmem⟩, hknown, hscreened⟩

/-- A row that is absent or pending has no claim. -/
theorem Lawful.unclaimed (hinv : Lawful S v)
    (h : ∀ row, v.db.row id = some row → row.status = .pending) : claimsSince id v.log = [] := by
  refine List.eq_nil_iff_forall_not_mem.mpr fun ⟨pid, approver⟩ hmem ↦ ?_
  obtain ⟨row, hrow, hstatus, -⟩ := hinv.claimed id pid approver hmem
  rw [h row hrow] at hstatus
  cases hstatus

/-- Nobody else holds what a process holds. -/
theorem Holds.not_other {row : PaymentApproval} (h : Holds id pid approver row v) (other : ℕ) (approver' : String)
    (hne : other ≠ pid) : claimsSince id v.log ≠ [(other, approver')] := by
  rw [h.claim]
  rintro ⟨⟩
  exact hne rfl

theorem Holds.stable {row : PaymentApproval} {v' : CtlView} (h : Holds id pid approver row v)
    (hrely : Respects pid v v') : Holds id pid approver row v' := by
  obtain ⟨hclaim, hrow, -⟩ := hrely id approver h.claim
  exact ⟨hclaim, hrow.trans h.row⟩

theorem Unsent.stable {row : PaymentApproval} {v' : CtlView} (h : Unsent S id pid approver row v)
    (hrely : Respects pid v v') : Unsent S id pid approver row v' := by
  obtain ⟨-, -, hdeliveries⟩ := hrely id approver h.1.claim
  exact ⟨h.1.stable hrely, fun honest ↦ hdeliveries.trans (h.2 honest)⟩

/-- An event that is no COMMIT.  A transaction is only put on the network by the holder of an approval
that has none, and a gated payment is only handed over if it is justified. -/
theorem allows_event (hinv : Lawful S v) (hmark : ∀ id, mark? id event = none)
    (hdelivery : ∀ id, delivery? id event = none ∨ ∃ approver row, Unsent S id pid approver row v)
    (hhanded : (∀ id, ¬S.initial id) → ∀ pid job intent choice reply,
      event = .performed pid job (.handOver intent) choice reply →
        S.gate.required (some intent.amount) = true → Justified S.env S.gate intent v.log) :
    (contract S).Allows pid v ⟨v.db, v.ext, event :: v.log⟩ := by
  have hclaims : ∀ id, claimsSince id (event :: v.log) = claimsSince id v.log := fun id ↦
    claimsSince_of_none (hmark id)
  refine ⟨⟨fun id row hrow hnew ↦ ?_, ?_, ?_, fun honest id hpending ↦ ?_, fun honest id ↦ ?_,
    fun hnone ↦ ⟨hhanded hnone, hinv.handed hnone⟩⟩, fun other hne id approver hheld ↦ ?_⟩
  · obtain ⟨proposer, intent, hproposed, hrecords⟩ := hinv.proposed id row hrow hnew
    exact ⟨proposer, intent, hproposed.cons, hrecords⟩
  · simp only [hclaims]
    exact hinv.claimed
  · simp only [hclaims]
    exact hinv.single
  · rcases hdelivery id with hquiet | ⟨approver, row, ⟨hclaim, -⟩, -⟩
    · exact (deliveries_of_none hquiet).trans (hinv.unsent honest id hpending)
    · -- a held row is not pending
      rw [hinv.unclaimed hpending] at hclaim
      cases hclaim
  · rcases hdelivery id with hquiet | ⟨approver, row, -, hunsent⟩
    · exact (congrArg List.length (deliveries_of_none hquiet)).le.trans (hinv.once honest id)
    · have hone : (deliveries id (event :: v.log)).length ≤ (deliveries id v.log).length + 1 := by
        unfold deliveries
        rw [List.filterMap_cons]
        split <;> simp
      rw [hunsent honest] at hone
      exact hone
  · refine ⟨(hclaims id).trans hheld, rfl, ?_⟩
    rcases hdelivery id with hquiet | ⟨_, _, hmine, -⟩
    · exact deliveries_of_none hquiet
    · exact absurd hheld (hmine.not_other other approver hne)

/-- A COMMIT that writes one row, which nobody else holds, and keeps what has to hold of it. -/
theorem allows_write (write : Write) {job : Job} {call : Call} {outcome : Outcome}
    (hinv : Lawful S v)
    (hmark : ∀ other, other ≠ write.id → mark? other (.committed pid job call outcome) = none)
    (hothers : ∀ other approver, other ≠ pid → claimsSince write.id v.log ≠ [(other, approver)])
    (hproposed : ∀ row, (v.db.apply write).row write.id = some row → ¬S.initial write.id →
      ∃ proposer intent, Proposed S.env S.gate write.id proposer intent
        (.committed pid job call outcome :: v.log) ∧ row.Records proposer intent)
    (hclaimed : ∀ pid' approver,
      (pid', approver) ∈ claimsSince write.id (.committed pid job call outcome :: v.log) →
        ∃ row, (v.db.apply write).row write.id = some row ∧ row.status = .approved ∧
          S.gate.authorize row.proposer approver = .ok ())
    (hsingle : (claimsSince write.id (.committed pid job call outcome :: v.log)).length ≤ 1)
    (hunsent : S.honest →
      (∀ row, (v.db.apply write).row write.id = some row → row.status = .pending) →
        deliveries write.id v.log = []) :
    (contract S).Allows pid v (v.commit store pid job call outcome [write]) := by
  have hclaims : ∀ other, other ≠ write.id →
      claimsSince other (.committed pid job call outcome :: v.log) = claimsSince other v.log :=
    fun other hne ↦ claimsSince_of_none (hmark other hne)
  have hrow : ∀ other, other ≠ write.id → (v.db.apply write).row other = v.db.row other :=
    fun other hne ↦ row_apply_of_ne hne.symm
  refine ⟨⟨fun other row hfound hnew ↦ ?_, fun other pid' approver hmem ↦ ?_, fun other ↦ ?_,
    fun honest other hpending ↦ ?_, hinv.once, fun hnone ↦ ⟨?_, hinv.handed hnone⟩⟩,
    fun other hne id approver hheld ↦ ?_⟩
  · rcases eq_or_ne other write.id with rfl | hne
    · exact hproposed row hfound hnew
    · obtain ⟨proposer, intent, hold, hrecords⟩ :=
        hinv.proposed other row ((hrow other hne).symm.trans hfound) hnew
      exact ⟨proposer, intent, hold.cons, hrecords⟩
  · rcases eq_or_ne other write.id with rfl | hne
    · exact hclaimed pid' approver hmem
    · obtain ⟨row, hfound, hrest⟩ := hinv.claimed other pid' approver ((hclaims other hne) ▸ hmem)
      exact ⟨row, (hrow other hne).trans hfound, hrest⟩
  · rcases eq_or_ne other write.id with rfl | hne
    · exact hsingle
    · exact (congrArg List.length (hclaims other hne)).le.trans (hinv.single other)
  · rcases eq_or_ne other write.id with rfl | hne
    · exact hunsent honest hpending
    · exact hinv.unsent honest other fun row hfound ↦ hpending row ((hrow other hne).trans hfound)
  · rintro _ _ _ _ _ ⟨⟩
  · have hid : id ≠ write.id := by
      rintro rfl
      exact hothers other approver hne hheld
    exact ⟨(hclaims id hid).trans hheld, hrow id hid, rfl⟩

/-- A proposal of an operator of the allowlist, for a destination that passes the screen. -/
theorem allows_propose {flags : SubmitFlags} {proposer : String} {intent : Intent} {outcome : Outcome}
    {writes : List Write} {locks : List UUID} (hinv : Lawful S v)
    (h : Commits v.db locks (.propose proposer intent) outcome writes)
    (hknown : S.gate.knownApprover proposer = true) (hscreened : Screened S.env intent.to) :
    (contract S).Allows pid v
      (v.commit store pid (.submit flags) (.propose proposer intent) outcome writes) := by
  cases h with
  | proposed _ _ row fresh records pending locked =>
    have habsent : ∀ found, v.db.row row.id = some found → found.status = .pending := by
      intro found hfound
      rw [fresh] at hfound
      cases hfound
    have hclaims := hinv.unclaimed habsent
    have hproposed : Proposed S.env S.gate row.id proposer intent
        (.committed pid (.submit flags) (.propose proposer intent) (.proposed row.id.string) :: v.log) :=
      ⟨⟨pid, flags, List.mem_cons_self⟩, hknown, hscreened⟩
    refine allows_write (.insert row) hinv (fun _ _ ↦ rfl) (fun other approver _ heq ↦ ?_)
      (fun found hfound _ ↦ ⟨proposer, intent, hproposed, ?_⟩) (fun pid' approver hmem ↦ ?_)
      (hinv.single _) fun honest _ ↦ hinv.unsent honest _ habsent
    · rw [Write.id, hclaims] at heq
      cases heq
    · have hself : (v.db.apply (.insert row)).row row.id = some row := Table.lookup_append_self fresh
      rw [Write.id, hself, Option.some.injEq] at hfound
      exact hfound ▸ records
    · rw [claimsSince_of_none rfl, Write.id, hclaims] at hmem
      cases hmem

/-- What a claim decided is what the gate says of the proposer. -/
theorem authorize_of_decideClaim {gate : ApprovalGate} {pa : PendingApproval}
    (h : decideClaim gate approver pa = .ok ()) : gate.authorize pa.proposer approver = .ok () :=
  mapError_eq_ok.mp h

/-- A COMMIT that changes one row, which nobody else holds, and leaves the proposal in it. -/
theorem allows_update (write : Write) {row row' : PaymentApproval} {job : Job} {call : Call}
    {outcome : Outcome} (hinv : Lawful S v) (hfound : v.db.row write.id = some row)
    (hafter : (v.db.apply write).row write.id = some row')
    (hrecords : ∀ proposer intent, row.Records proposer intent → row'.Records proposer intent)
    (hmark : ∀ other, other ≠ write.id → mark? other (.committed pid job call outcome) = none)
    (hothers : ∀ other approver, other ≠ pid → claimsSince write.id v.log ≠ [(other, approver)])
    (hclaimed : ∀ pid' approver,
      (pid', approver) ∈ claimsSince write.id (.committed pid job call outcome :: v.log) →
        row'.status = .approved ∧ S.gate.authorize row'.proposer approver = .ok ())
    (hsingle : (claimsSince write.id (.committed pid job call outcome :: v.log)).length ≤ 1)
    (hunsent : S.honest → row'.status = .pending → deliveries write.id v.log = []) :
    (contract S).Allows pid v (v.commit store pid job call outcome [write]) := by
  refine allows_write write hinv hmark hothers (fun found hnow hnew ↦ ?_)
    (fun pid' approver hmem ↦ ⟨row', hafter, hclaimed pid' approver hmem⟩) hsingle
    fun honest hpending ↦ hunsent honest (hpending row' hafter)
  rw [hafter, Option.some.injEq] at hnow
  obtain ⟨proposer, intent, hproposed, hold⟩ := hinv.proposed write.id row hfound hnew
  exact ⟨proposer, intent, hproposed.cons, hnow ▸ hrecords proposer intent hold⟩

/-- A claim that commits makes its process the holder of an approval without a transaction. -/
theorem allows_claim {job : Job} {approvalID : String} {outcome : Outcome} {writes : List Write}
    {locks : List UUID} (hinv : Lawful S v)
    (h : Commits v.db locks (.claim approvalID approver (decideClaim S.gate approver)) outcome writes) :
    (contract S).Allows pid v (v.commit store pid job
        (.claim approvalID approver (decideClaim S.gate approver)) outcome writes) ∧
      ∃ id row, UUID.parse approvalID = .ok id ∧ outcome = .claimed row.intent ∧
        Unsent S id pid approver row (v.commit store pid job
          (.claim approvalID approver (decideClaim S.gate approver)) outcome writes) := by
  cases h with
  | claimed _ _ _ id row parsed found pending decided locked =>
    have hpending : ∀ other, v.db.row id = some other → other.status = .pending := by
      intro other hother
      rw [found, Option.some.injEq] at hother
      exact hother ▸ pending
    have hclaims := hinv.unclaimed hpending
    have hnow : claimsSince id (.committed pid job (.claim approvalID approver
        (decideClaim S.gate approver)) (.claimed row.intent) :: v.log) = [(pid, approver)] := by
      simp [claimsSince, mark?, names_iff.mpr parsed, hclaims]
    have hrow : (v.db.apply (.approve id (some approver))).row id =
        some (row.approve (some approver)) := row_modify (fun _ ↦ rfl) found
    refine ⟨allows_update (.approve id (some approver)) hinv found hrow
      (fun _ _ h ↦ ⟨h.proposer, h.to, h.amount, h.asset, h.keyID, h.paymentID⟩)
      (fun other hne ↦ if_neg (by simp [not_names parsed hne])) (fun other _ _ heq ↦ ?_)
      (fun pid' approver' hmem ↦ ?_) (congrArg List.length hnow).le
      (fun honest _ ↦ hinv.unsent honest id hpending), id, row.approve (some approver), parsed, rfl,
      ⟨hnow, hrow⟩, fun honest ↦ hinv.unsent honest id hpending⟩
    · rw [Write.id, hclaims] at heq
      cases heq
    · rw [Write.id, hnow, List.mem_singleton, Prod.mk.injEq] at hmem
      obtain ⟨-, rfl⟩ := hmem
      exact ⟨rfl, authorize_of_decideClaim decided⟩

section Holder

variable {row : PaymentApproval} {job : Job} {approvalID : String} {outcome : Outcome}
  {writes : List Write} {locks : List UUID}

/-- The holder records the hash. -/
theorem allows_markBroadcast {txHash : String} (hinv : Lawful S v) (hheld : Holds id pid approver row v)
    (hid : UUID.parse approvalID = .ok id)
    (h : Commits v.db locks (.markBroadcast approvalID txHash) outcome writes) :
    (contract S).Allows pid v
      (v.commit store pid job (.markBroadcast approvalID txHash) outcome writes) := by
  cases h with
  | broadcast _ _ id' row' parsed found unsent locked =>
    obtain rfl : id = id' := Except.ok.inj (hid.symm.trans parsed)
    have happroved : row'.status = .approved := by
      simp only [PaymentApproval.unsent, decide_eq_true_eq] at unsent
      exact unsent.1
    refine allows_update (.broadcast id (some txHash)) hinv found (row_modify (fun _ ↦ rfl) found)
      (fun _ _ h ↦ ⟨h.proposer, h.to, h.amount, h.asset, h.keyID, h.paymentID⟩) (fun _ _ ↦ rfl)
      hheld.not_other (fun pid' approver' hmem ↦ ?_) (hinv.single id) fun _ hpending ↦ ?_
    · obtain ⟨claimed, hclaimed, -, hauthorize⟩ := hinv.claimed id pid' approver' hmem
      rw [found, Option.some.injEq] at hclaimed
      exact ⟨happroved, hclaimed ▸ hauthorize⟩
    · cases happroved.symm.trans hpending

/-- The holder gives up an approval that an honest node was not given a transaction for. -/
theorem allows_reopen (hinv : Lawful S v) (hheld : Unsent S id pid approver row v)
    (hid : UUID.parse approvalID = .ok id)
    (h : Commits v.db locks (.reopen approvalID) outcome writes) :
    (contract S).Allows pid v (v.commit store pid job (.reopen approvalID) outcome writes) := by
  cases h with
  | reopened _ id' row' parsed found unsent locked =>
    obtain rfl : id = id' := Except.ok.inj (hid.symm.trans parsed)
    have hnow : claimsSince id (.committed pid job (.reopen approvalID) .updated :: v.log) = [] := by
      simp [claimsSince, mark?, names_iff.mpr parsed]
    refine allows_update (.reopen id) hinv found (row_modify (fun _ ↦ rfl) found)
      (fun _ _ h ↦ ⟨h.proposer, h.to, h.amount, h.asset, h.keyID, h.paymentID⟩)
      (fun other hne ↦ if_neg (by simp [not_names parsed hne])) hheld.1.not_other
      (fun pid' approver' hmem ↦ ?_) ?_ fun honest _ ↦ hheld.2 honest
    · rw [Write.id, hnow] at hmem
      cases hmem
    · rw [Write.id, hnow]
      exact Nat.zero_le 1

/-- What a holder was given to broadcast is justified: it is what was proposed, and the claim is the
one of the holder. -/
theorem Holds.justified (hinv : Lawful S v) (hnone : ∀ id, ¬S.initial id)
    (hheld : Holds id pid approver row v) : Justified S.env S.gate row.intent v.log := by
  obtain ⟨proposer, proposal, hproposed, hrecords⟩ := hinv.proposed id row hheld.row (hnone id)
  have hmem : (pid, approver) ∈ claimsSince id v.log := by
    rw [hheld.claim]
    exact List.mem_singleton_self _
  obtain ⟨row', hrow', -, hauthorize⟩ := hinv.claimed id pid approver hmem
  obtain rfl : row = row' := Option.some.inj (hheld.row.symm.trans hrow')
  obtain ⟨hknown, hne⟩ := ApprovalGate.authorize_eq_ok.mp hauthorize
  exact ⟨id, proposer, proposal, pid, approver, hproposed, hrecords.samePayment, hheld.claim, hknown,
    hrecords.proposer ▸ hne⟩

end Holder

end Steps

end PaymentRail.Ctl
