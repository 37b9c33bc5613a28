import PaymentRail.Ctl.Approvals

/-!
# The commands keep their contract

Each command verified against the contract of the approvals, for any number of them at once, with
crashes, failures of statements and commits that are reported as failed, and with any answers from
outside.  Most of what a command asks for is `Calm`: it concerns no approval.  What is left is the
conversation of the adapter, which sends with its last call, and the transactions of the store.
-/

namespace PaymentRail.Ctl

open Transaction Policy

/-- The transaction of a `SendTransaction` that is rejected is not on the network, if the node is honest. -/
def Bound (S : Setting) (limits : Limits Job Call Op Choice Unit) : Prop :=
  S.honest → ∀ job tx choice ext, limits.admits job (.rpc (.sendTransaction tx)) choice ext →
    ∀ text, choice.answer (.rpc (.sendTransaction tx)) = .error text → choice.delivered = false

/-! ### Demands -/

/-- Calls that neither send a transaction nor hand over a payment. -/
def Calm : Demand Call Op → Prop
  | .transact _ | .perform (.rpc (.sendTransaction _)) | .perform (.handOver _) => False
  | .perform _ => True

/-- The calls of a submission that is not gated. -/
def Ungated (gate : ApprovalGate) : Demand Call Op → Prop
  | .transact _ => False
  | .perform (.handOver intent) => gate.required (some intent.amount) = false
  | .perform _ => True

theorem Calm.ungated {gate : ApprovalGate} {demand : Demand Call Op} (h : Calm demand) :
    Ungated gate demand := by
  cases demand with
  | transact call => exact h
  | perform op =>
    cases op with
    | handOver intent => exact h.elim
    | _ => trivial

section Issues

variable {P : Demand Call Op → Prop}

theorem issues_perform {op : Op} (h : P (.perform op)) :
    Program.Issues P (perform op : Running (OpReply op)) := ⟨h, fun _ ↦ trivial⟩

theorem issues_ask {op : Op} (h : P (.perform op)) : Program.Issues P (ask op) := Tx.issues_stmt h

theorem issues_converse {α : Type} {Q : Evm.Rpc → Prop} {program : Program Evm.RpcReply α}
    (h : program.Issues Q) (hcall : ∀ call, Q call → P (.perform (.rpc call))) :
    (converse program).Issues P := h.translate fun call hq ↦ issues_perform (hcall call hq)

theorem issues_orFail {α : Type} (reply : Except Err α) (context : Err → Err) :
    Program.Issues P (Tx.orFail reply context : Fallible α) := Tx.issues_ofExcept _

end Issues

theorem issues_verifyChainID (a : Evm.Adapter) :
    Program.Issues Evm.Preparing (Evm.verifyChainID a) := by
  refine Tx.issues_bind (Tx.issues_stmt trivial) fun reply ↦ ?_
  cases reply with
  | error text => trivial
  | ok got =>
    simp only
    split <;> trivial

theorem calm_enforceVelocity (caps : VelocityCaps) (intent : Intent) :
    Program.Issues Calm (enforceVelocity caps intent) := by
  unfold enforceVelocity
  split
  · refine Tx.issues_bind (issues_ask trivial) fun _ ↦ Tx.issues_bind (issues_orFail _ _) fun _ ↦ ?_
    exact Tx.issues_bind (issues_ask trivial) fun _ ↦ issues_orFail _ _
  · trivial

theorem calm_connect (cfg : Config) (evmCfg : Evm.Config) : Program.Issues Calm (connect cfg evmCfg) := by
  have hcalm : ∀ call, Evm.Preparing call → Calm (.perform (.rpc call)) := by
    intro call hcall
    cases call with
    | sendTransaction tx => exact hcall.elim
    | _ => trivial
  refine Tx.issues_bind (issues_ask trivial) fun _ ↦ Tx.issues_bind (issues_orFail _ _) fun _ ↦ ?_
  refine Tx.issues_bind (issues_ask trivial) fun _ ↦ Tx.issues_bind (issues_orFail _ _) fun _ ↦ ?_
  refine Tx.issues_bind (Tx.issues_ofExcept _) fun adapter ↦ ?_
  exact Tx.issues_handle (issues_converse (issues_verifyChainID adapter) hcalm) fun _ ↦
    Tx.issues_ofExcept _

theorem calm_readyAdapter (env : Environment) (intent : Intent) :
    Program.Issues Calm (readyAdapter env intent) := by
  refine Tx.issues_bind (Tx.issues_ofExcept _) fun config ↦ ?_
  exact Tx.issues_bind (calm_enforceVelocity config.2 intent) fun _ ↦ calm_connect env.cfg config.1

theorem calm_linkPayment (intent : Intent) (txHash : String) :
    (linkPayment intent txHash).Issues Calm := by
  unfold linkPayment
  split
  · trivial
  · split
    · trivial
    · refine Program.Issues.bind (issues_perform trivial) fun reply ↦ ?_
      cases reply with
      | error err => trivial
      | ok _ =>
        refine Program.Issues.bind (issues_perform trivial) fun reply ↦ ?_
        cases reply <;> trivial

theorem ungated_broadcastIntent {gate : ApprovalGate} {intent : Intent} (env : Environment)
    (h : gate.required (some intent.amount) = false) :
    (broadcastIntent env intent).Issues (Ungated gate) := by
  refine Program.Issues.bind ((calm_readyAdapter env intent).mono fun _ ↦ Calm.ungated)
    fun adapter ↦ ?_
  cases adapter with
  | error err => trivial
  | ok adapter =>
    refine Program.Issues.bind (issues_perform h) fun _ ↦ ?_
    refine Program.Issues.bind (issues_converse (Program.issues_of_forall fun _ ↦ trivial)
      fun _ _ ↦ trivial) fun result ↦ ?_
    split
    · trivial
    · exact (calm_linkPayment intent _).mono fun _ ↦ Calm.ungated

/-! ### Commands -/

section Commands

variable {S : Setting} {limits : Limits Job Call Op Choice Unit} {pid : ℕ} {job : Job} {v : CtlView}
  {id : UUID} {approver : String} {row : PaymentApproval}

/-- An event that is no claim and no delivery changes nothing for anybody. -/
theorem respects_event (event : CtlEvent) (hmark : ∀ id, mark? id event = none)
    (hdelivery : ∀ id, delivery? id event = none) :
    Respects pid v ⟨v.db, v.ext, event :: v.log⟩ := fun id _ hheld ↦
  ⟨(claimsSince_of_none (hmark id)).trans hheld, rfl, deliveries_of_none (hdelivery id)⟩

theorem delivery?_of_calm {op : Op} {choice : Choice} {reply : OpReply op} (h : Calm (.perform op)) :
    delivery? id (.performed pid job op choice reply) = none := by
  cases op with
  | rpc call =>
    cases call with
    | sendTransaction tx => exact h.elim
    | _ => rfl
  | _ => rfl

theorem allows_calm {op : Op} {choice : Choice} {reply : OpReply op} (hinv : Lawful S v)
    (h : Calm (.perform op)) :
    (contract S).Allows pid v (v.perform v.ext pid job op choice reply) := by
  refine allows_event hinv (fun _ ↦ rfl) (fun _ ↦ .inl (delivery?_of_calm h)) fun _ _ _ _ _ _ heq ↦ ?_
  cases heq
  exact h.elim

/-- What survives the others survives the calm part of a command. -/
theorem pwp_calm {β : Type} {K : CtlView → Prop} {program : Running β}
    (hstable : ∀ v v', Respects pid v v' → K v → K v') (hissues : program.Issues Calm) (hv : K v) :
    pwp (commands S.env) limits (contract S) pid job program (fun _ ↦ K) v := by
  refine pwp_of_issues hissues hstable (fun _ _ _ _ hcalm ↦ hcalm.elim)
    (fun op choice v hcalm hinv hk _ ↦ ⟨allows_calm hinv hcalm, ?_⟩) hv
  exact hstable v _ (respects_event _ (fun _ ↦ rfl) fun _ ↦ delivery?_of_calm hcalm) hk

theorem pwp_openDatabase :
    pwp (commands S.env) limits (contract S) pid job (perform Op.openDatabase) (fun _ _ ↦ True) v :=
  pwp_calm (fun _ _ _ _ ↦ trivial) (issues_perform trivial) trivial

/-- A command may end at any time. -/
theorem ends (result : Except Err Unit) : (contract S).Ends pid job result v := by
  intro v' _ hinv
  exact allows_event hinv (fun _ ↦ rfl) (fun _ ↦ .inl rfl) fun _ _ _ _ _ _ heq ↦ by cases heq

/-- The holder's conversation with the node.  If it fails, nothing was sent. -/
theorem pwp_converse {ρ : Type} {failed sent : ρ → Prop} {program : Program Evm.RpcReply ρ}
    (hbound : Bound S limits) (hjob : ∀ other, job.approves other = true → other = id)
    (hprogram : Evm.SendsLast failed sent program) (hv : Unsent S id pid approver row v) :
    pwp (commands S.env) limits (contract S) pid job (converse program)
      (fun result v' ↦ (failed result ∧ Unsent S id pid approver row v') ∨
        (sent result ∧ Holds id pid approver row v')) v := by
  induction program generalizing v with
  | done result => exact .inl ⟨hprogram, hv⟩
  | call call next ih =>
    have hcall : converse (.call call next) =
        perform (Op.rpc call) >>= fun reply ↦ converse (next reply) := rfl
    rw [hcall]
    refine pwp_bind.mpr fun v₁ hrely hinv choice hadmits ↦ ?_
    have hv₁ := hv.stable hrely
    cases call with
    | sendTransaction tx =>
      obtain ⟨herror, result, hsent, hok⟩ := hprogram
      have hdelivery : ∀ other, delivery? other (.performed pid job (.rpc (.sendTransaction tx)) choice
          (choice.answer (.rpc (.sendTransaction tx)))) = none ∨
            ∃ approver row, Unsent S other pid approver row v₁ := by
        intro other
        by_cases happroves : job.approves other = true
        · exact .inr ⟨approver, row, hjob other happroves ▸ hv₁⟩
        · exact .inl (if_neg (by simp [happroves]))
      refine ⟨allows_event hinv (fun _ ↦ rfl) hdelivery fun _ _ _ _ _ _ heq ↦ (by cases heq), ?_⟩
      have hheld : ∀ reply, Holds id pid approver row
          (v₁.perform v₁.ext pid job (.rpc (.sendTransaction tx)) choice reply) := fun _ ↦
        ⟨(claimsSince_of_none rfl).trans hv₁.1.claim, hv₁.1.row⟩
      change pwp _ _ _ _ _ (converse (next (choice.answer (.rpc (.sendTransaction tx))))) _ _
      cases hanswer : choice.answer (.rpc (.sendTransaction tx)) with
      | error text =>
        obtain ⟨result, hfailed, hdone⟩ := herror text
        rw [hdone]
        refine .inl ⟨hfailed, hheld _, fun honest ↦ ?_⟩
        have hrejected := hbound honest job tx choice v₁.ext hadmits text hanswer
        have hquiet : delivery? id (.performed pid job (.rpc (.sendTransaction tx)) choice
            (.error text)) = none := if_neg (by simp [hrejected])
        exact (deliveries_of_none hquiet).trans (hv₁.2 honest)
      | ok _ =>
        rw [hok]
        exact .inr ⟨hsent, hheld _⟩
    | _ =>
      refine ⟨allows_calm hinv trivial, ih _ (hprogram _) (hv₁.stable ?_)⟩
      exact respects_event _ (fun _ ↦ rfl) fun _ ↦ rfl

/-- The hash that is linked is returned whatever becomes of the link. -/
theorem pwp_linkPayment {intent : Intent} {txHash : String} (hv : Holds id pid approver row v) :
    pwp (commands S.env) limits (contract S) pid job (linkPayment intent txHash)
      (fun sent v' ↦ sent.1 = txHash ∧ Holds id pid approver row v') v := by
  have hask : ∀ {op : Op} {v : CtlView}, Calm (.perform op) → Holds id pid approver row v →
      pwp (commands S.env) limits (contract S) pid job (perform op)
        (fun _ ↦ Holds id pid approver row) v := fun hcalm ↦
    pwp_calm (fun _ _ hrely h ↦ h.stable hrely) (issues_perform hcalm)
  unfold linkPayment
  split
  · exact ⟨rfl, hv⟩
  · split
    · exact ⟨rfl, hv⟩
    · refine pwp_bind.mpr (pwp_mono (fun reply v₁ hv₁ ↦ ?_) (hask trivial hv))
      cases reply with
      | error err => exact ⟨rfl, hv₁⟩
      | ok _ =>
        refine pwp_bind.mpr (pwp_mono (fun reply v₂ hv₂ ↦ ?_) (hask trivial hv₁))
        cases reply with
        | error err => exact ⟨rfl, hv₂⟩
        | ok _ => exact ⟨rfl, hv₂⟩

/-- The holder broadcasts what it was given.  An empty hash means that nothing was sent. -/
theorem pwp_broadcastIntent (hbound : Bound S limits)
    (hjob : ∀ other, job.approves other = true → other = id) (hv : Unsent S id pid approver row v) :
    pwp (commands S.env) limits (contract S) pid job (broadcastIntent S.env row.intent)
      (fun sent v' ↦ Holds id pid approver row v' ∧
        (sent.1 = "" → Unsent S id pid approver row v')) v := by
  refine pwp_bind.mpr (pwp_mono (fun adapter v₁ hv₁ ↦ ?_)
    (pwp_calm (fun _ _ hrely h ↦ h.stable hrely) (calm_readyAdapter S.env row.intent) hv))
  cases adapter with
  | error err => exact ⟨hv₁.1, fun _ ↦ hv₁⟩
  | ok adapter =>
    refine pwp_bind.mpr fun v₂ hrely hinv choice _ ↦ ?_
    have hv₂ := hv₁.stable hrely
    constructor
    · refine allows_event hinv (fun _ ↦ rfl) (fun _ ↦ .inl rfl) fun hnone _ _ _ _ _ heq _ ↦ ?_
      cases heq
      exact hv₂.1.justified hinv hnone
    · have hv₃ := hv₂.stable (respects_event (.performed pid job (.handOver row.intent) choice
        (choice.answer (.handOver row.intent))) (fun _ ↦ rfl) fun _ ↦ rfl)
      refine pwp_bind.mpr (pwp_mono (fun result v₄ hresult ↦ ?_)
        (pwp_converse hbound hjob (Evm.sendsLast_submit S.env.eth adapter _ _) hv₃))
      rcases hresult with ⟨⟨err, herr⟩, hv₄⟩ | ⟨⟨hash, hhash, hne⟩, hv₄⟩
      · rw [herr]
        exact ⟨hv₄.1, fun _ ↦ hv₄⟩
      · rw [hhash]
        refine pwp_mono (fun sent v₅ h ↦ ⟨h.2, fun hempty ↦ ?_⟩) (pwp_linkPayment hv₄)
        exact absurd (h.1.symm.trans hempty) hne

/-- The holder reopens the approval or records the hash. -/
theorem pwp_broadcastClaimed {approvalID : String} (hbound : Bound S limits)
    (hid : UUID.parse approvalID = .ok id) (hjob : ∀ other, job.approves other = true → other = id)
    (hv : Unsent S id pid approver row v) :
    pwp (commands S.env) limits (contract S) pid job (broadcastClaimed S.env approvalID row.intent)
      ((contract S).Ends pid job) v := by
  refine pwp_bind.mpr (pwp_mono (fun sent v₁ hsent ↦ ?_) (pwp_broadcastIntent hbound hjob hv))
  obtain ⟨hash, err⟩ := sent
  cases err with
  | some err =>
    simp only
    split
    · next hempty =>
      refine pwp_bind.mpr fun v₂ hrely hinv ↦ ⟨fun outcome writes hcommits ↦ ?_, fun _ ↦ ends _⟩
      obtain ⟨locks, hcommits⟩ := hcommits
      exact ⟨allows_reopen hinv ((hsent.2 hempty).stable hrely) hid hcommits, ends _, fun _ _ ↦ ends _⟩
    · exact ends _
  | none =>
    refine pwp_bind.mpr fun v₂ hrely hinv ↦ ⟨fun outcome writes hcommits ↦ ?_, fun _ ↦ ends _⟩
    obtain ⟨locks, hcommits⟩ := hcommits
    exact ⟨allows_markBroadcast hinv (hsent.1.stable hrely) hid hcommits, ends _, fun _ _ ↦ ends _⟩

theorem pwp_runApprove (hbound : Bound S limits) (flags : ApproveFlags) :
    pwp (commands S.env) limits (contract S) pid (.approve flags) (runApprove S.env flags)
      ((contract S).Ends pid (.approve flags)) v := by
  unfold runApprove
  split
  · exact ends _
  · split
    · exact ends _
    · split
      · exact ends _
      · next gate hgate =>
        obtain rfl := S.built gate hgate
        refine pwp_bind.mpr (pwp_mono (fun reply v₁ _ ↦ ?_) pwp_openDatabase)
        cases reply with
        | error err => exact ends _
        | ok _ =>
          refine pwp_bind.mpr fun v₂ _ hinv ↦ ⟨fun outcome writes hcommits ↦ ?_, fun _ ↦ ends _⟩
          obtain ⟨locks, hcommits⟩ := hcommits
          obtain ⟨hallows, id, row, hid, rfl, hv⟩ := allows_claim hinv hcommits
          refine ⟨hallows, pwp_broadcastClaimed hbound hid (fun other happroves ↦ ?_) hv,
            fun _ _ ↦ ends _⟩
          exact Except.ok.inj ((names_iff.mp happroves).symm.trans hid)

theorem pwp_park {flags : SubmitFlags} {proposer : String} {intent : Intent}
    (hscreened : Screened S.env intent.to) :
    pwp (commands S.env) limits (contract S) pid (.submit flags) (park S.gate proposer intent)
      ((contract S).Ends pid (.submit flags)) v := by
  unfold park
  split
  · exact ends _
  · split
    · exact ends _
    · next hknown =>
      rw [not_not] at hknown
      refine pwp_bind.mpr (pwp_mono (fun reply v₁ _ ↦ ?_) pwp_openDatabase)
      cases reply with
      | error err => exact ends _
      | ok _ =>
        refine pwp_bind.mpr fun v₂ _ hinv ↦ ⟨fun outcome writes hcommits ↦ ?_, fun _ ↦ ends _⟩
        obtain ⟨locks, hcommits⟩ := hcommits
        exact ⟨allows_propose hinv hcommits hknown hscreened, ends _, fun _ _ ↦ ends _⟩

theorem screened_of_screenDestination {env : Environment} {dest : String}
    (h : screenDestination env dest = .ok ()) : Screened env dest := by
  obtain ⟨denylist, hload, hscreen⟩ := bind_eq_ok.mp h
  exact ⟨denylist, mapError_eq_ok.mp hload, mapError_eq_ok.mp hscreen⟩

/-- A submission that is not gated works on no approval. -/
theorem pwp_ungated {β : Type} {flags : SubmitFlags} {program : Running β}
    (hissues : program.Issues (Ungated S.gate)) :
    pwp (commands S.env) limits (contract S) pid (.submit flags) program (fun _ _ ↦ True) v := by
  refine pwp_of_issues hissues (fun _ _ _ _ ↦ trivial) (fun _ _ _ _ hnone ↦ hnone.elim)
    (fun op choice v hop hinv _ _ ↦ ⟨?_, trivial⟩) trivial
  refine allows_event hinv (fun _ ↦ rfl) (fun _ ↦ .inl ?_) fun _ _ _ _ _ _ heq hrequired ↦ ?_
  · cases op with
    | rpc call => cases call <;> rfl
    | _ => rfl
  · cases heq
    cases hop.symm.trans hrequired

theorem pwp_runSubmit (flags : SubmitFlags) :
    pwp (commands S.env) limits (contract S) pid (.submit flags) (runSubmit S.env flags)
      ((contract S).Ends pid (.submit flags)) v := by
  unfold runSubmit
  split
  · exact ends _
  · next amount _ =>
    split
    · exact ends _
    · next hscreen =>
      split
      · exact ends _
      · next gate hgate =>
        obtain rfl := S.built gate hgate
        split
        · exact pwp_park (screened_of_screenDestination hscreen)
        · next hrequired =>
          have hungated : S.gate.required (some (flags.intent S.env.cfg amount).amount) = false :=
            Bool.eq_false_of_not_eq_true hrequired
          exact pwp_bind.mpr (pwp_mono (fun _ _ _ ↦ ends _)
            (pwp_ungated (ungated_broadcastIntent S.env hungated)))

theorem verified (hbound : Bound S limits) : Verified (commands S.env) limits (contract S) where
  refl pid v _ _ hheld := ⟨hheld, rfl, rfl⟩
  trans pid a b c hab hbc id approver hheld := by
    obtain ⟨hclaim, hrow, hdeliveries⟩ := hab id approver hheld
    obtain ⟨hclaim', hrow', hdeliveries'⟩ := hbc id approver hclaim
    exact ⟨hclaim', hrow'.trans hrow, hdeliveries'.trans hdeliveries⟩
  commits db tables hreaches pid call outcome writes locks hopen :=
    ⟨locks, commits_of_reaches hreaches hopen⟩
  main pid job v _ := by
    cases job with
    | submit flags => exact pwp_runSubmit flags
    | approve flags => exact pwp_runApprove hbound flags

end Commands

end PaymentRail.Ctl
