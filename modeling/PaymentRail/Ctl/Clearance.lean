import PaymentRail.Ctl.FourEyes
import PaymentRail.Evm.Broadcast

/-!
# What the signer is asked for

`submit` checks a payment before it does anything else: the amount, the destination, the denylist.
`approve` broadcasts what was parked and checks none of this again.  Both charge the payment to the
velocity limits of its key before they dial anybody.

In every run, in any interleaving and with crashes anywhere, a request to the signer is for the transfer
of the payment that its process is about, the one of its flags or the parked one that it claimed, and that
payment passed the checks.  The charges that were admitted pay for the requests one by one
(`signer_requests_cleared`).  Between the two a process has a charge to its credit, which the others
leave alone, and what is parked is never changed.
-/

namespace PaymentRail.Ctl

open Transaction Policy

/-! ### Payments that may be sent -/

/-- No entry of the denylist is the destination, in whatever spelling.  Without a path there is no
denylist; a denylist that cannot be read denies everybody. -/
def Undenied (env : Environment) («to» : String) : Prop :=
  env.cfg.policyDenylist = "" ∨ ∃ entries, env.manifests env.cfg.policyDenylist = .ok entries ∧
    ∀ e ∈ entries, isHexAddress e.address ∧ Address.ofHex e.address ≠ Address.ofHex «to»

/-- What `submit` has checked of a payment when it parks or broadcasts it. -/
structure Cleared (env : Environment) (intent : Intent) : Prop where
  positive : 0 < intent.amount
  address : isHexAddress intent.to
  undenied : Undenied env intent.to

/-- The payment that a command is about: the one of its flags, or the one that is parked under its id. -/
def PaymentOf (cfg : Config) (approvals : Approvals) (intent : Intent) : Job → Prop
  | .submit flags => ∃ amount, checkFlags flags = .ok amount ∧ intent = flags.intent cfg amount
  | .approve flags => ∃ id, UUID.parse flags.approvalID = .ok id ∧
      (approvals.row id).map PaymentApproval.intent = some intent

/-- A request for the transfer of a payment, with its key and in the configured token. -/
structure RequestFor (env : Environment) (intent : Intent) (req : Evm.SignerRequest) : Prop where
  keyID : req.keyID = intent.keyID
  chain : req.chainID = env.cfg.chainID
  token : req.to = Address.ofHex env.cfg.chainUSDCAddress
  value : req.value = 0
  data : req.data = Evm.transferCalldata (Address.ofHex intent.to) intent.amount.toNat
  moved : req.domain.tx.moved = intent.amount

/-- The velocity caps of a configuration. -/
def velocityCaps (cfg : Config) : Option VelocityCaps :=
  if cfg.policyVelocityMaxAmount = "" then
    some ⟨cfg.policyVelocityWindow, cfg.policyVelocityMaxCount, none⟩
  else (setString cfg.policyVelocityMaxAmount).map fun maxAmount ↦
    ⟨cfg.policyVelocityWindow, cfg.policyVelocityMaxCount, some maxAmount⟩

theorem Cleared.samePayment {env : Environment} {intent intent' : Intent} (h : Cleared env intent')
    (hsame : SamePayment intent intent') : Cleared env intent :=
  ⟨hsame.amount ▸ h.positive, hsame.to ▸ h.address, hsame.to ▸ h.undenied⟩

theorem undenied_of_screened {env : Environment} {dest : String} (h : Screened env dest) :
    Undenied env dest := by
  obtain ⟨denylist, hload, hscreen⟩ := h
  by_cases hpath : env.cfg.policyDenylist = ""
  · exact .inl hpath
  · exact .inr (Denylist.ofHex_ne_of_screen hload hscreen hpath)

theorem checkFlags_ok {flags : SubmitFlags} {amount : ℤ} (h : checkFlags flags = .ok amount) :
    isHexAddress flags.to ∧ 0 < amount := by
  simp only [checkFlags, unless_eq_ok] at h
  obtain ⟨-, haddress, -, h⟩ := h
  split at h
  · obtain ⟨hpositive, h⟩ := unless_eq_ok.mp h
    obtain ⟨-, -, hamount⟩ := bind_eq_ok.mp h
    cases hamount
    exact ⟨not_not.mp haddress, not_le.mp hpositive⟩
  · cases h

theorem broadcastConfig_ok {cfg : Config} {intent : Intent} {evmCfg : Evm.Config} {caps : VelocityCaps}
    (h : broadcastConfig cfg intent = .ok (evmCfg, caps)) :
    velocityCaps cfg = some caps ∧ evmCfg.keyID = intent.keyID ∧ evmCfg.chainID = cfg.chainID ∧
      evmCfg.token = Address.ofHex cfg.chainUSDCAddress := by
  simp only [broadcastConfig, unless_eq_ok] at h
  obtain ⟨-, -, -, -, h⟩ := h
  split at h
  · split at h
    · next hunlimited =>
      cases h
      exact ⟨if_pos hunlimited, rfl, rfl, rfl⟩
    · next hlimited =>
      split at h
      · next maxAmount hmax =>
        cases h
        refine ⟨?_, rfl, rfl, rfl⟩
        rw [velocityCaps, if_neg hlimited, hmax]
        rfl
      · cases h
  · cases h

/-- What was parked is parked still. -/
def Lasting (approvals approvals' : Approvals) : Prop :=
  ∀ id intent, (approvals.row id).map PaymentApproval.intent = some intent →
    (approvals'.row id).map PaymentApproval.intent = some intent

theorem lasting_apply (approvals : Approvals) (write : Write) : Lasting approvals (approvals.apply write) := by
  intro id intent h
  obtain ⟨row, hrow, hintent⟩ := Option.map_eq_some_iff.mp h
  have hmodify {other : UUID} {f : PaymentApproval → PaymentApproval} (hid : ∀ row, (f row).id = row.id)
      (hf : ∀ row, (f row).intent = row.intent) :
      (Approvals.row (Table.modify PaymentApproval.id approvals other f) id).map PaymentApproval.intent =
        some intent := by
    rw [Approvals.row, Table.lookup_modify hid, ← Approvals.row, hrow, Option.map_some, Option.map_some]
    split
    · rw [hf, hintent]
    · rw [hintent]
  cases write with
  | insert added => exact Option.map_eq_some_iff.mpr ⟨row, Table.lookup_append_of_some added hrow, hintent⟩
  | approve other approver => exact hmodify (fun _ ↦ rfl) fun _ ↦ rfl
  | broadcast other txHash => exact hmodify (fun _ ↦ rfl) fun _ ↦ rfl
  | reopen other => exact hmodify (fun _ ↦ rfl) fun _ ↦ rfl

theorem PaymentOf.lasting {cfg : Config} {approvals approvals' : Approvals} {intent : Intent} {job : Job}
    (h : PaymentOf cfg approvals intent job) (hlasting : Lasting approvals approvals') :
    PaymentOf cfg approvals' intent job := by
  cases job with
  | submit flags => exact h
  | approve flags =>
    obtain ⟨id, hid, hparked⟩ := h
    exact ⟨id, hid, hlasting id intent hparked⟩

/-! ### What the log says -/

/-- A request to the signer, with the process that makes it. -/
structure Ask where
  pid : ℕ
  job : Job
  req : Evm.SignerRequest

def asked? : CtlEvent → Option Ask
  | .performed pid job (.rpc (.sign req)) _ _ => some ⟨pid, job, req⟩
  | _ => none

/-- A charge that is admitted under these caps: the process, the key and the amount. -/
def admitted? (caps : VelocityCaps) : CtlEvent → Option (ℕ × String × ℤ)
  | .performed pid _ (.charge under keyID amount) _ reply =>
    if under = caps ∧ Except.isOk reply then some (pid, keyID, amount) else none
  | _ => none

/-- The requests to the signer, newest first. -/
def asked (log : List CtlEvent) : List Ask := log.filterMap asked?

/-- What a request spends: the process, the key and what the transaction moves. -/
def spend (ask : Ask) : ℕ × String × ℤ := (ask.pid, ask.req.keyID, ask.req.domain.tx.moved)

def spent (log : List CtlEvent) : List (ℕ × String × ℤ) := (asked log).map spend

def admitted (caps : VelocityCaps) (log : List CtlEvent) : List (ℕ × String × ℤ) :=
  log.filterMap (admitted? caps)

/-- The configuration has velocity limits, and these are they. -/
def Limited (env : Environment) (caps : VelocityCaps) : Prop :=
  velocityCaps env.cfg = some caps ∧ caps.enabled = true

/-! ### The contract -/

structure Clear (env : Environment) (caps : VelocityCaps) (v : CtlView) : Prop where
  rows : ∀ row ∈ v.db, Cleared env row.intent
  asked : ∀ ask ∈ asked v.log, ∃ intent, PaymentOf env.cfg v.db intent ask.job ∧ Cleared env intent ∧
    RequestFor env intent ask.req
  charged : Limited env caps → ∀ item, (spent v.log).count item ≤ (admitted caps v.log).count item

/-- What a process spends and is charged for is up to it alone, and nobody changes what is parked. -/
structure Separate (caps : VelocityCaps) (pid : ℕ) (v v' : CtlView) : Prop where
  spent : ∀ item, (spent v'.log).count (pid, item) = (spent v.log).count (pid, item)
  admitted : ∀ item, (admitted caps v'.log).count (pid, item) = (admitted caps v.log).count (pid, item)
  parked : Lasting v.db v'.db

def clearance (env : Environment) (caps : VelocityCaps) :
    Contract Approvals Unit Write Job Call Outcome Choice OpReply (Except Err Unit) where
  inv := Clear env caps
  rely := Separate caps
  post call outcome writes approvals := ∃ locks, Commits approvals locks call outcome writes

/-- A process has been charged for a payment that it has not asked the signer for. -/
def Funded (env : Environment) (caps : VelocityCaps) (pid : ℕ) (intent : Intent) (v : CtlView) : Prop :=
  Limited env caps → (spent v.log).count (pid, intent.keyID, intent.amount) <
    (admitted caps v.log).count (pid, intent.keyID, intent.amount)

/-- A process may ask the signer for a payment. -/
structure Ready (env : Environment) (caps : VelocityCaps) (pid : ℕ) (job : Job) (intent : Intent)
    (v : CtlView) : Prop where
  payment : PaymentOf env.cfg v.db intent job
  funded : Funded env caps pid intent v

section Steps

variable {env : Environment} {caps : VelocityCaps} {limits : Limits Job Call Op Choice Unit} {pid : ℕ}
  {job : Job} {v v' : CtlView} {intent : Intent} {event : CtlEvent}

theorem Ready.stable (h : Ready env caps pid job intent v) (hrely : Separate caps pid v v') :
    Ready env caps pid job intent v' := by
  refine ⟨h.payment.lasting hrely.parked, fun hlimited ↦ ?_⟩
  rw [hrely.spent, hrely.admitted]
  exact h.funded hlimited

theorem spent_of_none (h : asked? event = none) : spent (event :: v.log) = spent v.log := by
  rw [spent, asked, List.filterMap_cons_none h]
  rfl

theorem admitted_of_none (h : admitted? caps event = none) :
    admitted caps (event :: v.log) = admitted caps v.log := List.filterMap_cons_none h

theorem spent_of_some {ask : Ask} (h : asked? event = some ask) :
    spent (event :: v.log) = spend ask :: spent v.log := by
  rw [spent, asked, List.filterMap_cons_some h]
  rfl

theorem admitted_of_some {item : ℕ × String × ℤ} (h : admitted? caps event = some item) :
    admitted caps (event :: v.log) = item :: admitted caps v.log := List.filterMap_cons_some h

/-- An event that neither asks nor charges. -/
theorem separate_event {db : Approvals} (hasked : asked? event = none)
    (hadmitted : admitted? caps event = none) (hlasting : Lasting v.db db) :
    Separate caps pid v ⟨db, v.ext, event :: v.log⟩ := by
  refine ⟨fun item ↦ ?_, fun item ↦ ?_, hlasting⟩
  · rw [spent_of_none hasked]
  · rw [admitted_of_none hadmitted]

theorem allows_event_quiet {db : Approvals} (hinv : Clear env caps v) (hasked : asked? event = none)
    (hadmitted : admitted? caps event = none) (hlasting : Lasting v.db db)
    (hrows : ∀ row ∈ db, Cleared env row.intent) :
    (clearance env caps).Allows pid v ⟨db, v.ext, event :: v.log⟩ := by
  refine ⟨⟨hrows, fun ask hask ↦ ?_, fun hlimited item ↦ ?_⟩,
    fun other _ ↦ separate_event hasked hadmitted hlasting⟩
  · rw [Ctl.asked, List.filterMap_cons_none hasked] at hask
    obtain ⟨intent, hpayment, hcleared⟩ := hinv.asked ask hask
    exact ⟨intent, hpayment.lasting hlasting, hcleared⟩
  · rw [spent_of_none hasked, admitted_of_none hadmitted]
    exact hinv.charged hlimited item

/-- One that leaves the approvals alone, too. -/
theorem allows_quiet (hinv : Clear env caps v) (hasked : asked? event = none)
    (hadmitted : admitted? caps event = none) :
    (clearance env caps).Allows pid v ⟨v.db, v.ext, event :: v.log⟩ :=
  allows_event_quiet hinv hasked hadmitted (fun _ _ h ↦ h) hinv.rows

/-- An admitted charge is to the credit of its process. -/
theorem allows_charge (under : VelocityCaps) (job : Job) (choice : Choice) (reply : Except Err Unit)
    (hinv : Clear env caps v) :
    (clearance env caps).Allows pid v
        (v.perform v.ext pid job (.charge under intent.keyID intent.amount) choice reply) ∧
      (reply = .ok () → under = caps → Funded env caps pid intent
        (v.perform v.ext pid job (.charge under intent.keyID intent.amount) choice reply)) := by
  by_cases hok : under = caps ∧ Except.isOk reply
  · have hitem : admitted? caps (.performed pid job (.charge under intent.keyID intent.amount) choice
        reply) = some (pid, intent.keyID, intent.amount) := if_pos hok
    have hnow := admitted_of_some (v := v) hitem
    refine ⟨⟨⟨hinv.rows, hinv.asked, fun hlimited item ↦ ?_⟩,
      fun other hother ↦ ⟨fun _ ↦ rfl, fun item ↦ ?_, fun _ _ h ↦ h⟩⟩, fun _ _ hlimited ↦ ?_⟩
    · apply (hinv.charged hlimited item).trans
      rw [View.perform, hnow]
      exact List.count_le_count_cons
    · rw [View.perform, hnow]
      apply List.count_cons_of_ne
      rintro ⟨⟩
      exact hother rfl
    · rw [View.perform, hnow, List.count_cons_self]
      exact Nat.lt_succ_of_le (hinv.charged hlimited _)
  · have hitem : admitted? caps (.performed pid job (.charge under intent.keyID intent.amount) choice
        reply) = none := if_neg hok
    refine ⟨allows_quiet hinv rfl hitem, fun hreply hunder ↦ ?_⟩
    rw [hreply] at hok
    exact absurd ⟨hunder, rfl⟩ hok

/-- A request for a payment that was charged. -/
theorem allows_sign {req : Evm.SignerRequest} {choice : Choice}
    {reply : Except String Signer.SignedTx} (hinv : Clear env caps v) (hcleared : Cleared env intent)
    (hreq : RequestFor env intent req) (hready : Ready env caps pid job intent v) :
    (clearance env caps).Allows pid v (v.perform v.ext pid job (.rpc (.sign req)) choice reply) := by
  have hspend : spend ⟨pid, job, req⟩ = (pid, intent.keyID, intent.amount) := by
    rw [spend, hreq.keyID, hreq.moved]
  have hnow : spent (.performed pid job (.rpc (.sign req)) choice reply :: v.log) =
      (pid, intent.keyID, intent.amount) :: spent v.log := hspend ▸ spent_of_some rfl
  refine ⟨⟨hinv.rows, fun ask hask ↦ ?_, fun hlimited item ↦ ?_⟩,
    fun other hother ↦ ⟨fun item ↦ ?_, fun _ ↦ rfl, fun _ _ h ↦ h⟩⟩
  · rcases List.mem_cons.mp hask with rfl | hold
    · exact ⟨intent, hready.payment, hcleared, hreq⟩
    · exact hinv.asked ask hold
  · rw [View.perform, hnow]
    by_cases hitem : item = (pid, intent.keyID, intent.amount)
    · rw [hitem, List.count_cons_self]
      exact hready.funded hlimited
    · rw [List.count_cons_of_ne (Ne.symm hitem)]
      exact hinv.charged hlimited item
  · rw [View.perform, hnow]
    apply List.count_cons_of_ne
    rintro ⟨⟩
    exact hother rfl

/-- A COMMIT.  Only a payment that passed the checks may be proposed. -/
theorem allows_commit {call : Call} {outcome : Outcome} {writes : List Write} {locks : List UUID}
    (hinv : Clear env caps v) (h : Commits v.db locks call outcome writes)
    (hproposed : ∀ proposer intent, call = .propose proposer intent → Cleared env intent) :
    (clearance env caps).Allows pid v (v.commit store pid job call outcome writes) := by
  have hmodify : ∀ {id : UUID} {f : PaymentApproval → PaymentApproval},
      (∀ row, (f row).intent = row.intent) →
        ∀ row ∈ Table.modify PaymentApproval.id v.db id f, Cleared env row.intent := by
    intro id f hf row hrow
    obtain ⟨old, hold, rfl⟩ := List.mem_map.mp hrow
    split
    · rw [hf]
      exact hinv.rows old hold
    · exact hinv.rows old hold
  obtain ⟨write, rfl, -⟩ := h.one_write
  apply allows_event_quiet hinv rfl rfl (lasting_apply v.db write)
  cases h with
  | proposed proposer intent row _ records =>
    intro other hother
    rcases List.mem_append.mp hother with hold | hnew
    · exact hinv.rows other hold
    · rw [List.mem_singleton.mp hnew]
      exact (hproposed proposer intent rfl).samePayment records.samePayment
  | claimed _ approver => exact hmodify fun _ ↦ rfl
  | broadcast _ txHash => exact hmodify fun _ ↦ rfl
  | reopened _ _ => exact hmodify fun _ ↦ rfl

/-! ### Commands -/

/-- Calls that neither ask the signer nor charge. -/
def Quiet : Demand Call Op → Prop
  | .transact _ | .perform (.rpc (.sign _)) | .perform (.charge ..) => False
  | .perform _ => True

theorem quiet_openDatabase : Quiet (.perform .openDatabase) := trivial

theorem asked?_of_quiet {op : Op} {choice : Choice} {reply : OpReply op} (h : Quiet (.perform op)) :
    asked? (.performed pid job op choice reply) = none := by
  cases op with
  | rpc call =>
    cases call with
    | sign req => exact h.elim
    | _ => rfl
  | _ => rfl

theorem admitted?_of_quiet {op : Op} {choice : Choice} {reply : OpReply op}
    (h : Quiet (.perform op)) : admitted? caps (.performed pid job op choice reply) = none := by
  cases op with
  | charge under keyID amount => exact h.elim
  | _ => rfl

/-- What survives the others survives the quiet part of a command. -/
theorem pwp_quiet {β : Type} {K : CtlView → Prop} {Q : β → Prop} {program : Running β}
    (hstable : ∀ v v', Separate caps pid v v' → K v → K v') (hyields : program.Yields Quiet Q)
    (hv : K v) :
    pwp (commands env) limits (clearance env caps) pid job program (fun result v' ↦ Q result ∧ K v')
      v := by
  apply pwp_of_yields hyields hstable (fun _ hquiet ↦ hquiet) _ hv
  intro op choice v hquiet hinv hk _
  have hasked : asked? (.performed pid job op choice (choice.answer op)) = none :=
    asked?_of_quiet hquiet
  have hadmitted : admitted? caps (.performed pid job op choice (choice.answer op)) = none :=
    admitted?_of_quiet hquiet
  exact ⟨allows_quiet hinv hasked hadmitted,
    hstable v _ (separate_event hasked hadmitted fun _ _ h ↦ h) hk⟩

/-- A command may end at any time. -/
theorem ends_clear (result : Except Err Unit) : (clearance env caps).Ends pid job result v := by
  intro v' _ hinv
  exact allows_quiet hinv rfl rfl

/-- A transaction after which the command ends. -/
theorem pwp_transact_last {call : Call} {rest : Except Err Outcome → Running (Except Err Unit)}
    (hproposed : ∀ proposer intent, call = .propose proposer intent → Cleared env intent)
    (hrest : ∀ result, ∃ value, rest result = .done value) :
    pwp (commands env) limits (clearance env caps) pid job (transact call >>= rest)
      ((clearance env caps).Ends pid job) v := by
  have hends : ∀ result v', pwp (commands env) limits (clearance env caps) pid job (rest result)
      ((clearance env caps).Ends pid job) v' := by
    intro result v'
    obtain ⟨value, hdone⟩ := hrest result
    rw [hdone]
    exact ends_clear value
  refine pwp_bind.mpr fun v₁ _ hinv ↦ ⟨fun outcome writes hcommits ↦ ?_, fun _ ↦ hends _ _⟩
  obtain ⟨locks, hcommits⟩ := hcommits
  exact ⟨allows_commit hinv hcommits hproposed, hends _ _, fun _ _ ↦ hends _ _⟩

theorem pwp_of_quiet {β : Type} {program : Running β} (hissues : program.Issues Quiet) :
    pwp (commands env) limits (clearance env caps) pid job program (fun _ _ ↦ True) v :=
  pwp_mono (fun _ _ _ ↦ trivial)
    (pwp_quiet (K := fun _ ↦ True) (fun _ _ _ hk ↦ hk) hissues.yields trivial)

/-- A quiet part of a command, after which nothing need be known. -/
theorem pwp_quiet_then {β γ : Type} {program : Running β} {rest : β → Running γ}
    {post : γ → CtlView → Prop} (hissues : program.Issues Quiet)
    (hrest : ∀ result v', pwp (commands env) limits (clearance env caps) pid job (rest result) post v') :
    pwp (commands env) limits (clearance env caps) pid job (program >>= rest) post v := by
  apply pwp_bind.mpr
  apply pwp_mono _ (pwp_of_quiet hissues)
  exact fun result v' _ ↦ hrest result v'

/-- What an adapter for a payment asks the signer for. -/
theorem requestFor_of_meant {evmCfg : Evm.Config} {a : Evm.Adapter} {req : Evm.SignerRequest}
    {capsRead : VelocityCaps} (hcfg : broadcastConfig env.cfg intent = .ok (evmCfg, capsRead))
    (ha : Evm.newAdapter evmCfg = .ok a) (h : Evm.Meant a (paymentIntent intent) req) :
    RequestFor env intent req := by
  obtain ⟨-, hkey, hchain, htoken⟩ := broadcastConfig_ok hcfg
  obtain ⟨hakey, hachain, -, hatoken, -⟩ := Evm.newAdapter_ok ha
  obtain ⟨data, gp, nonce, hprepare, rfl⟩ := h
  obtain ⟨amount, hamount, ⟨hpos, hlt⟩, -, rfl⟩ := Evm.prepare_ok hprepare
  obtain rfl : intent.amount = amount := Option.some.inj hamount
  refine ⟨hakey.trans hkey, hachain.trans hchain, hatoken.trans htoken, rfl, rfl, ?_⟩
  have hfits : intent.amount.toNat < 2 ^ 256 := by omega
  rw [Evm.moved_of_calldata rfl hfits, Int.toNat_of_nonneg hpos.le]

/-- After the answer of the signer a submission asks it for nothing more. -/
theorem quiet_of_signed {ρ : Type} {sends : Signer.SignedTx → Signer.SignedTransaction → Prop}
    {reply : Except String Signer.SignedTx} {program : Program Evm.RpcReply ρ}
    (h : Evm.Signed sends reply program) : (converse program).Issues Quiet := by
  cases program with
  | done result => trivial
  | call rpc next =>
    cases rpc with
    | sendTransaction tx =>
      refine ⟨trivial, fun answer ↦ ?_⟩
      obtain ⟨result, hdone⟩ := h.2 answer
      change (converse (next answer)).Issues Quiet
      rw [hdone]
      trivial
    | _ => exact h.elim

/-- The conversation of a process that is ready with the node and the signer. -/
theorem pwp_converse_clear {ρ : Type} {good : Evm.SignerRequest → Prop}
    {sends : Signer.SignedTx → Signer.SignedTransaction → Prop} {program : Program Evm.RpcReply ρ}
    (hprogram : Evm.Unsigned good sends program) (hcleared : Cleared env intent)
    (hgood : ∀ req, good req → RequestFor env intent req) (hv : Ready env caps pid job intent v) :
    pwp (commands env) limits (clearance env caps) pid job (converse program) (fun _ _ ↦ True) v := by
  induction program generalizing v with
  | done result => trivial
  | call rpc next ih =>
    have hcall : converse (.call rpc next) =
        perform (Op.rpc rpc) >>= fun reply ↦ converse (next reply) := rfl
    rw [hcall]
    refine pwp_bind.mpr fun v₁ hrely hinv choice _ ↦ ?_
    have hv₁ := hv.stable hrely
    cases rpc with
    | sign req =>
      obtain ⟨hreq, hnext⟩ := hprogram
      refine ⟨allows_sign hinv hcleared (hgood req hreq) hv₁, ?_⟩
      exact pwp_of_quiet (quiet_of_signed (hnext (choice.answer (.rpc (.sign req)))))
    | sendTransaction tx => exact hprogram.elim
    | _ =>
      refine ⟨allows_quiet hinv rfl rfl, ih _ (hprogram _) (hv₁.stable ?_)⟩
      exact separate_event rfl rfl fun _ _ h ↦ h

/-- Charging comes before everything else that `broadcastIntent` asks for. -/
theorem pwp_enforceVelocity {capsRead : VelocityCaps} (hcaps : velocityCaps env.cfg = some capsRead)
    (hpayment : PaymentOf env.cfg v.db intent job) :
    pwp (commands env) limits (clearance env caps) pid job (enforceVelocity capsRead intent)
      (fun result v' ↦ result = .ok () → Ready env caps pid job intent v') v := by
  have hstable (v v' : CtlView) (hrely : Separate caps pid v v')
      (h : PaymentOf env.cfg v.db intent job) : PaymentOf env.cfg v'.db intent job :=
    h.lasting hrely.parked
  unfold enforceVelocity
  split
  · apply pwp_bind.mpr
    apply pwp_mono _ (pwp_quiet hstable (issues_ask quiet_openDatabase).yields hpayment)
    rintro opened v₁ ⟨-, hpayment₁⟩
    cases opened with
    | error err => rintro ⟨⟩
    | ok reply =>
      cases reply with
      | error err => rintro ⟨⟩
      | ok _ =>
        refine pwp_bind.mpr fun v₂ hrely hinv choice _ ↦ ?_
        obtain ⟨hallows, hfunded⟩ := allows_charge capsRead job choice
          (choice.answer (.charge capsRead intent.keyID intent.amount)) hinv
        refine ⟨hallows, ?_⟩
        change pwp _ _ _ _ _ (Tx.orFail (choice.answer (.charge capsRead intent.keyID intent.amount)) _ :
          Fallible Unit) _ (v₂.perform v₂.ext _ _ _ _ (choice.answer (.charge ..)))
        generalize choice.answer (.charge capsRead intent.keyID intent.amount) = reply at hfunded ⊢
        cases reply with
        | error err => rintro ⟨⟩
        | ok _ =>
          refine fun _ ↦ ⟨hstable v₁ v₂ hrely hpayment₁, fun hlimited ↦ ?_⟩
          exact hfunded rfl (Option.some.inj (hcaps.symm.trans hlimited.1)) hlimited
  · next hdisabled =>
    refine fun _ ↦ ⟨hpayment, fun hlimited ↦ ?_⟩
    obtain rfl : capsRead = caps := Option.some.inj (hcaps.symm.trans hlimited.1)
    exact absurd hlimited.2 hdisabled

theorem quiet_verifyChainID (a : Evm.Adapter) : (converse (Evm.verifyChainID a)).Issues Quiet := by
  refine ⟨trivial, fun reply ↦ ?_⟩
  cases reply with
  | error text => trivial
  | ok got =>
    change Program.Issues Quiet (converse (ite _ _ _ : Tx Evm.RpcReply Evm.Err Unit))
    split <;> trivial

theorem yields_connect (cfg : Config) (evmCfg : Evm.Config) :
    Program.Yields Quiet (Tx.IfOk fun a ↦ Evm.newAdapter evmCfg = .ok a) (connect cfg evmCfg) := by
  apply Tx.yields_bind (Tx.yields_stmt trivial)
  intro _ _
  apply Tx.yields_bind (Tx.yields_ofExcept fun _ _ ↦ trivial)
  intro _ _
  apply Tx.yields_bind (Tx.yields_stmt trivial)
  intro _ _
  apply Tx.yields_bind (Tx.yields_ofExcept fun _ _ ↦ trivial)
  intro _ _
  apply Tx.yields_bind (Tx.yields_ofExcept fun a ha ↦ mapError_eq_ok.mp ha)
  intro a ha
  apply Program.Yields.bind (quiet_verifyChainID a).yields
  intro verified _
  apply Tx.yields_ofExcept
  intro b hb
  obtain ⟨_, -, rfl⟩ := map_eq_ok.mp hb
  exact ha

theorem quiet_linkPayment (intent : Intent) (txHash : String) :
    (linkPayment intent txHash).Issues Quiet := by
  unfold linkPayment
  split
  · trivial
  · split
    · trivial
    · apply Program.Issues.bind (issues_perform trivial)
      intro opened
      cases opened with
      | error err => trivial
      | ok _ =>
        apply Program.Issues.bind (issues_perform trivial)
        intro linked
        cases linked <;> trivial

/-- An adapter is ready only for a payment that was charged. -/
theorem pwp_readyAdapter (hpayment : PaymentOf env.cfg v.db intent job) :
    pwp (commands env) limits (clearance env caps) pid job (readyAdapter env intent)
      (fun result v' ↦ ∀ a, result = .ok a →
        (∀ req, Evm.Meant a (paymentIntent intent) req → RequestFor env intent req) ∧
          Ready env caps pid job intent v') v := by
  unfold readyAdapter
  cases hcfg : broadcastConfig env.cfg intent with
  | error err => rintro _ ⟨⟩
  | ok config =>
    obtain ⟨evmCfg, capsRead⟩ := config
    change pwp _ _ _ _ _
      (enforceVelocity capsRead intent >>= fun _ ↦ connect env.cfg evmCfg : Fallible Evm.Adapter) _ _
    refine pwp_bind.mpr (pwp_mono (fun charged v₁ hcharged ↦ ?_)
      (pwp_enforceVelocity (broadcastConfig_ok hcfg).1 hpayment))
    cases charged with
    | error err => rintro _ ⟨⟩
    | ok _ =>
      apply pwp_mono _ (pwp_quiet (fun _ _ hrely hk ↦ Ready.stable hk hrely)
        (yields_connect env.cfg evmCfg) (hcharged rfl))
      intro result v₂ hresult a ha
      exact ⟨fun req ↦ requestFor_of_meant hcfg (hresult.1 a ha), hresult.2⟩

theorem pwp_broadcastIntent_clear (hcleared : Cleared env intent)
    (hpayment : PaymentOf env.cfg v.db intent job) :
    pwp (commands env) limits (clearance env caps) pid job (broadcastIntent env intent)
      (fun _ _ ↦ True) v := by
  refine pwp_bind.mpr (pwp_mono (fun ready v₁ hready ↦ ?_) (pwp_readyAdapter hpayment))
  cases ready with
  | error err => trivial
  | ok adapter =>
    obtain ⟨hmeant, hready⟩ := hready adapter rfl
    refine pwp_bind.mpr (pwp_mono (fun _ v₂ hv₂ ↦ ?_) (pwp_quiet
      (fun _ _ hrely hk ↦ Ready.stable hk hrely) (issues_perform trivial).yields hready))
    refine pwp_bind.mpr (pwp_mono (fun result v₃ _ ↦ ?_)
      (pwp_converse_clear (Evm.unsigned_submit env.eth adapter _ _) hcleared hmeant hv₂.2))
    split
    · trivial
    · next txHash _ =>
      exact pwp_of_quiet (quiet_linkPayment intent txHash)

theorem pwp_broadcastClaimed_clear {approvalID : String} (hcleared : Cleared env intent)
    (hpayment : PaymentOf env.cfg v.db intent job) :
    pwp (commands env) limits (clearance env caps) pid job (broadcastClaimed env approvalID intent)
      ((clearance env caps).Ends pid job) v := by
  refine pwp_bind.mpr (pwp_mono (fun sent v₁ _ ↦ ?_) (pwp_broadcastIntent_clear hcleared hpayment))
  obtain ⟨hash, err⟩ := sent
  cases err with
  | some err =>
    simp only
    split
    · exact pwp_transact_last (by rintro _ _ ⟨⟩) fun _ ↦ ⟨_, rfl⟩
    · exact ends_clear _
  | none => exact pwp_transact_last (by rintro _ _ ⟨⟩) fun _ ↦ ⟨_, rfl⟩

theorem pwp_runApprove_clear (flags : ApproveFlags) :
    pwp (commands env) limits (clearance env caps) pid (.approve flags) (runApprove env flags)
      ((clearance env caps).Ends pid (.approve flags)) v := by
  unfold runApprove
  split
  · exact ends_clear _
  split
  · exact ends_clear _
  split
  · exact ends_clear _
  next gate _ =>
  apply pwp_quiet_then (issues_perform quiet_openDatabase)
  intro opened v₁
  cases opened with
  | error err => exact ends_clear _
  | ok _ =>
    refine pwp_bind.mpr fun v₂ _ hinv ↦ ⟨fun outcome writes hcommits ↦ ?_, fun _ ↦ ends_clear _⟩
    obtain ⟨locks, hcommits⟩ := hcommits
    refine ⟨allows_commit hinv hcommits (by rintro _ _ ⟨⟩), ?_, fun _ _ ↦ ends_clear _⟩
    cases hcommits with
    | claimed _ _ _ id row parsed found =>
      have hparked : (v₂.db.row id).map PaymentApproval.intent = some row.intent :=
        congrArg (Option.map PaymentApproval.intent) found
      exact pwp_broadcastClaimed_clear (hinv.rows row (Table.mem_of_lookup found))
        ⟨id, parsed, lasting_apply v₂.db (.approve id (some flags.approver)) id row.intent hparked⟩

theorem pwp_runSubmit_clear (flags : SubmitFlags) :
    pwp (commands env) limits (clearance env caps) pid (.submit flags) (runSubmit env flags)
      ((clearance env caps).Ends pid (.submit flags)) v := by
  unfold runSubmit
  split
  · exact ends_clear _
  next amount hflags =>
  split
  · exact ends_clear _
  next hscreen =>
  obtain ⟨haddress, hpositive⟩ := checkFlags_ok hflags
  have hcleared : Cleared env (flags.intent env.cfg amount) :=
    ⟨hpositive, haddress, undenied_of_screened (screened_of_screenDestination hscreen)⟩
  split
  · exact ends_clear _
  next gate _ =>
  split
  · unfold park
    split
    · exact ends_clear _
    split
    · exact ends_clear _
    apply pwp_quiet_then (issues_perform quiet_openDatabase)
    intro opened v₁
    cases opened with
    | error err => exact ends_clear _
    | ok _ =>
      apply pwp_transact_last
      · rintro _ _ ⟨⟩
        exact hcleared
      · intro result
        cases result <;> exact ⟨_, rfl⟩
  · exact pwp_bind.mpr (pwp_mono (fun _ _ _ ↦ ends_clear _) (pwp_broadcastIntent_clear hcleared
      ⟨amount, hflags, rfl⟩))

theorem verified_clearance : Verified (commands env) limits (clearance env caps) where
  refl pid v := ⟨fun _ ↦ rfl, fun _ ↦ rfl, fun _ _ h ↦ h⟩
  trans pid a b c hab hbc :=
    { spent := fun item ↦ (hbc.spent item).trans (hab.spent item)
      admitted := fun item ↦ (hbc.admitted item).trans (hab.admitted item)
      parked := fun id intent h ↦ hbc.parked id intent (hab.parked id intent h) }
  commits db tables hreaches pid call outcome writes locks hopen :=
    ⟨locks, commits_of_reaches hreaches hopen⟩
  main pid job v _ := by
    cases job with
    | submit flags => exact pwp_runSubmit_clear flags
    | approve flags => exact pwp_runApprove_clear flags

end Steps

/-- In every run of the commands on approvals that passed the checks of `submit`: each request to the
signer is for the transfer of the payment that its command is about, which passed them, with its key and in
the configured token, and under velocity limits every request spends a charge of its own that the limiter
admitted, made by the same process for the same key and amount. -/
theorem signer_requests_cleared {env : Environment} {approvals : Approvals}
    (hstart : ∀ row ∈ approvals, Cleared env row.intent)
    {w : World Reply Approvals Write UUID Call Err Outcome OpReply Choice Unit Job (Except Err Unit)}
    (h : (commands env).Reaches .none approvals () w) :
    (∀ ask ∈ asked w.log, ∃ intent, PaymentOf env.cfg w.tables.db intent ask.job ∧ Cleared env intent ∧
      RequestFor env intent ask.req) ∧
    ∀ caps, velocityCaps env.cfg = some caps → caps.enabled →
      (spent w.log).Subperm (admitted caps w.log) := by
  have hclear : ∀ caps, Clear env caps w.view := fun caps ↦
    (verified_clearance.sound (C := clearance env caps)
      ⟨hstart, fun _ hask ↦ (by cases hask), fun _ _ ↦ le_rfl⟩ h).inv
  refine ⟨(hclear ⟨0, 0, none⟩).asked, fun caps hcaps henabled ↦ ?_⟩
  apply List.subperm_ext_iff.mpr
  intro item _
  exact (hclear caps).charged ⟨hcaps, henabled⟩ item

/-- The sample configuration with a denylist and at most two payments an hour. -/
def strictEnvironment : Environment where
  cfg := { sampleConfig with
    policyDenylist := "denylist.json", policyVelocityWindow := 3600, policyVelocityMaxCount := 2 }
  manifests _ := .ok [⟨"0x00000000000000000000000000000000000000B8", "sanctioned"⟩]
  eth := sampleEthereum

def strictCaps : VelocityCaps := ⟨3600, 2, none⟩

/-- One operator proposes a payment, another one approves it, and it is signed.  A payment to the denied
address in another spelling ends at once. -/
def approvedAndSigned : List CtlMove :=
  [.spawn 0 (.submit sampleFlags)] ++ calling 0 1 0 (.ok ()) ++ transacting 0 2 7 ++ [.finish 0] ++
    [.spawn 1 (.approve ⟨UUID.string 7, "bob"⟩)] ++ calling 1 1 0 (.ok ()) ++ transacting 1 3 0 ++
    [.spawn 2 (.submit { sampleFlags with
      «to» := "0X00000000000000000000000000000000000000b8", amount := "5" }), .finish 2] ++
    calling 1 11 0 (.ok ())

theorem signer_requests_cleared_sample :
    ∃ w, (commands strictEnvironment).run .none (.idle [] ()) approvedAndSigned = some w ∧
      spent w.log = [(1, "hot", 1500)] ∧ admitted strictCaps w.log = [(1, "hot", 1500)] ∧
      (∀ ask ∈ asked w.log, ∃ intent, PaymentOf strictEnvironment.cfg w.tables.db intent ask.job ∧
        Cleared strictEnvironment intent ∧ RequestFor strictEnvironment intent ask.req) ∧
      (spent w.log).Subperm (admitted strictCaps w.log) := by
  have hrun : ((commands strictEnvironment).run .none (.idle [] ()) approvedAndSigned).map
      (fun w ↦ (spent w.log, admitted strictCaps w.log)) =
        some ([(1, "hot", 1500)], [(1, "hot", 1500)]) := by
    decide +kernel
  obtain ⟨w, hw, hlists⟩ := Option.map_eq_some_iff.mp hrun
  obtain ⟨hspent, hadmitted⟩ := Prod.mk.inj hlists
  obtain ⟨hcleared, hcharged⟩ := signer_requests_cleared (List.forall_mem_nil _)
    (reaches_of_run .idle hw)
  exact ⟨w, hw, hspent, hadmitted, hcleared, hcharged strictCaps (by decide) (by decide)⟩

end PaymentRail.Ctl
