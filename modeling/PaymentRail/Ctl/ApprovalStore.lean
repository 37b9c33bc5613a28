import PaymentRail.Policy.Approval
import PaymentRail.Transaction.Process

/-!
# The approval store

The table `payment_approvals` and the transactions over it (`cmd/paymentrailctl/approvalstore.go`).
`Propose` parks a payment, `Claim` approves a pending one under the lock of its row, `MarkBroadcast`
records the hash of its transaction, and `Reopen` makes it pending again.  The audit row that the first
two append is a statement of its own here; every statement may fail.

`Commits` says what each of them has written when it commits, on the table it commits to.
-/

namespace PaymentRail.Ctl

open Transaction Ledger Policy

/-- What `errors.Is` looks for in the errors of the commands. -/
inductive Sentinel where
  | policy (cause : Policy.Sentinel)
  | errNoRows
  | errApprovalNotFound
  | errAlreadyApproved
  deriving DecidableEq

abbrev Err := Fault Sentinel

def errNoRows : Err := ⟨"sql: no rows in result set", some .errNoRows⟩

def errApprovalNotFound : Err := ⟨"approval: not found", some .errApprovalNotFound⟩

def errAlreadyApproved : Err := ⟨"approval: not pending", some .errAlreadyApproved⟩

/-- An error of the policy package. -/
def ofPolicy (err : Policy.Err) : Err := ⟨err.text, err.cause.map .policy⟩

/-! ### The table -/

inductive ApprovalStatus where
  | pending
  | approved
  deriving DecidableEq

def ApprovalStatus.text : ApprovalStatus → String
  | .pending => "pending"
  | .approved => "approved"

/-- A row of `payment_approvals`, with the `CHECK` on its amount. -/
structure PaymentApproval where
  id : UUID
  toAddress : String
  amount : Int64
  asset : String
  keyID : String
  paymentID : Option UUID
  proposer : String
  approver : Option String
  status : ApprovalStatus
  txHash : Option String
  positive : 0 < amount.toInt

structure InsertPaymentApprovalParams where
  toAddress : String
  amount : Int64
  asset : String
  keyID : String
  paymentID : Option UUID
  proposer : String

/-- The row that is inserted under a generated id. -/
def InsertPaymentApprovalParams.row (params : InsertPaymentApprovalParams) (id : UUID)
    (positive : 0 < params.amount.toInt) : PaymentApproval where
  id := id
  toAddress := params.toAddress
  amount := params.amount
  asset := params.asset
  keyID := params.keyID
  paymentID := params.paymentID
  proposer := params.proposer
  approver := none
  status := .pending
  txHash := none
  positive := positive

/-- The bodies of the two audit entries. -/
inductive AuditData where
  | propose (proposer paymentID «to» amount asset : String)
  | approve (approver approvalID paymentID : String)

structure AuditEntry where
  actor : String
  action : String
  aggregateType : String
  aggregateID : String
  data : AuditData

inductive Stmt where
  | insertPaymentApproval (params : InsertPaymentApprovalParams)
  | getApprovalForUpdate (id : UUID)
  | markApprovalApproved (id : UUID) (approver : Option String)
  | markApprovalBroadcast (id : UUID) (txHash : Option String)
  | reopenApproval (id : UUID)
  | appendAudit (entry : AuditEntry)

abbrev Reply : Stmt → Type
  | .insertPaymentApproval _ => Except Err UUID
  | .getApprovalForUpdate _ => Except Err PaymentApproval
  | .markApprovalApproved .. | .markApprovalBroadcast .. | .reopenApproval _ => Except Err ℕ
  | .appendAudit _ => Except Err Unit

abbrev Approvals := List PaymentApproval

/-- The row of an approval. -/
def Approvals.row (approvals : Approvals) (id : UUID) : Option PaymentApproval :=
  Table.lookup PaymentApproval.id approvals id

inductive Write where
  | insert (row : PaymentApproval)
  | approve (id : UUID) (approver : Option String)
  | broadcast (id : UUID) (txHash : Option String)
  | reopen (id : UUID)

/-- The row that a write is about. -/
def Write.id : Write → UUID
  | .insert row => row.id
  | .approve id _ | .broadcast id _ | .reopen id => id

def PaymentApproval.approve (approver : Option String) (row : PaymentApproval) : PaymentApproval :=
  { row with status := .approved, approver := approver }

def PaymentApproval.broadcast (txHash : Option String) (row : PaymentApproval) : PaymentApproval :=
  { row with txHash := txHash }

def PaymentApproval.reopen (row : PaymentApproval) : PaymentApproval :=
  { row with status := .pending, approver := none }

def Approvals.apply (approvals : Approvals) : Write → Approvals
  | .insert row => approvals ++ [row]
  | .approve id approver => Table.modify PaymentApproval.id approvals id (.approve approver)
  | .broadcast id txHash => Table.modify PaymentApproval.id approvals id (.broadcast txHash)
  | .reopen id => Table.modify PaymentApproval.id approvals id .reopen

/-- A generated id, and the error of a statement that fails. -/
structure Ambient where
  uuid : UUID
  fault : Option Err

/-- The effect of a statement, unless it fails. -/
def Ambient.unlessFault {α : Type} (ambient : Ambient) (effect : Effect (Except Err α) Write UUID) :
    Effect (Except Err α) Write UUID :=
  match ambient.fault with
  | some err => ⟨.error err, [], []⟩
  | none => effect

/-- An `UPDATE` of the row of an id, guarded by a condition on it; the reply counts the rows. -/
def update (approvals : Approvals) (id : UUID) (guard : PaymentApproval → Bool) (write : Write) :
    Effect (Except Err ℕ) Write UUID :=
  if (approvals.row id).any guard then ⟨.ok 1, [write], [id]⟩ else ⟨.ok 0, [], []⟩

/-- Approved, and no hash recorded. -/
def PaymentApproval.unsent (row : PaymentApproval) : Bool :=
  row.status = .approved ∧ row.txHash = none

def Stmt.eval : (stmt : Stmt) → Ambient → Approvals → Effect (Reply stmt) Write UUID
  | .insertPaymentApproval params, ambient, approvals =>
    ambient.unlessFault <|
      if h : 0 < params.amount.toInt then
        if (approvals.row ambient.uuid).isSome then
          ⟨.error (.plain ("pq: duplicate key value violates unique constraint " ++
            "\"payment_approvals_pkey\" (23505)")), [], []⟩
        else ⟨.ok ambient.uuid, [.insert (params.row ambient.uuid h)], [ambient.uuid]⟩
      else ⟨.error (.plain ("pq: new row for relation \"payment_approvals\" violates check " ++
        "constraint \"payment_approvals_amount_check\" (23514)")), [], []⟩
  | .getApprovalForUpdate id, ambient, approvals =>
    ambient.unlessFault <|
      match approvals.row id with
      | none => ⟨.error errNoRows, [], []⟩
      | some row => ⟨.ok row, [], [id]⟩
  | .markApprovalApproved id approver, ambient, approvals =>
    ambient.unlessFault (update approvals id (fun row ↦ row.status = .pending) (.approve id approver))
  | .markApprovalBroadcast id txHash, ambient, approvals =>
    ambient.unlessFault (update approvals id PaymentApproval.unsent (.broadcast id txHash))
  | .reopenApproval id, ambient, approvals =>
    ambient.unlessFault (update approvals id PaymentApproval.unsent (.reopen id))
  | .appendAudit _, ambient, _ => ambient.unlessFault ⟨.ok (), [], []⟩

/-- The approvals as an engine, with locks on their rows. -/
def store : Engine Reply Ambient Approvals Write UUID where
  apply := Approvals.apply
  eval := Stmt.eval

/-! ### The transactions -/

/-- What a transaction of the store returns. -/
inductive Outcome where
  | proposed (id : String)
  | claimed (intent : Intent)
  | updated

/-- The text of an error of `uuid.Parse`. -/
def parseErrorText : UUID.ParseError → String
  | .invalidLength length => "invalid UUID length: " ++ toString length
  | .invalidPrefix text => "invalid urn prefix: " ++ quote text
  | .invalidFormat => "invalid UUID format"

/-- Parse an id, under the name that the error gives it. -/
def parseID (name text : String) : Except Err UUID :=
  (UUID.parse text).mapError fun err ↦
    .plain (name ++ " " ++ quote text ++ " is not a valid uuid: " ++ parseErrorText err)

/-- The optional payment id of an intent. -/
def parsePaymentID (name text : String) : Except Err (Option UUID) :=
  if text = "" then .ok none else (parseID name text).map some

def propose (proposer : String) (intent : Intent) : Tx Reply Err Outcome := do
  if ¬(-2 ^ 63 ≤ intent.amount ∧ intent.amount < 2 ^ 63) then
    Tx.fail (.plain ("approval: amount exceeds int64 range for key " ++ intent.keyID))
  else
    let paymentID ← Tx.ofExcept (parsePaymentID "approval: payment id" intent.paymentID)
    let id ← Tx.orFail
      (← Tx.stmt (.insertPaymentApproval
        { toAddress := intent.to
          amount := Int64.ofInt intent.amount
          asset := intent.asset
          keyID := intent.keyID
          paymentID := paymentID
          proposer := proposer }))
      (Fault.wrap "approval: insert")
    Tx.orFail
      (← Tx.stmt (.appendAudit
        { actor := proposer
          action := "operator.propose"
          aggregateType := "payment"
          aggregateID := if intent.paymentID = "" then id.string else intent.paymentID
          data := .propose proposer intent.paymentID intent.to (toString intent.amount) intent.asset }))
      (fun err ↦ err)
    return .proposed id.string

/-- The intent as it was parked. -/
def PaymentApproval.intent (row : PaymentApproval) : Intent where
  «to» := row.toAddress
  asset := row.asset
  keyID := row.keyID
  paymentID := row.paymentID.elim "" UUID.string
  amount := row.amount.toInt

def PaymentApproval.pendingApproval (row : PaymentApproval) : PendingApproval where
  id := row.id.string
  proposer := row.proposer
  status := row.status.text
  intent := row.intent

/-- The error of `Claim` for a row that could not be read. -/
def loadError (err : Err) : Err :=
  if err.is .errNoRows then errApprovalNotFound else err.wrap "approval: load"

def claim (approvalID approver : String) (decide : PendingApproval → Except Err Unit) :
    Tx Reply Err Outcome := do
  let id ← Tx.ofExcept (parseID "approval: id" approvalID)
  let row ← Tx.orFail (← Tx.stmt (.getApprovalForUpdate id)) loadError
  if row.status ≠ .pending then Tx.fail errAlreadyApproved
  else
    Tx.ofExcept (decide row.pendingApproval)
    let rows ← Tx.orFail (← Tx.stmt (.markApprovalApproved id (some approver)))
      (Fault.wrap "approval: mark approved")
    if rows = 0 then Tx.fail errAlreadyApproved
    else
      Tx.orFail
        (← Tx.stmt (.appendAudit
          { actor := approver
            action := "operator.approve"
            aggregateType := "payment"
            aggregateID :=
              if row.intent.paymentID = "" then row.id.string else row.intent.paymentID
            data := .approve approver row.id.string row.intent.paymentID }))
        (fun err ↦ err)
      return .claimed row.intent

def markBroadcast (approvalID txHash : String) : Tx Reply Err Outcome := do
  let id ← Tx.ofExcept (parseID "approval: id" approvalID)
  let rows ← Tx.orFail (← Tx.stmt (.markApprovalBroadcast id (some txHash)))
    (Fault.wrap "approval: mark broadcast")
  if rows = 0 then
    Tx.fail (.plain ("approval: " ++ approvalID ++
      " is not in the approved state or a tx hash was already recorded"))
  else return .updated

def reopen (approvalID : String) : Tx Reply Err Outcome := do
  let id ← Tx.ofExcept (parseID "approval: id" approvalID)
  let rows ← Tx.orFail (← Tx.stmt (.reopenApproval id)) (Fault.wrap "approval: reopen")
  if rows = 0 then
    Tx.fail (.plain ("approval: " ++ approvalID ++ " is not in the reopenable state (approved with " ++
      "no tx hash) — it may already be broadcast"))
  else return .updated

inductive Call where
  | propose (proposer : String) (intent : Intent)
  | claim (approvalID approver : String) (decide : PendingApproval → Except Err Unit)
  | markBroadcast (approvalID txHash : String)
  | reopen (approvalID : String)

def body : Call → Tx Reply Err Outcome
  | .propose proposer intent => propose proposer intent
  | .claim approvalID approver decide => claim approvalID approver decide
  | .markBroadcast approvalID txHash => markBroadcast approvalID txHash
  | .reopen approvalID => reopen approvalID

/-! ### What they commit -/

/-- A row holds a proposal.  The payment id is the same UUID, or absent in both. -/
structure PaymentApproval.Records (row : PaymentApproval) (proposer : String) (intent : Intent) :
    Prop where
  proposer : row.proposer = proposer
  «to» : row.toAddress = intent.to
  amount : row.amount.toInt = intent.amount
  asset : row.asset = intent.asset
  keyID : row.keyID = intent.keyID
  paymentID : parsePaymentID "approval: payment id" intent.paymentID = .ok row.paymentID

/-- What a transaction has written when it commits.  It holds the lock of the one row it writes. -/
inductive Commits (approvals : Approvals) (locks : List UUID) : Call → Outcome → List Write → Prop
  | proposed (proposer : String) (intent : Intent) (row : PaymentApproval)
      (fresh : approvals.row row.id = none) (records : row.Records proposer intent)
      (pending : row.status = .pending) (locked : row.id ∈ locks) :
      Commits approvals locks (.propose proposer intent) (.proposed row.id.string) [.insert row]
  | claimed (approvalID approver : String) (decide : PendingApproval → Except Err Unit) (id : UUID)
      (row : PaymentApproval) (parsed : UUID.parse approvalID = .ok id)
      (found : approvals.row id = some row) (pending : row.status = .pending)
      (decided : decide row.pendingApproval = .ok ()) (locked : id ∈ locks) :
      Commits approvals locks (.claim approvalID approver decide) (.claimed row.intent)
        [.approve id (some approver)]
  | broadcast (approvalID txHash : String) (id : UUID) (row : PaymentApproval)
      (parsed : UUID.parse approvalID = .ok id) (found : approvals.row id = some row)
      (unsent : row.unsent) (locked : id ∈ locks) :
      Commits approvals locks (.markBroadcast approvalID txHash) .updated [.broadcast id (some txHash)]
  | reopened (approvalID : String) (id : UUID) (row : PaymentApproval)
      (parsed : UUID.parse approvalID = .ok id) (found : approvals.row id = some row)
      (unsent : row.unsent) (locked : id ∈ locks) :
      Commits approvals locks (.reopen approvalID) .updated [.reopen id]

/-- A row stays as it is while its lock is held. -/
def Held (locks : List UUID) (approvals approvals' : Approvals) : Prop :=
  ∀ id ∈ locks, approvals'.row id = approvals.row id

section Bodies

variable {approvals approvals' : Approvals} {locks : List UUID} {ambient : Ambient}

/-- A statement that is answered with a value had its effect. -/
theorem unlessFault_of_ok {α : Type} {effect : Effect (Except Err α) Write UUID} {value : α}
    (h : (ambient.unlessFault effect).reply = .ok value) : ambient.unlessFault effect = effect := by
  unfold Ambient.unlessFault at h ⊢
  split at h
  · cases h
  · rfl

section Rules

variable {β : Type} {writes : List Write} {post : β → List Write → List UUID → Approvals → Prop}
  {context : Err → Err}

/-- A statement whose error ends the body: what follows has its effect, and may use what the effect
says when the reply is a value. -/
theorem wp_stmt_orFail {α : Type} {stmt : Stmt} {rest : α → Tx Reply Err β}
    {reply : Reply stmt → Except Err α}
    (h : ∀ ambient later value, Held locks approvals later →
      reply (Stmt.eval stmt ambient (store.view later writes)).reply = .ok value →
        wp store unrestricted Held (rest value) (OnSuccess post)
          (writes ++ (Stmt.eval stmt ambient (store.view later writes)).writes)
          (locks ++ (Stmt.eval stmt ambient (store.view later writes)).locks) later) :
    wp store unrestricted Held
      (Tx.stmt stmt >>= fun r ↦ Tx.orFail (reply r) context >>= rest : Tx Reply Err β)
      (OnSuccess post) writes locks approvals := by
  rw [wp_stmt_bind]
  intro ambient later hlater _
  rw [wp_success_bind, wp_success_orFail]
  exact fun value hvalue ↦ h ambient later value hlater hvalue

theorem wp_insert {params : InsertPaymentApprovalParams} {rest : UUID → Tx Reply Err β}
    (h : ∀ id hpositive later, Held locks approvals later → (store.view later writes).row id = none →
      wp store unrestricted Held (rest id) (OnSuccess post)
        (writes ++ [.insert (params.row id hpositive)]) (locks ++ [id]) later) :
    wp store unrestricted Held (Tx.stmt (Stmt.insertPaymentApproval params) >>= fun reply ↦
      Tx.orFail reply context >>= rest : Tx Reply Err β) (OnSuccess post) writes locks approvals := by
  refine wp_stmt_orFail fun ambient later id hlater hid ↦ ?_
  have heffect := unlessFault_of_ok hid
  simp only [Stmt.eval] at hid ⊢
  rw [heffect] at hid ⊢
  split at hid
  · next hpositive =>
    split at hid
    · cases hid
    · next hfree =>
      cases hid
      rw [dif_pos hpositive, if_neg hfree]
      exact h _ hpositive later hlater (by simpa using hfree)
  · cases hid

theorem wp_get {id : UUID} {rest : PaymentApproval → Tx Reply Err β}
    (h : ∀ row later, Held locks approvals later → (store.view later writes).row id = some row →
      wp store unrestricted Held (rest row) (OnSuccess post) (writes ++ []) (locks ++ [id]) later) :
    wp store unrestricted Held (Tx.stmt (Stmt.getApprovalForUpdate id) >>= fun reply ↦
      Tx.orFail reply context >>= rest : Tx Reply Err β) (OnSuccess post) writes locks approvals := by
  refine wp_stmt_orFail fun ambient later row hlater hrow ↦ ?_
  have heffect := unlessFault_of_ok hrow
  simp only [Stmt.eval] at hrow ⊢
  rw [heffect] at hrow ⊢
  cases hfound : (store.view later writes).row id with
  | none =>
    rw [hfound] at hrow
    cases hrow
  | some found =>
    rw [hfound] at hrow
    cases hrow
    exact h _ later hlater hfound

theorem wp_audit {entry : AuditEntry} {rest : Unit → Tx Reply Err β}
    (h : ∀ later, Held locks approvals later →
      wp store unrestricted Held (rest ()) (OnSuccess post) (writes ++ []) (locks ++ []) later) :
    wp store unrestricted Held (Tx.stmt (Stmt.appendAudit entry) >>= fun reply ↦
      Tx.orFail reply context >>= rest : Tx Reply Err β) (OnSuccess post) writes locks approvals := by
  refine wp_stmt_orFail fun ambient later _ hlater hdone ↦ ?_
  have heffect := unlessFault_of_ok hdone
  simp only [Stmt.eval]
  rw [heffect]
  exact h later hlater

/-- A guarded `UPDATE` that matched has found a row that meets its guard. -/
theorem update_of_ok {id : UUID} {guard : PaymentApproval → Bool} {write : Write} {rows : ℕ}
    (h : (ambient.unlessFault (update approvals id guard write)).reply = .ok rows) (hrows : rows ≠ 0) :
    (∃ row, approvals.row id = some row ∧ guard row = true) ∧
      ambient.unlessFault (update approvals id guard write) = ⟨.ok 1, [write], [id]⟩ := by
  have heffect := unlessFault_of_ok h
  rw [heffect] at h ⊢
  unfold update at h ⊢
  split at h
  · next hany =>
    obtain ⟨row, hrow, hguard⟩ : ∃ row, approvals.row id = some row ∧ guard row = true := by
      simpa [Option.any_eq_true] using hany
    exact ⟨⟨row, hrow, hguard⟩, if_pos hany⟩
  · exact absurd (Except.ok.inj h).symm hrows

end Rules

theorem parseID_eq_ok {name text : String} {id : UUID} :
    parseID name text = .ok id ↔ UUID.parse text = .ok id := mapError_eq_ok

theorem parsePaymentID_eq_none {name text : String} :
    parsePaymentID name text = .ok none ↔ text = "" := by
  unfold parsePaymentID
  split
  · next hempty => simp [hempty]
  · next hne => cases parseID name text <;> simp [Except.map, hne]

theorem parse_of_parsePaymentID {name text : String} {id : UUID}
    (h : parsePaymentID name text = .ok (some id)) : UUID.parse text = .ok id := by
  unfold parsePaymentID at h
  split at h
  · cases h
  · cases hparse : parseID name text with
    | error err =>
      rw [hparse] at h
      cases h
    | ok id' =>
      rw [hparse] at h
      cases h
      exact parseID_eq_ok.mp hparse

/-- What was committed is still there when the transaction commits. -/
theorem Commits.stable {call : Call} {outcome : Outcome} {writes : List Write}
    (h : Commits approvals locks call outcome writes) (hheld : Held locks approvals approvals') :
    Commits approvals' locks call outcome writes := by
  cases h with
  | proposed proposer intent row fresh records pending locked =>
    exact .proposed proposer intent row ((hheld _ locked).trans fresh) records pending locked
  | claimed approvalID approver decide id row parsed found pending decided locked =>
    exact .claimed approvalID approver decide id row parsed ((hheld _ locked).trans found) pending
      decided locked
  | broadcast approvalID txHash id row parsed found unsent locked =>
    exact .broadcast approvalID txHash id row parsed ((hheld _ locked).trans found) unsent locked
  | reopened approvalID id row parsed found unsent locked =>
    exact .reopened approvalID id row parsed ((hheld _ locked).trans found) unsent locked

theorem wp_propose (proposer : String) (intent : Intent) (approvals : Approvals) :
    wp store unrestricted Held (propose proposer intent)
      (OnSuccess fun outcome writes locks approvals ↦
        Commits approvals locks (.propose proposer intent) outcome writes) [] [] approvals := by
  unfold propose
  split
  · trivial
  · next hrange =>
    rw [not_not] at hrange
    rw [wp_success_bind, wp_success_ofExcept]
    intro paymentID hpayment
    refine wp_insert fun id hpositive later _ hfree ↦ ?_
    refine wp_audit fun final hfinal ↦ ?_
    have hamount : (Int64.ofInt intent.amount).toInt = intent.amount :=
      Int64.toInt_ofInt_of_le hrange.1 hrange.2
    have hlock : id ∈ [] ++ [id] ++ [] := by simp
    have hstill : final.row id = none := (hfinal id (by simp)).trans hfree
    exact .proposed proposer intent (InsertPaymentApprovalParams.row _ id hpositive) hstill
      ⟨rfl, rfl, hamount, rfl, rfl, hpayment⟩ rfl hlock

theorem wp_claim (approvalID approver : String) (decide : PendingApproval → Except Err Unit)
    (approvals : Approvals) :
    wp store unrestricted Held (claim approvalID approver decide)
      (OnSuccess fun outcome writes locks approvals ↦
        Commits approvals locks (.claim approvalID approver decide) outcome writes) [] []
      approvals := by
  unfold claim
  rw [wp_success_bind, wp_success_ofExcept]
  intro id hid
  refine wp_get fun row read _ hrow ↦ ?_
  split
  · trivial
  · next hpending =>
    rw [not_not] at hpending
    rw [wp_success_bind, wp_success_ofExcept]
    intro _ hdecide
    refine wp_stmt_orFail fun ambient marked rows hmarked hreply ↦ ?_
    split
    · trivial
    · next hrows =>
      obtain ⟨-, heffect⟩ := update_of_ok hreply hrows
      have heval : Stmt.eval (.markApprovalApproved id (some approver)) ambient
          (store.view marked ([] ++ [])) = ⟨.ok 1, [.approve id (some approver)], [id]⟩ := heffect
      rw [heval]
      refine wp_audit fun final hfinal ↦ ?_
      have hstill : final.row id = some row :=
        (hfinal id (by simp)).trans ((hmarked id (by simp)).trans hrow)
      have hlock : id ∈ [] ++ [id] ++ [id] ++ [] := by simp
      exact .claimed approvalID approver decide id row (parseID_eq_ok.mp hid) hstill hpending hdecide
        hlock

theorem wp_markBroadcast (approvalID txHash : String) (approvals : Approvals) :
    wp store unrestricted Held (markBroadcast approvalID txHash)
      (OnSuccess fun outcome writes locks approvals ↦
        Commits approvals locks (.markBroadcast approvalID txHash) outcome writes) [] []
      approvals := by
  unfold markBroadcast
  rw [wp_success_bind, wp_success_ofExcept]
  intro id hid
  refine wp_stmt_orFail fun ambient later rows _ hreply ↦ ?_
  split
  · trivial
  · next hrows =>
    obtain ⟨⟨row, hrow, hunsent⟩, heffect⟩ := update_of_ok hreply hrows
    have heval : Stmt.eval (.markApprovalBroadcast id (some txHash)) ambient (store.view later []) =
        ⟨.ok 1, [.broadcast id (some txHash)], [id]⟩ := heffect
    rw [heval]
    have hlock : id ∈ [] ++ [id] := by simp
    exact .broadcast approvalID txHash id row (parseID_eq_ok.mp hid) hrow hunsent hlock

theorem wp_reopen (approvalID : String) (approvals : Approvals) :
    wp store unrestricted Held (reopen approvalID)
      (OnSuccess fun outcome writes locks approvals ↦
        Commits approvals locks (.reopen approvalID) outcome writes) [] [] approvals := by
  unfold reopen
  rw [wp_success_bind, wp_success_ofExcept]
  intro id hid
  refine wp_stmt_orFail fun ambient later rows _ hreply ↦ ?_
  split
  · trivial
  · next hrows =>
    obtain ⟨⟨row, hrow, hunsent⟩, heffect⟩ := update_of_ok hreply hrows
    have heval : Stmt.eval (.reopenApproval id) ambient (store.view later []) =
        ⟨.ok 1, [.reopen id], [id]⟩ := heffect
    rw [heval]
    have hlock : id ∈ [] ++ [id] := by simp
    exact .reopened approvalID id row (parseID_eq_ok.mp hid) hrow hunsent hlock

end Bodies

/-- A write is seen in its own row only. -/
theorem row_apply_of_ne {approvals : Approvals} {write : Write} {id : UUID} (h : write.id ≠ id) :
    (approvals.apply write).row id = approvals.row id := by
  cases write with
  | insert row => exact Table.lookup_append_of_ne h
  | approve other approver => exact Table.lookup_modify_of_ne (fun _ ↦ rfl) (Ne.symm h)
  | broadcast other txHash => exact Table.lookup_modify_of_ne (fun _ ↦ rfl) (Ne.symm h)
  | reopen other => exact Table.lookup_modify_of_ne (fun _ ↦ rfl) (Ne.symm h)

/-- An `UPDATE` changes the row that it is about. -/
theorem row_modify {approvals : Approvals} {id : UUID} {f : PaymentApproval → PaymentApproval}
    {row : PaymentApproval} (hf : ∀ row, (f row).id = row.id) (h : approvals.row id = some row) :
    Approvals.row (Table.modify PaymentApproval.id approvals id f) id = some (f row) :=
  (Table.lookup_modify_self hf).trans (congrArg (Option.map f) h)

/-- A transaction writes one row, under its lock. -/
theorem Commits.one_write {approvals : Approvals} {locks : List UUID} {call : Call} {outcome : Outcome}
    {writes : List Write} (h : Commits approvals locks call outcome writes) :
    ∃ write, writes = [write] ∧ write.id ∈ locks := by
  cases h with
  | proposed _ _ row _ _ _ locked => exact ⟨_, rfl, locked⟩
  | claimed _ _ _ id _ _ _ _ _ locked => exact ⟨_, rfl, locked⟩
  | broadcast _ _ id _ _ _ _ locked => exact ⟨_, rfl, locked⟩
  | reopened _ id _ _ _ _ locked => exact ⟨_, rfl, locked⟩

theorem discipline : Discipline store unrestricted Held body fun call ↦
    OnSuccess fun outcome writes locks approvals ↦ Commits approvals locks call outcome writes where
  refl _ _ _ _ := rfl
  trans _ _ _ _ h h' id hid := (h' id hid).trans (h id hid)
  stable call result writes locks approvals approvals' hpost hheld := by
    cases result with
    | error err => trivial
    | ok outcome => exact Commits.stable hpost hheld
  verified call approvals := by
    cases call with
    | propose proposer intent => exact wp_propose proposer intent approvals
    | claim approvalID approver decide => exact wp_claim approvalID approver decide approvals
    | markBroadcast approvalID txHash => exact wp_markBroadcast approvalID txHash approvals
    | reopen approvalID => exact wp_reopen approvalID approvals
  guarantee call outcome writes locks approvals others hpost hothers := by
    obtain ⟨write, rfl, hlock⟩ := Commits.one_write hpost
    intro id hid
    -- the written row is locked, so it is none of the rows that a peer has locked
    exact row_apply_of_ne fun heq ↦ hothers _ hlock (heq ▸ hid)

/-- Every transaction that is about to commit has written what `Commits` says. -/
theorem commits_of_reaches {start : Approvals} {s : State Reply Approvals Write UUID Call Err Outcome}
    (h : Reaches store body unrestricted start s) {tid : ℕ} {call : Call} {outcome : Outcome}
    {writes : List Write} {locks : List UUID}
    (hopen : s.session tid = some ⟨call, .done (.ok outcome), writes, locks⟩) :
    Commits s.db locks call outcome writes :=
  (discipline.covered h tid _ hopen).1

end PaymentRail.Ctl
