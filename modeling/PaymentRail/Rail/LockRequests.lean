import PaymentRail.Ctl.ApprovalStore
import PaymentRail.Policy.Velocity
import PaymentRail.Rail.Commits
import PaymentRail.Transaction.Waiting

/-!
# The lock requests of the statements

What the statements of the rail, of the approval store and of the velocity limits lock, request by
request.  A statement asks for the locks of its rows in the order in which it returns them, for the keys
of the rows it inserts in the order of the unique indexes, except that the arbiter of an `ON CONFLICT`
comes first, and for a key share of the rows its foreign keys refer to.  An `UPDATE` that changes no key
does not conflict with a key share, the `FOR UPDATE` of accounts and approvals does.

`Resource.rank` is the order in which the transactions take their locks: the accounts by id, then the
keys of a journal entry, the settlement, the payment or the approval, the outbox row, the advisory lock,
and last the rows that are inserted under it.
-/

namespace PaymentRail.Rail

open Transaction Ledger Chain Sink Payments

/-- The lock modes of Postgres that the statements use. -/
inductive Mode where
  | keyShare
  | noKeyUpdate
  | update
  deriving DecidableEq

def Mode.conflicts : Mode → Mode → Bool
  | .update, _ | _, .update => true
  | .noKeyUpdate, .noKeyUpdate => true
  | .keyShare, .keyShare | .keyShare, .noKeyUpdate | .noKeyUpdate, .keyShare => false

theorem Mode.conflicts_comm (first second : Mode) :
    first.conflicts second = second.conflicts first := by
  cases first <;> cases second <;> rfl

/-- What is locked: a row, a key or an advisory key of the rail, an approval or a velocity event. -/
inductive Resource where
  | rail (lock : Lock)
  | approval (id : UUID)
  | velocityEvent (id : UUID)
  deriving DecidableEq

structure Request where
  resource : Resource
  mode : Mode
  deriving DecidableEq

/-- The ranks above those of all accounts. -/
def level (n : ℕ) : ℕ := 2 ^ 128 + n

@[simp]
theorem level_lt_level {m n : ℕ} : level m < level n ↔ m < n := Nat.add_lt_add_iff_left

theorem toNat_lt_level (id : UUID) (n : ℕ) : id.toNat < level n :=
  Nat.lt_of_lt_of_le id.isLt (Nat.le_add_right _ _)

/-- The order in which the transactions take their locks. -/
def Resource.rank : Resource → ℕ
  | .rail (.account id) => id.toNat
  | .rail (.journalID _) => level 0
  | .rail (.journalKey ..) => level 1
  | .rail (.settlement _) => level 2
  | .rail (.settlementID _) => level 3
  | .rail (.payment _) => level 4
  | .approval _ => level 5
  | .rail (.outboxID _) => level 6
  | .rail (.advisory _) => level 7
  | .rail (.auditSeq _) => level 8
  | .rail (.auditHash _) => level 9
  | .velocityEvent _ => level 10

def lockOrder : LockOrder Request where
  conflict first second := first.resource = second.resource ∧ first.mode.conflicts second.mode = true
  rank request := request.resource.rank
  symm := by
    rintro first second ⟨hresource, hmode⟩
    exact ⟨hresource.symm, by rw [Mode.conflicts_comm, hmode]⟩
  rank_eq h := congrArg Resource.rank h.1

/-- The lock of a row for any change, of a key for its insert, and an advisory lock. -/
def exclusive (lock : Lock) : Request := ⟨.rail lock, .update⟩

/-- The lock of a foreign key on the row it refers to. -/
def keyShare (lock : Lock) : Request := ⟨.rail lock, .keyShare⟩

/-- The lock of an `UPDATE` that changes no key. -/
def noKeyUpdate (lock : Lock) : Request := ⟨.rail lock, .noKeyUpdate⟩

/-! ### What each statement locks -/

/-- The locks of a guarded `UPDATE` that sets a reference to a journal entry. -/
def guardedUpdate (matched : Bool) (lock : Lock) (entryID : Option UUID) : List Request :=
  if matched then
    noKeyUpdate lock :: entryID.toList.map fun id ↦ keyShare (.journalID id)
  else []

/-- The locks of a statement, in the order in which it asks for them. -/
def requests : Stmt → Ambient × Db → List Request
  | .getAccountsForUpdate ids, (_, db) =>
    (db.accountsByID ids).map fun account ↦ exclusive (.account account.id)
  | .insertJournalEntry kind externalRef _, (ambient, _) =>
    [exclusive (.journalID ambient.uuid), exclusive (.journalKey kind externalRef)]
  | .insertEntryLine line, _ =>
    [keyShare (.journalID line.entryID), keyShare (.account line.accountID)]
  | .insertPayment params, _ =>
    [exclusive (.payment params.id), keyShare (.account params.sourceAccountID),
      keyShare (.account params.destAccountID), keyShare (.journalID params.journalEntryID)]
  | .cancelPayment id reversalEntryID, (_, db) =>
    guardedUpdate ((db.payment id).any (·.status = .completed)) (.payment id) reversalEntryID
  | .insertSettlement paymentID txHash, (ambient, _) =>
    [exclusive (.settlement txHash), exclusive (.settlementID ambient.uuid),
      keyShare (.payment paymentID)]
  | .markSettlementSettled params, (_, db) =>
    guardedUpdate ((db.settlement params.txHash).any (·.status.settleable))
      (.settlement params.txHash) params.settleEntryID
  | .markSettlementReorged txHash, (_, db) | .markSettlementFinalized txHash, (_, db) =>
    guardedUpdate ((db.settlement txHash).any (·.status = .settled)) (.settlement txHash) none
  | .insertOutboxEvent row, _ => [exclusive (.outboxID row.id)]
  | .acquireAuditChainLock key, _ => [exclusive (.advisory key)]
  | .insertAuditEntry row, _ =>
    [exclusive (.auditSeq row.seq), exclusive (.auditHash row.entryHash)]
  | .newUUID, _ | .timeNow, _ | .getAccountByNameAndAsset .., _ | .getAccountBalance _, _
  | .getPayment _, _ | .getSettlementByTxHash _, _ | .getAuditHead, _ => []

def railGrants : Grants Reply (Ambient × Db) Request where
  requests := requests
  reply stmt world := (queries.eval stmt world.1 world.2).reply

/-- A guarded `UPDATE` of a settlement holds the lock of the row if it matched. -/
theorem mem_markSettlement_locks {db : Db} {txHash : String} {guard : SettlementStatus → Bool}
    {settleEntryID : Option UUID} {change : Settlement → Settlement} {write : Write} {lock : Lock}
    (h : lock ∈ (markSettlement db txHash guard settleEntryID change write).locks) :
    lock = .settlement txHash ∧ (db.settlement txHash).any (guard ·.status) = true := by
  unfold markSettlement at h
  split at h
  · next row hrow =>
    split at h
    · cases h
    · next hguard =>
      split at h
      · cases h
      · exact ⟨List.mem_singleton.mp h, by simpa [hrow] using hguard⟩
  · cases h

/-- Every lock that a statement holds to the end of its transaction is one that it asked for. -/
theorem mem_requests_of_mem_locks {stmt : Stmt} {ambient : Ambient} {db : Db} {lock : Lock}
    (h : lock ∈ (queries.eval stmt ambient db).locks) :
    ∃ mode, (⟨.rail lock, mode⟩ : Request) ∈ requests stmt (ambient, db) := by
  have hmark : ∀ matched (row : Lock) (entryID : Option UUID), lock = row → matched = true →
      ∃ mode, (⟨.rail lock, mode⟩ : Request) ∈ guardedUpdate matched row entryID := by
    rintro matched row entryID rfl rfl
    exact ⟨.noKeyUpdate, List.mem_cons_self⟩
  cases stmt with
  | newUUID | timeNow | getAccountByNameAndAsset | getAccountBalance | getPayment
  | getSettlementByTxHash | getAuditHead => cases h
  | getAccountsForUpdate ids =>
    obtain ⟨account, hmem, rfl⟩ := List.mem_map.mp h
    exact ⟨.update, List.mem_map.mpr ⟨account, hmem, rfl⟩⟩
  | insertJournalEntry kind externalRef asset =>
    simp only [queries, Stmt.eval] at h
    repeat' split at h
    · cases h
    · cases h
    · refine ⟨.update, ?_⟩
      simpa [requests, exclusive, Effect.wrote] using h
  | insertEntryLine line =>
    simp only [queries, Stmt.eval] at h
    repeat' split at h
    all_goals cases h
  | insertPayment params =>
    simp only [queries, Stmt.eval] at h
    repeat' split at h
    all_goals first | (cases h; done) | skip
    refine ⟨.update, ?_⟩
    rw [List.mem_singleton.mp h]
    exact List.mem_cons_self
  | cancelPayment id reversalEntryID =>
    simp only [queries, Stmt.eval] at h
    split at h
    · next payment hrow =>
      split at h
      · cases h
      · next hstatus =>
        split at h
        · cases h
        · refine hmark _ _ _ (List.mem_singleton.mp h) ?_
          rw [hrow]
          simpa using hstatus
    · cases h
  | insertSettlement paymentID txHash =>
    simp only [queries, Stmt.eval] at h
    repeat' split at h
    all_goals first | (cases h; done) | skip
    refine ⟨.update, ?_⟩
    simp only [Effect.wrote, List.mem_cons, List.not_mem_nil, or_false] at h
    rcases h with rfl | rfl
    · exact List.mem_cons_self
    · exact List.mem_cons_of_mem _ List.mem_cons_self
  | markSettlementSettled params =>
    obtain ⟨hlock, hguard⟩ := mem_markSettlement_locks h
    exact hmark _ _ _ hlock hguard
  | markSettlementReorged txHash | markSettlementFinalized txHash =>
    obtain ⟨hlock, hguard⟩ := mem_markSettlement_locks h
    exact hmark _ _ _ hlock hguard
  | insertOutboxEvent row =>
    simp only [queries, Stmt.eval] at h
    split at h
    · cases h
    · refine ⟨.update, ?_⟩
      simpa [requests, exclusive, Effect.wrote] using h
  | acquireAuditChainLock key => exact ⟨.update, by simpa [requests, exclusive, queries, Stmt.eval] using h⟩
  | insertAuditEntry row =>
    simp only [queries, Stmt.eval] at h
    repeat' split at h
    · cases h
    · cases h
    · refine ⟨.update, ?_⟩
      simpa [requests, exclusive, Effect.wrote] using h

/-- The tables of the approvals, and the place of the next audit row. -/
structure ApprovalWorld where
  ambient : Ctl.Ambient
  approvals : Ctl.Approvals
  seq : Int64
  entryHash : List UInt8

/-- The lock of a guarded `UPDATE` of an approval. -/
def updateApproval (world : ApprovalWorld) (id : UUID) (guard : Ctl.PaymentApproval → Bool) :
    List Request :=
  if (world.approvals.row id).any guard then [⟨.approval id, .noKeyUpdate⟩] else []

/-- The locks of a statement of the approval store.  The audit row is appended as by `Append`. -/
def approvalRequests : Ctl.Stmt → ApprovalWorld → List Request
  | .insertPaymentApproval _, world => [⟨.approval world.ambient.uuid, .update⟩]
  | .getApprovalForUpdate id, world =>
    if (world.approvals.row id).isSome then [⟨.approval id, .update⟩] else []
  | .markApprovalApproved id _, world => updateApproval world id fun row ↦ row.status = .pending
  | .markApprovalBroadcast id _, world | .reopenApproval id, world =>
    updateApproval world id Ctl.PaymentApproval.unsent
  | .appendAudit _, world =>
    [exclusive (.advisory Audit.chainAdvisoryKey), exclusive (.auditSeq world.seq),
      exclusive (.auditHash world.entryHash)]

def approvalGrants : Grants Ctl.Reply ApprovalWorld Request where
  requests := approvalRequests
  reply stmt world := (Ctl.store.eval stmt world.ambient world.approvals).reply

/-- The clock of the caller, the events, and the generated id of the next one. -/
structure VelocityWorld where
  now : Time
  events : List Policy.Velocity.Event
  uuid : UUID

def velocityRequests : Policy.Velocity.Stmt → VelocityWorld → List Request
  | .acquireVelocityLock key, _ => [exclusive (.advisory key)]
  | .insertVelocityEvent .., world => [⟨.velocityEvent world.uuid, .update⟩]
  | .timeNow, _ | .sumVelocityWindow .., _ => []

def velocityGrants : Grants Policy.Velocity.Reply VelocityWorld Request where
  requests := velocityRequests
  reply stmt world := (Policy.Velocity.store.eval stmt world.now world.events).reply

/-! ### The order of the requests -/

section Order

variable {held : List Request}

/-- Everything held ranks below. -/
def Below (n : ℕ) (held : List Request) : Prop := ∀ r ∈ held, r.resource.rank < level n

theorem below_nil (n : ℕ) : Below n [] := nofun

theorem Below.mono {m n : ℕ} (h : Below m held) (hmn : m ≤ n) : Below n held :=
  fun r hr ↦ Nat.lt_of_lt_of_le (h r hr) (Nat.add_le_add_left hmn _)

theorem Below.append {n : ℕ} {more : List Request} (h : Below n held) (h' : Below n more) :
    Below n (held ++ more) := by
  intro r hr
  rcases List.mem_append.mp hr with hheld | hmore
  · exact h r hheld
  · exact h' r hmore

/-- A request above everything held. -/
theorem admissible_of_below {n : ℕ} {request : Request} (h : Below n held)
    (hrank : request.resource.rank = level n) : Admissible lockOrder held request :=
  .inl fun r hr ↦ Nat.lt_of_lt_of_eq (h r hr) hrank.symm

/-- A request for something that is held exclusively. -/
theorem admissible_of_held {resource : Resource} (mode : Mode)
    (h : (⟨resource, .update⟩ : Request) ∈ held) :
    Admissible lockOrder held ⟨resource, mode⟩ :=
  .inr ⟨_, h, fun _ hconflict ↦ ⟨hconflict.1, rfl⟩⟩

theorem Below.concat {n : ℕ} {request : Request} (h : Below n held)
    (hrank : request.resource.rank = level n) : Below (n + 1) (held ++ [request]) := by
  refine (h.mono (Nat.le_succ n)).append fun r hr ↦ ?_
  rw [List.mem_singleton.mp hr, hrank]
  exact level_lt_level.mpr (Nat.lt_succ_self n)

/-- One request above everything held. -/
theorem climbs_single {n : ℕ} {request : Request} (h : Below n held)
    (hrank : request.resource.rank = level n) : Climbs lockOrder held [request] :=
  ⟨admissible_of_below h hrank, trivial⟩

/-- Requests for things that are held exclusively. -/
theorem climbs_of_held {requests : List Request}
    (h : ∀ r ∈ requests, (⟨r.resource, .update⟩ : Request) ∈ held) :
    Climbs lockOrder held requests := by
  induction requests generalizing held with
  | nil => trivial
  | cons request rest ih =>
    refine ⟨admissible_of_held _ (h request List.mem_cons_self), ih fun r hr ↦ ?_⟩
    exact List.mem_append_left _ (h r (List.mem_cons_of_mem _ hr))

/-- Accounts locked in the order of their ids. -/
theorem climbs_accounts {accounts : List Account} (hsorted : accounts.Pairwise fun a b ↦ a.id ≤ b.id)
    (hheld : ∀ r ∈ held, ∃ id, r = exclusive (.account id) ∧ ∀ account ∈ accounts, id ≤ account.id) :
    Climbs lockOrder held (accounts.map fun account ↦ exclusive (.account account.id)) := by
  induction accounts generalizing held with
  | nil => trivial
  | cons account rest ih =>
    obtain ⟨hfirst, hrest⟩ := List.pairwise_cons.mp hsorted
    refine ⟨?_, ih hrest fun r hr ↦ ?_⟩
    · by_cases hmem : exclusive (.account account.id) ∈ held
      · exact admissible_of_held _ hmem
      · refine .inl fun r hr ↦ ?_
        obtain ⟨id, rfl, hle⟩ := hheld r hr
        have hne : id ≠ account.id := fun heq ↦ hmem (heq ▸ hr)
        exact BitVec.lt_def.mp (BitVec.lt_of_le_ne (hle account List.mem_cons_self) hne)
    · rcases List.mem_append.mp hr with hold | hnew
      · obtain ⟨id, rfl, hle⟩ := hheld r hold
        exact ⟨id, rfl, fun other hother ↦ hle other (List.mem_cons_of_mem _ hother)⟩
      · exact ⟨account.id, List.mem_singleton.mp hnew, hfirst⟩

/-- `ORDER BY id`. -/
theorem pairwise_accountsByID (db : Db) (ids : List UUID) :
    (db.accountsByID ids).Pairwise fun a b ↦ a.id ≤ b.id := by
  have htotal : Std.Total fun a b : Account ↦ a.id ≤ b.id := ⟨fun a b ↦ BitVec.le_total a.id b.id⟩
  have htrans : IsTrans Account fun a b ↦ a.id ≤ b.id := ⟨fun _ _ _ ↦ BitVec.le_trans⟩
  exact List.pairwise_insertionSort _ _

end Order

end PaymentRail.Rail
