import PaymentRail.Db.Queries

/-!
# What a lock protects

A write is made under the locks of the rows and keys it touches (`Write.locks`).  `Rely held` is
what a transaction that holds the locks `held` may count on while others commit: the rows it locked
stay as they are, every other row only evolves, and no row disappears.  It follows from the locks
alone (`Rely.view`), whatever the other transactions do.
-/

namespace PaymentRail

open Transaction

/-- The locks a write is made under.  A line is inserted under the lock of its account, which
`PostWithin` takes before it reads the balance. -/
def Write.locks : Write → List Lock
  | .insertJournalEntry entry => [.journalID entry.id, .journalKey entry.kind entry.externalRef]
  | .insertEntryLine line => [.account line.accountID]
  | .insertPayment payment => [.payment payment.id]
  | .cancelPayment id _ => [.payment id]
  | .insertSettlement row => [.settlement row.txHash]
  | .markSettled txHash _ _ _ => [.settlement txHash]
  | .markReorged txHash => [.settlement txHash]
  | .markFinalized txHash => [.settlement txHash]
  | .insertOutboxEvent row => [.outboxID row.id]
  | .insertAuditEntry row => [.auditSeq row.seq, .auditHash row.entryHash]

/-- The locks of rows that are only ever appended and that no other row depends on. -/
def Lock.ofLog : Lock → Bool
  | .outboxID _ | .auditSeq _ | .auditHash _ | .advisory _ => true
  | _ => false

/-- The writes of a transaction are made under locks that it holds. -/
def Guarded (writes : List Write) (locks : List Lock) : Prop :=
  ∀ write ∈ writes, ∀ lock ∈ write.locks, lock ∈ locks

theorem Guarded.append {first second : List Write} {locks : List Lock} (h : Guarded first locks)
    (h' : Guarded second locks) : Guarded (first ++ second) locks := by
  intro write hwrite
  rcases List.mem_append.mp hwrite with hfirst | hsecond
  · exact h write hfirst
  · exact h' write hsecond

theorem Guarded.mono {writes : List Write} {locks more : List Lock} (h : Guarded writes locks)
    (hsub : ∀ lock ∈ locks, lock ∈ more) : Guarded writes more :=
  fun write hwrite lock hlock ↦ hsub lock (h write hwrite lock hlock)

namespace Db

variable {db : Db}

theorem payment_apply_of_some {id : UUID} {payment : Payment} (write : Write)
    (h : db.payment id = some payment) :
    ∃ later, (db.apply write).payment id = some later ∧ payment.Evolves later := by
  cases write with
  | insertPayment added => exact ⟨payment, Table.lookup_append_of_some added h, .refl payment⟩
  | cancelPayment id' reversal =>
    have hlookup : (db.apply (.cancelPayment id' reversal)).payment id =
        (db.payment id).map fun row ↦ if id = id' then row.cancel reversal else row :=
      Table.lookup_modify fun _ ↦ rfl
    rw [h, Option.map_some] at hlookup
    refine ⟨_, hlookup, ?_⟩
    split
    · exact .inr ⟨reversal, rfl⟩
    · exact .refl payment
  | _ => exact ⟨payment, h, .refl payment⟩

theorem payment_apply_of_notMem {id : UUID} {write : Write} (h : Lock.payment id ∉ write.locks) :
    (db.apply write).payment id = db.payment id := by
  cases write with
  | insertPayment added =>
    refine Table.lookup_append_of_ne fun heq ↦ h ?_
    simp [Write.locks, heq]
  | cancelPayment id' reversal =>
    refine Table.lookup_modify_of_ne (fun _ ↦ rfl) fun heq ↦ h ?_
    simp [Write.locks, heq]
  | _ => rfl

/-- A change of settlement rows that keeps their link lets each row evolve. -/
theorem settlement_updateSettlement_of_some {txHash txHash' : String} {row : Settlement}
    {f : Settlement → Settlement} (hf : ∀ row : Settlement, row.Evolves (f row))
    (h : db.settlement txHash = some row) :
    ∃ later, (db.updateSettlement txHash' f).settlement txHash = some later ∧
      row.Evolves later := by
  have hlookup : (db.updateSettlement txHash' f).settlement txHash =
      (db.settlement txHash).map fun row ↦ if txHash = txHash' then f row else row :=
    Table.lookup_modify fun row ↦ (hf row).2.2.1
  rw [h, Option.map_some] at hlookup
  refine ⟨_, hlookup, ?_⟩
  split
  · exact hf row
  · exact .refl row

theorem settlement_apply_of_some {txHash : String} {row : Settlement} (write : Write)
    (h : db.settlement txHash = some row) :
    ∃ later, (db.apply write).settlement txHash = some later ∧ row.Evolves later := by
  cases write with
  | insertSettlement added => exact ⟨row, Table.lookup_append_of_some added h, .refl row⟩
  | markSettled | markReorged | markFinalized =>
    exact settlement_updateSettlement_of_some (fun _ ↦ ⟨rfl, rfl, rfl, rfl⟩) h
  | _ => exact ⟨row, h, .refl row⟩

theorem settlement_apply_of_notMem {txHash : String} {write : Write}
    (h : Lock.settlement txHash ∉ write.locks) :
    (db.apply write).settlement txHash = db.settlement txHash := by
  cases write with
  | insertSettlement added =>
    refine Table.lookup_append_of_ne fun heq ↦ h ?_
    simp [Write.locks, heq]
  | markSettled | markReorged | markFinalized =>
    refine Table.lookup_modify_of_ne (fun _ ↦ rfl) fun heq ↦ h ?_
    simp [Write.locks, heq]
  | _ => rfl

theorem linesOf_apply_of_notMem {accountID : UUID} {write : Write}
    (h : Lock.account accountID ∉ write.locks) :
    (db.apply write).linesOf accountID = db.linesOf accountID := by
  cases write with
  | insertEntryLine line =>
    have hne : line.accountID ≠ accountID := fun heq ↦ h (by simp [Write.locks, heq])
    simp [apply, linesOf, List.filter_append, hne]
  | _ => rfl

theorem posted_apply_of_notMem {kind externalRef : String} {write : Write}
    (h : Lock.journalKey kind externalRef ∉ write.locks) :
    (db.apply write).posted kind externalRef = db.posted kind externalRef := by
  cases write with
  | insertJournalEntry entry =>
    have hne : ¬(entry.kind = kind ∧ entry.externalRef = externalRef) := by
      rintro ⟨rfl, rfl⟩
      simp [Write.locks] at h
    simp only [apply, posted, List.any_append, List.any_cons, List.any_nil, hne, decide_false,
      Bool.or_false]
  | _ => rfl

theorem hasJournalID_apply_of_notMem {id : UUID} {write : Write}
    (h : Lock.journalID id ∉ write.locks) :
    (db.apply write).hasJournalID id = db.hasJournalID id := by
  cases write with
  | insertJournalEntry entry =>
    have hne : entry.id ≠ id := fun heq ↦ h (by simp [Write.locks, heq])
    simp [apply, hasJournalID, hne]
  | _ => rfl

theorem accounts_apply (write : Write) : (db.apply write).accounts = db.accounts := by
  cases write <;> rfl

end Db

/-- What a transaction may count on while others commit. -/
structure Rely (held : List Lock) (db db' : Db) : Prop where
  accounts : db'.accounts = db.accounts
  payment : ∀ id payment, db.payment id = some payment →
    ∃ later, db'.payment id = some later ∧ payment.Evolves later
  settlement : ∀ txHash row, db.settlement txHash = some row →
    ∃ later, db'.settlement txHash = some later ∧ row.Evolves later
  paymentHeld : ∀ id, .payment id ∈ held → db'.payment id = db.payment id
  settlementHeld : ∀ txHash, .settlement txHash ∈ held →
    db'.settlement txHash = db.settlement txHash
  linesHeld : ∀ id, .account id ∈ held → db'.linesOf id = db.linesOf id
  postedHeld : ∀ kind externalRef, .journalKey kind externalRef ∈ held →
    db'.posted kind externalRef = db.posted kind externalRef
  journalIDHeld : ∀ id, .journalID id ∈ held → db'.hasJournalID id = db.hasJournalID id

namespace Rely

variable {held : List Lock} {db db' db'' : Db}

theorem refl (held : List Lock) (db : Db) : Rely held db db where
  accounts := rfl
  payment _ payment h := ⟨payment, h, .refl payment⟩
  settlement _ row h := ⟨row, h, .refl row⟩
  paymentHeld _ _ := rfl
  settlementHeld _ _ := rfl
  linesHeld _ _ := rfl
  postedHeld _ _ _ := rfl
  journalIDHeld _ _ := rfl

theorem trans (h : Rely held db db') (h' : Rely held db' db'') : Rely held db db'' where
  accounts := h'.accounts.trans h.accounts
  payment id payment hrow := by
    obtain ⟨mid, hmid, hevolves⟩ := h.payment id payment hrow
    obtain ⟨later, hlater, hevolves'⟩ := h'.payment id mid hmid
    exact ⟨later, hlater, hevolves.trans hevolves'⟩
  settlement txHash row hrow := by
    obtain ⟨mid, hmid, hevolves⟩ := h.settlement txHash row hrow
    obtain ⟨later, hlater, hevolves'⟩ := h'.settlement txHash mid hmid
    exact ⟨later, hlater, hevolves.trans hevolves'⟩
  paymentHeld id hheld := (h'.paymentHeld id hheld).trans (h.paymentHeld id hheld)
  settlementHeld txHash hheld :=
    (h'.settlementHeld txHash hheld).trans (h.settlementHeld txHash hheld)
  linesHeld id hheld := (h'.linesHeld id hheld).trans (h.linesHeld id hheld)
  postedHeld kind ref hheld := (h'.postedHeld kind ref hheld).trans (h.postedHeld kind ref hheld)
  journalIDHeld id hheld := (h'.journalIDHeld id hheld).trans (h.journalIDHeld id hheld)

/-- Fewer locks, less to count on. -/
theorem anti {fewer : List Lock} (hsub : ∀ lock ∈ fewer, lock ∈ held) (h : Rely held db db') :
    Rely fewer db db' where
  accounts := h.accounts
  payment := h.payment
  settlement := h.settlement
  paymentHeld id hheld := h.paymentHeld id (hsub _ hheld)
  settlementHeld txHash hheld := h.settlementHeld txHash (hsub _ hheld)
  linesHeld id hheld := h.linesHeld id (hsub _ hheld)
  postedHeld kind ref hheld := h.postedHeld kind ref (hsub _ hheld)
  journalIDHeld id hheld := h.journalIDHeld id (hsub _ hheld)

/-- The locks of the outbox and the audit log protect none of the rows counted on. -/
theorem append_logs {logs : List Lock} (hlogs : ∀ lock ∈ logs, lock.ofLog = true)
    (h : Rely held db db') : Rely (held ++ logs) db db' where
  accounts := h.accounts
  payment := h.payment
  settlement := h.settlement
  paymentHeld id hheld :=
    h.paymentHeld id ((List.mem_append.mp hheld).resolve_right fun hlog ↦ by cases hlogs _ hlog)
  settlementHeld txHash hheld :=
    h.settlementHeld txHash
      ((List.mem_append.mp hheld).resolve_right fun hlog ↦ by cases hlogs _ hlog)
  linesHeld id hheld :=
    h.linesHeld id ((List.mem_append.mp hheld).resolve_right fun hlog ↦ by cases hlogs _ hlog)
  postedHeld kind ref hheld :=
    h.postedHeld kind ref
      ((List.mem_append.mp hheld).resolve_right fun hlog ↦ by cases hlogs _ hlog)
  journalIDHeld id hheld :=
    h.journalIDHeld id ((List.mem_append.mp hheld).resolve_right fun hlog ↦ by cases hlogs _ hlog)

/-- A write made under other locks. -/
theorem apply {write : Write} (hlocks : ∀ lock ∈ write.locks, lock ∉ held) :
    Rely held db (db.apply write) where
  accounts := Db.accounts_apply write
  payment _ _ := Db.payment_apply_of_some write
  settlement _ _ := Db.settlement_apply_of_some write
  paymentHeld _ hheld := Db.payment_apply_of_notMem fun hlock ↦ hlocks _ hlock hheld
  settlementHeld _ hheld := Db.settlement_apply_of_notMem fun hlock ↦ hlocks _ hlock hheld
  linesHeld _ hheld := Db.linesOf_apply_of_notMem fun hlock ↦ hlocks _ hlock hheld
  postedHeld _ _ hheld := Db.posted_apply_of_notMem fun hlock ↦ hlocks _ hlock hheld
  journalIDHeld _ hheld := Db.hasJournalID_apply_of_notMem fun hlock ↦ hlocks _ hlock hheld

/-- Whatever is committed under other locks. -/
theorem view {writes : List Write}
    (hlocks : ∀ write ∈ writes, ∀ lock ∈ write.locks, lock ∉ held) :
    Rely held db (queries.view db writes) := by
  induction writes generalizing db with
  | nil => exact refl held db
  | cons write rest ih =>
    have hfirst : Rely held db (db.apply write) := apply (hlocks write (by simp))
    exact hfirst.trans (ih fun later hlater ↦ hlocks later (by simp [hlater]))

end Rely

end PaymentRail
