import PaymentRail.Audit.Append
import PaymentRail.Ledger.Journal

/-!
# Posting without failures

When nothing else runs and the database itself does not fail, `PostWithin` returns an error only for
a reason that can be read off the tables: the entry, its accounts, its funds or its reference.  The
same holds of the announcement of a transition, which has no such reason at all.

`Healthy` is what is meant by a database that does not fail: random identifiers are new, and so are
the sequence number and the hash of an audit row.
-/

namespace PaymentRail.Ledger

open Transaction

/-- The unique keys that a statement draws or computes are new. -/
def Healthy : Stmt → Ambient → Db → Prop
  | .insertJournalEntry _ _ _, ambient, db => db.hasJournalID ambient.uuid = false
  | .insertOutboxEvent row, _, db => (db.outbox.any fun sent ↦ sent.id = row.id) = false
  | .insertAuditEntry row, _, db =>
    (db.auditLog.any fun logged ↦ logged.seq = row.seq) = false ∧
      (db.auditLog.any fun logged ↦ logged.entryHash = row.entryHash) = false
  | _, _, _ => True

instance (stmt : Stmt) (ambient : Ambient) (db : Db) : Decidable (Healthy stmt ambient db) := by
  unfold Healthy
  split <;> infer_instance

section Statements

variable {allowed : Stmt → Ambient → Db → Prop} {Rely : List Lock → Db → Db → Prop}
  {writes : List Write} {locks : List Lock} {db : Db}

theorem wp_succeeds_orFail {α : Type} {reply : Except Err α} {context : Err → Err} {value : α}
    {post : α → List Write → List Lock → Db → Prop} (hreply : reply = .ok value)
    (hpost : post value writes locks db) :
    wp queries allowed Rely (orFail reply context) (Succeeds post) writes locks db := by
  rw [hreply]
  exact hpost

theorem wp_succeeds_ofExcept {α : Type} {result : Except Err α} {value : α}
    {post : α → List Write → List Lock → Db → Prop} (hresult : result = .ok value)
    (hpost : post value writes locks db) :
    wp queries allowed Rely (Tx.ofExcept result : DbTx α) (Succeeds post) writes locks db := by
  rw [hresult]
  exact hpost

theorem eval_getAccountBalance_ok {ambient : Ambient} {id : UUID} (h : InBigint (db.balance id)) :
    queries.eval (.getAccountBalance id) ambient db =
      Effect.read (.ok (Int64.ofInt (db.balance id))) := by
  have hrange : -2 ^ 63 ≤ db.balance id ∧ db.balance id < 2 ^ 63 := h
  simp only [queries, Stmt.eval, if_pos hrange]

theorem eval_insertJournalEntry_ok {ambient : Ambient} {kind externalRef asset : String}
    (hid : db.hasJournalID ambient.uuid = false) (hkey : db.posted kind externalRef = false) :
    queries.eval (.insertJournalEntry kind externalRef asset) ambient db =
      Effect.wrote ⟨ambient.uuid, kind, externalRef, asset⟩
        (.insertJournalEntry ⟨ambient.uuid, kind, externalRef, asset⟩)
        [.journalID ambient.uuid, .journalKey kind externalRef] := by
  simp only [queries, Stmt.eval, hid, hkey, Bool.false_eq_true, if_false]

theorem eval_insertEntryLine_ok {ambient : Ambient} {line : EntryLine}
    (hdirection : line.direction = .debit ∨ line.direction = .credit) (hamount : ¬line.amount ≤ 0)
    (hentry : db.hasJournalID line.entryID = true) (haccount : (db.account line.accountID).isSome) :
    queries.eval (.insertEntryLine line) ambient db =
      Effect.wrote line (.insertEntryLine line) [] := by
  have hdirection' : ¬(line.direction ≠ .debit ∧ line.direction ≠ .credit) := fun h ↦
    hdirection.elim h.1 h.2
  have haccount' : ¬(db.account line.accountID).isNone := by
    simpa using Option.isSome_iff_ne_none.mp haccount
  simp only [queries, Stmt.eval]
  rw [if_neg hdirection', if_neg hamount, if_neg (by simp [hentry]), if_neg haccount']

end Statements

section Posting

variable {allowed : Stmt → Ambient → Db → Prop} {locks : List Lock} {db : Db}

/-- Balances in range are read as they are. -/
theorem wp_readBalances_total {ids : List UUID} (hrange : ∀ id ∈ ids, InBigint (db.balance id)) :
    wp queries allowed alone (readBalances ids) (Succeeds fun cur writes _ after ↦
      writes = [] ∧ db = after ∧ cur = balancesOf db ids) [] locks db := by
  induction ids generalizing locks with
  | nil => exact ⟨rfl, rfl, rfl⟩
  | cons id rest ih =>
    rw [readBalances, wp_stmt_bind]
    rintro ambient _ rfl -
    rw [Engine.view_nil, eval_getAccountBalance_ok (hrange id List.mem_cons_self),
      wp_succeeds_bind]
    refine wp_succeeds_orFail rfl ?_
    rw [wp_succeeds_bind]
    refine wp_succeeds_mono ?_ (ih fun id hid ↦ hrange id (List.mem_cons_of_mem _ hid))
    rintro cur writes locks' after ⟨rfl, rfl, rfl⟩
    exact ⟨rfl, rfl, rfl⟩

/-- No statement changes the accounts. -/
theorem account_view (db : Db) (writes : List Write) (id : UUID) :
    (queries.view db writes).account id = db.account id := by
  induction writes generalizing db with
  | nil => rfl
  | cons write rest ih =>
    rw [Engine.view_cons, ih]
    cases write <;> rfl

/-- No statement removes a journal entry. -/
theorem hasJournalID_view {id : UUID} (h : db.hasJournalID id = true) (writes : List Write) :
    (queries.view db writes).hasJournalID id = true := by
  induction writes generalizing db with
  | nil => exact h
  | cons write rest ih =>
    rw [Engine.view_cons]
    refine ih ?_
    cases write with
    | insertJournalEntry entry =>
      change (db.journalEntries ++ [entry]).any _ = true
      rw [List.any_append, Bool.or_eq_true]
      exact .inl h
    | _ => exact h

/-- The lines of a posted entry go in one after the other. -/
theorem wp_insertLines_total {entryID : UUID} {lines : List Line} {writes : List Write}
    (hlines : ∀ line ∈ lines, (line.direction = .debit ∨ line.direction = .credit) ∧
      ¬line.amount ≤ 0 ∧ (db.account line.accountID).isSome)
    (hentry : (queries.view db writes).hasJournalID entryID = true) :
    wp queries allowed alone (insertLines entryID lines) (Succeeds fun _ writes' _ after ↦
      writes' = writes ++ lines.map (fun line ↦ .insertEntryLine (line.row entryID)) ∧ db = after)
      writes locks db := by
  induction lines generalizing writes locks with
  | nil => exact ⟨by simp, rfl⟩
  | cons line rest ih =>
    obtain ⟨hdirection, hamount, haccount⟩ := hlines line List.mem_cons_self
    rw [insertLines, wp_stmt_bind]
    rintro ambient _ rfl -
    rw [← account_view db writes] at haccount
    have heval : queries.eval
        (.insertEntryLine ⟨entryID, line.accountID, line.direction, line.amount⟩) ambient
        (queries.view db writes) = Effect.wrote (line.row entryID)
          (.insertEntryLine (line.row entryID)) [] :=
      eval_insertEntryLine_ok hdirection hamount hentry haccount
    rw [heval, wp_succeeds_bind]
    refine wp_succeeds_orFail rfl ?_
    have hentry' : (queries.view db (writes ++ [.insertEntryLine (line.row entryID)])).hasJournalID
        entryID = true := by
      rw [Engine.view_append]
      exact hasJournalID_view hentry _
    refine wp_succeeds_mono ?_
      (ih (fun line hline ↦ hlines line (List.mem_cons_of_mem _ hline)) hentry')
    rintro - writes' locks' after ⟨rfl, rfl⟩
    exact ⟨by simp [Effect.wrote], rfl⟩

/-- What `PostWithin` needs of the tables. -/
structure Postable (db : Db) (entry : Entry) : Prop where
  valid : entry.validate = .ok ()
  directions : ∀ line ∈ entry.lines, (line.direction = .debit ∨ line.direction = .credit) ∧
    ¬line.amount ≤ 0
  accounts : checkAccounts (db.accountsByID (accountIDs entry.lines)) entry.asset
    (accountIDs entry.lines) = .ok ()
  range : ∀ id ∈ accountIDs entry.lines, InBigint (db.balance id)
  funds : ∃ next, applyToBalances (balancesOf db (accountIDs entry.lines)) entry.lines = .ok next
  fresh : db.posted entry.kind entry.externalRef = false

/-- On a healthy database `PostWithin` posts every entry that the tables allow. -/
theorem wp_postWithin_total {entry : Entry} {post : JournalEntry → List Write → List Lock → Db → Prop}
    (h : Postable db entry)
    (hpost : ∀ je locks, Posting db entry je → post je (entry.writes je) locks db) :
    wp queries Healthy alone (postWithin entry) (Succeeds post) [] [] db := by
  rw [postWithin, wp_succeeds_bind]
  refine wp_succeeds_ofExcept h.valid ?_
  rw [wp_stmt_bind]
  rintro _ _ rfl -
  rw [wp_succeeds_bind]
  refine wp_succeeds_orFail rfl ?_
  rw [Engine.view_nil, wp_succeeds_bind]
  refine wp_succeeds_ofExcept h.accounts ?_
  rw [wp_succeeds_bind]
  refine wp_succeeds_mono ?_ (wp_readBalances_total h.range)
  rintro cur writes locks after ⟨rfl, rfl, rfl⟩
  obtain ⟨next, hnext⟩ := h.funds
  rw [wp_succeeds_bind]
  refine wp_succeeds_ofExcept hnext ?_
  rw [wp_stmt_bind]
  rintro ambient _ rfl hfreshID
  rw [Engine.view_nil] at hfreshID ⊢
  rw [eval_insertJournalEntry_ok hfreshID h.fresh, wp_succeeds_bind]
  refine wp_succeeds_orFail rfl ?_
  have hlines : ∀ line ∈ entry.lines, (line.direction = .debit ∨ line.direction = .credit) ∧
      ¬line.amount ≤ 0 ∧ (db.account line.accountID).isSome := by
    intro line hline
    obtain ⟨account, hmem, hid, -, -⟩ :=
      exists_of_checkAccounts h.accounts (mem_accountIDs.mpr ⟨line, hline, rfl⟩)
    refine ⟨(h.directions line hline).1, (h.directions line hline).2, ?_⟩
    refine Option.isSome_iff_ne_none.mpr fun hnone ↦ ?_
    exact Table.lookup_eq_none.mp hnone account (mem_accountsByID.mp hmem).1 hid
  set je : JournalEntry := ⟨ambient.uuid, entry.kind, entry.externalRef, entry.asset⟩
  have hentry : (queries.view db [.insertJournalEntry je]).hasJournalID je.id = true := by
    change (db.journalEntries ++ [je]).any _ = true
    simp
  have hposting : Posting db entry je :=
    ⟨rfl, h.valid, h.accounts, h.range, h.funds, h.fresh, hfreshID⟩
  rw [wp_succeeds_bind]
  refine wp_succeeds_mono ?_ (wp_insertLines_total hlines hentry)
  rintro - writes locks after ⟨rfl, rfl⟩
  exact hpost je locks hposting

end Posting

section Transfer

variable {db : Db} {kind externalRef asset : String} {debited credited : UUID} {amount : Int64}

/-- The accounts of a transfer are there, active and of its asset, and the one debited holds the
amount. -/
structure Affordable (db : Db) (asset : String) (debited credited : UUID) (amount : Int64) :
    Prop where
  accounts : (∃ account ∈ db.accounts, account.id = debited) ∧
    ∃ account ∈ db.accounts, account.id = credited
  active : ∀ account ∈ db.accounts, account.id = debited ∨ account.id = credited →
    account.status = "active" ∧ account.asset = asset
  holds : amount.toInt ≤ db.balance debited
  range : db.balance debited < 2 ^ 63 ∧ 0 ≤ db.balance credited

theorem checkAccounts_of_active {accounts : List Account} {ids : List UUID}
    (hfound : ∀ id ∈ ids, ∃ account ∈ accounts, account.id = id)
    (hactive : ∀ account ∈ accounts, account.status = "active" ∧ account.asset = asset) :
    checkAccounts accounts asset ids = .ok () := by
  induction ids with
  | nil => rfl
  | cons id rest ih =>
    unfold checkAccounts
    cases hrow : Table.lookup Account.id accounts id with
    | none =>
      obtain ⟨account, hmem, hid⟩ := hfound id List.mem_cons_self
      exact absurd hid (Table.lookup_eq_none.mp hrow account hmem)
    | some account =>
      obtain ⟨hstatus, hasset⟩ := hactive account (Table.mem_of_lookup hrow)
      simp only [hstatus, hasset, ne_eq, not_true_eq_false, if_false]
      exact ih fun id hid ↦ hfound id (List.mem_cons_of_mem _ hid)

theorem validate_transfer (hkind : kind ≠ "") (href : externalRef ≠ "") (hasset : asset ≠ "")
    (hamount : ¬amount ≤ 0) :
    (Entry.transfer kind externalRef asset debited credited amount).validate = .ok () := by
  simp [Entry.validate, Entry.transfer, balanced, sumLines, hkind, href, hasset, hamount]

theorem mem_accountIDs_transfer {id : UUID} :
    id ∈ accountIDs (Entry.transfer kind externalRef asset debited credited amount).lines ↔
      id = debited ∨ id = credited := by
  rw [mem_accountIDs]
  simp [Entry.transfer, eq_comm]

/-- An update of balances that has the key changes its pairs one by one. -/
theorem Balances.update_eq_map {balances : Balances} {id : UUID} {f : Int64 → Int64}
    (h : ∃ pair ∈ balances, pair.1 = id) :
    balances.update id f =
      balances.map fun pair ↦ if pair.1 = id then (pair.1, f pair.2) else pair := by
  obtain ⟨pair, hpair, hid⟩ := h
  have hsome : (Table.lookup Prod.fst balances id).isSome := by
    refine Option.isSome_iff_ne_none.mpr fun hnone ↦ ?_
    exact Table.lookup_eq_none.mp hnone pair hpair hid
  rw [Balances.update, if_pos hsome]
  rfl

/-- An affordable transfer for which there is room leaves no balance negative. -/
theorem applyToBalances_transfer (hamount : 0 < amount.toInt)
    (h : Affordable db asset debited credited amount)
    (hroom : db.balance credited + amount.toInt < 2 ^ 63) {ids : List UUID} (hdebited : debited ∈ ids)
    (hcredited : credited ∈ ids) (hids : ∀ id ∈ ids, id = debited ∨ id = credited) :
    ∃ next, applyToBalances (balancesOf db ids)
      (Entry.transfer kind externalRef asset debited credited amount).lines = .ok next := by
  set next := ((balancesOf db ids).update debited (· - amount)).update credited (· + amount) with hnext
  have hkeys : ∀ id ∈ ids, ∃ pair ∈ balancesOf db ids, pair.1 = id := fun id hid ↦
    ⟨_, List.mem_map_of_mem hid, rfl⟩
  have hkeys' : ∃ pair ∈ (balancesOf db ids).update debited (· - amount), pair.1 = credited := by
    obtain ⟨pair, hpair, hid⟩ := hkeys credited hcredited
    rw [Balances.update_eq_map (hkeys debited hdebited)]
    refine ⟨_, List.mem_map_of_mem hpair, ?_⟩
    split <;> exact hid
  have hdebit : InBigint (db.balance debited) := ⟨by have := h.holds; omega, h.range.1⟩
  have hcredit : InBigint (db.balance credited) := ⟨by have := h.range.2; omega, by omega⟩
  have hnonneg : ∀ pair ∈ next, ¬pair.2 < 0 := by
    intro pair hpair
    rw [hnext, Balances.update_eq_map hkeys', Balances.update_eq_map (hkeys debited hdebited)] at hpair
    obtain ⟨mid, hmid, rfl⟩ := List.mem_map.mp hpair
    obtain ⟨first, hfirst, rfl⟩ := List.mem_map.mp hmid
    obtain ⟨id, hid, rfl⟩ := List.mem_map.mp hfirst
    rw [Int64.not_lt, Int64.le_iff_toInt_le, Int64.toInt_zero]
    by_cases hd : id = debited
    · subst hd
      have hb : (Int64.ofInt (db.balance id)).toInt = db.balance id :=
        Int64.toInt_ofInt_of_le hdebit.1 hdebit.2
      by_cases hc : id = credited
      · simp only [hc, if_true, Int64.sub_add_cancel]
        rw [← hc, hb]
        exact hamount.le.trans h.holds
      · simp only [hc, if_true, if_false, Int64.toInt_sub, hb, Int.bmod_def]
        have := h.holds
        have := h.range.1
        omega
    · have hc : id = credited := (hids id hid).resolve_left hd
      subst hc
      have hb : (Int64.ofInt (db.balance id)).toInt = db.balance id :=
        Int64.toInt_ofInt_of_le hcredit.1 hcredit.2
      simp only [hd, if_true, if_false, Int64.toInt_add, hb, Int.bmod_def]
      have := h.range.2
      omega
  refine ⟨next, ?_⟩
  have happlied : applyLines (Entry.transfer kind externalRef asset debited credited amount).lines
      (balancesOf db ids) = .ok next := rfl
  have hfind : (next.find? fun pair ↦ pair.2 < 0) = none :=
    List.find?_eq_none.mpr fun pair hpair ↦ by simpa using hnonneg pair hpair
  simp only [applyToBalances, happlied, hfind]

/-- An affordable transfer under a new reference, with room for it, can be posted. -/
theorem Affordable.postable (h : Affordable db asset debited credited amount)
    (hroom : db.balance credited + amount.toInt < 2 ^ 63) (hkind : kind ≠ "")
    (href : externalRef ≠ "") (hasset : asset ≠ "") (hamount : 0 < amount.toInt)
    (hfresh : db.posted kind externalRef = false) :
    Postable db (.transfer kind externalRef asset debited credited amount) := by
  have hpositive : ¬amount ≤ 0 := by
    rw [Int64.le_iff_toInt_le, Int64.toInt_zero]
    omega
  constructor
  case valid => exact validate_transfer hkind href hasset hpositive
  case directions =>
    intro line hline
    rw [Entry.transfer] at hline
    simp only [List.mem_cons, List.not_mem_nil, or_false] at hline
    obtain rfl | rfl := hline
    · exact ⟨.inl rfl, hpositive⟩
    · exact ⟨.inr rfl, hpositive⟩
  case accounts =>
    refine checkAccounts_of_active (fun id hid ↦ ?_) fun account haccount ↦ ?_
    · have hfound : ∃ account ∈ db.accounts, account.id = id := by
        obtain rfl | rfl := mem_accountIDs_transfer.mp hid
        · exact h.accounts.1
        · exact h.accounts.2
      obtain ⟨account, hmem, rfl⟩ := hfound
      exact ⟨account, mem_accountsByID.mpr ⟨hmem, hid⟩, rfl⟩
    · obtain ⟨hmem, hid⟩ := mem_accountsByID.mp haccount
      exact h.active account hmem (mem_accountIDs_transfer.mp hid)
  case range =>
    intro id hid
    have hholds := h.holds
    have hrange := h.range
    obtain rfl | rfl := mem_accountIDs_transfer.mp hid
    · exact ⟨by omega, by omega⟩
    · exact ⟨by omega, by omega⟩
  case funds =>
    exact applyToBalances_transfer hamount h hroom (mem_accountIDs_transfer.mpr (.inl rfl))
      (mem_accountIDs_transfer.mpr (.inr rfl)) fun id hid ↦ mem_accountIDs_transfer.mp hid
  case fresh => exact hfresh

end Transfer

section Announcement

variable {writes : List Write} {locks : List Lock} {db : Db}

theorem eval_insertOutboxEvent_ok {ambient : Ambient} {row : OutboxRow}
    (h : Healthy (.insertOutboxEvent row) ambient db) :
    queries.eval (.insertOutboxEvent row) ambient db =
      Effect.wrote () (.insertOutboxEvent row) [.outboxID row.id] := by
  have h : (db.outbox.any fun sent ↦ sent.id = row.id) = false := h
  simp only [queries, Stmt.eval, h, Bool.false_eq_true, if_false]

theorem eval_insertAuditEntry_ok {ambient : Ambient} {row : AuditRow}
    (h : Healthy (.insertAuditEntry row) ambient db) :
    queries.eval (.insertAuditEntry row) ambient db =
      Effect.wrote () (.insertAuditEntry row) [.auditSeq row.seq, .auditHash row.entryHash] := by
  obtain ⟨hseq, hhash⟩ := h
  simp only [queries, Stmt.eval, hseq, hhash, Bool.false_eq_true, if_false]

theorem wp_occurredAt_total {allowed : Stmt → Ambient → Db → Prop} {entry : Audit.Entry} :
    wp queries allowed alone (Audit.occurredAt entry) (Succeeds fun _ writes' _ after ↦
      writes = writes' ∧ db = after) writes locks db := by
  unfold Audit.occurredAt
  split
  · exact ⟨rfl, rfl⟩
  · rintro ambient _ rfl -
    exact ⟨(List.append_nil _).symm, rfl⟩

/-- The place of the next audit row is always found. -/
theorem wp_nextPlace_total {allowed : Stmt → Ambient → Db → Prop} {head : Option AuditRow}
    {post : Int64 × List UInt8 → List Write → List Lock → Db → Prop}
    (hpost : ∀ place, post place writes locks db) :
    wp queries allowed alone (Audit.nextPlace (Db.one head)) (Succeeds post) writes locks db := by
  cases head with
  | some row => exact hpost _
  | none =>
    have hnoRows : Err.errNoRows.is .errNoRows = true := by decide
    simp only [Db.one, Audit.nextPlace, if_pos hnoRows]
    exact hpost _

/-- On a healthy database a transition is always announced. -/
theorem wp_announce_total {rt : Audit.Runtime} {event : Outbox.Event} {entry : Audit.Entry}
    {post : Unit → List Write → List Lock → Db → Prop}
    (hpost : ∀ sent logged locks',
      post () (writes ++ [.insertOutboxEvent sent, .insertAuditEntry logged]) locks' db) :
    wp queries Healthy alone (Audit.announce rt event entry) (Succeeds post) writes locks db := by
  rw [Audit.announce, wp_succeeds_bind, Outbox.emit, wp_stmt_bind]
  rintro named _ rfl -
  rw [wp_stmt_bind]
  rintro timed _ rfl -
  rw [wp_stmt_bind]
  rintro _ _ rfl hsent
  rw [eval_insertOutboxEvent_ok hsent]
  refine wp_succeeds_orFail rfl ?_
  rw [Audit.append, wp_succeeds_bind]
  refine wp_succeeds_mono ?_ wp_occurredAt_total
  rintro occurred written held after ⟨rfl, rfl⟩
  rw [wp_stmt_bind]
  rintro _ _ rfl -
  rw [wp_succeeds_bind]
  refine wp_succeeds_orFail rfl ?_
  rw [wp_stmt_bind]
  rintro _ _ rfl -
  rw [wp_succeeds_bind]
  refine wp_nextPlace_total fun place ↦ ?_
  rw [Audit.insertAt, wp_stmt_bind]
  rintro _ _ rfl hlogged
  rw [eval_insertAuditEntry_ok hlogged]
  refine wp_succeeds_orFail rfl ?_
  have h := hpost (event.row named.uuid timed.now) (entry.row rt occurred place.1 place.2)
  simpa [queries, Stmt.eval, Effect.read, Effect.wrote] using h _

end Announcement

end PaymentRail.Ledger
