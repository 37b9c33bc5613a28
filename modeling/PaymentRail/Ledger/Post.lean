import PaymentRail.Db.Locking
import PaymentRail.Ledger.Balance

/-!
# Posting an entry

`PostWithin`: lock the accounts of an entry, check them, project the entry onto their balances and
insert the entry with its lines.  `Posting` is what is known of the tables when an entry is posted.
It is stated of the tables as they are, not as they were when each statement ran: the locks taken on
the way keep every part of it true until the transaction ends.
-/

namespace PaymentRail.Ledger

open Transaction

/-- `mapInsertError`. -/
def mapInsertError (err : Err) : Err :=
  if err.is .uniqueViolation then errDuplicateEntry.wrap "ledger: entry already posted"
  else err.wrap "ledger: insert journal entry"

/-- The loop that reads the balances under lock. -/
def readBalances : List UUID → DbTx Balances
  | [] => pure []
  | id :: rest => do
    let bal ← orFail (← Tx.stmt (.getAccountBalance id))
      (·.wrap ("ledger: read balance for " ++ id.string))
    let cur ← readBalances rest
    pure ((id, bal) :: cur)

/-- The loop that inserts the lines of an entry. -/
def insertLines (entryID : UUID) : List Line → DbTx Unit
  | [] => pure ()
  | line :: rest => do
    let _ ← orFail
      (← Tx.stmt (.insertEntryLine ⟨entryID, line.accountID, line.direction, line.amount⟩))
      (·.wrap "ledger: insert line")
    insertLines entryID rest

def postWithin (entry : Entry) : DbTx JournalEntry := do
  Tx.ofExcept entry.validate
  let ids := accountIDs entry.lines
  let accounts ← orFail (← Tx.stmt (.getAccountsForUpdate ids)) (·.wrap "ledger: lock accounts")
  Tx.ofExcept (checkAccounts accounts entry.asset ids)
  let cur ← readBalances ids
  let _ ← Tx.ofExcept (applyToBalances cur entry.lines)
  let je ← orFail (← Tx.stmt (.insertJournalEntry entry.kind entry.externalRef entry.asset))
    mapInsertError
  insertLines je.id entry.lines
  pure je

/-- The line inserted for a line of an entry. -/
def Line.row (entryID : UUID) (line : Line) : EntryLine :=
  ⟨entryID, line.accountID, line.direction, line.amount⟩

/-- What posting an entry writes. -/
def Entry.writes (entry : Entry) (je : JournalEntry) : List Write :=
  .insertJournalEntry je :: entry.lines.map fun line ↦ .insertEntryLine (line.row je.id)

/-- The tables with an entry posted. -/
def postEntry (db : Db) (entry : Entry) (je : JournalEntry) : Db :=
  { db with
    journalEntries := db.journalEntries ++ [je]
    entryLines := db.entryLines ++ entry.lines.map (Line.row je.id) }

theorem view_entry_writes (db : Db) (entry : Entry) (je : JournalEntry) :
    queries.view db (entry.writes je) = postEntry db entry je := by
  have hlines : ∀ (lines : List Line) (db : Db),
      queries.view db (lines.map fun line ↦ .insertEntryLine (line.row je.id)) =
        { db with entryLines := db.entryLines ++ lines.map (Line.row je.id) } := by
    intro lines
    induction lines with
    | nil => intro db; simp
    | cons line rest ih =>
      intro db
      rw [List.map_cons, Engine.view_cons, ih]
      simp [queries, Db.apply]
  rw [Entry.writes, Engine.view_cons, hlines]
  rfl

/-- A sum that fits the `bigint` of the balance query. -/
def InBigint (balance : ℤ) : Prop := -2 ^ 63 ≤ balance ∧ balance < 2 ^ 63

/-- The balances of some accounts as the balance query returns them. -/
def balancesOf (db : Db) (ids : List UUID) : Balances :=
  ids.map fun id ↦ (id, Int64.ofInt (db.balance id))

/-- What is known of the tables when an entry is posted. -/
structure Posting (db : Db) (entry : Entry) (je : JournalEntry) : Prop where
  row : je = ⟨je.id, entry.kind, entry.externalRef, entry.asset⟩
  valid : entry.validate = .ok ()
  accounts : checkAccounts (db.accountsByID (accountIDs entry.lines)) entry.asset
    (accountIDs entry.lines) = .ok ()
  range : ∀ id ∈ accountIDs entry.lines, InBigint (db.balance id)
  funds : ∃ next, applyToBalances (balancesOf db (accountIDs entry.lines)) entry.lines = .ok next
  fresh : db.posted entry.kind entry.externalRef = false
  freshID : db.hasJournalID je.id = false

theorem Posting.kind {db : Db} {entry : Entry} {je : JournalEntry} (h : Posting db entry je) :
    je.kind = entry.kind := congrArg JournalEntry.kind h.row

theorem Posting.externalRef {db : Db} {entry : Entry} {je : JournalEntry}
    (h : Posting db entry je) : je.externalRef = entry.externalRef :=
  congrArg JournalEntry.externalRef h.row

theorem mem_accountIDs {lines : List Line} {id : UUID} :
    id ∈ accountIDs lines ↔ ∃ line ∈ lines, line.accountID = id := by
  have hfold : ∀ (lines : List Line) (ids : List UUID),
      id ∈ lines.foldl (fun ids line ↦ if line.accountID ∈ ids then ids
        else ids ++ [line.accountID]) ids ↔ id ∈ ids ∨ ∃ line ∈ lines, line.accountID = id := by
    intro lines
    induction lines with
    | nil => simp
    | cons line rest ih =>
      intro ids
      rw [List.foldl_cons, ih]
      by_cases hmem : line.accountID ∈ ids
      · simp only [if_pos hmem, List.mem_cons, exists_eq_or_imp]
        constructor
        · rintro (h | h)
          · exact .inl h
          · exact .inr (.inr h)
        · rintro (h | rfl | h)
          · exact .inl h
          · exact .inl hmem
          · exact .inr h
      · simp [if_neg hmem, or_assoc, eq_comm]
  rw [accountIDs, List.mem_insertionSort, hfold]
  simp

/-- Every account that passes the check is one of the rows that were locked. -/
theorem exists_of_checkAccounts {accounts : List Account} {asset : String} {ids : List UUID}
    (h : checkAccounts accounts asset ids = .ok ()) {id : UUID} (hid : id ∈ ids) :
    ∃ account ∈ accounts, account.id = id ∧ account.status = "active" ∧ account.asset = asset := by
  induction ids with
  | nil => cases hid
  | cons first rest ih =>
    unfold checkAccounts at h
    split at h
    · cases h
    · next account hrow =>
      split at h
      · cases h
      · next hactive =>
        split at h
        · cases h
        · next hasset =>
          rcases List.mem_cons.mp hid with rfl | hrest
          · exact ⟨account, Table.mem_of_lookup hrow, Table.key_of_lookup hrow,
              not_not.mp hactive, not_not.mp hasset⟩
          · exact ih h hrest

theorem mem_accountsByID {db : Db} {ids : List UUID} {account : Account} :
    account ∈ db.accountsByID ids ↔ account ∈ db.accounts ∧ account.id ∈ ids := by
  simp [Db.accountsByID, List.mem_insertionSort]

/-- The account of every line of a posting is there and has the asset of the entry. -/
theorem Posting.exists_account {db : Db} {entry : Entry} {je : JournalEntry}
    (h : Posting db entry je) {line : Line} (hline : line ∈ entry.lines) :
    ∃ account ∈ db.accounts, account.id = line.accountID ∧ account.asset = entry.asset := by
  obtain ⟨account, hmem, hid, -, hasset⟩ := exists_of_checkAccounts h.accounts
    (mem_accountIDs.mpr ⟨line, hline, rfl⟩)
  exact ⟨account, (mem_accountsByID.mp hmem).1, hid, hasset⟩

section Locked

variable {allowed : Stmt → Ambient → Db → Prop} {locks : List Lock} {db db' : Db}

theorem balance_of_held (h : Rely locks db db') {id : UUID} (hheld : .account id ∈ locks) :
    db'.balance id = db.balance id := by
  rw [Db.balance, Db.balance, h.linesHeld id hheld]

theorem accountsByID_of_rely (h : Rely locks db db') (ids : List UUID) :
    db'.accountsByID ids = db.accountsByID ids := by
  rw [Db.accountsByID, Db.accountsByID, h.accounts]

theorem balancesOf_of_held (h : Rely locks db db') {ids : List UUID}
    (hheld : ∀ id ∈ ids, .account id ∈ locks) : balancesOf db' ids = balancesOf db ids :=
  List.map_congr_left fun id hid ↦ by rw [balance_of_held h (hheld id hid)]

/-- Everything known of a posting is under a lock that the posting holds. -/
theorem Posting.stable {entry : Entry} {je : JournalEntry} (h : Posting db entry je)
    (hguarded : Guarded (entry.writes je) locks) (hrely : Rely locks db db') :
    Posting db' entry je := by
  have hheld : ∀ id ∈ accountIDs entry.lines, Lock.account id ∈ locks := by
    intro id hid
    obtain ⟨line, hline, rfl⟩ := mem_accountIDs.mp hid
    refine hguarded (.insertEntryLine (line.row je.id)) ?_ _ (by simp [Write.locks, Line.row])
    exact List.mem_cons_of_mem _ (List.mem_map_of_mem hline)
  have hentry : ∀ lock ∈ (Write.insertJournalEntry je).locks, lock ∈ locks :=
    hguarded _ (by simp [Entry.writes])
  rw [h.row] at hentry
  exact {
    row := h.row
    valid := h.valid
    accounts := by rw [accountsByID_of_rely hrely]; exact h.accounts
    range := fun id hid ↦ by rw [balance_of_held hrely (hheld id hid)]; exact h.range id hid
    funds := by rw [balancesOf_of_held hrely hheld]; exact h.funds
    fresh := by
      rw [hrely.postedHeld _ _ (hentry _ (by simp [Write.locks]))]
      exact h.fresh
    freshID := by
      rw [hrely.journalIDHeld _ (hentry _ (by simp [Write.locks]))]
      exact h.freshID }

/-- The balances read one after the other are the balances of one state: the accounts are locked. -/
theorem wp_readBalances {ids : List UUID} (hheld : ∀ id ∈ ids, .account id ∈ locks) :
    wp queries allowed Rely (readBalances ids) (OnSuccess fun cur writes locks' after ↦
      writes = [] ∧ locks' = locks ∧ Rely locks db after ∧ cur = balancesOf after ids ∧
        ∀ id ∈ ids, InBigint (after.balance id)) [] locks db := by
  induction ids generalizing db with
  | nil => exact ⟨rfl, rfl, .refl _ _, rfl, by simp⟩
  | cons id rest ih =>
    rw [readBalances, wp_stmt_bind]
    intro ambient mid hrely _
    rw [wp_success_bind, wp_orFail]
    intro bal hbal
    obtain ⟨hrange, rfl⟩ := eval_getAccountBalance hbal
    simp only [queries, Stmt.eval, Effect.read, List.append_nil, wp_success_bind]
    refine wp_success_mono ?_ (ih fun id hid ↦ hheld id (List.mem_cons_of_mem _ hid))
    rintro cur writes locks' after ⟨rfl, rfl, hrely', rfl, hrest⟩
    have hsame : after.balance id = mid.balance id := balance_of_held hrely' (hheld id (by simp))
    refine ⟨rfl, rfl, hrely.trans hrely', ?_, ?_⟩
    · simp [balancesOf, hsame]
    · intro id' hid'
      rcases List.mem_cons.mp hid' with rfl | hmem
      · rw [hsame]
        exact hrange
      · exact hrest id' hmem

theorem wp_insertLines {entryID : UUID} {lines : List Line} {writes : List Write} :
    wp queries allowed Rely (insertLines entryID lines) (OnSuccess fun _ writes' locks' after ↦
      writes' = writes ++ lines.map (fun line ↦ .insertEntryLine (line.row entryID)) ∧
        locks' = locks ∧ Rely locks db after) writes locks db := by
  induction lines generalizing db writes with
  | nil => exact ⟨by simp, rfl, .refl _ _⟩
  | cons line rest ih =>
    rw [insertLines, wp_stmt_bind]
    intro ambient mid hrely _
    rw [wp_success_bind, wp_orFail]
    intro row hrow
    rw [eval_insertEntryLine hrow]
    simp only [Effect.wrote, List.append_nil]
    refine wp_success_mono ?_ ih
    rintro - writes' locks' after ⟨rfl, rfl, hrely'⟩
    exact ⟨by simp [Line.row], rfl, hrely.trans hrely'⟩

/-- What `PostWithin` has done when it returns an entry: it wrote the entry with its lines, it holds
the locks of all of them, and what it checked still holds. -/
theorem wp_postWithin {entry : Entry} {post : JournalEntry → List Write → List Lock → Db → Prop}
    (hpost : ∀ je locks after, Rely [] db after → Posting after entry je →
      Guarded (entry.writes je) locks → post je (entry.writes je) locks after) :
    wp queries allowed Rely (postWithin entry) (OnSuccess post) [] [] db := by
  rw [postWithin, wp_success_bind, wp_success_ofExcept]
  intro _ hvalid
  rw [wp_stmt_bind]
  intro _ locked hlocked _
  rw [wp_success_bind, wp_orFail]
  intro accounts haccounts
  obtain rfl : locked.accountsByID (accountIDs entry.lines) = accounts := Except.ok.inj haccounts
  rw [wp_success_bind, wp_success_ofExcept]
  intro _ hcheck
  -- every account of the entry is among the rows that were locked
  have hheld : ∀ id ∈ accountIDs entry.lines, Lock.account id ∈
      (locked.accountsByID (accountIDs entry.lines)).map fun account ↦ Lock.account account.id := by
    intro id hid
    obtain ⟨account, hmem, rfl, -, -⟩ := exists_of_checkAccounts hcheck hid
    exact List.mem_map_of_mem hmem
  rw [wp_success_bind]
  refine wp_success_mono ?_ (wp_readBalances hheld)
  rintro cur writes locks read ⟨rfl, rfl, hread, rfl, hrange⟩
  rw [wp_success_bind, wp_success_ofExcept]
  intro next hnext
  rw [wp_stmt_bind]
  intro _ inserted hinserted _
  rw [wp_success_bind, wp_orFail]
  intro je hje
  obtain ⟨hrow, hfreshID, hfresh, heval⟩ := eval_insertJournalEntry hje
  rw [heval, wp_success_bind]
  refine wp_success_mono ?_ wp_insertLines
  rintro - writes locks after ⟨rfl, rfl, hafter⟩
  set accountLocks := (locked.accountsByID (accountIDs entry.lines)).map fun account ↦
    Lock.account account.id
  have hguarded : Guarded (entry.writes je)
      (accountLocks ++ [.journalID je.id, .journalKey entry.kind entry.externalRef]) := by
    intro write hwrite lock hlock
    rcases List.mem_cons.mp hwrite with rfl | hline
    · have hkind : je.kind = entry.kind := congrArg JournalEntry.kind hrow
      have href : je.externalRef = entry.externalRef := congrArg JournalEntry.externalRef hrow
      rw [Write.locks, hkind, href] at hlock
      exact List.mem_append_right _ hlock
    · obtain ⟨line, hmem, rfl⟩ := List.mem_map.mp hline
      obtain rfl : lock = .account line.accountID := by simpa [Write.locks, Line.row] using hlock
      exact List.mem_append_left _ (hheld _ (mem_accountIDs.mpr ⟨line, hmem, rfl⟩))
  have hposting : Posting inserted entry je := by
    have hsame := balancesOf_of_held hinserted hheld
    exact {
      row := hrow
      valid := hvalid
      accounts := by
        rw [accountsByID_of_rely hinserted, accountsByID_of_rely hread]
        exact hcheck
      range := fun id hid ↦ by
        rw [balance_of_held hinserted (hheld id hid)]
        exact hrange id hid
      funds := ⟨next, by rw [hsame]; exact hnext⟩
      fresh := hfresh
      freshID := hfreshID }
  have hrely : Rely [] db after :=
    hlocked.trans ((hread.anti (by simp)).trans ((hinserted.anti (by simp)).trans
      (hafter.anti (by simp))))
  exact hpost je _ after hrely (hposting.stable hguarded hafter) hguarded

end Locked

end PaymentRail.Ledger
