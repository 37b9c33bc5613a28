import PaymentRail.Audit.Verify

/-!
# The audit log under concurrent appends

Transactions that append to the audit log are interleaved at READ COMMITTED.  The advisory lock of
the chain is taken before the head is read and is held to the end of the transaction, so from then
on nobody else's rows reach the log (`HeldLog`).  Each committed transaction adds one row for each of
its appends, chained onto the log it commits to (`Extends`); a transaction that rolls back adds none.

From an empty log this gives the sequence numbers `1 … n` without a gap, in the order of the commits,
and a log that `Verify` accepts.
-/

namespace PaymentRail

/-- The audit row that a write inserts. -/
def Write.auditRow : Write → Option AuditRow
  | .insertAuditEntry row => some row
  | _ => none

/-- `ScanAuditChain`: the log in the order of the sequence numbers. -/
def Db.scanAuditChain (db : Db) : List AuditRow :=
  db.auditLog.insertionSort fun a b ↦ a.seq ≤ b.seq

end PaymentRail

namespace PaymentRail.Audit

open Transaction HashChain

/-- The rows that some writes add to the log. -/
def auditRows (writes : List Write) : List AuditRow := writes.filterMap Write.auditRow

theorem auditLog_view (db : Db) (writes : List Write) :
    (queries.view db writes).auditLog = db.auditLog ++ auditRows writes := by
  induction writes generalizing db with
  | nil => simp [auditRows]
  | cons write rest ih =>
    rw [Engine.view_cons, ih]
    cases write <;>
      simp [queries, Db.apply, Db.updateSettlement, auditRows, Write.auditRow, List.filterMap_cons]

/-- The row of a log with the highest sequence number. -/
def headRow (log : List AuditRow) : Option AuditRow :=
  log.foldl (fun head row ↦
    match head with
    | none => some row
    | some best => if best.seq < row.seq then some row else some best) none

/-- The sequence number and the link of the next row of a log. -/
def place (log : List AuditRow) : Int64 × List UInt8 :=
  match headRow log with
  | none => (1, genesisPrevHash)
  | some head => (head.seq + 1, head.entryHash)

/-- The rows that appends of some entries add to a log, each at the place that the log and the rows
before it leave.  The event time is the entry's own if it has one. -/
inductive Extends (rt : Runtime) (log : List AuditRow) : List Entry → List AuditRow → Prop
  | nil : Extends rt log [] []
  | concat {entries : List Entry} {rows : List AuditRow} (entry : Entry) (occurred : Time) :
      Extends rt log entries rows → (∀ time ∈ entry.occurredAt, occurred = time) →
        Extends rt log (entries ++ [entry])
          (rows ++ [entry.row rt occurred (place (log ++ rows)).1 (place (log ++ rows)).2])

section Extends

variable {rt : Runtime} {log rows more : List AuditRow} {entries later : List Entry}

theorem Extends.length_eq (h : Extends rt log entries rows) : rows.length = entries.length := by
  induction h with
  | nil => rfl
  | concat _ _ _ _ ih => rw [List.length_append, List.length_append, ih]; rfl

/-- What is appended later extends the log by both. -/
theorem Extends.append (h : Extends rt log entries rows) (h' : Extends rt (log ++ rows) later more) :
    Extends rt log (entries ++ later) (rows ++ more) := by
  induction h' with
  | nil => simpa using h
  | concat entry occurred _ htime ih =>
    rw [← List.append_assoc, ← List.append_assoc, List.append_assoc log]
    exact ih.concat entry occurred htime

/-- As long as the numbers do not wrap around, the head of a chain is its last row. -/
theorem headRow_of_chained (h : Chained log) (hlength : log.length < 2 ^ 63) :
    headRow log = log.getLast? := by
  induction h with
  | nil => rfl
  | @concat rows row hrows hseq _ ih =>
    rw [List.length_append, List.length_singleton] at hlength
    rw [headRow, List.foldl_append, List.getLast?_concat]
    have hfold := ih (by omega)
    rw [headRow] at hfold
    rw [hfold]
    cases hrows with
    | nil => rfl
    | @concat front last _ hlast _ =>
      have hlt : last.seq < row.seq := by
        rw [List.length_append, List.length_singleton] at hlength hseq
        rw [hseq, hlast, Int64.lt_iff_toInt_lt, toInt_seqAt (by omega), toInt_seqAt (by omega)]
        omega
      simp [hlt]

theorem place_of_chained (h : Chained log) (hlength : log.length < 2 ^ 63) :
    place log = (seqAt log.length, headHash log) := by
  rw [place, headRow_of_chained h hlength]
  cases h with
  | nil => rfl
  | concat _ hseq _ =>
    rw [List.getLast?_concat, headHash, head_concat]
    simp only [hseq, seqAt_succ, List.length_append, List.length_singleton]

/-- Appends keep a log chained, and every row carries its hash. -/
theorem Extends.chained (h : Extends rt [] entries log) (hlength : log.length < 2 ^ 63) :
    Chained log ∧ ∀ row ∈ log, row.Hashed rt := by
  induction h with
  | nil => exact ⟨.nil, by simp⟩
  | @concat entries rows entry occurred _ _ ih =>
    rw [List.length_append, List.length_singleton] at hlength
    obtain ⟨hchained, hhashed⟩ := ih (by omega)
    rw [List.nil_append, place_of_chained hchained (by omega)]
    refine ⟨.concat hchained rfl rfl, ?_⟩
    rw [List.forall_mem_append, List.forall_mem_singleton]
    exact ⟨hhashed, rfl⟩

end Extends

/-- The rows of a chain are in order. -/
theorem scanAuditChain_of_chained {db : Db} (h : Chained db.auditLog)
    (hlength : db.auditLog.length < 2 ^ 63) : db.scanAuditChain = db.auditLog := by
  have hsorted : (db.auditLog.map AuditRow.seq).Pairwise (· ≤ ·) := by
    rw [h.map_seq, List.pairwise_map]
    refine List.Pairwise.imp_of_mem (fun {n m} hn hm hlt ↦ ?_) List.pairwise_lt_range
    rw [List.mem_range] at hn hm
    rw [Int64.le_iff_toInt_le, toInt_seqAt (by omega), toInt_seqAt (by omega)]
    omega
  exact List.Pairwise.insertionSort_eq (List.pairwise_map.mp hsorted)

/-! ### Interleavings -/

/-- A transaction that appends some entries. -/
def appendAll (rt : Runtime) : List Entry → DbTx Unit
  | [] => pure ()
  | entry :: rest => do
    append rt entry
    appendAll rt rest

/-- The log stays as it is while the lock of the chain is held. -/
def HeldLog (held : List Lock) (db db' : Db) : Prop :=
  .advisory chainAdvisoryKey ∈ held → db'.auditLog = db.auditLog

theorem HeldLog.refl (held : List Lock) (db : Db) : HeldLog held db db := fun _ ↦ rfl

theorem HeldLog.trans {held : List Lock} {db db' db'' : Db} (h : HeldLog held db db')
    (h' : HeldLog held db' db'') : HeldLog held db db'' :=
  fun hheld ↦ (h' hheld).trans (h hheld)

/-- A transaction that has appended some entries: its rows extend the log, whose lock it holds. -/
structure Appended (rt : Runtime) (entries : List Entry) (writes : List Write) (locks : List Lock)
    (db : Db) : Prop where
  rows : Extends rt db.auditLog entries (auditRows writes)
  locked : entries ≠ [] → .advisory chainAdvisoryKey ∈ locks

section Appending

variable {rt : Runtime} {entries : List Entry} {writes : List Write} {locks : List Lock} {db db' : Db}

theorem Appended.stable (h : Appended rt entries writes locks db) (hrely : HeldLog locks db db') :
    Appended rt entries writes locks db' := by
  refine ⟨?_, h.locked⟩
  by_cases hnone : entries = []
  · have hrows := h.rows.length_eq
    rw [hnone, List.length_nil, List.length_eq_zero_iff] at hrows
    rw [hnone, hrows]
    exact .nil
  · rw [hrely (h.locked hnone)]
    exact h.rows

theorem wp_time {entry : Entry} (h : Appended rt entries writes locks db) :
    wp queries unrestricted HeldLog (occurredAt entry) (OnSuccess fun occurred writes' locks' after ↦
      (∀ time ∈ entry.occurredAt, occurred = time) ∧ Appended rt entries writes' locks' after)
      writes locks db := by
  unfold occurredAt
  split
  · next time htime => exact ⟨by simp [htime], h⟩
  · next htime =>
    intro ambient after hrely _
    refine ⟨by simp [htime], ?_⟩
    simpa [queries, Stmt.eval, Effect.read] using h.stable hrely

/-- One more append. -/
theorem wp_append_one (entry : Entry) (h : Appended rt entries writes locks db) :
    wp queries unrestricted HeldLog (append rt entry) (OnSuccess fun _ writes' locks' after ↦
      Appended rt (entries ++ [entry]) writes' locks' after) writes locks db := by
  rw [append, wp_success_bind]
  refine wp_success_mono ?_ (wp_time h)
  rintro occurred writes locks first ⟨htime, hfirst⟩
  rw [wp_stmt_bind]
  intro _ locked hlocked _
  rw [wp_success_bind, wp_orFail]
  intro _ _
  rw [wp_stmt_bind]
  intro _ read hread _
  rw [wp_success_bind]
  simp only [queries, Stmt.eval, Effect.read, List.append_nil] at hread ⊢
  have hheld : Lock.advisory chainAdvisoryKey ∈ locks ++ [.advisory chainAdvisoryKey] := by simp
  have hread' : Appended rt entries writes (locks ++ [.advisory chainAdvisoryKey]) read :=
    (Appended.mk (hfirst.stable hlocked).rows fun _ ↦ hheld).stable hread
  -- the place is found on the log as it will be at the insert: the lock is held
  have hinsert : wp queries unrestricted HeldLog
      (insertAt rt entry occurred (place (queries.view read writes).auditLog))
      (OnSuccess fun _ writes' locks' after ↦ Appended rt (entries ++ [entry]) writes' locks' after)
      writes (locks ++ [.advisory chainAdvisoryKey]) read := by
    rw [insertAt, wp_stmt_bind]
    intro _ after hafter _
    rw [wp_orFail]
    intro _ hinserted
    rw [eval_insertAuditEntry hinserted]
    have hrows := (hread'.stable hafter).rows.concat entry occurred htime
    refine ⟨?_, fun _ ↦ List.mem_append_left _ hheld⟩
    rw [auditLog_view, ← hafter hheld]
    simpa [Effect.wrote, auditRows, Write.auditRow] using hrows
  have hhead : Db.auditHead (queries.view read writes) =
      headRow (queries.view read writes).auditLog := rfl
  rw [place] at hinsert
  simp only [queries] at hhead hinsert
  rw [hhead]
  cases hrow : headRow (Engine.view ⟨Db.apply, Stmt.eval⟩ read writes).auditLog with
  | none =>
    rw [hrow] at hinsert
    exact hinsert
  | some head =>
    rw [hrow] at hinsert
    exact hinsert

theorem wp_appendAll (rest : List Entry) (h : Appended rt entries writes locks db) :
    wp queries unrestricted HeldLog (appendAll rt rest) (OnSuccess fun _ writes' locks' after ↦
      Appended rt (entries ++ rest) writes' locks' after) writes locks db := by
  induction rest generalizing entries writes locks db with
  | nil =>
    rw [List.append_nil]
    exact h
  | cons entry rest ih =>
    rw [appendAll, wp_success_bind, List.append_cons]
    exact wp_success_mono (fun _ _ _ _ hone ↦ ih hone) (wp_append_one entry h)

end Appending

/-- The tables with open appending transactions over them. -/
abbrev LogState := State Reply Db Write Lock (List Entry) Err Unit

theorem discipline (rt : Runtime) : Discipline queries unrestricted HeldLog (appendAll rt)
    (fun entries ↦ OnSuccess fun _ ↦ Appended rt entries) where
  refl := HeldLog.refl
  trans _ _ _ _ := HeldLog.trans
  stable entries result writes locks db db' hpost hrely := by
    cases result with
    | error => trivial
    | ok => exact Appended.stable hpost hrely
  verified entries db := by
    have hnone : Appended rt [] [] [] db := ⟨.nil, by simp⟩
    exact wp_appendAll entries hnone
  guarantee entries _ writes locks db others hpost hothers hheld := by
    -- a peer that holds the lock keeps everyone else from appending
    have hnone : entries = [] := by
      by_contra hsome
      exact hothers _ (Appended.locked hpost hsome) hheld
    have hrows := (Appended.rows hpost).length_eq
    rw [hnone, List.length_nil, List.length_eq_zero_iff] at hrows
    rw [auditLog_view, hrows, List.append_nil]

/-- The committed log has one row for every append of a committed transaction, in commit order. -/
theorem extends_serial {rt : Runtime} {start db : Db} (hstart : start.auditLog = [])
    {history : List (Commit Write (List Entry) Unit)}
    (h : Serial queries (fun entries _ writes db ↦ ∃ locks, Appended rt entries writes locks db) start
      history db) :
    Extends rt [] (history.reverse.flatMap Commit.call) db.auditLog := by
  induction h with
  | nil =>
    rw [hstart]
    exact .nil
  | cons commit _ hcommit ih =>
    obtain ⟨locks, hcommit⟩ := hcommit
    rw [auditLog_view, List.reverse_cons, List.flatMap_append, List.flatMap_singleton]
    exact ih.append (by rw [List.nil_append]; exact hcommit.rows)

/-- Over every interleaving of transactions that append to an empty log and commit or roll back, the
committed log is numbered from 1 without a gap, has one row for every append of a committed
transaction in commit order, and is accepted by `Verify`. -/
theorem log_verifies (rt : Runtime) {start : Db} (hstart : start.auditLog = []) {s : LogState}
    (h : Reaches queries (appendAll rt) unrestricted start s)
    (hlength : s.db.auditLog.length < 2 ^ 63 - 1) :
    Extends rt [] (s.history.reverse.flatMap Commit.call) s.db.auditLog ∧
    s.db.auditLog.length = (s.history.reverse.flatMap Commit.call).length ∧
    s.db.auditLog.map AuditRow.seq = (List.range s.db.auditLog.length).map seqAt ∧
    (verify rt s.db.scanAuditChain none).2 = none := by
  have hextends := extends_serial hstart ((discipline rt).serial h)
  obtain ⟨hchained, hhashed⟩ := hextends.chained (by omega)
  refine ⟨hextends, hextends.length_eq, hchained.map_seq, ?_⟩
  rw [scanAuditChain_of_chained hchained (by omega)]
  exact (verify_eq_none_iff _ _ _).mpr ⟨hchained, hhashed, by simp⟩

/-- Three transactions, the second of which rolls back after it has inserted its row. -/
def sampleSchedule : List (Action (List Entry) Ambient) :=
  let entry (id : String) : Entry :=
    ⟨"system:api", "payment.created", "payment", id, some 5000, .settlement ⟨0, "", "", 0⟩⟩
  let exec (tid : ℕ) : Action (List Entry) Ambient := .exec tid ⟨0, 0⟩
  [.start 0 [entry "a", entry "b"], .start 1 [entry "c"], .start 2 [entry "d"], exec 1, exec 1, exec 1,
    .abort 1, exec 0, exec 0, exec 0, exec 0, exec 0, exec 0, .commit 0, exec 2, exec 2, exec 2,
    .commit 2]

/-- The tables without a row. -/
def emptyDb : Db := ⟨[], [], [], [], [], [], []⟩

theorem log_verifies_sample : ∃ s : LogState,
    schedule queries (appendAll ⟨id, fun _ ↦ []⟩) (State.idle emptyDb) sampleSchedule = some s ∧
    s.db.auditLog.map (fun row ↦ (row.seq, row.aggregateID)) = [(1, "a"), (2, "b"), (3, "d")] ∧
    (verify ⟨id, fun _ ↦ []⟩ s.db.scanAuditChain none).2 = none := by
  have hrun : (schedule queries (appendAll ⟨id, fun _ ↦ []⟩) (State.idle emptyDb) sampleSchedule).map
      (fun s : LogState ↦ s.db.auditLog.map fun row ↦ (row.seq, row.aggregateID)) =
        some [(1, "a"), (2, "b"), (3, "d")] := by decide +kernel
  obtain ⟨s, hs, hrows⟩ := Option.map_eq_some_iff.mp hrun
  have hreach := reaches_of_schedule .idle hs (permittedRun_unrestricted _ _)
  have hlength : s.db.auditLog.length = 3 := by simpa using congrArg List.length hrows
  exact ⟨s, hs, hrows, (log_verifies _ rfl hreach (by omega)).2.2.2⟩

end PaymentRail.Audit
