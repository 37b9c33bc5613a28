import PaymentRail.Ledger.Post
import Mathlib.Algebra.BigOperators.Group.List.Lemmas
import Mathlib.Tactic.Ring

/-!
# Balances by entry

The balance of an account is the sum of its lines, and each line belongs to an entry.  `balanceWhere`
is the part that the entries with some property brought, `balanceApart` the rest.  Posting an entry
adds its effect to the part it belongs to.

No balance is negative in a ledger that started without one: `PostWithin` accepts a transfer only if
the account debited holds the amount, and the projection it checks is exact.
-/

namespace PaymentRail.Ledger

/-- The sum of the lines that satisfy a condition. -/
def total (p : EntryLine → Bool) (lines : List EntryLine) : ℤ :=
  ((lines.filter p).map EntryLine.signed).sum

section Total

variable {p q : EntryLine → Bool}

theorem total_cons (line : EntryLine) (lines : List EntryLine) :
    total p (line :: lines) = (if p line then line.signed else 0) + total p lines := by
  cases hline : p line <;> simp [total, hline]

theorem total_append (first second : List EntryLine) :
    total p (first ++ second) = total p first + total p second := by
  simp [total]

theorem total_congr {lines : List EntryLine} (h : ∀ line ∈ lines, p line = q line) :
    total p lines = total q lines := by
  rw [total, total, List.filter_congr h]

theorem total_eq_zero {lines : List EntryLine} (h : ∀ line ∈ lines, p line = false) :
    total p lines = 0 := by
  have hnone : lines.filter p = [] := List.filter_eq_nil_iff.mpr fun line hline ↦ by
    simp [h line hline]
  rw [total, hnone]
  rfl

/-- A sum splits along any condition. -/
theorem total_split (r : EntryLine → Bool) (lines : List EntryLine) :
    total p lines = total (fun line ↦ p line && r line) lines +
      total (fun line ↦ p line && !r line) lines := by
  induction lines with
  | nil => rfl
  | cons line rest ih =>
    rw [total_cons, total_cons, total_cons, ih]
    cases p line <;> cases r line <;> simp <;> ring

end Total

/-- What an entry adds to the balance of an account. -/
def Entry.effect (entry : Entry) (accountID : UUID) : ℤ :=
  total (·.accountID = accountID) (entry.lines.map (Line.row 0))

/-- What moving an amount from one account to another adds to the balance of an account. -/
def moved (amount : Int64) (debited credited accountID : UUID) : ℤ :=
  (if accountID = credited then amount.toInt else 0) -
    (if accountID = debited then amount.toInt else 0)

theorem moved_comm (amount : Int64) (debited credited accountID : UUID) :
    moved amount credited debited accountID = -moved amount debited credited accountID := by
  simp [moved]

theorem effect_transfer (kind externalRef asset : String) (debited credited : UUID) (amount : Int64)
    (accountID : UUID) :
    (Entry.transfer kind externalRef asset debited credited amount).effect accountID =
      moved amount debited credited accountID := by
  have hnil : total (fun line ↦ decide (line.accountID = accountID)) [] = 0 := rfl
  simp only [Entry.effect, Entry.transfer, List.map_cons, List.map_nil, total_cons, Line.row,
    EntryLine.signed, moved, decide_eq_true_eq, hnil, reduceCtorEq, if_true, if_false,
    eq_comm (a := accountID)]
  split <;> ring

/-- The identifier of its entry does not change what a line adds. -/
theorem total_rows (entryID accountID : UUID) (lines : List Line) :
    total (·.accountID = accountID) (lines.map (Line.row entryID)) =
      total (·.accountID = accountID) (lines.map (Line.row 0)) := by
  induction lines with
  | nil => rfl
  | cons line rest ih =>
    rw [List.map_cons, List.map_cons, total_cons, total_cons, ih]
    rfl

end PaymentRail.Ledger

namespace PaymentRail.Db

open Ledger

/-- A line of an entry with some property. -/
def lineOf (db : Db) (p : JournalEntry → Bool) (line : EntryLine) : Bool :=
  db.journalEntries.any fun je ↦ je.id = line.entryID ∧ p je

/-- The part of a balance that entries with some property brought. -/
def balanceWhere (db : Db) (p : JournalEntry → Bool) (accountID : UUID) : ℤ :=
  total (fun line ↦ line.accountID = accountID && db.lineOf p line) db.entryLines

/-- The part of a balance that all other entries brought. -/
def balanceApart (db : Db) (p : JournalEntry → Bool) (accountID : UUID) : ℤ :=
  total (fun line ↦ line.accountID = accountID && !db.lineOf p line) db.entryLines

/-- The tables as the foreign key of the lines keeps them: every line has its entry. -/
def Linked (db : Db) : Prop := ∀ line ∈ db.entryLines, db.hasJournalID line.entryID = true

variable {db : Db} {entry : Entry} {je : JournalEntry} {p : JournalEntry → Bool}

theorem balance_eq_add (p : JournalEntry → Bool) (accountID : UUID) :
    db.balance accountID = db.balanceWhere p accountID + db.balanceApart p accountID :=
  total_split (db.lineOf p) db.entryLines

theorem balance_postEntry (entry : Entry) (je : JournalEntry) (accountID : UUID) :
    (postEntry db entry je).balance accountID = db.balance accountID + entry.effect accountID := by
  have hlines : (postEntry db entry je).balance accountID =
      total (·.accountID = accountID) (db.entryLines ++ entry.lines.map (Line.row je.id)) := rfl
  rw [hlines, total_append, total_rows]
  rfl

/-- A line that has its entry belongs to no entry with a fresh identifier. -/
theorem lineOf_postEntry_of_mem (hlinked : db.Linked) (hfresh : db.hasJournalID je.id = false)
    {line : EntryLine} (hline : line ∈ db.entryLines) :
    (postEntry db entry je).lineOf p line = db.lineOf p line := by
  have hne : je.id ≠ line.entryID := by
    intro heq
    rw [heq, hlinked line hline] at hfresh
    cases hfresh
  simp [lineOf, postEntry, hne]

/-- The lines of a posted entry belong to it alone. -/
theorem lineOf_postEntry_row (hfresh : db.hasJournalID je.id = false) (line : Line) :
    (postEntry db entry je).lineOf p (line.row je.id) = p je := by
  have hold : (db.journalEntries.any fun old ↦ old.id = je.id ∧ p old) = false := by
    rw [List.any_eq_false]
    intro old hold
    have hne : old.id ≠ je.id := by
      simpa using List.any_eq_false.mp hfresh old hold
    simp [hne]
  have hany : (postEntry db entry je).lineOf p (line.row je.id) =
      ((db.journalEntries ++ [je]).any fun old ↦ old.id = je.id ∧ p old) := rfl
  rw [hany, List.any_append, hold]
  simp

theorem balanceWhere_postEntry (hlinked : db.Linked) (hfresh : db.hasJournalID je.id = false)
    (accountID : UUID) :
    (postEntry db entry je).balanceWhere p accountID =
      db.balanceWhere p accountID + if p je then entry.effect accountID else 0 := by
  have hsum : (postEntry db entry je).balanceWhere p accountID =
      total (fun line ↦ line.accountID = accountID && (postEntry db entry je).lineOf p line)
        (db.entryLines ++ entry.lines.map (Line.row je.id)) := rfl
  rw [hsum, total_append]
  congr 1
  · exact total_congr fun line hline ↦ by rw [lineOf_postEntry_of_mem hlinked hfresh hline]
  · have hrows : ∀ row ∈ entry.lines.map (Line.row je.id),
        (postEntry db entry je).lineOf p row = p je := by
      intro row hrow
      obtain ⟨line, -, rfl⟩ := List.mem_map.mp hrow
      exact lineOf_postEntry_row hfresh line
    cases hje : p je with
    | true =>
      rw [if_pos rfl, Entry.effect, ← total_rows je.id]
      exact total_congr fun row hrow ↦ by rw [hrows row hrow, hje, Bool.and_true]
    | false =>
      rw [if_neg Bool.false_ne_true]
      exact total_eq_zero fun row hrow ↦ by rw [hrows row hrow, hje, Bool.and_false]

theorem Linked.postEntry (h : db.Linked) : (postEntry db entry je).Linked := by
  intro line hline
  rcases List.mem_append.mp hline with hold | hnew
  · have hid := h line hold
    simp only [hasJournalID, Ledger.postEntry, List.any_append] at hid ⊢
    rw [hid, Bool.true_or]
  · obtain ⟨posted, -, rfl⟩ := List.mem_map.mp hnew
    simp [hasJournalID, Ledger.postEntry, Line.row]

end PaymentRail.Db

namespace PaymentRail.Ledger

section Nonnegative

variable {db : Db} {je : JournalEntry} {kind externalRef asset : String} {debited credited : UUID}
  {amount : Int64}

/-- The projection of `ApplyToBalances` starts from the exact balances. -/
theorem get_balancesOf {ids : List UUID} {id : UUID} (hid : id ∈ ids)
    (hrange : InBigint (db.balance id)) : ((balancesOf db ids).get id).toInt = db.balance id := by
  have hlookup : Table.lookup Prod.fst (balancesOf db ids) id =
      some (id, Int64.ofInt (db.balance id)) := by
    induction ids with
    | nil => cases hid
    | cons first rest ih =>
      by_cases hfirst : first = id
      · simp [balancesOf, Table.lookup, hfirst]
      · have hrest : id ∈ rest := (List.mem_cons.mp hid).resolve_left (Ne.symm hfirst)
        simpa [balancesOf, Table.lookup, hfirst] using ih hrest
  simp only [Balances.get, hlookup, Option.map_some, Option.getD_some]
  exact Int64.toInt_ofInt_of_le hrange.1 hrange.2

/-- The account that a posted transfer debits holds the amount. -/
theorem Posting.funded (h : Posting db (.transfer kind externalRef asset debited credited amount) je)
    (hnonneg : ∀ id, 0 ≤ db.balance id) (hne : debited ≠ credited) :
    amount.toInt ≤ db.balance debited := by
  have hdebited : debited ∈ accountIDs
      (Entry.transfer kind externalRef asset debited credited amount).lines :=
    mem_accountIDs.mpr ⟨⟨debited, .debit, amount⟩, by simp [Entry.transfer], rfl⟩
  have hcredited : credited ∈ accountIDs
      (Entry.transfer kind externalRef asset debited credited amount).lines :=
    mem_accountIDs.mpr ⟨⟨credited, .credit, amount⟩, by simp [Entry.transfer], rfl⟩
  have hget := get_balancesOf hdebited (h.range debited hdebited)
  have hget' := get_balancesOf hcredited (h.range credited hcredited)
  obtain ⟨next, hnext⟩ := h.funds
  rw [← hget]
  refine (transfer_exact hne (amount_pos_of_validate h.valid) ?_ ?_ hnext).1
  · rw [hget]
    exact hnonneg debited
  · rw [hget']
    exact hnonneg credited

/-- Posting a transfer leaves no balance negative. -/
theorem Posting.nonneg (h : Posting db (.transfer kind externalRef asset debited credited amount) je)
    (hnonneg : ∀ id, 0 ≤ db.balance id) (id : UUID) :
    0 ≤ (postEntry db (.transfer kind externalRef asset debited credited amount) je).balance id := by
  have hamount := amount_pos_of_validate h.valid
  have hid := hnonneg id
  rw [Db.balance_postEntry, effect_transfer, moved]
  by_cases hne : debited = credited
  · rw [hne]
    omega
  · have hfunded := h.funded hnonneg hne
    split <;> split
    · omega
    · omega
    · next hdebited =>
      rw [hdebited]
      omega
    · omega

end Nonnegative

end PaymentRail.Ledger
