import PaymentRail.Ledger.Journal

/-!
# Exact sums and wrapped ones

`Balanced` and `ApplyToBalances` add up `int64` values, which wrap around.  Against exact integers:

* an accepted list of lines has debits and credits that agree modulo `2^64`; so the verdict is wrong
  for the well-formed lists whose sides differ by a multiple of `2^64` other than zero, and right for
  all others;
* an accepted projection leaves each account at its exact new balance modulo `2^64`, and that is
  zero or more if and only if it is no less than `-2^63`.

`Service.PostEntry` takes entries with any number of lines, so both can be missed: five debits of
one account add up to `2^64 + 1` against a credit of one.  The entries of the payment rail have two
lines of one amount, for which neither sum can wrap unnoticed.
-/

namespace PaymentRail

/-- What the accounts of an asset hold together. -/
def Db.assetTotal (db : Db) (asset : String) : ℤ :=
  ((db.accounts.filter fun account ↦ account.asset = asset).map fun account ↦
    db.balance account.id).sum

end PaymentRail

namespace PaymentRail.Ledger

open Transaction

theorem ofInt_eq_ofInt_iff {a b : ℤ} : Int64.ofInt a = Int64.ofInt b ↔ (2 ^ 64 : ℤ) ∣ a - b := by
  rw [← Int64.toInt_inj, Int64.toInt_ofInt, Int64.toInt_ofInt,
    Int.bmod_eq_bmod_iff_bmod_sub_eq_zero, ← Int.dvd_iff_bmod_eq_zero]
  rfl

/-- The exact sum of the amounts on one side of an entry. -/
def side (direction : Direction) (lines : List Line) : ℤ :=
  ((lines.filter fun line ↦ line.direction = direction).map fun line ↦ line.amount.toInt).sum

/-- What `Balanced` asks of the lines one by one. -/
def WellFormed (lines : List Line) : Prop :=
  ∀ line ∈ lines, 0 < line.amount.toInt ∧ (line.direction = .debit ∨ line.direction = .credit)

theorem side_cons (direction : Direction) (line : Line) (lines : List Line) :
    side direction (line :: lines) =
      (if line.direction = direction then line.amount.toInt else 0) + side direction lines := by
  by_cases h : line.direction = direction <;> simp [side, h]

/-- The loop of `Balanced` accepts lines whose sums agree modulo `2^64`. -/
theorem sumLines_ok_iff (lines : List Line) (debits credits : ℤ) :
    sumLines lines (Int64.ofInt debits) (Int64.ofInt credits) = .ok () ↔
      WellFormed lines ∧
        (2 ^ 64 : ℤ) ∣ debits + side .debit lines - (credits + side .credit lines) := by
  induction lines generalizing debits credits with
  | nil =>
    have hnone : WellFormed [] := fun line hline ↦ by cases hline
    have hsums : debits + side .debit [] - (credits + side .credit []) = debits - credits := by
      simp [side]
    rw [hsums, ← ofInt_eq_ofInt_iff, sumLines]
    by_cases heq : Int64.ofInt debits = Int64.ofInt credits <;> simp [heq, hnone]
  | cons line rest ih =>
    have hsigned : line.amount ≤ 0 ↔ ¬0 < line.amount.toInt := by
      rw [Int64.le_iff_toInt_le, Int64.toInt_zero, not_lt]
    rw [sumLines, WellFormed, List.forall_mem_cons]
    by_cases hpos : line.amount ≤ 0
    · rw [if_pos hpos]
      simp [hsigned.mp hpos]
    · rw [if_neg hpos]
      have hamount : 0 < line.amount.toInt := not_not.mp (mt hsigned.mpr hpos)
      have hwrap : ∀ sum : ℤ, Int64.ofInt sum + line.amount =
          Int64.ofInt (sum + line.amount.toInt) := fun sum ↦ by
        rw [Int64.ofInt_add, Int64.ofInt_toInt]
      cases hside : line.direction with
      | debit =>
        simp only [hwrap, ih, side_cons, hside, hamount, true_and, true_or, WellFormed, reduceCtorEq,
          if_true, if_false, zero_add, add_assoc]
      | credit =>
        simp only [hwrap, ih, side_cons, hside, hamount, true_and, or_true, WellFormed, reduceCtorEq,
          if_true, if_false, zero_add, add_assoc]
      | other text => simp

/-- What `Balanced` accepts. -/
theorem balanced_ok_iff (lines : List Line) :
    balanced lines = .ok () ↔ lines ≠ [] ∧ WellFormed lines ∧
      (2 ^ 64 : ℤ) ∣ side .debit lines - side .credit lines := by
  cases lines with
  | nil => simp [balanced]
  | cons line rest =>
    have hsum := sumLines_ok_iff (line :: rest) 0 0
    rw [zero_add, zero_add] at hsum
    simpa [balanced] using hsum

/-- Two integers that agree modulo `2^64` are equal exactly if they are close. -/
theorem eq_iff_of_dvd {a b : ℤ} (h : (2 ^ 64 : ℤ) ∣ a - b) : a = b ↔ |a - b| < 2 ^ 64 := by
  constructor
  · rintro rfl
    simp
  · intro hclose
    exact sub_eq_zero.mp (Int.eq_zero_of_abs_lt_dvd h hclose)

section Projection

theorem effect_cons (kind externalRef asset : String) (line : Line) (lines : List Line)
    (accountID : UUID) :
    (Entry.mk kind externalRef asset (line :: lines)).effect accountID =
      (if line.accountID = accountID then (line.row 0).signed else 0) +
        (Entry.mk kind externalRef asset lines).effect accountID := by
  rw [Entry.effect, List.map_cons, total_cons]
  simp only [decide_eq_true_eq]
  rfl

/-- The projection adds to each account what the entry adds to its balance, wrapped around. -/
theorem get_applyLines {entry : Entry} {cur next : Balances}
    (h : applyLines entry.lines cur = .ok next) (id : UUID) :
    next.get id = cur.get id + Int64.ofInt (entry.effect id) := by
  obtain ⟨kind, externalRef, asset, lines⟩ := entry
  simp only at h
  induction lines generalizing cur with
  | nil =>
    obtain rfl := Except.ok.inj h
    simp [Entry.effect, total]
  | cons line rest ih =>
    rw [effect_cons, Int64.ofInt_add, ← Int64.add_assoc]
    cases hside : line.direction with
    | other text =>
      rw [applyLines, hside] at h
      cases h
    | _ =>
      rw [applyLines, hside] at h
      rw [ih h]
      congr 1
      by_cases hid : line.accountID = id
      · subst hid
        rw [Balances.get_update_self, if_pos rfl]
        simp [EntryLine.signed, Line.row, hside, Int64.sub_eq_add_neg]
      · rw [Balances.get_update_of_ne _ _ (Ne.symm hid), if_neg hid]
        simp

variable {db : Db} {entry : Entry} {je : JournalEntry}

theorem Posting.projected (h : Posting db entry je) {id : UUID}
    (hid : id ∈ accountIDs entry.lines) :
    0 ≤ (Int64.ofInt (db.balance id + entry.effect id)).toInt := by
  obtain ⟨next, hnext⟩ := h.funds
  have hlines : applyLines entry.lines (balancesOf db (accountIDs entry.lines)) = .ok next := by
    unfold applyToBalances at hnext
    split at hnext
    · cases hnext
    · next hlines =>
      split at hnext
      · cases hnext
      · rw [hlines, Except.ok.inj hnext]
  have hget := get_applyLines hlines id
  have hcur : (balancesOf db (accountIDs entry.lines)).get id = Int64.ofInt (db.balance id) := by
    rw [← Int64.toInt_inj, get_balancesOf hid (h.range id hid)]
    exact (Int64.toInt_ofInt_of_le (h.range id hid).1 (h.range id hid).2).symm
  rw [hcur, ← Int64.ofInt_add] at hget
  rw [← hget]
  simpa using Int64.le_iff_toInt_le.mp (nonneg_of_applyToBalances hnext id)

/-- A sum that is no further than `2^63` from a balance in range and wraps to zero or more is
itself in range. -/
theorem inRange_of_wrapped {balance change : ℤ} (hbalance : 0 ≤ balance ∧ balance < 2 ^ 63)
    (hchange : -2 ^ 63 ≤ change ∧ change ≤ 2 ^ 63)
    (hwrapped : 0 ≤ (Int64.ofInt (balance + change)).toInt) :
    0 ≤ balance + change ∧ balance + change < 2 ^ 63 := by
  have hsize : (Int64.size : ℤ) = 2 ^ 64 := rfl
  rw [Int64.toInt_ofInt, Int.bmod_def, hsize] at hwrapped
  split at hwrapped <;> omega

/-- A posted entry leaves an account at zero or more exactly if it does not leave it below the
range of an `int64`. -/
theorem Posting.nonneg_iff (h : Posting db entry je) {id : UUID}
    (hid : id ∈ accountIDs entry.lines) :
    0 ≤ (postEntry db entry je).balance id ↔ -2 ^ 63 ≤ db.balance id + entry.effect id := by
  have hwrapped := h.projected hid
  rw [Db.balance_postEntry]
  rw [Int64.toInt_ofInt, Int.bmod_def] at hwrapped
  have hsize : (Int64.size : ℤ) = 2 ^ 64 := rfl
  constructor
  · intro hnonneg
    omega
  · intro hrange
    by_contra hneg
    have hlarge : (db.balance id + entry.effect id) % (2 ^ 64 : ℤ) =
        db.balance id + entry.effect id + 2 ^ 64 := by omega
    rw [hsize] at hwrapped
    omega

end Projection

section Totals

variable {db : Db} {entry : Entry} {je : JournalEntry}

theorem Posting.balanced (h : Posting db entry je) : balanced entry.lines = .ok () := by
  have hok := h.valid
  unfold Entry.validate at hok
  split at hok
  · cases hok
  · exact hok

/-- The lines of an entry add up to its credits less its debits. -/
theorem sum_signed {lines : List Line} (h : WellFormed lines) :
    (lines.map fun line ↦ (line.row 0).signed).sum = side .credit lines - side .debit lines := by
  induction lines with
  | nil => simp [side]
  | cons line rest ih =>
    obtain ⟨⟨-, hside⟩, hrest⟩ := List.forall_mem_cons.mp h
    rw [List.map_cons, List.sum_cons, ih hrest, side_cons, side_cons]
    rcases hside with hside | hside <;> simp [EntryLine.signed, Line.row, hside] <;> ring

/-- An entry adds to the total of its own asset what its lines add up to, and nothing to others: all
its accounts hold its asset. -/
theorem assetTotal_postEntry (h : Posting db entry je) (hnodup : (db.accounts.map Account.id).Nodup)
    (asset : String) :
    (postEntry db entry je).assetTotal asset = db.assetTotal asset +
      if asset = entry.asset then side .credit entry.lines - side .debit entry.lines else 0 := by
  have hvalid : WellFormed entry.lines := ((balanced_ok_iff _).mp h.balanced).2.1
  have hjoin := Table.sum_join (fun (account : Account) (line : Line) ↦ line.accountID = account.id)
    entry.lines (db.accounts.filter fun account ↦ account.asset = asset)
    fun line ↦ (line.row 0).signed
  have hsplit : (postEntry db entry je).assetTotal asset = db.assetTotal asset +
      ((db.accounts.filter fun account ↦ account.asset = asset).map fun account ↦
        entry.effect account.id).sum := by
    simp only [Db.assetTotal, Db.balance_postEntry]
    exact List.sum_map_add
  have heffect : ∀ id, entry.effect id = ((entry.lines.filter fun line ↦
      line.accountID = id).map fun line ↦ (line.row 0).signed).sum := by
    intro id
    rw [Entry.effect, total, List.filter_map, List.map_map]
    rfl
  rw [hsplit]
  simp only [heffect]
  rw [← hjoin, ← sum_signed hvalid]
  congr 1
  -- each line meets its one account, if that has the asset
  have hline : ∀ line ∈ entry.lines, ((db.accounts.filter fun account ↦
      account.asset = asset).filter fun account ↦ line.accountID = account.id).map
        (fun _ ↦ (line.row 0).signed) =
      if asset = entry.asset then [(line.row 0).signed] else [] := by
    intro line hline
    obtain ⟨account, haccount, hid, hasset⟩ := h.exists_account hline
    have hone : (db.accounts.filter fun a ↦ line.accountID = a.id) = [account] := by
      rw [← Table.filter_key hnodup haccount, hid]
      exact List.filter_congr fun a _ ↦ by simp [eq_comm]
    rw [List.filter_comm, hone]
    by_cases heq : asset = entry.asset
    · simp [heq, hasset]
    · simp [heq, hasset, Ne.symm heq]
  rw [List.flatMap_congr hline]
  by_cases heq : asset = entry.asset
  · simp only [if_pos heq, ← List.map_eq_flatMap]
  · have hnil : entry.lines.flatMap (fun _ ↦ ([] : List ℤ)) = [] :=
      List.flatMap_eq_nil_iff.mpr fun _ _ ↦ rfl
    simp only [if_neg heq, hnil, List.sum_nil]

theorem assetTotals_postEntry_iff (h : Posting db entry je)
    (hnodup : (db.accounts.map Account.id).Nodup) :
    (∀ asset, (postEntry db entry je).assetTotal asset = db.assetTotal asset) ↔
      side .debit entry.lines = side .credit entry.lines := by
  simp only [assetTotal_postEntry h hnodup]
  constructor
  · intro hsame
    have hown := hsame entry.asset
    rw [if_pos rfl] at hown
    omega
  · intro hsides asset
    rw [hsides, sub_self, ite_self, add_zero]

end Totals

/-! ### `Service.PostEntry` -/

namespace Service

/-- `PostEntry`: the entry is checked before the transaction is opened, and again within. -/
def postEntry (entry : Entry) : DbTx JournalEntry := do
  Tx.ofExcept entry.validate
  postWithin entry

/-- The tables with open `PostEntry` calls over them. -/
abbrev LedgerState := State Reply Db Write Lock Entry Err JournalEntry

/-- What a call that returns an entry has done. -/
def Post (entry : Entry) : Except Err JournalEntry → List Write → List Lock → Db → Prop :=
  OnSuccess fun je writes locks db ↦
    writes = entry.writes je ∧ Guarded writes locks ∧ Posting db entry je

theorem discipline : Discipline queries unrestricted Rely postEntry Post where
  refl := Rely.refl
  trans _ _ _ _ := Rely.trans
  stable entry result writes locks db db' hpost hrely := by
    cases result with
    | error => trivial
    | ok je =>
      obtain ⟨rfl, hguarded, hposting⟩ := hpost
      exact ⟨rfl, hguarded, hposting.stable hguarded hrely⟩
  verified entry db := by
    rw [postEntry, Post, wp_success_bind, wp_success_ofExcept]
    intro _ _
    exact wp_postWithin fun je locks after _ hposting hguarded ↦ ⟨rfl, hguarded, hposting⟩
  guarantee entry je writes locks db others hpost hothers :=
    Rely.view fun write hwrite lock hlock ↦ hothers lock (hpost.2.1 write hwrite lock hlock)

/-- A commit posts the entry of its call on the tables as they are at that moment. -/
theorem posting_of_commit {start : Db} {s s' : LedgerState} {tid : ℕ}
    (h : Reaches queries postEntry unrestricted start s)
    (hstep : step queries postEntry s (.commit tid : Action Entry Ambient) = some s') :
    ∃ session je, s.session tid = some session ∧ Posting s.db session.call je ∧
      s'.db = Ledger.postEntry s.db session.call je := by
  obtain ⟨entry, je, writes, locks, hopen, rfl⟩ := step_commit hstep
  have hpost : Post entry (.ok je) writes locks s.db := (discipline.covered h tid _ hopen).1
  obtain ⟨rfl, -, hposting⟩ := hpost
  exact ⟨_, je, hopen, hposting, view_entry_writes s.db entry je⟩

end Service

/-- The verdict of `Balanced` is that of exact sums unless a well-formed list has sides that differ by a
multiple of `2^64`. -/
theorem balanced_exact_iff (lines : List Line) :
    (balanced lines = .ok () ↔
        lines ≠ [] ∧ WellFormed lines ∧ side .debit lines = side .credit lines) ↔
      lines = [] ∨ ¬WellFormed lines ∨ side .debit lines = side .credit lines ∨
        ¬(2 ^ 64 : ℤ) ∣ side .debit lines - side .credit lines := by
  have hequal : side .debit lines = side .credit lines →
      (2 ^ 64 : ℤ) ∣ side .debit lines - side .credit lines := by
    intro hsides
    rw [hsides, sub_self]
    exact dvd_zero _
  rw [balanced_ok_iff]
  tauto

/-- The verdict of `Balanced` is that of exact sums for every list that is empty or ill formed, or whose
sides are equal or differ by no multiple of `2^64`, and for no other.  A committed entry keeps the totals
exactly if its sides are less than `2^64` apart, and its accounts at zero or more exactly if none falls
below `-2^63`. -/
theorem posting_exact_iff (lines : List Line) (start : Db) (s s' : Service.LedgerState) (tid : ℕ) :
    ((balanced lines = .ok () ↔
        lines ≠ [] ∧ WellFormed lines ∧ side .debit lines = side .credit lines) ↔
      lines = [] ∨ ¬WellFormed lines ∨ side .debit lines = side .credit lines ∨
        ¬(2 ^ 64 : ℤ) ∣ side .debit lines - side .credit lines) ∧
    (Reaches queries Service.postEntry unrestricted start s →
      step queries Service.postEntry s (.commit tid : Action Entry Ambient) = some s' →
      (s.db.accounts.map Account.id).Nodup →
      ∃ session, s.session tid = some session ∧
        ((∀ id ∈ accountIDs session.call.lines, 0 ≤ s'.db.balance id) ↔
          ∀ id ∈ accountIDs session.call.lines,
            -2 ^ 63 ≤ s.db.balance id + session.call.effect id) ∧
        ((∀ asset, s'.db.assetTotal asset = s.db.assetTotal asset) ↔
          |side .debit session.call.lines - side .credit session.call.lines| < 2 ^ 64)) := by
  refine ⟨balanced_exact_iff lines, fun hreach hstep hnodup ↦ ?_⟩
  obtain ⟨session, je, hopen, hposting, hdb⟩ := Service.posting_of_commit hreach hstep
  have hdvd := ((balanced_ok_iff _).mp hposting.balanced).2.2
  rw [hdb, assetTotals_postEntry_iff hposting hnodup, eq_iff_of_dvd hdvd]
  exact ⟨session, hopen, forall₂_congr fun id hid ↦ hposting.nonneg_iff hid, Iff.rfl⟩

/-- Two accounts, the first with a balance of 5. -/
def twoAccounts : Db where
  accounts := [⟨1, "alice", "customer", "USDC", "active"⟩, ⟨2, "bob", "customer", "USDC", "active"⟩]
  journalEntries := [⟨6, "opening", "alice", "USDC"⟩]
  entryLines := [⟨6, 1, .credit, 5⟩]
  payments := []
  settlements := []
  outbox := []
  auditLog := []

/-- Debits of the first account against one credit of the second. -/
def sampleEntry (debits : List Int64) (credit : Int64) : Entry where
  kind := "adjustment"
  externalRef := "adj-1"
  asset := "USDC"
  lines := debits.map (⟨1, .debit, ·⟩) ++ [⟨2, .credit, credit⟩]

/-- A `PostEntry` call up to its commit, with no one else around. -/
def postRun (entry : Entry) : List (Action Entry Ambient) :=
  .start 0 entry :: List.replicate (entry.lines.length + 4) (.exec 0 ⟨7, 0⟩)

/-- Debits of `2^64 + 1` are posted against a credit of 1: the account that held 5 ends far below
zero, and the total of the asset with it. -/
theorem wrapped_debits_are_posted :
    balanced (sampleEntry [2 ^ 62, 2 ^ 62, 2 ^ 62, 2 ^ 62, 1] 1).lines = .ok () ∧
    side .debit (sampleEntry [2 ^ 62, 2 ^ 62, 2 ^ 62, 2 ^ 62, 1] 1).lines = 2 ^ 64 + 1 ∧
    side .credit (sampleEntry [2 ^ 62, 2 ^ 62, 2 ^ 62, 2 ^ 62, 1] 1).lines = 1 ∧
    (schedule queries Service.postEntry (State.idle twoAccounts)
        (postRun (sampleEntry [2 ^ 62, 2 ^ 62, 2 ^ 62, 2 ^ 62, 1] 1) ++ [.commit 0])).map
      (fun s ↦ (s.db.balance 1, s.db.assetTotal "USDC")) = some (4 - 2 ^ 64, 5 - 2 ^ 64) := by
  decide +kernel

/-- A debit of 3 against a credit of 3. -/
theorem posting_exact_iff_sample : ∃ s s' : Service.LedgerState,
    step queries Service.postEntry s (.commit 0 : Action Entry Ambient) = some s' ∧
    s'.db.balance 1 = 2 ∧ ∀ asset, s'.db.assetTotal asset = s.db.assetTotal asset := by
  have hrun : ((schedule queries Service.postEntry (State.idle twoAccounts)
      (postRun (sampleEntry [3] 3))).bind fun s ↦
        (step queries Service.postEntry s (.commit 0 : Action Entry Ambient)).map fun s' ↦
          (s.db.accounts.map Account.id, (s.session 0).map fun session ↦ session.call.lines,
            s'.db.balance 1)) =
      some ([1, 2], some [⟨1, .debit, 3⟩, ⟨2, .credit, 3⟩], 2) := by decide +kernel
  obtain ⟨s, hs, hcommit⟩ := Option.bind_eq_some_iff.mp hrun
  obtain ⟨s', hs', hvalues⟩ := Option.map_eq_some_iff.mp hcommit
  obtain ⟨haccounts, hvalues⟩ := Prod.mk.inj hvalues
  obtain ⟨hlines, hbalance⟩ := Prod.mk.inj hvalues
  have hreach := reaches_of_schedule Reaches.idle hs (permittedRun_unrestricted _ _)
  obtain ⟨session, hopen, -, htotals⟩ := (posting_exact_iff [] twoAccounts s s' 0).2 hreach hs'
    (by rw [haccounts]; decide)
  rw [hopen, Option.map_some, Option.some.injEq] at hlines
  exact ⟨s, s', hs', hbalance, htotals.mpr (by rw [hlines]; decide)⟩

end PaymentRail.Ledger
