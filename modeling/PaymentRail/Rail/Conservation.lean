import PaymentRail.Ledger.Exact
import PaymentRail.Rail.Books

/-!
# Conservation

Every entry that the rail posts moves one amount between two accounts of one asset.  On balances in
`[0, 2^63)` its projection cannot wrap around unnoticed, so over all interleavings of the calls every
balance stays in that range, the total of each asset stays what it was, and no line is posted to an
account of another asset than its entry's.  Only the COMMIT of a call that returned no error changes
the tables.
-/

namespace PaymentRail.Ledger

section Transfer

variable {db : Db} {je : JournalEntry} {kind externalRef asset : String} {debited credited : UUID}
  {amount : Int64}

theorem side_transfer (direction : Direction) :
    side direction (Entry.transfer kind externalRef asset debited credited amount).lines =
      if direction = .debit ∨ direction = .credit then amount.toInt else 0 := by
  cases direction <;> simp [side, Entry.transfer]

/-- Posting a transfer keeps every balance in the range of the projection. -/
theorem Posting.inRange
    (h : Posting db (.transfer kind externalRef asset debited credited amount) je)
    (hrange : ∀ id, 0 ≤ db.balance id ∧ db.balance id < 2 ^ 63) (id : UUID) :
    0 ≤ (postEntry db (.transfer kind externalRef asset debited credited amount) je).balance id ∧
      (postEntry db (.transfer kind externalRef asset debited credited amount) je).balance id <
        2 ^ 63 := by
  rw [Db.balance_postEntry]
  by_cases hid : id ∈ accountIDs (Entry.transfer kind externalRef asset debited credited amount).lines
  · have hamount := amount.toInt_lt
    have hamount' := amount_pos_of_validate h.valid
    refine inRange_of_wrapped (hrange id) ?_ (h.projected hid)
    rw [effect_transfer, moved]
    split <;> split <;> omega
  · have heffect : (Entry.transfer kind externalRef asset debited credited amount).effect id = 0 := by
      have hne : ∀ line ∈ (Entry.transfer kind externalRef asset debited credited amount).lines,
          line.accountID ≠ id := fun line hline heq ↦ hid (mem_accountIDs.mpr ⟨line, hline, heq⟩)
      refine total_eq_zero fun row hrow ↦ ?_
      obtain ⟨line, hline, rfl⟩ := List.mem_map.mp hrow
      exact decide_eq_false (hne line hline)
    rw [heffect, add_zero]
    exact hrange id

end Transfer

end PaymentRail.Ledger

namespace PaymentRail.Rail

open Transaction Ledger Chain Sink Payments

/-- The lines posted since `start` belong to one entry each, and it has the asset of their
account. -/
def WithinAsset (start db : Db) : Prop :=
  ∃ added, db.entryLines = start.entryLines ++ added ∧ ∀ line ∈ added,
    ∃ je ∈ db.journalEntries, je.id = line.entryID ∧
      (∀ other ∈ db.journalEntries, other.id = line.entryID → other = je) ∧
      ∃ account ∈ db.accounts, account.id = line.accountID ∧ account.asset = je.asset

/-- A ledger that has only moved money since `start`. -/
structure Conserved (start db : Db) : Prop where
  accounts : db.accounts = start.accounts
  range : ∀ id, 0 ≤ db.balance id ∧ db.balance id < 2 ^ 63
  totals : ∀ asset, db.assetTotal asset = start.assetTotal asset
  assets : WithinAsset start db

theorem Role.exists_transfer (role : Role) (pid : UUID) (pay : Payment) (house : Account)
    (blockHash : String) : ∃ kind externalRef asset debited credited amount,
      role.entry pid pay house blockHash =
        .transfer kind externalRef asset debited credited amount := by
  cases role <;> exact ⟨_, _, _, _, _, _, rfl⟩

section Steps

variable {start db db' : Db} {call : Call} {role : Role} {pid : UUID} {pay : Payment}
  {house : Account} {blockHash : String} {je : JournalEntry}

theorem Unposted.conserved (h : Unposted db db') (hdb : Conserved start db) :
    Conserved start db' := by
  rw [h.eq]
  exact ⟨hdb.accounts, hdb.range, hdb.totals, hdb.assets⟩

/-- The lines of a new entry are on accounts of its asset, and its identifier is new. -/
theorem WithinAsset.postEntry {entry : Entry} (h : WithinAsset start db)
    (hposting : Posting db entry je) : WithinAsset start (postEntry db entry je) := by
  obtain ⟨added, hlines, hadded⟩ := h
  refine ⟨added ++ entry.lines.map (Line.row je.id), ?_, fun line hline ↦ ?_⟩
  · rw [Ledger.postEntry, hlines, List.append_assoc]
  · have hnew : ∀ old ∈ db.journalEntries, old.id ≠ je.id := fun old hold ↦ by
      simpa using List.any_eq_false.mp hposting.freshID old hold
    rcases List.mem_append.mp hline with hold | hrow
    · obtain ⟨own, hown, hid, hunique, haccount⟩ := hadded line hold
      refine ⟨own, List.mem_append_left _ hown, hid, fun other hother heq ↦ ?_, haccount⟩
      rcases List.mem_append.mp hother with hother | hother
      · exact hunique other hother heq
      · obtain rfl := List.mem_singleton.mp hother
        exact absurd (hid.trans heq.symm) (hnew own hown)
    · obtain ⟨posted, hposted, rfl⟩ := List.mem_map.mp hrow
      obtain ⟨account, haccount, hid, hasset⟩ := hposting.exists_account hposted
      refine ⟨je, List.mem_append_right _ (List.mem_singleton_self je), rfl,
        fun other hother heq ↦ ?_, account, haccount, hid, ?_⟩
      · rcases List.mem_append.mp hother with hother | hother
        · exact absurd heq (hnew other hother)
        · exact List.mem_singleton.mp hother
      · rw [hasset, hposting.row]

/-- One posting moves money between two accounts of its asset. -/
theorem Posted.conserved (h : Posted call db db' role pid pay house blockHash je)
    (hnodup : (start.accounts.map Account.id).Nodup) (hdb : Conserved start db) :
    Conserved start db' := by
  have hposting := h.posting
  have hsame : ∀ id, db'.balance id =
      (postEntry db (role.entry pid pay house blockHash) je).balance id := fun id ↦ by
    rw [Db.balance, Db.linesOf, h.lines]
    rfl
  have hassets := hdb.assets.postEntry hposting
  obtain ⟨kind, externalRef, asset, debited, credited, amount, hentry⟩ :=
    role.exists_transfer pid pay house blockHash
  have hsides : side .debit (role.entry pid pay house blockHash).lines =
      side .credit (role.entry pid pay house blockHash).lines := by
    rw [hentry, side_transfer, side_transfer]
    rfl
  have htotals := (assetTotals_postEntry_iff hposting (by rwa [hdb.accounts])).mpr hsides
  rw [hentry] at hposting
  exact {
    accounts := h.accounts.trans hdb.accounts
    range := fun id ↦ by
      rw [hsame, hentry]
      exact hposting.inRange hdb.range id
    totals := fun asset ↦ by
      rw [← hdb.totals, ← htotals]
      simp only [Db.assetTotal, hsame, h.accounts]
      rfl
    assets := by
      rw [WithinAsset, h.lines, h.journal, h.accounts]
      exact hassets }

end Steps

section Runs

variable {rt : Audit.Runtime} {start db : Db} {history : List (Commit Write Call Result)}

theorem conserved_serial {allowed : Stmt → Ambient → Db → Prop}
    (hnodup : (start.accounts.map Account.id).Nodup)
    (hrange : ∀ id, 0 ≤ start.balance id ∧ start.balance id < 2 ^ 63)
    (h : Serial queries (fun call _ writes db ↦ Committed rt allowed db call writes) start
      history db) : Conserved start db := by
  induction h with
  | nil => exact ⟨rfl, hrange, fun _ ↦ rfl, [], by simp, by simp⟩
  | cons commit _ hcommit ih =>
    rcases hcommit.posted with hunposted | ⟨role, pid, pay, house, blockHash, je, hposted⟩
    · exact hunposted.conserved ih
    · exact hposted.conserved hnodup ih

/-- Only a COMMIT of a call that returned no error changes the tables. -/
theorem db_step_cases {s s' : RailState} {action : Action Call Ambient}
    (h : step queries (body rt) s action = some s') :
    s'.db = s.db ∨ ∃ tid session result, action = .commit tid ∧ s.session tid = some session ∧
      session.rest = .done (.ok result) := by
  cases action with
  | start tid call => exact .inl (by rw [step_start h])
  | exec tid ambient =>
    obtain ⟨_, _, _, _, _, -, -, rfl⟩ := step_exec h
    exact .inl rfl
  | commit tid =>
    obtain ⟨_, result, _, _, hopen, -⟩ := step_commit h
    exact .inr ⟨tid, _, result, rfl, hopen, rfl⟩
  | abort tid => exact .inl (by rw [step_abort h]; rfl)

end Runs

/-- Over every interleaving of the calls, from any balances in range, balances stay in range, the
total of every asset stays, entries stay within their asset, and nothing but the COMMIT of a call
that returned no error changes a table. -/
theorem ledger_conserved (rt : Audit.Runtime) {start : Db}
    (hnodup : (start.accounts.map Account.id).Nodup)
    (hrange : ∀ id, 0 ≤ start.balance id ∧ start.balance id < 2 ^ 63) {s : RailState}
    (h : Reaches queries (body rt) unrestricted start s) :
    (∀ id, 0 ≤ s.db.balance id ∧ s.db.balance id < 2 ^ 63) ∧
    (∀ asset, s.db.assetTotal asset = start.assetTotal asset) ∧
    WithinAsset start s.db ∧
    ∀ action s', step queries (body rt) s action = some s' →
      s'.db = s.db ∨ ∃ tid session result, action = .commit tid ∧ s.session tid = some session ∧
        session.rest = .done (.ok result) := by
  have hconserved := conserved_serial hnodup hrange (serial h)
  exact ⟨hconserved.range, hconserved.totals, hconserved.assets, fun _ _ ↦ db_step_cases⟩

/-- Balances are in range if those of the two accounts with lines are. -/
theorem inRange_of_lines {db : Db}
    (hlines : ∀ line ∈ db.entryLines, line.accountID = 1 ∨ line.accountID = 2)
    (hfirst : 0 ≤ db.balance 1 ∧ db.balance 1 < 2 ^ 63)
    (hsecond : 0 ≤ db.balance 2 ∧ db.balance 2 < 2 ^ 63) (id : UUID) :
    0 ≤ db.balance id ∧ db.balance id < 2 ^ 63 := by
  by_cases hid : id = 1
  · exact hid ▸ hfirst
  by_cases hid' : id = 2
  · exact hid' ▸ hsecond
  have hzero : db.balance id = 0 := by
    apply total_eq_zero
    intro line hline
    apply decide_eq_false
    intro heq
    rcases hlines line hline with h | h
    · exact hid (heq.symm.trans h)
    · exact hid' (heq.symm.trans h)
  simp [hzero]

/-- A settlement on the sample tables moves 100 from the merchant to the house. -/
theorem ledger_conserved_settled : ∃ s,
    sampleRun (serve (.onStatus ⟨"0xaa", .confirmed, "0xb1", 7, 12⟩) 100 17) = some s ∧
    s.db.balance 2 = 100 ∧ s.db.balance 3 = 100 ∧
    (∀ id, 0 ≤ s.db.balance id ∧ s.db.balance id < 2 ^ 63) ∧
    (∀ asset, s.db.assetTotal asset = sampleDb.assetTotal asset) ∧ WithinAsset sampleDb s.db := by
  have hrun : (sampleRun (serve (.onStatus ⟨"0xaa", .confirmed, "0xb1", 7, 12⟩) 100 17)).map
      (fun s ↦ (s.db.balance 2, s.db.balance 3)) = some (100, 100) := by
    decide +kernel
  obtain ⟨s, hs, hbalances⟩ := Option.map_eq_some_iff.mp hrun
  obtain ⟨hmerchant, hhouse⟩ := Prod.mk.inj hbalances
  have hreaches := reaches_of_schedule .idle hs (permittedRun_unrestricted _ _)
  obtain ⟨hrange', htotals, hassets, -⟩ := ledger_conserved sampleRuntime (by decide)
    (inRange_of_lines (by decide) (by decide) (by decide)) hreaches
  exact ⟨s, hs, hmerchant, hhouse, hrange', htotals, hassets⟩

end PaymentRail.Rail
