import PaymentRail.Rail.Cancellation
import Mathlib.Data.Finset.Card
import Mathlib.Tactic.Linarith

/-!
# Several transactions for one payment

A payment may be linked to any number of transactions, and each of them settles on its own.  What
keeps them apart is the reference of the settle entry, which is made from the payment and the block:
two transactions of one payment cannot both be settled in the same block.

So the settled rows of a payment carry different block hashes, and what settlement moved from the
destination to the house on balance is at most the amount for every block that some transaction of
the payment was confirmed in (`settled_once_per_block`).  It can be more than the amount
(`settled_twice`).
-/

namespace PaymentRail.Rail

open Transaction Ledger Chain Sink Payments

/-- The blocks in which a committed delivery confirmed a transaction of a payment. -/
def confirmedBlocks (db : Db) (history : List (Commit Write Call Result)) (pid : UUID) :
    List String :=
  history.filterMap fun commit ↦
    match commit.call with
    | .onStatus st =>
      if st.phase = .confirmed ∧ (db.settlement st.txHash).any (·.paymentID = pid) then
        some st.blockHash
      else none
    | _ => none

/-- The roles in which settlement posts. -/
def settlementRoles (role : Role) : Bool := role = .settle || role = .reverse

/-- What settlement took from an account on balance for a payment. -/
def takenBySettlement (db : Db) (pid accountID : UUID) : ℤ :=
  -db.balanceWhere (ownEntry pid settlementRoles) accountID

section Steps

variable {rt : Audit.Runtime} {allowed : Stmt → Ambient → Db → Prop} {db : Db} {call : Call}
  {writes : List Write} {tx : TxHash} {row : Settlement}

/-- Entries are only ever added. -/
theorem Committed.journal_grows (h : Committed rt allowed db call writes) :
    ∃ added, (queries.view db writes).journalEntries = db.journalEntries ++ added := by
  rcases h.posted with hunposted | ⟨role, pid, pay, house, blockHash, je, hposted⟩
  · exact ⟨[], by rw [hunposted.journal, List.append_nil]⟩
  · exact ⟨[je], hposted.journal⟩

theorem Committed.posted_mono (h : Committed rt allowed db call writes) {kind externalRef : String}
    (hposted : db.posted kind externalRef = true) :
    (queries.view db writes).posted kind externalRef = true := by
  obtain ⟨added, hadded⟩ := h.journal_grows
  rw [Db.posted] at hposted ⊢
  rw [hadded, List.any_append, hposted, Bool.true_or]

theorem settlement_updateSettlement_of_none {tx' : TxHash} {f : Settlement → Settlement}
    (hf : ∀ row : Settlement, (f row).txHash = row.txHash) (hnone : db.settlement tx = none) :
    (db.updateSettlement tx' f).settlement tx = none := by
  have hlookup : (db.updateSettlement tx' f).settlement tx =
      (db.settlement tx).map fun row ↦ if tx = tx' then f row else row := Table.lookup_modify hf
  rw [hlookup, hnone, Option.map_none]

/-- Only a link adds a row. -/
theorem settlement_apply_of_none {flip : Write} (hflip : ∀ added, flip ≠ .insertSettlement added)
    (hnone : db.settlement tx = none) : (db.apply flip).settlement tx = none := by
  cases flip with
  | insertSettlement added => exact absurd rfl (hflip added)
  | markSettled | markReorged | markFinalized =>
    exact settlement_updateSettlement_of_none (fun _ ↦ rfl) hnone
  | _ => exact hnone

theorem settlement_view_posting_of_none {entry : Entry} {je : JournalEntry} {flip : Write}
    {sent : OutboxRow} {logged : AuditRow} (hflip : ∀ added, flip ≠ .insertSettlement added)
    (hnone : db.settlement tx = none) :
    (queries.view db (entry.writes je ++ transition flip sent logged)).settlement tx = none := by
  rw [Engine.view_append, view_entry_writes, settlement_view_transition]
  exact settlement_apply_of_none hflip hnone

/-- A row that appears is pending. -/
theorem Committed.pending_of_none (h : Committed rt allowed db call writes)
    (hnone : db.settlement tx = none) (hrow : (queries.view db writes).settlement tx = some row) :
    row.status = .pending := by
  cases h with
  | linked paymentID tx' added fresh payment pending =>
    have hlookup : (queries.view db [.insertSettlement added]).settlement tx =
        (db.settlement tx).or (if added.txHash = tx then some added else none) :=
      Table.lookup_append added
    rw [hlookup, hnone, Option.none_or] at hrow
    split at hrow
    · rw [← Option.some.inj hrow, pending]
    · cases hrow
  | settled | reversed | created | canceled =>
    rw [settlement_view_posting_of_none (fun _ ↦ by simp [markSettled]) hnone] at hrow
    cases hrow
  | finalized =>
    rw [settlement_view_transition, settlement_apply_of_none (fun _ ↦ by simp) hnone] at hrow
    cases hrow
  | nothing => cases hnone.symm.trans hrow
  | settledUnmarked | reversedUnmarked =>
    rw [view_entry_writes] at hrow
    cases hnone.symm.trans hrow

theorem posted_postEntry {entry : Entry} {je : JournalEntry} (h : Posting db entry je) :
    (postEntry db entry je).posted entry.kind entry.externalRef = true := by
  simp [Db.posted, postEntry, h.kind, h.externalRef]

/-- A settled row was settled in the same block before a commit, or the commit settled it, under a
reference that was free. -/
theorem Committed.cleared_cases (h : Committed rt allowed db call writes)
    (hrow : (queries.view db writes).settlement tx = some row) (hcleared : net row.status = 1) :
    (∃ old, db.settlement tx = some old ∧ net old.status = 1 ∧ old.paymentID = row.paymentID ∧
      old.settledBlockHash = row.settledBlockHash) ∨
    ∃ blockHash, call.delivers tx = true ∧ row.settledBlockHash = some blockHash ∧
      db.posted "settlement.settle" (settleRef row.paymentID blockHash) = false ∧
      (queries.view db writes).posted "settlement.settle"
        (settleRef row.paymentID blockHash) = true := by
  rcases hold : db.settlement tx with _ | old
  · have hpending := h.pending_of_none hold hrow
    rw [hpending] at hcleared
    cases hcleared
  cases hcall : call.delivers tx with
  | false =>
    obtain rfl := Option.some.inj ((h.settlement_of_not_delivers hcall hold).symm.trans hrow)
    exact .inl ⟨old, rfl, hcleared, rfl, rfl⟩
  | true =>
    obtain ⟨st, rfl, rfl⟩ := Call.eq_onStatus hcall
    cases h with
    | nothing =>
      obtain rfl := Option.some.inj (hold.symm.trans hrow)
      exact .inl ⟨old, rfl, hcleared, rfl, rfl⟩
    | settled _ found pay house je sent logged phase resolved settleable posting announced =>
      obtain rfl := Option.some.inj (hold.symm.trans resolved.linked)
      obtain rfl := Option.some.inj ((settlement_after_settled hold).symm.trans hrow)
      refine .inr ⟨st.blockHash, rfl, rfl, posting.fresh, ?_⟩
      rw [Engine.view_append, view_entry_writes]
      exact posted_postEntry posting
    | reversed _ found pay house je sent logged phase resolved isSettled posting announced =>
      obtain rfl := Option.some.inj ((settlement_after_reversed hold).symm.trans hrow)
      cases hcleared
    | finalized _ found sent logged phase hfound isSettled announced =>
      obtain rfl := Option.some.inj (hold.symm.trans hfound)
      obtain rfl := Option.some.inj ((settlement_after_finalized hold).symm.trans hrow)
      exact .inl ⟨old, rfl, by rw [isSettled]; rfl, rfl, rfl⟩
    | settledUnmarked | reversedUnmarked =>
      rw [view_entry_writes] at hrow
      obtain rfl := Option.some.inj (hold.symm.trans hrow)
      exact .inl ⟨old, rfl, hcleared, rfl, rfl⟩

end Steps

/-- The settle entries of a payment. -/
def settleEntries (db : Db) (pid : UUID) : List JournalEntry :=
  db.journalEntries.filter (Role.settle.names pid)

theorem Posted.settleEntries_eq {call : Call} {db db' : Db} {role : Role} {pid : UUID}
    {pay : Payment} {house : Account} {blockHash : String} {je : JournalEntry}
    (h : Posted call db db' role pid pay house blockHash je) (pid' : UUID) :
    settleEntries db' pid' =
      settleEntries db pid' ++ if .settle = role ∧ pid' = pid then [je] else [] := by
  rw [settleEntries, h.journal, postEntry, List.filter_append, List.filter_singleton, h.names_je]
  simp [settleEntries]

/-- What the history and the references say about the settlements of the payments. -/
structure Attempts (db : Db) (history : List (Commit Write Call Result)) : Prop where
  posted : ∀ tx row, db.settlement tx = some row → net row.status = 1 →
    ∃ blockHash, row.settledBlockHash = some blockHash ∧
      db.posted "settlement.settle" (settleRef row.paymentID blockHash) = true
  distinct : ∀ tx tx' row row', db.settlement tx = some row → db.settlement tx' = some row' →
    tx ≠ tx' → row.paymentID = row'.paymentID → net row.status = 1 → net row'.status = 1 →
      row.settledBlockHash ≠ row'.settledBlockHash
  references : ∀ pid, ((settleEntries db pid).map JournalEntry.externalRef).Nodup
  delivered : ∀ pid, ∀ je ∈ settleEntries db pid,
    ∃ blockHash ∈ confirmedBlocks db history pid, je.externalRef = settleRef pid blockHash

section Invariant

variable {rt : Audit.Runtime} {allowed : Stmt → Ambient → Db → Prop} {start db : Db}
  {history : List (Commit Write Call Result)} {commit : Commit Write Call Result}

/-- A row keeps its payment, whatever is committed. -/
theorem settlement_view_evolves (writes : List Write) {tx : TxHash} {row : Settlement}
    (hrow : db.settlement tx = some row) :
    ∃ later, (queries.view db writes).settlement tx = some later ∧ row.Evolves later := by
  have hrely : Rely [] db (queries.view db writes) := Rely.view (by simp)
  exact hrely.settlement tx row hrow

/-- The blocks of a payment are only ever added to. -/
theorem confirmedBlocks_mono {pid : UUID} {blockHash : String}
    (h : blockHash ∈ confirmedBlocks db history pid) :
    blockHash ∈ confirmedBlocks (queries.view db commit.writes) (commit :: history) pid := by
  obtain ⟨old, hold, hblock⟩ := List.mem_filterMap.mp h
  refine List.mem_filterMap.mpr ⟨old, List.mem_cons_of_mem _ hold, ?_⟩
  split at hblock
  · next st hcall =>
    split at hblock
    · next hlinked =>
      obtain ⟨row, hrow, hpid⟩ := (Option.any_eq_true _ _).mp hlinked.2
      obtain ⟨later, hlater, hevolves⟩ := settlement_view_evolves commit.writes hrow
      simp_all [hevolves.2.1]
    · cases hblock
  · cases hblock

/-- A confirmation of a transaction of a payment adds its block. -/
theorem mem_confirmedBlocks {st : Status} {row : Settlement} (hcall : commit.call = .onStatus st)
    (hphase : st.phase = .confirmed) (hrow : db.settlement st.txHash = some row) :
    st.blockHash ∈
      confirmedBlocks (queries.view db commit.writes) (commit :: history) row.paymentID := by
  obtain ⟨later, hlater, hevolves⟩ := settlement_view_evolves commit.writes hrow
  refine List.mem_filterMap.mpr ⟨commit, List.mem_cons_self, ?_⟩
  simp [hcall, hphase, hlater, hevolves.2.1]

theorem Attempts.posted_step (h : Attempts db history)
    (hcommit : Committed rt allowed db commit.call commit.writes) {tx : TxHash} {row : Settlement}
    (hrow : (queries.view db commit.writes).settlement tx = some row)
    (hcleared : net row.status = 1) :
    ∃ blockHash, row.settledBlockHash = some blockHash ∧
      (queries.view db commit.writes).posted "settlement.settle"
        (settleRef row.paymentID blockHash) = true := by
  rcases hcommit.cleared_cases hrow hcleared with
    ⟨old, hold, hnet, hpid, hblock⟩ | ⟨blockHash, -, hblock, -, hposted⟩
  · obtain ⟨blockHash, hhash, hposted⟩ := h.posted tx old hold hnet
    rw [← hpid, ← hblock]
    exact ⟨blockHash, hhash, hcommit.posted_mono hposted⟩
  · exact ⟨blockHash, hblock, hposted⟩

/-- A row settled under a free reference carries another block than one settled before. -/
theorem Attempts.ne_of_fresh (h : Attempts db history) {tx : TxHash} {old row : Settlement}
    {blockHash : String} (hold : db.settlement tx = some old) (hcleared : net old.status = 1)
    (hpid : old.paymentID = row.paymentID) (hblock : row.settledBlockHash = some blockHash)
    (hfresh : db.posted "settlement.settle" (settleRef row.paymentID blockHash) = false) :
    old.settledBlockHash ≠ row.settledBlockHash := by
  intro hsame
  obtain ⟨blockHash', hhash, hposted⟩ := h.posted tx old hold hcleared
  obtain rfl : blockHash' = blockHash := by
    rw [hsame, hblock] at hhash
    exact (Option.some.inj hhash).symm
  rw [hpid, hfresh] at hposted
  cases hposted

theorem Attempts.distinct_step (h : Attempts db history)
    (hcommit : Committed rt allowed db commit.call commit.writes) {tx tx' : TxHash}
    {row row' : Settlement} (hrow : (queries.view db commit.writes).settlement tx = some row)
    (hrow' : (queries.view db commit.writes).settlement tx' = some row') (hne : tx ≠ tx')
    (hpid : row.paymentID = row'.paymentID) (hcleared : net row.status = 1)
    (hcleared' : net row'.status = 1) : row.settledBlockHash ≠ row'.settledBlockHash := by
  rcases hcommit.cleared_cases hrow hcleared with
    ⟨old, hold, hnet, hsame, hblock⟩ | ⟨blockHash, hcall, hblock, hfresh, -⟩ <;>
  rcases hcommit.cleared_cases hrow' hcleared' with
    ⟨old', hold', hnet', hsame', hblock'⟩ | ⟨blockHash', hcall', hblock', hfresh', -⟩
  · rw [← hblock, ← hblock']
    exact h.distinct tx tx' old old' hold hold' hne (hsame.trans (hpid.trans hsame'.symm)) hnet hnet'
  · rw [← hblock]
    exact h.ne_of_fresh hold hnet (hsame.trans hpid) hblock' hfresh'
  · rw [← hblock']
    exact (h.ne_of_fresh hold' hnet' (hsame'.trans hpid.symm) hblock hfresh).symm
  · -- one delivery concerns one transaction
    obtain ⟨st, hst, rfl⟩ := Call.eq_onStatus hcall
    rw [hst] at hcall'
    exact absurd (of_decide_eq_true hcall') hne

theorem Attempts.references_step (h : Attempts db history)
    (hcommit : Committed rt allowed db commit.call commit.writes) (pid : UUID) :
    ((settleEntries (queries.view db commit.writes) pid).map JournalEntry.externalRef).Nodup := by
  rcases hcommit.posted with hunposted | ⟨role, pid', pay, house, blockHash, je, hposted⟩
  · rw [settleEntries, hunposted.journal]
    exact h.references pid
  · rw [hposted.settleEntries_eq]
    split
    · next hown =>
      obtain ⟨rfl, rfl⟩ := hown
      rw [List.map_append, List.map_singleton, ← List.concat_eq_append]
      refine (h.references pid).concat fun hmem ↦ ?_
      obtain ⟨old, hold, href⟩ := List.mem_map.mp hmem
      obtain ⟨hjournal, hnames⟩ := List.mem_filter.mp hold
      -- the key of the new entry was free
      have hkey := List.any_eq_false.mp hposted.posting.fresh old hjournal
      have hkind : old.kind = "settlement.settle" :=
        of_decide_eq_true (Bool.and_eq_true_iff.mp hnames).1
      rw [hposted.posting.externalRef] at href
      exact hkey (by simp [hkind, href, Role.kind_entry, Role.kind])
    · rw [List.append_nil]
      exact h.references pid

theorem Attempts.delivered_step (h : Attempts db history)
    (hcommit : Committed rt allowed db commit.call commit.writes) (pid : UUID) (je : JournalEntry)
    (hje : je ∈ settleEntries (queries.view db commit.writes) pid) :
    ∃ blockHash ∈ confirmedBlocks (queries.view db commit.writes) (commit :: history) pid,
      je.externalRef = settleRef pid blockHash := by
  have hold : je ∈ settleEntries db pid →
      ∃ blockHash ∈ confirmedBlocks (queries.view db commit.writes) (commit :: history) pid,
        je.externalRef = settleRef pid blockHash := by
    intro hmem
    obtain ⟨blockHash, hblock, href⟩ := h.delivered pid je hmem
    exact ⟨blockHash, confirmedBlocks_mono hblock, href⟩
  rcases hcommit.posted with hunposted | ⟨role, pid', pay, house, blockHash, added, hposted⟩
  · rw [settleEntries, hunposted.journal] at hje
    exact hold hje
  · rw [hposted.settleEntries_eq] at hje
    rcases List.mem_append.mp hje with hmem | hadded
    · exact hold hmem
    · split at hadded
      · next hown =>
        obtain ⟨rfl, rfl⟩ := hown
        obtain rfl := List.mem_singleton.mp hadded
        obtain ⟨st, row, hcall, hphase, rfl, hrow, rfl⟩ := hposted.delivered rfl
        exact ⟨st.blockHash, mem_confirmedBlocks hcall hphase hrow, hposted.posting.externalRef⟩
      · cases hadded

theorem Attempts.step (h : Attempts db history)
    (hcommit : Committed rt allowed db commit.call commit.writes) :
    Attempts (queries.view db commit.writes) (commit :: history) :=
  ⟨fun _ _ ↦ h.posted_step hcommit, fun _ _ _ _ ↦ h.distinct_step hcommit,
    h.references_step hcommit, h.delivered_step hcommit⟩

theorem attempts_serial (hstart : Opening start)
    (h : Serial queries (fun call _ writes db ↦ Committed rt allowed db call writes) start history
      db) : Attempts db history := by
  induction h with
  | nil =>
    have hnone : ∀ tx, start.settlement tx = none := fun tx ↦ by
      rw [Db.settlement, hstart.settlements]
      rfl
    have hentries : ∀ pid, settleEntries start pid = [] := fun pid ↦
      List.filter_eq_nil_iff.mpr fun je hje ↦ by simp [Role.names, hstart.kinds je hje .settle]
    refine ⟨?_, ?_, ?_, ?_⟩ <;> simp [hnone, hentries]
  | cons commit _ hcommit ih => exact ih.step hcommit

/-- A payment has at most one settle entry for every block it was confirmed in. -/
theorem Attempts.entries_le (h : Attempts db history) (pid : UUID) :
    entriesOf db .settle pid ≤ (confirmedBlocks db history pid).toFinset.card := by
  have hsub : ((settleEntries db pid).map JournalEntry.externalRef).toFinset ⊆
      (confirmedBlocks db history pid).toFinset.image (settleRef pid) := by
    intro ref href
    obtain ⟨je, hje, rfl⟩ := List.mem_map.mp (List.mem_toFinset.mp href)
    obtain ⟨blockHash, hblock, hsettle⟩ := h.delivered pid je hje
    exact Finset.mem_image.mpr ⟨blockHash, List.mem_toFinset.mpr hblock, hsettle.symm⟩
  calc entriesOf db .settle pid
      = ((settleEntries db pid).map JournalEntry.externalRef).length := by
        rw [entriesOf, List.countP_eq_length_filter, List.length_map, settleEntries]
    _ = ((settleEntries db pid).map JournalEntry.externalRef).toFinset.card :=
        (List.toFinset_card_of_nodup (h.references pid)).symm
    _ ≤ ((confirmedBlocks db history pid).toFinset.image (settleRef pid)).card :=
        Finset.card_le_card hsub
    _ ≤ (confirmedBlocks db history pid).toFinset.card := Finset.card_image_le

/-- What settlement took from the destination is the amount for every settlement on balance, and
nothing where the destination is the clearing account itself. -/
theorem takenBySettlement_le {pid : UUID} {pay : Payment} (hbooks : Books db pid)
    (hpay : db.payment pid = some pay) :
    takenBySettlement db pid pay.destAccountID ≤
      pay.amount.toInt * (entriesOf db .settle pid : ℤ) := by
  obtain ⟨house, hclears⟩ : ∃ house, Clears db pay.asset house := by
    cases hfound : db.accountByNameAndAsset houseAccountName pay.asset with
    | none => exact ⟨0, by simp [Clears, hfound]⟩
    | some account => exact ⟨account.id, by simp [Clears, hfound]⟩
  have hamount := hbooks.positive pay hpay
  rw [takenBySettlement, hbooks.balances pay house hpay hclears]
  simp only [expected, Role.all, List.map_cons, List.map_nil, List.sum_cons, List.sum_nil,
    settlementRoles, Role.effect, reduceCtorEq, decide_false, decide_true, Bool.or_false,
    Bool.false_or, if_true, if_false, Bool.false_eq_true]
  rw [moved_comm pay.amount pay.destAccountID house]
  have hsettles : 0 ≤ pay.amount.toInt * (entriesOf db .settle pid : ℤ) :=
    mul_nonneg hamount.le (Int.natCast_nonneg _)
  have hreverses : 0 ≤ pay.amount.toInt * (entriesOf db .reverse pid : ℤ) :=
    mul_nonneg hamount.le (Int.natCast_nonneg _)
  have hmoved : moved pay.amount pay.destAccountID house pay.destAccountID = -pay.amount.toInt ∨
      moved pay.amount pay.destAccountID house pay.destAccountID = 0 := by
    by_cases hhouse : pay.destAccountID = house <;> simp [moved, hhouse]
  rcases hmoved with hmoved | hmoved <;> rw [hmoved] <;> linarith

/-- In every committed state, the settled rows of one payment carry different blocks, and what
settlement took from the destination is at most the amount for every block in which one of the
payment's transactions was confirmed. -/
theorem settled_once_per_block {s : RailState} (hstart : Opening start)
    (h : Reaches queries (body rt) unrestricted start s) :
    (∀ tx tx' row row', s.db.settlement tx = some row → s.db.settlement tx' = some row' →
      tx ≠ tx' → row.paymentID = row'.paymentID → net row.status = 1 → net row'.status = 1 →
        row.settledBlockHash ≠ row'.settledBlockHash) ∧
    ∀ pid pay, s.db.payment pid = some pay →
      takenBySettlement s.db pid pay.destAccountID ≤
        pay.amount.toInt * (confirmedBlocks s.db s.history pid).toFinset.card := by
  have hattempts := attempts_serial hstart (serial h)
  refine ⟨hattempts.distinct, fun pid pay hpay ↦ ?_⟩
  have hbooks := (books_serial hstart (serial h)).2 pid
  calc takenBySettlement s.db pid pay.destAccountID
      ≤ pay.amount.toInt * (entriesOf s.db .settle pid : ℤ) := takenBySettlement_le hbooks hpay
    _ ≤ pay.amount.toInt * (confirmedBlocks s.db s.history pid).toFinset.card := by
        refine mul_le_mul_of_nonneg_left ?_ (hbooks.positive pay hpay).le
        exact_mod_cast hattempts.entries_le pid

end Invariant

/-! ### Two transactions for one payment -/

/-- A payment of 100 linked to two transactions that are confirmed in different blocks. -/
def confirmedTwice : List (Action Call Ambient) :=
  serve (.create ⟨1, 2, "USDC", 100⟩) 100 15 ++ serve (.link 100 "0xaa") 200 1 ++
    serve (.link 100 "0xcc") 210 1 ++
    serve (.onStatus ⟨"0xaa", .confirmed, "0xb1", 7, 12⟩) 300 17 ++
    serve (.onStatus ⟨"0xcc", .confirmed, "0xb2", 8, 12⟩) 400 17

/-- Both transactions settle, and the destination pays the amount twice. -/
theorem settled_twice :
    (openingRun confirmedTwice).map (fun s ↦
      ((s.db.settlement "0xaa").map fun row ↦ (row.paymentID, row.status),
        (s.db.settlement "0xcc").map fun row ↦ (row.paymentID, row.status))) =
      some (some (100, .settled), some (100, .settled)) ∧
    (openingRun confirmedTwice).map (fun s ↦ takenBySettlement s.db 100 2) = some 200 := by
  decide +kernel

/-- The two settlements of the sample payment are in two blocks. -/
theorem settled_once_per_block_sample :
    ∃ s pay, openingRun confirmedTwice = some s ∧ s.db.payment 100 = some pay ∧
      takenBySettlement s.db 100 pay.destAccountID ≤
        pay.amount.toInt * (confirmedBlocks s.db s.history 100).toFinset.card := by
  have hrun : ((openingRun confirmedTwice).bind fun s ↦ s.db.payment 100).isSome = true := by
    decide +kernel
  obtain ⟨pay, hpays⟩ := Option.isSome_iff_exists.mp hrun
  obtain ⟨s, hs, hpay⟩ := Option.bind_eq_some_iff.mp hpays
  have hreaches : Reaches queries (body sampleRuntime) unrestricted openingDb s :=
    reaches_of_schedule .idle hs (permittedRun_unrestricted _ _)
  exact ⟨s, pay, hs, hpay, (settled_once_per_block opening_openingDb hreaches).2 100 pay hpay⟩

end PaymentRail.Rail
