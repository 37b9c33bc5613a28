import PaymentRail.Rail.Interleaving

/-!
# The entries of a settlement and the status of its row

A delivery that settles posts one entry and flips its row, one that reverses undoes both.  As long
as every guarded `UPDATE` still finds its row in a status it accepts (`MarksMatch`), the entries that
the deliveries for one transaction posted and its row tell the same story: one settle entry more
than reversals while the row is settled or finalized, as many while it is pending or reorged.

The `UPDATE` need not find the row that way.  A second confirmation of a finalized row posts a second
settle entry, matches no row, and is committed all the same (`finalized_settles_again`).
-/

namespace PaymentRail.Rail

open Transaction Ledger Chain Sink Payments

/-- The call delivers a status of this transaction. -/
def Call.delivers (tx : TxHash) : Call → Bool
  | .onStatus st => st.txHash = tx
  | _ => false

theorem Call.eq_onStatus {tx : TxHash} {call : Call} (h : call.delivers tx = true) :
    ∃ st, call = .onStatus st ∧ st.txHash = tx := by
  cases call with
  | onStatus st => exact ⟨st, rfl, of_decide_eq_true h⟩
  | _ => cases h

/-- The write inserts a journal entry of this kind. -/
def postsKind (kind : String) : Write → Bool
  | .insertJournalEntry entry => entry.kind = kind
  | _ => false

/-- The write changes the status of the row of this transaction. -/
def flips (tx : TxHash) : Write → Bool
  | .markSettled txHash _ _ _ | .markReorged txHash | .markFinalized txHash => txHash = tx
  | _ => false

/-- The write inserts an outbox event. -/
def emits : Write → Bool
  | .insertOutboxEvent _ => true
  | _ => false

/-- The write inserts an audit row. -/
def audits : Write → Bool
  | .insertAuditEntry _ => true
  | _ => false

/-- The write inserts the entry of a confirmation or of a reorg. -/
def postsSettlement (write : Write) : Bool :=
  postsKind "settlement.settle" write || postsKind "settlement.reversal" write

/-- The entries of a kind that the committed deliveries for a transaction posted. -/
def postedFor (tx : TxHash) (kind : String) (history : List (Commit Write Call Result)) : ℕ :=
  ((history.filter fun commit ↦ commit.call.delivers tx).map fun commit ↦
    commit.writes.countP (postsKind kind)).sum

/-- How many settle entries more than reversals the status of a row stands for. -/
def net : SettlementStatus → ℤ
  | .settled | .finalized => 1
  | .pending | .reorged => 0

/-- The guarded `UPDATE`s of the rows of some transactions run only on a row in a status that their
`WHERE` accepts. -/
def MarksMatch (txs : TxHash → Prop) : Stmt → Ambient → Db → Prop
  | .markSettlementSettled params, _, db => txs params.txHash →
      (db.settlement params.txHash).any (·.status.settleable) = true
  | .markSettlementReorged tx, _, db => txs tx →
      (db.settlement tx).any (·.status = .settled) = true
  | _, _, _ => True

instance (txs : TxHash → Prop) [DecidablePred txs] :
    (stmt : Stmt) → (ambient : Ambient) → (db : Db) → Decidable (MarksMatch txs stmt ambient db)
  | .markSettlementSettled _, _, _ | .markSettlementReorged _, _, _ =>
    inferInstanceAs (Decidable (_ → _))
  | .newUUID, _, _ | .timeNow, _, _ | .getAccountByNameAndAsset .., _, _
  | .getAccountsForUpdate _, _, _ | .getAccountBalance _, _, _ | .insertJournalEntry .., _, _
  | .insertEntryLine _, _, _ | .insertPayment _, _, _ | .getPayment _, _, _
  | .cancelPayment .., _, _ | .insertSettlement .., _, _ | .getSettlementByTxHash _, _, _
  | .markSettlementFinalized _, _, _ | .insertOutboxEvent _, _, _ | .acquireAuditChainLock _, _, _
  | .getAuditHead, _, _ | .insertAuditEntry _, _, _ => isTrue trivial

section Counting

variable {p : Write → Bool}

/-- Among the writes of an entry only the entry itself can count. -/
theorem countP_entry_writes (hlines : ∀ line, p (.insertEntryLine line) = false) (entry : Entry)
    (je : JournalEntry) :
    (entry.writes je).countP p = if p (.insertJournalEntry je) then 1 else 0 := by
  have hnone : (entry.lines.map fun line ↦ Write.insertEntryLine (line.row je.id)).countP p = 0 := by
    simp [List.countP_eq_zero, hlines]
  rw [Entry.writes, List.countP_cons, hnone, Nat.zero_add]

theorem countP_transition (flip : Write) (sent : OutboxRow) (logged : AuditRow) :
    (transition flip sent logged).countP p =
      (if p flip then 1 else 0) + (if p (.insertOutboxEvent sent) then 1 else 0) +
        (if p (.insertAuditEntry logged) then 1 else 0) := by
  simp only [transition, List.countP_cons, List.countP_nil]
  omega

end Counting

section Steps

variable {rt : Audit.Runtime} {allowed : Stmt → Ambient → Db → Prop} {txs : TxHash → Prop} {db : Db}
  {call : Call} {writes : List Write} {tx : TxHash} {row : Settlement}

/-- The settle entries of some writes less their reversals. -/
def netEntries (writes : List Write) : ℤ :=
  writes.countP (postsKind "settlement.settle") - writes.countP (postsKind "settlement.reversal")

theorem netEntries_append (first second : List Write) :
    netEntries (first ++ second) = netEntries first + netEntries second := by
  simp only [netEntries, List.countP_append]
  omega

theorem netEntries_settle {entry : Entry} {je : JournalEntry} (h : je.kind = "settlement.settle") :
    netEntries (entry.writes je) = 1 := by
  rw [netEntries, countP_entry_writes (fun _ ↦ rfl), countP_entry_writes (fun _ ↦ rfl)]
  simp [postsKind, h]

theorem netEntries_reversal {entry : Entry} {je : JournalEntry}
    (h : je.kind = "settlement.reversal") : netEntries (entry.writes je) = -1 := by
  rw [netEntries, countP_entry_writes (fun _ ↦ rfl), countP_entry_writes (fun _ ↦ rfl)]
  simp [postsKind, h]

/-- The change of a row, its event and its audit row are no entries. -/
theorem netEntries_transition {flip : Write} (hflip : ∀ kind, postsKind kind flip = false)
    (sent : OutboxRow) (logged : AuditRow) : netEntries (transition flip sent logged) = 0 := by
  rw [netEntries, countP_transition, countP_transition, hflip, hflip]
  rfl

/-- The rows of settlements after a transition: the change of its own row, nothing else. -/
theorem settlement_view_transition (flip : Write) (sent : OutboxRow) (logged : AuditRow)
    (tx : TxHash) :
    (queries.view db (transition flip sent logged)).settlement tx = (db.apply flip).settlement tx :=
  rfl

/-- A change of the row of one transaction leaves the row of another. -/
theorem settlement_apply_of_not_flips {flip : Write} (hflips : flips tx flip = false)
    (hrow : db.settlement tx = some row) : (db.apply flip).settlement tx = some row := by
  cases flip with
  | insertSettlement added => exact Table.lookup_append_of_some added hrow
  | markSettled | markReorged | markFinalized =>
    rw [← hrow]
    exact Table.lookup_modify_of_ne (fun _ ↦ rfl) fun heq ↦ by simp [flips, heq] at hflips
  | _ => exact hrow

/-- A call that delivers nothing for a transaction leaves its row alone. -/
theorem Committed.settlement_of_not_delivers (h : Committed rt allowed db call writes)
    (hcall : call.delivers tx = false) (hrow : db.settlement tx = some row) :
    (queries.view db writes).settlement tx = some row := by
  cases h with
  | nothing => exact hrow
  | created | canceled =>
    rw [Engine.view_append, view_entry_writes, settlement_view_transition]
    exact settlement_apply_of_not_flips rfl hrow
  | linked _ _ added => exact Table.lookup_append_of_some added hrow
  | settled | reversed =>
    rw [Engine.view_append, view_entry_writes, settlement_view_transition]
    exact settlement_apply_of_not_flips hcall hrow
  | finalized =>
    rw [settlement_view_transition]
    exact settlement_apply_of_not_flips hcall hrow
  | settledUnmarked | reversedUnmarked =>
    rw [view_entry_writes]
    exact hrow

/-- The row of a transaction after a change of it. -/
theorem settlement_updateSettlement_self {f : Settlement → Settlement}
    (hf : ∀ row : Settlement, (f row).txHash = row.txHash) (hrow : db.settlement tx = some row) :
    (db.updateSettlement tx f).settlement tx = some (f row) := by
  have hlookup : (db.updateSettlement tx f).settlement tx = (db.settlement tx).map f :=
    Table.lookup_modify_self hf
  rw [hlookup, hrow, Option.map_some]

section After

variable {st : Status} {entry : Entry} {je : JournalEntry} {sent : OutboxRow} {logged : AuditRow}

theorem settlement_after_settled (hrow : db.settlement st.txHash = some row) :
    (queries.view db (entry.writes je ++ transition (markSettled st je) sent logged)).settlement
      st.txHash =
        some (row.settle (some je.id) (some st.blockHash) (some st.blockNumber.toInt64)) := by
  rw [Engine.view_append, view_entry_writes, settlement_view_transition]
  exact settlement_updateSettlement_self
    (f := (·.settle (some je.id) (some st.blockHash) (some st.blockNumber.toInt64)))
    (fun _ ↦ rfl) hrow

theorem settlement_after_reversed (hrow : db.settlement tx = some row) :
    (queries.view db (entry.writes je ++ transition (.markReorged tx) sent logged)).settlement tx =
      some row.reorg := by
  rw [Engine.view_append, view_entry_writes, settlement_view_transition]
  exact settlement_updateSettlement_self (f := Settlement.reorg) (fun _ ↦ rfl) hrow

theorem settlement_after_finalized (hrow : db.settlement tx = some row) :
    (queries.view db (transition (.markFinalized tx) sent logged)).settlement tx =
      some row.finalize := by
  rw [settlement_view_transition]
  exact settlement_updateSettlement_self (f := Settlement.finalize) (fun _ ↦ rfl) hrow

end After

/-- Where the guarded `UPDATE` of `settle` has to match, it does not come back empty. -/
theorem MarksMatch.settled {st : Status} {je : JournalEntry} (htx : txs st.txHash)
    (hempty : ∃ ambient seen, MarksMatch txs (.markSettlementSettled (settledParams st je)) ambient
      seen ∧ ∀ row, seen.settlement st.txHash = some row → row.status.settleable = false) :
    False := by
  obtain ⟨ambient, seen, hmatch, hnone⟩ := hempty
  obtain ⟨matched, hmatched, hsettleable⟩ := (Option.any_eq_true _ _).mp (hmatch htx)
  exact Bool.false_ne_true ((hnone matched hmatched).symm.trans hsettleable)

/-- Where the guarded `UPDATE` of `reverse` has to match, it does not come back empty. -/
theorem MarksMatch.reversed (htx : txs tx)
    (hempty : ∃ ambient seen, MarksMatch txs (.markSettlementReorged tx) ambient seen ∧
      ∀ row, seen.settlement tx = some row → row.status ≠ .settled) : False := by
  obtain ⟨ambient, seen, hmatch, hnone⟩ := hempty
  obtain ⟨matched, hmatched, hsettled⟩ := (Option.any_eq_true _ _).mp (hmatch htx)
  exact hnone matched hmatched (of_decide_eq_true hsettled)

/-- The row and the entries of a transaction move together with every delivery whose guarded
`UPDATE` matches. -/
theorem Committed.net_step_of_delivers {st : Status}
    (h : Committed rt (MarksMatch txs) db (.onStatus st) writes) (htx : txs st.txHash)
    (hrow : db.settlement st.txHash = some row) :
    ∃ later, (queries.view db writes).settlement st.txHash = some later ∧
      net later.status = net row.status + netEntries writes := by
  cases h with
  | nothing => exact ⟨row, hrow, by simp [netEntries]⟩
  | settled _ found pay house je sent logged phase resolved settleable posting announced =>
    obtain rfl := Option.some.inj (hrow.symm.trans resolved.linked)
    refine ⟨_, settlement_after_settled hrow, ?_⟩
    rw [netEntries_append, netEntries_settle posting.kind, netEntries_transition fun _ ↦ rfl]
    have hbefore : net row.status = 0 := by
      cases hstatus : row.status <;> simp_all [SettlementStatus.settleable, net]
    rw [hbefore]
    rfl
  | reversed _ found pay house je sent logged phase resolved isSettled posting announced =>
    obtain rfl := Option.some.inj (hrow.symm.trans resolved.linked)
    refine ⟨_, settlement_after_reversed hrow, ?_⟩
    rw [netEntries_append, netEntries_reversal posting.kind, netEntries_transition fun _ ↦ rfl]
    simp [isSettled, Settlement.reorg, net]
  | finalized _ found sent logged phase hfound isSettled announced =>
    obtain rfl := Option.some.inj (hrow.symm.trans hfound)
    refine ⟨_, settlement_after_finalized hrow, ?_⟩
    rw [netEntries_transition fun _ ↦ rfl]
    simp [isSettled, Settlement.finalize, net]
  | settledUnmarked _ _ _ _ _ _ _ _ unmarked => exact (MarksMatch.settled htx unmarked).elim
  | reversedUnmarked _ _ _ _ _ _ _ _ unmarked => exact (MarksMatch.reversed htx unmarked).elim

theorem Committed.net_step (h : Committed rt (MarksMatch txs) db call writes) (htx : txs tx)
    (hrow : db.settlement tx = some row) :
    ∃ later, (queries.view db writes).settlement tx = some later ∧
      net later.status = net row.status + if call.delivers tx then netEntries writes else 0 := by
  cases hcall : call.delivers tx with
  | false => exact ⟨row, h.settlement_of_not_delivers hcall hrow, by simp⟩
  | true =>
    obtain ⟨st, rfl, rfl⟩ := Call.eq_onStatus hcall
    exact h.net_step_of_delivers htx hrow

/-- An entry posted with the flip of its row, counted. -/
theorem one_transition_of_posting {entry : Entry} {je : JournalEntry} {flip : Write}
    (hentry : postsSettlement (.insertJournalEntry je) = true) (hflip : flips tx flip = true)
    (sent : OutboxRow) (logged : AuditRow) :
    let writes := entry.writes je ++ transition flip sent logged
    writes.countP postsSettlement = 1 ∧ writes.countP (flips tx) = 1 ∧ writes.countP emits = 1 ∧
      writes.countP audits = 1 := by
  have hother : postsSettlement flip = false ∧ emits flip = false ∧ audits flip = false := by
    cases flip <;> first | exact ⟨rfl, rfl, rfl⟩ | cases hflip
  simp only [List.countP_append, countP_transition]
  rw [countP_entry_writes fun _ ↦ rfl, countP_entry_writes fun _ ↦ rfl,
    countP_entry_writes fun _ ↦ rfl, countP_entry_writes fun _ ↦ rfl, hentry, hflip, hother.1,
    hother.2.1, hother.2.2]
  exact ⟨rfl, rfl, rfl, rfl⟩

/-- A commit that posts a settlement entry also flips its row, emits one event and adds one audit
row. -/
theorem Committed.one_transition {st : Status}
    (h : Committed rt (MarksMatch txs) db (.onStatus st) writes) (htx : txs st.txHash)
    (hposts : 0 < writes.countP postsSettlement) :
    writes.countP postsSettlement = 1 ∧ writes.countP (flips st.txHash) = 1 ∧
      writes.countP emits = 1 ∧ writes.countP audits = 1 := by
  cases h with
  | nothing => simp at hposts
  | settled _ found pay house je sent logged phase resolved settleable posting announced =>
    have hkind : je.kind = "settlement.settle" := posting.kind
    exact one_transition_of_posting (by simp [postsSettlement, postsKind, hkind])
      (by simp [flips, markSettled]) sent logged
  | reversed _ found pay house je sent logged phase resolved isSettled posting announced =>
    have hkind : je.kind = "settlement.reversal" := posting.kind
    exact one_transition_of_posting (by simp [postsSettlement, postsKind, hkind])
      (by simp [flips]) sent logged
  | finalized => simp [countP_transition, postsSettlement, postsKind] at hposts
  | settledUnmarked _ _ _ _ _ _ _ _ unmarked => exact (MarksMatch.settled htx unmarked).elim
  | reversedUnmarked _ _ _ _ _ _ _ _ unmarked => exact (MarksMatch.reversed htx unmarked).elim

end Steps

theorem postedFor_cons (tx : TxHash) (kind : String) (commit : Commit Write Call Result)
    (history : List (Commit Write Call Result)) :
    postedFor tx kind (commit :: history) =
      (if commit.call.delivers tx then commit.writes.countP (postsKind kind) else 0) +
        postedFor tx kind history := by
  cases hcall : commit.call.delivers tx <;> simp [postedFor, hcall]

section Runs

variable {rt : Audit.Runtime} {txs : TxHash → Prop} {start : Db} {tx : TxHash} {row : Settlement}

/-- Over a whole run the entries of a transaction account for the change of its row. -/
theorem net_serial {history : List (Commit Write Call Result)} {db : Db}
    (h : Serial queries (fun call _ writes db ↦ Committed rt (MarksMatch txs) db call writes) start
      history db) (htx : txs tx) (hrow : start.settlement tx = some row) :
    ∃ later, db.settlement tx = some later ∧
      net later.status = net row.status + ((postedFor tx "settlement.settle" history : ℤ) -
        postedFor tx "settlement.reversal" history) := by
  induction h with
  | nil => exact ⟨row, hrow, by simp [postedFor]⟩
  | cons commit _ hcommit ih =>
    obtain ⟨mid, hmid, hnet⟩ := ih
    obtain ⟨later, hlater, hstep⟩ := hcommit.net_step htx hmid
    refine ⟨later, hlater, ?_⟩
    rw [hstep, hnet, postedFor_cons, postedFor_cons]
    split
    · simp only [netEntries]
      push_cast
      ring
    · simp

/-- In every interleaving of the calls in which the guarded `UPDATE`s of a transaction match, in
every committed state: the settle entries its deliveries posted less the reversals are one when its
row is settled or finalized and none otherwise, and every such entry was committed with one flip of
the row, one event and one audit row. -/
theorem entries_follow_row {s : RailState} (hrow : start.settlement tx = some row)
    (hpending : row.status = .pending)
    (h : Reaches queries (body rt) (MarksMatch (· = tx)) start s) :
    (∃ later, s.db.settlement tx = some later ∧
      (postedFor tx "settlement.settle" s.history : ℤ) -
        postedFor tx "settlement.reversal" s.history = net later.status) ∧
    ∀ commit ∈ s.history, commit.call.delivers tx = true →
      0 < commit.writes.countP postsSettlement →
      commit.writes.countP postsSettlement = 1 ∧ commit.writes.countP (flips tx) = 1 ∧
        commit.writes.countP emits = 1 ∧ commit.writes.countP audits = 1 := by
  have hserial := serial h
  constructor
  · obtain ⟨later, hlater, hnet⟩ := net_serial hserial rfl hrow
    refine ⟨later, hlater, ?_⟩
    rw [hnet, hpending]
    simp [net]
  · intro commit hmem hcall hposts
    obtain ⟨before, hcommitted⟩ := hserial.of_mem hmem
    obtain ⟨call, result, writes⟩ := commit
    obtain ⟨st, rfl, rfl⟩ := Call.eq_onStatus hcall
    exact hcommitted.one_transition rfl hposts

end Runs

/-! ### A run on sample tables -/

/-- Library functions for the sample runs: a hash without collisions and one encoding for all. -/
def sampleRuntime : Audit.Runtime := ⟨id, fun _ ↦ []⟩

/-- A customer who paid 100 to a merchant with 100 of their own, the clearing account, and a pending
link of the payment. -/
def sampleDb : Db where
  accounts := [⟨1, "customer", "wallet", "USDC", "active"⟩,
    ⟨2, "merchant", "wallet", "USDC", "active"⟩,
    ⟨3, houseAccountName, "onchain_settlement", "USDC", "active"⟩]
  journalEntries := [⟨10, "opening", "customer", "USDC"⟩, ⟨11, "opening", "merchant", "USDC"⟩,
    ⟨12, "payment", UUID.string 20, "USDC"⟩]
  entryLines := [⟨10, 1, .credit, 100⟩, ⟨11, 2, .credit, 100⟩, ⟨12, 1, .debit, 100⟩,
    ⟨12, 2, .credit, 100⟩]
  payments := [⟨20, .completed, "USDC", 100, 1, 2, 12, none, 0⟩]
  settlements := [⟨30, 20, "0xaa", .pending, none, 0, none, none⟩]
  outbox := []
  auditLog := []

/-- A call served from start to commit with nothing in between, in a given number of statements.
The random identifiers count up from `seed`. -/
def serve (call : Call) (seed statements : ℕ) : List (Action Call Ambient) :=
  .start 0 call :: (List.range statements).map
    (fun n ↦ .exec 0 ⟨BitVec.ofNat 128 (seed + n), n⟩) ++ [.commit 0]

/-- The sample tables after a schedule. -/
def sampleRun (actions : List (Action Call Ambient)) : Option RailState :=
  schedule queries (body sampleRuntime) (State.idle sampleDb) actions

theorem entries_follow_row_confirmed :
    ∃ s, sampleRun (serve (.onStatus ⟨"0xaa", .confirmed, "0xb1", 7, 12⟩) 100 17) = some s ∧
    (∃ later, s.db.settlement "0xaa" = some later ∧
      (postedFor "0xaa" "settlement.settle" s.history : ℤ) -
        postedFor "0xaa" "settlement.reversal" s.history = net later.status) ∧
    ∀ commit ∈ s.history, commit.call.delivers "0xaa" = true →
      0 < commit.writes.countP postsSettlement →
      commit.writes.countP postsSettlement = 1 ∧ commit.writes.countP (flips "0xaa") = 1 ∧
        commit.writes.countP emits = 1 ∧ commit.writes.countP audits = 1 := by
  have hrun : (sampleRun
      (serve (.onStatus ⟨"0xaa", .confirmed, "0xb1", 7, 12⟩) 100 17)).isSome = true := by
    decide +kernel
  obtain ⟨s, hs⟩ := Option.isSome_iff_exists.mp hrun
  have hreaches : Reaches queries (body sampleRuntime) (MarksMatch (· = "0xaa")) sampleDb s :=
    reaches_of_schedule .idle hs (by decide +kernel)
  exact ⟨s, hs, entries_follow_row rfl rfl hreaches⟩

/-- Confirmed, finalized, and confirmed in another block. -/
def finalizedThenConfirmed : List (Action Call Ambient) :=
  serve (.onStatus ⟨"0xaa", .confirmed, "0xb1", 7, 12⟩) 100 17 ++
    serve (.onStatus ⟨"0xaa", .finalized, "0xb1", 7, 64⟩) 200 8 ++
    serve (.onStatus ⟨"0xaa", .confirmed, "0xb2", 8, 12⟩) 300 10

/-- A confirmation that is delivered after the row is finalized settles once more: its `UPDATE`
matches no row and the entry is committed without a flip, an event or an audit row. -/
theorem finalized_settles_again :
    (sampleRun finalizedThenConfirmed).map (fun s ↦ ((s.db.settlement "0xaa").map Settlement.status,
      postedFor "0xaa" "settlement.settle" s.history,
      postedFor "0xaa" "settlement.reversal" s.history)) = some (some .finalized, 2, 0) ∧
    ((sampleRun finalizedThenConfirmed).bind fun s ↦ s.history.head?).map (fun commit ↦
      (commit.writes.countP postsSettlement, commit.writes.countP (flips "0xaa"),
        commit.writes.countP emits, commit.writes.countP audits)) = some (1, 0, 0, 0) := by
  decide +kernel

end PaymentRail.Rail
