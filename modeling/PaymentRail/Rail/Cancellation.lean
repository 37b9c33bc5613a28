import PaymentRail.Rail.Books
import Mathlib.Algebra.Order.BigOperators.Group.List

/-!
# Canceling a payment that is settled

`Cancel` looks at the payment row and `OnStatus` at the settlement row; neither looks at the other's.
A payment can therefore be both refunded to its source and cleared to the house, and then its
destination has paid twice (`canceled_while_settled`).

It can only pay with money of its own.  The books of a canceled payment say how often it was settled
on balance, and as no balance is negative the rest of the destination's balance covers that many
times the amount (`canceled_settlement_covered`).  Where the guarded `UPDATE`s match, one settled row
is enough to know that it was settled.
-/

namespace PaymentRail.Rail

open Transaction Ledger Chain Sink Payments

/-- How many settle entries more than reversals are posted for a payment. -/
def netSettled (db : Db) (pid : UUID) : ℤ :=
  (entriesOf db .settle pid : ℤ) - entriesOf db .reverse pid

/-- The same number as the rows of the payment tell it. -/
def netRows (db : Db) (pid : UUID) : ℤ :=
  (db.settlements.map fun row ↦ if row.paymentID = pid then net row.status else 0).sum

/-- What is on an account apart from the entries of a payment. -/
def otherFunds (db : Db) (pid accountID : UUID) : ℤ :=
  db.balanceApart (ownEntry pid fun _ ↦ true) accountID

section Covered

variable {db : Db} {pid house : UUID} {pay : Payment}

/-- The entries of a canceled payment took its amount from the destination once per settlement. -/
theorem balanceWhere_of_canceled (hbooks : Books db pid) (hpay : db.payment pid = some pay)
    (hcanceled : pay.status = .canceled) (hclears : Clears db pay.asset house)
    (hhouse : house ≠ pay.destAccountID) :
    db.balanceWhere (ownEntry pid fun _ ↦ true) pay.destAccountID =
      -(pay.amount.toInt * netSettled db pid) := by
  rw [hbooks.balances pay house hpay hclears]
  simp only [expected, Role.all, List.map_cons, List.map_nil, List.sum_cons, List.sum_nil, if_true,
    hbooks.effected pay hpay, hbooks.refunded pay hpay, hcanceled, Role.effect]
  rw [moved_comm pay.amount pay.sourceAccountID, moved_comm pay.amount pay.destAccountID house]
  have hsettle : moved pay.amount pay.destAccountID house pay.destAccountID = -pay.amount.toInt := by
    simp [moved, Ne.symm hhouse]
  rw [hsettle, netSettled]
  push_cast
  ring

/-- The destination of a canceled payment covers its settlements with other funds. -/
theorem covered_of_canceled (hsound : Sound db) (hbooks : Books db pid)
    (hpay : db.payment pid = some pay) (hcanceled : pay.status = .canceled)
    (hclears : Clears db pay.asset house) (hhouse : house ≠ pay.destAccountID) :
    pay.amount.toInt * netSettled db pid ≤ otherFunds db pid pay.destAccountID := by
  have hbalance := hsound.nonneg pay.destAccountID
  rw [Db.balance_eq_add (ownEntry pid fun _ ↦ true),
    balanceWhere_of_canceled hbooks hpay hcanceled hclears hhouse] at hbalance
  rw [otherFunds]
  omega

end Covered

section Rows

variable {rt : Audit.Runtime} {db : Db} {call : Call} {writes : List Write}

/-- By how much an entry of a role changes the settlements on balance. -/
def Role.sign : Role → ℤ
  | .settle => 1
  | .reverse => -1
  | .payment | .refund => 0

theorem netSettled_postEntry {role : Role} {pid : UUID} {pay : Payment} {house : Account}
    {blockHash : String} {je : JournalEntry}
    (hposting : Posting db (role.entry pid pay house blockHash) je) (pid' : UUID) :
    netSettled (postEntry db (role.entry pid pay house blockHash) je) pid' =
      netSettled db pid' + if pid' = pid then role.sign else 0 := by
  have hnames := fun role' ↦ Role.names_entry role role' pid pid' pay house blockHash
    hposting.kind hposting.externalRef
  simp only [netSettled, entriesOf, postEntry, List.countP_append, List.countP_singleton, hnames]
  by_cases hpid : pid' = pid
  · cases role <;> simp [hpid, Role.sign] <;> ring
  · simp [hpid]

/-- The rows of a payment after a change of one row. -/
theorem netRows_updateSettlement {tx : TxHash} {row : Settlement} {f : Settlement → Settlement}
    (hkeys : (db.settlements.map Settlement.txHash).Nodup) (hrow : db.settlement tx = some row)
    (hf : (f row).paymentID = row.paymentID) (pid : UUID) :
    netRows (db.updateSettlement tx f) pid =
      netRows db pid + if pid = row.paymentID then net (f row).status - net row.status else 0 := by
  have hsum := Table.sum_map_modify (f := f) hkeys hrow
    fun row ↦ if row.paymentID = pid then net row.status else 0
  rw [netRows, Db.updateSettlement, hsum, hf, netRows]
  congr 1
  by_cases hpid : pid = row.paymentID
  · simp [hpid]
  · simp [hpid, Ne.symm hpid]

/-- The rows tell the settlements on balance, up to what they told at the start. -/
structure RowsTell (db : Db) : Prop where
  keys : (db.settlements.map Settlement.txHash).Nodup
  sum : ∀ pid, netRows db pid = netSettled db pid

/-- A posting together with the matching change of its row. -/
theorem RowsTell.marked {role : Role} {tx : TxHash} {row : Settlement} {pay : Payment}
    {house : Account} {blockHash : String} {je : JournalEntry} {f : Settlement → Settlement}
    {db' : Db} (h : RowsTell db) (hrow : db.settlement tx = some row)
    (hposting : Posting db (role.entry row.paymentID pay house blockHash) je)
    (hf : ∀ row : Settlement, row.Evolves (f row))
    (hnet : net (f row).status - net row.status = role.sign)
    (hjournal : db'.journalEntries =
      (postEntry db (role.entry row.paymentID pay house blockHash) je).journalEntries)
    (hrows : db'.settlements = (db.updateSettlement tx f).settlements) : RowsTell db' where
  keys := by
    rw [hrows, Db.updateSettlement, Table.map_key_modify fun row ↦ (hf row).2.2.1]
    exact h.keys
  sum pid := by
    have hrows' : netRows db' pid = netRows (db.updateSettlement tx f) pid := by
      rw [netRows, hrows, netRows]
    have hentries : netSettled db' pid = netSettled
        (postEntry db (role.entry row.paymentID pay house blockHash) je) pid := by
      simp only [netSettled, entriesOf, hjournal]
    rw [hrows', hentries, netRows_updateSettlement h.keys hrow (hf row).2.1, h.sum,
      netSettled_postEntry hposting, hnet]

/-- A commit that leaves the rows and posts no settlement. -/
theorem RowsTell.kept {db' : Db} (h : RowsTell db) (hrows : db'.settlements = db.settlements)
    (hnet : ∀ pid, netSettled db' pid = netSettled db pid) : RowsTell db' where
  keys := by rw [hrows]; exact h.keys
  sum pid := by rw [netRows, hrows, hnet]; exact h.sum pid

theorem RowsTell.step (hcommit : Committed rt (MarksMatch fun _ ↦ True) db call writes)
    (h : RowsTell db) : RowsTell (queries.view db writes) := by
  cases hcommit with
  | nothing => exact h
  | created input pid je payment sent logged posting fresh row announced =>
    have hentry := Role.entry_payment row ⟨0, "", "", "", ""⟩
    rw [Engine.view_append, view_entry_writes, hentry]
    rw [hentry] at posting
    refine h.kept rfl fun pid' ↦ (netSettled_postEntry posting pid').trans ?_
    simp [Role.sign]
  | canceled pid payment je sent logged row completed posting announced =>
    rw [Engine.view_append, view_entry_writes]
    have hposting : Posting db (Role.refund.entry pid payment ⟨0, "", "", "", ""⟩ "") je := posting
    refine h.kept rfl fun pid' ↦ (netSettled_postEntry hposting pid').trans ?_
    simp [Role.sign]
  | linked paymentID tx row fresh payment pending =>
    have htx : row.txHash = tx := by rw [pending]
    have hstatus : row.status = .pending := by rw [pending]
    refine ⟨?_, fun pid ↦ ?_⟩
    · have hnew : row.txHash ∉ db.settlements.map Settlement.txHash := by
        rw [htx]
        intro hmem
        obtain ⟨old, hold, hkey⟩ := List.mem_map.mp hmem
        exact Table.lookup_eq_none.mp fresh old hold hkey
      have hkeys : ((db.settlements ++ [row]).map Settlement.txHash).Nodup := by
        rw [List.map_append, List.map_singleton]
        exact List.concat_eq_append ▸ h.keys.concat hnew
      exact hkeys
    · have hrows : netRows (queries.view db [.insertSettlement row]) pid = netRows db pid := by
        simp [netRows, queries, Db.apply, hstatus, net]
      rw [hrows]
      exact h.sum pid
  | settled st row pay house je sent logged phase resolved settleable posting announced =>
    rw [Engine.view_append, view_entry_writes]
    have hposting : Posting db (Role.settle.entry row.paymentID pay house st.blockHash) je := posting
    refine h.marked (f := (·.settle (some je.id) (some st.blockHash) (some st.blockNumber.toInt64)))
      resolved.linked hposting (fun _ ↦ ⟨rfl, rfl, rfl, rfl⟩) ?_ rfl rfl
    cases hstatus : row.status <;>
      simp_all [SettlementStatus.settleable, net, Role.sign, Settlement.settle]
  | reversed st row pay house je sent logged phase resolved isSettled posting announced =>
    rw [Engine.view_append, view_entry_writes]
    have hposting : Posting db (Role.reverse.entry row.paymentID pay house st.blockHash) je :=
      posting
    refine h.marked (f := Settlement.reorg) resolved.linked hposting
      (fun _ ↦ ⟨rfl, rfl, rfl, rfl⟩) ?_ rfl rfl
    simp [net, Role.sign, Settlement.reorg, isSettled]
  | finalized st row sent logged phase found isSettled announced =>
    have hkeys : ((Table.modify Settlement.txHash db.settlements st.txHash Settlement.finalize).map
        Settlement.txHash).Nodup := by
      rw [Table.map_key_modify (f := Settlement.finalize) fun _ ↦ rfl]
      exact h.keys
    refine ⟨hkeys, fun pid ↦ ?_⟩
    have hrows : netRows (db.updateSettlement st.txHash Settlement.finalize) pid = netRows db pid := by
      rw [netRows_updateSettlement h.keys found rfl]
      simp [Settlement.finalize, isSettled, net]
    exact hrows.trans (h.sum pid)
  | settledUnmarked _ _ _ _ _ _ _ _ unmarked => exact (MarksMatch.settled trivial unmarked).elim
  | reversedUnmarked _ _ _ _ _ _ _ _ unmarked => exact (MarksMatch.reversed trivial unmarked).elim

end Rows

section Runs

variable {rt : Audit.Runtime} {start db : Db} {history : List (Commit Write Call Result)}

theorem Opening.rowsTell (h : Opening start) : RowsTell start where
  keys := by simp [h.settlements]
  sum pid := by
    have hnone : start.payment pid = none := by
      rw [Db.payment, h.payments]
      rfl
    have hentries := (h.books pid).unknown hnone
    simp [netRows, netSettled, h.settlements, hentries]

theorem rowsTell_serial (hstart : Opening start)
    (h : Serial queries (fun call _ writes db ↦
      Committed rt (MarksMatch fun _ ↦ True) db call writes) start history db) : RowsTell db := by
  induction h with
  | nil => exact hstart.rowsTell
  | cons commit _ hcommit ih => exact ih.step hcommit

/-- A payment with a settled or finalized row was settled at least once more than it was reversed. -/
theorem one_le_netSettled (h : RowsTell db) {tx : TxHash} {row : Settlement}
    (hrow : db.settlement tx = some row) (hcleared : net row.status = 1) :
    1 ≤ netSettled db row.paymentID := by
  rw [← h.sum, netRows]
  have hterm : ∀ term ∈ db.settlements.map fun other ↦
      if other.paymentID = row.paymentID then net other.status else 0, 0 ≤ term := by
    intro term hterm
    obtain ⟨other, -, rfl⟩ := List.mem_map.mp hterm
    split
    · cases other.status <;> simp [net]
    · exact le_rfl
  have hmem : (1 : ℤ) ∈ db.settlements.map fun other ↦
      if other.paymentID = row.paymentID then net other.status else 0 :=
    List.mem_map.mpr ⟨row, Table.mem_of_lookup hrow, by simp [hcleared]⟩
  exact List.single_le_sum hterm 1 hmem

/-- In every committed state, the destination of a canceled payment holds, apart from the entries of
that payment, its amount as many times as it was settled on balance; and where the guarded `UPDATE`s
match, at least once if one of its rows is settled or finalized. -/
theorem canceled_settlement_covered (hstart : Opening start) :
    (∀ s : RailState, Reaches queries (body rt) unrestricted start s →
      ∀ pid pay house, s.db.payment pid = some pay → pay.status = .canceled →
        Clears s.db pay.asset house → house ≠ pay.destAccountID →
        pay.amount.toInt * netSettled s.db pid ≤ otherFunds s.db pid pay.destAccountID) ∧
    ∀ s : RailState, Reaches queries (body rt) (MarksMatch fun _ ↦ True) start s →
      ∀ pay house tx row, s.db.settlement tx = some row → net row.status = 1 →
        s.db.payment row.paymentID = some pay → pay.status = .canceled →
        Clears s.db pay.asset house → house ≠ pay.destAccountID →
        pay.amount.toInt ≤ otherFunds s.db row.paymentID pay.destAccountID := by
  constructor
  · intro s h pid pay house hpay hcanceled hclears hhouse
    obtain ⟨hsound, hbooks⟩ := books_serial hstart (serial h)
    exact covered_of_canceled hsound (hbooks pid) hpay hcanceled hclears hhouse
  · intro s h pay house tx row hrow hcleared hpay hcanceled hclears hhouse
    obtain ⟨hsound, hbooks⟩ := books_serial hstart (serial h)
    have hcovered := covered_of_canceled hsound (hbooks row.paymentID) hpay hcanceled hclears hhouse
    have hnet := one_le_netSettled (rowsTell_serial hstart (serial h)) hrow hcleared
    have hamount := ((hbooks row.paymentID).positive pay hpay).le
    calc pay.amount.toInt = pay.amount.toInt * 1 := (mul_one _).symm
      _ ≤ pay.amount.toInt * netSettled s.db row.paymentID := mul_le_mul_of_nonneg_left hnet hamount
      _ ≤ otherFunds s.db row.paymentID pay.destAccountID := hcovered

end Runs

/-! ### A payment refunded and cleared -/

/-- The sample accounts before the first payment. -/
def openingDb : Db where
  accounts := sampleDb.accounts
  journalEntries := [⟨10, "opening", "customer", "USDC"⟩, ⟨11, "opening", "merchant", "USDC"⟩]
  entryLines := [⟨10, 1, .credit, 200⟩, ⟨11, 2, .credit, 100⟩]
  payments := []
  settlements := []
  outbox := []
  auditLog := []

theorem opening_openingDb : Opening openingDb where
  sound :=
    { linked := by
        unfold Db.Linked
        decide
      nonneg := by
        intro accountID
        have hlines : ∀ line ∈ openingDb.entryLines, 0 ≤ line.signed := by decide
        refine List.sum_nonneg fun amount hamount ↦ ?_
        obtain ⟨line, hline, rfl⟩ := List.mem_map.mp hamount
        exact hlines line (List.mem_filter.mp hline).1 }
  payments := rfl
  settlements := rfl
  kinds := by
    intro je hje role
    cases role <;> revert je hje <;> decide

/-- The tables after a schedule of calls on the opening ledger. -/
def openingRun (actions : List (Action Call Ambient)) : Option RailState :=
  schedule queries (body sampleRuntime) (State.idle openingDb) actions

/-- A payment of 100 that is linked, confirmed and then canceled. -/
def settledThenCanceled : List (Action Call Ambient) :=
  serve (.create ⟨1, 2, "USDC", 100⟩) 100 15 ++ serve (.link 100 "0xaa") 200 1 ++
    serve (.onStatus ⟨"0xaa", .confirmed, "0xb1", 7, 12⟩) 300 17 ++ serve (.cancel 100) 400 15

/-- Nothing keeps a settled payment from being canceled: the destination pays its amount twice. -/
theorem canceled_while_settled :
    (openingRun settledThenCanceled).map (fun s ↦ ((s.db.payment 100).map Payment.status,
      (s.db.settlement "0xaa").map fun row ↦ (row.paymentID, row.status))) =
      some (some .canceled, some (100, .settled)) ∧
    (openingRun settledThenCanceled).map (fun s ↦ (s.db.balance 1, s.db.balance 2, s.db.balance 3)) =
      some (200, 0, 100) := by
  decide +kernel

/-- The destination of the sample payment had the second amount from elsewhere. -/
theorem canceled_settlement_covered_sample :
    ∃ s pay row, openingRun settledThenCanceled = some s ∧ s.db.settlement "0xaa" = some row ∧
      net row.status = 1 ∧ s.db.payment row.paymentID = some pay ∧ pay.status = .canceled ∧
      pay.amount.toInt ≤ otherFunds s.db row.paymentID pay.destAccountID := by
  have hstate : (openingRun settledThenCanceled).map (fun s ↦
      ((s.db.settlement "0xaa").map fun row ↦ (row.paymentID, net row.status),
        (s.db.payment 100).map fun pay ↦ (pay.status, pay.asset, pay.destAccountID),
        (s.db.accountByNameAndAsset houseAccountName "USDC").map Account.id)) =
      some (some (100, 1), some (.canceled, "USDC", 2), some 3) := by decide +kernel
  obtain ⟨s, hs, hfacts⟩ := Option.map_eq_some_iff.mp hstate
  obtain ⟨hrows, hfacts⟩ := Prod.mk.inj hfacts
  obtain ⟨hpays, hhouse⟩ := Prod.mk.inj hfacts
  have hreaches : Reaches queries (body sampleRuntime) (MarksMatch fun _ ↦ True) openingDb s :=
    reaches_of_schedule .idle hs (by decide +kernel)
  obtain ⟨row, hrow, hnet⟩ := Option.map_eq_some_iff.mp hrows
  obtain ⟨pay, hpay, hcolumns⟩ := Option.map_eq_some_iff.mp hpays
  obtain ⟨house, hfound, hid⟩ := Option.map_eq_some_iff.mp hhouse
  obtain ⟨hpid, hnet⟩ := Prod.mk.inj hnet
  obtain ⟨hstatus, hcolumns⟩ := Prod.mk.inj hcolumns
  obtain ⟨hasset, hdest⟩ := Prod.mk.inj hcolumns
  have hclears : Clears s.db pay.asset 3 := by
    intro account haccount
    rw [hasset, hfound] at haccount
    rw [← Option.some.inj haccount, hid]
  rw [← hpid] at hpay
  exact ⟨s, pay, row, hs, hrow, hnet, hpay, hstatus, (canceled_settlement_covered
    opening_openingDb).2 s hreaches pay 3 "0xaa" row hrow hnet hpay hstatus hclears
    (by rw [hdest]; decide)⟩

end PaymentRail.Rail
