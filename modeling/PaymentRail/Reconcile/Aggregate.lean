import PaymentRail.Db.Queries
import PaymentRail.Table.Keyset
import Mathlib.Data.Prod.Lex

/-!
# Settlement sums of the reconciliation job

`internal/reconcile/aggregate.go`: the settlements that count towards the on-chain expectation are
read page by page in the order of `(created_at, id)` and summed per asset.  The queries of
`db/query/reconcile.sql` are answered from one state of the tables, and each of them may also fail.

The paging loop has no bound in the code; here it takes fuel.  It needs one more unit than there are
rows to read, whatever the page size as long as it is positive.
-/

namespace PaymentRail.Reconcile

/-- A row of the two settlement queries: a settlement with the asset and amount of its payment. -/
structure ReconcileRow where
  id : UUID
  createdAt : Time
  status : SettlementStatus
  asset : String
  amount : Int64
  deriving DecidableEq

/-- The position of a row in `ORDER BY s.created_at, s.id`. -/
def position (createdAt : Time) (id : UUID) : Time ×ₗ ℕ := toLex (createdAt, id.toNat)

def ReconcileRow.position (row : ReconcileRow) : Time ×ₗ ℕ :=
  Reconcile.position row.createdAt row.id

/-- The house account is told by its kind. -/
def NonHouse (asset : String) (account : Account) : Prop :=
  account.kind ≠ "onchain_settlement" ∧ account.asset = asset

instance (asset : String) (account : Account) : Decidable (NonHouse asset account) :=
  inferInstanceAs (Decidable (_ ∧ _))

end PaymentRail.Reconcile

namespace PaymentRail.Db

open Reconcile

/-- `settlements JOIN payments` for the settlements that are settled or finalized. -/
def reconcileRows (db : Db) : List ReconcileRow :=
  (db.settlements.filter fun row ↦ row.status = .settled ∨ row.status = .finalized).flatMap
    fun row ↦ (db.payments.filter fun payment ↦ payment.id = row.paymentID).map fun payment ↦
      ⟨row.id, row.createdAt, row.status, payment.asset, payment.amount⟩

/-- The sum in `SumNonHouseLiabilities`, over `entry_lines JOIN accounts`. -/
def nonHouseSum (db : Db) (asset : String) : ℤ :=
  (db.entryLines.flatMap fun line ↦
    (db.accounts.filter fun account ↦ account.id = line.accountID ∧ NonHouse asset account).map
      fun _ ↦ line.signed).sum

/-- What the accounts of an asset hold, apart from the house. -/
def nonHouseHoldings (db : Db) (asset : String) : ℤ :=
  ((db.accounts.filter fun account ↦ NonHouse asset account).map fun account ↦
    db.balance account.id).sum

/-- The join adds up the derived balances. -/
theorem nonHouseSum_eq (db : Db) (asset : String) :
    db.nonHouseSum asset = db.nonHouseHoldings asset := by
  have hjoin := Table.sum_join (fun (account : Account) (line : EntryLine) ↦
    line.accountID = account.id) db.entryLines (db.accounts.filter fun account ↦
      NonHouse asset account) EntryLine.signed
  rw [nonHouseHoldings]
  simp only [balance, linesOf]
  rw [← hjoin, nonHouseSum]
  simp only [List.filter_filter, Bool.decide_and, eq_comm]

end PaymentRail.Db

namespace PaymentRail.Reconcile

open Table

/-- `reconcileDBQuerier`: the queries behind the report. -/
structure Querier where
  listSettlementsForReconcileFirstPage : (limit : ℕ) → Except Err (List ReconcileRow)
  listSettlementsForReconcileAfter :
    (afterCreatedAt : Time) → (afterID : UUID) → (pageLimit : ℕ) → Except Err (List ReconcileRow)
  sumNonHouseLiabilities : (asset : String) → Except Err Int64

/-- The queries on one state of the tables. -/
def Querier.ofDb (db : Db) : Querier where
  listSettlementsForReconcileFirstPage limit :=
    .ok ((after ReconcileRow.position db.reconcileRows none).take limit)
  listSettlementsForReconcileAfter afterCreatedAt afterID pageLimit :=
    .ok ((after ReconcileRow.position db.reconcileRows
      (some (position afterCreatedAt afterID))).take pageLimit)
  sumNonHouseLiabilities asset :=
    if -2 ^ 63 ≤ db.nonHouseSum asset ∧ db.nonHouseSum asset < 2 ^ 63 then
      .ok (Int64.ofInt (db.nonHouseSum asset))
    else .error .bigint

/-- Every query is answered from the tables or fails. -/
structure Querier.Serves (q : Querier) (db : Db) : Prop where
  firstPage : ∀ limit page, q.listSettlementsForReconcileFirstPage limit = .ok page →
    (ofDb db).listSettlementsForReconcileFirstPage limit = .ok page
  after : ∀ createdAt id limit page,
    q.listSettlementsForReconcileAfter createdAt id limit = .ok page →
      (ofDb db).listSettlementsForReconcileAfter createdAt id limit = .ok page
  liabilities : ∀ asset total, q.sumNonHouseLiabilities asset = .ok total →
    (ofDb db).sumNonHouseLiabilities asset = .ok total

theorem Querier.serves_ofDb (db : Db) : (ofDb db).Serves db :=
  ⟨fun _ _ ↦ id, fun _ _ _ _ ↦ id, fun _ _ ↦ id⟩

structure AssetSums where
  finalizedMinor : Int64
  confirmedMinor : Int64
  deriving DecidableEq

/-- A Go map from assets to sums. -/
abbrev Sums := List (String × AssetSums)

/-- `sums[asset]`, zero for a missing key. -/
def Sums.get (sums : Sums) (asset : String) : AssetSums := (valueAt sums asset).getD ⟨0, 0⟩

def accumulate (sums : Sums) (row : ReconcileRow) : Sums :=
  let s := sums.get row.asset
  match row.status with
  | .finalized => setAt sums row.asset { s with finalizedMinor := s.finalizedMinor + row.amount }
  | .settled => setAt sums row.asset { s with confirmedMinor := s.confirmedMinor + row.amount }
  | .pending => sums
  | .reorged => sums

/-- The loop over the rows of a page, with the cursor it leaves behind. -/
def accumulatePage : List ReconcileRow → Sums → Time → UUID → Sums × Time × UUID
  | [], sums, cursorAt, cursorID => (sums, cursorAt, cursorID)
  | row :: rest, sums, _, _ => accumulatePage rest (accumulate sums row) row.createdAt row.id

/-- The loop of `AggregateSettlements`: read on as long as the last page was full. -/
def aggregatePages (q : Querier) (pageSize : ℕ) :
    ℕ → Sums × Time × UUID → ℕ → Option (Except Err Sums)
  | 0, _, _ => none
  | fuel + 1, (sums, cursorAt, cursorID), n =>
    if n = pageSize then
      match q.listSettlementsForReconcileAfter cursorAt cursorID pageSize with
      | .error err => some (.error err)
      | .ok page =>
        aggregatePages q pageSize fuel (accumulatePage page sums cursorAt cursorID) page.length
    else some (.ok sums)

/-- `AggregateSettlements`.  The cursor starts as the zero time and the nil id. -/
def aggregateSettlements (fuel : ℕ) (q : Querier) (pageSize : ℕ) : Option (Except Err Sums) :=
  match q.listSettlementsForReconcileFirstPage pageSize with
  | .error err => some (.error err)
  | .ok first => aggregatePages q pageSize fuel (accumulatePage first [] 0 0) first.length

theorem accumulatePage_eq (page : List ReconcileRow) (sums : Sums) (cursorAt : Time)
    (cursorID : UUID) :
    accumulatePage page sums cursorAt cursorID = (page.foldl accumulate sums,
      (page.getLast?.map fun row ↦ (row.createdAt, row.id)).getD (cursorAt, cursorID)) := by
  induction page generalizing sums cursorAt cursorID with
  | nil => rfl
  | cons row rest ih =>
    rw [accumulatePage, ih, List.foldl_cons, List.getLast?_cons]
    cases rest.getLast? <;> rfl

/-- A full page has a last row, and the cursor behind it is its position. -/
theorem exists_last_of_full {page : List ReconcileRow} {pageSize : ℕ} (hsize : 0 < pageSize)
    (hfull : page.length = pageSize) (sums : Sums) (cursorAt : Time) (cursorID : UUID) :
    ∃ row, page.getLast? = some row ∧ accumulatePage page sums cursorAt cursorID =
      (page.foldl accumulate sums, row.createdAt, row.id) := by
  have hne : page ≠ [] := by
    rintro rfl
    exact absurd hfull (Nat.ne_of_lt hsize)
  refine ⟨page.getLast hne, List.getLast?_eq_some_getLast hne, ?_⟩
  rw [accumulatePage_eq, List.getLast?_eq_some_getLast hne]
  rfl

section Paging

variable {q : Querier} {db : Db} {pageSize : ℕ}

/-- What is left to sum behind a page: after a full one the rows from its cursor on, after a short
one nothing. -/
theorem aggregatePages_spec (hq : q.Serves db) (hsize : 0 < pageSize) {fuel : ℕ} {page}
    {cursor : Option (Time ×ₗ ℕ)} {sums : Sums} {cursorAt : Time} {cursorID : UUID}
    (hpage : page = (after ReconcileRow.position db.reconcileRows cursor).take pageSize)
    (hfuel : (after ReconcileRow.position db.reconcileRows cursor).length < fuel) :
    ∃ result, aggregatePages q pageSize fuel (accumulatePage page sums cursorAt cursorID)
        page.length = some result ∧
      ∀ total, result = .ok total → (db.reconcileRows.map ReconcileRow.position).Nodup →
        total = (after ReconcileRow.position db.reconcileRows cursor).foldl accumulate sums := by
  induction fuel generalizing page cursor sums cursorAt cursorID with
  | zero => exact absurd hfuel (Nat.not_lt_zero _)
  | succ fuel ih =>
    by_cases hfull : page.length = pageSize
    · obtain ⟨row, hlast, hcursor⟩ := exists_last_of_full hsize hfull sums cursorAt cursorID
      rw [hcursor, aggregatePages, if_pos hfull]
      cases hnext : q.listSettlementsForReconcileAfter row.createdAt row.id pageSize with
      | error err => exact ⟨.error err, rfl, fun total htotal ↦ nomatch htotal⟩
      | ok next =>
        have hserved := hq.after _ _ _ _ hnext
        obtain rfl := Except.ok.inj hserved
        have hlast' : ((after ReconcileRow.position db.reconcileRows cursor).take
            pageSize).getLast? = some row := hpage ▸ hlast
        have hfewer := length_after_page_lt hlast'
        have hfuel' := Nat.lt_of_lt_of_le hfewer (Nat.le_of_lt_succ hfuel)
        obtain ⟨result, hresult, htotal⟩ := @ih _ (some row.position) (page.foldl accumulate sums)
          row.createdAt row.id rfl hfuel'
        refine ⟨result, hresult, fun total hok hnodup ↦ ?_⟩
        rw [htotal total hok hnodup, after_page_of_nodup hnodup hlast', ← List.foldl_append, hpage,
          List.take_append_drop]
    · rw [accumulatePage_eq, aggregatePages, if_neg hfull]
      refine ⟨_, rfl, fun total hok _ ↦ ?_⟩
      -- a short page is all that was left
      have hall : page = after ReconcileRow.position db.reconcileRows cursor := by
        rw [hpage] at hfull ⊢
        rw [List.length_take] at hfull
        exact List.take_of_length_le (by omega)
      rw [← Except.ok.inj hok, hall]

/-- The sums are found however the rows fall into pages, and a row is counted once. -/
theorem aggregateSettlements_spec (hq : q.Serves db) (hsize : 0 < pageSize) {fuel : ℕ}
    (hfuel : db.reconcileRows.length < fuel) :
    ∃ result, aggregateSettlements fuel q pageSize = some result ∧
      ∀ total, result = .ok total → (db.reconcileRows.map ReconcileRow.position).Nodup →
        total = (ordered ReconcileRow.position db.reconcileRows).foldl accumulate [] := by
  unfold aggregateSettlements
  cases hfirst : q.listSettlementsForReconcileFirstPage pageSize with
  | error err => exact ⟨.error err, rfl, fun total htotal ↦ nomatch htotal⟩
  | ok first =>
    obtain rfl := Except.ok.inj (hq.firstPage _ _ hfirst)
    exact aggregatePages_spec hq hsize rfl ((length_after_le _ _).trans_lt hfuel)

end Paging

/-! ### The sums -/

/-- What a row adds to the sum of a status and an asset. -/
def ReconcileRow.counted (status : SettlementStatus) (asset : String) (row : ReconcileRow) : ℤ :=
  if row.status = status ∧ row.asset = asset then row.amount.toInt else 0

/-- The exact sum of the payment amounts of the settlements with a status, in one asset. -/
def settlementTotal (db : Db) (status : SettlementStatus) (asset : String) : ℤ :=
  ((db.settlements.filter fun row ↦ row.status = status).map fun row ↦
    (db.payment row.paymentID).elim 0 fun payment ↦
      if payment.asset = asset then payment.amount.toInt else 0).sum

/-- One row goes to the sum of its status and asset. -/
theorem get_accumulate (sums : Sums) (row : ReconcileRow) (asset : String) :
    (accumulate sums row).get asset =
      ⟨(sums.get asset).finalizedMinor + Int64.ofInt (row.counted .finalized asset),
        (sums.get asset).confirmedMinor + Int64.ofInt (row.counted .settled asset)⟩ := by
  by_cases hasset : row.asset = asset
  · subst hasset
    cases hstatus : row.status <;>
      simp [accumulate, hstatus, Sums.get, valueAt_setAt_self, ReconcileRow.counted]
  · cases hstatus : row.status <;>
      simp [accumulate, hstatus, Sums.get, valueAt_setAt_of_ne _ (Ne.symm hasset), ReconcileRow.counted,
        hasset]

/-- The loop adds up what the rows count for. -/
theorem get_foldl_accumulate (rows : List ReconcileRow) (sums : Sums) (asset : String) :
    (rows.foldl accumulate sums).get asset =
      ⟨(sums.get asset).finalizedMinor + Int64.ofInt (rows.map (·.counted .finalized asset)).sum,
        (sums.get asset).confirmedMinor + Int64.ofInt (rows.map (·.counted .settled asset)).sum⟩ := by
  induction rows generalizing sums with
  | nil => simp
  | cons row rest ih =>
    rw [List.foldl_cons, ih, get_accumulate]
    simp only [List.map_cons, List.sum_cons, Int64.ofInt_add, Int64.add_assoc]

section Join

variable {db : Db}

/-- The row of a settlement in the join, if it counts and has its payment. -/
def joined (db : Db) (row : Settlement) : Option ReconcileRow :=
  if row.status = .settled ∨ row.status = .finalized then
    (db.payment row.paymentID).map fun payment ↦
      ⟨row.id, row.createdAt, row.status, payment.asset, payment.amount⟩
  else none

theorem reconcileRows_eq (hpayments : (db.payments.map Payment.id).Nodup) :
    db.reconcileRows = db.settlements.filterMap (joined db) := by
  have hjoin : ∀ row : Settlement, ((db.payments.filter fun payment ↦ payment.id = row.paymentID).map
      fun payment ↦ (⟨row.id, row.createdAt, row.status, payment.asset, payment.amount⟩ : ReconcileRow)) =
        ((db.payment row.paymentID).map fun payment ↦
          (⟨row.id, row.createdAt, row.status, payment.asset, payment.amount⟩ : ReconcileRow)).toList := by
    intro row
    rw [filter_eq_lookup hpayments]
    exact Option.toList_map.symm
  unfold Db.reconcileRows
  simp only [hjoin]
  rw [← List.filterMap_eq_flatMap_toList, List.filterMap_filter]
  exact List.filterMap_congr fun row _ ↦ by simp [joined]

/-- No two rows of the scan are at one position. -/
theorem nodup_position (hsettlements : (db.settlements.map Settlement.id).Nodup)
    (hpayments : (db.payments.map Payment.id).Nodup) :
    (db.reconcileRows.map ReconcileRow.position).Nodup := by
  have hid : ∀ row place, ((joined db row).map ReconcileRow.position) = some place →
      place = position row.createdAt row.id := by
    intro row place hplace
    unfold joined at hplace
    split at hplace
    · cases hpayment : db.payment row.paymentID with
      | none =>
        rw [hpayment] at hplace
        cases hplace
      | some payment =>
        rw [hpayment] at hplace
        exact (Option.some.inj hplace).symm
    · cases hplace
  have hids : db.settlements.Pairwise fun row row' ↦ row.id ≠ row'.id :=
    List.pairwise_map.mp hsettlements
  rw [reconcileRows_eq hpayments, List.map_filterMap]
  refine hids.filterMap _ fun row row' hne place hplace place' hplace' heq ↦ hne ?_
  rw [hid row place hplace, hid row' place' hplace'] at heq
  exact BitVec.eq_of_toNat_eq (Prod.mk.inj (toLex.injective heq)).2

/-- The rows of the scan count for what the settlements do. -/
theorem sum_counted (hpayments : (db.payments.map Payment.id).Nodup) {status : SettlementStatus}
    (hstatus : status = .settled ∨ status = .finalized) (asset : String) :
    (db.reconcileRows.map (·.counted status asset)).sum = settlementTotal db status asset := by
  rw [reconcileRows_eq hpayments, sum_filterMap, settlementTotal, sum_filter]
  refine congrArg List.sum (List.map_congr_left fun row _ ↦ ?_)
  by_cases hrow : row.status = status
  · have hcounts : row.status = .settled ∨ row.status = .finalized := hrow ▸ hstatus
    rw [if_pos hrow, joined, if_pos hcounts]
    cases db.payment row.paymentID with
    | none => rfl
    | some payment => simp [ReconcileRow.counted, hrow]
  · rw [if_neg hrow, joined]
    split
    · cases db.payment row.paymentID with
      | none => rfl
      | some payment => simp [ReconcileRow.counted, hrow]
    · rfl

/-- The sums over all rows, where they are 64-bit integers. -/
theorem toInt_sums (hpayments : (db.payments.map Payment.id).Nodup) (asset : String) :
    let sums := (ordered ReconcileRow.position db.reconcileRows).foldl accumulate []
    (-2 ^ 63 ≤ settlementTotal db .finalized asset → settlementTotal db .finalized asset < 2 ^ 63 →
      (sums.get asset).finalizedMinor.toInt = settlementTotal db .finalized asset) ∧
    (-2 ^ 63 ≤ settlementTotal db .settled asset → settlementTotal db .settled asset < 2 ^ 63 →
      (sums.get asset).confirmedMinor.toInt = settlementTotal db .settled asset) := by
  have htotal (status : SettlementStatus) (hstatus : status = .settled ∨ status = .finalized) :
      ((ordered ReconcileRow.position db.reconcileRows).map (·.counted status asset)).sum =
        settlementTotal db status asset := by
    rw [← sum_counted hpayments hstatus]
    exact ((List.perm_insertionSort _ _).map _).sum_eq
  have hexact (total : ℤ) (hmin : -2 ^ 63 ≤ total) (hmax : total < 2 ^ 63) :
      (0 + Int64.ofInt total).toInt = total := by
    rw [Int64.zero_add]
    exact Int64.toInt_ofInt_of_le hmin hmax
  intro sums
  have hget := get_foldl_accumulate (ordered ReconcileRow.position db.reconcileRows) [] asset
  rw [htotal .finalized (.inr rfl), htotal .settled (.inl rfl)] at hget
  rw [show sums.get asset = _ from hget]
  exact ⟨hexact _, hexact _⟩

end Join

/-- Queries that are answered do not make the loop fail. -/
theorem aggregatePages_ofDb {db : Db} {pageSize fuel n : ℕ} {acc : Sums × Time × UUID}
    {result : Except Err Sums} (h : aggregatePages (.ofDb db) pageSize fuel acc n = some result) :
    ∃ sums, result = .ok sums := by
  induction fuel generalizing acc n with
  | zero => cases h
  | succ fuel ih =>
    rw [aggregatePages] at h
    split at h
    · exact ih h
    · exact ⟨acc.1, (Option.some.inj h).symm⟩

/-- On tables that do not change, the scan ends with the exact sums of both statuses for every asset
whose sums are 64-bit integers, whatever the page size. -/
theorem aggregate_exact {db : Db} (hsettlements : (db.settlements.map Settlement.id).Nodup)
    (hpayments : (db.payments.map Payment.id).Nodup) {fuel : ℕ}
    (hfuel : db.reconcileRows.length < fuel) :
    ∃ sums, (∀ pageSize, 0 < pageSize →
        aggregateSettlements fuel (.ofDb db) pageSize = some (.ok sums)) ∧
      ∀ asset,
        (-2 ^ 63 ≤ settlementTotal db .finalized asset → settlementTotal db .finalized asset < 2 ^ 63 →
          (sums.get asset).finalizedMinor.toInt = settlementTotal db .finalized asset) ∧
        (-2 ^ 63 ≤ settlementTotal db .settled asset → settlementTotal db .settled asset < 2 ^ 63 →
          (sums.get asset).confirmedMinor.toInt = settlementTotal db .settled asset) := by
  refine ⟨_, fun pageSize hsize ↦ ?_, toInt_sums hpayments⟩
  obtain ⟨result, hresult, hsums⟩ := aggregateSettlements_spec (Querier.serves_ofDb db) hsize hfuel
  obtain ⟨sums, rfl⟩ := aggregatePages_ofDb hresult
  rw [hresult, hsums sums rfl (nodup_position hsettlements hpayments)]

/-- A finalized payment of 5 and a settled one of 7 at one instant, and one whose block was left. -/
def tiedDb : Db where
  accounts := []
  journalEntries := []
  entryLines := []
  payments := [⟨1, .completed, "USDC", 5, 1, 2, 7, none, 0⟩, ⟨2, .completed, "USDC", 7, 1, 2, 8, none, 0⟩,
    ⟨3, .completed, "USDC", 9, 1, 2, 9, none, 0⟩]
  settlements := [⟨4, 1, "0xa", .finalized, none, 3, none, none⟩,
    ⟨5, 2, "0xb", .settled, none, 3, none, none⟩, ⟨6, 3, "0xc", .reorged, none, 3, none, none⟩]
  outbox := []
  auditLog := []

theorem aggregate_exact_sample :
    ∃ sums, aggregateSettlements 3 (.ofDb tiedDb) 1 = some (.ok sums) ∧
      aggregateSettlements 3 (.ofDb tiedDb) 2 = some (.ok sums) ∧
      (sums.get "USDC").finalizedMinor.toInt = 5 ∧ (sums.get "USDC").confirmedMinor.toInt = 7 := by
  have hfinalized : settlementTotal tiedDb .finalized "USDC" = 5 := by decide +kernel
  have hsettled : settlementTotal tiedDb .settled "USDC" = 7 := by decide +kernel
  obtain ⟨sums, hpages, htotals⟩ := aggregate_exact (by decide : (tiedDb.settlements.map _).Nodup)
    (by decide : (tiedDb.payments.map _).Nodup)
    (by decide : tiedDb.reconcileRows.length < 3)
  have htotal := htotals "USDC"
  rw [hfinalized, hsettled] at htotal
  exact ⟨sums, hpages 1 (by decide), hpages 2 (by decide), htotal.1 (by decide) (by decide),
    htotal.2 (by decide) (by decide)⟩

end PaymentRail.Reconcile
