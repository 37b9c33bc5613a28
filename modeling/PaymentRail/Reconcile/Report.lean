import PaymentRail.Reconcile.Aggregate
import Mathlib.Algebra.Order.BigOperators.Group.List
import Mathlib.Data.List.Dedup

/-!
# The proof-of-reserves report

`internal/reconcile/report.go` and `reconcileReport` of `cmd/paymentrailctl/reconcile.go`: the
settlement sums, the on-chain balances of the treasuries and the user liabilities are put together in
one row per asset with a verdict.  The text form of the report and the log line are left out.

The liabilities in the report are the *negated* holdings of the accounts that are not the house.
The ledger keeps every balance at zero or more, so they are never positive, and the verdict compares
the treasuries with what the users would owe.  The report is right about an asset exactly if its
users hold nothing.
-/

namespace PaymentRail.Reconcile

open Table

/-- One treasury address's balance; `Actual` is a pointer. -/
structure AddressBalance where
  address : String
  actual : Option ℤ
  deriving DecidableEq

inductive Verdict where
  | ok
  | undercollateralized
  deriving DecidableEq

structure AssetReconciliation where
  asset : String
  addresses : List AddressBalance
  expectedFinalizedMinor : Int64
  confirmedPendingMinor : Int64
  actualOnChain : ℤ
  discrepancy : ℤ
  liabilitiesMinor : Int64
  verdict : Verdict
  deriving DecidableEq

structure Report where
  generatedAt : Time
  assets : List AssetReconciliation
  clean : Bool
  deriving DecidableEq

/-- A row of the treasury manifest. -/
structure TreasuryEntry where
  address : String
  asset : String
  token : String
  deriving DecidableEq

structure Registry where
  entries : List TreasuryEntry
  deriving DecidableEq

abbrev Actuals := List (String × List AddressBalance)

abbrev Liabilities := List (String × Int64)

/-- `actuals[asset]`, nil for a missing key. -/
def Actuals.get (actuals : Actuals) (asset : String) : List AddressBalance :=
  (valueAt actuals asset).getD []

/-- The summed balance of some addresses. -/
def sumActual (addrs : List AddressBalance) : ℤ := (addrs.map fun ab ↦ ab.actual.getD 0).sum

/-- The row of one asset in `BuildReport`. -/
def reconcileAsset (sums : Sums) (liabilities : Liabilities) (actuals : Actuals) (asset : String) :
    AssetReconciliation :=
  let s := sums.get asset
  let liab := (valueAt liabilities asset).getD 0
  let addrs := actuals.get asset
  let actual := sumActual addrs
  { asset := asset
    addresses := addrs
    expectedFinalizedMinor := s.finalizedMinor
    confirmedPendingMinor := s.confirmedMinor
    actualOnChain := actual
    discrepancy := actual - (s.finalizedMinor.toInt + s.confirmedMinor.toInt)
    liabilitiesMinor := liab
    verdict := if actual < liab.toInt then .undercollateralized else .ok }

/-- The sorted union of the keys. -/
def unionKeys (sums : Sums) (liabilities : Liabilities) (actuals : Actuals) : List String :=
  (sums.map Prod.fst ++ liabilities.map Prod.fst ++ actuals.map Prod.fst).dedup.insertionSort
    (· ≤ ·)

def buildReport (now : Time) (sums : Sums) (liabilities : Liabilities) (actuals : Actuals) :
    Report :=
  let rows := (unionKeys sums liabilities actuals).map (reconcileAsset sums liabilities actuals)
  { generatedAt := now
    assets := rows
    clean := rows.all fun row ↦ row.discrepancy = 0 ∧ row.verdict = .ok }

/-- `chain.BalanceReader`: the balance of an address in a token, or a failure. -/
abbrev BalanceReader := (token address : String) → Except Err ℤ

/-- The loop over the registry in `reconcileReport`. -/
def readBalances (br : BalanceReader) : List TreasuryEntry → Actuals → Except Err Actuals
  | [], actuals => .ok actuals
  | e :: rest, actuals =>
    match br e.token e.address with
    | .error err => .error (err.wrap ("read on-chain balance for asset " ++ e.asset))
    | .ok bal =>
      readBalances br rest (setAt actuals e.asset (actuals.get e.asset ++ [⟨e.address, some bal⟩]))

/-- The loop over the assets.  Go visits the map in no fixed order, which shows only in the asset
that a failure names. -/
def sumLiabilities (q : Querier) : List String → Liabilities → Except Err Liabilities
  | [], liabilities => .ok liabilities
  | asset :: rest, liabilities =>
    match q.sumNonHouseLiabilities asset with
    | .error err => .error (err.wrap ("sum liabilities for asset " ++ asset))
    | .ok sum => sumLiabilities q rest (setAt liabilities asset (-sum))

def reconcileReport (fuel : ℕ) (q : Querier) (br : BalanceReader) (reg : Registry) (pageSize : ℕ)
    (now : Time) : Option (Except Err Report) :=
  match aggregateSettlements fuel q pageSize with
  | none => none
  | some (.error err) => some (.error (err.wrap "aggregate settlements"))
  | some (.ok sums) =>
    match readBalances br reg.entries [] with
    | .error err => some (.error err)
    | .ok actuals =>
      match sumLiabilities q (actuals.map Prod.fst) [] with
      | .error err => some (.error err)
      | .ok liabilities => some (.ok (buildReport now sums liabilities actuals))

def reconcilePageSize : ℕ := 1000

/-- The exit code of the command for a report: 0 clean, 1 otherwise. -/
def reconcileExitCode (clean : Bool) : ℕ := if clean then 0 else 1

/-- What the chain says the treasuries of an asset hold. -/
def Registry.onChain (reg : Registry) (br : BalanceReader) (asset : String) : ℤ :=
  ((reg.entries.filter fun e ↦ e.asset = asset).map fun e ↦
    ((br e.token e.address).toOption.getD 0)).sum

section Balances

variable {br : BalanceReader} {entries : List TreasuryEntry} {start actuals : Actuals}

theorem sumActual_append (addrs : List AddressBalance) (ab : AddressBalance) :
    sumActual (addrs ++ [ab]) = sumActual addrs + ab.actual.getD 0 := by
  simp [sumActual]

theorem sumActual_readBalances (h : readBalances br entries start = .ok actuals) (asset : String) :
    sumActual (actuals.get asset) = sumActual (start.get asset) +
      ((entries.filter fun e ↦ e.asset = asset).map fun e ↦
        ((br e.token e.address).toOption.getD 0)).sum := by
  induction entries generalizing start with
  | nil =>
    cases h
    simp
  | cons e rest ih =>
    rw [readBalances] at h
    cases hbal : br e.token e.address with
    | error err =>
      rw [hbal] at h
      cases h
    | ok bal =>
      rw [hbal] at h
      rw [ih h, List.filter_cons]
      by_cases hasset : e.asset = asset
      · subst hasset
        simp [Actuals.get, valueAt_setAt_self, sumActual_append, hbal, Except.toOption, add_assoc]
      · simp [Actuals.get, valueAt_setAt_of_ne _ (Ne.symm hasset), hasset]

/-- Every registry asset gets a key. -/
theorem mem_keys_readBalances (h : readBalances br entries start = .ok actuals) {asset : String}
    (hasset : asset ∈ start.map Prod.fst ∨ asset ∈ entries.map TreasuryEntry.asset) :
    asset ∈ actuals.map Prod.fst := by
  induction entries generalizing start with
  | nil =>
    cases h
    simpa using hasset
  | cons e rest ih =>
    rw [readBalances] at h
    cases hbal : br e.token e.address with
    | error err =>
      rw [hbal] at h
      cases h
    | ok bal =>
      rw [hbal] at h
      refine ih h ?_
      rw [← isSome_valueAt_iff] at hasset ⊢
      by_cases heq : asset = e.asset
      · subst heq
        exact .inl (by rw [valueAt_setAt_self]; rfl)
      · rw [valueAt_setAt_of_ne _ heq]
        simpa [heq] using hasset

end Balances

section Liabilities

variable {q : Querier} {assets : List String} {start liabilities : Liabilities}

theorem sumLiabilities_of_notMem (h : sumLiabilities q assets start = .ok liabilities)
    {asset : String} (hasset : asset ∉ assets) :
    valueAt liabilities asset = valueAt start asset := by
  induction assets generalizing start with
  | nil => cases h; rfl
  | cons first rest ih =>
    obtain ⟨hne, hrest⟩ : asset ≠ first ∧ asset ∉ rest := by simpa using hasset
    rw [sumLiabilities] at h
    cases hsum : q.sumNonHouseLiabilities first with
    | error err =>
      rw [hsum] at h
      cases h
    | ok sum =>
      rw [hsum] at h
      rw [ih h hrest, valueAt_setAt_of_ne _ hne]

theorem sumLiabilities_of_mem (h : sumLiabilities q assets start = .ok liabilities)
    {asset : String} (hasset : asset ∈ assets) :
    ∃ sum, q.sumNonHouseLiabilities asset = .ok sum ∧ valueAt liabilities asset = some (-sum) := by
  induction assets generalizing start with
  | nil => cases hasset
  | cons first rest ih =>
    rw [sumLiabilities] at h
    cases hsum : q.sumNonHouseLiabilities first with
    | error err =>
      rw [hsum] at h
      cases h
    | ok sum =>
      rw [hsum] at h
      by_cases hrest : asset ∈ rest
      · exact ih h hrest
      · obtain rfl : asset = first := by simpa [hrest] using hasset
        exact ⟨sum, hsum, by rw [sumLiabilities_of_notMem h hrest, valueAt_setAt_self]⟩

/-- The figure of a registry asset is the negated sum over the ledger. -/
theorem liabilities_eq_neg {db : Db} (hq : q.Serves db)
    (h : sumLiabilities q assets start = .ok liabilities) {asset : String} (hasset : asset ∈ assets)
    (hnonneg : 0 ≤ db.nonHouseHoldings asset) :
    ((valueAt liabilities asset).getD 0).toInt = -db.nonHouseHoldings asset := by
  obtain ⟨sum, hsum, hvalue⟩ := sumLiabilities_of_mem h hasset
  have hserved := hq.liabilities _ _ hsum
  simp only [Querier.ofDb, Db.nonHouseSum_eq] at hserved
  split at hserved
  · next hrange =>
    obtain rfl := Except.ok.inj hserved
    have hexact : (Int64.ofInt (db.nonHouseHoldings asset)).toInt = db.nonHouseHoldings asset :=
      Int64.toInt_ofInt_of_le (by omega) (by omega)
    rw [hvalue, Option.getD_some, Int64.toInt_neg, hexact]
    exact Int.bmod_eq_of_le (by omega) (by omega)
  · cases hserved

end Liabilities

theorem nonHouseHoldings_nonneg {db : Db} (h : ∀ account ∈ db.accounts, 0 ≤ db.balance account.id)
    (asset : String) : 0 ≤ db.nonHouseHoldings asset := by
  refine List.sum_nonneg fun held hheld ↦ ?_
  obtain ⟨account, haccount, rfl⟩ := List.mem_map.mp hheld
  exact h account (List.mem_of_mem_filter haccount)

section Report

variable {now : Time} {sums : Sums} {liabilities : Liabilities} {actuals : Actuals}

theorem mem_buildReport {row : AssetReconciliation} :
    row ∈ (buildReport now sums liabilities actuals).assets ↔
      ∃ asset, (asset ∈ sums.map Prod.fst ∨ asset ∈ liabilities.map Prod.fst ∨
        asset ∈ actuals.map Prod.fst) ∧ reconcileAsset sums liabilities actuals asset = row := by
  simp only [buildReport, unionKeys, List.mem_map, List.mem_insertionSort, List.mem_dedup,
    List.mem_append, or_assoc]

theorem clean_iff :
    (buildReport now sums liabilities actuals).clean = true ↔
      ∀ row ∈ (buildReport now sums liabilities actuals).assets,
        row.discrepancy = 0 ∧ row.verdict = .ok := by
  simp [buildReport]

theorem verdict_ok_iff (asset : String) :
    (reconcileAsset sums liabilities actuals asset).verdict = .ok ↔
      ((valueAt liabilities asset).getD 0).toInt ≤ sumActual (actuals.get asset) := by
  simp only [reconcileAsset]
  split <;> simp <;> omega

end Report

/-- The command comes to an end, and a report it makes is built from what the queries and the node
answered. -/
theorem reconcileReport_spec {db : Db} {q : Querier} (hq : q.Serves db) (br : BalanceReader)
    (reg : Registry) (now : Time) {fuel : ℕ} (hfuel : db.reconcileRows.length < fuel) :
    ∃ result, reconcileReport fuel q br reg reconcilePageSize now = some result ∧
      ∀ report, result = .ok report → ∃ sums liabilities actuals,
        ((db.reconcileRows.map ReconcileRow.position).Nodup →
          sums = (ordered ReconcileRow.position db.reconcileRows).foldl accumulate []) ∧
        readBalances br reg.entries [] = .ok actuals ∧
        sumLiabilities q (actuals.map Prod.fst) [] = .ok liabilities ∧
        report = buildReport now sums liabilities actuals := by
  obtain ⟨summed, hsummed, hsums⟩ := aggregateSettlements_spec hq
    (by decide : 0 < reconcilePageSize) hfuel
  simp only [reconcileReport, hsummed]
  cases summed with
  | error err => exact ⟨_, rfl, by simp⟩
  | ok sums =>
    cases hactuals : readBalances br reg.entries [] with
    | error err => exact ⟨_, rfl, by simp⟩
    | ok actuals =>
      cases hliabilities : sumLiabilities q (actuals.map Prod.fst) [] with
      | error err => exact ⟨.error err, by simp only [hliabilities], by simp⟩
      | ok liabilities =>
        refine ⟨.ok (buildReport now sums liabilities actuals), by simp only [hliabilities], ?_⟩
        intro report hreport
        exact ⟨sums, liabilities, actuals, hsums sums rfl, rfl, hliabilities,
          (Except.ok.inj hreport).symm⟩

/-- A row that is right about the reserves of its asset: the liabilities are what the users hold,
the verdict says whether the treasuries cover that, and if they do not the report is not clean. -/
structure Sound (db : Db) (report : Report) (row : AssetReconciliation) : Prop where
  liabilities : row.liabilitiesMinor.toInt = db.nonHouseHoldings row.asset
  verdict : row.verdict = .ok ↔ db.nonHouseHoldings row.asset ≤ row.actualOnChain
  clean : row.actualOnChain < db.nonHouseHoldings row.asset → report.clean = false

section Sound

variable {db : Db} {q : Querier} {now : Time} {sums : Sums} {liabilities : Liabilities}
  {actuals : Actuals} {asset : String}

theorem sound_of_no_holdings (hliab : ((valueAt liabilities asset).getD 0).toInt = 0)
    (hrow : reconcileAsset sums liabilities actuals asset ∈
      (buildReport now sums liabilities actuals).assets)
    (hzero : db.nonHouseHoldings asset = 0) :
    Sound db (buildReport now sums liabilities actuals)
      (reconcileAsset sums liabilities actuals asset) := by
  have hverdict : (reconcileAsset sums liabilities actuals asset).verdict = .ok ↔
      ((valueAt liabilities asset).getD 0).toInt ≤ sumActual (actuals.get asset) :=
    verdict_ok_iff asset
  rw [hliab] at hverdict
  refine ⟨hliab.trans hzero.symm, ?_, fun hshort ↦ ?_⟩
  · exact hverdict.trans (by rw [← hzero]; rfl)
  · -- a negative sum of balances is the only way to be short of nothing
    rw [← Bool.not_eq_true, clean_iff]
    intro hclean
    have hok := hverdict.mp (hclean _ hrow).2
    exact absurd (lt_of_lt_of_eq hshort hzero) (not_lt.mpr hok)

theorem holdings_eq_zero_of_sound {report : Report} {row : AssetReconciliation}
    (h : Sound db report row) (hneg : row.liabilitiesMinor.toInt = -db.nonHouseHoldings row.asset) :
    db.nonHouseHoldings row.asset = 0 := by
  have hliab := h.liabilities
  omega

end Sound

/-- On every ledger without a negative balance the report is made, unless a query or a node call
fails, and its row of a registry asset is right exactly if the users of the asset hold nothing. -/
theorem report_sound_iff_no_holdings {db : Db} {q : Querier} (hq : q.Serves db)
    (hbalances : ∀ account ∈ db.accounts, 0 ≤ db.balance account.id) (br : BalanceReader)
    (reg : Registry) (now : Time) {fuel : ℕ} (hfuel : db.reconcileRows.length < fuel) :
    ∃ result, reconcileReport fuel q br reg reconcilePageSize now = some result ∧
      ∀ report, result = .ok report → ∀ asset ∈ reg.entries.map TreasuryEntry.asset,
        (∃ row ∈ report.assets, row.asset = asset) ∧
        ∀ row ∈ report.assets, row.asset = asset →
          row.actualOnChain = reg.onChain br asset ∧
          (Sound db report row ↔ db.nonHouseHoldings asset = 0) := by
  obtain ⟨result, hresult, hmade⟩ := reconcileReport_spec hq br reg now hfuel
  refine ⟨result, hresult, fun report hreport asset hasset ↦ ?_⟩
  obtain ⟨sums, liabilities, actuals, -, hactuals, hliabilities, rfl⟩ := hmade report hreport
  have hkey := mem_keys_readBalances hactuals (.inr hasset)
  have hrow : reconcileAsset sums liabilities actuals asset ∈
      (buildReport now sums liabilities actuals).assets :=
    mem_buildReport.mpr ⟨asset, .inr (.inr hkey), rfl⟩
  have hneg := liabilities_eq_neg hq hliabilities hkey (nonHouseHoldings_nonneg hbalances asset)
  refine ⟨⟨_, hrow, rfl⟩, fun row hmem hname ↦ ?_⟩
  obtain ⟨asset', -, rfl⟩ := mem_buildReport.mp hmem
  obtain rfl : asset' = asset := hname
  refine ⟨(sumActual_readBalances hactuals asset').trans (zero_add _), fun hsound ↦ ?_,
    fun hzero ↦ ?_⟩
  · exact holdings_eq_zero_of_sound hsound hneg
  · exact sound_of_no_holdings (by rw [hneg, hzero]; rfl) hrow hzero

/-- A ledger with a customer account and the house account, one of which was opened with 500. -/
def fundedDb (accountID : UUID) : Db where
  accounts := [⟨1, "alice", "customer", "USDC", "active"⟩,
    ⟨2, "onchain_settlement", "onchain_settlement", "USDC", "active"⟩]
  journalEntries := [⟨7, "opening", "genesis", "USDC"⟩]
  entryLines := [⟨7, accountID, .credit, 500⟩]
  payments := []
  settlements := []
  outbox := []
  auditLog := []

def sampleRegistry : Registry := ⟨[⟨"0xaa", "USDC", "0xcc"⟩]⟩

/-- Users hold 500, the treasury is empty, and the report is clean. -/
theorem empty_treasury_is_clean :
    (fundedDb 1).nonHouseHoldings "USDC" = 500 ∧
    (∀ account ∈ (fundedDb 1).accounts, 0 ≤ (fundedDb 1).balance account.id) ∧
    reconcileReport 1 (.ofDb (fundedDb 1)) (fun _ _ ↦ .ok 0) sampleRegistry reconcilePageSize 0 =
      some (.ok ⟨0, [⟨"USDC", [⟨"0xaa", some 0⟩], 0, 0, 0, 0, -500, .ok⟩], true⟩) := by
  decide +kernel

/-- Only the house holds money, and the report is right about it. -/
theorem report_sound_iff_no_holdings_sample :
    ∃ report row, reconcileReport 1 (.ofDb (fundedDb 2)) (fun _ _ ↦ .ok 500) sampleRegistry
        reconcilePageSize 0 = some (.ok report) ∧
      row ∈ report.assets ∧ row.asset = "USDC" ∧ Sound (fundedDb 2) report row := by
  have hbalances : ∀ account ∈ (fundedDb 2).accounts,
      0 ≤ (fundedDb 2).balance account.id := by decide +kernel
  have hmade : reconcileReport 1 (.ofDb (fundedDb 2)) (fun _ _ ↦ .ok 500) sampleRegistry
      reconcilePageSize 0 =
        some (.ok ⟨0, [⟨"USDC", [⟨"0xaa", some 500⟩], 0, 0, 500, 500, 0, .ok⟩], false⟩) := by
    decide +kernel
  obtain ⟨result, hresult, hsound⟩ := report_sound_iff_no_holdings (Querier.serves_ofDb _) hbalances
    (fun _ _ ↦ .ok 500) sampleRegistry 0 (by decide : (fundedDb 2).reconcileRows.length < 1)
  obtain rfl := Option.some.inj (hmade.symm.trans hresult)
  obtain ⟨⟨row, hrow, hname⟩, hrows⟩ := hsound _ rfl "USDC" (by decide)
  exact ⟨_, row, hmade, hrow, hname, (hrows row hrow hname).2.mpr (by decide +kernel)⟩

end PaymentRail.Reconcile
