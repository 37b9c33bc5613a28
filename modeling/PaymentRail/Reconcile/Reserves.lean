import PaymentRail.Rail.House
import PaymentRail.Reconcile.Report

/-!
# What a clean report says

The reconciliation job expects the treasuries of an asset to hold the amounts of its settled and finalized
rows.  In a run of the rail those are what the clearing account of the asset has gained, which is never
negative and always a 64-bit integer, and the liabilities of the report are never positive.  So the verdict
of a report without a discrepancy is always `ok`, and the command exits with 0 exactly if the treasuries of
every asset hold what its clearing account has gained since the first payment
(`exits_clean_iff_treasuries_match`).
-/

namespace PaymentRail.Reconcile

open Transaction Ledger Sink Rail Table

section Rows

variable {sums : Sums} {liabilities : Liabilities} {actuals : Actuals} {asset : String} {now : Time}
  {br : BalanceReader} {reg : Registry}

/-- What the report says of an asset that it does not list. -/
theorem discrepancy_of_notMem (hsums : asset ∉ sums.map Prod.fst)
    (hactuals : asset ∉ actuals.map Prod.fst) :
    (reconcileAsset sums liabilities actuals asset).discrepancy = 0 := by
  have hnone : valueAt sums asset = none := by
    rw [← Option.not_isSome_iff_eq_none, isSome_valueAt_iff]
    exact hsums
  have hnone' : valueAt actuals asset = none := by
    rw [← Option.not_isSome_iff_eq_none, isSome_valueAt_iff]
    exact hactuals
  rw [reconcileAsset, Sums.get, Actuals.get, hnone, hnone']
  rfl

theorem clean_iff_forall (hliabilities : ∀ asset, ((valueAt liabilities asset).getD 0).toInt ≤ 0)
    (hexpected : ∀ asset,
      0 ≤ (sums.get asset).finalizedMinor.toInt + (sums.get asset).confirmedMinor.toInt) :
    (buildReport now sums liabilities actuals).clean = true ↔
      ∀ asset, (reconcileAsset sums liabilities actuals asset).discrepancy = 0 := by
  rw [clean_iff]
  constructor
  · intro hclean asset
    by_cases hkey : asset ∈ sums.map Prod.fst ∨ asset ∈ actuals.map Prod.fst
    · have hlisted : asset ∈ sums.map Prod.fst ∨ asset ∈ liabilities.map Prod.fst ∨
          asset ∈ actuals.map Prod.fst := hkey.imp_right .inr
      exact (hclean _ (mem_buildReport.mpr ⟨asset, hlisted, rfl⟩)).1
    · rw [not_or] at hkey
      exact discrepancy_of_notMem hkey.1 hkey.2
  · intro hzero row hrow
    obtain ⟨asset, -, rfl⟩ := mem_buildReport.mp hrow
    refine ⟨hzero asset, (verdict_ok_iff asset).mpr ?_⟩
    -- without a discrepancy the treasuries hold at least nothing
    have hactual := sub_eq_zero.mp (hzero asset)
    calc ((valueAt liabilities asset).getD 0).toInt
        ≤ 0 := hliabilities asset
      _ ≤ _ := hexpected asset
      _ = sumActual (actuals.get asset) := hactual.symm

theorem liabilities_nonpos {db : Db} {q : Querier} (hq : q.Serves db)
    (h : sumLiabilities q (actuals.map Prod.fst) [] = .ok liabilities)
    (hbalances : ∀ account ∈ db.accounts, 0 ≤ db.balance account.id) (asset : String) :
    ((valueAt liabilities asset).getD 0).toInt ≤ 0 := by
  have hnonneg := nonHouseHoldings_nonneg hbalances asset
  by_cases hasset : asset ∈ actuals.map Prod.fst
  · rw [liabilities_eq_neg hq h hasset hnonneg]
    exact neg_nonpos.mpr hnonneg
  · rw [sumLiabilities_of_notMem h hasset]
    exact le_rfl

end Rows

/-! ### The runs of the rail -/

section Runs

variable {rt : Audit.Runtime} {start db : Db} {history : List (Commit Write Call Result)}

theorem houseGain_lt (hrange : ∀ id, 0 ≤ start.balance id) (hrange' : ∀ id, db.balance id < 2 ^ 63)
    (asset : String) : houseGain start db asset < 2 ^ 63 := by
  rw [houseGain]
  cases start.accountByNameAndAsset houseAccountName asset with
  | none => exact (by decide : (0 : ℤ) < 2 ^ 63)
  | some house => exact (sub_le_self _ (hrange house.id)).trans_lt (hrange' house.id)

/-- The sums of the job are what the clearing account gained: none of them wraps around. -/
theorem sums_eq_houseGain (hstart : Opening start) (hids : (start.accounts.map Account.id).Nodup)
    (hrange : ∀ id, 0 ≤ start.balance id ∧ start.balance id < 2 ^ 63)
    (h : Serial queries (fun call _ writes db ↦
      Committed rt (MarksMatch fun _ ↦ True) db call writes) start history db)
    (hapart : HouseApart start db) (asset : String) :
    let sums := (ordered ReconcileRow.position db.reconcileRows).foldl accumulate []
    (sums.get asset).finalizedMinor.toInt + (sums.get asset).confirmedMinor.toInt =
        houseGain start db asset ∧
      0 ≤ houseGain start db asset := by
  intro sums
  have hgain := settlementTotal_eq_houseGain hstart hids h hapart asset
  have hsettled := settlementTotal_nonneg (books_serial hstart h).2 .settled asset
  have hfinalized := settlementTotal_nonneg (books_serial hstart h).2 .finalized asset
  have hconserved := conserved_serial hids hrange h
  have hlt := houseGain_lt (fun id ↦ (hrange id).1) (fun id ↦ (hconserved.range id).2) asset
  have hexact := toInt_sums (accounted_serial hstart h).keys asset
  constructor
  · rw [hexact.1 (by omega) (by omega), hexact.2 (by omega) (by omega), add_comm]
    exact hgain
  · rw [← hgain]
    exact add_nonneg hsettled hfinalized

/-- On the tables of every run: the job comes to an end, a report expects of the treasuries of an asset
what its clearing account gained since the start, and the command exits with 0 exactly if they hold that,
for every asset. -/
theorem exits_clean_iff_treasuries_match (hstart : Opening start)
    (hids : (start.accounts.map Account.id).Nodup)
    (hrange : ∀ id, 0 ≤ start.balance id ∧ start.balance id < 2 ^ 63) {s : RailState}
    (h : Reaches queries (body rt) (MarksMatch fun _ ↦ True) start s) (hapart : HouseApart start s.db)
    (hsettlements : (s.db.settlements.map Settlement.id).Nodup) {q : Querier} (hq : q.Serves s.db)
    (br : BalanceReader) (reg : Registry) (now : Time) {fuel : ℕ}
    (hfuel : s.db.reconcileRows.length < fuel) :
    ∃ result, reconcileReport fuel q br reg reconcilePageSize now = some result ∧
      ∀ report, result = .ok report →
        (∀ row ∈ report.assets, row.expectedFinalizedMinor.toInt + row.confirmedPendingMinor.toInt =
          houseGain start s.db row.asset) ∧
        (reconcileExitCode report.clean = 0 ↔
          ∀ asset, reg.onChain br asset = houseGain start s.db asset) := by
  obtain ⟨result, hresult, hmade⟩ := reconcileReport_spec hq br reg now hfuel
  refine ⟨result, hresult, fun report hreport ↦ ?_⟩
  obtain ⟨sums, liabilities, actuals, hsums, hactuals, hliabilities, rfl⟩ := hmade report hreport
  have hkeys := (accounted_serial hstart (serial h)).keys
  obtain rfl := hsums (nodup_position hsettlements hkeys)
  have hgain := sums_eq_houseGain hstart hids hrange (serial h) hapart
  have hconserved := conserved_serial hids hrange (serial h)
  have hnonpos := liabilities_nonpos hq hliabilities fun account _ ↦ (hconserved.range account.id).1
  constructor
  · intro row hrow
    obtain ⟨asset, -, rfl⟩ := mem_buildReport.mp hrow
    exact (hgain asset).1
  · have hexit (clean : Bool) : reconcileExitCode clean = 0 ↔ clean = true := by
      cases clean <;> decide
    rw [hexit, clean_iff_forall hnonpos fun asset ↦ (hgain asset).1 ▸ (hgain asset).2]
    apply forall_congr'
    intro asset
    have hactual : sumActual (actuals.get asset) = reg.onChain br asset :=
      (sumActual_readBalances hactuals asset).trans (zero_add _)
    rw [← (hgain asset).1, ← hactual]
    exact sub_eq_zero

end Runs

/-- The sample payments are between the customer and the merchant. -/
theorem houseApart_openingDb {db : Db}
    (h : ∀ pay ∈ db.payments, pay.sourceAccountID = 1 ∧ pay.destAccountID = 2) :
    HouseApart openingDb db := by
  intro asset house hhouse pay hpay
  have hnamed : ∀ account ∈ openingDb.accounts, account.name = houseAccountName → account.id = 3 := by
    decide
  have hfound := List.find?_some hhouse
  simp only [decide_eq_true_eq] at hfound
  rw [hnamed house (List.mem_of_find?_eq_some hhouse) hfound.1, (h pay hpay).1, (h pay hpay).2]
  decide

/-- The sample payment is settled, and the job is content with its amount in the treasury. -/
theorem exits_clean_iff_treasuries_match_sample :
    ∃ s report, openingRun settledThenCanceled = some s ∧
      reconcileReport 2 (.ofDb s.db) (fun _ _ ↦ .ok 100) sampleRegistry reconcilePageSize 0 =
        some (.ok report) ∧
      reconcileExitCode report.clean = 0 ∧ houseGain openingDb s.db "USDC" = 100 ∧
      ∀ asset, sampleRegistry.onChain (fun _ _ ↦ .ok 100) asset = houseGain openingDb s.db asset := by
  have hrun : (openingRun settledThenCanceled).any (fun s ↦
      (∀ pay ∈ s.db.payments, pay.sourceAccountID = 1 ∧ pay.destAccountID = 2) ∧
      (s.db.settlements.map Settlement.id).Nodup ∧ s.db.reconcileRows.length < 2 ∧
      (reconcileReport 2 (.ofDb s.db) (fun _ _ ↦ .ok 100) sampleRegistry reconcilePageSize 0).map
        (fun result ↦ result.toOption.map Report.clean) = some (some true)) = true := by
    decide +kernel
  obtain ⟨s, hs, hstate⟩ := (Option.any_eq_true _ _).mp hrun
  obtain ⟨hpayments, hsettlements, hrows, hclean⟩ := of_decide_eq_true hstate
  have hreaches : Reaches queries (body sampleRuntime) (MarksMatch fun _ ↦ True) openingDb s :=
    reaches_of_schedule .idle hs (by decide +kernel)
  obtain ⟨result, hresult, hreport⟩ := exits_clean_iff_treasuries_match opening_openingDb (by decide)
    (inRange_of_lines (by decide) (by decide) (by decide)) hreaches (houseApart_openingDb hpayments)
    hsettlements (Querier.serves_ofDb s.db) (fun _ _ ↦ .ok 100) sampleRegistry 0 hrows
  rw [hresult] at hclean
  cases result with
  | error err => cases hclean
  | ok report =>
    have hexit : reconcileExitCode report.clean = 0 := by
      rw [show report.clean = true from Option.some.inj (Option.some.inj hclean)]
      rfl
    have hgain := (hreport report rfl).2.mp hexit
    exact ⟨s, report, hs, hresult, hexit, (hgain "USDC").symm, hgain⟩

end PaymentRail.Reconcile
