import PaymentRail.Rail.Accounts
import PaymentRail.Rail.Conservation
import PaymentRail.Reconcile.Aggregate

/-!
# What the clearing accounts gain

The reconciliation job compares the treasuries with the amounts of the settled and finalized rows.  In
every committed state in which the guarded `UPDATE`s match, those amounts are what the clearing account of
the asset has gained since the start, as long as no payment is made from or to a clearing account
directly (`settlementTotal_eq_houseGain`).  So the sums are never negative, and they are 64-bit integers
because the balance is one.
-/

namespace PaymentRail.Rail

open Transaction Ledger Chain Sink Payments Reconcile

/-- What the clearing account of an asset has gained, if there is one. -/
def houseGain (start db : Db) (asset : String) : ℤ :=
  (start.accountByNameAndAsset houseAccountName asset).elim 0 fun house ↦
    db.balance house.id - start.balance house.id

/-- No payment is made from or to a clearing account. -/
def HouseApart (start db : Db) : Prop :=
  ∀ asset house, start.accountByNameAndAsset houseAccountName asset = some house →
    ∀ pay ∈ db.payments, house.id ≠ pay.sourceAccountID ∧ house.id ≠ pay.destAccountID

section Rows

variable {db : Db}

/-- The amount of a payment in an asset. -/
def amountIn (asset : String) (pay : Payment) : ℤ := if pay.asset = asset then pay.amount.toInt else 0

/-- The settled and the finalized rows together count every payment as often as it was settled on
balance. -/
theorem settlementTotal_add (hkeys : (db.payments.map Payment.id).Nodup) (asset : String) :
    settlementTotal db .settled asset + settlementTotal db .finalized asset =
      (db.payments.map fun pay ↦ netRows db pay.id * amountIn asset pay).sum := by
  have hrows : ∀ row : Settlement,
      ((if row.status = .settled then (db.payment row.paymentID).elim 0 (amountIn asset) else 0) +
        if row.status = .finalized then (db.payment row.paymentID).elim 0 (amountIn asset) else 0) =
      net row.status * (db.payment row.paymentID).elim 0 (amountIn asset) := by
    intro row
    cases row.status <;> simp [net]
  calc settlementTotal db .settled asset + settlementTotal db .finalized asset
      = (db.settlements.map fun row ↦
          net row.status * (db.payment row.paymentID).elim 0 (amountIn asset)).sum := by
        rw [settlementTotal, settlementTotal, Table.sum_filter, Table.sum_filter, ← List.sum_map_add]
        exact congrArg List.sum (List.map_congr_left fun row _ ↦ hrows row)
    _ = _ := Table.sum_map_lookup hkeys db.settlements _ _ _

end Rows

section Steps

variable {call : Call} {start db db' : Db} {role : Role} {pid : UUID} {pay : Payment} {house : Account}
  {blockHash : String} {je : JournalEntry}

theorem asset_of_clearing {asset : String}
    (h : start.accountByNameAndAsset houseAccountName asset = some house) : house.asset = asset := by
  have hfound := List.find?_some h
  simp only [decide_eq_true_eq] at hfound
  exact hfound.2

/-- Payments in an asset without a clearing account were never settled. -/
def Unsettled (start db : Db) : Prop :=
  ∀ pid pay, db.payment pid = some pay →
    start.accountByNameAndAsset houseAccountName pay.asset = none → netSettled db pid = 0

theorem Unsettled.posted (h : Unsettled start db) (hbooks : Books db pid)
    (haccounts : db.accounts = start.accounts)
    (hposted : Posted call db db' role pid pay house blockHash je) : Unsettled start db' := by
  have hnet (pid' : UUID) : netSettled db' pid' = netSettled db pid' +
      if pid' = pid then role.sign else 0 := by
    rw [netSettled_congr hposted.journal]
    exact netSettled_postEntry hposted.posting pid'
  intro pid' pay' hpay' hnone
  by_cases hpid : pid' = pid
  · subst hpid
    rw [hposted.after, Option.some.injEq] at hpay'
    subst hpay'
    rw [hnet, if_pos rfl]
    cases role with
    | payment =>
      have hentries := hbooks.unknown hposted.before
      simp [netSettled, hentries, Role.sign]
    | refund => simpa [Role.sign] using h pid' pay hposted.before hnone
    | settle =>
      have hclearing := hposted.clearing (.inl rfl)
      rw [Db.accountByNameAndAsset, haccounts] at hclearing
      exact absurd (hclearing.symm.trans hnone) (by simp)
    | reverse =>
      have hclearing := hposted.clearing (.inr rfl)
      rw [Db.accountByNameAndAsset, haccounts] at hclearing
      exact absurd (hclearing.symm.trans hnone) (by simp)
  · rw [hposted.others pid' hpid] at hpay'
    rw [hnet, if_neg hpid, add_zero]
    exact h pid' pay' hpay' hnone

theorem Unsettled.unposted (h : Unsettled start db) (hunposted : Unposted db db') :
    Unsettled start db' := by
  intro pid pay hpay
  rw [Db.payment, hunposted.payments] at hpay
  rw [netSettled_congr hunposted.journal]
  exact h pid pay hpay

/-- What a payment moves to a clearing account is what its settlements in that asset do. -/
theorem owed_house {asset : String} (hids : (start.accounts.map Account.id).Nodup)
    (hkeys : (db.payments.map Payment.id).Nodup) (hunsettled : Unsettled start db)
    (hhouse : start.accountByNameAndAsset houseAccountName asset = some house)
    (hpay : pay ∈ db.payments)
    (hapart : house.id ≠ pay.sourceAccountID ∧ house.id ≠ pay.destAccountID) :
    owed (houseID start) (netSettled db) house.id pay = netSettled db pay.id * amountIn asset pay := by
  have hmoved : moved pay.amount pay.sourceAccountID pay.destAccountID house.id = 0 := by
    rw [moved, if_neg hapart.1, if_neg hapart.2, sub_zero]
  have hcleared : moved pay.amount pay.destAccountID (houseID start pay.asset) house.id =
      if house.id = houseID start pay.asset then pay.amount.toInt else 0 := by
    rw [moved, if_neg hapart.2, sub_zero]
  rw [owed, hmoved, ite_self, zero_add, hcleared, amountIn]
  by_cases hasset : pay.asset = asset
  · have hid : house.id = houseID start pay.asset := by
      rw [houseID, hasset, hhouse]
      rfl
    rw [if_pos hasset, if_pos hid]
  · rw [if_neg hasset, mul_zero]
    -- another asset clears on another account, or never
    cases hother : start.accountByNameAndAsset houseAccountName pay.asset with
    | none =>
      have hlookup : db.payment pay.id = some pay := Table.lookup_of_mem hkeys hpay
      rw [hunsettled pay.id pay hlookup hother, zero_mul]
    | some other =>
      have hne : house.id ≠ other.id := by
        intro heq
        have hsame := List.inj_on_of_nodup_map hids (List.mem_of_find?_eq_some hhouse)
          (List.mem_of_find?_eq_some hother) heq
        exact hasset ((asset_of_clearing hother).symm.trans (hsame ▸ asset_of_clearing hhouse))
      have hid : houseID start pay.asset = other.id := by
        rw [houseID, hother]
        rfl
      rw [hid, if_neg hne, mul_zero]

end Steps

section Runs

variable {rt : Audit.Runtime} {start db : Db} {history : List (Commit Write Call Result)}

theorem unsettled_serial {allowed : Stmt → Ambient → Db → Prop} (hstart : Opening start)
    (h : Serial queries (fun call _ writes db ↦ Committed rt allowed db call writes) start history
      db) : Unsettled start db := by
  induction h with
  | nil =>
    intro pid pay hpay
    rw [Db.payment, hstart.payments] at hpay
    cases hpay
  | cons commit hserial hcommit ih =>
    rcases hcommit.posted with hunposted | ⟨role, pid, pay, house, blockHash, je, hposted⟩
    · exact ih.unposted hunposted
    · exact ih.posted ((books_serial hstart hserial).2 pid) (accounted_serial hstart hserial).accounts
        hposted

/-- The amounts of the settled and finalized rows of an asset are what its clearing account gained. -/
theorem settlementTotal_eq_houseGain (hstart : Opening start)
    (hids : (start.accounts.map Account.id).Nodup)
    (h : Serial queries (fun call _ writes db ↦
      Committed rt (MarksMatch fun _ ↦ True) db call writes) start history db)
    (hapart : HouseApart start db) (asset : String) :
    settlementTotal db .settled asset + settlementTotal db .finalized asset =
      houseGain start db asset := by
  have haccounted := accounted_serial hstart h
  have hunsettled := unsettled_serial hstart h
  have hrows : netRows db = netSettled db := funext (rowsTell_serial hstart h).sum
  rw [settlementTotal_add haccounted.keys, hrows, houseGain]
  cases hhouse : start.accountByNameAndAsset houseAccountName asset with
  | none =>
    apply List.sum_eq_zero
    intro term hterm
    obtain ⟨pay, hpay, rfl⟩ := List.mem_map.mp hterm
    rw [amountIn]
    split
    · next hasset =>
      have hlookup : db.payment pay.id = some pay := Table.lookup_of_mem haccounted.keys hpay
      rw [hunsettled pay.id pay hlookup (hasset ▸ hhouse), zero_mul]
    · rw [mul_zero]
  | some house =>
    rw [Option.elim_some, haccounted.balances house.id, add_sub_cancel_left]
    apply congrArg List.sum
    apply List.map_congr_left
    intro pay hpay
    exact (owed_house hids haccounted.keys hunsettled hhouse hpay
      (hapart asset house hhouse pay hpay)).symm

theorem settlementTotal_nonneg (hbooks : ∀ pid, Books db pid) (status : SettlementStatus)
    (asset : String) : 0 ≤ settlementTotal db status asset := by
  apply List.sum_nonneg
  intro term hterm
  obtain ⟨row, -, rfl⟩ := List.mem_map.mp hterm
  cases hpay : db.payment row.paymentID with
  | none => exact le_rfl
  | some pay =>
    have hpositive := (hbooks row.paymentID).positive pay hpay
    simp only [Option.elim_some]
    split
    · exact hpositive.le
    · exact le_rfl

end Runs

end PaymentRail.Rail
