import PaymentRail.Rail.Cancellation

/-!
# What the rows say the accounts hold

No balance is stored, and the balances that the entry lines add up to can be told from the rows of
the payments alone: each account holds what it held at the start, plus the amount of every payment
that moved it and was not canceled, plus what the settlements of each payment moved on balance
(`owed`).  Where the guarded `UPDATE`s match, the settlements on balance are the settled and finalized
rows, and the balances are a function of the payment and settlement rows (`Rail.netRows`).

The ledger therefore refines a machine without a journal, which keeps rows and adds up amounts.
-/

namespace PaymentRail.Table

variable {Row Key : Type} [DecidableEq Key] {key : Row → Key} {rows : List Row} {k : Key} {row : Row}

/-- With unique keys, a sum over the rows of one key is the term of its row. -/
theorem sum_of_lookup (hnodup : (rows.map key).Nodup) (hrow : lookup key rows k = some row)
    (weight : Row → ℤ) :
    (rows.map fun other ↦ if key other = k then weight other else 0).sum = weight row := by
  have hkey := key_of_lookup hrow
  rw [← sum_filter (fun other ↦ key other = k), ← hkey, filter_key hnodup (mem_of_lookup hrow)]
  simp

end PaymentRail.Table

namespace PaymentRail.Rail

open Transaction Ledger Chain Sink Payments

/-- The clearing account of an asset. -/
def houseID (db : Db) (asset : String) : UUID :=
  (db.accountByNameAndAsset houseAccountName asset).elim 0 Account.id

/-- What a payment row and a number of settlements on balance say was moved to an account. -/
def owed (house : String → UUID) (settled : UUID → ℤ) (accountID : UUID) (pay : Payment) : ℤ :=
  (if pay.status = .completed then moved pay.amount pay.sourceAccountID pay.destAccountID accountID
    else 0) +
  settled pay.id * moved pay.amount pay.destAccountID (house pay.asset) accountID

/-- The balances of a ledger, told from its payments. -/
structure Accounted (start db : Db) : Prop where
  keys : (db.payments.map Payment.id).Nodup
  accounts : db.accounts = start.accounts
  balances : ∀ accountID, db.balance accountID = start.balance accountID +
    (db.payments.map (owed (houseID start) (netSettled db) accountID)).sum

section Steps

variable {rt : Audit.Runtime} {allowed : Stmt → Ambient → Db → Prop} {start db db' : Db}
  {call : Call} {writes : List Write} {role : Role} {pid : UUID} {pay : Payment} {house : Account}
  {blockHash : String} {je : JournalEntry}

theorem houseID_eq (haccounts : db.accounts = start.accounts)
    (hclearing : db.accountByNameAndAsset houseAccountName pay.asset = some house) :
    houseID start pay.asset = house.id := by
  rw [Db.accountByNameAndAsset, haccounts] at hclearing
  rw [houseID, Db.accountByNameAndAsset, hclearing]
  rfl

theorem netSettled_congr (h : db'.journalEntries = db.journalEntries) :
    netSettled db' = netSettled db := by
  funext pid
  rw [netSettled, entriesOf, entriesOf, h, netSettled, entriesOf, entriesOf]

/-- An entry of a role that settles nothing leaves the settlements on balance. -/
theorem netSettled_add_sign (h : role.sign = 0) :
    (fun pid' ↦ netSettled db pid' + if pid' = pid then role.sign else 0) = netSettled db := by
  funext pid'
  rw [h, ite_self, add_zero]

theorem balance_congr (h : db'.entryLines = db.entryLines) : db'.balance = db.balance := by
  funext accountID
  rw [Db.balance, Db.linesOf, h, Db.balance, Db.linesOf]

/-- A commit that posts no entry and changes no payment. -/
theorem Accounted.kept (h : Accounted start db) (haccounts : db'.accounts = db.accounts)
    (hpayments : db'.payments = db.payments) (hjournal : db'.journalEntries = db.journalEntries)
    (hlines : db'.entryLines = db.entryLines) : Accounted start db' where
  keys := by rw [hpayments]; exact h.keys
  accounts := haccounts.trans h.accounts
  balances accountID := by
    rw [balance_congr hlines, netSettled_congr hjournal, hpayments]
    exact h.balances accountID

/-- The entry of a role, for a payment that is there or is about to be, moves what the rows say. -/
theorem Accounted.posted (h : Accounted start db) (rows : List Payment)
    (hposting : Posting db (role.entry pid pay house blockHash) je)
    (hjournal : db'.journalEntries =
      (postEntry db (role.entry pid pay house blockHash) je).journalEntries)
    (hlines : db'.entryLines = (postEntry db (role.entry pid pay house blockHash) je).entryLines)
    (haccounts : db'.accounts = db.accounts) (hpayments : db'.payments = rows)
    (hkeys : (rows.map Payment.id).Nodup)
    (hsum : ∀ accountID,
      (rows.map (owed (houseID start) (fun pid' ↦ netSettled db pid' +
        if pid' = pid then role.sign else 0) accountID)).sum =
      (db.payments.map (owed (houseID start) (netSettled db) accountID)).sum +
        role.effect pay house.id accountID) : Accounted start db' where
  keys := by rw [hpayments]; exact hkeys
  accounts := haccounts.trans h.accounts
  balances accountID := by
    have hnet : netSettled db' = fun pid' ↦ netSettled db pid' +
        if pid' = pid then role.sign else 0 := by
      rw [netSettled_congr hjournal]
      funext pid'
      exact netSettled_postEntry hposting pid'
    rw [balance_congr hlines, Db.balance_postEntry, Role.effect_entry, h.balances accountID, hnet,
      hpayments, hsum accountID, add_assoc]

/-- A settlement or the reversal of one, whether or not its row was marked. -/
theorem Accounted.settlement (h : Accounted start db) {st : Status} {row : Settlement} (role : Role)
    (hrole : role = .settle ∨ role = .reverse) (hresolved : Resolved db st.txHash row pay house)
    (hposting : Posting db (role.entry row.paymentID pay house st.blockHash) je)
    (hdb' : ∃ settlements outbox auditLog, db' =
      { postEntry db (role.entry row.paymentID pay house st.blockHash) je with
        settlements := settlements, outbox := outbox, auditLog := auditLog }) :
    Accounted start db' := by
  obtain ⟨settlements, outbox, auditLog, rfl⟩ := hdb'
  refine h.posted db.payments hposting rfl rfl rfl rfl h.keys fun accountID ↦ ?_
  have hhouse : houseID start pay.asset = house.id := houseID_eq h.accounts hresolved.clearing
  have hterm : ∀ other : Payment, owed (houseID start) (fun pid' ↦ netSettled db pid' +
      if pid' = row.paymentID then role.sign else 0) accountID other =
      owed (houseID start) (netSettled db) accountID other +
        if other.id = row.paymentID then
          role.sign * moved other.amount other.destAccountID (houseID start other.asset) accountID
        else 0 := by
    intro other
    rw [owed, owed, add_mul, ite_mul, zero_mul, add_assoc]
  have hown := Table.sum_of_lookup h.keys hresolved.paid fun other ↦
    role.sign * moved other.amount other.destAccountID (houseID start other.asset) accountID
  rw [List.map_congr_left fun other _ ↦ hterm other, List.sum_map_add, hown, hhouse]
  refine congrArg₂ _ rfl ?_
  rcases hrole with rfl | rfl
  · simp [Role.sign, Role.effect]
  · simp [Role.sign, Role.effect, moved_comm pay.amount pay.destAccountID house.id]

theorem Accounted.step (h : Accounted start db) (hbooks : ∀ pid, Books db pid)
    (hcommit : Committed rt allowed db call writes) : Accounted start (queries.view db writes) := by
  cases hcommit with
  | nothing => exact h
  | linked => exact h.kept rfl rfl rfl rfl
  | finalized => exact h.kept rfl rfl rfl rfl
  | created input pid je payment sent logged posting fresh row announced =>
    have hentry := Role.entry_payment row ⟨0, "", "", "", ""⟩
    have hid : payment.id = pid := by rw [row]
    have hcompleted : payment.status = .completed := by rw [row]
    have hnone : netSettled db pid = 0 := by
      simp [netSettled, (hbooks pid).unknown fresh]
    rw [Engine.view_append, view_entry_writes, hentry]
    rw [hentry] at posting
    have hkeys : ((db.payments ++ [payment]).map Payment.id).Nodup := by
      have hnew : payment.id ∉ db.payments.map Payment.id := by
        rw [hid]
        intro hmem
        obtain ⟨old, hold, hkey⟩ := List.mem_map.mp hmem
        exact Table.lookup_eq_none.mp fresh old hold hkey
      rw [List.map_append, List.map_singleton]
      exact List.concat_eq_append ▸ h.keys.concat hnew
    refine h.posted (db.payments ++ [payment]) posting rfl rfl rfl rfl hkeys fun accountID ↦ ?_
    have hnew : owed (houseID start) (netSettled db) accountID payment =
        moved payment.amount payment.sourceAccountID payment.destAccountID accountID := by
      simp [owed, hcompleted, hid, hnone]
    rw [netSettled_add_sign rfl, List.map_append, List.sum_append, List.map_singleton,
      List.sum_singleton, hnew]
    rfl
  | canceled pid payment je sent logged row completed posting announced =>
    have hposting : Posting db (Role.refund.entry pid payment ⟨0, "", "", "", ""⟩ "") je := posting
    have hcancel : ∀ payment : Payment, (payment.cancel (some je.id)).id = payment.id := fun _ ↦ rfl
    rw [Engine.view_append, view_entry_writes]
    have hkeys : ((Table.modify Payment.id db.payments pid (·.cancel (some je.id))).map
        Payment.id).Nodup := by
      rw [Table.map_key_modify hcancel]
      exact h.keys
    refine h.posted (Table.modify Payment.id db.payments pid (·.cancel (some je.id))) hposting rfl rfl
      rfl rfl hkeys fun accountID ↦ ?_
    have hchange := Table.sum_map_modify (f := (·.cancel (some je.id))) h.keys row
      (owed (houseID start) (netSettled db) accountID)
    have hterm : owed (houseID start) (netSettled db) accountID (payment.cancel (some je.id)) -
        owed (houseID start) (netSettled db) accountID payment =
          moved payment.amount payment.destAccountID payment.sourceAccountID accountID := by
      simp [owed, Payment.cancel, completed, moved_comm payment.amount payment.sourceAccountID]
    rw [netSettled_add_sign rfl, hchange, hterm]
    rfl
  | settled st row pay house je sent logged phase resolved settleable posting announced =>
    rw [Engine.view_append, view_entry_writes]
    exact h.settlement .settle (.inl rfl) resolved posting ⟨_, _, _, rfl⟩
  | reversed st row pay house je sent logged phase resolved isSettled posting announced =>
    rw [Engine.view_append, view_entry_writes]
    exact h.settlement .reverse (.inr rfl) resolved posting ⟨_, _, _, rfl⟩
  | settledUnmarked st row pay house je phase resolved posting unmarked =>
    rw [view_entry_writes]
    exact h.settlement .settle (.inl rfl) resolved posting ⟨_, _, _, rfl⟩
  | reversedUnmarked st row pay house je phase resolved posting unmarked =>
    rw [view_entry_writes]
    exact h.settlement .reverse (.inr rfl) resolved posting ⟨_, _, _, rfl⟩

end Steps

section Runs

variable {rt : Audit.Runtime} {allowed : Stmt → Ambient → Db → Prop} {start db : Db}
  {history : List (Commit Write Call Result)}

theorem accounted_serial (hstart : Opening start)
    (h : Serial queries (fun call _ writes db ↦ Committed rt allowed db call writes) start history
      db) : Accounted start db := by
  induction h with
  | nil => exact ⟨by simp [hstart.payments], rfl, fun _ ↦ by simp [hstart.payments]⟩
  | cons commit hserial hcommit ih => exact ih.step (books_serial hstart hserial).2 hcommit

/-- Over every interleaving of the calls, in every committed state: each account holds what it held at
the start, what the completed payments moved and what the settlements on balance moved; and where the
guarded `UPDATE`s match, the settlements on balance are the settled and finalized rows. -/
theorem balances_follow_rows (hstart : Opening start) :
    (∀ s : RailState, Reaches queries (body rt) unrestricted start s → ∀ accountID,
      s.db.balance accountID = start.balance accountID +
        (s.db.payments.map (owed (houseID start) (netSettled s.db) accountID)).sum) ∧
    ∀ s : RailState, Reaches queries (body rt) (MarksMatch fun _ ↦ True) start s → ∀ accountID,
      s.db.balance accountID = start.balance accountID +
        (s.db.payments.map (owed (houseID start) (netRows s.db) accountID)).sum := by
  constructor
  · intro s h accountID
    exact (accounted_serial hstart (serial h)).balances accountID
  · intro s h accountID
    have hrows : netRows s.db = netSettled s.db := funext (rowsTell_serial hstart (serial h)).sum
    rw [hrows]
    exact (accounted_serial hstart (serial h)).balances accountID

end Runs

/-- The sample payment is settled and canceled: the merchant is out of pocket by its amount. -/
theorem balances_follow_rows_sample :
    ∃ s, openingRun settledThenCanceled = some s ∧ s.db.balance 2 = openingDb.balance 2 +
      (s.db.payments.map (owed (houseID openingDb) (netRows s.db) 2)).sum ∧ s.db.balance 2 = 0 := by
  have hrun : (openingRun settledThenCanceled).map (fun s ↦ s.db.balance 2) = some 0 := by
    decide +kernel
  obtain ⟨s, hs, hbalance⟩ := Option.map_eq_some_iff.mp hrun
  have hreaches : Reaches queries (body sampleRuntime) (MarksMatch fun _ ↦ True) openingDb s :=
    reaches_of_schedule .idle hs (by decide +kernel)
  exact ⟨s, hs, (balances_follow_rows opening_openingDb).2 s hreaches 2, hbalance⟩

end PaymentRail.Rail
