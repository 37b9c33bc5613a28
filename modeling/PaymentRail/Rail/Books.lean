import PaymentRail.Ledger.Journal
import PaymentRail.Rail.Entries

/-!
# The books of one payment

Every entry the rail posts plays one of four roles for one payment: it effects the payment, refunds
it, settles it or reverses a settlement.  The role and the payment can be read off the kind and the
reference of the entry (`Role.names`), so the journal itself says what was posted for a payment.

`Books` relates the journal to the payment row over whole runs: the entries of each role brought
exactly their effect as often as they were posted, a payment was effected once, and it was refunded
once if it is canceled and not at all otherwise.
-/

namespace PaymentRail.Rail

open Transaction Ledger Chain Sink Payments

/-- What an entry does for its payment. -/
inductive Role where
  | payment
  | refund
  | settle
  | reverse
  deriving DecidableEq

namespace Role

/-- The entry of a role for a payment. -/
def entry (role : Role) (pid : UUID) (pay : Payment) (house : Account) (blockHash : String) :
    Entry :=
  match role with
  | .payment => .transfer "payment" pid.string pay.asset pay.sourceAccountID pay.destAccountID
      pay.amount
  | .refund => reversalEntry pid pay
  | .settle => settleEntry pid pay house blockHash
  | .reverse => reverseEntry pid pay house blockHash

/-- The kind of the entries of a role. -/
def kind : Role → String
  | .payment => "payment"
  | .refund => "payment.reversal"
  | .settle => "settlement.settle"
  | .reverse => "settlement.reversal"

/-- The reference is one that the entries of a role have for this payment. -/
def refersTo (pid : UUID) (externalRef : String) : Role → Bool
  | .payment => externalRef = pid.string
  | .refund => externalRef = pid.string ++ ":reversal"
  | .settle => (settleRef pid "").toList.isPrefixOf externalRef.toList
  | .reverse => (reverseRef pid "").toList.isPrefixOf externalRef.toList

/-- The entry has this role for this payment. -/
def names (role : Role) (pid : UUID) (je : JournalEntry) : Bool :=
  je.kind = role.kind && role.refersTo pid je.externalRef

/-- What one entry of a role adds to the balance of an account. -/
def effect (role : Role) (pay : Payment) (house accountID : UUID) : ℤ :=
  match role with
  | .payment => moved pay.amount pay.sourceAccountID pay.destAccountID accountID
  | .refund => moved pay.amount pay.destAccountID pay.sourceAccountID accountID
  | .settle => moved pay.amount pay.destAccountID house accountID
  | .reverse => moved pay.amount house pay.destAccountID accountID

/-- The entry of a new payment is made from the columns of its row. -/
theorem entry_payment {pid entryID : UUID} {input : CreateInput} {payment : Payment} {now : Time}
    (row : payment = ⟨pid, .completed, input.asset, input.amount, input.sourceAccountID,
      input.destAccountID, entryID, none, now⟩) (house : Account) :
    paymentEntry pid input = Role.payment.entry pid payment house "" := by
  rw [row]
  rfl

theorem effect_entry (role : Role) (pid : UUID) (pay : Payment) (house : Account)
    (blockHash : String) (accountID : UUID) :
    (role.entry pid pay house blockHash).effect accountID =
      role.effect pay house.id accountID := by
  cases role <;> exact effect_transfer _ _ _ _ _ _ _

theorem kind_entry (role : Role) (pid : UUID) (pay : Payment) (house : Account)
    (blockHash : String) : (role.entry pid pay house blockHash).kind = role.kind := by
  cases role <;> rfl

theorem kind_injective : Function.Injective kind := by
  intro first second h
  cases first <;> cases second <;> first | rfl | exact absurd h (by decide)

/-- The text in front of a block hash determines the payment. -/
theorem isPrefixOf_reference (label blockHash : String) (pid pid' : UUID) :
    (label ++ pid.string ++ ":" ++ "").toList.isPrefixOf
      (label ++ pid'.string ++ ":" ++ blockHash).toList = decide (pid = pid') := by
  rw [Bool.eq_iff_iff, List.isPrefixOf_iff_prefix, decide_eq_true_eq]
  constructor
  · rintro ⟨rest, hrest⟩
    simp only [String.toList_append, List.append_assoc, List.append_cancel_left_eq] at hrest
    have hchars : pid.string.toList = pid'.string.toList :=
      List.append_inj_left hrest (by simp [UUID.string, UUID.length_chars])
    exact UUID.string_injective (String.toList_injective hchars)
  · rintro rfl
    exact ⟨blockHash.toList, by simp⟩

theorem refersTo_entry (role : Role) (pid pid' : UUID) (pay : Payment) (house : Account)
    (blockHash : String) :
    role.refersTo pid' (role.entry pid pay house blockHash).externalRef = decide (pid' = pid) := by
  cases role with
  | payment =>
    have href : (payment.entry pid pay house blockHash).externalRef = pid.string := rfl
    rw [href, refersTo, decide_eq_decide]
    exact ⟨fun h ↦ (UUID.string_injective h).symm, fun h ↦ by rw [h]⟩
  | refund =>
    have href : (refund.entry pid pay house blockHash).externalRef = pid.string ++ ":reversal" := rfl
    rw [href, refersTo, decide_eq_decide]
    refine ⟨fun h ↦ ?_, fun h ↦ by rw [h]⟩
    exact (UUID.string_injective ((String.append_left_inj _).mp h)).symm
  | settle => exact isPrefixOf_reference "settle:" blockHash pid' pid
  | reverse => exact isPrefixOf_reference "reverse:" blockHash pid' pid

/-- An entry has the role it was posted in, for the payment it was posted for, and no other. -/
theorem names_entry (role role' : Role) (pid pid' : UUID) (pay : Payment) (house : Account)
    (blockHash : String) {je : JournalEntry}
    (hkind : je.kind = (role.entry pid pay house blockHash).kind)
    (href : je.externalRef = (role.entry pid pay house blockHash).externalRef) :
    role'.names pid' je = decide (role' = role ∧ pid' = pid) := by
  rw [names, hkind, href, kind_entry]
  by_cases hrole : role' = role
  · subst hrole
    rw [refersTo_entry]
    simp
  · have hne : role.kind ≠ role'.kind := fun h ↦ hrole (kind_injective h.symm)
    simp [hne, hrole]

/-- The payment row that a role finds. -/
def before (pay : Payment) : Role → Option Payment
  | .payment => none
  | .refund | .settle | .reverse => some pay

/-- The payment row that a role leaves. -/
def after (pay : Payment) (je : JournalEntry) : Role → Payment
  | .refund => pay.cancel (some je.id)
  | .payment | .settle | .reverse => pay

end Role

/-- What the commit of a call that posts an entry has done to the journal and to the payments. -/
structure Posted (call : Call) (db db' : Db) (role : Role) (pid : UUID) (pay : Payment)
    (house : Account) (blockHash : String) (je : JournalEntry) : Prop where
  posting : Posting db (role.entry pid pay house blockHash) je
  journal : db'.journalEntries = (postEntry db (role.entry pid pay house blockHash) je).journalEntries
  lines : db'.entryLines = (postEntry db (role.entry pid pay house blockHash) je).entryLines
  accounts : db'.accounts = db.accounts
  others : ∀ other, other ≠ pid → db'.payment other = db.payment other
  before : db.payment pid = role.before pay
  after : db'.payment pid = some (role.after pay je)
  completed : role = .payment ∨ role = .refund → pay.status = .completed
  clearing : role = .settle ∨ role = .reverse →
    db.accountByNameAndAsset houseAccountName pay.asset = some house
  delivered : role = .settle → ∃ st row, call = .onStatus st ∧ st.phase = .confirmed ∧
    st.blockHash = blockHash ∧ db.settlement st.txHash = some row ∧ row.paymentID = pid

/-- What a commit that posts no entry leaves. -/
structure Unposted (db db' : Db) : Prop where
  journal : db'.journalEntries = db.journalEntries
  lines : db'.entryLines = db.entryLines
  accounts : db'.accounts = db.accounts
  payments : db'.payments = db.payments

section Cases

variable {rt : Audit.Runtime} {allowed : Stmt → Ambient → Db → Prop} {db : Db} {call : Call}
  {writes : List Write}

/-- The posting of a delivery, which does not touch its payment. -/
theorem posted_of_settlement {role : Role} {st : Status} {row : Settlement} {pay : Payment}
    {house : Account} {je : JournalEntry} {db' : Db}
    (hrole : role = .settle ∧ st.phase = .confirmed ∨ role = .reverse)
    (hresolved : Resolved db st.txHash row pay house)
    (hposting : Posting db (role.entry row.paymentID pay house st.blockHash) je)
    (hdb' : ∃ settlements outbox auditLog, db' =
      { postEntry db (role.entry row.paymentID pay house st.blockHash) je with
        settlements := settlements, outbox := outbox, auditLog := auditLog }) :
    Posted (.onStatus st) db db' role row.paymentID pay house st.blockHash je := by
  obtain ⟨settlements, outbox, auditLog, rfl⟩ := hdb'
  exact {
    posting := hposting
    journal := rfl
    lines := rfl
    accounts := rfl
    others := fun _ _ ↦ rfl
    before := by rcases hrole with ⟨rfl, -⟩ | rfl <;> exact hresolved.paid
    after := by rcases hrole with ⟨rfl, -⟩ | rfl <;> exact hresolved.paid
    completed := by rcases hrole with ⟨rfl, -⟩ | rfl <;> simp
    clearing := fun _ ↦ hresolved.clearing
    delivered := by
      rintro rfl
      have hphase : st.phase = .confirmed := by
        rcases hrole with ⟨-, hphase⟩ | hreverse
        · exact hphase
        · cases hreverse
      exact ⟨st, row, rfl, hphase, rfl, hresolved.linked, rfl⟩ }

/-- Every commit posts one entry in one role for one payment, or none. -/
theorem Committed.posted (h : Committed rt allowed db call writes) :
    Unposted db (queries.view db writes) ∨ ∃ role pid pay house blockHash je,
      Posted call db (queries.view db writes) role pid pay house blockHash je := by
  cases h with
  | nothing => exact .inl ⟨rfl, rfl, rfl, rfl⟩
  | linked => exact .inl ⟨rfl, rfl, rfl, rfl⟩
  | finalized => exact .inl ⟨rfl, rfl, rfl, rfl⟩
  | created input pid je payment sent logged posting fresh row announced =>
    have hentry := Role.entry_payment row ⟨0, "", "", "", ""⟩
    rw [Engine.view_append, view_entry_writes, hentry]
    rw [hentry] at posting
    have hid : payment.id = pid := by rw [row]
    refine .inr ⟨.payment, pid, payment, ⟨0, "", "", "", ""⟩, "", je, {
      posting := posting
      journal := rfl
      lines := rfl
      accounts := rfl
      others := fun other hother ↦ Table.lookup_append_of_ne (by rw [hid]; exact Ne.symm hother)
      before := fresh
      after := by
        have hself : Table.lookup Payment.id (db.payments ++ [payment]) payment.id = some payment :=
          Table.lookup_append_self (by rw [hid]; exact fresh)
        rw [hid] at hself
        exact hself
      completed := fun _ ↦ by rw [row]
      clearing := by simp
      delivered := by simp }⟩
  | canceled pid payment je sent logged row completed posting announced =>
    rw [Engine.view_append, view_entry_writes]
    refine .inr ⟨.refund, pid, payment, ⟨0, "", "", "", ""⟩, "", je, {
      posting := posting
      journal := rfl
      lines := rfl
      accounts := rfl
      others := fun other hother ↦ Table.lookup_modify_of_ne (fun _ ↦ rfl) hother
      before := row
      after := by
        have hself : Table.lookup Payment.id (Table.modify Payment.id db.payments pid
            (·.cancel (some je.id))) pid = (db.payment pid).map (·.cancel (some je.id)) :=
          Table.lookup_modify_self fun _ ↦ rfl
        rw [row] at hself
        exact hself
      completed := fun _ ↦ completed
      clearing := by simp
      delivered := by simp }⟩
  | settled st row pay house je sent logged phase resolved settleable posting announced =>
    rw [Engine.view_append, view_entry_writes]
    exact .inr ⟨.settle, row.paymentID, pay, house, st.blockHash, je,
      posted_of_settlement (.inl ⟨rfl, phase⟩) resolved posting ⟨_, _, _, rfl⟩⟩
  | reversed st row pay house je sent logged phase resolved isSettled posting announced =>
    rw [Engine.view_append, view_entry_writes]
    exact .inr ⟨.reverse, row.paymentID, pay, house, st.blockHash, je,
      posted_of_settlement (.inr rfl) resolved posting ⟨_, _, _, rfl⟩⟩
  | settledUnmarked st row pay house je phase resolved posting unmarked =>
    rw [view_entry_writes]
    exact .inr ⟨.settle, row.paymentID, pay, house, st.blockHash, je,
      posted_of_settlement (.inl ⟨rfl, phase⟩) resolved posting ⟨_, _, _, rfl⟩⟩
  | reversedUnmarked st row pay house je phase resolved posting unmarked =>
    rw [view_entry_writes]
    exact .inr ⟨.reverse, row.paymentID, pay, house, st.blockHash, je,
      posted_of_settlement (.inr rfl) resolved posting ⟨_, _, _, rfl⟩⟩

end Cases

/-- How many entries of a role are posted for a payment. -/
def entriesOf (db : Db) (role : Role) (pid : UUID) : ℕ :=
  db.journalEntries.countP (role.names pid)

def Role.all : List Role := [.payment, .refund, .settle, .reverse]

/-- The entry is posted for this payment in one of some roles. -/
def ownEntry (pid : UUID) (roles : Role → Bool) (je : JournalEntry) : Bool :=
  Role.all.any fun role ↦ roles role && role.names pid je

/-- What the entries of some roles add up to on an account, when each brings the effect of its
role. -/
def expected (db : Db) (pid : UUID) (pay : Payment) (house : UUID) (roles : Role → Bool)
    (accountID : UUID) : ℤ :=
  (Role.all.map fun role ↦
    if roles role then (entriesOf db role pid : ℤ) * role.effect pay house accountID else 0).sum

/-- The clearing account of an asset, if there is one, has this identifier. -/
def Clears (db : Db) (asset : String) (house : UUID) : Prop :=
  ∀ account, db.accountByNameAndAsset houseAccountName asset = some account → account.id = house

/-- The journal and the row of one payment agree: what its entries of each role brought, and how
many there are of each. -/
structure Books (db : Db) (pid : UUID) : Prop where
  unknown : db.payment pid = none → ∀ role, entriesOf db role pid = 0
  positive : ∀ pay, db.payment pid = some pay → 0 < pay.amount.toInt
  effected : ∀ pay, db.payment pid = some pay → entriesOf db .payment pid = 1
  refunded : ∀ pay, db.payment pid = some pay →
    entriesOf db .refund pid = if pay.status = .canceled then 1 else 0
  balances : ∀ pay house, db.payment pid = some pay → Clears db pay.asset house →
    ∀ roles accountID, db.balanceWhere (ownEntry pid roles) accountID =
      expected db pid pay house roles accountID

/-- A ledger in order: every line has its entry and no balance is negative. -/
structure Sound (db : Db) : Prop where
  linked : db.Linked
  nonneg : ∀ accountID, 0 ≤ db.balance accountID

section Steps

variable {call : Call} {db db' : Db} {role : Role} {pid : UUID} {pay : Payment} {house : Account}
  {blockHash : String} {je : JournalEntry}

theorem Unposted.eq (h : Unposted db db') : db' =
    { db with settlements := db'.settlements, outbox := db'.outbox, auditLog := db'.auditLog } := by
  rw [← h.journal, ← h.lines, ← h.accounts, ← h.payments]

theorem Unposted.books (h : Unposted db db') {pid : UUID} (hbooks : Books db pid) :
    Books db' pid := by
  rw [h.eq]
  exact ⟨hbooks.unknown, hbooks.positive, hbooks.effected, hbooks.refunded, hbooks.balances⟩

theorem Unposted.sound (h : Unposted db db') (hsound : Sound db) : Sound db' := by
  rw [h.eq]
  exact ⟨hsound.linked, hsound.nonneg⟩

/-- Without entries for a payment there is nothing they brought. -/
theorem balanceWhere_eq_zero (h : ∀ role, entriesOf db role pid = 0) (roles : Role → Bool)
    (accountID : UUID) : db.balanceWhere (ownEntry pid roles) accountID = 0 := by
  have hnone : ∀ je ∈ db.journalEntries, ownEntry pid roles je = false := by
    intro je hje
    have hnames : ∀ role : Role, role.names pid je = false := fun role ↦ by
      simpa using List.countP_eq_zero.mp (h role) je hje
    simp [ownEntry, hnames]
  refine total_eq_zero fun line _ ↦ ?_
  have hline : db.lineOf (ownEntry pid roles) line = false := by
    rw [Db.lineOf, List.any_eq_false]
    intro je hje
    simp [hnone je hje]
  rw [hline, Bool.and_false]

theorem expected_eq_zero (h : ∀ role, entriesOf db role pid = 0) (pay : Payment) (house : UUID)
    (roles : Role → Bool) (accountID : UUID) : expected db pid pay house roles accountID = 0 := by
  simp [expected, h]

/-- The columns that the effects are made from do not change. -/
theorem expected_after (role : Role) (pay : Payment) (je : JournalEntry) (house : UUID)
    (roles : Role → Bool) (accountID : UUID) :
    expected db pid (role.after pay je) house roles accountID =
      expected db pid pay house roles accountID := by
  cases role <;> rfl

namespace Posted

variable (h : Posted call db db' role pid pay house blockHash je)
include h

theorem names_je (role' : Role) (pid' : UUID) :
    role'.names pid' je = decide (role' = role ∧ pid' = pid) :=
  Role.names_entry role role' pid pid' pay house blockHash h.posting.kind h.posting.externalRef

theorem entriesOf_eq (role' : Role) (pid' : UUID) :
    entriesOf db' role' pid' =
      entriesOf db role' pid' + if role' = role ∧ pid' = pid then 1 else 0 := by
  rw [entriesOf, h.journal, postEntry, List.countP_append, List.countP_singleton, h.names_je]
  simp [entriesOf]

theorem ownEntry_je (pid' : UUID) (roles : Role → Bool) :
    ownEntry pid' roles je = (roles role && decide (pid' = pid)) := by
  simp only [ownEntry, h.names_je]
  cases role <;> simp [Role.all]

theorem balanceWhere_eq (hsound : Sound db) (pid' : UUID) (roles : Role → Bool)
    (accountID : UUID) :
    db'.balanceWhere (ownEntry pid' roles) accountID =
      db.balanceWhere (ownEntry pid' roles) accountID +
        if roles role && decide (pid' = pid) then role.effect pay house.id accountID else 0 := by
  have hsame : db'.balanceWhere (ownEntry pid' roles) accountID =
      (postEntry db (role.entry pid pay house blockHash) je).balanceWhere (ownEntry pid' roles)
        accountID := by
    simp only [Db.balanceWhere, Db.lineOf, h.journal, h.lines]
  rw [hsame, Db.balanceWhere_postEntry hsound.linked h.posting.freshID, h.ownEntry_je,
    Role.effect_entry]

theorem sound (hsound : Sound db) : Sound db' where
  linked := by
    intro line hline
    rw [h.lines] at hline
    rw [Db.hasJournalID, h.journal]
    exact hsound.linked.postEntry line hline
  nonneg accountID := by
    have hsame : db'.balance accountID =
        (postEntry db (role.entry pid pay house blockHash) je).balance accountID := by
      rw [Db.balance, Db.linesOf, h.lines]
      rfl
    rw [hsame]
    have hposting := h.posting
    cases role <;> exact hposting.nonneg hsound.nonneg accountID

/-- Posting for one payment leaves the books of every other. -/
theorem books_of_ne (hsound : Sound db) {other : UUID} (hother : other ≠ pid)
    (hbooks : Books db other) : Books db' other := by
  have hentries : ∀ role', entriesOf db' role' other = entriesOf db role' other := fun role' ↦ by
    simp [h.entriesOf_eq, hother]
  have hrow := h.others other hother
  exact {
    unknown := fun hnone role' ↦ by
      rw [hentries]
      exact hbooks.unknown (hrow ▸ hnone) role'
    positive := fun found hfound ↦ hbooks.positive found (hrow ▸ hfound)
    effected := fun found hfound ↦ by
      rw [hentries]
      exact hbooks.effected found (hrow ▸ hfound)
    refunded := fun found hfound ↦ by
      rw [hentries]
      exact hbooks.refunded found (hrow ▸ hfound)
    balances := fun found clearing hfound hclears roles accountID ↦ by
      rw [Clears, Db.accountByNameAndAsset, h.accounts] at hclears
      rw [h.balanceWhere_eq hsound, hbooks.balances found clearing (hrow ▸ hfound) hclears]
      simp [hother, expected, hentries] }

/-- One entry more in the role that was posted. -/
theorem expected_eq (found : Payment) (clearing : UUID) (roles : Role → Bool) (accountID : UUID) :
    expected db' pid found clearing roles accountID =
      expected db pid found clearing roles accountID +
        if roles role then role.effect found clearing accountID else 0 := by
  have hterm : ∀ role', (if roles role' then
        (entriesOf db' role' pid : ℤ) * role'.effect found clearing accountID else 0) =
      (if roles role' then (entriesOf db role' pid : ℤ) * role'.effect found clearing accountID
        else 0) +
        if role' = role then (if roles role then role.effect found clearing accountID else 0)
        else 0 := by
    intro role'
    by_cases hrole : role' = role
    · subst hrole
      rw [h.entriesOf_eq]
      split
      · simp only [and_self, if_true]
        push_cast
        ring
      · simp
    · simp [h.entriesOf_eq, hrole]
  have hone : (Role.all.map fun role' ↦ if role' = role then
      (if roles role then role.effect found clearing accountID else 0) else 0).sum =
      if roles role then role.effect found clearing accountID else 0 := by
    cases role <;> simp [Role.all]
  simp only [expected, hterm]
  rw [List.sum_map_add, hone]

/-- Posting for a payment keeps its books. -/
theorem books_self (hsound : Sound db) (hbooks : Books db pid) : Books db' pid where
  unknown hnone role' := by
    rw [h.after] at hnone
    cases hnone
  positive found hfound := by
    obtain rfl := Option.some.inj (hfound.symm.trans h.after)
    have hposting := h.posting
    cases role <;> exact amount_pos_of_validate hposting.valid
  effected found hfound := by
    rw [h.entriesOf_eq]
    cases role with
    | payment => simp [hbooks.unknown h.before]
    | _ => simp [hbooks.effected pay h.before]
  refunded found hfound := by
    obtain rfl := Option.some.inj (hfound.symm.trans h.after)
    rw [h.entriesOf_eq]
    cases role with
    | payment => simp [hbooks.unknown h.before, Role.after, h.completed (.inl rfl)]
    | refund => simp [hbooks.refunded pay h.before, Role.after, h.completed (.inr rfl), Payment.cancel]
    | settle | reverse =>
      rw [if_neg (by simp), Nat.add_zero]
      exact hbooks.refunded pay h.before
  balances found clearing hfound hclears roles accountID := by
    obtain rfl := Option.some.inj (hfound.symm.trans h.after)
    have hasset : (role.after pay je).asset = pay.asset := by cases role <;> rfl
    rw [Clears, Db.accountByNameAndAsset, h.accounts, hasset] at hclears
    have hbefore : db.balanceWhere (ownEntry pid roles) accountID =
        expected db pid pay clearing roles accountID := by
      cases role with
      | payment =>
        have hnone := hbooks.unknown h.before
        rw [balanceWhere_eq_zero hnone, expected_eq_zero hnone]
      | _ => exact hbooks.balances pay clearing h.before hclears roles accountID
    have heffect : role.effect pay house.id accountID = role.effect pay clearing accountID := by
      cases role with
      | payment | refund => rfl
      | settle => rw [hclears house (h.clearing (.inl rfl))]
      | reverse => rw [hclears house (h.clearing (.inr rfl))]
    rw [h.balanceWhere_eq hsound, expected_after, h.expected_eq, hbefore, heffect]
    simp

theorem books (hsound : Sound db) (hbooks : ∀ pid, Books db pid) (pid' : UUID) : Books db' pid' := by
  by_cases hpid : pid' = pid
  · rw [hpid]
    exact h.books_self hsound (hbooks pid)
  · exact h.books_of_ne hsound hpid (hbooks pid')

end Posted

end Steps

/-- The tables before the first payment: accounts with opening balances, and no entry of a kind that
the rail posts. -/
structure Opening (db : Db) : Prop where
  sound : Sound db
  payments : db.payments = []
  settlements : db.settlements = []
  kinds : ∀ je ∈ db.journalEntries, ∀ role : Role, je.kind ≠ role.kind

theorem Opening.books {db : Db} (h : Opening db) (pid : UUID) : Books db pid := by
  have hnone : db.payment pid = none := by
    rw [Db.payment, h.payments]
    rfl
  refine ⟨fun _ role ↦ ?_, ?_, ?_, ?_, ?_⟩
  · rw [entriesOf, List.countP_eq_zero]
    intro je hje
    simp [Role.names, h.kinds je hje role]
  all_goals simp [hnone]

section Runs

variable {rt : Audit.Runtime} {allowed : Stmt → Ambient → Db → Prop} {start db : Db}
  {history : List (Commit Write Call Result)}

/-- In every state of a run the ledger is in order and so are the books of every payment. -/
theorem books_serial (hstart : Opening start)
    (h : Serial queries (fun call _ writes db ↦ Committed rt allowed db call writes) start history
      db) : Sound db ∧ ∀ pid, Books db pid := by
  induction h with
  | nil => exact ⟨hstart.sound, hstart.books⟩
  | cons commit _ hcommit ih =>
    obtain ⟨hsound, hbooks⟩ := ih
    rcases hcommit.posted with hunposted | ⟨role, pid, pay, house, blockHash, je, hposted⟩
    · exact ⟨hunposted.sound hsound, fun pid ↦ hunposted.books (hbooks pid)⟩
    · exact ⟨hposted.sound hsound, hposted.books hsound hbooks⟩

end Runs

end PaymentRail.Rail
