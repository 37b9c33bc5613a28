import PaymentRail.Rail.Cancellation
import PaymentRail.Transaction.Outcome

/-!
# A payment is canceled once

A cancellation has four parts, all written by one transaction: the flip of the payment row, the mirror
entry, the outbox event and the audit row.  Two calls of `Cancel` may both have read a completed
payment; the row lock, the unique reference of the mirror entry and the guarded `UPDATE` leave only
one of them a way to commit.

`canceled_once` says so for every interleaving.  Each part is committed as often as the row is
canceled, once or not at all, and all parts by the same transaction.  A `Cancel` that commits is the
one that cancels, every other one ends in an error and leaves the tables alone, and the two entries of
a canceled payment cancel each other on every account.
-/

namespace PaymentRail.Rail

open Transaction Ledger Chain Sink Payments

/-- What a cancellation is made of. -/
inductive Part where
  | flip
  | entry
  | event
  | audit
  deriving DecidableEq

/-- The write is this part of the cancellation of a payment. -/
def Part.of (pid : UUID) : Part → Write → Bool
  | .flip, .cancelPayment id _ => id = pid
  | .entry, .insertJournalEntry je => Role.refund.names pid je
  | .event, .insertOutboxEvent row =>
    row.eventType = "payment.canceled" && row.aggregateID = pid.string
  | .audit, .insertAuditEntry row => row.action = "payment.canceled" && row.aggregateID = pid.string
  | _, _ => false

/-- The row of the payment is canceled. -/
def isCanceled (db : Db) (pid : UUID) : Bool := (db.payment pid).any (·.status = .canceled)

theorem isCanceled_eq {db : Db} {pid : UUID} {pay : Payment} (h : db.payment pid = some pay) :
    isCanceled db pid = decide (pay.status = .canceled) := by
  simp [isCanceled, h]

theorem isCanceled_iff {db : Db} {pid : UUID} :
    isCanceled db pid = true ↔ ∃ pay, db.payment pid = some pay ∧ pay.status = .canceled := by
  cases hrow : db.payment pid with
  | none => simp [isCanceled, hrow]
  | some pay => simp [isCanceled, hrow]

/-- How often a part of the cancellation of a payment was committed. -/
def committedParts (pid : UUID) (part : Part) (history : List (Commit Write Call Result)) : ℕ :=
  (history.flatMap Commit.writes).countP (part.of pid)

/-- The commit cancels the payment. -/
def Cancels (pid : UUID) (call : Call) (writes : List Write) : Prop :=
  call = .cancel pid ∧ writes ≠ []

instance (pid : UUID) (call : Call) (writes : List Write) : Decidable (Cancels pid call writes) :=
  inferInstanceAs (Decidable (_ ∧ _))

section Steps

variable {rt : Audit.Runtime} {allowed : Stmt → Ambient → Db → Prop} {db : Db} {call : Call}
  {writes : List Write} {pid : UUID}

/-- The rows that announce a transition name its event and its aggregate. -/
theorem names_of_announced {event : Outbox.Event} {entry : Audit.Entry} {sent : OutboxRow}
    {logged : AuditRow} (h : Audit.Announced rt event entry sent logged) :
    (sent.eventType = event.type ∧ sent.aggregateID = event.aggregateID) ∧
      logged.action = entry.action ∧ logged.aggregateID = entry.aggregateID := by
  obtain ⟨id, now, rfl⟩ := h.event
  obtain ⟨occurred, seq, prev, rfl⟩ := h.entry
  exact ⟨⟨rfl, rfl⟩, rfl, rfl⟩

theorem Part.of_insertEntryLine (part : Part) (line : EntryLine) :
    part.of pid (.insertEntryLine line) = false := by
  cases part <;> rfl

/-- An entry of another kind is no part of a cancellation. -/
theorem countP_part_entry {entry : Entry} {je : JournalEntry} (kind : String) (h : je.kind = kind)
    (hkind : kind ≠ "payment.reversal") (part : Part) :
    (entry.writes je).countP (part.of pid) = 0 := by
  have hentry : part.of pid (.insertJournalEntry je) = false := by
    cases part with
    | entry => simp [Part.of, Role.names, Role.kind, h, hkind]
    | _ => rfl
  rw [countP_entry_writes part.of_insertEntryLine, hentry]
  rfl

/-- A transition with another event is no part of a cancellation. -/
theorem countP_part_transition {event : Outbox.Event} {entry : Audit.Entry} {flip : Write}
    {sent : OutboxRow} {logged : AuditRow} (type : String)
    (h : Audit.Announced rt event entry sent logged)
    (hnames : event.type = type ∧ entry.action = type) (htype : type ≠ "payment.canceled")
    (hflip : ∀ part : Part, part.of pid flip = false) (part : Part) :
    (transition flip sent logged).countP (part.of pid) = 0 := by
  obtain ⟨⟨hsent, -⟩, hlogged, -⟩ := names_of_announced h
  rw [countP_transition, hflip]
  cases part with
  | event => simp [Part.of, hsent, hnames.1, htype]
  | audit => simp [Part.of, hlogged, hnames.2, htype]
  | flip | entry => rfl

/-- The writes of a cancellation hold every part of it once, and no part of the cancellation of
another payment. -/
theorem countP_part_cancel {pid' : UUID} {payment : Payment} {je : JournalEntry} {sent : OutboxRow}
    {logged : AuditRow} (hposting : Posting db (reversalEntry pid' payment) je)
    (hannounced : Audit.Announced rt
      (Payments.outboxEvent "payment.canceled" pid' (payment.cancel (some je.id)))
      (Payments.auditEntry "payment.canceled" pid' (payment.cancel (some je.id))) sent logged)
    (part : Part) :
    ((reversalEntry pid' payment).writes je ++
      transition (.cancelPayment pid' (some je.id)) sent logged).countP (part.of pid) =
      if pid' = pid then 1 else 0 := by
  have hje : Role.refund.names pid je = decide (pid = pid') := by
    rw [Role.names_entry .refund .refund pid' pid payment ⟨0, "", "", "", ""⟩ "" hposting.kind
      hposting.externalRef]
    simp
  have hstring : pid'.string = pid.string ↔ pid' = pid := UUID.string_injective.eq_iff
  obtain ⟨⟨hsent, hsentFor⟩, hlogged, hloggedFor⟩ := names_of_announced hannounced
  rw [List.countP_append, countP_entry_writes part.of_insertEntryLine, countP_transition]
  cases part with
  | flip => simp [Part.of]
  | entry => simp [Part.of, hje, eq_comm]
  | event => simp [Part.of, hsent, hsentFor, Payments.outboxEvent, hstring]
  | audit => simp [Part.of, hlogged, hloggedFor, Payments.auditEntry, hstring]

/-- A commit holds every part of the cancellation of a payment once if it cancels that payment, and no
part otherwise. -/
theorem Committed.countP_part (h : Committed rt allowed db call writes) (part : Part) :
    writes.countP (part.of pid) = if Cancels pid call writes then 1 else 0 := by
  cases h with
  | nothing => simp [Cancels]
  | created input pid' je payment sent logged posting fresh row announced =>
    rw [List.countP_append, countP_part_entry "payment" posting.kind (by decide),
      countP_part_transition "payment.created" announced ⟨rfl, rfl⟩ (by decide)
        fun part ↦ by cases part <;> rfl]
    simp [Cancels]
  | canceled pid' payment je sent logged row completed posting announced =>
    rw [countP_part_cancel posting announced]
    simp [Cancels, transition]
  | linked => cases part <;> simp [Cancels, Part.of]
  | settled st row pay house je sent logged phase resolved settleable posting announced =>
    rw [List.countP_append, countP_part_entry "settlement.settle" posting.kind (by decide),
      countP_part_transition "settlement.confirmed" announced ⟨rfl, rfl⟩ (by decide)
        fun part ↦ by cases part <;> rfl]
    simp [Cancels]
  | reversed st row pay house je sent logged phase resolved isSettled posting announced =>
    rw [List.countP_append, countP_part_entry "settlement.reversal" posting.kind (by decide),
      countP_part_transition "settlement.reorged" announced ⟨rfl, rfl⟩ (by decide)
        fun part ↦ by cases part <;> rfl]
    simp [Cancels]
  | finalized st row sent logged phase found isSettled announced =>
    rw [countP_part_transition "settlement.finalized" announced ⟨rfl, rfl⟩ (by decide)
      fun part ↦ by cases part <;> rfl]
    simp [Cancels]
  | settledUnmarked st row pay house je phase resolved posting unmarked =>
    rw [countP_part_entry "settlement.settle" posting.kind (by decide)]
    simp [Cancels]
  | reversedUnmarked st row pay house je phase resolved posting unmarked =>
    rw [countP_part_entry "settlement.reversal" posting.kind (by decide)]
    simp [Cancels]

/-- After a commit a payment is canceled if it was before or if the commit canceled it, and what a
commit cancels was not. -/
theorem Committed.isCanceled_view (h : Committed rt allowed db call writes) (pid : UUID) :
    isCanceled (queries.view db writes) pid = (isCanceled db pid || decide (Cancels pid call writes)) ∧
      (Cancels pid call writes → isCanceled db pid = false) := by
  have hkept : ∀ db' : Db, db'.payment pid = db.payment pid → ¬Cancels pid call writes →
      isCanceled db' pid = (isCanceled db pid || decide (Cancels pid call writes)) ∧
        (Cancels pid call writes → isCanceled db pid = false) := by
    intro db' hrow hnot
    simp [isCanceled, hrow, hnot]
  cases h with
  | nothing => exact hkept _ rfl (by simp [Cancels])
  | created input pid' je payment sent logged posting fresh row announced =>
    rw [Engine.view_append, view_entry_writes]
    by_cases hpid : pid' = pid
    · subst hpid
      have hid : payment.id = pid' := by rw [row]
      have hself : Table.lookup Payment.id (db.payments ++ [payment]) payment.id = some payment :=
        Table.lookup_append_self (by rw [hid]; exact fresh)
      rw [hid] at hself
      have hafter : (queries.view (postEntry db (paymentEntry pid' input) je)
          (transition (.insertPayment payment) sent logged)).payment pid' = some payment := hself
      rw [isCanceled_eq hafter, row]
      simp [isCanceled, fresh, Cancels]
    · refine hkept _ (Table.lookup_append_of_ne ?_) (by simp [Cancels])
      rw [row]
      exact hpid
  | canceled pid' payment je sent logged row completed posting announced =>
    rw [Engine.view_append, view_entry_writes]
    by_cases hpid : pid' = pid
    · subst hpid
      have hself : Table.lookup Payment.id (Table.modify Payment.id db.payments pid'
          (·.cancel (some je.id))) pid' = (db.payment pid').map (·.cancel (some je.id)) :=
        Table.lookup_modify_self fun _ ↦ rfl
      rw [row] at hself
      have hafter : (queries.view (postEntry db (reversalEntry pid' payment) je)
          (transition (.cancelPayment pid' (some je.id)) sent logged)).payment pid' =
            some (payment.cancel (some je.id)) := hself
      rw [isCanceled_eq hafter, isCanceled_eq row]
      simp [Payment.cancel, completed, Cancels, transition]
    · refine hkept _ (Table.lookup_modify_of_ne (fun _ ↦ rfl) (Ne.symm hpid)) ?_
      simp [Cancels, hpid]
  | linked | finalized => exact hkept _ rfl (by simp [Cancels])
  | settled | reversed =>
    rw [Engine.view_append, view_entry_writes]
    exact hkept _ rfl (by simp [Cancels])
  | settledUnmarked | reversedUnmarked =>
    rw [view_entry_writes]
    exact hkept _ rfl (by simp [Cancels])

end Steps

section Runs

variable {rt : Audit.Runtime} {allowed : Stmt → Ambient → Db → Prop} {start db : Db}
  {history : List (Commit Write Call Result)} {s : RailState} {pid : UUID}

/-- A `Cancel` that succeeds has written something. -/
theorem wp_cancel_writes (pid : UUID) :
    wp queries allowed Rely (cancel rt pid) (OnSuccess fun _ writes _ _ ↦ writes ≠ []) [] [] db := by
  rw [cancel, wp_stmt_bind]
  intro _ _ _ _
  rw [wp_success_bind, wp_orFail]
  intro payment _
  rw [wp_success_bind, wp_success_ofExcept]
  intro _ _
  rw [wp_success_bind]
  refine wp_postWithin fun je locks posted _ _ _ ↦ ?_
  refine wp_mono (fun result writes _ _ hwrites ↦ ?_) (wp_writes_ne_nil _ (by simp [Entry.writes]))
  cases result with
  | ok value => exact hwrites
  | error err => trivial

variable (rt allowed) in
/-- What the calls of the rail reach, and that a `Cancel` reaches it by canceling. -/
theorem discipline_cancels : Discipline queries allowed Rely (body rt) fun call result writes locks db ↦
    Post rt allowed call result writes locks db ∧
      OnSuccess (fun _ writes _ _ ↦ ∀ pid, call = .cancel pid → Cancels pid call writes) result writes
        locks db := by
  refine (discipline rt allowed).and (fun call result _ _ _ _ h _ ↦ ?_) fun call db ↦ ?_
  · cases result <;> exact h
  · cases call with
    | cancel pid =>
      rw [body, wp_success_bind]
      refine wp_success_mono (fun _ writes _ _ hwrites ↦ ?_) (wp_cancel_writes pid)
      exact fun pid' hcall ↦ ⟨hcall, hwrites⟩
    | _ =>
      refine wp_mono (fun result _ _ _ _ ↦ ?_) (@wp_body rt allowed db _)
      cases result with
      | ok value => rintro _ ⟨⟩
      | error err => trivial

/-- Every commit of a run is one of those of the rail, and a `Cancel` commits by canceling. -/
theorem serial_cancels (h : Reaches queries (body rt) allowed start s) :
    Serial queries (fun call _ writes db ↦ Committed rt allowed db call writes ∧
      ∀ pid, call = .cancel pid → Cancels pid call writes) start s.history s.db :=
  ((discipline_cancels rt allowed).serial h).mono fun _ _ _ _ ⟨_, hpost, hcancels⟩ ↦
    ⟨hpost.1, hcancels⟩

/-- Each part of the cancellation of a payment is committed once if its row is canceled, and never
otherwise. -/
theorem committedParts_serial (hstart : Opening start)
    (h : Serial queries (fun call _ writes db ↦ Committed rt allowed db call writes) start history
      db) (part : Part) :
    committedParts pid part history = if isCanceled db pid then 1 else 0 := by
  induction h with
  | nil =>
    have hnone : start.payment pid = none := by
      rw [Db.payment, hstart.payments]
      rfl
    simp [committedParts, isCanceled, hnone]
  | @cons history before commit _ hcommit ih =>
    obtain ⟨hafter, hfirst⟩ := hcommit.isCanceled_view pid
    rw [committedParts, List.flatMap_cons, List.countP_append, hcommit.countP_part, hafter]
    rw [committedParts] at ih
    rw [ih]
    by_cases hcancels : Cancels pid commit.call commit.writes
    · simp [hcancels, hfirst hcancels]
    · simp [hcancels]

/-- The entry of a canceled payment and its mirror entry leave every account as it was. -/
theorem balanceWhere_canceled {pay : Payment} (hbooks : Books db pid)
    (hpay : db.payment pid = some pay) (hcanceled : pay.status = .canceled) (accountID : UUID) :
    db.balanceWhere (ownEntry pid fun role ↦ role = .payment || role = .refund) accountID = 0 := by
  obtain ⟨house, hclears⟩ : ∃ house, Clears db pay.asset house := by
    rcases hhouse : db.accountByNameAndAsset houseAccountName pay.asset with _ | account
    · exact ⟨0, by simp [Clears, hhouse]⟩
    · exact ⟨account.id, by simp [Clears, hhouse]⟩
  have heffect : Role.payment.effect pay house accountID + Role.refund.effect pay house accountID =
      0 := by
    simp only [Role.effect]
    rw [moved_comm pay.amount pay.sourceAccountID]
    exact Int.add_right_neg _
  rw [hbooks.balances pay house hpay hclears]
  simp only [expected, Role.all, List.map_cons, List.map_nil, List.sum_cons, List.sum_nil,
    hbooks.effected pay hpay, hbooks.refunded pay hpay, hcanceled]
  simpa using heffect

/-- In every interleaving each part of the cancellation of a payment is committed once if the row is
canceled and never otherwise, all of them by the transaction that flips the row.  A `Cancel` that
commits is that transaction; once the row is canceled every other one ends in an error, which cannot
commit and leaves the tables as they are.  The two entries together move nothing. -/
theorem canceled_once (hstart : Opening start)
    (h : Reaches queries (body rt) unrestricted start s) (pid : UUID) :
    (∀ part, committedParts pid part s.history = if isCanceled s.db pid then 1 else 0) ∧
    (∀ commit ∈ s.history, ∀ part : Part, commit.writes.countP (part.of pid) =
      if commit.call = .cancel pid then 1 else 0) ∧
    (∀ tid session, s.session tid = some session → session.call = .cancel pid →
      (isCanceled s.db pid = true → ∀ result, session.rest = .done result →
        ∃ err, result = .error err) ∧
      (∀ err, session.rest = .done (.error err) →
        step queries (body rt) s (.commit tid) = none) ∧
      ∀ s', step queries (body rt) s (.abort tid) = some s' → s'.db = s.db) ∧
    (isCanceled s.db pid = true → ∀ accountID, s.db.balanceWhere
      (ownEntry pid fun role ↦ role = .payment || role = .refund) accountID = 0) := by
  refine ⟨committedParts_serial hstart (serial h), fun commit hcommit part ↦ ?_,
    fun tid session hopen hcall ↦ ⟨fun hcanceled result hdone ↦ ?_, fun err hdone ↦ ?_,
      fun s' hstep ↦ ?_⟩, fun hcanceled accountID ↦ ?_⟩
  · obtain ⟨before, hcommitted, hcancels⟩ := (serial_cancels h).of_mem hcommit
    rw [hcommitted.countP_part]
    by_cases hcall : commit.call = .cancel pid
    · rw [if_pos (hcancels pid hcall), if_pos hcall]
    · rw [if_neg fun hcancel ↦ hcall hcancel.1, if_neg hcall]
  · cases result with
    | error err => exact ⟨err, rfl⟩
    | ok value =>
      -- a transaction about to commit would cancel the row a second time
      obtain ⟨hwp, -⟩ := (discipline_cancels rt unrestricted).covered h tid session hopen
      rw [hdone] at hwp
      obtain ⟨⟨hcommitted, -⟩, hcancels⟩ := hwp
      have hfirst := (hcommitted.isCanceled_view pid).2 (hcancels pid hcall)
      rw [hcanceled] at hfirst
      cases hfirst
  · obtain ⟨call, rest, writes, locks⟩ := session
    obtain rfl : rest = .done (.error err) := hdone
    simp [step, hopen]
  · rw [step_abort hstep, State.close]
  · obtain ⟨pay, hpay, hstatus⟩ := isCanceled_iff.mp hcanceled
    exact balanceWhere_canceled ((books_serial hstart (serial h)).2 pid) hpay hstatus
      accountID

end Runs

/-! ### Two calls for one payment -/

/-- Some statements of one transaction, with random identifiers counted up from `seed`. -/
def execs (tid seed statements : ℕ) : List (Action Call Ambient) :=
  (List.range statements).map fun n ↦ .exec tid ⟨BitVec.ofNat 128 (seed + n), n⟩

/-- Two calls of `Cancel` that both read the completed payment; the first one commits before the
second goes on. -/
def racingCancels : List (Action Call Ambient) :=
  serve (.create ⟨1, 2, "USDC", 100⟩) 100 15 ++ [.start 1 (.cancel 100), .start 2 (.cancel 100)] ++
    execs 1 400 1 ++ execs 2 500 1 ++ execs 1 401 14 ++ [.commit 1]

/-- What an open transaction that has ended in an error reports. -/
def reported (s : RailState) (tid : ℕ) : Option Sentinel :=
  (s.session tid).bind fun session ↦
    match session.rest with
    | .done (.error err) => err.cause
    | _ => none

theorem exists_of_reported {s : RailState} {tid : ℕ} {cause : Sentinel}
    (h : reported s tid = some cause) :
    ∃ session err, s.session tid = some session ∧ session.rest = .done (.error err) := by
  obtain ⟨session, hopen, hcause⟩ := Option.bind_eq_some_iff.mp h
  split at hcause
  · next err hdone => exact ⟨session, err, hopen, hdone⟩
  · cases hcause

/-- The second call is open with nothing left to commit, and the payment is canceled once. -/
theorem canceled_once_racing :
    ∃ s session err, openingRun (racingCancels ++ execs 2 501 4) = some s ∧
      s.session 2 = some session ∧ session.rest = .done (.error err) ∧
      step queries (body sampleRuntime) s (.commit 2) = none ∧ isCanceled s.db 100 = true ∧
      (∀ part, committedParts 100 part s.history = 1) ∧
      ∀ accountID, s.db.balanceWhere
        (ownEntry 100 fun role ↦ role = .payment || role = .refund) accountID = 0 := by
  have hend : (openingRun (racingCancels ++ execs 2 501 4)).map (fun s ↦ (isCanceled s.db 100,
      (s.session 2).map fun session ↦ session.call, reported s 2)) =
      some (true, some (.cancel 100), some .errDuplicateEntry) := by
    decide +kernel
  obtain ⟨s, hs, hvalues⟩ := Option.map_eq_some_iff.mp hend
  obtain ⟨hcanceled, hvalues⟩ := Prod.mk.inj hvalues
  obtain ⟨hcall, hreported⟩ := Prod.mk.inj hvalues
  obtain ⟨session, err, hopen, hdone⟩ := exists_of_reported hreported
  rw [hopen, Option.map_some, Option.some.injEq] at hcall
  have hreaches : Reaches queries (body sampleRuntime) unrestricted openingDb s :=
    reaches_of_schedule .idle hs (permittedRun_unrestricted _ _)
  obtain ⟨hparts, -, hothers, hbalances⟩ := canceled_once opening_openingDb hreaches 100
  refine ⟨s, session, err, hs, hopen, hdone, (hothers 2 session hopen hcall).2.1 err hdone,
    hcanceled, fun part ↦ ?_, hbalances hcanceled⟩
  rw [hparts, if_pos hcanceled]

end PaymentRail.Rail
