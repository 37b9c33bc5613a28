import PaymentRail.Rail.Refunds

/-!
# The error of a `Cancel` that lost the race

Of several calls of `Cancel` for one payment at most one cancels it.  The others should report that
the payment is not cancelable, which `Cancel` checks twice: on the row it reads first, and again in
the guarded `UPDATE`, whose empty result it reports as a lost race.

The second check never reports a lost race.  A call that read a completed payment posts its mirror
entry before the `UPDATE`; once another call has committed, that posting fails, on the balance of the
destination or on the unique reference of the entry (`lost_race_ledger_error`).  The call
reports the error of the ledger instead.  Only a call that reads the payment after the cancellation
has committed reports that it is not cancelable (`notCancelable_iff`).
-/

namespace PaymentRail.Rail

open Transaction Ledger Chain Sink Payments

/-- The error is not about a payment that cannot be canceled. -/
def Elsewhere (err : Err) : Prop := err.is .errPaymentNotCancelable = false

section Ledger

/-- A reply that is handed on fails with its error in context. -/
theorem fails_orFail {α : Type} {blame : Err → Prop} {reply : Except Err α} {context : Err → Err}
    (h : ∀ err, reply = .error err → blame (context err)) :
    Fails queries blame (orFail reply context) := by
  refine Fails.ofExcept fun err herr ↦ ?_
  cases reply with
  | ok value => cases herr
  | error inner =>
    obtain rfl := Except.error.inj herr
    exact h inner rfl

theorem elsewhere_sumLines {lines : List Line} {debits credits : Int64} {err : Err}
    (h : sumLines lines debits credits = .error err) : Elsewhere err := by
  induction lines generalizing debits credits with
  | nil =>
    unfold sumLines at h
    split at h
    · cases h
      rfl
    · cases h
  | cons line rest ih =>
    unfold sumLines at h
    repeat' split at h
    · cases h
      rfl
    · exact ih h
    · exact ih h
    · cases h
      rfl

theorem elsewhere_validate {entry : Entry} {err : Err} (h : entry.validate = .error err) :
    Elsewhere err := by
  unfold Entry.validate balanced at h
  repeat' split at h
  · cases h
    rfl
  · cases h
    rfl
  · exact elsewhere_sumLines h

theorem elsewhere_checkAccounts {accounts : List Account} {asset : String} {ids : List UUID}
    {err : Err} (h : checkAccounts accounts asset ids = .error err) : Elsewhere err := by
  induction ids with
  | nil => cases h
  | cons id rest ih =>
    unfold checkAccounts at h
    repeat' split at h
    · cases h
      rfl
    · cases h
      rfl
    · cases h
      rfl
    · exact ih h

theorem elsewhere_applyLines {lines : List Line} {next : Balances} {err : Err}
    (h : applyLines lines next = .error err) : Elsewhere err := by
  induction lines generalizing next with
  | nil => cases h
  | cons line rest ih =>
    unfold applyLines at h
    split at h
    · exact ih h
    · exact ih h
    · cases h
      rfl

theorem elsewhere_applyToBalances {cur : Balances} {lines : List Line} {err : Err}
    (h : applyToBalances cur lines = .error err) : Elsewhere err := by
  unfold applyToBalances at h
  split at h
  · next inner happly =>
    obtain rfl := Except.error.inj h
    exact elsewhere_applyLines happly
  · split at h
    · cases h
      rfl
    · cases h

theorem fails_readBalances (ids : List UUID) : Fails queries Elsewhere (readBalances ids) := by
  induction ids with
  | nil => exact Fails.pure _
  | cons id rest ih =>
    refine Fails.stmt_bind fun ambient db ↦ (fails_orFail fun err herr ↦ ?_).bind fun bal ↦
      ih.bind fun cur ↦ Fails.pure _
    simp only [queries, Stmt.eval, Effect.read] at herr
    split at herr
    · cases herr
    · cases herr
      rfl

theorem fails_insertLines (entryID : UUID) (lines : List Line) :
    Fails queries Elsewhere (insertLines entryID lines) := by
  induction lines with
  | nil => exact Fails.pure _
  | cons line rest ih =>
    refine Fails.stmt_bind fun ambient db ↦ (fails_orFail fun err herr ↦ ?_).bind fun _ ↦ ih
    simp only [queries, Stmt.eval] at herr
    repeat' split at herr
    all_goals cases herr
    all_goals rfl

/-- The ledger knows nothing of payments: no error of `PostWithin` is about one. -/
theorem fails_postWithin (entry : Entry) : Fails queries Elsewhere (postWithin entry) := by
  refine (Fails.ofExcept fun _ h ↦ elsewhere_validate h).bind fun _ ↦
    Fails.stmt_bind fun ambient db ↦ (fails_orFail fun err herr ↦ by cases herr).bind fun accounts ↦
    (Fails.ofExcept fun _ h ↦ elsewhere_checkAccounts h).bind fun _ ↦
    (fails_readBalances _).bind fun cur ↦
    (Fails.ofExcept fun _ h ↦ elsewhere_applyToBalances h).bind fun _ ↦
    Fails.stmt_bind fun ambient db ↦ (fails_orFail fun err herr ↦ ?_).bind fun je ↦
    (fails_insertLines _ _).bind fun _ ↦ Fails.pure _
  simp only [queries, Stmt.eval] at herr
  repeat' split at herr
  all_goals cases herr
  all_goals rfl

theorem fails_append (rt : Audit.Runtime) (entry : Audit.Entry) :
    Fails queries Elsewhere (Audit.append rt entry) := by
  have hoccurred : Fails queries Elsewhere (Audit.occurredAt entry) := by
    unfold Audit.occurredAt
    split
    · exact Fails.pure _
    · exact fun _ _ _ _ _ _ _ ↦ trivial
  have hinsert : ∀ occurred place, Fails queries Elsewhere
      (Audit.insertAt rt entry occurred place) := by
    refine fun occurred place ↦ Fails.stmt_bind fun ambient db ↦ fails_orFail fun err herr ↦ ?_
    simp only [queries, Stmt.eval] at herr
    repeat' split at herr
    all_goals cases herr
    all_goals rfl
  refine hoccurred.bind fun occurred ↦ Fails.stmt_bind fun ambient db ↦
    (fails_orFail fun err herr ↦ by cases herr).bind fun _ ↦ Fails.stmt_bind fun ambient db ↦
    Fails.bind ?_ (hinsert occurred)
  have hhead : (queries.eval .getAuditHead ambient db).reply = Db.one db.auditHead := rfl
  rw [hhead]
  cases db.auditHead <;> exact Fails.pure _

theorem fails_announce (rt : Audit.Runtime) (event : Outbox.Event) (entry : Audit.Entry) :
    Fails queries Elsewhere (Audit.announce rt event entry) := by
  refine Fails.bind ?_ fun _ ↦ fails_append rt entry
  refine Fails.stmt_bind fun named db ↦ Fails.stmt_bind fun timed db ↦ Fails.stmt_bind fun ambient db ↦
    fails_orFail fun err herr ↦ ?_
  simp only [queries, Stmt.eval] at herr
  split at herr
  all_goals cases herr
  all_goals rfl

end Ledger

section Race

variable {rt : Audit.Runtime} {allowed : Stmt → Ambient → Db → Prop} {start db : Db} {pid : UUID}
  {tid : ℕ} {s s' s'' : RailState}

/-- `Cancel` with its mirror entry posted. -/
def afterPost (rt : Audit.Runtime) (pid : UUID) (je : JournalEntry) : DbTx Payment := do
  let canceled ← orFail (← Tx.stmt (.cancelPayment pid (some je.id))) (flipError pid)
  Audit.announce rt (outboxEvent "payment.canceled" pid canceled)
    (auditEntry "payment.canceled" pid canceled)
  pure canceled

/-- `Cancel` from the reply of its first statement on. -/
def afterRead (rt : Audit.Runtime) (pid : UUID) (reply : Except Err Payment) : DbTx Payment := do
  let payment ← orFail reply (readError pid)
  Tx.ofExcept (checkCancelable pid payment)
  let je ← postWithin (reversalEntry pid payment)
  afterPost rt pid je

theorem body_cancel (rt : Audit.Runtime) (pid : UUID) :
    body rt (.cancel pid) = .call (.getPayment pid) fun reply ↦
      (afterRead rt pid reply >>= fun payment ↦ pure (.payment payment) : DbTx Result) := rfl

/-- Every canceled payment has its mirror entry in the journal. -/
def Refunded (db : Db) : Prop :=
  ∀ pid pay, db.payment pid = some pay → pay.status = .canceled →
    db.posted "payment.reversal" (pid.string ++ ":reversal") = true

theorem refunded_of_reaches (hstart : Opening start)
    (h : Reaches queries (body rt) allowed start s) : Refunded s.db := by
  intro pid pay hpay hcanceled
  have hone := ((books_serial hstart (serial h)).2 pid).refunded pay hpay
  rw [if_pos hcanceled, entriesOf] at hone
  obtain ⟨je, hje, hnames⟩ := List.countP_pos_iff.mp (by omega :
    0 < s.db.journalEntries.countP (Role.refund.names pid))
  refine List.any_eq_true.mpr ⟨je, hje, ?_⟩
  rw [Role.names, Bool.and_eq_true, decide_eq_true_eq] at hnames
  exact decide_eq_true ⟨hnames.1, of_decide_eq_true hnames.2⟩

/-- The `UPDATE` of `Cancel` that fails either found no completed row or is not about the row. -/
theorem eval_cancelPayment_error {ambient : Ambient} {reversalEntryID : Option UUID} {err : Err}
    (h : (queries.eval (.cancelPayment pid reversalEntryID) ambient db).reply = .error err) :
    (err.is .errNoRows = false ∧ Elsewhere err) ∨
      ∀ pay, db.payment pid = some pay → pay.status ≠ .completed := by
  simp only [queries, Stmt.eval] at h
  split at h
  · next before hrow =>
    split at h
    · next hstatus =>
      refine .inr fun pay hpay ↦ ?_
      obtain rfl := Option.some.inj (hrow.symm.trans hpay)
      exact hstatus
    · split at h
      · cases h
        exact .inl ⟨rfl, rfl⟩
      · cases h
  · next hrow => exact .inr fun pay hpay ↦ by rw [hrow] at hpay; cases hpay

/-- A call that read a completed payment does not report that it is not cancelable: with its mirror
entry posted nobody else has refunded the payment, so the `UPDATE` finds the row completed. -/
theorem wp_completed {payment : Payment} (hrow : db.payment pid = some payment)
    (hcompleted : payment.status = .completed) :
    wp queries allowed (within Rely Refunded) (afterRead rt pid (.ok payment)) (OnFailure Elsewhere)
      [] [] db := by
  have hcheck : checkCancelable pid payment = .ok () := by simp [checkCancelable, hcompleted]
  have hpost : wp queries allowed (within Rely Refunded) (postWithin (reversalEntry pid payment))
      (OnSuccess fun je ↦ wp queries allowed (within Rely Refunded) (afterPost rt pid je)
        (OnFailure Elsewhere)) [] [] db := by
    refine wp_anti (fun _ _ _ hrely ↦ hrely.1) (wp_postWithin
      fun je locks posted hposted hposting hguarded ↦ ?_)
    rw [afterPost, wp_stmt_bind]
    rintro ambient flipped ⟨hflipped, hrefunded⟩ -
    refine wp_failure_bind ((fails_orFail fun err herr ↦ ?_).wp_failure) (wp_orFail.mpr
      fun canceled _ ↦ Fails.wp_failure ((fails_announce rt _ _).bind fun _ ↦ Fails.pure _))
    rcases eval_cancelPayment_error herr with ⟨hrows, helsewhere⟩ | hgone
    · simp only [flipError, hrows]
      exact helsewhere
    · -- the row is still there and was canceled by another call, which posted the same entry
      exfalso
      obtain ⟨later, hlater, hevolves⟩ :=
        (hposted.trans (hflipped.anti (by simp))).payment pid payment hrow
      have hstatus : later.status = .canceled := by
        rcases hevolves with rfl | ⟨reversal, rfl⟩
        · exact absurd hcompleted (hgone _ (by rw [payment_view_entry]; exact hlater))
        · rfl
      have hposted := hrefunded pid later hlater hstatus
      have hfresh := (hposting.stable hguarded hflipped).fresh
      rw [show (reversalEntry pid payment).kind = "payment.reversal" from rfl,
        show (reversalEntry pid payment).externalRef = pid.string ++ ":reversal" from rfl,
        hposted] at hfresh
      cases hfresh
  have hrest : afterRead rt pid (.ok payment) =
      (postWithin (reversalEntry pid payment) >>= afterPost rt pid : DbTx Payment) := by
    change (Tx.ofExcept (checkCancelable pid payment) >>= _ : DbTx Payment) = _
    rw [hcheck]
    rfl
  rw [hrest]
  exact wp_failure_bind ((fails_postWithin _).wp_failure) hpost

/-- What the first statement of `Cancel` reads decides whether it can report that the payment is not
cancelable. -/
theorem wp_afterRead (db : Db) :
    wp queries allowed (within Rely Refunded) (afterRead rt pid (Db.one (db.payment pid)))
      (OnFailure fun err ↦ err.is .errPaymentNotCancelable = isCanceled db pid) [] [] db := by
  cases hrow : db.payment pid with
  | none =>
    have hnot : isCanceled db pid = false := by simp [isCanceled, hrow]
    rw [hnot]
    exact rfl
  | some payment =>
    rw [isCanceled_eq hrow]
    cases hstatus : payment.status with
    | completed => exact wp_completed hrow hstatus
    | canceled =>
      have hcheck : checkCancelable pid payment = .error (errPaymentNotCancelable.wrap
          ("payments: cancel " ++ pid.string ++ " is " ++ statusText payment.status)) := by
        simp [checkCancelable, hstatus]
      change wp queries allowed _ (Tx.ofExcept (checkCancelable pid payment) >>= _ : DbTx Payment) _ _ _ _
      rw [hcheck]
      exact rfl

/-- The state after the first statement of `Cancel`. -/
theorem step_read {ambient : Ambient}
    (hopen : s.session tid = some ⟨.cancel pid, body rt (.cancel pid), [], []⟩)
    (hread : step queries (body rt) s (.exec tid ambient) = some s') :
    s'.db = s.db ∧ s'.session tid = some ⟨.cancel pid,
      (afterRead rt pid (Db.one (s.db.payment pid)) >>= fun payment ↦ pure (.payment payment) :
        DbTx Result), [], []⟩ := by
  have hfree : ∀ lock ∈ (queries.eval (.getPayment pid) ambient (queries.view s.db [])).locks,
      s.holder lock = none ∨ s.holder lock = some tid := fun lock hlock ↦ by cases hlock
  rw [body_cancel] at hopen
  simp only [step, hopen, if_pos hfree, Option.some.injEq] at hread
  rw [← hread]
  exact ⟨rfl, Function.update_self ..⟩

/-- A `Cancel` that ends in an error reports that the payment is not cancelable exactly if the payment
was canceled when the call read it, whatever the others do in between. -/
theorem notCancelable_iff (hstart : Opening start)
    (hs : Reaches queries (body rt) unrestricted start s)
    (hopen : s.session tid = some ⟨.cancel pid, body rt (.cancel pid), [], []⟩) {ambient : Ambient}
    (hread : step queries (body rt) s (.exec tid ambient) = some s')
    (hlater : Relation.ReflTransGen (Onward queries (body rt) unrestricted tid) s' s'')
    {session : Session Reply Write Lock Call Err Result} {err : Err}
    (hsession : s''.session tid = some session) (hdone : session.rest = .done (.error err)) :
    err.is .errPaymentNotCancelable = true ↔ isCanceled s.db pid = true := by
  obtain ⟨hdb, hmid⟩ := step_read hopen hread
  have hwp : wp queries unrestricted (within Rely Refunded)
      (afterRead rt pid (Db.one (s.db.payment pid)) >>= fun payment ↦ pure (.payment payment) :
        DbTx Result)
      (OnFailure fun err ↦ err.is .errPaymentNotCancelable = isCanceled s.db pid) [] [] s'.db := by
    rw [hdb, wp_tx_bind]
    refine wp_mono (fun result _ _ _ h ↦ ?_) (wp_afterRead s.db)
    cases result <;> exact h
  obtain ⟨later, hopenLater, -, hend⟩ := (discipline rt unrestricted).onward
    (fun _ ↦ refunded_of_reaches hstart) (fun result _ _ _ _ h _ ↦ by cases result <;> exact h)
    (hs.step (permitted_unrestricted _ _) hread) hmid hwp hlater
  obtain rfl := Option.some.inj (hsession.symm.trans hopenLater)
  rw [hdone] at hend
  exact Bool.eq_iff_iff.mp hend

end Race

/-! ### What the loser of a race reports -/

/-- A merchant with nothing but what the payment brings. -/
def poorDb : Db :=
  { openingDb with
    journalEntries := [⟨10, "opening", "customer", "USDC"⟩]
    entryLines := [⟨10, 1, .credit, 200⟩] }

/-- A call that read the payment before the other one canceled it reports an error of the ledger: a
duplicate entry if the destination could pay twice, insufficient funds if it could not. -/
theorem lost_race_ledger_error :
    (schedule queries (body sampleRuntime) (State.idle openingDb) (racingCancels ++ execs 2 501 4)).map
        (fun s ↦ (isCanceled s.db 100, reported s 2)) = some (true, some .errDuplicateEntry) ∧
      (schedule queries (body sampleRuntime) (State.idle poorDb) (racingCancels ++ execs 2 501 3)).map
        (fun s ↦ (isCanceled s.db 100, reported s 2)) = some (true, some .errInsufficientFunds) := by
  decide +kernel

/-- A call that reads the payment after it was canceled. -/
theorem notCancelable_iff_late :
    ∃ s s' session err, Reaches queries (body sampleRuntime) unrestricted openingDb s ∧
      isCanceled s.db 100 = true ∧
      step queries (body sampleRuntime) s (.exec 1 ⟨500, 0⟩) = some s' ∧
      s'.session 1 = some session ∧ session.rest = .done (.error err) ∧
      err.is .errPaymentNotCancelable = true := by
  have hrun : ((openingRun (serve (.create ⟨1, 2, "USDC", 100⟩) 100 15 ++
      serve (.cancel 100) 400 15)).bind fun before ↦
      (step queries (body sampleRuntime) before (.start 1 (.cancel 100))).bind fun s ↦
        (step queries (body sampleRuntime) s (.exec 1 ⟨500, 0⟩)).map fun s' ↦
          (isCanceled s.db 100, reported s' 1)) =
      some (true, some .errPaymentNotCancelable) := by
    decide +kernel
  obtain ⟨before, hbefore, hrun⟩ := Option.bind_eq_some_iff.mp hrun
  obtain ⟨s, hbegin, hrun⟩ := Option.bind_eq_some_iff.mp hrun
  obtain ⟨s', hread, hvalues⟩ := Option.map_eq_some_iff.mp hrun
  obtain ⟨hcanceled, hreported⟩ := Prod.mk.inj hvalues
  obtain ⟨session, err, hsession, hdone⟩ := exists_of_reported hreported
  have hreaches : Reaches queries (body sampleRuntime) unrestricted openingDb s :=
    (reaches_of_schedule .idle hbefore (permittedRun_unrestricted _ _)).step
      (permitted_unrestricted _ _) hbegin
  have hopen : s.session 1 = some ⟨.cancel 100, body sampleRuntime (.cancel 100), [], []⟩ := by
    rw [step_start hbegin]
    simp only [Function.update_self]
  exact ⟨s, s', session, err, hreaches, hcanceled, hread, hsession, hdone,
    (notCancelable_iff opening_openingDb hreaches hopen hread .refl hsession hdone).mpr hcanceled⟩

end PaymentRail.Rail
