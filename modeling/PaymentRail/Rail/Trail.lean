import PaymentRail.Audit.Log
import PaymentRail.Rail.Events

/-!
# The audit trail of the payment rail

The calls of the rail append to the audit log at most once each, after everything else they write.
Under the lock of the chain nobody else's row reaches the log, so among all the calls the log stays
one chain, numbered from 1 without a gap, which `Verify` accepts (`Logs` is the calculus for this).

Together with the replay of events this makes the verified log a full account of the tables: two
runs whose logs hold the same records have the same payments and the same settlements.
-/

namespace PaymentRail.Audit

open Transaction

/-- The statement leaves the audit log alone. -/
def Unlogged : Stmt → Prop
  | .insertAuditEntry _ => False
  | _ => True

/-- A body whose writes to the log, from any point of a transaction on, are rows of appended
entries. -/
def Logs {α : Type} (rt : Runtime) (body : DbTx α) : Prop :=
  ∀ entries writes locks db, Appended rt entries writes locks db →
    wp queries unrestricted HeldLog body
      (OnSuccess fun _ writes' locks' after ↦
        ∃ more, Appended rt (entries ++ more) writes' locks' after) writes locks db

section Rules

variable {rt : Runtime} {α β : Type}

theorem auditRows_append (first second : List Write) :
    auditRows (first ++ second) = auditRows first ++ auditRows second := List.filterMap_append

theorem auditRows_markSettlement {db : Db} {txHash : String} {guard : SettlementStatus → Bool}
    {settleEntryID : Option UUID} {change : Settlement → Settlement} {write : Write}
    (hwrite : write.auditRow = none) :
    auditRows (markSettlement db txHash guard settleEntryID change write).writes = [] := by
  unfold markSettlement
  repeat' split
  all_goals simp [Effect.failed, Effect.wrote, auditRows, hwrite]

/-- Only the insert into the log adds to it. -/
theorem auditRows_eval {stmt : Stmt} (h : Unlogged stmt) (ambient : Ambient) (db : Db) :
    auditRows (queries.eval stmt ambient db).writes = [] := by
  cases stmt with
  | insertAuditEntry row => exact h.elim
  | markSettlementSettled | markSettlementReorged | markSettlementFinalized =>
    exact auditRows_markSettlement rfl
  | _ =>
    simp only [queries, Stmt.eval]
    repeat' split
    all_goals rfl

theorem Logs.bind {body : DbTx α} {rest : α → DbTx β} (hbody : Logs rt body)
    (hrest : ∀ value, Logs rt (rest value)) : Logs rt (body >>= rest) := by
  intro entries writes locks db h
  rw [wp_success_bind]
  refine wp_success_mono ?_ (hbody entries writes locks db h)
  rintro value writes' locks' after ⟨more, hmore⟩
  refine wp_success_mono ?_ (hrest value _ _ _ _ hmore)
  rintro _ writes'' locks'' later ⟨more', hmore'⟩
  exact ⟨more ++ more', by rwa [List.append_assoc] at hmore'⟩

theorem logs_pure (value : α) : Logs rt (pure value) :=
  fun entries _ _ _ h ↦ ⟨[], by rwa [List.append_nil]⟩

theorem logs_fail (err : Err) : Logs rt (Tx.fail err : DbTx α) := fun _ _ _ _ _ ↦ trivial

theorem logs_ofExcept (result : Except Err α) : Logs rt (Tx.ofExcept result) := by
  cases result with
  | ok value => exact logs_pure value
  | error err => exact logs_fail err

theorem logs_orFail (reply : Except Err α) (context : Err → Err) : Logs rt (orFail reply context) :=
  logs_ofExcept _

theorem logs_stmt {stmt : Stmt} (h : Unlogged stmt) : Logs rt (Tx.stmt stmt) := by
  intro entries writes locks db happended ambient after hrely _
  have hrows := (happended.stable hrely).rows
  refine ⟨[], ?_, ?_⟩
  · rwa [List.append_nil, auditRows_append, auditRows_eval h, List.append_nil]
  · intro hsome
    rw [List.append_nil] at hsome
    exact List.mem_append_left _ (happended.locked hsome)

theorem logs_stmt_bind {stmt : Stmt} {rest : Reply stmt → DbTx β} (h : Unlogged stmt)
    (hrest : ∀ reply, Logs rt (rest reply)) : Logs rt (Tx.stmt stmt >>= rest) :=
  (logs_stmt h).bind hrest

theorem logs_append (entry : Entry) : Logs rt (append rt entry) := by
  intro entries writes locks db h
  exact wp_success_mono (fun _ _ _ _ hone ↦ ⟨[entry], hone⟩) (wp_append_one entry h)

theorem logs_announce (event : Outbox.Event) (entry : Entry) : Logs rt (announce rt event entry) := by
  refine Logs.bind ?_ fun _ ↦ logs_append entry
  refine logs_stmt_bind trivial fun id ↦ logs_stmt_bind trivial fun now ↦ ?_
  exact logs_stmt_bind trivial fun reply ↦ logs_orFail _ _

end Rules

end PaymentRail.Audit

namespace PaymentRail.Rail

open Transaction Ledger Chain Sink Payments Audit Table

section Calls

variable {rt : Runtime}

theorem logs_readBalances (ids : List UUID) : Logs rt (readBalances ids) := by
  induction ids with
  | nil => exact logs_pure _
  | cons id rest ih =>
    exact logs_stmt_bind trivial fun reply ↦ (logs_orFail _ _).bind fun bal ↦
      ih.bind fun cur ↦ logs_pure _

theorem logs_insertLines (entryID : UUID) (lines : List Line) :
    Logs rt (insertLines entryID lines) := by
  induction lines with
  | nil => exact logs_pure _
  | cons line rest ih =>
    exact logs_stmt_bind trivial fun reply ↦ (logs_orFail _ _).bind fun _ ↦ ih

theorem logs_postWithin (entry : Ledger.Entry) : Logs rt (postWithin entry) := by
  refine (logs_ofExcept _).bind fun _ ↦ logs_stmt_bind trivial fun reply ↦ ?_
  refine (logs_orFail _ _).bind fun accounts ↦ (logs_ofExcept _).bind fun _ ↦ ?_
  refine (logs_readBalances _).bind fun cur ↦ (logs_ofExcept _).bind fun _ ↦ ?_
  refine logs_stmt_bind trivial fun inserted ↦ (logs_orFail _ _).bind fun je ↦ ?_
  exact (logs_insertLines _ _).bind fun _ ↦ logs_pure je

theorem logs_create (input : CreateInput) : Logs rt (create rt input) := by
  refine logs_stmt_bind trivial fun pid ↦ (logs_postWithin _).bind fun je ↦ ?_
  refine logs_stmt_bind trivial fun reply ↦ (logs_orFail _ _).bind fun payment ↦ ?_
  exact (logs_announce _ _).bind fun _ ↦ logs_pure payment

theorem logs_cancel (pid : UUID) : Logs rt (cancel rt pid) := by
  refine logs_stmt_bind trivial fun found ↦ (logs_orFail _ _).bind fun payment ↦ ?_
  refine (logs_ofExcept _).bind fun _ ↦ (logs_postWithin _).bind fun je ↦ ?_
  refine logs_stmt_bind trivial fun reply ↦ (logs_orFail _ _).bind fun canceled ↦ ?_
  exact (logs_announce _ _).bind fun _ ↦ logs_pure canceled

theorem logs_link (paymentID : UUID) (tx : TxHash) : Logs rt (link paymentID tx) := by
  refine logs_stmt_bind trivial fun reply ↦ ?_
  cases reply with
  | ok row => exact logs_pure _
  | error err =>
    simp only [linkOutcome]
    split
    · exact logs_fail _
    · refine logs_stmt_bind trivial fun found ↦ (logs_orFail _ _).bind fun existing ↦ ?_
      split
      · exact logs_fail _
      · exact logs_pure _

theorem logs_afterMark (context type : String) (tx : TxHash) (data : Settlement → EventData)
    (reply : Except Err Settlement) : Logs rt (afterMark rt context type tx data reply) := by
  cases reply with
  | ok row => exact logs_announce _ _
  | error err =>
    simp only [afterMark]
    split
    · exact logs_pure _
    · exact logs_fail _

theorem logs_resolve (st : Status) (sett : Settlement) : Logs rt (resolve rt st sett) := by
  refine logs_stmt_bind trivial fun found ↦ (logs_orFail _ _).bind fun pay ↦ ?_
  refine logs_stmt_bind trivial fun clearing ↦ (logs_orFail _ _).bind fun house ↦ ?_
  -- both directions post an entry, mark the row and announce what the mark returned
  split
  · unfold settle
    split
    · exact logs_pure _
    · exact (logs_postWithin _).bind fun je ↦ logs_stmt_bind trivial fun reply ↦
        logs_afterMark _ _ _ _ _
  · unfold Sink.reverse
    split
    · exact logs_pure _
    · exact (logs_postWithin _).bind fun je ↦ logs_stmt_bind trivial fun reply ↦
        logs_afterMark _ _ _ _ _

theorem logs_onStatus (st : Status) : Logs rt (onStatus rt st) := by
  have hdispatch : ∀ reply, Logs rt (dispatch rt st reply) := by
    intro reply
    cases reply with
    | ok sett => exact logs_resolve st sett
    | error err =>
      simp only [dispatch]
      split
      · exact logs_pure _
      · exact logs_fail _
  unfold onStatus
  split
  · exact logs_stmt_bind trivial hdispatch
  · exact logs_stmt_bind trivial hdispatch
  · exact logs_stmt_bind trivial fun reply ↦ logs_afterMark _ _ _ _ _
  · exact logs_pure _
  · exact logs_pure _

theorem logs_body (call : Call) : Logs rt (body rt call) := by
  cases call with
  | create input => exact (logs_create input).bind fun payment ↦ logs_pure _
  | cancel pid => exact (logs_cancel pid).bind fun payment ↦ logs_pure _
  | link paymentID tx => exact (logs_link paymentID tx).bind fun _ ↦ logs_pure _
  | onStatus st => exact (logs_onStatus st).bind fun _ ↦ logs_pure _

end Calls

/-- What a call has appended to the log when it commits. -/
def Logged (rt : Runtime) (writes : List Write) (locks : List Lock) (db : Db) : Prop :=
  ∃ entries, Appended rt entries writes locks db

theorem discipline_logged (rt : Runtime) : Discipline queries unrestricted HeldLog (body rt)
    (fun _ ↦ OnSuccess fun _ ↦ Logged rt) where
  refl := HeldLog.refl
  trans _ _ _ _ := HeldLog.trans
  stable _ result _ _ _ _ hpost hrely := by
    cases result with
    | error => trivial
    | ok =>
      obtain ⟨entries, happended⟩ := hpost
      exact ⟨entries, happended.stable hrely⟩
  verified call db := by
    have hnone : Appended rt [] [] [] db := ⟨.nil, by simp⟩
    exact logs_body call [] [] [] db hnone
  guarantee _ _ writes _ db others hpost hothers hheld := by
    obtain ⟨entries, happended⟩ := hpost
    -- a peer that holds the lock keeps everyone else from appending
    have hnone : entries = [] := by
      by_contra hsome
      exact hothers _ (happended.locked hsome) hheld
    have hrows := happended.rows.length_eq
    rw [hnone, List.length_nil, List.length_eq_zero_iff] at hrows
    rw [auditLog_view, hrows, List.append_nil]

section Runs

variable {rt : Runtime} {start : Db}

/-- The log of a run is what appends make of an empty one. -/
theorem extends_of_serial (hstart : start.auditLog = []) {db : Db}
    {history : List (Commit Write Call Result)}
    (h : Serial queries (fun _ _ writes db ↦ ∃ locks, Logged rt writes locks db) start history db) :
    ∃ entries, Extends rt [] entries db.auditLog := by
  induction h with
  | nil => exact ⟨[], by rw [hstart]; exact .nil⟩
  | cons commit _ hcommit ih =>
    obtain ⟨entries, hentries⟩ := ih
    obtain ⟨locks, more, hmore⟩ := hcommit
    refine ⟨entries ++ more, ?_⟩
    rw [auditLog_view]
    exact hentries.append (by rw [List.nil_append]; exact hmore.rows)

/-- With an encoding that loses nothing, the records of a log determine what the events of every
aggregate are. -/
theorem replay_eq_of_records {Key State : Type} (fold : Fold OutboxRow Key State)
    (hmarshal : Function.Injective rt.marshal)
    (hown : ∀ k (row row' : OutboxRow), row.record rt = row'.record rt →
      fold.own k row = fold.own k row')
    (hnext : ∀ state (row row' : OutboxRow), row.eventType = row'.eventType →
      row.payload.data = row'.payload.data → fold.next state row = fold.next state row')
    {log log' : List OutboxRow}
    (h : log.map (OutboxRow.record rt) = log'.map (OutboxRow.record rt)) (k : Key) :
    fold.replay log k = fold.replay log' k := by
  induction log using List.reverseRecOn generalizing log' with
  | nil =>
    rw [List.map_nil] at h
    rw [List.map_eq_nil_iff.mp h.symm]
  | append_singleton front row ih =>
    rcases List.eq_nil_or_concat log' with rfl | ⟨front', row', rfl⟩
    · simp at h
    · rw [List.concat_eq_append, List.map_append, List.map_append] at h
      obtain ⟨hfront, hrow⟩ := List.append_inj' h rfl
      have hrecord : row.record rt = row'.record rt := by simpa using hrow
      rw [List.concat_eq_append]
      cases hkey : fold.own k row with
      | false =>
        rw [Fold.replay_concat_of_not_own hkey,
          Fold.replay_concat_of_not_own ((hown k row row' hrecord).symm.trans hkey), ih hfront]
      | true =>
        rw [Fold.replay_concat_of_own hkey,
          Fold.replay_concat_of_own ((hown k row row' hrecord).symm.trans hkey), ih hfront]
        have htype : row.eventType = row'.eventType := congrArg LogRecord.action hrecord
        have hdata : row.payload.data = row'.payload.data :=
          hmarshal (congrArg LogRecord.payload hrecord)
        simp only [hnext _ row row' htype hdata]

/-- The audit log of every interleaving of the calls is numbered from 1 without a gap and accepted by
`Verify`; and it is a full account: another run, from any tables, whose log holds the same records has
the same payments and the same settlements, provided that the encoding of event bodies loses
nothing. -/
theorem trail_verifies_and_determines (hstart : Unused start) {s : RailState}
    (h : Reaches queries (body rt) unrestricted start s)
    (hlength : s.db.auditLog.length < 2 ^ 63 - 1) :
    s.db.scanAuditChain.map AuditRow.seq = (List.range s.db.auditLog.length).map seqAt ∧
    (verify rt s.db.scanAuditChain none).2 = none ∧
    ∀ (start' : Db) (s' : RailState), Function.Injective rt.marshal → Unused start' →
      Reaches queries (body rt) unrestricted start' s' →
      s'.db.auditLog.map AuditRow.record = s.db.auditLog.map AuditRow.record →
      (∀ pid, (s'.db.payment pid).map Payment.event = (s.db.payment pid).map Payment.event) ∧
        ∀ tx, settlementState s'.db tx = settlementState s.db tx := by
  obtain ⟨entries, hextends⟩ := extends_of_serial hstart.auditLog
    ((discipline_logged rt).serial h)
  obtain ⟨hchained, hhashed⟩ := hextends.chained (by omega)
  rw [scanAuditChain_of_chained hchained (by omega)]
  refine ⟨hchained.map_seq, (verify_eq_none_iff _ _ _).mpr ⟨hchained, hhashed, by simp⟩, ?_⟩
  intro start' s' hmarshal hstart' h' hrecords
  have hsourced := eventSourced_serial hstart.eventSourced (serial h)
  have hsourced' := eventSourced_serial hstart'.eventSourced (serial h')
  have hsame : s'.db.outbox.map (OutboxRow.record rt) = s.db.outbox.map (OutboxRow.record rt) := by
    rw [← hsourced'.mirrored, hrecords, hsourced.mirrored]
  have hconcerns : ∀ aggregateType aggregateID (row row' : OutboxRow),
      row.record rt = row'.record rt →
        concerns aggregateType aggregateID row = concerns aggregateType aggregateID row' := by
    intro aggregateType aggregateID row row' hrecord
    have htype : row.payload.aggregateType = row'.payload.aggregateType :=
      congrArg LogRecord.aggregateType hrecord
    have hid : row.aggregateID = row'.aggregateID := congrArg LogRecord.aggregateID hrecord
    rw [concerns, concerns, htype, hid]
  constructor
  · intro pid
    have hreplay := replay_eq_of_records paymentFold hmarshal
      (fun k ↦ hconcerns "payment" k.string)
      (fun state row row' htype hdata ↦ by simp only [paymentFold, htype, hdata]) hsame pid
    rw [hsourced.payments pid, hsourced'.payments pid] at hreplay
    exact Option.some.inj hreplay
  · intro tx
    have hreplay := replay_eq_of_records settlementFold hmarshal
      (fun k ↦ hconcerns "settlement" k)
      (fun state row row' htype hdata ↦ by simp only [settlementFold, htype, hdata]) hsame tx
    rw [hsourced.settlements tx, hsourced'.settlements tx] at hreplay
    exact Option.some.inj hreplay

end Runs

/-- The log of the sample payment: created, settled, canceled. -/
theorem trail_verifies_and_determines_sample :
    ∃ s, openingRun settledThenCanceled = some s ∧
      s.db.scanAuditChain.map AuditRow.seq = [1, 2, 3] ∧
      (verify sampleRuntime s.db.scanAuditChain none).2 = none := by
  have hrun : (openingRun settledThenCanceled).map (fun s ↦ s.db.auditLog.length) = some 3 := by
    decide +kernel
  obtain ⟨s, hs, hlength⟩ := Option.map_eq_some_iff.mp hrun
  have hreaches : Reaches queries (body sampleRuntime) unrestricted openingDb s :=
    reaches_of_schedule .idle hs (permittedRun_unrestricted _ _)
  obtain ⟨hseqs, hverified, -⟩ :=
    trail_verifies_and_determines ⟨rfl, rfl, rfl, rfl⟩ hreaches (by omega)
  refine ⟨s, hs, ?_, hverified⟩
  rw [hseqs, hlength]
  rfl

end PaymentRail.Rail
