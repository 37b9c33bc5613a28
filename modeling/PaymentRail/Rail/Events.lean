import PaymentRail.Rail.Attempts
import PaymentRail.Table.Replay

/-!
# The tables as what their events add up to

Every transition of a payment or a settlement is announced by one outbox event and one audit row in
its own transaction.  The events are therefore enough to rebuild the rows: replaying the events of a
payment gives the columns of its row, and replaying those of a transaction gives the status of its
settlement with the payment it settles (`paymentFold`, `settlementFold`).  Replaying is strict.  An
event out of order, one that is missing or one whose body disagrees with the events before it has no
replay at all.

Both logs hold the same records in the same order.
-/

namespace PaymentRail

/-- What an event and an audit row say about one transition. -/
structure LogRecord where
  action : String
  aggregateType : String
  aggregateID : String
  payload : List UInt8
  deriving DecidableEq

def OutboxRow.record (rt : Audit.Runtime) (row : OutboxRow) : LogRecord :=
  ⟨row.eventType, row.payload.aggregateType, row.aggregateID, rt.marshal row.payload.data⟩

def AuditRow.record (row : AuditRow) : LogRecord :=
  ⟨row.action, row.aggregateType, row.aggregateID, row.payload⟩

/-- The columns of a payment that its events carry. -/
def Payment.event (payment : Payment) : PaymentEvent :=
  ⟨payment.id, payment.asset, payment.amount, payment.sourceAccountID, payment.destAccountID,
    payment.status⟩

end PaymentRail

namespace PaymentRail.Rail

open Transaction Ledger Chain Sink Payments Table

/-- The event is about this aggregate. -/
def concerns (aggregateType aggregateID : String) (row : OutboxRow) : Bool :=
  row.payload.aggregateType = aggregateType ∧ row.aggregateID = aggregateID

/-- The life of a payment by its events: created, then perhaps canceled. -/
def paymentFold : Fold OutboxRow UUID (Option PaymentEvent) where
  own pid := concerns "payment" pid.string
  init := none
  next state row :=
    match state, row.payload.data with
    | none, .payment event =>
      if row.eventType = "payment.created" ∧ event.status = .completed then some (some event)
      else none
    | some last, .payment event =>
      if row.eventType = "payment.canceled" ∧ last.status = .completed ∧
        event = { last with status := .canceled } then some (some event)
      else none
    | _, .settlement _ => none

/-- What is settled, and how far. -/
abbrev Progress := Option (SettlementStatus × SettlementEvent)

/-- The life of a settlement by its events: confirmed, then reorged or finalized, and confirmed again
only after a reorg.  The events of one transaction are all about one payment. -/
def settlementFold : Fold OutboxRow TxHash Progress where
  own tx := concerns "settlement" tx
  init := none
  next state row :=
    match row.payload.data with
    | .settlement event =>
      if row.eventType = "settlement.confirmed" then
        if state = none ∨ state = some (.reorged, event) then some (some (.settled, event)) else none
      else if row.eventType = "settlement.reorged" then
        if state = some (.settled, event) then some (some (.reorged, event)) else none
      else if row.eventType = "settlement.finalized" then
        match state with
        | some (.settled, last) =>
          -- the body of this event leaves the asset and the amount out
          if event = { last with asset := "", amount := 0 } then some (some (.finalized, last))
          else none
        | _ => none
      else none
    | .payment _ => none

/-- What the events of a payment should add up to: the columns of its row. -/
def paymentState (db : Db) (pid : UUID) : Option PaymentEvent := (db.payment pid).map Payment.event

/-- What the events of a transaction should add up to: the status of its row, once it is no longer
pending, and the payment the row is linked to. -/
def settlementState (db : Db) (tx : TxHash) : Progress :=
  (db.settlement tx).bind fun row ↦
    if row.status = .pending then none
    else (db.payment row.paymentID).map fun pay ↦
      (row.status, ⟨row.paymentID, tx, pay.asset, pay.amount⟩)

/-- Every settlement row has its payment. -/
def Backed (db : Db) : Prop :=
  ∀ tx row, db.settlement tx = some row → (db.payment row.paymentID).isSome

/-- What one commit does to the rows and to their logs: nothing that an event would show, or one
transition of one aggregate together with its event and its audit row. -/
inductive Announces (rt : Audit.Runtime) (db db' : Db) : Prop
  | silent (outbox : db'.outbox = db.outbox) (auditLog : db'.auditLog = db.auditLog)
      (payments : paymentState db' = paymentState db)
      (settlements : settlementState db' = settlementState db)
  | payment (pid : UUID) (sent : OutboxRow) (logged : AuditRow)
      (outbox : db'.outbox = db.outbox ++ [sent]) (auditLog : db'.auditLog = db.auditLog ++ [logged])
      (mirrored : logged.record = sent.record rt)
      (own : sent.payload.aggregateType = "payment" ∧ sent.aggregateID = pid.string)
      (next : paymentFold.next (paymentState db pid) sent = some (paymentState db' pid))
      (others : ∀ other, other ≠ pid → paymentState db' other = paymentState db other)
      (settlements : settlementState db' = settlementState db)
  | settlement (tx : TxHash) (sent : OutboxRow) (logged : AuditRow)
      (outbox : db'.outbox = db.outbox ++ [sent]) (auditLog : db'.auditLog = db.auditLog ++ [logged])
      (mirrored : logged.record = sent.record rt)
      (own : sent.payload.aggregateType = "settlement" ∧ sent.aggregateID = tx)
      (next : settlementFold.next (settlementState db tx) sent = some (settlementState db' tx))
      (others : ∀ other, other ≠ tx → settlementState db' other = settlementState db other)
      (payments : paymentState db' = paymentState db)

section States

variable {db db' : Db} {tx : TxHash} {row : Settlement} {pay : Payment}

/-- A payment that evolves keeps what a settlement event says of it. -/
theorem Evolves.amount {later : Payment} (h : pay.Evolves later) : later.amount = pay.amount := by
  rcases h with rfl | ⟨_, rfl⟩ <;> rfl

theorem settlementState_of_row (hrow : db.settlement tx = some row)
    (hpay : db.payment row.paymentID = some pay) :
    settlementState db tx = if row.status = .pending then none
      else some (row.status, ⟨row.paymentID, tx, pay.asset, pay.amount⟩) := by
  rw [settlementState, hrow, Option.bind_some, hpay, Option.map_some]

/-- The events of a transaction do not show what becomes of the payment. -/
theorem settlementState_congr (hbacked : Backed db) (hrely : Rely [] db db')
    (hrow : db'.settlement tx = db.settlement tx) : settlementState db' tx = settlementState db tx := by
  rcases hold : db.settlement tx with _ | row
  · rw [settlementState, settlementState, hrow, hold]
    rfl
  · obtain ⟨pay, hpay⟩ := Option.isSome_iff_exists.mp (hbacked tx row hold)
    obtain ⟨later, hlater, hevolves⟩ := hrely.payment row.paymentID pay hpay
    rw [settlementState_of_row (hrow.trans hold) hlater, settlementState_of_row hold hpay,
      Evolves.asset hevolves, Evolves.amount hevolves]

/-- A commit keeps every row backed. -/
theorem Committed.backed {rt : Audit.Runtime} {allowed : Stmt → Ambient → Db → Prop} {call : Call}
    {writes : List Write} (h : Committed rt allowed db call writes) (hbacked : Backed db) :
    Backed (queries.view db writes) := by
  have hrely : Rely [] db (queries.view db writes) := Rely.view (by simp)
  intro tx row hrow
  -- either the row was there, with its payment, or this commit linked it to one
  rcases hold : db.settlement tx with _ | old
  · cases h with
    | linked paymentID tx' added fresh payment pending =>
      have hlookup : (queries.view db [.insertSettlement added]).settlement tx =
          (db.settlement tx).or (if added.txHash = tx then some added else none) :=
        Table.lookup_append added
      rw [hlookup, hold, Option.none_or] at hrow
      split at hrow
      · rw [← Option.some.inj hrow, pending]
        exact payment
      · cases hrow
    | settled | reversed | created | canceled =>
      rw [settlement_view_posting_of_none (fun _ ↦ by simp [markSettled]) hold] at hrow
      cases hrow
    | finalized =>
      rw [settlement_view_transition, settlement_apply_of_none (fun _ ↦ by simp) hold] at hrow
      cases hrow
    | nothing => cases hold.symm.trans hrow
    | settledUnmarked | reversedUnmarked =>
      rw [view_entry_writes] at hrow
      cases hold.symm.trans hrow
  · obtain ⟨later, hlater, hevolves⟩ := hrely.settlement tx old hold
    obtain rfl := Option.some.inj (hlater.symm.trans hrow)
    obtain ⟨pay, hpay⟩ := Option.isSome_iff_exists.mp (hbacked tx old hold)
    obtain ⟨pay', hpay', -⟩ := hrely.payment old.paymentID pay hpay
    rw [hevolves.2.1, hpay']
    rfl

end States

section Steps

variable {rt : Audit.Runtime} {allowed : Stmt → Ambient → Db → Prop} {db : Db} {call : Call}
  {writes : List Write}

/-- The two rows that announce a transition hold the same record. -/
theorem record_of_announced {event : Outbox.Event} {entry : Audit.Entry} {sent : OutboxRow}
    {logged : AuditRow} (h : Audit.Announced rt event entry sent logged)
    (haction : entry.action = event.type) (htype : entry.aggregateType = Outbox.aggregateType event.type)
    (hid : entry.aggregateID = event.aggregateID) (hdata : entry.data = event.data) :
    logged.record = sent.record rt := by
  obtain ⟨id, now, rfl⟩ := h.event
  obtain ⟨occurred, seq, prev, rfl⟩ := h.entry
  simp only [AuditRow.record, OutboxRow.record, Audit.Entry.row, Outbox.Event.row, haction, htype, hid,
    hdata]

/-- A settlement row that one commit changes, with its event. -/
theorem announces_of_flip {tx : TxHash} {type : String} {event : SettlementEvent} {db' : Db}
    {sent : OutboxRow} {logged : AuditRow}
    (hannounced : Audit.Announced rt (Sink.outboxEvent type tx (.settlement event))
      (Sink.auditEntry type tx (.settlement event)) sent logged)
    (htype : Outbox.aggregateType type = "settlement") (hbacked : Backed db)
    (hrely : Rely [] db db') (houtbox : db'.outbox = db.outbox ++ [sent])
    (hauditLog : db'.auditLog = db.auditLog ++ [logged]) (hpayments : db'.payments = db.payments)
    (hothers : ∀ other, other ≠ tx → db'.settlement other = db.settlement other)
    (hnext : ∀ row : OutboxRow, row.eventType = type → row.payload.data = .settlement event →
      settlementFold.next (settlementState db tx) row = some (settlementState db' tx)) :
    Announces rt db db' := by
  have hsame : paymentState db' = paymentState db := by
    funext pid
    rw [paymentState, paymentState, Db.payment, Db.payment, hpayments]
  refine .settlement tx sent logged houtbox hauditLog
    (record_of_announced hannounced rfl htype.symm rfl rfl) ?_ ?_ ?_ hsame
  · obtain ⟨id, now, rfl⟩ := hannounced.event
    exact ⟨htype, rfl⟩
  · obtain ⟨id, now, rfl⟩ := hannounced.event
    exact hnext _ rfl rfl
  · intro other hother
    exact settlementState_congr hbacked hrely (hothers other hother)

/-- A payment that one commit changes, with its event. -/
theorem announces_of_payment {pid : UUID} {type : String} {payment : Payment} {db' : Db}
    {sent : OutboxRow} {logged : AuditRow}
    (hannounced : Audit.Announced rt (Payments.outboxEvent type pid payment)
      (Payments.auditEntry type pid payment) sent logged)
    (htype : Outbox.aggregateType type = "payment") (hbacked : Backed db)
    (hrely : Rely [] db db') (houtbox : db'.outbox = db.outbox ++ [sent])
    (hauditLog : db'.auditLog = db.auditLog ++ [logged])
    (hsettlements : db'.settlements = db.settlements)
    (hothers : ∀ other, other ≠ pid → db'.payment other = db.payment other)
    (hself : db'.payment pid = some payment)
    (hnext : ∀ row : OutboxRow, row.eventType = type → row.payload.data = .payment payment.event →
      paymentFold.next (paymentState db pid) row = some (some payment.event)) :
    Announces rt db db' := by
  refine .payment pid sent logged houtbox hauditLog
    (record_of_announced hannounced rfl htype.symm rfl rfl) ?_ ?_ ?_ ?_
  · obtain ⟨id, now, rfl⟩ := hannounced.event
    exact ⟨htype, rfl⟩
  · obtain ⟨id, now, rfl⟩ := hannounced.event
    rw [hnext _ rfl rfl, paymentState, hself]
    rfl
  · intro other hother
    rw [paymentState, paymentState, hothers other hother]
  · funext tx
    refine settlementState_congr hbacked hrely ?_
    rw [Db.settlement, Db.settlement, hsettlements]

/-- Every commit is silent or announces the one transition that it makes. -/
theorem Committed.announces (h : Committed rt allowed db call writes) (hbacked : Backed db) :
    Announces rt db (queries.view db writes) := by
  have hrely : Rely [] db (queries.view db writes) := Rely.view (by simp)
  cases h with
  | nothing => exact .silent rfl rfl rfl rfl
  | created input pid je payment sent logged posting fresh row announced =>
    have hid : payment.id = pid := by rw [row]
    have hself : (db.apply (.insertPayment payment)).payment pid = some payment := by
      have hadded : Table.lookup Payment.id (db.payments ++ [payment]) payment.id = some payment :=
        Table.lookup_append_self (by rw [hid]; exact fresh)
      rw [hid] at hadded
      exact hadded
    rw [Engine.view_append, view_entry_writes] at hrely ⊢
    refine announces_of_payment announced rfl hbacked hrely rfl rfl rfl ?_ hself ?_
    · intro other hother
      exact Table.lookup_append_of_ne (by rw [hid]; exact Ne.symm hother)
    · intro event htype hdata
      have hcompleted : payment.event.status = .completed := by rw [row]; rfl
      simp only [paymentFold, paymentState, fresh, Option.map_none, hdata, htype, hcompleted]
      rfl
  | canceled pid payment je sent logged row completed posting announced =>
    have hself : (db.apply (.cancelPayment pid (some je.id))).payment pid =
        some (payment.cancel (some je.id)) := by
      have hflipped : (db.apply (.cancelPayment pid (some je.id))).payment pid =
          (db.payment pid).map (·.cancel (some je.id)) := Table.lookup_modify_self fun _ ↦ rfl
      rw [hflipped, row]
      rfl
    rw [Engine.view_append, view_entry_writes] at hrely ⊢
    refine announces_of_payment announced rfl hbacked hrely rfl rfl rfl ?_ hself ?_
    · intro other hother
      exact Table.lookup_modify_of_ne (fun _ ↦ rfl) hother
    · intro event htype hdata
      have hcompleted : payment.event.status = .completed := completed
      simp only [paymentFold, paymentState, row, Option.map_some, hdata, htype, hcompleted]
      exact if_pos ⟨trivial, trivial, rfl⟩
  | linked paymentID tx row fresh payment pending =>
    refine .silent rfl rfl rfl ?_
    funext other
    have hlookup : (queries.view db [.insertSettlement row]).settlement other =
        (db.settlement other).or (if row.txHash = other then some row else none) :=
      Table.lookup_append row
    by_cases hother : row.txHash = other
    · have hnone : db.settlement other = none := by
        rw [← hother, pending]
        exact fresh
      have hstatus : row.status = .pending := by rw [pending]
      rw [settlementState, settlementState, hlookup, hnone, if_pos hother, Option.none_or,
        Option.bind_some, if_pos hstatus]
      rfl
    · refine settlementState_congr hbacked hrely ?_
      rw [hlookup, if_neg hother, Option.or_none]
  | settled st row pay house je sent logged phase resolved settleable posting announced =>
    have hafter : (queries.view db ((settleEntry row.paymentID pay house st.blockHash).writes je ++
        transition (markSettled st je) sent logged)).settlement st.txHash = some _ :=
      settlement_after_settled resolved.linked
    rw [Engine.view_append, view_entry_writes] at hrely hafter ⊢
    refine announces_of_flip announced rfl hbacked hrely rfl rfl rfl ?_ ?_
    · intro other hother
      exact Table.lookup_modify_of_ne (fun _ ↦ rfl) hother
    · intro event htype hdata
      rw [settlementState_of_row hafter resolved.paid, settlementState_of_row resolved.linked resolved.paid]
      simp only [settlementFold, hdata, htype]
      cases hstatus : row.status <;> simp_all [SettlementStatus.settleable, Settlement.settle]
  | reversed st row pay house je sent logged phase resolved isSettled posting announced =>
    have hafter : (queries.view db ((reverseEntry row.paymentID pay house st.blockHash).writes je ++
        transition (.markReorged st.txHash) sent logged)).settlement st.txHash = some _ :=
      settlement_after_reversed resolved.linked
    rw [Engine.view_append, view_entry_writes] at hrely hafter ⊢
    refine announces_of_flip announced rfl hbacked hrely rfl rfl rfl ?_ ?_
    · intro other hother
      exact Table.lookup_modify_of_ne (fun _ ↦ rfl) hother
    · intro event htype hdata
      rw [settlementState_of_row hafter resolved.paid, settlementState_of_row resolved.linked resolved.paid]
      simp [settlementFold, hdata, htype, isSettled, Settlement.reorg]
  | finalized st row sent logged phase found isSettled announced =>
    have hafter : (queries.view db (transition (.markFinalized st.txHash) sent logged)).settlement
        st.txHash = some _ := settlement_after_finalized found
    obtain ⟨pay, hpay⟩ := Option.isSome_iff_exists.mp (hbacked _ row found)
    refine announces_of_flip announced rfl hbacked hrely rfl rfl rfl ?_ ?_
    · intro other hother
      exact Table.lookup_modify_of_ne (fun _ ↦ rfl) hother
    · intro event htype hdata
      rw [settlementState_of_row hafter hpay, settlementState_of_row found hpay]
      simp [settlementFold, hdata, htype, isSettled, Settlement.finalize]
  | settledUnmarked | reversedUnmarked =>
    rw [view_entry_writes]
    exact .silent rfl rfl rfl rfl

/-- The rows are what the outbox replays to, and the audit log holds the records of the outbox. -/
structure EventSourced (rt : Audit.Runtime) (db : Db) : Prop where
  backed : Backed db
  payments : paymentFold.Sourced db.outbox (paymentState db)
  settlements : settlementFold.Sourced db.outbox (settlementState db)
  mirrored : db.auditLog.map AuditRow.record = db.outbox.map (OutboxRow.record rt)

theorem concerns_of_ne {aggregateType aggregateID aggregateID' : String} {row : OutboxRow}
    (hrow : row.aggregateID = aggregateID) (hne : aggregateID' ≠ aggregateID) :
    concerns aggregateType aggregateID' row = false := by
  simp [concerns, hrow, Ne.symm hne]

theorem concerns_of_type_ne {aggregateType aggregateType' aggregateID : String} {row : OutboxRow}
    (hrow : row.payload.aggregateType = aggregateType) (hne : aggregateType ≠ aggregateType') :
    concerns aggregateType' aggregateID row = false := by
  simp [concerns, hrow, hne]

theorem EventSourced.step {db' : Db} (h : EventSourced rt db) (hbacked : Backed db')
    (hstep : Announces rt db db') : EventSourced rt db' := by
  cases hstep with
  | silent outbox auditLog payments settlements =>
    refine ⟨hbacked, ?_, ?_, ?_⟩
    · rw [outbox, payments]
      exact h.payments
    · rw [outbox, settlements]
      exact h.settlements
    · rw [auditLog, outbox]
      exact h.mirrored
  | payment pid sent logged outbox auditLog mirrored own next others settlements =>
    refine ⟨hbacked, ?_, ?_, ?_⟩
    · rw [outbox]
      refine h.payments.concat (k := pid) ?_ next fun other hother ↦ ⟨?_, others other hother⟩
      · simp [paymentFold, concerns, own.1, own.2]
      · exact concerns_of_ne own.2 fun heq ↦ hother (UUID.string_injective heq)
    · rw [outbox, settlements]
      exact h.settlements.concat_of_not_own fun _ ↦ concerns_of_type_ne own.1 (by decide)
    · rw [auditLog, outbox, List.map_append, List.map_append, h.mirrored, List.map_singleton,
        List.map_singleton, mirrored]
  | settlement tx sent logged outbox auditLog mirrored own next others payments =>
    refine ⟨hbacked, ?_, ?_, ?_⟩
    · rw [outbox, payments]
      exact h.payments.concat_of_not_own fun _ ↦ concerns_of_type_ne own.1 (by decide)
    · rw [outbox]
      refine h.settlements.concat (k := tx) ?_ next fun other hother ↦ ⟨?_, others other hother⟩
      · simp [settlementFold, concerns, own.1, own.2]
      · exact concerns_of_ne own.2 hother
    · rw [auditLog, outbox, List.map_append, List.map_append, h.mirrored, List.map_singleton,
        List.map_singleton, mirrored]

end Steps

section Runs

variable {rt : Audit.Runtime} {allowed : Stmt → Ambient → Db → Prop} {start : Db}

theorem eventSourced_serial {history : List (Commit Write Call Result)} {db : Db}
    (hstart : EventSourced rt start)
    (h : Serial queries (fun call _ writes db ↦ Committed rt allowed db call writes) start history db) :
    EventSourced rt db := by
  induction h with
  | nil => exact hstart
  | cons commit _ hcommit ih => exact ih.step (hcommit.backed ih.backed) (hcommit.announces ih.backed)

/-- Tables without payments, settlements, events and audit rows. -/
structure Unused (db : Db) : Prop where
  payments : db.payments = []
  settlements : db.settlements = []
  outbox : db.outbox = []
  auditLog : db.auditLog = []

theorem Unused.eventSourced (h : Unused start) : EventSourced rt start where
  backed tx row hrow := by
    rw [Db.settlement, h.settlements] at hrow
    cases hrow
  payments := by
    rw [h.outbox]
    refine Fold.sourced_nil fun pid ↦ ?_
    rw [paymentState, Db.payment, h.payments]
    rfl
  settlements := by
    rw [h.outbox]
    refine Fold.sourced_nil fun tx ↦ ?_
    rw [settlementState, Db.settlement, h.settlements]
    rfl
  mirrored := by
    rw [h.auditLog, h.outbox]
    rfl

/-- Over every interleaving of the calls, in every committed state: replaying the outbox events of a
payment gives the columns of its row, replaying those of a transaction gives the status of its
settlement and what it settles, and the audit log holds the records of the outbox one for one. -/
theorem rows_replay_events (hstart : Unused start) {s : RailState}
    (h : Reaches queries (body rt) allowed start s) :
    (∀ pid, paymentFold.replay s.db.outbox pid = some ((s.db.payment pid).map Payment.event)) ∧
    (∀ tx, settlementFold.replay s.db.outbox tx = some (settlementState s.db tx)) ∧
    s.db.auditLog.map AuditRow.record = s.db.outbox.map (OutboxRow.record rt) := by
  have hsourced := eventSourced_serial hstart.eventSourced (serial h)
  exact ⟨hsourced.payments, hsourced.settlements, hsourced.mirrored⟩

end Runs

/-- The events of a payment that was created, settled and canceled replay to its canceled row. -/
theorem rows_replay_events_sample :
    ∃ s, openingRun settledThenCanceled = some s ∧
      paymentFold.replay s.db.outbox 100 = some (some ⟨100, "USDC", 100, 1, 2, .canceled⟩) ∧
      settlementFold.replay s.db.outbox "0xaa" = some (some (.settled, ⟨100, "0xaa", "USDC", 100⟩)) := by
  have hrun : (openingRun settledThenCanceled).map (fun s ↦ ((s.db.payment 100).map Payment.event,
      settlementState s.db "0xaa")) = some (some ⟨100, "USDC", 100, 1, 2, .canceled⟩,
        some (.settled, ⟨100, "0xaa", "USDC", 100⟩)) := by decide +kernel
  obtain ⟨s, hs, hrows⟩ := Option.map_eq_some_iff.mp hrun
  obtain ⟨hpayment, hsettlement⟩ := Prod.mk.inj hrows
  have hreaches : Reaches queries (body sampleRuntime) unrestricted openingDb s :=
    reaches_of_schedule .idle hs (permittedRun_unrestricted _ _)
  obtain ⟨hpayments, hsettlements, -⟩ := rows_replay_events ⟨rfl, rfl, rfl, rfl⟩ hreaches
  refine ⟨s, hs, ?_, ?_⟩
  · rw [hpayments, hpayment]
  · rw [hsettlements, hsettlement]

end PaymentRail.Rail
