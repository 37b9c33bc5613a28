import PaymentRail.Webhook.Service

/-!
# Delivered rows

The statements that record an outcome name a row by its identifier only.  A worker whose lease has
expired can therefore dead-letter a row that another worker has delivered in the meantime, and an
operator can then replay it.

While every final outcome is recorded by the worker with the latest claim of the row, a delivered row
stays delivered and no later claim returns it.
-/

namespace PaymentRail.Webhook

open Transaction Outbox Table

/-- The process that claims a row in an entry of the log. -/
def claimant (id : UUID) : Record Reply Choice Happening Job → Option ℕ
  | .called pid _ (.claimDueDeliveries _ _) _ (.ok rows) =>
    if rows.any fun row ↦ row.id = id then some pid else none
  | _ => none

/-- The process that sends a row in an entry of the log. -/
def sender (id : UUID) : Record Reply Choice Happening Job → Option ℕ
  | .called pid _ (.send row _ _) _ _ => if row.id = id then some pid else none
  | _ => none

/-- The processes that have claimed a row, the latest first. -/
def claims (id : UUID) (log : Log) : List ℕ := log.filterMap (claimant id)

/-- The row of which a statement records a final outcome. -/
def Stmt.finished : Stmt → Option UUID
  | .markDeliverySucceeded params => some params.id
  | .markDeliveryDeadLettered params => some params.id
  | _ => none

/-- A worker records a final outcome only while no other worker has claimed the row after it. -/
def holding : Rules Reply Choice State Happening Job where
  calls pid _ stmt _ v := ∀ id ∈ stmt.finished, (claims id v.log).head? = some pid
  events _ _ := True

instance (pid : ℕ) (job : Job) (stmt : Stmt) (choice : Choice) (v : View) :
    Decidable (holding.calls pid job stmt choice v) :=
  decidable_of_iff ((stmt.finished.all fun id ↦ (claims id v.log).head? = some pid) = true) (by
    simp [holding, Option.all_eq_true])

instance (event : Happening) (v : View) : Decidable (holding.events event v) :=
  inferInstanceAs (Decidable True)

def Delivered (id : UUID) (v : View) : Prop :=
  ∃ row ∈ v.state.deliveries, row.id = id ∧ row.status = .delivered

def Pending (id : UUID) (v : View) : Prop :=
  ∀ row ∈ v.state.deliveries, row.id = id → row.status = .pending

/-- The identifiers are unique, and every row that is sent has been claimed. -/
structure Orderly (v : View) : Prop where
  nodup : (v.state.deliveries.map Delivery.id).Nodup
  sent : ∀ entry ∈ v.log, ∀ id pid, sender id entry = some pid → pid ∈ claims id v.log

/-- What a row that one process has claimed last may become of by the others. -/
structure Spared (pid : ℕ) (v v' : View) : Prop where
  log : v.log <:+ v'.log
  last : ∀ id, (claims id v'.log).head? = some pid → (claims id v.log).head? = some pid
  pending : ∀ id, (claims id v'.log).head? = some pid → Pending id v → Pending id v'

/-- A delivered row stays delivered and is not claimed again. -/
def Settled (v v' : View) : Prop :=
  ∀ id, Delivered id v → Delivered id v' ∧ claims id v'.log = claims id v.log

def terminal : Pact Reply Choice State Happening Job where
  inv := Orderly
  rely := Spared
  guarantee := Settled

/-! ### One call -/

theorem claims_cons_of_none {id : UUID} {entry : Record Reply Choice Happening Job} {log : Log}
    (h : claimant id entry = none) : claims id (entry :: log) = claims id log :=
  List.filterMap_cons_none h

theorem claims_cons_of_some {id : UUID} {entry : Record Reply Choice Happening Job} {log : Log}
    {pid : ℕ} (h : claimant id entry = some pid) : claims id (entry :: log) = pid :: claims id log :=
  List.filterMap_cons_some h

theorem mem_claims_of_suffix {id : UUID} {log log' : Log} {pid : ℕ} (h : log <:+ log')
    (hpid : pid ∈ claims id log) : pid ∈ claims id log' :=
  (h.sublist.filterMap _).subset hpid

section Calls

variable {p : Platform} {v : View} {pid : ℕ} {job : Job} {stmt : Stmt} {choice : Choice} {id : UUID}

/-- Only a final outcome takes a row out of the pending ones. -/
theorem Pending.called (h : Pending id v) (hstmt : id ∉ stmt.finished) :
    Pending id ((webhookd p).called pid job stmt choice v) := by
  intro row' hrow' hid
  rcases (effect_eval stmt choice v.state).of_mem hrow' with ⟨row, hrow, hrewrite⟩ | ⟨params, -, hnew⟩
  · have hpending := h row hrow (hrewrite.id_eq.symm.trans hid)
    cases hrewrite with
    | keep => exact hpending
    | lease => exact hpending
    | succeed params row hparams => exact absurd (congrArg some (hparams.symm.trans hid)) hstmt
    | retry => exact hpending
    | deadLetter params row hparams => exact absurd (congrArg some (hparams.symm.trans hid)) hstmt
    | replay => rfl
  · obtain ⟨s, -, rfl⟩ := List.mem_map.mp hnew
    rfl

/-- Only a dead letter takes a row out of the delivered ones. -/
theorem Delivered.called (h : Delivered id v)
    (hstmt : ∀ params, stmt = .markDeliveryDeadLettered params → params.id ≠ id) :
    Delivered id ((webhookd p).called pid job stmt choice v) := by
  obtain ⟨row, hrow, hid, hdelivered⟩ := h
  obtain ⟨row', hrow', hrewrite⟩ := (effect_eval stmt choice v.state).exists_of_mem hrow
  refine ⟨row', hrow', hrewrite.id_eq.trans hid, ?_⟩
  cases hrewrite with
  | keep => exact hdelivered
  | lease => exact hdelivered
  | succeed => rfl
  | retry => exact hdelivered
  | deadLetter params row hparams => exact absurd (hparams.symm.trans hid) (hstmt params rfl)
  | replay _ _ _ hdead =>
    rw [hdelivered] at hdead
    cases hdead

/-- A claim returns pending rows. -/
theorem pending_of_claimant {s : State} {other : ℕ}
    (h : claimant id (.called pid job stmt choice (eval stmt choice s).1) = some other) :
    other = pid ∧ ∃ row ∈ s.deliveries, row.status = .pending ∧ row.id = id := by
  cases stmt with
  | claimDueDeliveries leaseSeconds claimLimit =>
    cases hreply : (eval (.claimDueDeliveries leaseSeconds claimLimit) choice s).1 with
    | error err =>
      rw [hreply] at h
      cases h
    | ok rows =>
      rw [hreply, claimant] at h
      split at h
      · next hany =>
        obtain ⟨claimed, hclaimed, hid⟩ := List.any_eq_true.mp hany
        obtain ⟨row, hrow, hpending, hrowID, -⟩ := claimed_of_eval hreply hclaimed
        exact ⟨(Option.some.inj h).symm, row, hrow, hpending, hrowID.trans (of_decide_eq_true hid)⟩
      · cases h
  | _ => cases h

theorem Delivered.claimant_eq_none (h : Delivered id v) (hinv : Orderly v) :
    claimant id (.called pid job stmt choice (eval stmt choice v.state).1) = none := by
  rw [Option.eq_none_iff_forall_ne_some]
  intro other hother
  obtain ⟨row, hrow, hid, hdelivered⟩ := h
  obtain ⟨-, row', hrow', hpending, hid'⟩ := pending_of_claimant hother
  rw [List.inj_on_of_nodup_map hinv.nodup hrow hrow' (hid.trans hid'.symm), hpending] at hdelivered
  cases hdelivered

/-- What a process has to know for its next call. -/
def Ready (pid : ℕ) (v : View) : Stmt → Prop
  | .markDeliveryDeadLettered params => Pending params.id v
  | .send row _ _ => pid ∈ claims row.id v.log
  | _ => True

theorem orderly_called (hinv : Orderly v) (hready : Ready pid v stmt) :
    Orderly ((webhookd p).called pid job stmt choice v) := by
  refine ⟨(effect_eval stmt choice v.state).nodup hinv.nodup, fun entry hentry id other hsender ↦ ?_⟩
  refine mem_claims_of_suffix (List.suffix_cons ..) ?_
  rcases List.mem_cons.mp hentry with rfl | hold
  · cases stmt with
    | send row sig attempt =>
      rw [sender] at hsender
      split at hsender
      · next hid =>
        cases hsender
        exact hid ▸ hready
      · cases hsender
    | _ => cases hsender
  · exact hinv.sent entry hold id other hsender

theorem settled_called (hinv : Orderly v) (hready : Ready pid v stmt) :
    Settled v ((webhookd p).called pid job stmt choice v) := by
  intro id hdelivered
  refine ⟨hdelivered.called fun params hstmt hid ↦ ?_,
    claims_cons_of_none (hdelivered.claimant_eq_none hinv)⟩
  subst hstmt
  obtain ⟨row, hrow, hrowID, hstatus⟩ := hdelivered
  rw [hready row hrow (hrowID.trans hid.symm)] at hstatus
  cases hstatus

theorem spared_called {other : ℕ} (hother : other ≠ pid)
    (hrules : holding.calls pid job stmt choice v) :
    Spared other v ((webhookd p).called pid job stmt choice v) := by
  have hlast (id : UUID)
      (h : (claims id ((webhookd p).called pid job stmt choice v).log).head? = some other) :
      (claims id v.log).head? = some other := by
    cases hclaimant : claimant id (.called pid job stmt choice (eval stmt choice v.state).1) with
    | none =>
      rw [← h]
      exact congrArg List.head? (claims_cons_of_none hclaimant).symm
    | some new =>
      have hhead : (claims id ((webhookd p).called pid job stmt choice v).log).head? = some new :=
        congrArg List.head? (claims_cons_of_some hclaimant)
      have hnew : other = new := Option.some.inj (h.symm.trans hhead)
      exact absurd (hnew.trans (pending_of_claimant hclaimant).1) hother
  refine ⟨List.suffix_cons .., hlast, fun id h hpending ↦ hpending.called fun hfinished ↦ ?_⟩
  exact hother (Option.some.inj ((hlast id h).symm.trans (hrules id hfinished)))

theorem terminal_allows (hinv : Orderly v) (hrules : holding.calls pid job stmt choice v)
    (hready : Ready pid v stmt) :
    terminal.Allows pid v ((webhookd p).called pid job stmt choice v) :=
  ⟨orderly_called hinv hready, settled_called hinv hready,
    fun _ hother ↦ spared_called hother hrules⟩

/-! ### The worker -/

/-- What a worker knows of the rows that it has yet to send. -/
structure Held (pid : ℕ) (v : View) (rows : List ClaimedRow) : Prop where
  nodup : (rows.map ClaimedRow.id).Nodup
  claimed : ∀ row ∈ rows, pid ∈ claims row.id v.log
  pending : ∀ row ∈ rows, (claims row.id v.log).head? = some pid → Pending row.id v

variable {rows rest : List ClaimedRow} {row : ClaimedRow}

theorem Held.spared {v' : View} (h : Held pid v rows) (hspared : Spared pid v v') :
    Held pid v' rows where
  nodup := h.nodup
  claimed row hrow := mem_claims_of_suffix hspared.log (h.claimed row hrow)
  pending row hrow hlast :=
    hspared.pending row.id hlast (h.pending row hrow (hspared.last row.id hlast))

/-- A call that does not claim and does not finish some rows leaves them in hand. -/
theorem Held.called (h : Held pid v rows) (hdelivers : ∀ l n, stmt ≠ .claimDueDeliveries l n)
    (hrest : rest.Sublist rows) (hstmt : ∀ row ∈ rest, row.id ∉ stmt.finished) :
    Held pid ((webhookd p).called pid job stmt choice v) rest where
  nodup := h.nodup.sublist (hrest.map _)
  claimed row hrow :=
    mem_claims_of_suffix (List.suffix_cons ..) (h.claimed row (hrest.subset hrow))
  pending row hrow hlast := by
    have hnone : claimant row.id (.called pid job stmt choice (eval stmt choice v.state).1) = none := by
      cases stmt with
      | claimDueDeliveries l n => exact absurd rfl (hdelivers l n)
      | _ => rfl
    have hlog : claims row.id ((webhookd p).called pid job stmt choice v).log = claims row.id v.log :=
      claims_cons_of_none hnone
    rw [hlog] at hlast
    exact (h.pending row (hrest.subset hrow) hlast).called (hstmt row hrow)

/-- The rows of a claim are in hand. -/
theorem held_of_claim {leaseSeconds claimLimit : ℕ} (hinv : Orderly v)
    (hrows : (eval (.claimDueDeliveries leaseSeconds claimLimit) choice v.state).1 = .ok rows) :
    Held pid ((webhookd p).called pid job (.claimDueDeliveries leaseSeconds claimLimit) choice v)
      rows where
  nodup := nodup_claimed_of_eval hrows hinv.nodup
  claimed row hrow := by
    have hclaimant : claimant row.id (.called pid job (.claimDueDeliveries leaseSeconds claimLimit)
        choice (eval (.claimDueDeliveries leaseSeconds claimLimit) choice v.state).1) = some pid := by
      rw [hrows, claimant, if_pos (List.any_eq_true.mpr ⟨row, hrow, decide_eq_true rfl⟩)]
    exact List.mem_filterMap.mpr ⟨_, List.mem_cons_self, hclaimant⟩
  pending row hrow _ := by
    obtain ⟨before, hbefore, hpending, hid, -⟩ := claimed_of_eval hrows hrow
    have hall : Pending row.id v := fun other hother hotherID ↦ by
      rw [List.inj_on_of_nodup_map hinv.nodup hother hbefore (hotherID.trans hid.symm)]
      exact hpending
    exact hall.called (fun hfinished ↦ nomatch hfinished)

/-- A call with rows in hand, of which some are left in hand. -/
theorem cover_held {post : Reply stmt → View → Prop} (h : Held pid v rows)
    (hdelivers : ∀ l n, stmt ≠ .claimDueDeliveries l n)
    (hready : ∀ v' choice, Held pid v' rows → holding.calls pid job stmt choice v' →
      Ready pid v' stmt)
    (hrest : rest.Sublist rows) (hstmt : ∀ row ∈ rest, row.id ∉ stmt.finished)
    (hpost : ∀ v' choice, Held pid ((webhookd p).called pid job stmt choice v') rest →
      post (eval stmt choice v'.state).1 ((webhookd p).called pid job stmt choice v')) :
    cover (webhookd p) holding terminal pid job (call stmt) post v := by
  intro v' hspared hinv choice hrules
  have hheld := h.spared hspared
  exact ⟨terminal_allows hinv hrules (hready v' choice hheld hrules),
    hpost v' choice (hheld.called hdelivers hrest hstmt)⟩

theorem cover_held_record {attempts : Int32} {res : Except String SendResult}
    {post : Except Err Unit → View → Prop} (h : Held pid v (row :: rest))
    (hpost : ∀ result v', Held pid v' rest → post result v') :
    cover (webhookd p) holding terminal pid job (record row attempts res) post v := by
  have hsub : rest.Sublist (row :: rest) := List.sublist_cons_self ..
  have hother : ∀ other ∈ rest, other.id ∉ some row.id := fun other hother hid ↦
    (List.nodup_cons.mp h.nodup).1 (Option.some.inj hid ▸ List.mem_map_of_mem hother)
  have hnone (rows : List ClaimedRow) : ∀ other ∈ rows, other.id ∉ (none : Option UUID) := by simp
  rw [record]
  split
  · exact cover_held h (by rintro _ _ ⟨⟩) (fun _ _ _ _ ↦ trivial) hsub hother
      fun v' choice ↦ hpost _ _
  · refine cover_held h (by rintro _ _ ⟨⟩) (fun v' choice hheld hrules ↦ ?_) hsub hother
      fun v' choice ↦ hpost _ _
    -- the rule lets only the latest claimant come here, for whom the row is still pending
    exact hheld.pending row List.mem_cons_self (hrules row.id rfl)
  · refine cover_bind.mpr (cover_held h (by rintro _ _ ⟨⟩) (fun _ _ _ _ ↦ trivial) (List.Sublist.refl _)
      (hnone _) fun v' choice hheld ↦ ?_)
    exact cover_held hheld (by rintro _ _ ⟨⟩) (fun _ _ _ _ ↦ trivial) hsub (hnone _)
      fun v' choice ↦ hpost _ _

theorem cover_held_deliver {post : Except Err Unit → View → Prop}
    (h : Held pid v (row :: rest)) (hpost : ∀ result v', Held pid v' rest → post result v') :
    cover (webhookd p) holding terminal pid job (deliver p row) post v := by
  refine cover_bind.mpr (cover_held h nofun (fun _ _ _ _ ↦ trivial) (List.Sublist.refl _)
    (fun _ _ hid ↦ nomatch hid) fun v₁ choice hheld ↦ ?_)
  refine cover_bind.mpr (cover_held hheld nofun (fun _ _ hheld _ ↦ ?_) (List.Sublist.refl _)
    (fun _ _ hid ↦ nomatch hid) fun v₂ choice hheld ↦ cover_held_record hheld hpost)
  exact hheld.claimed row List.mem_cons_self

theorem cover_held_deliverAll (h : Held pid v rows) :
    cover (webhookd p) holding terminal pid job (deliverAll p rows) (fun _ _ ↦ True) v := by
  induction rows generalizing v with
  | nil => trivial
  | cons row rest ih =>
    refine cover_bind.mpr (cover_held_deliver h fun result v' hheld ↦ ?_)
    cases result with
    | error err => trivial
    | ok => exact ih hheld

theorem terminal_drainOnce :
    cover (webhookd p) holding terminal pid job (drainOnce p) (fun _ _ ↦ True) v := by
  refine cover_bind.mpr (cover_single.mpr fun v' _ hinv choice hrules ↦
    ⟨terminal_allows hinv hrules trivial, ?_⟩)
  split
  · trivial
  · next rows hrows => exact cover_held_deliverAll (held_of_claim hinv hrows)

end Calls

/-! ### The runs of the service -/

theorem ready_of_consumes {stmt : Stmt} (h : stmt.Consumes) (pid : ℕ) (v : View) :
    Ready pid v stmt := by
  cases stmt <;> trivial

theorem kept_terminal (p : Platform) : Kept (webhookd p) holding terminal where
  refl _ _ := ⟨List.suffix_rfl, fun _ ↦ id, fun _ _ ↦ id⟩
  trans pid a b c hab hbc :=
    ⟨hab.log.trans hbc.log, fun id h ↦ hab.last id (hbc.last id h), fun id h hpending ↦
      hbc.pending id h (hab.pending id (hbc.last id h) hpending)⟩
  guarantee_refl _ _ hdelivered := ⟨hdelivered, rfl⟩
  guarantee_trans a b c hab hbc id hdelivered := by
    obtain ⟨hb, hclaims⟩ := hab id hdelivered
    obtain ⟨hc, hclaims'⟩ := hbc id hb
    exact ⟨hc, hclaims'.trans hclaims⟩
  main pid job v _ := by
    cases job with
    | worker => exact terminal_drainOnce
    | consumer rounds =>
      exact cover_of_issues (issues_consumer p rounds) fun stmt choice v hstmt hinv hrules ↦
        terminal_allows hinv hrules (ready_of_consumes hstmt pid v)
    | replayWebhook subscriptionID =>
      exact cover_of_issues (issues_replayWebhook p subscriptionID) fun stmt choice v hstmt hinv hrules ↦
        terminal_allows hinv hrules (hstmt ▸ trivial)
  event event v hinv _ := by
    have hrows : ((webhookd p).occurred event v).state.deliveries = v.state.deliveries :=
      deliveries_occur event v.state
    have hclaims (id : UUID) : claims id ((webhookd p).occurred event v).log = claims id v.log :=
      claims_cons_of_none rfl
    refine ⟨⟨?_, ?_⟩, ?_, ?_⟩
    · exact hrows.symm ▸ hinv.nodup
    · intro entry hentry id pid hsender
      rw [hclaims]
      rcases List.mem_cons.mp hentry with rfl | hold
      · cases hsender
      · exact hinv.sent entry hold id pid hsender
    · intro id hdelivered
      rw [Delivered, hrows]
      exact ⟨hdelivered, hclaims id⟩
    · intro pid
      refine ⟨List.suffix_cons .., fun id h ↦ hclaims id ▸ h, fun id _ hpending ↦ ?_⟩
      rw [Pending, hrows]
      exact hpending

/-- In every run in which final outcomes are recorded by the latest claimant only: a row that has been
delivered stays delivered, no claim returns it any more, and it is only sent by processes that claimed
it before. -/
theorem delivered_terminal (p : Platform)
    (c c' : Cluster Reply Choice State Happening Job (Except Err Unit))
    (hsteps : (webhookd p).Steps holding (.idle .initial) c)
    (hsteps' : (webhookd p).Steps holding c c') (id : UUID) (hdelivered : Delivered id c.scene) :
    Delivered id c'.scene ∧ claims id c'.scene.log = claims id c.scene.log ∧
      ∀ entry ∈ c'.scene.log, ∀ pid, sender id entry = some pid → pid ∈ claims id c.scene.log := by
  have hidle : Secure (webhookd p) holding terminal (.idle .initial) :=
    Kept.secure_idle ⟨.nil, fun _ hentry ↦ (nomatch hentry)⟩
  have hsecure := ((kept_terminal p).sound hidle hsteps).1
  obtain ⟨hsecure', hsettled⟩ := (kept_terminal p).sound hsecure hsteps'
  obtain ⟨hdelivered', hclaims⟩ := hsettled id hdelivered
  refine ⟨hdelivered', hclaims, fun entry hentry pid hsender ↦ ?_⟩
  rw [← hclaims]
  exact hsecure'.inv.sent entry hentry id pid hsender

/-- A row is delivered; then an operator replays dead rows and a worker claims due ones, in vain. -/
theorem delivered_terminal_sample :
    ∃ c c', (webhookd mutePlatform).Steps holding (.idle .initial) c ∧
      (webhookd mutePlatform).Steps holding c c' ∧ Delivered 101 c.scene ∧ Delivered 101 c'.scene := by
  have hrun : ((webhookd mutePlatform).run holding (.idle .initial)
      (opening ++ working 1 4 0 200)).bind (fun c ↦
        ((webhookd mutePlatform).run holding c
          ([.spawn 2 (.replayWebhook 1), .call 2 (callAt 100 200)] ++ working 3 1 200 200)).map
            fun _ ↦ c.scene.state.deliveries.any fun row ↦ row.id = 101 ∧ row.status = .delivered) =
      some true := by
    decide +kernel
  obtain ⟨c, hc, hrest⟩ := Option.bind_eq_some_iff.mp hrun
  obtain ⟨c', hc', hany⟩ := Option.map_eq_some_iff.mp hrest
  obtain ⟨row, hrow, hdelivered⟩ := List.any_eq_true.mp hany
  have hdelivered : Delivered 101 c.scene := ⟨row, hrow, of_decide_eq_true hdelivered⟩
  have hsteps := Sharing.steps_of_run hc
  have hsteps' := Sharing.steps_of_run hc'
  exact ⟨c, c', hsteps, hsteps', hdelivered,
    (delivered_terminal mutePlatform c c' hsteps hsteps' 101 hdelivered).1⟩

/-- The turns after which worker 8 has a failed send and worker 9, which claimed the row when the lease
of worker 8 was over, has delivered it. -/
def overtaken : List (Turn Choice Happening Job) :=
  sevenFailures ++ working 8 3 28000 500 ++ working 9 4 28100 200

/-- Worker 8 records the dead letter, the row is replayed and a worker claims it. -/
def revived : List (Turn Choice Happening Job) :=
  [.call 8 (callAt 28110 500), .spawn 10 (.replayWebhook 1), .call 10 (callAt 28200 200)] ++
    working 11 1 28300 200

theorem delivered_row_revived :
    ∃ c c', (webhookd mutePlatform).Steps .none (.idle .initial) c ∧
      (webhookd mutePlatform).Steps .none c c' ∧ Delivered 101 c.scene ∧ Pending 101 c'.scene ∧
      claims 101 c'.scene.log = 11 :: claims 101 c.scene.log := by
  have hrun : ((webhookd mutePlatform).run .none (.idle .initial) overtaken).bind (fun c ↦
      ((webhookd mutePlatform).run .none c revived).map fun c' ↦
        (c.scene.state.deliveries.any fun row ↦ row.id = 101 ∧ row.status = .delivered) &&
        (c'.scene.state.deliveries.all fun row ↦ row.status = .pending) &&
        decide (claims 101 c'.scene.log = 11 :: claims 101 c.scene.log)) = some true := by
    decide +kernel
  obtain ⟨c, hc, hrest⟩ := Option.bind_eq_some_iff.mp hrun
  obtain ⟨c', hc', hfinal⟩ := Option.map_eq_some_iff.mp hrest
  simp only [Bool.and_eq_true, List.any_eq_true, List.all_eq_true, decide_eq_true_eq] at hfinal
  obtain ⟨⟨hdelivered, hpending⟩, hclaims⟩ := hfinal
  exact ⟨c, c', Sharing.steps_of_run hc, Sharing.steps_of_run hc', hdelivered,
    fun row hrow _ ↦ hpending row hrow, hclaims⟩

end PaymentRail.Webhook
