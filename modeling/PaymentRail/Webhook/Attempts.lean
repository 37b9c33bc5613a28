import PaymentRail.Webhook.Service

/-!
# Attempts and failed sends

The attempts of a row are written from the value that was read when the row was claimed, perhaps long
ago and by several workers.  They never exceed the failed sends of the row, which the log counts.  So a
row is dead only after eight failed sends, and a pending row has less than eight attempts, whatever the
workers, the consumers and the operators do.
-/

namespace PaymentRail.Webhook

open Transaction Outbox Table

/-- The entry is a failed send of a row. -/
def failedSend (id : UUID) : Record Reply Choice Happening Job → Bool
  | .called _ _ (.send row _ _) _ reply => row.id = id && failed reply
  | _ => false

/-- The failed sends of a row. -/
def failures (log : Log) (id : UUID) : ℕ := log.countP (failedSend id)

theorem failures_mono {id : UUID} {log log' : Log} (h : log <:+ log') :
    failures log id ≤ failures log' id := h.sublist.countP_le

/-- What a row of so many failed sends may look like. -/
structure Fair (count : ℕ) (row : Delivery) : Prop where
  pending : row.status = .pending →
    0 ≤ row.attempts.toInt ∧ row.attempts.toInt < 8 ∧ row.attempts.toInt ≤ count
  dead : row.status = .deadLetter → 8 ≤ count

namespace Fair

variable {count count' : ℕ} {row : Delivery}

theorem mono (h : Fair count row) (hle : count ≤ count') : Fair count' row where
  pending hpending := by
    have := h.pending hpending
    omega
  dead hdead := (h.dead hdead).trans hle

theorem fresh (hstatus : row.status = .pending) (hattempts : row.attempts = 0) : Fair count row where
  pending _ := by
    rw [hattempts]
    exact ⟨le_refl 0, by decide, Int.natCast_nonneg count⟩
  dead hdead := by
    rw [hstatus] at hdead
    cases hdead

end Fair

/-- What is recorded of a row is accounted for by its failed sends. -/
def Justified (count : UUID → ℕ) : Stmt → Prop
  | .markDeliveryRetry params =>
    0 ≤ params.attempts.toInt ∧ params.attempts.toInt < 8 ∧ params.attempts.toInt ≤ count params.id
  | .markDeliveryDeadLettered params => 8 ≤ count params.id
  | _ => True

theorem Fair.rewrites {count : UUID → ℕ} {stmt : Stmt} {row row' : Delivery}
    (h : Fair (count row.id) row) (hstmt : Justified count stmt) (hrow : Rewrites stmt row row') :
    Fair (count row.id) row' := by
  cases hrow with
  | keep => exact h
  | lease => exact ⟨h.pending, h.dead⟩
  | succeed => exact ⟨fun h ↦ (nomatch h), fun h ↦ (nomatch h)⟩
  | retry params row hid => exact ⟨fun _ ↦ hid ▸ hstmt, h.dead⟩
  | deadLetter params row hid => exact ⟨fun h ↦ (nomatch h), fun _ ↦ hid ▸ hstmt⟩
  | replay => exact .fresh rfl rfl

/-- Every row is fair to its failed sends. -/
def Counted (v : View) : Prop := ∀ row ∈ v.state.deliveries, Fair (failures v.log row.id) row

/-- A claimed row carries attempts that its failed sends account for. -/
structure Owed (v : View) (row : ClaimedRow) : Prop where
  nonneg : 0 ≤ row.attempts.toInt
  lt : row.attempts.toInt < 8
  le : row.attempts.toInt ≤ failures v.log row.id

theorem Owed.mono {v v' : View} {row : ClaimedRow} (h : Owed v row) (hlog : v.log <:+ v'.log) :
    Owed v' row :=
  ⟨h.nonneg, h.lt, h.le.trans (by exact_mod_cast failures_mono hlog)⟩

section Calls

variable {p : Platform} {v : View} {pid : ℕ} {job : Job} {stmt : Stmt} {choice : Choice}

theorem counted_called (h : Counted v) (hstmt : Justified (failures v.log) stmt) :
    Counted ((webhookd p).called pid job stmt choice v) := by
  have hlog : v.log <:+ ((webhookd p).called pid job stmt choice v).log := List.suffix_cons ..
  intro row' hrow'
  rcases (effect_eval stmt choice v.state).of_mem hrow' with ⟨row, hrow, hrewrite⟩ | ⟨params, -, hnew⟩
  · rw [hrewrite.id_eq]
    exact ((h row hrow).rewrites hstmt hrewrite).mono (failures_mono hlog)
  · obtain ⟨s, -, rfl⟩ := List.mem_map.mp hnew
    exact .fresh rfl rfl

theorem counted_occurred {event : Happening} (h : Counted v) :
    Counted ((webhookd p).occurred event v) := by
  intro row hrow
  rw [show ((webhookd p).occurred event v).state.deliveries = _ from deliveries_occur ..] at hrow
  exact (h row hrow).mono (failures_mono (List.suffix_cons ..))

/-- The log of the failed sends only grows. -/
def accounts : Pact Reply Choice State Happening Job where
  inv := Counted
  rely _ v v' := v.log <:+ v'.log
  guarantee _ _ := True

theorem allows_called (h : Counted v) (hstmt : Justified (failures v.log) stmt) :
    accounts.Allows pid v ((webhookd p).called pid job stmt choice v) :=
  ⟨counted_called h hstmt, trivial, fun _ _ ↦ List.suffix_cons ..⟩

/-! ### The worker -/

/-- A call whose record is accounted for. -/
theorem cover_call {post : Reply stmt → View → Prop}
    (hstmt : ∀ v' : View, v.log <:+ v'.log → Justified (failures v'.log) stmt)
    (hpost : ∀ (v' : View) choice, v.log <:+ v'.log → Counted v' →
      post (eval stmt choice v'.state).1 ((webhookd p).called pid job stmt choice v')) :
    cover (webhookd p) .none accounts pid job (call stmt) post v :=
  fun v' hlog hinv choice _ ↦ ⟨allows_called hinv (hstmt v' hlog), hpost v' choice hlog hinv⟩

/-- A failed send accounts for one more attempt. -/
theorem Owed.failed_send {row : ClaimedRow} (h : Owed v row) {sig : String} {attempt : Int32}
    (hfailed : failed choice.response = true) {v' : View}
    (hlog : ((webhookd p).called pid job (.send row sig attempt) choice v).log <:+ v'.log) :
    0 ≤ (row.attempts + 1).toInt ∧ (row.attempts + 1).toInt ≤ failures v'.log row.id := by
  have hone : (1 : Int32).toInt = 1 := rfl
  have hnonneg := h.nonneg
  have hlt := h.lt
  have hle := h.le
  have hentry :
      failedSend row.id (.called pid job (.send row sig attempt) choice choice.response) = true := by
    simp [failedSend, hfailed]
  have hcount : failures v.log row.id + 1 ≤ failures v'.log row.id :=
    calc failures v.log row.id + 1
      _ = failures ((webhookd p).called pid job (.send row sig attempt) choice v).log row.id :=
        (List.countP_cons_of_pos hentry).symm
      _ ≤ failures v'.log row.id := failures_mono hlog
  rw [Int32.toInt_add, hone, Int.bmod_eq_of_le (by omega) (by omega)]
  omega

theorem cover_record {row : ClaimedRow} {attempts : Int32} {res : Except String SendResult}
    {post : Except Err Unit → View → Prop}
    (h : failed res = true → ∀ v' : View, v.log <:+ v'.log →
      0 ≤ attempts.toInt ∧ attempts.toInt ≤ failures v'.log row.id)
    (hpost : ∀ result (v' : View), v.log <:+ v'.log → post result v') :
    cover (webhookd p) .none accounts pid job (record row attempts res) post v := by
  have hmark {stmt : Stmt} (w : View) (hlog : v.log <:+ w.log) (choice : Choice) :
      v.log <:+ ((webhookd p).called pid job stmt choice w).log :=
    hlog.trans (List.suffix_cons ..)
  rw [record, classify]
  split
  · next hcase =>
    exact cover_call (fun _ _ ↦ trivial) fun w choice hlog _ ↦ hpost _ _ (hmark w hlog choice)
  · next hcase =>
    have hfailed : failed res = true ∧ attempts ≥ maxAttempts := by
      split at hcase
      · next hfailed => split at hcase <;> simp_all
      · cases hcase
    refine cover_call (fun w hlog ↦ ?_) fun w choice hlog _ ↦ hpost _ _ (hmark w hlog choice)
    have := (h hfailed.1 w hlog).2
    have hmax : 8 ≤ attempts.toInt := Int32.le_iff_toInt_le.mp hfailed.2
    exact_mod_cast hmax.trans this
  · next hcase =>
    have hfailed : failed res = true ∧ ¬attempts ≥ maxAttempts := by
      split at hcase
      · next hfailed => split at hcase <;> simp_all
      · cases hcase
    refine cover_bind.mpr (cover_call (fun _ _ ↦ trivial) fun u choice hlog _ ↦ ?_)
    have hlog : v.log <:+ ((webhookd p).called pid job .now choice u).log := hmark u hlog choice
    refine cover_call (fun w hlog' ↦ ?_) fun w choice' hlog' _ ↦
      hpost _ _ (hmark w (hlog.trans hlog') choice')
    have := h hfailed.1 w (hlog.trans hlog')
    have hmax : attempts.toInt < 8 := Int32.lt_iff_toInt_lt.mp (Int32.not_le.mp hfailed.2)
    exact ⟨this.1, hmax, this.2⟩

theorem cover_deliver {row : ClaimedRow} (h : Owed v row) {post : Except Err Unit → View → Prop}
    (hpost : ∀ result (v' : View), v.log <:+ v'.log → post result v') :
    cover (webhookd p) .none accounts pid job (deliver p row) post v := by
  refine cover_bind.mpr (cover_call (fun _ _ ↦ trivial) fun v₁ clock hlog₁ _ ↦ ?_)
  refine cover_bind.mpr (cover_call (fun _ _ ↦ trivial) fun v₂ choice hlog₂ _ ↦ ?_)
  have hlog₂ : v.log <:+ v₂.log := hlog₁.trans ((List.suffix_cons ..).trans hlog₂)
  refine cover_record (fun hfailed v' hlog' ↦ (h.mono hlog₂).failed_send hfailed hlog')
    fun result v' hlog' ↦ hpost result v' (hlog₂.trans ((List.suffix_cons ..).trans hlog'))

theorem cover_deliverAll {rows : List ClaimedRow} (h : ∀ row ∈ rows, Owed v row) :
    cover (webhookd p) .none accounts pid job (deliverAll p rows) (fun _ _ ↦ True) v := by
  induction rows generalizing v with
  | nil => trivial
  | cons row rest ih =>
    refine cover_bind.mpr (cover_deliver (h row List.mem_cons_self) fun result v' hlog ↦ ?_)
    cases result with
    | error err => trivial
    | ok => exact ih fun other hother ↦ (h other (List.mem_cons_of_mem _ hother)).mono hlog

/-- The rows of a claim are accounted for. -/
theorem owed_of_claim {leaseSeconds claimLimit : ℕ} {rows : List ClaimedRow} (h : Counted v)
    (hrows : (eval (.claimDueDeliveries leaseSeconds claimLimit) choice v.state).1 = .ok rows)
    {row : ClaimedRow} (hrow : row ∈ rows) : Owed v row := by
  obtain ⟨before, hbefore, hpending, hid, hattempts⟩ := claimed_of_eval hrows hrow
  obtain ⟨hnonneg, hlt, hle⟩ := (h before hbefore).pending hpending
  rw [hattempts] at hnonneg hlt hle
  exact ⟨hnonneg, hlt, hid ▸ hle⟩

theorem cover_drainOnce :
    cover (webhookd p) .none accounts pid job (drainOnce p) (fun _ _ ↦ True) v := by
  refine cover_bind.mpr (cover_call (fun _ _ ↦ trivial) fun v' choice _ hinv ↦ ?_)
  split
  · trivial
  · next rows hrows =>
    exact cover_deliverAll fun row hrow ↦ (owed_of_claim hinv hrows hrow).mono (List.suffix_cons ..)

end Calls

/-! ### The runs of the service -/

theorem justified_of_consumes {stmt : Stmt} (h : stmt.Consumes) (count : UUID → ℕ) :
    Justified count stmt := by
  cases stmt <;> trivial

theorem kept_accounts (p : Platform) : Kept (webhookd p) .none accounts where
  refl _ _ := List.suffix_rfl
  trans _ _ _ _ := List.IsSuffix.trans
  guarantee_refl _ := trivial
  guarantee_trans _ _ _ _ _ := trivial
  main pid job v _ := by
    cases job with
    | worker => exact cover_drainOnce
    | consumer rounds =>
      exact cover_of_issues (issues_consumer p rounds) fun stmt choice v hstmt hinv _ ↦
        allows_called hinv (justified_of_consumes hstmt _)
    | replayWebhook subscriptionID =>
      exact cover_of_issues (issues_replayWebhook p subscriptionID) fun stmt choice v hstmt hinv _ ↦
        allows_called hinv (hstmt ▸ trivial)
  event event v hinv _ := ⟨counted_occurred hinv, trivial, fun _ ↦ List.suffix_cons ..⟩

/-- In every run of the service a row is dead only after eight failed sends, and a pending row has
between zero and seven attempts. -/
theorem attempts_bounded (p : Platform)
    (c : Cluster Reply Choice State Happening Job (Except Err Unit))
    (hsteps : (webhookd p).Steps .none (.idle .initial) c) :
    ∀ row ∈ c.scene.state.deliveries,
      (row.status = .deadLetter → 8 ≤ failures c.scene.log row.id) ∧
      (row.status = .pending → 0 ≤ row.attempts.toInt ∧ row.attempts.toInt ≤ 7) := by
  intro row hrow
  have hidle : Secure (webhookd p) .none accounts (.idle .initial) :=
    Kept.secure_idle fun row hrow ↦ (nomatch hrow)
  have hfair := ((kept_accounts p).sound hidle hsteps).1.inv row hrow
  refine ⟨hfair.dead, fun hpending ↦ ?_⟩
  have := hfair.pending hpending
  omega

/-- An eighth worker fails, too. -/
theorem attempts_bounded_sample :
    ∃ c, (webhookd mutePlatform).Steps .none (.idle .initial) c ∧
      ∃ row ∈ c.scene.state.deliveries, row.status = .deadLetter ∧
        8 ≤ failures c.scene.log row.id := by
  have hrun : ((webhookd mutePlatform).run .none (.idle .initial)
      (sevenFailures ++ working 8 4 28000 500)).map
        (fun c ↦ c.scene.state.deliveries.any fun row ↦ row.status = .deadLetter) = some true := by
    decide +kernel
  obtain ⟨c, hc, hdead⟩ := Option.map_eq_some_iff.mp hrun
  obtain ⟨row, hrow, hstatus⟩ := List.any_eq_true.mp hdead
  have hstatus : row.status = .deadLetter := of_decide_eq_true hstatus
  have hsteps := Sharing.steps_of_run hc
  exact ⟨c, hsteps, row, hrow, hstatus, (attempts_bounded mutePlatform c hsteps row hrow).1 hstatus⟩

end PaymentRail.Webhook
