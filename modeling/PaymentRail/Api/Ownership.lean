import PaymentRail.Api.Server
import PaymentRail.Transaction.Contract

/-!
# Who owns an idempotency key

A request that claimed a key owns it until it completes or releases it.  The payments committed under a
key, its owner and the responses sent for it are read off the log of a run.

While a key is owned its row is in flight, and only its owner commits a payment.  A key without a row has
no payment, a completed row caches the response of the one payment (`Consistent`).  The steps of an owner
keep this and leave every other process what it relies on (`Respects`).
-/

namespace PaymentRail.Api

open Transaction Payments
open Payments.Idempotency (Op OpReply Keys Status)

abbrev ApiEvent :=
  Event Job CreateInput Payment Idempotency.Choice OpReply (Option Response)

abbrev ApiView := View Db Keys Job CreateInput Payment Idempotency.Choice OpReply (Option Response)

section Trace

variable (key : String)

/-- A request with this key. -/
def Job.Carries : Job → Prop
  | .create r => r.idempotencyKey = key
  | .sweep _ => False

instance (job : Job) : Decidable (job.Carries key) :=
  match job with
  | .create r => inferInstanceAs (Decidable (r.idempotencyKey = key))
  | .sweep _ => inferInstanceAs (Decidable False)

/-- The payment that an event commits under the key. -/
def payment? : ApiEvent → Option Payment
  | .committed _ job _ payment => if job.Carries key then some payment else none
  | _ => none

/-- The payments committed under the key, newest first. -/
def paid (log : List ApiEvent) : List Payment := log.filterMap (payment? key)

/-- What an event says about who owns the key. -/
def ownership? : ApiEvent → Option (Option ℕ)
  | .performed pid _ (.insertIdempotencyKey other _) _ (.ok _) =>
    if other = key then some (some pid) else none
  | .performed _ _ (.completeIdempotencyKey params) _ _ =>
    if params.key = key then some none else none
  | .performed _ _ (.deleteIdempotencyKey other) _ _ => if other = key then some none else none
  | _ => none

/-- The process that claimed the key and has neither completed nor released it. -/
def owner (log : List ApiEvent) : Option ℕ := (log.findSome? (ownership? key)).join

/-- The response that an event sends to a request with the key. -/
def response? : ApiEvent → Option Response
  | .returned _ job result => if job.Carries key then result else none
  | _ => none

/-- The responses sent to requests with the key, newest first. -/
def sent (log : List ApiEvent) : List Response := log.filterMap (response? key)

end Trace

/-- The body of the response to the creation of a payment. -/
def creationBody (rt : Runtime) (payment : Payment) : List UInt8 :=
  rt.encodePaymentResponse (toPaymentResponse payment)

/-- A response that is a success only with the body of the one payment of the key. -/
def Truthful (rt : Runtime) (key : String) (response : Response) (log : List ApiEvent) : Prop :=
  response.success → ∃ payment, paid key log = [payment] ∧ response.body = creationBody rt payment

/-- What holds of a key at any time. -/
structure Consistent (rt : Runtime) (key : String) (v : ApiView) : Prop where
  owned : ∀ pid, owner key v.log = some pid → ∃ row, v.ext.row key = some row ∧ row.status = .inFlight
  free : v.ext.row key = none → paid key v.log = []
  cached : ∀ row, v.ext.row key = some row → row.status = .completed →
    ∃ payment, paid key v.log = [payment] ∧ row.responseBody = creationBody rt payment
  once : (paid key v.log).length ≤ 1
  truthful : ∀ response ∈ sent key v.log, Truthful rt key response v.log

/-- What a process relies on: the key it owns stays its own, with the payments it has; and no payment
is forgotten. -/
def Respects (key : String) (pid : ℕ) (v v' : ApiView) : Prop :=
  (owner key v.log = some pid → owner key v'.log = some pid ∧ paid key v'.log = paid key v.log) ∧
    paid key v.log <:+ paid key v'.log

def contract (rt : Runtime) (key : String) :
    Contract Db Keys Write Job CreateInput Payment Idempotency.Choice OpReply (Option Response) where
  inv := Consistent rt key
  rely := Respects key
  post _ _ _ _ := True

/-- Everything may go wrong, but the sweeper does not delete the row of the key. -/
def untilSwept (key : String) : Limits Job CreateInput Op Idempotency.Choice Keys where
  losesAck _ _ := True
  admits _ op _ keys := op.Spares key keys

/-- As before, and no payment of the key is committed while its COMMIT is reported as failed. -/
def acknowledged (key : String) : Limits Job CreateInput Op Idempotency.Choice Keys where
  losesAck job _ := ¬ job.Carries key
  admits _ op _ keys := op.Spares key keys

/-! ### Steps -/

section Steps

variable {rt : Runtime} {key : String} {pid : ℕ} {job : Job} {v v' : ApiView}

theorem respects_refl (key : String) (pid : ℕ) (v : ApiView) : Respects key pid v v :=
  ⟨fun h ↦ ⟨h, rfl⟩, List.suffix_refl _⟩

theorem respects_trans {a b c : ApiView} (hab : Respects key pid a b) (hbc : Respects key pid b c) :
    Respects key pid a c := by
  refine ⟨fun h ↦ ?_, hab.2.trans hbc.2⟩
  obtain ⟨hb, hpaid⟩ := hab.1 h
  obtain ⟨hc, hpaid'⟩ := hbc.1 hb
  exact ⟨hc, hpaid'.trans hpaid⟩

/-- A truthful response stays one: the one payment of the key is never joined by another. -/
theorem Truthful.stable {response : Response} {log log' : List ApiEvent}
    (h : Truthful rt key response log) (hsuffix : paid key log <:+ paid key log')
    (honce : (paid key log').length ≤ 1) : Truthful rt key response log' := by
  intro hsuccess
  obtain ⟨payment, hpaid, hbody⟩ := h hsuccess
  rw [hpaid] at hsuffix
  have hlength : (paid key log').length = [payment].length :=
    le_antisymm honce hsuffix.length_le
  exact ⟨payment, (hsuffix.eq_of_length hlength.symm).symm, hbody⟩

theorem paid_cons (event : ApiEvent) (log : List ApiEvent) :
    paid key (event :: log) = (payment? key event).toList ++ paid key log := by
  cases h : payment? key event <;> simp [paid, h]

theorem owner_cons (event : ApiEvent) (log : List ApiEvent) :
    owner key (event :: log) = (ownership? key event).getD (owner key log) := by
  cases h : ownership? key event <;> simp [owner, h]

theorem mem_sent_cons {event : ApiEvent} {log : List ApiEvent} {response : Response}
    (h : response ∈ sent key (event :: log)) : response ∈ sent key log ∨
      ∃ pid job, event = .returned pid job (some response) ∧ job.Carries key := by
  rw [sent, List.filterMap_cons] at h
  split at h
  · exact .inl h
  · next other hother =>
    rcases List.mem_cons.mp h with rfl | hrest
    · cases event with
      | returned pid job result =>
        rw [response?, ite_eq_iff] at hother
        obtain ⟨hcarries, rfl⟩ | ⟨-, hnone⟩ := hother
        · exact .inr ⟨pid, job, rfl, hcarries⟩
        · cases hnone
      | _ => cases hother
    · exact .inl hrest

/-- Nothing about the key changes. -/
theorem allows_quiet (hinv : Consistent rt key v) (hrow : v'.ext.row key = v.ext.row key)
    (howner : owner key v'.log = owner key v.log) (hpaid : paid key v'.log = paid key v.log)
    (hsent : ∀ response ∈ sent key v'.log,
      response ∈ sent key v.log ∨ Truthful rt key response v.log) :
    (contract rt key).Allows pid v v' := by
  refine ⟨⟨?_, ?_, ?_, ?_, fun response h ↦ ?_⟩, fun other _ ↦ ⟨fun h ↦ ⟨howner.trans h, hpaid⟩, ?_⟩⟩
  · rw [hrow, howner]
    exact hinv.owned
  · rw [hrow, hpaid]
    exact hinv.free
  · rw [hrow, hpaid]
    exact hinv.cached
  · rw [hpaid]
    exact hinv.once
  · rw [Truthful, hpaid]
    exact (hsent response h).elim (hinv.truthful response) id
  · exact hpaid ▸ List.suffix_refl _

/-- A step that is not a response, of a process that owns the key or takes it while it is free. -/
theorem allows_own {event : ApiEvent} {db : Db} {ext : Keys} (hinv : Consistent rt key v)
    (hevent : ∀ pid job response, event ≠ .returned pid job response)
    (hothers : ∀ other, other ≠ pid → owner key v.log ≠ some other)
    (howned : ∀ other, owner key (event :: v.log) = some other →
      ∃ row, ext.row key = some row ∧ row.status = .inFlight)
    (hfree : ext.row key = none → paid key (event :: v.log) = [])
    (hcached : ∀ row, ext.row key = some row → row.status = .completed →
      ∃ payment, paid key (event :: v.log) = [payment] ∧ row.responseBody = creationBody rt payment)
    (honce : (paid key (event :: v.log)).length ≤ 1) :
    (contract rt key).Allows pid v ⟨db, ext, event :: v.log⟩ := by
  have hsuffix : paid key v.log <:+ paid key (event :: v.log) := by
    rw [paid_cons]
    exact List.suffix_append _ _
  refine ⟨⟨howned, hfree, hcached, honce, fun response h ↦ ?_⟩, fun other hne ↦
    ⟨fun h ↦ absurd h (hothers other hne), hsuffix⟩⟩
  rcases mem_sent_cons h with hold | ⟨pid', job', heq, -⟩
  · exact (hinv.truthful response hold).stable hsuffix honce
  · exact absurd heq (hevent _ _ _)

theorem ownership?_of_ne {op : Op} {choice : Idempotency.Choice} {reply : OpReply op}
    (hkey : op.key ≠ some key) : ownership? key (.performed pid job op choice reply) = none := by
  cases op with
  | insertIdempotencyKey other hash =>
    have hne : other ≠ key := fun h ↦ hkey (congrArg some h)
    cases reply with
    | error err => rfl
    | ok row => exact if_neg hne
  | completeIdempotencyKey params => exact if_neg fun h ↦ hkey (congrArg some h)
  | deleteIdempotencyKey other => exact if_neg fun h ↦ hkey (congrArg some h)
  | _ => rfl

/-- A statement that leaves the row and the owner of the key as they are. -/
theorem allows_perform_quiet {op : Op} {choice : Idempotency.Choice} {reply : OpReply op} {ext : Keys}
    (hinv : Consistent rt key v) (hrow : ext.row key = v.ext.row key)
    (howner : ownership? key (.performed pid job op choice reply) = none) :
    (contract rt key).Allows pid v (v.perform ext pid job op choice reply) := by
  refine allows_quiet hinv hrow ?_ rfl fun response h ↦ ?_
  · exact (owner_cons _ _).trans (by rw [howner, Option.getD_none])
  · exact (mem_sent_cons h).imp_right fun ⟨_, _, heq, _⟩ ↦ by cases heq

/-- The COMMIT of a request with another key. -/
theorem allows_commit_of_ne {input : CreateInput} {payment : Payment} {writes : List Write}
    (hinv : Consistent rt key v) (hjob : ¬ job.Carries key) :
    (contract rt key).Allows pid v (v.commit queries pid job input payment writes) := by
  refine allows_quiet hinv rfl rfl ?_ fun response h ↦ ?_
  · refine (paid_cons _ _).trans ?_
    rw [payment?, if_neg hjob, Option.toList_none, List.nil_append]
  · exact (mem_sent_cons h).imp_right fun ⟨_, _, heq, _⟩ ↦ by cases heq

/-- A claim that takes a free key, acknowledged or not. -/
theorem allows_claim {hash : List UInt8} {choice : Idempotency.Choice} {ext : Keys}
    {row : Idempotency.IdempotencyKey} (reply : Except Err Idempotency.IdempotencyKey)
    (hinv : Consistent rt key v) (hfree : v.ext.row key = none) (hrow : ext.row key = some row)
    (hstatus : row.status = .inFlight) : (contract rt key).Allows pid v
      (v.perform ext pid job (.insertIdempotencyKey key hash) choice reply) := by
  have hunowned : ∀ other, owner key v.log ≠ some other := by
    intro other howner
    obtain ⟨row, hrow, -⟩ := hinv.owned other howner
    rw [hfree] at hrow
    cases hrow
  have hpaid : paid key v.log = [] := hinv.free hfree
  refine allows_own hinv (by simp) (fun other _ ↦ hunowned other) (fun _ _ ↦ ⟨row, hrow, hstatus⟩)
    (fun _ ↦ hpaid) (fun row' hrow' hcompleted ↦ ?_) hinv.once
  rw [hrow, Option.some.injEq] at hrow'
  subst hrow'
  rw [hstatus] at hcompleted
  cases hcompleted

/-- The owner gives up the key, leaving a row that says what it has paid. -/
theorem allows_release {op : Op} {choice : Idempotency.Choice} {reply : OpReply op} {ext : Keys}
    (hinv : Consistent rt key v) (howner : owner key v.log = some pid)
    (hop : ownership? key (.performed pid job op choice reply) = some none)
    (hfree : ext.row key = none → paid key v.log = [])
    (hcached : ∀ row, ext.row key = some row → row.status = .completed →
      ∃ payment, paid key v.log = [payment] ∧ row.responseBody = creationBody rt payment) :
    (contract rt key).Allows pid v (v.perform ext pid job op choice reply) := by
  refine allows_own hinv (by simp) (fun other hne ↦ ?_) (fun other hother ↦ ?_) hfree hcached hinv.once
  · rw [howner]
    exact fun h ↦ hne (Option.some.inj h).symm
  · rw [owner_cons, hop] at hother
    cases hother

/-- The row of an owned key is not completed. -/
theorem Consistent.not_completed (hinv : Consistent rt key v) (howner : owner key v.log = some pid)
    {row : Idempotency.IdempotencyKey} (hrow : v.ext.row key = some row)
    (hcompleted : row.status = .completed) : False := by
  obtain ⟨row', hrow', hstatus⟩ := hinv.owned pid howner
  rw [hrow, Option.some.injEq] at hrow'
  subst hrow'
  rw [hcompleted] at hstatus
  cases hstatus

theorem allows_delete {choice : Idempotency.Choice} (hinv : Consistent rt key v)
    (howner : owner key v.log = some pid) (hpaid : paid key v.log = []) :
    (contract rt key).Allows pid v (v.perform
      (Idempotency.eval (.deleteIdempotencyKey key) choice v.ext).2 pid job
      (.deleteIdempotencyKey key) choice
      (Idempotency.eval (.deleteIdempotencyKey key) choice v.ext).1) := by
  refine allows_release hinv howner (if_pos rfl) (fun _ ↦ hpaid) fun row hrow hcompleted ↦ ?_
  rcases choice.ack.settle_state (.ok ()) v.ext (v.ext.filter fun row ↦ row.key ≠ key) with h | h
  · simp only [Idempotency.eval, h] at hrow
    exact (hinv.not_completed howner hrow hcompleted).elim
  · simp only [Idempotency.eval, h, Idempotency.row_delete] at hrow
    cases hrow

theorem allows_complete {params : Idempotency.CompleteIdempotencyKeyParams}
    {choice : Idempotency.Choice} {payment : Payment} (hkey : params.key = key)
    (hinv : Consistent rt key v) (howner : owner key v.log = some pid)
    (hpaid : paid key v.log = [payment]) (hbody : params.responseBody = creationBody rt payment) :
    (contract rt key).Allows pid v (v.perform
      (Idempotency.eval (.completeIdempotencyKey params) choice v.ext).2 pid job
      (.completeIdempotencyKey params) choice
      (Idempotency.eval (.completeIdempotencyKey params) choice v.ext).1) := by
  subst hkey
  have hkeeps : ∀ ext : Keys, (Idempotency.eval (.completeIdempotencyKey params) choice v.ext).2 = ext →
      ext.row params.key = v.ext.row params.key ∨
        ext.row params.key = (v.ext.row params.key).map (.complete params choice.now) := by
    rintro ext rfl
    refine (choice.ack.settle_state (.ok ()) v.ext (Table.modify Idempotency.IdempotencyKey.key v.ext
      params.key (.complete params choice.now))).imp (fun h ↦ ?_) (fun h ↦ ?_)
    · simp only [Idempotency.eval, h]
    · simp only [Idempotency.eval, h, Idempotency.row_complete, if_true]
  obtain ⟨old, hold, -⟩ := hinv.owned pid howner
  refine allows_release hinv howner (if_pos rfl) (fun hnone ↦ ?_) fun row hrow hcompleted ↦ ?_
  · rcases hkeeps _ rfl with h | h <;> rw [h, hold] at hnone <;> cases hnone
  · rcases hkeeps _ rfl with h | h
    · exact (hinv.not_completed howner (h.symm.trans hrow) hcompleted).elim
    · rw [h, hold, Option.map_some, Option.some.injEq] at hrow
      subst hrow
      exact ⟨payment, hpaid, hbody⟩

/-- The COMMIT of the owner, who has not paid yet. -/
theorem allows_commit {input : CreateInput} {payment : Payment} {writes : List Write}
    (hinv : Consistent rt key v) (hjob : job.Carries key) (howner : owner key v.log = some pid)
    (hpaid : paid key v.log = []) :
    (contract rt key).Allows pid v (v.commit queries pid job input payment writes) ∧
      paid key (v.commit queries pid job input payment writes).log = [payment] := by
  have hnow : paid key (.committed pid job input payment :: v.log) = [payment] := by
    rw [paid_cons, payment?, if_pos hjob, hpaid]
    rfl
  obtain ⟨row, hrow, hstatus⟩ := hinv.owned pid howner
  refine ⟨allows_own hinv (by simp) (fun other hne ↦ ?_) (fun _ _ ↦ ⟨row, hrow, hstatus⟩)
    (fun hnone ↦ ?_) (fun _ hrow' hcompleted ↦ ?_) (by rw [hnow]; rfl), hnow⟩
  · rw [howner]
    exact fun h ↦ hne (Option.some.inj h).symm
  · rw [hrow] at hnone
    cases hnone
  · exact (hinv.not_completed howner hrow' hcompleted).elim

end Steps

end PaymentRail.Api
