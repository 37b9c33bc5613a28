import PaymentRail.Api.Ownership

/-!
# At most one payment for a key

The payments that requests with one idempotency key commit, and the responses they get, over every
interleaving of any number of requests and every failure of a statement.

There is at most one payment, and every success carries its response, as long as the COMMIT of a payment
is never reported as failed although it took effect (`one_payment_per_key`).  A request that is told so
releases a key that has a payment, and the next request with the key pays again
(`lost_commit_pays_twice`).
-/

namespace PaymentRail.Api

open Transaction Payments
open Payments.Idempotency (Op OpReply Keys Status)

/-! ### Requests -/

section Requests

variable {rt : Runtime} {key : String} {pid : ℕ} {job : Job} {v : ApiView}

@[simp]
theorem server_eval (rt : Runtime) : (server rt).eval = Idempotency.eval := rfl

theorem not_success_writeError {status : ℤ} (hstatus : 300 ≤ status) (code message : String) :
    ¬ (writeError rt status code message).success := by
  rintro ⟨-, hlt⟩
  exact absurd hlt (not_lt.mpr hstatus)

theorem truthful_writeError {status : ℤ} (hstatus : 300 ≤ status) (code message : String)
    (log : List ApiEvent) : Truthful rt key (writeError rt status code message) log :=
  fun hsuccess ↦ absurd hsuccess (not_success_writeError hstatus code message)

theorem not_success_writeServiceError (err : Err) : ¬ (writeServiceError rt err).success := by
  unfold writeServiceError
  repeat' split
  all_goals exact not_success_writeError (by norm_num) _ _

/-- The answer for an earlier request is truthful if a completed row is. -/
theorem truthful_replay {existing : Idempotency.IdempotencyKey} {log : List ApiEvent}
    (hash : List UInt8) (hcached : existing.status = .completed →
      ∃ payment, paid key log = [payment] ∧ existing.responseBody = creationBody rt payment) :
    Truthful rt key (replay rt existing hash) log := by
  unfold replay
  split
  · exact truthful_writeError (by norm_num) _ _ _
  · next hstatus =>
    split
    · exact truthful_writeError (by norm_num) _ _ _
    · intro _
      refine hcached ?_
      cases h : existing.status with
      | inFlight => exact absurd h hstatus
      | completed => rfl

/-- A claim leaves the key with the caller, or tells what is cached for it. -/
theorem pwp_begin (hash : List UInt8) :
    pwp (server rt) (acknowledged key) (contract rt key) pid job (Idempotency.begin key hash)
      (fun result v' ↦ ∀ res, result = .ok res →
        if res.fresh then owner key v'.log = some pid ∧ paid key v'.log = []
        else Truthful rt key (replay rt res.existing hash) v'.log) v := by
  refine pwp_bind.mpr fun v₁ _ hinv choice _ ↦ ?_
  have hclaim := Idempotency.eval_insert v₁.ext key hash choice
  simp only [server_eval]
  generalize Idempotency.eval (.insertIdempotencyKey key hash) choice v₁.ext = outcome at hclaim ⊢
  obtain ⟨reply, ext⟩ := outcome
  obtain ⟨row, hfree, rfl, hrow, hstatus⟩ | ⟨⟨err, rfl⟩, hext⟩ := hclaim
  · refine ⟨allows_claim _ hinv hfree hrow hstatus, ?_⟩
    rintro res ⟨⟩
    refine ⟨?_, hinv.free hfree⟩
    simp [View.perform, owner_cons, ownership?]
  · constructor
    · rcases hext with hsame | ⟨hfree, row, hstatus, hrow⟩
      · exact allows_perform_quiet hinv hsame rfl
      · exact allows_claim _ hinv hfree hrow hstatus
    · simp only [pwp]
      split
      · refine pwp_bind.mpr fun v₂ _ hinv choice _ ↦ ?_
        obtain ⟨hsame, hfound⟩ := Idempotency.eval_get v₂.ext key choice
        simp only [server_eval]
        generalize Idempotency.eval (.getIdempotencyKey key) choice v₂.ext = outcome at hsame hfound ⊢
        obtain ⟨reply, ext⟩ := outcome
        obtain rfl : ext = v₂.ext := hsame
        refine ⟨allows_perform_quiet hinv rfl rfl, ?_⟩
        cases reply with
        | error err =>
          rintro res ⟨⟩
        | ok existing =>
          rintro res ⟨⟩
          exact truthful_replay hash fun hcompleted ↦ hinv.cached existing (hfound existing rfl) hcompleted
      · rintro res ⟨⟩

/-- The handler commits one payment and answers with its body, or commits none and does not answer
with a success. -/
theorem pwp_handleCreate (hjob : job.Carries key) (hown : owner key v.log = some pid)
    (hpaid : paid key v.log = []) (body : List UInt8) :
    pwp (server rt) (acknowledged key) (contract rt key) pid job (handleCreate rt body)
      (fun recorded v' ↦ owner key v'.log = some pid ∧
        ((paid key v'.log = [] ∧ ∀ response, recorded = some response → ¬ response.success) ∨
          ∃ payment response, paid key v'.log = [payment] ∧ recorded = some response ∧
            response.success ∧ response.body = creationBody rt payment)) v := by
  unfold handleCreate
  split
  · refine ⟨hown, .inl ⟨hpaid, ?_⟩⟩
    rintro response ⟨⟩
    exact not_success_writeError (by norm_num) _ _
  · split
    · refine ⟨hown, .inl ⟨hpaid, ?_⟩⟩
      rintro response ⟨⟩
      exact not_success_writeError (by norm_num) _ _
    · refine pwp_bind.mpr fun v₁ hrely hinv ↦ ?_
      obtain ⟨hown₁, hpaid₁⟩ := hrely.1 hown
      rw [hpaid] at hpaid₁
      constructor
      · intro payment writes _
        obtain ⟨hallows, hnow⟩ := allows_commit hinv hjob hown₁ hpaid₁
        refine ⟨hallows, ?_, fun hlost ↦ absurd hjob hlost⟩
        exact ⟨hown₁, .inr ⟨payment, _, hnow, rfl, ⟨by norm_num, by norm_num⟩, rfl⟩⟩
      · intro err
        cases err with
        | panic => exact ⟨hown₁, .inl ⟨hpaid₁, by simp⟩⟩
        | error err =>
          refine ⟨hown₁, .inl ⟨hpaid₁, ?_⟩⟩
          rintro response ⟨⟩
          exact not_success_writeServiceError err

/-- Whatever the handler recorded, the owner gives up the key in good order. -/
theorem pwp_conclude {recorded : Option Response} (hown : owner key v.log = some pid)
    (h : (paid key v.log = [] ∧ ∀ response, recorded = some response → ¬ response.success) ∨
      ∃ payment response, paid key v.log = [payment] ∧ recorded = some response ∧
        response.success ∧ response.body = creationBody rt payment) :
    pwp (server rt) (acknowledged key) (contract rt key) pid job (conclude rt key recorded)
      (fun _ v' ↦ ∀ response, recorded = some response → Truthful rt key response v'.log) v := by
  have hdelete : paid key v.log = [] → (∀ response, recorded = some response → ¬ response.success) →
      pwp (server rt) (acknowledged key) (contract rt key) pid job (Idempotency.delete key)
        (fun _ v' ↦ ∀ response, recorded = some response → Truthful rt key response v'.log) v := by
    intro hpaid hfailed
    refine pwp_bind.mpr fun v₁ hrely hinv choice _ ↦ ?_
    obtain ⟨hown₁, hpaid₁⟩ := hrely.1 hown
    refine ⟨allows_delete hinv hown₁ (hpaid₁.trans hpaid), fun response heq hsuccess ↦ ?_⟩
    exact absurd hsuccess (hfailed response heq)
  rcases h with ⟨hpaid, hfailed⟩ | ⟨payment, response, hpaid, rfl, hsuccess, hbody⟩
  · cases recorded with
    | none => exact hdelete hpaid hfailed
    | some response =>
      rw [conclude, if_neg (hfailed response rfl)]
      exact hdelete hpaid hfailed
  · rw [conclude, if_pos hsuccess]
    refine pwp_bind.mpr fun v₁ hrely hinv choice _ ↦ ?_
    obtain ⟨hown₁, hpaid₁⟩ := hrely.1 hown
    rw [hpaid] at hpaid₁
    refine ⟨allows_complete rfl hinv hown₁ hpaid₁ hbody, ?_⟩
    rintro _ ⟨⟩ _
    exact ⟨payment, hpaid₁, hbody⟩

theorem pwp_runOnce (hjob : job.Carries key) (hash body : List UInt8) :
    pwp (server rt) (acknowledged key) (contract rt key) pid job
      (runOnce rt (handleCreate rt) key hash body)
      (fun result v' ↦ ∀ response, result = some response → Truthful rt key response v'.log) v := by
  refine pwp_bind.mpr (pwp_mono (fun result v₁ hbegin ↦ ?_) (pwp_begin hash))
  cases result with
  | error err =>
    rintro response ⟨⟩
    exact truthful_writeError (by norm_num) _ _ _
  | ok res =>
    have hres := hbegin res rfl
    simp only
    split
    · next hfresh =>
      rw [if_pos hfresh] at hres
      refine pwp_bind.mpr (pwp_mono (fun recorded v₂ hhandled ↦ ?_)
        (pwp_handleCreate hjob hres.1 hres.2 body))
      exact pwp_bind.mpr (pwp_mono (fun _ v₃ htruthful ↦ htruthful)
        (pwp_conclude hhandled.1 hhandled.2))
    · next hfresh =>
      rw [if_neg hfresh] at hres
      rintro response ⟨⟩
      exact hres

/-- A request with the key is answered truthfully. -/
theorem pwp_withIdempotency {r : Request} (hkey : r.idempotencyKey = key) :
    pwp (server rt) (acknowledged key) (contract rt key) pid (.create r)
      (withIdempotency rt (handleCreate rt) r)
      (fun result v' ↦ ∀ response, result = some response → Truthful rt key response v'.log) v := by
  have hrefused : ∀ (status : ℤ) (code message : String), 300 ≤ status → ∀ response,
      some (writeError rt status code message) = some response → Truthful rt key response v.log := by
    rintro status code message hstatus response ⟨⟩
    exact truthful_writeError hstatus _ _ _
  unfold withIdempotency
  split
  · exact hrefused _ _ _ (by norm_num)
  · split
    · exact hrefused _ _ _ (by norm_num)
    · split
      · exact hrefused _ _ _ (by norm_num)
      · have hjob : (Job.create r).Carries key := hkey
        rw [hkey]
        exact pwp_runOnce hjob _ _

/-- Demands that do not concern the key. -/
def Elsewhere (key : String) : Demand CreateInput Op → Prop
  | .transact _ => True
  | .perform op => op.key ≠ some key

theorem issues_perform {op : Op} (hop : op.key ≠ some key) :
    Program.Issues (Elsewhere key) (perform op : Serving (OpReply op)) := ⟨hop, fun _ ↦ trivial⟩

theorem issues_begin {other : String} (hother : other ≠ key) (hash : List UInt8) :
    Program.Issues (Elsewhere key)
      (Idempotency.begin other hash : Serving (Except Err Idempotency.BeginResult)) := by
  have hkey : some other ≠ some key := fun h ↦ hother (Option.some.inj h)
  refine Program.Issues.bind (issues_perform hkey) fun reply ↦ ?_
  split
  · trivial
  · split
    · refine Program.Issues.bind (issues_perform hkey) fun reply ↦ ?_
      split <;> trivial
    · trivial

theorem issues_handleCreate (body : List UInt8) :
    (handleCreate rt body).Issues (Elsewhere key) := by
  unfold handleCreate
  split
  · trivial
  · split
    · trivial
    · refine Program.Issues.bind ⟨trivial, fun _ ↦ trivial⟩ fun result ↦ ?_
      split <;> trivial

theorem issues_conclude {other : String} (hother : other ≠ key) (recorded : Option Response) :
    (conclude rt other recorded).Issues (Elsewhere key) := by
  have hkey : some other ≠ some key := fun h ↦ hother (Option.some.inj h)
  unfold conclude
  split
  · exact Program.Issues.bind (issues_perform hkey) fun _ ↦ trivial
  · split
    · exact Program.Issues.bind (issues_perform hkey) fun _ ↦ trivial
    · exact Program.Issues.bind (issues_perform hkey) fun _ ↦ trivial

/-- The jobs that do not carry the key leave it alone, the sweeper apart. -/
theorem issues_main (hjob : ¬ job.Carries key) : (main rt job).Issues (Elsewhere key) := by
  cases job with
  | sweep ttl =>
    refine Program.Issues.bind ?_ fun _ ↦ trivial
    refine (issues_perform (by simp [Op.key])).bind fun now ↦ ?_
    exact (issues_perform (by simp [Op.key])).bind fun _ ↦ trivial
  | create r =>
    simp only [main, withIdempotency]
    split
    · trivial
    · split
      · trivial
      · split
        · trivial
        · refine (issues_begin hjob _).bind fun result ↦ ?_
          split
          · trivial
          · split
            · refine (issues_handleCreate _).bind fun recorded ↦ ?_
              exact (issues_conclude hjob recorded).bind fun _ ↦ trivial
            · trivial

theorem ends_of_truthful {result : Option Response} (h : ∀ response, result = some response →
      job.Carries key → Truthful rt key response v.log) :
    (contract rt key).Ends pid job result v := by
  intro v' hrely hinv
  refine allows_quiet hinv rfl rfl rfl fun response hsent ↦ ?_
  refine (mem_sent_cons hsent).imp_right fun ⟨_, _, heq, hcarries⟩ ↦ ?_
  cases heq
  exact (h response rfl hcarries).stable hrely.2 hinv.once

theorem verified (rt : Runtime) (key : String) :
    Verified (server rt) (acknowledged key) (contract rt key) where
  refl := respects_refl key
  trans _ _ _ _ := respects_trans
  commits _ _ _ _ _ _ _ _ _ := trivial
  main pid job v _ := by
    by_cases hjob : job.Carries key
    · cases job with
      | sweep ttl => exact hjob.elim
      | create r =>
        exact pwp_mono (fun result v' h ↦ ends_of_truthful fun response heq _ ↦ h response heq)
          (pwp_withIdempotency hjob)
    · refine pwp_mono (fun result v' _ ↦ ends_of_truthful fun _ _ hcarries ↦ absurd hcarries hjob)
        (pwp_of_issues (K := fun _ ↦ True) (issues_main hjob) (fun _ _ _ _ ↦ trivial)
          (fun _ _ _ _ _ hinv _ _ ↦ ⟨allows_commit_of_ne hinv hjob, trivial⟩)
          (fun op choice v helsewhere hinv _ hspares ↦ ⟨?_, trivial⟩) trivial)
      exact allows_perform_quiet hinv (Idempotency.row_eval_of_ne helsewhere hspares)
        (ownership?_of_ne helsewhere)

end Requests

/-- Before the sweeper deletes the row of a key, and if no COMMIT of a payment of the key takes effect
while it is reported as failed, at most one payment is committed under the key and every success that
is sent for the key has the body of the response to its creation. -/
theorem one_payment_per_key {rt : Runtime} {key : String} {db : Db} {keys : Keys}
    {w : World Reply Db Write Lock CreateInput Failure Payment OpReply Idempotency.Choice Keys Job
      (Option Response)} (hfresh : keys.row key = none)
    (h : (server rt).Reaches (acknowledged key) db keys w) :
    (paid key w.log).length ≤ 1 ∧
      ∀ response ∈ sent key w.log, response.success →
        ∃ payment, paid key w.log = [payment] ∧ response.body = creationBody rt payment := by
  have hstart : Consistent rt key ⟨db, keys, []⟩ := by
    refine ⟨fun _ hnone ↦ (by cases hnone), fun _ ↦ rfl, fun row hrow ↦ ?_, Nat.zero_le 1,
      fun _ hmem ↦ (by cases hmem)⟩
    simp only [hfresh] at hrow
    cases hrow
  have hinv : Consistent rt key w.view := ((verified rt key).sound hstart h).inv
  exact ⟨hinv.once, hinv.truthful⟩

/-! ### Two requests with one key -/

/-- Library functions for the sample runs.  Every body is the same request. -/
def sampleRuntime : Runtime where
  sha256 := id
  marshal _ := []
  decodeCreateRequest _ := some ⟨1, 2, "USDC", 10⟩
  encodePaymentResponse p := [p.id.toNat.toUInt8]
  encodeErrorEnvelope _ := []
  decodeID _ := none

/-- A customer with 100 and a merchant. -/
def sampleDb : Db where
  accounts := [⟨1, "customer", "wallet", "USDC", "active"⟩,
    ⟨2, "merchant", "wallet", "USDC", "active"⟩]
  journalEntries := [⟨10, "opening", "customer", "USDC"⟩]
  entryLines := [⟨10, 1, .credit, 100⟩]
  payments := []
  settlements := []
  outbox := []
  auditLog := []

abbrev ApiMove := Move Job Ambient Idempotency.Choice Failure

/-- A statement of a process that is answered. -/
def answered (pid : ℕ) : ApiMove := .perform pid ⟨0, .received⟩

def sampleJob : Job := .create ⟨"key", "POST", "/v1/payments", some []⟩

/-- A request with the key that runs its payment up to the COMMIT.  The random identifiers count up
from `seed`. -/
def paying (pid seed : ℕ) : List ApiMove :=
  [.spawn pid sampleJob, answered pid, .begin pid] ++
    (List.range 15).map fun n ↦ .exec pid ⟨BitVec.ofNat 128 (seed + n), n⟩

/-- The runs within some limits, on the sample tables and without any key. -/
def sampleRun (limits : Limits Job CreateInput Op Idempotency.Choice Keys)
    [∀ job input, Decidable (limits.losesAck job input)]
    [∀ job op choice keys, Decidable (limits.admits job op choice keys)] (moves : List ApiMove) :=
  (server sampleRuntime).run limits (.idle sampleDb []) moves

instance (key : String) (job : Job) (input : CreateInput) :
    Decidable ((acknowledged key).losesAck job input) :=
  inferInstanceAs (Decidable (¬ job.Carries key))

instance (key : String) (job : Job) (op : Op) (choice : Idempotency.Choice) (keys : Keys) :
    Decidable ((acknowledged key).admits job op choice keys) :=
  inferInstanceAs (Decidable (op.Spares key keys))

/-- The second request with the key starts while the first is in flight, the third after it. -/
def paidOnce : List ApiMove :=
  paying 0 100 ++ [.spawn 1 sampleJob, answered 1, answered 1, .finish 1] ++
    [.commit 0 none, answered 0, .finish 0] ++
    [.spawn 2 sampleJob, answered 2, answered 2, .finish 2]

/-- The first request pays, the second is told to wait and the third gets the response of the first. -/
theorem one_payment_per_key_sample :
    (sampleRun (acknowledged "key") paidOnce).map (fun w ↦ (sent "key" w.log).map Response.status) =
      some [201, 201, 409] ∧
    ∃ w, sampleRun (acknowledged "key") paidOnce = some w ∧ (paid "key" w.log).length ≤ 1 ∧
      ∀ response ∈ sent "key" w.log, response.success →
        ∃ payment, paid "key" w.log = [payment] ∧
          response.body = creationBody sampleRuntime payment := by
  have hrun : (sampleRun (acknowledged "key") paidOnce).map
      (fun w ↦ (sent "key" w.log).map Response.status) = some [201, 201, 409] := by
    decide +kernel
  obtain ⟨w, hw, -⟩ := Option.map_eq_some_iff.mp hrun
  exact ⟨hrun, w, hw, one_payment_per_key rfl (reaches_of_run .idle hw)⟩

instance (key : String) (job : Job) (input : CreateInput) :
    Decidable ((untilSwept key).losesAck job input) := inferInstanceAs (Decidable True)

instance (key : String) (job : Job) (op : Op) (choice : Idempotency.Choice) (keys : Keys) :
    Decidable ((untilSwept key).admits job op choice keys) :=
  inferInstanceAs (Decidable (op.Spares key keys))

/-- What the first request is told about its COMMIT. -/
def lostConnection : Failure := .error ⟨"ledger: commit tx: driver: bad connection", none⟩

/-- The first request pays and is told that it did not. -/
def paidTwice : List ApiMove :=
  paying 0 100 ++ [.commit 0 (some lostConnection), answered 0, .finish 0] ++
    paying 1 200 ++ [.commit 1 none, answered 1, .finish 1]

/-- A request whose COMMIT took effect but was reported as failed answers with an error and releases the
key; the retry with the same key pays a second time. -/
theorem lost_commit_pays_twice :
    ∃ w, (server sampleRuntime).Reaches (untilSwept "key") sampleDb [] w ∧
      (paid "key" w.log).length = 2 ∧ w.tables.db.payments.length = 2 ∧
        (sent "key" w.log).map Response.status = [201, 500] := by
  have hrun : (sampleRun (untilSwept "key") paidTwice).map (fun w ↦
      ((paid "key" w.log).length, w.tables.db.payments.length,
        (sent "key" w.log).map Response.status)) = some (2, 2, [201, 500]) := by
    decide +kernel
  obtain ⟨w, hw, hfacts⟩ := Option.map_eq_some_iff.mp hrun
  obtain ⟨hpaid, hrest⟩ := Prod.mk.inj hfacts
  obtain ⟨hrows, hsent⟩ := Prod.mk.inj hrest
  exact ⟨w, reaches_of_run .idle hw, hpaid, hrows, hsent⟩

end PaymentRail.Api
