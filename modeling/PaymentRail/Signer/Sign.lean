import PaymentRail.Signer.Policy
import Mathlib.Algebra.BigOperators.Group.List.Basic

/-!
# Concurrent signing

`Signer.Sign` under concurrent requests.  A request is validated without a lock, since the keyring
never changes; `spendBucket.charge` then holds the mutex of the key over the check of the limit, the
signing and the commit of the new total.  A request is answered at the moment it gives the mutex back,
so an answer with a transaction and the new total of its key become visible in one step.

The spent totals are in memory: a run is the life of one process.
-/

namespace PaymentRail.Signer

/-- The check of `charge`: the new total, if it is within the limit. -/
def KeyEntry.charge (key : KeyEntry) (spent amount : ℤ) : Except Err ℤ :=
  if key.limit < spent + amount then
    .error (errSpendLimitExceeded.wrap "signer: charge would exceed the key's spend limit")
  else .ok (spent + amount)

/-- How far a request has come in `Sign`. -/
inductive Stage where
  /-- Before the check of the context. -/
  | received (r : SignRequest)
  /-- Validated; about to take the mutex of its key. -/
  | validated (r : SignRequest) (key : KeyEntry) (charged : ℤ)
  /-- In `charge`, before the check of the limit. -/
  | holding (r : SignRequest) (key : KeyEntry) (charged : ℤ)
  /-- In the callback of `charge`, with the total to commit. -/
  | signing (r : SignRequest) (key : KeyEntry) (next : ℤ)
  deriving DecidableEq

/-- A request and what `Sign` returned for it. -/
structure Answer where
  request : SignRequest
  result : Except Err SignedTx

/-- The spent totals and mutexes of the keys, the requests in progress and the answers so far, newest
first. -/
structure State where
  spent : String → ℤ
  holder : String → Option ℕ
  stage : ℕ → Option Stage
  answers : List Answer

inductive Action where
  | call (pid : ℕ) (r : SignRequest)
  | cancel (pid : ℕ) (err : Err)
  | validate (pid : ℕ)
  | lock (pid : ℕ)
  | check (pid : ℕ)
  | sign (pid : ℕ) (signed : Except String (List UInt8))

namespace State

/-- A new process. -/
def initial : State := ⟨fun _ ↦ 0, fun _ ↦ none, fun _ ↦ none, []⟩

/-- A request goes on to another stage. -/
def goto (s : State) (pid : ℕ) (stage : Stage) : State :=
  { s with stage := Function.update s.stage pid (some stage) }

/-- A request is answered. -/
def answer (s : State) (pid : ℕ) (r : SignRequest) (result : Except Err SignedTx) : State :=
  { s with stage := Function.update s.stage pid none, answers := ⟨r, result⟩ :: s.answers }

/-- The mutex of a key is set to a holder. -/
def setHolder (s : State) (keyID : String) (holder : Option ℕ) : State :=
  { s with holder := Function.update s.holder keyID holder }

/-- The total of a key is set. -/
def setSpent (s : State) (keyID : String) (spent : ℤ) : State :=
  { s with spent := Function.update s.spent keyID spent }

end State

/-- One step of one request; `none` when it is not enabled. -/
def step (eth : Ethereum) (kr : Keyring) (s : State) : Action → Option State
  | .call pid r =>
    match s.stage pid with
    | some _ => none
    | none => some (s.goto pid (.received r))
  | .cancel pid err =>
    match s.stage pid with
    | some (.received r) => some (s.answer pid r (.error err))
    | _ => none
  | .validate pid =>
    match s.stage pid with
    | some (.received r) =>
      match validate kr r with
      | .error err => some (s.answer pid r (.error err))
      | .ok (key, charged) => some (s.goto pid (.validated r key charged))
    | _ => none
  | .lock pid =>
    match s.stage pid with
    | some (.validated r key charged) =>
      match s.holder r.keyID with
      | some _ => none
      | none => some ((s.setHolder r.keyID (some pid)).goto pid (.holding r key charged))
    | _ => none
  | .check pid =>
    match s.stage pid with
    | some (.holding r key charged) =>
      match key.charge (s.spent r.keyID) charged with
      | .error err => some ((s.setHolder r.keyID none).answer pid r (.error err))
      | .ok next => some (s.goto pid (.signing r key next))
    | _ => none
  | .sign pid signed =>
    match s.stage pid with
    | some (.signing r key next) =>
      match signTx eth key r signed with
      | .error err => some ((s.setHolder r.keyID none).answer pid r (.error err))
      | .ok tx => some (((s.setSpent r.keyID next).setHolder r.keyID none).answer pid r (.ok tx))
    | _ => none

/-- The states that requests reach from a new process, in any interleaving. -/
inductive Reaches (eth : Ethereum) (kr : Keyring) : State → Prop
  | initial : Reaches eth kr .initial
  | step {s s' : State} {action : Action} :
      Reaches eth kr s → Signer.step eth kr s action = some s' → Reaches eth kr s'

/-- Run a whole schedule. -/
def run (eth : Ethereum) (kr : Keyring) (s : State) (actions : List Action) : Option State :=
  actions.foldlM (step eth kr) s

theorem reaches_of_run {eth : Ethereum} {kr : Keyring} {s s' : State} {actions : List Action}
    (hs : Reaches eth kr s) (h : run eth kr s actions = some s') : Reaches eth kr s' := by
  induction actions generalizing s with
  | nil =>
    cases h
    exact hs
  | cons action rest ih =>
    rw [run, List.foldlM_cons] at h
    obtain ⟨mid, hmid, hrest⟩ := Option.bind_eq_some_iff.mp h
    exact ih (hs.step hmid) hrest

/-- What a step does: a request moves on without an answer, is refused, or is answered with a signed
transaction and commits the total of its key. -/
inductive Step (eth : Ethereum) (kr : Keyring) (s : State) : State → Prop
  | received (pid : ℕ) (r : SignRequest) (hstage : s.stage pid = none) :
      Step eth kr s (s.goto pid (.received r))
  | validated {pid : ℕ} {r : SignRequest} {key : KeyEntry} {charged : ℤ}
      (hstage : s.stage pid = some (.received r)) (hvalid : validate kr r = .ok (key, charged)) :
      Step eth kr s (s.goto pid (.validated r key charged))
  | locked {pid : ℕ} {r : SignRequest} {key : KeyEntry} {charged : ℤ}
      (hstage : s.stage pid = some (.validated r key charged)) (hfree : s.holder r.keyID = none) :
      Step eth kr s ((s.setHolder r.keyID (some pid)).goto pid (.holding r key charged))
  | checked {pid : ℕ} {r : SignRequest} {key : KeyEntry} {charged next : ℤ}
      (hstage : s.stage pid = some (.holding r key charged))
      (hadmitted : key.charge (s.spent r.keyID) charged = .ok next) :
      Step eth kr s (s.goto pid (.signing r key next))
  | refused {pid : ℕ} {r : SignRequest} (err : Err) (hstage : s.stage pid = some (.received r)) :
      Step eth kr s (s.answer pid r (.error err))
  | failed {pid : ℕ} {r : SignRequest} {key : KeyEntry} {amount : ℤ} (err : Err)
      (hstage : s.stage pid = some (.holding r key amount) ∨
        s.stage pid = some (.signing r key amount)) :
      Step eth kr s ((s.setHolder r.keyID none).answer pid r (.error err))
  | signed {pid : ℕ} {r : SignRequest} {key : KeyEntry} {next : ℤ}
      {outcome : Except String (List UInt8)} {tx : SignedTx}
      (hstage : s.stage pid = some (.signing r key next))
      (hsigned : signTx eth key r outcome = .ok tx) :
      Step eth kr s (((s.setSpent r.keyID next).setHolder r.keyID none).answer pid r (.ok tx))

theorem step_cases {eth : Ethereum} {kr : Keyring} {s s' : State} {action : Action}
    (h : step eth kr s action = some s') : Step eth kr s s' := by
  cases action with
  | call pid r =>
    simp only [step] at h
    split at h
    · cases h
    · next hstage =>
      cases h
      exact .received pid r hstage
  | cancel pid err =>
    simp only [step] at h
    split at h
    · next r hstage =>
      cases h
      exact .refused err hstage
    · cases h
  | validate pid =>
    simp only [step] at h
    split at h
    · next r hstage =>
      split at h
      · next err _ =>
        cases h
        exact .refused err hstage
      · next key charged hvalid =>
        cases h
        exact .validated hstage hvalid
    · cases h
  | lock pid =>
    simp only [step] at h
    split at h
    · next r key charged hstage =>
      split at h
      · cases h
      · next hfree =>
        cases h
        exact .locked hstage hfree
    · cases h
  | check pid =>
    simp only [step] at h
    split at h
    · next r key charged hstage =>
      split at h
      · next err _ =>
        cases h
        exact .failed err (.inl hstage)
      · next next hadmitted =>
        cases h
        exact .checked hstage hadmitted
    · cases h
  | sign pid outcome =>
    simp only [step] at h
    split at h
    · next r key total hstage =>
      split at h
      · next err _ =>
        cases h
        exact .failed err (.inr hstage)
      · next tx hsigned =>
        cases h
        exact .signed hstage hsigned
    · cases h

/-! ### The invariant -/

/-- The amount that the transaction of an answer moves, as it is encoded. -/
def Answer.moved (eth : Ethereum) (answer : Answer) : ℤ :=
  match answer.result with
  | .error _ => 0
  | .ok tx =>
    match eth.unmarshalBinary tx.rawTransaction with
    | .error _ => 0
    | .ok signed => signed.inner.moved

/-- What the transactions returned for a key move together. -/
def State.movedTotal (eth : Ethereum) (s : State) (keyID : String) : ℤ :=
  ((s.answers.filter fun answer ↦ answer.request.keyID = keyID).map (Answer.moved eth)).sum

/-- A returned transaction is the one that was asked for, on the chain of the key. -/
def SignRequest.SignedAs (eth : Ethereum) (kr : Keyring) (r : SignRequest) (tx : SignedTx) : Prop :=
  ∃ key signed, kr.lookup r.keyID = some key ∧ eth.unmarshalBinary tx.rawTransaction = .ok signed ∧
    signed.inner = r.tx ∧ r.chainID = key.chainID ∧ r.to ≠ 0

/-- What is known of a request in progress.  From the lock on, the total of its key is its own. -/
def Stage.Covered (kr : Keyring) (s : State) (pid : ℕ) : Stage → Prop
  | .received _ => True
  | .validated r key charged => validate kr r = .ok (key, charged)
  | .holding r key charged => validate kr r = .ok (key, charged) ∧ s.holder r.keyID = some pid
  | .signing r key next => ∃ charged, validate kr r = .ok (key, charged) ∧
      s.holder r.keyID = some pid ∧ next = s.spent r.keyID + charged ∧ next ≤ key.limit

structure Inv (eth : Ethereum) (kr : Keyring) (s : State) : Prop where
  covered : ∀ pid stage, s.stage pid = some stage → stage.Covered kr s pid
  spent : ∀ keyID, s.spent keyID = s.movedTotal eth keyID
  within : ∀ keyID key, kr.lookup keyID = some key → s.spent keyID ≤ key.limit
  signed : ∀ answer ∈ s.answers, ∀ tx, answer.result = .ok tx → answer.request.SignedAs eth kr tx

section Invariant

variable {eth : Ethereum} {kr : Keyring} {s s' : State}

/-- A step of one request leaves what is known of the others: it touches no mutex and no total of a
key that another request holds. -/
theorem covered_update {pid : ℕ} {new : Option Stage}
    (h : ∀ pid stage, s.stage pid = some stage → stage.Covered kr s pid)
    (hstage : s'.stage = Function.update s.stage pid new)
    (hnew : ∀ stage ∈ new, stage.Covered kr s' pid)
    (hframe : ∀ other, other ≠ pid → ∀ keyID, s.holder keyID = some other →
      s'.holder keyID = some other ∧ s'.spent keyID = s.spent keyID) :
    ∀ pid stage, s'.stage pid = some stage → stage.Covered kr s' pid := by
  intro other stage hother
  rw [hstage] at hother
  by_cases hpid : other = pid
  · subst hpid
    rw [Function.update_self] at hother
    exact hnew stage hother
  · rw [Function.update_of_ne hpid] at hother
    have hcovered := h other stage hother
    cases stage with
    | received r => trivial
    | validated r key charged => exact hcovered
    | holding r key charged => exact ⟨hcovered.1, (hframe other hpid _ hcovered.2).1⟩
    | signing r key next =>
      obtain ⟨charged, hvalid, hholder, hnext, hle⟩ := hcovered
      obtain ⟨hholder', hspent⟩ := hframe other hpid _ hholder
      exact ⟨charged, hvalid, hholder', by rw [hspent]; exact hnext, hle⟩

/-- A key that somebody holds is not the one that another request gives back. -/
theorem setHolder_none_of_holder {keyID keyID' : String} {pid other : ℕ} (hne : other ≠ pid)
    (hpid : s.holder keyID = some pid) (hother : s.holder keyID' = some other) :
    keyID' ≠ keyID ∧ (s.setHolder keyID none).holder keyID' = some other := by
  have hkey : keyID' ≠ keyID := by
    rintro rfl
    rw [hpid] at hother
    exact hne (Option.some.inj hother).symm
  exact ⟨hkey, (Function.update_of_ne hkey _ _).trans hother⟩

theorem movedTotal_cons {answer : Answer} (keyID : String)
    (h : s'.answers = answer :: s.answers) :
    s'.movedTotal eth keyID =
      (if answer.request.keyID = keyID then answer.moved eth else 0) + s.movedTotal eth keyID := by
  rw [State.movedTotal, h, List.filter_cons]
  split <;> simp_all [State.movedTotal]

theorem KeyEntry.charge_ok {key : KeyEntry} {spent amount next : ℤ}
    (h : key.charge spent amount = .ok next) : next = spent + amount ∧ next ≤ key.limit := by
  unfold KeyEntry.charge at h
  split at h
  · cases h
  · next hle =>
    rw [← Except.ok.inj h]
    exact ⟨rfl, not_lt.mp hle⟩

/-- An answer without a transaction leaves the books as they are. -/
theorem Inv.refuse (h : Inv eth kr s) {r : SignRequest} {err : Err}
    (hanswers : s'.answers = ⟨r, .error err⟩ :: s.answers) (hspent : s'.spent = s.spent)
    (hcovered : ∀ pid stage, s'.stage pid = some stage → stage.Covered kr s' pid) :
    Inv eth kr s' where
  covered := hcovered
  spent keyID := by
    rw [hspent, movedTotal_cons keyID hanswers, h.spent]
    simp [Answer.moved]
  within := by rw [hspent]; exact h.within
  signed answer hanswer tx htx := by
    rw [hanswers] at hanswer
    rcases List.mem_cons.mp hanswer with rfl | hold
    · cases htx
    · exact h.signed answer hold tx htx

theorem inv_initial : Inv eth kr .initial where
  covered pid stage h := by cases h
  spent keyID := rfl
  within keyID key _ := key.limit_nonneg
  signed answer h := by cases h

/-- A signed transaction is answered together with the total it brings its key to. -/
theorem Inv.sign (h : Inv eth kr s) {pid : ℕ} {r : SignRequest} {key : KeyEntry} {next : ℤ}
    {outcome : Except String (List UInt8)} {tx : SignedTx}
    (hstage : s.stage pid = some (.signing r key next)) (hsigned : signTx eth key r outcome = .ok tx) :
    Inv eth kr (((s.setSpent r.keyID next).setHolder r.keyID none).answer pid r (.ok tx)) := by
  obtain ⟨charged, hvalid, hholder, hnext, hle⟩ := h.covered pid _ hstage
  obtain ⟨hlookup, hchain, hto, -⟩ := validate_eq_ok.mp hvalid
  obtain ⟨signature, hraw⟩ := signTx_ok hsigned
  have hmoved : (Answer.mk r (.ok tx)).moved eth = charged := by
    simp only [Answer.moved, hraw]
    exact moved_of_validate hvalid
  constructor
  · refine covered_update h.covered rfl (fun stage hstage ↦ by cases hstage) ?_
    intro other hother keyID hkey
    obtain ⟨hne, hsame⟩ := setHolder_none_of_holder hother hholder hkey
    exact ⟨hsame, Function.update_of_ne hne _ _⟩
  · intro keyID
    rw [movedTotal_cons (s := s) keyID rfl]
    by_cases hkey : r.keyID = keyID
    · subst hkey
      rw [if_pos rfl, hmoved, ← h.spent]
      simp only [State.answer, State.setHolder, State.setSpent, Function.update_self, hnext]
      exact add_comm _ _
    · rw [if_neg hkey, zero_add, ← h.spent]
      exact Function.update_of_ne (Ne.symm hkey) _ _
  · intro keyID key' hlookup'
    by_cases hkey : keyID = r.keyID
    · subst hkey
      rw [hlookup, Option.some.injEq] at hlookup'
      simpa only [State.answer, State.setHolder, State.setSpent, Function.update_self, ← hlookup']
        using hle
    · have hspent := h.within keyID key' hlookup'
      simpa only [State.answer, State.setHolder, State.setSpent, Function.update_of_ne hkey]
        using hspent
  · intro answer hanswer tx' htx
    rcases List.mem_cons.mp hanswer with rfl | hold
    · cases htx
      exact ⟨key, ⟨r.tx, signature⟩, hlookup, hraw, rfl, hchain, hto⟩
    · exact h.signed answer hold tx' htx

theorem Inv.step (h : Inv eth kr s) (hstep : Step eth kr s s') : Inv eth kr s' := by
  -- a step that gives no answer and touches no total keeps the books
  have hmove : ∀ {s' : State}, s'.answers = s.answers → s'.spent = s.spent →
      (∀ pid stage, s'.stage pid = some stage → stage.Covered kr s' pid) → Inv eth kr s' := by
    intro s' hanswers hspent hcovered
    refine ⟨hcovered, fun keyID ↦ ?_, by rw [hspent]; exact h.within, by rw [hanswers]; exact h.signed⟩
    rw [hspent, State.movedTotal, hanswers]
    exact h.spent keyID
  cases hstep with
  | received pid r hstage =>
    refine hmove rfl rfl (covered_update h.covered rfl ?_ fun _ _ _ hkey ↦ ⟨hkey, rfl⟩)
    rintro _ ⟨⟩
    trivial
  | @validated pid r key charged hstage hvalid =>
    refine hmove rfl rfl (covered_update h.covered rfl ?_ fun _ _ _ hkey ↦ ⟨hkey, rfl⟩)
    rintro _ ⟨⟩
    exact hvalid
  | @locked pid r key charged hstage hfree =>
    refine hmove rfl rfl (covered_update h.covered rfl ?_ ?_)
    · rintro _ ⟨⟩
      exact ⟨h.covered pid _ hstage, Function.update_self _ _ _⟩
    · intro other _ keyID hkey
      have hne : keyID ≠ r.keyID := by
        rintro rfl
        rw [hfree] at hkey
        cases hkey
      exact ⟨(Function.update_of_ne hne _ _).trans hkey, rfl⟩
  | @checked pid r key charged next hstage hadmitted =>
    obtain ⟨hvalid, hholder⟩ := h.covered pid _ hstage
    refine hmove rfl rfl (covered_update h.covered rfl ?_ fun _ _ _ hkey ↦ ⟨hkey, rfl⟩)
    rintro _ ⟨⟩
    exact ⟨charged, hvalid, hholder, KeyEntry.charge_ok hadmitted⟩
  | refused err hstage =>
    exact h.refuse rfl rfl (covered_update h.covered rfl (fun _ hnone ↦ by cases hnone)
      fun _ _ _ hkey ↦ ⟨hkey, rfl⟩)
  | @failed pid r key amount err hstage =>
    have hholder : s.holder r.keyID = some pid := by
      rcases hstage with hholding | hsigning
      · exact (h.covered pid _ hholding).2
      · obtain ⟨_, -, hholder, -⟩ := h.covered pid _ hsigning
        exact hholder
    refine h.refuse rfl rfl (covered_update h.covered rfl (fun _ hnone ↦ by cases hnone) ?_)
    intro other hother keyID hkey
    exact ⟨(setHolder_none_of_holder hother hholder hkey).2, rfl⟩
  | signed hstage hsigned => exact h.sign hstage hsigned

theorem inv_of_reaches (h : Reaches eth kr s) : Inv eth kr s := by
  induction h with
  | initial => exact inv_initial
  | step _ hstep ih => exact ih.step (step_cases hstep)

/-- Only the answer to a request changes a total, only the one of its key, and only with a
transaction. -/
theorem spent_of_step (h : Step eth kr s s') :
    (s'.answers = s.answers ∧ s'.spent = s.spent) ∨
    ∃ answer, s'.answers = answer :: s.answers ∧
      (∀ keyID, keyID ≠ answer.request.keyID → s'.spent keyID = s.spent keyID) ∧
      ((∀ tx, answer.result ≠ .ok tx) → s'.spent = s.spent) := by
  cases h with
  | received | validated | locked | checked => exact .inl ⟨rfl, rfl⟩
  | refused | failed => exact .inr ⟨_, rfl, fun _ _ ↦ rfl, fun _ ↦ rfl⟩
  | signed =>
    exact .inr ⟨_, rfl, fun keyID hne ↦ Function.update_of_ne hne _ _, fun hnone ↦ (hnone _ rfl).elim⟩

end Invariant

/-- Over every interleaving of requests, cancelled or failing anywhere: what the transactions returned
for a key move adds up to its spent total, which is within its limit; every returned transaction is
for the chain of its key, has a destination and carries the fields of its request; a request that gets
no transaction changes no total, and one that does changes the total of its key only. -/
theorem spent_is_what_was_signed (eth : Ethereum) (kr : Keyring) {s : State} (h : Reaches eth kr s) :
    (∀ keyID, s.spent keyID = s.movedTotal eth keyID) ∧
    (∀ keyID key, kr.lookup keyID = some key → s.spent keyID ≤ key.limit) ∧
    (∀ answer ∈ s.answers, ∀ tx, answer.result = .ok tx →
      ∃ key signed, kr.lookup answer.request.keyID = some key ∧
        eth.unmarshalBinary tx.rawTransaction = .ok signed ∧
        signed.inner.chainID = key.chainID ∧
        (signed.inner.to = some answer.request.to ∧ answer.request.to ≠ 0) ∧
        signed.inner.nonce = answer.request.nonce ∧ signed.inner.gas = answer.request.gasLimit ∧
        signed.inner.gasFeeCap = answer.request.maxFeePerGas ∧
        signed.inner.gasTipCap = answer.request.maxPriorityFeePerGas ∧
        signed.inner.value = answer.request.value ∧ signed.inner.data = answer.request.data) ∧
    ∀ action s', step eth kr s action = some s' →
      (s'.answers = s.answers ∧ s'.spent = s.spent) ∨
      ∃ answer, s'.answers = answer :: s.answers ∧
        (∀ keyID, keyID ≠ answer.request.keyID → s'.spent keyID = s.spent keyID) ∧
        ((∀ tx, answer.result ≠ .ok tx) → s'.spent = s.spent) := by
  have hinv := inv_of_reaches h
  refine ⟨hinv.spent, hinv.within, ?_, fun action s' hstep ↦ spent_of_step (step_cases hstep)⟩
  intro answer hanswer tx htx
  obtain ⟨key, signed, hlookup, hraw, hinner, hchain, hto⟩ := hinv.signed answer hanswer tx htx
  refine ⟨key, signed, hlookup, hraw, ?_⟩
  rw [hinner]
  exact ⟨hchain, ⟨rfl, hto⟩, rfl, rfl, rfl, rfl, rfl, rfl⟩

/-- A native transfer and a token transfer of the amount 60. -/
def sampleRequests : SignRequest × SignRequest :=
  let data := erc20TransferSelector ++ List.replicate 31 0 ++ [9] ++ List.replicate 31 0 ++ [60]
  (⟨"hot", 1, 7, 21000, 5, some 40, some 3, some 1, []⟩,
    ⟨"hot", 1, 8, 60000, 5, some 0, some 3, some 1, data⟩)

/-- An encoding of the two transactions of the sample. -/
def sampleEthereum : Ethereum where
  marshalBinary tx :=
    if tx = ⟨sampleRequests.1.tx, []⟩ then .ok [0]
    else if tx = ⟨sampleRequests.2.tx, []⟩ then .ok [1] else .error "rlp"
  unmarshalBinary raw :=
    if raw = [0] then .ok ⟨sampleRequests.1.tx, []⟩
    else if raw = [1] then .ok ⟨sampleRequests.2.tx, []⟩ else .error "rlp"
  hash _ := 0
  unmarshal_marshal tx raw h := by
    split at h
    · next htx => rw [← Except.ok.inj h, htx]; rfl
    · split at h
      · next htx => rw [← Except.ok.inj h, htx]; rfl
      · cases h

def sampleKeyring : Keyring :=
  ⟨fun keyID ↦ if keyID = "hot" then some ⟨[], 11, 1, 99, by decide⟩ else none⟩

/-- The second request waits for the first, whose signing fails; asked for again, the first would
bring the total over the limit of 99. -/
def sampleActions : List Action :=
  [.call 0 sampleRequests.1, .call 1 sampleRequests.2, .validate 1, .validate 0, .lock 0, .check 0,
    .sign 0 (.error "rng"), .call 2 sampleRequests.1, .validate 2, .lock 1, .check 1, .sign 1 (.ok []),
    .lock 2, .check 2]

theorem spent_is_what_was_signed_sample : ∃ s,
    run sampleEthereum sampleKeyring .initial sampleActions = some s ∧ s.answers.length = 3 ∧
    s.spent "hot" = 60 ∧ s.movedTotal sampleEthereum "hot" = 60 := by
  have hrun : (run sampleEthereum sampleKeyring .initial sampleActions).map
      (fun s ↦ (s.answers.length, s.spent "hot")) = some (3, 60) := by decide +kernel
  obtain ⟨s, hs, hfacts⟩ := Option.map_eq_some_iff.mp hrun
  obtain ⟨hlength, hspent⟩ := Prod.mk.inj hfacts
  have hreach := reaches_of_run .initial hs
  have htotal := (spent_is_what_was_signed _ _ hreach).1 "hot"
  exact ⟨s, hs, hlength, hspent, by rw [← htotal, hspent]⟩

end PaymentRail.Signer
