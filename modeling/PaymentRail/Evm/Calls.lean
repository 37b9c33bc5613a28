import PaymentRail.Evm.Network

/-!
# What is known of the calls of the signer

The calls of the signer are numbered and each is answered once, about the request that it was made with
(`Network.Orderly`).  A submission has at most one call, its own, for a request that stands for its
intent (`Covered`), and a transaction that was sent is that of the answer to it (`Owned`).  Every step of
the network keeps this.
-/

namespace PaymentRail.Evm

open Transaction

namespace Network

/-- A call of the signer is about a request: it is in progress, or was answered. -/
def Asked (net : Network) (call : ℕ) (r : Signer.SignRequest) : Prop :=
  (∃ stage, net.signer.stage call = some stage ∧ requestOf stage = r) ∨
    ∃ answer, (call, answer) ∈ net.results ∧ answer.request = r

/-- The calls of the signer are numbered, and each is answered once. -/
structure Orderly (net : Network) : Prop where
  answers : net.results.map Prod.snd = net.signer.answers
  once : (net.results.map Prod.fst).Nodup
  answered : ∀ call ∈ net.results.map Prod.fst, call < net.calls ∧ net.signer.stage call = none
  started : ∀ call stage, net.signer.stage call = some stage → call < net.calls
  callers : ∀ call id, net.callers call = some id → call < net.calls
  /-- No request asks for a negative value. -/
  value : ∀ call r, net.Asked call r → ∃ value : ℕ, r.value = some (value : ℤ)

/-- What a later state knows of an earlier one. -/
structure After (net net' : Network) : Prop where
  results : net.results ⊆ net'.results
  callers : ∀ call id, net.callers call = some id → net'.callers call = some id
  asked : ∀ call r, net.Asked call r → net'.Asked call r

end Network

/-- A request of the signer that stands for the transfer of an intent. -/
def MeantBy (a : Adapter) (intent : PaymentIntent) (r : Signer.SignRequest) : Prop :=
  ∃ req, Meant a intent req ∧ toDomainRequest req.encode = .ok r

/-- What is known of a submission. -/
def Covered (eth : Signer.Ethereum) (keccak : List UInt8 → List UInt8) (net : Network) (id : ℕ)
    (a : Adapter) (intent : PaymentIntent) : ClientState → Prop
  | .talking program none => Unsigned (Meant a intent) (Sends eth a) program
  | .talking program (some call) => net.callers call = some id ∧ ∃ answer,
      (call, answer) ∈ net.results ∧ MeantBy a intent answer.request ∧
        Signed (Sends eth a) (readResponse (respond keccak answer.result)) program
  | .waiting call next => net.callers call = some id ∧ (∃ r, MeantBy a intent r ∧ net.Asked call r) ∧
      ∀ reply, Signed (Sends eth a) reply (next reply)

/-- A submission that is over. -/
def ClientState.Closed : ClientState → Prop
  | .talking (.done _) _ => True
  | _ => False

/-- A transaction that was sent is that of an answer to the submission that sent it. -/
structure Owned (eth : Signer.Ethereum) (net : Network) (d : Dispatch) (client : Client) : Prop where
  present : net.clients d.client = some client
  closed : client.state.Closed
  keyID : d.keyID = client.adapter.keyID
  call : ∃ call answer signed, d.call = some call ∧ net.callers call = some d.client ∧
    (call, answer) ∈ net.results ∧ MeantBy client.adapter client.intent answer.request ∧
    answer.result = .ok signed ∧ eth.unmarshalBinary signed.rawTransaction = .ok d.tx

structure NetworkInv (eth : Signer.Ethereum) (keccak : List UInt8 → List UInt8) (kr : Signer.Keyring)
    (net : Network) : Prop where
  signer : Signer.Reaches eth kr net.signer
  orderly : net.Orderly
  covered : ∀ id client, net.clients id = some client →
    Covered eth keccak net id client.adapter client.intent client.state
  sent : ∀ d ∈ net.sent, ∃ client, Owned eth net d client
  once : (net.sent.map Dispatch.client).Nodup

section Steps

variable {eth : Signer.Ethereum} {keccak : List UInt8 → List UInt8} {kr : Signer.Keyring}
  {net net' : Network} {id : ℕ} {a : Adapter} {intent : PaymentIntent}

theorem Covered.mono (hafter : net.After net') {state : ClientState}
    (h : Covered eth keccak net id a intent state) : Covered eth keccak net' id a intent state := by
  cases state with
  | talking program call =>
    cases call with
    | none => exact h
    | some call =>
      obtain ⟨hcaller, answer, hanswer, hrest⟩ := h
      exact ⟨hafter.callers _ _ hcaller, answer, hafter.results hanswer, hrest⟩
  | waiting call next =>
    obtain ⟨hcaller, ⟨r, hmeant, hasked⟩, hnext⟩ := h
    exact ⟨hafter.callers _ _ hcaller, ⟨r, hmeant, hafter.asked _ _ hasked⟩, hnext⟩

theorem Owned.mono (hafter : net.After net') {d : Dispatch} {client : Client}
    (h : Owned eth net d client) (hclient : net'.clients d.client = some client) :
    Owned eth net' d client := by
  obtain ⟨call, answer, signed, hcall, hcaller, hanswer, hrest⟩ := h.call
  exact ⟨hclient, h.closed, h.keyID, call, answer, signed, hcall, hafter.callers _ _ hcaller,
    hafter.results hanswer, hrest⟩

/-- A step that leaves the submissions as they are. -/
theorem NetworkInv.carry (h : NetworkInv eth keccak kr net) (hafter : net.After net')
    (hsigner : Signer.Reaches eth kr net'.signer) (horderly : net'.Orderly)
    (hclients : net'.clients = net.clients) (hsent : net'.sent = net.sent) :
    NetworkInv eth keccak kr net' where
  signer := hsigner
  orderly := horderly
  covered id client hclient := (h.covered id client (by rw [← hclients, hclient])).mono hafter
  sent d hd := by
    obtain ⟨client, howned⟩ := h.sent d (hsent ▸ hd)
    exact ⟨client, howned.mono hafter (by rw [hclients, howned.present])⟩
  once := by rw [hsent]; exact h.once

theorem Network.Orderly.setClient (h : net.Orderly) (id : ℕ) (client : Client) :
    (net.setClient id client).Orderly :=
  ⟨h.answers, h.once, h.answered, h.started, h.callers, h.value⟩

/-- A submission goes on without sending. -/
theorem NetworkInv.goOn (h : NetworkInv eth keccak kr net) (id : ℕ) (client : Client)
    (hopen : ∀ old, net.clients id = some old → ¬old.state.Closed)
    (hcovered : Covered eth keccak net id client.adapter client.intent client.state) :
    NetworkInv eth keccak kr (net.setClient id client) := by
  have hafter : net.After (net.setClient id client) :=
    ⟨fun _ hmem ↦ hmem, fun _ _ hcaller ↦ hcaller, fun _ _ hasked ↦ hasked⟩
  refine ⟨h.signer, h.orderly.setClient id client, fun other client' hclient ↦ ?_, fun d hd ↦ ?_,
    h.once⟩
  · by_cases hother : other = id
    · subst hother
      have hself : (net.setClient other client).clients other = some client :=
        Function.update_self ..
      obtain rfl := Option.some.inj (hself.symm.trans hclient)
      exact hcovered
    · have hold : (net.setClient id client).clients other = net.clients other :=
        Function.update_of_ne hother ..
      exact h.covered other client' (hold.symm.trans hclient)
  · obtain ⟨owner, howned⟩ := h.sent d hd
    have hne : d.client ≠ id := by
      rintro rfl
      exact hopen owner howned.present howned.closed
    exact ⟨owner, howned.mono hafter ((Function.update_of_ne hne ..).trans howned.present)⟩

/-- A submission sends its transaction. -/
theorem NetworkInv.send (h : NetworkInv eth keccak kr net) {call : Option ℕ}
    {tx : Signer.SignedTransaction} {next : RpcReply (.sendTransaction tx) → Conversation}
    (hclient : net.clients id = some ⟨a, intent, .talking (.call (.sendTransaction tx) next) call⟩)
    (reply : RpcReply (.sendTransaction tx)) :
    NetworkInv eth keccak kr
      { net.setClient id ⟨a, intent, .talking (next reply) call⟩ with
        sent := ⟨id, call, a.keyID, tx⟩ :: net.sent } := by
  have hcovered := h.covered id _ hclient
  cases call with
  | none => exact hcovered.elim
  | some call =>
    obtain ⟨hcaller, answer, hanswer, hmeant, ⟨signed, hreply, hsends⟩, hover⟩ := hcovered
    obtain ⟨result, hresult⟩ := hover reply
    have hon := h.goOn id ⟨a, intent, .talking (next reply) (some call)⟩
      (fun old hold hover ↦ by
        obtain rfl := Option.some.inj (hold.symm.trans hclient)
        exact hover)
      ⟨hcaller, answer, hanswer, hmeant, by rw [hresult]; trivial⟩
    have hafter : (net.setClient id ⟨a, intent, .talking (next reply) (some call)⟩).After
        { net.setClient id ⟨a, intent, .talking (next reply) (some call)⟩ with
          sent := ⟨id, some call, a.keyID, tx⟩ :: net.sent } :=
      ⟨fun _ hmem ↦ hmem, fun _ _ hcaller ↦ hcaller, fun _ _ hasked ↦ hasked⟩
    refine ⟨h.signer, ⟨h.orderly.answers, h.orderly.once, h.orderly.answered, h.orderly.started,
      h.orderly.callers, h.orderly.value⟩, fun other client hother ↦ ?_, fun d hd ↦ ?_, ?_⟩
    · exact (hon.covered other client hother).mono hafter
    · rcases List.mem_cons.mp hd with rfl | hd
      · refine ⟨_, Function.update_self .., ?_, rfl, call, answer, signed, rfl, hcaller, hanswer,
          hmeant, readResponse_eq_ok.mp hreply, hsends.2⟩
        rw [hresult]
        trivial
      · obtain ⟨owner, howned⟩ := hon.sent d hd
        exact ⟨owner, howned.mono hafter howned.present⟩
    · rw [List.map_cons, List.nodup_cons]
      refine ⟨fun hmem ↦ ?_, h.once⟩
      obtain ⟨d, hd, hid⟩ := List.mem_map.mp hmem
      obtain ⟨owner, howned⟩ := h.sent d hd
      have hpresent := howned.present
      rw [hid] at hpresent
      obtain rfl := Option.some.inj (hpresent.symm.trans hclient)
      exact howned.closed

/-- What a decoded request asks for is not negative. -/
theorem value_of_toDomainRequest {req : SignTransactionRequest} {r : Signer.SignRequest}
    (h : toDomainRequest req = .ok r) : ∃ value : ℕ, r.value = some (value : ℤ) := by
  unfold toDomainRequest at h
  split at h
  · cases h
  · obtain ⟨value, hvalue, h⟩ := bind_eq_ok.mp h
    obtain ⟨maxFee, -, h⟩ := bind_eq_ok.mp h
    obtain ⟨maxTip, -, h⟩ := bind_eq_ok.mp h
    cases h
    unfold toUint256 at hvalue
    split at hvalue
    · cases hvalue
    · exact ⟨_, congrArg some (Except.ok.inj hvalue).symm⟩

/-- A new call of the signer. -/
theorem NetworkInv.receive (h : NetworkInv eth keccak kr net) {caller : Option ℕ}
    {r : Signer.SignRequest} (hvalue : ∃ value : ℕ, r.value = some (value : ℤ))
    (hstep : net.receive eth kr caller r = some net') :
    NetworkInv eth keccak kr net' ∧ net'.clients = net.clients ∧
      net'.callers net.calls = caller ∧ net'.Asked net.calls r := by
  obtain ⟨s, hs, rfl⟩ := Option.map_eq_some_iff.mp hstep
  have hreaches := h.signer.step hs
  simp only [Signer.step] at hs
  split at hs
  · cases hs
  next hnew =>
  cases hs
  have hstage : ∀ call stage, net.signer.stage call = some stage →
      (net.signer.goto net.calls (.received r)).stage call = some stage := by
    intro call stage hstage
    have hne : call ≠ net.calls := by
      rintro rfl
      rw [hnew] at hstage
      cases hstage
    exact (Function.update_of_ne hne ..).trans hstage
  have hold : ∀ call ≠ net.calls, (net.signer.goto net.calls (.received r)).stage call =
      net.signer.stage call := fun call hne ↦ Function.update_of_ne hne ..
  have hself : (net.signer.goto net.calls (.received r)).stage net.calls = some (.received r) :=
    Function.update_self ..
  refine ⟨h.carry ⟨fun _ hmem ↦ hmem, fun call id hcaller ↦ ?_, fun call r' hasked ↦ ?_⟩ hreaches
    ⟨h.orderly.answers, h.orderly.once, fun call hcall ↦ ?_, fun call stage hcall ↦ ?_,
      fun call id hcaller ↦ ?_, fun call r' hasked ↦ ?_⟩ rfl rfl, rfl, Function.update_self ..,
    .inl ⟨_, hself, rfl⟩⟩
  · have hlt := h.orderly.callers call id hcaller
    exact (Function.update_of_ne hlt.ne ..).trans hcaller
  · obtain ⟨stage, hcall, hr⟩ | hanswered := hasked
    · exact .inl ⟨stage, hstage call stage hcall, hr⟩
    · exact .inr hanswered
  · obtain ⟨hlt, hnone⟩ := h.orderly.answered call hcall
    exact ⟨Nat.lt_succ_of_lt hlt, (hold call hlt.ne).trans hnone⟩
  · by_cases hne : call = net.calls
    · exact hne ▸ Nat.lt_succ_self _
    · exact Nat.lt_succ_of_lt (h.orderly.started call stage ((hold call hne).symm.trans hcall))
  · by_cases hne : call = net.calls
    · exact hne ▸ Nat.lt_succ_self _
    · have hbefore : net.callers call = some id := (Function.update_of_ne hne ..).symm.trans hcaller
      exact Nat.lt_succ_of_lt (h.orderly.callers call id hbefore)
  · obtain ⟨stage, hcall, rfl⟩ | hanswered := hasked
    · by_cases hne : call = net.calls
      · subst hne
        obtain rfl := Option.some.inj (hself.symm.trans hcall)
        exact hvalue
      · exact h.orderly.value call _ (.inl ⟨stage, (hold call hne).symm.trans hcall, rfl⟩)
    · exact h.orderly.value call r' (.inr hanswered)

/-- A step of a call of the signer leaves what every call is about. -/
theorem asked_serve {s : Signer.State} {pid : ℕ} {stage : Signer.Stage} {new : Option Signer.Stage}
    {answers : List Signer.Answer} (hstage : net.signer.stage pid = some stage)
    (hstages : s.stage = Function.update net.signer.stage pid new)
    (hnew : (∃ stage', new = some stage' ∧ requestOf stage' = requestOf stage ∧ answers = []) ∨
      new = none ∧ ∃ result, answers = [⟨requestOf stage, result⟩]) (call : ℕ)
    (r : Signer.SignRequest) :
    Network.Asked { net with signer := s, results := answers.map (pid, ·) ++ net.results } call r ↔
      net.Asked call r := by
  by_cases hne : call = pid
  · subst hne
    simp only [Network.Asked, hstages, Function.update_self, hstage, Option.some.injEq,
      exists_eq_left']
    obtain ⟨stage', rfl, hrequest, rfl⟩ | ⟨rfl, result, rfl⟩ := hnew
    · simp [hrequest]
    · simp [or_and_right, exists_or]
  · obtain ⟨stage', -, -, rfl⟩ | ⟨-, result, rfl⟩ := hnew <;>
      simp [Network.Asked, hstages, hne]

/-- A step of a call of the signer. -/
theorem NetworkInv.serve (h : NetworkInv eth keccak kr net) {action : Signer.Action}
    (hserve : ∀ pid r, action ≠ .call pid r) (hstep : net.serve eth kr action = some net') :
    NetworkInv eth keccak kr net' := by
  obtain ⟨s, hs, rfl⟩ := Option.map_eq_some_iff.mp hstep
  obtain ⟨stage, hstage, hcases⟩ := step_of_call hserve hs
  have hfresh : pidOf action ∉ net.results.map Prod.fst := by
    intro hmem
    cases hstage.symm.trans (h.orderly.answered _ hmem).2
  obtain ⟨new, answers, hstages, hanswers, hnew⟩ : ∃ new answers,
      s.stage = Function.update net.signer.stage (pidOf action) new ∧
      s.answers = answers ++ net.signer.answers ∧
      ((∃ stage', new = some stage' ∧ requestOf stage' = requestOf stage ∧ answers = []) ∨
        new = none ∧ ∃ result, answers = [⟨requestOf stage, result⟩]) := by
    obtain ⟨stage', hstages, hrequest, hanswers⟩ | ⟨result, hstages, hanswers⟩ := hcases
    · exact ⟨_, [], hstages, hanswers, .inl ⟨stage', rfl, hrequest, rfl⟩⟩
    · exact ⟨_, [_], hstages, hanswers, .inr ⟨rfl, result, rfl⟩⟩
  have htake : s.answers.take (s.answers.length - net.signer.answers.length) = answers := by
    rw [hanswers, List.length_append, Nat.add_sub_cancel, List.take_left]
  have hold : ∀ call ≠ pidOf action, s.stage call = net.signer.stage call := by
    intro call hne
    rw [hstages, Function.update_of_ne hne]
  rw [htake]
  refine h.carry ⟨List.subset_append_right _ _, fun _ _ hcaller ↦ hcaller,
    fun call r ↦ (asked_serve hstage hstages hnew call r).mpr⟩ (h.signer.step hs)
    ⟨?_, ?_, fun call hcall ↦ ?_, fun call other hcall ↦ ?_, h.orderly.callers,
      fun call r hasked ↦ h.orderly.value call r ((asked_serve hstage hstages hnew call r).mp hasked)⟩
    rfl rfl
  · rw [List.map_append, List.map_map, h.orderly.answers, hanswers]
    exact congrArg (· ++ _) (List.map_id answers)
  · obtain ⟨stage', -, -, rfl⟩ | ⟨-, result, rfl⟩ := hnew
    · exact h.orderly.once
    · exact List.nodup_cons.mpr ⟨hfresh, h.orderly.once⟩
  · by_cases hne : call = pidOf action
    · subst hne
      obtain ⟨stage', -, -, rfl⟩ | ⟨rfl, result, rfl⟩ := hnew
      · exact (hfresh hcall).elim
      · exact ⟨h.orderly.started _ stage hstage, by rw [hstages, Function.update_self]⟩
    · have hbefore : call ∈ net.results.map Prod.fst := by
        simpa [hne] using hcall
      rw [hold call hne]
      exact h.orderly.answered call hbefore
  · by_cases hne : call = pidOf action
    · rw [hne]
      exact h.orderly.started _ stage hstage
    · exact h.orderly.started call other ((hold call hne).symm.trans hcall)

/-- The answer that a waiting submission gets is one to its own request. -/
theorem NetworkInv.reply (h : NetworkInv eth keccak kr net) {call : ℕ} {answer : Signer.Answer}
    {next : Except String Signer.SignedTx → Conversation}
    (hclient : net.clients id = some ⟨a, intent, .waiting call next⟩)
    (hanswer : Table.valueAt net.results call = some answer) :
    NetworkInv eth keccak kr (net.setClient id ⟨a, intent,
      .talking (next (readResponse (respond keccak answer.result))) (some call)⟩) := by
  obtain ⟨hcaller, ⟨r, hmeant, hasked⟩, hnext⟩ := h.covered id _ hclient
  obtain ⟨⟨call', answer'⟩, hpair, rfl⟩ := Option.map_eq_some_iff.mp hanswer
  obtain rfl : call' = call := Table.key_of_lookup hpair
  have hmem := Table.mem_of_lookup hpair
  have hrequest : answer'.request = r := by
    obtain ⟨stage, hstage, -⟩ | ⟨other, hother, hr⟩ := hasked
    · have hnone := (h.orderly.answered _ (List.mem_map_of_mem hmem)).2
      cases hstage.symm.trans hnone
    · have hsame := Table.lookup_of_mem h.orderly.once hother
      obtain rfl : answer' = other := (Prod.mk.inj (Option.some.inj (hpair.symm.trans hsame))).2
      exact hr
  refine h.goOn id _ (fun old hold hover ↦ ?_)
    ⟨hcaller, answer', hmem, hrequest ▸ hmeant, hnext _⟩
  obtain rfl := Option.some.inj (hold.symm.trans hclient)
  exact hover

/-- The node's answer to a call other than the one that sends. -/
theorem NetworkInv.hear (h : NetworkInv eth keccak kr net) {call : Option ℕ} {rpc : Rpc}
    {next : RpcReply rpc → Conversation}
    (hclient : net.clients id = some ⟨a, intent, .talking (.call rpc next) call⟩)
    (reply : RpcReply rpc) (hstep : net.hear id a intent call rpc next reply = some net') :
    NetworkInv eth keccak kr net' := by
  have hopen : ∀ old, net.clients id = some old → ¬old.state.Closed := by
    intro old hold hover
    obtain rfl := Option.some.inj (hold.symm.trans hclient)
    exact hover
  have hcovered := h.covered id _ hclient
  cases rpc with
  | sign req => cases hstep
  | sendTransaction tx =>
    cases hstep
    exact h.send hclient reply
  | _ =>
    cases hstep
    cases call with
    | none => exact h.goOn id _ hopen (hcovered reply)
    | some call =>
      obtain ⟨-, answer, -, -, hsigned⟩ := hcovered
      exact hsigned.elim

theorem NetworkInv.step (h : NetworkInv eth keccak kr net) {event : Event}
    (hstep : net.step eth keccak kr event = some net') : NetworkInv eth keccak kr net' := by
  cases event with
  | submit id a next intent =>
    simp only [Network.step] at hstep
    split at hstep
    · cases hstep
    · next hnone =>
      cases hstep
      refine h.goOn id _ (fun old hold ↦ ?_) (unsigned_submit eth a next intent)
      cases hnone.symm.trans hold
  | answer id reply =>
    simp only [Network.step] at hstep
    split at hstep
    · next hclient => exact h.hear hclient _ hstep
    · cases hstep
  | request id =>
    simp only [Network.step] at hstep
    split at hstep
    · next a intent req next call hclient =>
      have hopen : ∀ old, net.clients id = some old → ¬old.state.Closed := by
        intro old hold hover
        obtain rfl := Option.some.inj (hold.symm.trans hclient)
        exact hover
      have hcovered := h.covered id _ hclient
      obtain ⟨hmeant, hnext⟩ : Meant a intent req ∧
          ∀ reply, Signed (Sends eth a) reply (next reply) := by
        cases call with
        | none => exact hcovered
        | some call =>
          obtain ⟨-, answer, -, -, hsigned⟩ := hcovered
          exact hsigned.elim
      split at hstep
      · next err _ =>
        cases hstep
        obtain ⟨result, hresult⟩ := (hnext (readResponse (.error err.status))).of_error
        refine h.goOn id _ hopen ?_
        rw [hresult]
        trivial
      · next r hr =>
        obtain ⟨mid, hmid, rfl⟩ := Option.map_eq_some_iff.mp hstep
        obtain ⟨hinv, hclients, hcaller, hasked⟩ := h.receive (value_of_toDomainRequest hr) hmid
        exact hinv.goOn id _ (by rwa [hclients])
          ⟨hcaller, ⟨r, ⟨req, hmeant, hr⟩, hasked⟩, hnext⟩
    · cases hstep
  | foreign req =>
    simp only [Network.step] at hstep
    split at hstep
    · cases hstep
      exact h
    · next r hr => exact (h.receive (value_of_toDomainRequest hr) hstep).1
  | serve action =>
    cases action with
    | call pid r => cases hstep
    | _ => exact h.serve (fun _ _ heq ↦ by cases heq) hstep
  | reply id =>
    simp only [Network.step] at hstep
    split at hstep
    · next hclient =>
      obtain ⟨answer, hanswer, rfl⟩ := Option.map_eq_some_iff.mp hstep
      exact h.reply hclient hanswer
    · cases hstep
  | lose id text =>
    simp only [Network.step] at hstep
    split at hstep
    · next a intent call next hclient =>
      cases hstep
      obtain ⟨-, -, hnext⟩ := h.covered id _ hclient
      obtain ⟨result, hresult⟩ := (hnext (.error text)).of_error
      refine h.goOn id _ (fun old hold hover ↦ ?_) (by rw [hresult]; trivial)
      obtain rfl := Option.some.inj (hold.symm.trans hclient)
      exact hover
    · cases hstep

theorem networkInv_of_reached (h : Reached eth keccak kr net) : NetworkInv eth keccak kr net := by
  induction h with
  | initial =>
    refine ⟨.initial, ⟨rfl, List.nodup_nil, ?_, ?_, ?_, ?_⟩, ?_, ?_, List.nodup_nil⟩
    · simp [Network.initial]
    · simp [Network.initial, Signer.State.initial]
    · simp [Network.initial]
    · simp [Network.initial, Network.Asked, Signer.State.initial]
    · simp [Network.initial]
    · simp [Network.initial]
  | step _ hstep ih => exact ih.step hstep

end Steps

end PaymentRail.Evm
