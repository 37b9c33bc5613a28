import PaymentRail.Evm.Wire
import PaymentRail.Signer.Sign

/-!
# The signer and its callers

One signer and everyone who calls it: any number of submissions of any adapters, each a conversation
with a node and the signer, and any other requests on the wire.  Requests are served side by side; a
connection may be lost while the signer goes on with the request, and the node answers what it likes.

A submission calls the signer at most once and sends at most the transaction that it got from there
(`Unsigned`, `Signed`), and a step of the signer belongs to one call (`step_of_call`).
-/

namespace PaymentRail.Evm

open Transaction

/-- A submission in progress. -/
abbrev Conversation := Program RpcReply (Except Err String × Nonces)

/-- Where a submission stands; `call` is the call of the signer whose answer it has. -/
inductive ClientState where
  | talking (program : Conversation) (call : Option ℕ)
  | waiting (call : ℕ) (next : Except String Signer.SignedTx → Conversation)

structure Client where
  adapter : Adapter
  intent : PaymentIntent
  state : ClientState

/-- A transaction that was handed to a node. -/
structure Dispatch where
  client : ℕ
  call : Option ℕ
  keyID : String
  tx : Signer.SignedTransaction

/-- The signer with the number of its calls, who made them and how they were answered, newest first; the
submissions; and what they sent. -/
structure Network where
  signer : Signer.State
  calls : ℕ
  callers : ℕ → Option ℕ
  results : List (ℕ × Signer.Answer)
  clients : ℕ → Option Client
  sent : List Dispatch

inductive Event where
  | submit (id : ℕ) (adapter : Adapter) (next : Nonces) (intent : PaymentIntent)
  /-- The node answers a call. -/
  | answer (id : ℕ) (reply : (rpc : Rpc) → RpcReply rpc)
  /-- A submission calls the signer. -/
  | request (id : ℕ)
  /-- Somebody else calls the signer. -/
  | foreign (req : SignTransactionRequest)
  /-- The signer takes a step. -/
  | serve (action : Signer.Action)
  | reply (id : ℕ)
  /-- The connection of a submission to the signer is lost. -/
  | lose (id : ℕ) (text : String)

/-- The call that a step of the signer belongs to. -/
def pidOf : Signer.Action → ℕ
  | .call pid _ | .cancel pid _ | .validate pid | .lock pid | .check pid | .sign pid _ => pid

namespace Network

def initial : Network := ⟨.initial, 0, fun _ ↦ none, [], fun _ ↦ none, []⟩

def setClient (net : Network) (id : ℕ) (client : Client) : Network :=
  { net with clients := Function.update net.clients id (some client) }

/-- A submission goes on with the answer of a node; a transaction that it sends is on record. -/
def hear (net : Network) (id : ℕ) (adapter : Adapter) (intent : PaymentIntent) (call : Option ℕ) :
    (rpc : Rpc) → (RpcReply rpc → Conversation) → RpcReply rpc → Option Network
  | .sign _, _, _ => none
  | .sendTransaction tx, next, reply =>
    some { net.setClient id ⟨adapter, intent, .talking (next reply) call⟩ with
      sent := ⟨id, call, adapter.keyID, tx⟩ :: net.sent }
  | _, next, reply => some (net.setClient id ⟨adapter, intent, .talking (next reply) call⟩)

/-- A decoded request reaches the signer. -/
def receive (eth : Signer.Ethereum) (kr : Signer.Keyring) (net : Network) (caller : Option ℕ)
    (r : Signer.SignRequest) : Option Network :=
  (Signer.step eth kr net.signer (.call net.calls r)).map fun s ↦
    { net with
      signer := s
      calls := net.calls + 1
      callers := Function.update net.callers net.calls caller }

/-- The signer takes a step of a call; an answer is on record under the call. -/
def serve (eth : Signer.Ethereum) (kr : Signer.Keyring) (net : Network) (action : Signer.Action) :
    Option Network :=
  (Signer.step eth kr net.signer action).map fun s ↦
    { net with
      signer := s
      results := (s.answers.take (s.answers.length - net.signer.answers.length)).map
        (fun answer ↦ (pidOf action, answer)) ++ net.results }

/-- One step; `none` when it is not enabled. -/
def step (eth : Signer.Ethereum) (keccak : List UInt8 → List UInt8) (kr : Signer.Keyring)
    (net : Network) : Event → Option Network
  | .submit id adapter next intent =>
    match net.clients id with
    | some _ => none
    | none =>
      some (net.setClient id ⟨adapter, intent, .talking (submit eth adapter next intent) none⟩)
  | .answer id reply =>
    match net.clients id with
    | some ⟨adapter, intent, .talking (.call rpc next) call⟩ =>
      net.hear id adapter intent call rpc next (reply rpc)
    | _ => none
  | .request id =>
    match net.clients id with
    | some ⟨adapter, intent, .talking (.call (.sign req) next) _⟩ =>
      match toDomainRequest req.encode with
      | .error err =>
        some (net.setClient id
          ⟨adapter, intent, .talking (next (readResponse (.error err.status))) none⟩)
      | .ok r =>
        (net.receive eth kr (some id) r).map
          (·.setClient id ⟨adapter, intent, .waiting net.calls next⟩)
    | _ => none
  | .foreign req =>
    match toDomainRequest req with
    | .error _ => some net
    | .ok r => net.receive eth kr none r
  | .serve (.call ..) => none
  | .serve action => net.serve eth kr action
  | .reply id =>
    match net.clients id with
    | some ⟨adapter, intent, .waiting call next⟩ =>
      (Table.valueAt net.results call).map fun answer ↦ net.setClient id
        ⟨adapter, intent, .talking (next (readResponse (respond keccak answer.result))) (some call)⟩
    | _ => none
  | .lose id text =>
    match net.clients id with
    | some ⟨adapter, intent, .waiting _ next⟩ =>
      some (net.setClient id ⟨adapter, intent, .talking (next (.error text)) none⟩)
    | _ => none

end Network

/-- The states that events lead to, in any order. -/
inductive Reached (eth : Signer.Ethereum) (keccak : List UInt8 → List UInt8) (kr : Signer.Keyring) :
    Network → Prop
  | initial : Reached eth keccak kr .initial
  | step {net net' : Network} {event : Event} : Reached eth keccak kr net →
      net.step eth keccak kr event = some net' → Reached eth keccak kr net'

/-- Run a list of events. -/
def Network.run (eth : Signer.Ethereum) (keccak : List UInt8 → List UInt8) (kr : Signer.Keyring)
    (net : Network) (events : List Event) : Option Network :=
  events.foldlM (Network.step eth keccak kr) net

theorem reached_of_run {eth : Signer.Ethereum} {keccak : List UInt8 → List UInt8}
    {kr : Signer.Keyring} {net net' : Network} {events : List Event} (hnet : Reached eth keccak kr net)
    (h : net.run eth keccak kr events = some net') : Reached eth keccak kr net' := by
  induction events generalizing net with
  | nil =>
    cases h
    exact hnet
  | cons event rest ih =>
    rw [Network.run, List.foldlM_cons] at h
    obtain ⟨mid, hmid, hrest⟩ := Option.bind_eq_some_iff.mp h
    exact ih (hnet.step hmid) hrest

/-! ### A submission as the signer and the node see it -/

/-- What is left of a submission that has its answer from the signer: it is over, or it sends the
transaction of that answer, and then it is over. -/
def Signed {ρ : Type} (sends : Signer.SignedTx → Signer.SignedTransaction → Prop)
    (reply : Except String Signer.SignedTx) : Program RpcReply ρ → Prop
  | .done _ => True
  | .call (.sendTransaction tx) next =>
    (∃ signed, reply = .ok signed ∧ sends signed tx) ∧ ∀ reply, ∃ result, next reply = .done result
  | .call _ _ => False

/-- What is left of a submission before it calls the signer: it asks for something good, and sends
nothing before that. -/
def Unsigned {ρ : Type} (good : SignerRequest → Prop)
    (sends : Signer.SignedTx → Signer.SignedTransaction → Prop) : Program RpcReply ρ → Prop
  | .done _ => True
  | .call (.sign req) next => good req ∧ ∀ reply, Signed sends reply (next reply)
  | .call (.sendTransaction _) _ => False
  | .call _ next => ∀ reply, Unsigned good sends (next reply)

/-- Calls to the node that send nothing. -/
def Asking : Rpc → Prop
  | .sign _ | .sendTransaction _ => False
  | _ => True

section Programs

variable {α ρ ρ' : Type} {good : SignerRequest → Prop} {reply : Except String Signer.SignedTx}
  {sends : Signer.SignedTx → Signer.SignedTransaction → Prop}

theorem Signed.bind {program : Program RpcReply ρ} {rest : ρ → Program RpcReply ρ'}
    (h : Signed sends reply program) (hrest : ∀ result, ∃ out, rest result = .done out) :
    Signed sends reply (program.bind rest) := by
  cases program with
  | done result =>
    obtain ⟨out, hout⟩ := hrest result
    rw [Program.bind_done, hout]
    trivial
  | call rpc next =>
    cases rpc with
    | sendTransaction tx =>
      refine ⟨h.1, fun answer ↦ ?_⟩
      obtain ⟨result, hresult⟩ := h.2 answer
      obtain ⟨out, hout⟩ := hrest result
      exact ⟨out, (congrArg (·.bind rest) hresult).trans hout⟩
    | _ => exact h.elim

/-- Without a signed transaction a submission is over. -/
theorem Signed.of_error {text : String} {program : Program RpcReply ρ}
    (h : Signed sends (.error text) program) : ∃ result, program = .done result := by
  cases program with
  | done result => exact ⟨result, rfl⟩
  | call rpc next =>
    cases rpc with
    | sendTransaction tx =>
      obtain ⟨⟨signed, hsigned, -⟩, -⟩ := h
      cases hsigned
    | _ => exact h.elim

theorem Unsigned.of_asking {program : Program RpcReply α} {rest : α → Program RpcReply ρ}
    (hprogram : program.Issues Asking) (hrest : ∀ value, Unsigned good sends (rest value)) :
    Unsigned good sends (program.bind rest) := by
  induction program with
  | done result => exact hrest result
  | call rpc next ih =>
    cases rpc with
    | sign req => exact hprogram.1.elim
    | sendTransaction tx => exact hprogram.1.elim
    | _ => exact fun reply ↦ ih reply (hprogram.2 reply)

theorem asking_gasEstimate (a : Adapter) (msg : CallMsg) :
    Program.Issues Asking (gasEstimate a msg) := by
  refine Tx.issues_bind (Tx.issues_stmt trivial) fun _ ↦ Tx.issues_bind (Tx.issues_ofExcept _) fun _ ↦ ?_
  refine Tx.issues_bind (Tx.issues_ofExcept _) fun _ ↦ Tx.issues_bind (Tx.issues_stmt trivial) fun _ ↦ ?_
  refine Tx.issues_bind (Tx.issues_ofExcept _) fun _ ↦ Tx.issues_bind (Tx.issues_stmt trivial) fun _ ↦ ?_
  exact Tx.issues_bind (Tx.issues_ofExcept _) fun _ ↦ Tx.issues_ofExcept _

end Programs

/-- A request for the transfer of an intent. -/
def Meant (a : Adapter) (intent : PaymentIntent) (req : SignerRequest) : Prop :=
  ∃ data gp nonce, prepare a intent = .ok data ∧ req = signerRequest a data gp nonce

/-- The transaction of an answer from the sender of the adapter. -/
def Sends (eth : Signer.Ethereum) (a : Adapter) (signed : Signer.SignedTx)
    (tx : Signer.SignedTransaction) : Prop :=
  signed.from = a.from ∧ eth.unmarshalBinary signed.rawTransaction = .ok tx

section Submit

variable (eth : Signer.Ethereum) (a : Adapter)

theorem signed_signAndSend (data : List UInt8) (gp : GasParams) (nonce : UInt64) :
    Unsigned (· = signerRequest a data gp nonce) (Sends eth a)
      (signAndSend eth a data gp nonce : Program RpcReply (Except Err String)) := by
  refine ⟨rfl, fun reply ↦ ?_⟩
  cases reply with
  | error text => trivial
  | ok signed =>
    change Signed _ _ (ite _ _ _ : Tx RpcReply Err String)
    split
    · trivial
    · next hfrom =>
      cases htx : eth.unmarshalBinary signed.rawTransaction with
      | error text => trivial
      | ok tx =>
        refine ⟨⟨signed, rfl, not_not.mp hfrom, htx⟩, fun reply ↦ ?_⟩
        cases reply <;> exact ⟨_, rfl⟩

/-- A submission asks the signer for the transfer of its intent, and sends only what it was given. -/
theorem unsigned_submit (next : Nonces) (intent : PaymentIntent) :
    Unsigned (Meant a intent) (Sends eth a) (submit eth a next intent) := by
  unfold submit
  split
  · trivial
  next data hdata =>
  refine Unsigned.of_asking (asking_gasEstimate a _) fun estimate ↦ ?_
  cases estimate with
  | error err => trivial
  | ok gp =>
    intro pending
    cases pending with
    | error text => trivial
    | ok pending =>
      obtain ⟨hreq, hsend⟩ := signed_signAndSend eth a data gp
        (if pending < next a.from then next a.from else pending)
      refine ⟨⟨data, gp, _, hdata, rfl⟩, fun reply ↦ (hsend reply).bind fun result ↦ ?_⟩
      cases result <;> exact ⟨_, rfl⟩

end Submit

/-! ### The steps of the signer, by call -/

/-- The request that a call is about. -/
def requestOf : Signer.Stage → Signer.SignRequest
  | .received r | .validated r _ _ | .holding r _ _ | .signing r _ _ => r

/-- A step of the signer takes one call on, or answers it. -/
theorem step_of_call {eth : Signer.Ethereum} {kr : Signer.Keyring} {s s' : Signer.State}
    {action : Signer.Action} (hserve : ∀ pid r, action ≠ .call pid r)
    (h : Signer.step eth kr s action = some s') :
    ∃ stage, s.stage (pidOf action) = some stage ∧
      ((∃ stage', s'.stage = Function.update s.stage (pidOf action) (some stage') ∧
        requestOf stage' = requestOf stage ∧ s'.answers = s.answers) ∨
      ∃ result, s'.stage = Function.update s.stage (pidOf action) none ∧
        s'.answers = ⟨requestOf stage, result⟩ :: s.answers) := by
  cases action with
  | call pid r => exact (hserve pid r rfl).elim
  | cancel pid err =>
    simp only [Signer.step] at h
    split at h
    · next r hstage =>
      cases h
      exact ⟨_, hstage, .inr ⟨_, rfl, rfl⟩⟩
    · cases h
  | validate pid =>
    simp only [Signer.step] at h
    split at h
    · next r hstage =>
      split at h
      · cases h
        exact ⟨_, hstage, .inr ⟨_, rfl, rfl⟩⟩
      · cases h
        exact ⟨_, hstage, .inl ⟨_, rfl, rfl, rfl⟩⟩
    · cases h
  | lock pid =>
    simp only [Signer.step] at h
    split at h
    · next r key charged hstage =>
      split at h
      · cases h
      · cases h
        exact ⟨_, hstage, .inl ⟨_, rfl, rfl, rfl⟩⟩
    · cases h
  | check pid =>
    simp only [Signer.step] at h
    split at h
    · next r key charged hstage =>
      split at h
      · cases h
        exact ⟨_, hstage, .inr ⟨_, rfl, rfl⟩⟩
      · cases h
        exact ⟨_, hstage, .inl ⟨_, rfl, rfl, rfl⟩⟩
    · cases h
  | sign pid outcome =>
    simp only [Signer.step] at h
    split at h
    · next r key total hstage =>
      split at h
      · cases h
        exact ⟨_, hstage, .inr ⟨_, rfl, rfl⟩⟩
      · cases h
        exact ⟨_, hstage, .inr ⟨_, rfl, rfl⟩⟩
    · cases h

end PaymentRail.Evm
