import PaymentRail.Transaction.Interference

/-!
# Errors of statements and bodies

A `Fault` is an error value: its text and the sentinel that `errors.Is` finds in its chain, over an
arbitrary type of sentinels.  `Tx.orFail` is the usual treatment of a statement that can fail: leave
the body with the error, under the context that the call site adds.

A body that ended with an error has no effect: whatever its transaction does next leaves the database
as it is.
-/

namespace PaymentRail.Transaction

/-- An error: its text and the sentinel in its chain. -/
structure Fault (σ : Type) where
  text : String
  cause : Option σ
  deriving DecidableEq

namespace Fault

variable {σ : Type}

/-- `fmt.Errorf` with a trailing `%w`. -/
def wrap (context : String) (fault : Fault σ) : Fault σ := ⟨context ++ ": " ++ fault.text, fault.cause⟩

/-- `errors.New`, for an error that nobody looks for. -/
def plain (text : String) : Fault σ := ⟨text, none⟩

/-- `errors.Is`. -/
def is [DecidableEq σ] (fault : Fault σ) (cause : σ) : Bool := fault.cause = some cause

@[simp]
theorem wrap_cause (context : String) (fault : Fault σ) : (fault.wrap context).cause = fault.cause :=
  rfl

@[simp]
theorem wrap_is [DecidableEq σ] (context : String) (fault : Fault σ) (cause : σ) :
    (fault.wrap context).is cause = fault.is cause := rfl

@[simp]
theorem plain_is [DecidableEq σ] (text : String) (cause : σ) : (plain text).is cause = false := rfl

end Fault

variable {Stmt : Type} {Reply : Stmt → Type} {Ambient Db Write Lock ε α : Type}

/-- Go on with the value of a reply, or leave the body with its error in context. -/
def Tx.orFail (reply : Except ε α) (context : ε → ε) : Tx Reply ε α :=
  Tx.ofExcept (reply.mapError context)

theorem wp_tx_orFail {E : Engine Reply Ambient Db Write Lock} {allowed : Stmt → Ambient → Db → Prop}
    {Rely : List Lock → Db → Db → Prop} {reply : Except ε α} {context : ε → ε}
    {post : Except ε α → List Write → List Lock → Db → Prop} {writes : List Write}
    {locks : List Lock} {db : Db} :
    wp E allowed Rely (Tx.orFail reply context : Tx Reply ε α) post writes locks db ↔
      (∀ value, reply = .ok value → post (.ok value) writes locks db) ∧
        ∀ err, reply = .error err → post (.error (context err)) writes locks db := by
  cases reply with
  | error err =>
    constructor
    · exact fun h ↦ ⟨nofun, fun _ herr ↦ Except.error.inj herr ▸ h⟩
    · exact fun h ↦ h.2 err rfl
  | ok value =>
    constructor
    · exact fun h ↦ ⟨fun _ hvalue ↦ Except.ok.inj hvalue ▸ h, nofun⟩
    · exact fun h ↦ h.1 value rfl

theorem wp_success_orFail {E : Engine Reply Ambient Db Write Lock}
    {allowed : Stmt → Ambient → Db → Prop} {Rely : List Lock → Db → Db → Prop} {reply : Except ε α}
    {context : ε → ε} {post : α → List Write → List Lock → Db → Prop} {writes : List Write}
    {locks : List Lock} {db : Db} :
    wp E allowed Rely (Tx.orFail reply context : Tx Reply ε α) (OnSuccess post) writes locks db ↔
      ∀ value, reply = .ok value → post value writes locks db := by
  rw [Tx.orFail, wp_success_ofExcept]
  exact forall_congr' fun value ↦ imp_congr mapError_eq_ok Iff.rfl

/-- The transaction that an action belongs to. -/
def Action.tid {Call : Type} : Action Call Ambient → ℕ
  | .start tid _ | .exec tid _ | .commit tid | .abort tid => tid

variable {Call ρ : Type} [DecidableEq Lock]

theorem step_db_of_failed {E : Engine Reply Ambient Db Write Lock}
    {body : Call → Program Reply (Except ε ρ)} {s s' : State Reply Db Write Lock Call ε ρ}
    {action : Action Call Ambient} {call : Call} {err : ε} {writes : List Write} {locks : List Lock}
    (hfailed : s.session action.tid = some ⟨call, .done (.error err), writes, locks⟩)
    (h : step E body s action = some s') : s'.db = s.db := by
  cases action with
  | start tid call => rw [step_start h]
  | exec tid ambient =>
    obtain ⟨_, _, _, _, _, -, -, rfl⟩ := step_exec h
    rfl
  | commit tid =>
    obtain ⟨_, _, _, _, hopen, -⟩ := step_commit h
    rw [Action.tid, hopen] at hfailed
    cases hfailed
  | abort tid => rw [step_abort h, State.close]

end PaymentRail.Transaction
