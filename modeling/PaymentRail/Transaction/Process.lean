import PaymentRail.Transaction.Answers
import PaymentRail.Transaction.Interference

/-!
# Processes made of several transactions

A process runs transactions of its own one after the other and makes calls to the outside in between.
Many processes run at once over one database.  Each transaction is interleaved with the others
statement by statement (`PaymentRail.Transaction.ReadCommitted`).  It may fail at any point; its COMMIT
may also take effect and yet be reported to the process as an error.  A process may crash anywhere,
which rolls back its open transaction.  A log records the commits, the calls and the results, newest
first.

What may go wrong can be restricted by `Limits`; `System.Reaches` are the worlds of all runs within
them, and `System.run` executes one run.
-/

namespace PaymentRail.Transaction

/-- What a process waits for: a transaction, or a call to the outside. -/
inductive Demand (Call Op : Type) where
  | transact (call : Call)
  | perform (op : Op)

/-- What it goes on with. -/
abbrev Demand.Answer (Call ε ρ : Type) {Op : Type} (OpReply : Op → Type) : Demand Call Op → Type
  | .transact _ => Except ε ρ
  | .perform op => OpReply op

section Steps

variable {Call ε ρ : Type} {Op : Type} {OpReply : Op → Type}

/-- Run a transaction. -/
def transact (call : Call) : Program (Demand.Answer Call ε ρ OpReply) (Except ε ρ) :=
  .call (.transact call) .done

/-- Make a call to the outside. -/
def perform (op : Op) : Program (Demand.Answer Call ε ρ OpReply) (OpReply op) :=
  .call (.perform op) .done

end Steps

/-- An entry of the log. -/
inductive Event (Job Call ρ Choice : Type) {Op : Type} (OpReply : Op → Type) (α : Type) where
  | committed (pid : ℕ) (job : Job) (call : Call) (result : ρ)
  | performed (pid : ℕ) (job : Job) (op : Op) (choice : Choice) (reply : OpReply op)
  | returned (pid : ℕ) (job : Job) (result : α)

/-- What processes can see of each other: the committed database, the state outside and the log. -/
structure View (Db Ext Job Call ρ Choice : Type) {Op : Type} (OpReply : Op → Type) (α : Type) where
  db : Db
  ext : Ext
  log : List (Event Job Call ρ Choice OpReply α)

/-- The transactions of some jobs, the effect of their calls to the outside, and their programs. -/
structure System {Stmt : Type} (Reply : Stmt → Type) (Ambient Db Write Lock Call ε ρ : Type)
    {Op : Type} (OpReply : Op → Type) (Choice Ext Job α : Type) where
  engine : Engine Reply Ambient Db Write Lock
  body : Call → Program Reply (Except ε ρ)
  eval : (op : Op) → Choice → Ext → OpReply op × Ext
  main : Job → Program (Demand.Answer Call ε ρ OpReply) α

variable {Stmt : Type} {Reply : Stmt → Type} {Ambient Db Write Lock Call ε ρ : Type}
  {Op : Type} {OpReply : Op → Type} {Choice Ext Job α : Type}

/-- A database with open transactions, the state outside, the log and the processes, each with the job
it works on and the rest of its program. -/
structure World (Reply : Stmt → Type) (Db Write Lock Call ε ρ : Type) (OpReply : Op → Type)
    (Choice Ext Job α : Type) where
  tables : State Reply Db Write Lock Call ε ρ
  ext : Ext
  log : List (Event Job Call ρ Choice OpReply α)
  process : ℕ → Option (Job × Program (Demand.Answer Call ε ρ OpReply) α)

/-- One step of a world.  The transaction of a process has the number of the process. -/
inductive Move (Job Ambient Choice ε : Type) where
  | spawn (pid : ℕ) (job : Job)
  | begin (pid : ℕ)
  | exec (pid : ℕ) (ambient : Ambient)
  | commit (pid : ℕ) (lost : Option ε)
  | fail (pid : ℕ) (err : ε)
  | perform (pid : ℕ) (choice : Choice)
  | finish (pid : ℕ)
  | crash (pid : ℕ)

namespace World

variable (w : World Reply Db Write Lock Call ε ρ OpReply Choice Ext Job α)

def view : View Db Ext Job Call ρ Choice OpReply α := ⟨w.tables.db, w.ext, w.log⟩

/-- Nothing has happened yet. -/
def idle (db : Db) (ext : Ext) : World Reply Db Write Lock Call ε ρ OpReply Choice Ext Job α :=
  ⟨.idle db, ext, [], fun _ ↦ none⟩

/-- A process goes on with another program. -/
def goto (pid : ℕ) (job : Job) (program : Program (Demand.Answer Call ε ρ OpReply) α) :
    World Reply Db Write Lock Call ε ρ OpReply Choice Ext Job α :=
  { w with process := Function.update w.process pid (some (job, program)) }

/-- A process is gone. -/
def remove (pid : ℕ) : World Reply Db Write Lock Call ε ρ OpReply Choice Ext Job α :=
  { w with process := Function.update w.process pid none }

def record (event : Event Job Call ρ Choice OpReply α) :
    World Reply Db Write Lock Call ε ρ OpReply Choice Ext Job α :=
  { w with log := event :: w.log }

end World

variable [DecidableEq Lock]

/-- Roll back the open transaction of a process, if there is one. -/
def rollback (E : Engine Reply Ambient Db Write Lock) (body : Call → Program Reply (Except ε ρ))
    (tables : State Reply Db Write Lock Call ε ρ) (pid : ℕ) : State Reply Db Write Lock Call ε ρ :=
  (step E body tables (.abort pid)).getD tables

/-- The error that a process gets when its transaction does not commit: the one its body ended with,
or a failure of the database. -/
def failure (session : Option (Session Reply Write Lock Call ε ρ)) (err : ε) : ε :=
  match session with
  | some ⟨_, .done (.error own), _, _⟩ => own
  | _ => err

/-- Run one move; `none` when it is not enabled. -/
def System.advance (S : System Reply Ambient Db Write Lock Call ε ρ OpReply Choice Ext Job α)
    (w : World Reply Db Write Lock Call ε ρ OpReply Choice Ext Job α) :
    Move Job Ambient Choice ε → Option (World Reply Db Write Lock Call ε ρ OpReply Choice Ext Job α)
  | .spawn pid job =>
    match w.process pid with
    | some _ => none
    | none => some (w.goto pid job (S.main job))
  | .begin pid =>
    match w.process pid with
    | some (_, .call (.transact call) _) =>
      (step S.engine S.body w.tables (.start pid call)).map fun tables ↦ { w with tables := tables }
    | _ => none
  | .exec pid ambient =>
    (step S.engine S.body w.tables (.exec pid ambient)).map fun tables ↦ { w with tables := tables }
  | .commit pid lost =>
    match w.process pid, w.tables.session pid with
    | some (job, .call (.transact call) next), some ⟨_, .done (.ok result), _, _⟩ =>
      (step S.engine S.body w.tables (.commit pid)).map fun tables ↦
        (({ w with tables := tables }).record (.committed pid job call result)).goto pid job
          (next (lost.elim (.ok result) .error))
    | _, _ => none
  | .fail pid err =>
    match w.process pid with
    | some (job, .call (.transact _) next) =>
      some (({ w with tables := rollback S.engine S.body w.tables pid }).goto pid job
        (next (.error (failure (w.tables.session pid) err))))
    | _ => none
  | .perform pid choice =>
    match w.process pid with
    | some (job, .call (.perform op) next) =>
      let (reply, ext) := S.eval op choice w.ext
      some ((({ w with ext := ext }).record (.performed pid job op choice reply)).goto pid job
        (next reply))
    | _ => none
  | .finish pid =>
    match w.process pid with
    | some (job, .done result) => some ((w.record (.returned pid job result)).remove pid)
    | _ => none
  | .crash pid =>
    match w.process pid with
    | some _ => some (({ w with tables := rollback S.engine S.body w.tables pid }).remove pid)
    | none => none

/-- Restrictions on what may go wrong: the transactions whose COMMIT may take effect and be reported
as an error, and the outcomes a call to the outside may have. -/
structure Limits (Job Call Op Choice Ext : Type) where
  losesAck : Job → Call → Prop
  admits : Job → Op → Choice → Ext → Prop

/-- Anything may go wrong. -/
def Limits.none : Limits Job Call Op Choice Ext := ⟨fun _ _ ↦ True, fun _ _ _ _ ↦ True⟩

/-- A move is within the limits. -/
def Limits.Permits (limits : Limits Job Call Op Choice Ext)
    (w : World Reply Db Write Lock Call ε ρ OpReply Choice Ext Job α) :
    Move Job Ambient Choice ε → Prop
  | .commit pid (some _) => ∀ job call next,
      w.process pid = some (job, .call (.transact call) next) → limits.losesAck job call
  | .perform pid choice => ∀ job op next,
      w.process pid = some (job, .call (.perform op) next) → limits.admits job op choice w.ext
  | _ => True

/-- The worlds that moves within the limits reach. -/
inductive System.Reaches
    (S : System Reply Ambient Db Write Lock Call ε ρ OpReply Choice Ext Job α)
    (limits : Limits Job Call Op Choice Ext) (db : Db) (ext : Ext) :
    World Reply Db Write Lock Call ε ρ OpReply Choice Ext Job α → Prop
  | idle : S.Reaches limits db ext (.idle db ext)
  | move {w w' : World Reply Db Write Lock Call ε ρ OpReply Choice Ext Job α}
      {move : Move Job Ambient Choice ε} : S.Reaches limits db ext w → limits.Permits w move →
        S.advance w move = some w' → S.Reaches limits db ext w'

section Runs

variable (S : System Reply Ambient Db Write Lock Call ε ρ OpReply Choice Ext Job α)
  (limits : Limits Job Call Op Choice Ext) [∀ job call, Decidable (limits.losesAck job call)]
  [∀ job op choice ext, Decidable (limits.admits job op choice ext)]

/-- The test that a move is within the limits. -/
def Limits.permitted (w : World Reply Db Write Lock Call ε ρ OpReply Choice Ext Job α) :
    Move Job Ambient Choice ε → Bool
  | .commit pid (some _) =>
    match w.process pid with
    | some (job, .call (.transact call) _) => decide (limits.losesAck job call)
    | _ => true
  | .perform pid choice =>
    match w.process pid with
    | some (job, .call (.perform op) _) => decide (limits.admits job op choice w.ext)
    | _ => true
  | _ => true

/-- Run moves within the limits one after the other; `none` when one of them is not possible. -/
def System.run : World Reply Db Write Lock Call ε ρ OpReply Choice Ext Job α →
    List (Move Job Ambient Choice ε) →
      Option (World Reply Db Write Lock Call ε ρ OpReply Choice Ext Job α)
  | w, [] => some w
  | w, move :: rest =>
    if limits.permitted w move then (S.advance w move).bind (System.run · rest) else none

variable {S limits}

omit [DecidableEq Lock] in
theorem Limits.permits_of_permitted
    {w : World Reply Db Write Lock Call ε ρ OpReply Choice Ext Job α}
    {move : Move Job Ambient Choice ε} (h : limits.permitted w move = true) :
    limits.Permits w move := by
  cases move with
  | commit pid lost =>
    cases lost with
    | none => trivial
    | some err =>
      intro job call next hprocess
      simpa [Limits.permitted, hprocess] using h
  | perform pid choice =>
    intro job op next hprocess
    simpa [Limits.permitted, hprocess] using h
  | _ => trivial

/-- A run that comes to its end reaches its last world. -/
theorem reaches_of_run {db : Db} {ext : Ext}
    {w w' : World Reply Db Write Lock Call ε ρ OpReply Choice Ext Job α}
    {moves : List (Move Job Ambient Choice ε)} (hw : S.Reaches limits db ext w)
    (h : S.run limits w moves = some w') : S.Reaches limits db ext w' := by
  induction moves generalizing w with
  | nil =>
    rw [System.run, Option.some.injEq] at h
    exact h ▸ hw
  | cons move rest ih =>
    rw [System.run] at h
    split at h
    · next hpermitted =>
      obtain ⟨mid, hmid, hrest⟩ := Option.bind_eq_some_iff.mp h
      exact ih (hw.move (Limits.permits_of_permitted hpermitted) hmid) hrest
    · cases h

end Runs

end PaymentRail.Transaction
