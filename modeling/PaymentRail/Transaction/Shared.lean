import PaymentRail.Transaction.Answers
import Mathlib.Logic.Relation

/-!
# Programs over a shared state

Any number of processes run programs whose calls act on one shared state, one call at a time and in any
order.  What a call does apart from its arguments is fixed by a choice of the environment: failures,
clocks, the rows that others have locked.  Events from elsewhere change the state between the calls,
and a process may crash anywhere.  A log records the calls and the events, newest first.

`Rules` restrict the calls and the events that happen; `Sharing.Steps` are the runs within them, and
`Sharing.run` executes one.  `cover` is a rely/guarantee rule for the programs: between two calls the
others may change what `rely` allows, every call keeps the invariant, changes the scene only as
`guarantee` says and respects what the others rely on.  `Kept.sound` is the induction over runs.
-/

namespace PaymentRail.Transaction

/-- The programs of some jobs, and the effect of their calls and of events from elsewhere on the state
that they share. -/
structure Sharing {Stmt : Type} (Reply : Stmt → Type) (Choice σ Env Job α : Type) where
  main : Job → Program Reply α
  eval : (stmt : Stmt) → Choice → σ → Reply stmt × σ
  occur : Env → σ → σ

/-- An entry of the log. -/
inductive Record {Stmt : Type} (Reply : Stmt → Type) (Choice Env Job : Type) where
  | called (pid : ℕ) (job : Job) (stmt : Stmt) (choice : Choice) (reply : Reply stmt)
  | occurred (env : Env)

/-- What the processes see of each other. -/
structure Scene {Stmt : Type} (Reply : Stmt → Type) (Choice σ Env Job : Type) where
  state : σ
  log : List (Record Reply Choice Env Job)

variable {Stmt : Type} {Reply : Stmt → Type} {Choice σ Env Job α : Type}

/-- A scene and the processes in it, each with its job and the rest of its program. -/
structure Cluster (Reply : Stmt → Type) (Choice σ Env Job α : Type) where
  scene : Scene Reply Choice σ Env Job
  process : ℕ → Option (Job × Program Reply α)

/-- No process has been started yet. -/
def Cluster.idle (state : σ) : Cluster Reply Choice σ Env Job α := ⟨⟨state, []⟩, fun _ ↦ none⟩

inductive Turn (Choice Env Job : Type) where
  | spawn (pid : ℕ) (job : Job)
  | call (pid : ℕ) (choice : Choice)
  | crash (pid : ℕ)
  | occur (env : Env)

namespace Sharing

variable (S : Sharing Reply Choice σ Env Job α)

/-- The scene after a call. -/
def called (pid : ℕ) (job : Job) (stmt : Stmt) (choice : Choice) (v : Scene Reply Choice σ Env Job) :
    Scene Reply Choice σ Env Job :=
  ⟨(S.eval stmt choice v.state).2, .called pid job stmt choice (S.eval stmt choice v.state).1 :: v.log⟩

/-- The scene after an event. -/
def occurred (env : Env) (v : Scene Reply Choice σ Env Job) : Scene Reply Choice σ Env Job :=
  ⟨S.occur env v.state, .occurred env :: v.log⟩

/-- Take a turn; `none` when it is not possible. -/
def advance (c : Cluster Reply Choice σ Env Job α) :
    Turn Choice Env Job → Option (Cluster Reply Choice σ Env Job α)
  | .spawn pid job =>
    match c.process pid with
    | some _ => none
    | none => some ⟨c.scene, Function.update c.process pid (some (job, S.main job))⟩
  | .call pid choice =>
    match c.process pid with
    | some (job, .call stmt next) =>
      some ⟨S.called pid job stmt choice c.scene, Function.update c.process pid
        (some (job, next (S.eval stmt choice c.scene.state).1))⟩
    | _ => none
  | .crash pid => some ⟨c.scene, Function.update c.process pid none⟩
  | .occur env => some ⟨S.occurred env c.scene, c.process⟩

end Sharing

/-- The calls that are made and the events that happen. -/
structure Rules (Reply : Stmt → Type) (Choice σ Env Job : Type) where
  calls : ℕ → Job → Stmt → Choice → Scene Reply Choice σ Env Job → Prop
  events : Env → Scene Reply Choice σ Env Job → Prop

/-- Everything may happen. -/
def Rules.none : Rules Reply Choice σ Env Job := ⟨fun _ _ _ _ _ ↦ True, fun _ _ ↦ True⟩

instance (pid : ℕ) (job : Job) (stmt : Stmt) (choice : Choice) (v : Scene Reply Choice σ Env Job) :
    Decidable ((Rules.none : Rules Reply Choice σ Env Job).calls pid job stmt choice v) :=
  inferInstanceAs (Decidable True)

instance (env : Env) (v : Scene Reply Choice σ Env Job) :
    Decidable ((Rules.none : Rules Reply Choice σ Env Job).events env v) :=
  inferInstanceAs (Decidable True)

/-- A turn is within the rules. -/
def Rules.Permit (rules : Rules Reply Choice σ Env Job) (c : Cluster Reply Choice σ Env Job α) :
    Turn Choice Env Job → Prop
  | .call pid choice => ∀ job stmt next, c.process pid = some (job, .call stmt next) →
      rules.calls pid job stmt choice c.scene
  | .occur env => rules.events env c.scene
  | _ => True

namespace Sharing

variable (S : Sharing Reply Choice σ Env Job α) (rules : Rules Reply Choice σ Env Job)

/-- One turn within the rules. -/
def Step (c c' : Cluster Reply Choice σ Env Job α) : Prop :=
  ∃ turn, rules.Permit c turn ∧ S.advance c turn = some c'

/-- A run within the rules. -/
abbrev Steps : Cluster Reply Choice σ Env Job α → Cluster Reply Choice σ Env Job α → Prop :=
  Relation.ReflTransGen (S.Step rules)

section Runs

variable [∀ pid job stmt choice v, Decidable (rules.calls pid job stmt choice v)]
  [∀ env v, Decidable (rules.events env v)]

/-- The test that a turn is within the rules. -/
def permitted (c : Cluster Reply Choice σ Env Job α) : Turn Choice Env Job → Bool
  | .call pid choice =>
    match c.process pid with
    | some (job, .call stmt _) => decide (rules.calls pid job stmt choice c.scene)
    | _ => true
  | .occur env => decide (rules.events env c.scene)
  | _ => true

/-- Take turns one after the other; `none` when one of them is not possible. -/
def run : Cluster Reply Choice σ Env Job α → List (Turn Choice Env Job) →
    Option (Cluster Reply Choice σ Env Job α)
  | c, [] => some c
  | c, turn :: rest =>
    if permitted rules c turn then (S.advance c turn).bind (run · rest) else none

variable {S rules}

theorem permit_of_permitted {c : Cluster Reply Choice σ Env Job α} {turn : Turn Choice Env Job}
    (h : permitted rules c turn = true) : rules.Permit c turn := by
  cases turn with
  | call pid choice =>
    intro job stmt next hprocess
    simpa [permitted, hprocess] using h
  | occur env => exact (of_decide_eq_true h : rules.events env c.scene)
  | _ => trivial

theorem steps_of_run {c c' : Cluster Reply Choice σ Env Job α} {turns : List (Turn Choice Env Job)}
    (h : S.run rules c turns = some c') : S.Steps rules c c' := by
  induction turns generalizing c with
  | nil =>
    rw [run, Option.some.injEq] at h
    exact h ▸ .refl
  | cons turn rest ih =>
    rw [run] at h
    split at h
    · next hpermitted =>
      obtain ⟨mid, hmid, hrest⟩ := Option.bind_eq_some_iff.mp h
      exact .head ⟨turn, permit_of_permitted hpermitted, hmid⟩ (ih hrest)
    · cases h

end Runs

end Sharing

/-! ### Verifying programs -/

/-- An invariant, what a process relies on, and what every turn guarantees. -/
structure Pact (Reply : Stmt → Type) (Choice σ Env Job : Type) where
  inv : Scene Reply Choice σ Env Job → Prop
  rely : ℕ → Scene Reply Choice σ Env Job → Scene Reply Choice σ Env Job → Prop
  guarantee : Scene Reply Choice σ Env Job → Scene Reply Choice σ Env Job → Prop

/-- A call of one process is one that the others expect. -/
structure Pact.Allows (P : Pact Reply Choice σ Env Job) (pid : ℕ)
    (v v' : Scene Reply Choice σ Env Job) : Prop where
  inv : P.inv v'
  guarantee : P.guarantee v v'
  rely : ∀ other, other ≠ pid → P.rely other v v'

section Cover

variable (S : Sharing Reply Choice σ Env Job α) (rules : Rules Reply Choice σ Env Job)
  (P : Pact Reply Choice σ Env Job) (pid : ℕ) (job : Job)

/-- Every call of a program is allowed, and where it ends the postcondition holds. -/
def cover {β : Type} : Program Reply β → (β → Scene Reply Choice σ Env Job → Prop) →
    Scene Reply Choice σ Env Job → Prop
  | .done result, post, v => post result v
  | .call stmt next, post, v => ∀ v', P.rely pid v v' → P.inv v' → ∀ choice,
      rules.calls pid job stmt choice v' →
        P.Allows pid v' (S.called pid job stmt choice v') ∧
        cover (next (S.eval stmt choice v'.state).1) post (S.called pid job stmt choice v')

variable {S rules P pid job} {v v' : Scene Reply Choice σ Env Job}

theorem cover_single {stmt : Stmt} {post : Reply stmt → Scene Reply Choice σ Env Job → Prop} :
    cover S rules P pid job (.call stmt .done) post v ↔
      ∀ v', P.rely pid v v' → P.inv v' → ∀ choice, rules.calls pid job stmt choice v' →
        P.Allows pid v' (S.called pid job stmt choice v') ∧
        post (S.eval stmt choice v'.state).1 (S.called pid job stmt choice v') := Iff.rfl

theorem cover_bind {β γ : Type} {program : Program Reply β} {rest : β → Program Reply γ}
    {post : γ → Scene Reply Choice σ Env Job → Prop} :
    cover S rules P pid job (program >>= rest) post v ↔
      cover S rules P pid job program (fun result ↦ cover S rules P pid job (rest result) post) v := by
  induction program generalizing v with
  | done result => rfl
  | call stmt next ih =>
    simp only [Bind.bind, Program.bind_call, cover] at ih ⊢
    simp only [ih]

/-- A program all of whose calls are allowed. -/
theorem cover_of_issues {β : Type} {Q : Stmt → Prop} {program : Program Reply β}
    (hissues : program.Issues Q)
    (hcall : ∀ stmt choice v, Q stmt → P.inv v → rules.calls pid job stmt choice v →
      P.Allows pid v (S.called pid job stmt choice v)) :
    cover S rules P pid job program (fun _ _ ↦ True) v := by
  induction program generalizing v with
  | done result => trivial
  | call stmt next ih =>
    intro v' _ hinv choice hcalls
    exact ⟨hcall stmt choice v' hissues.1 hinv hcalls, ih _ (hissues.2 _)⟩

/-- What holds at a point of a program survives what the process relies on. -/
theorem cover_stable {program : Program Reply α}
    (htrans : ∀ a b c, P.rely pid a b → P.rely pid b c → P.rely pid a c)
    (h : cover S rules P pid job program (fun _ _ ↦ True) v) (hrely : P.rely pid v v') :
    cover S rules P pid job program (fun _ _ ↦ True) v' := by
  cases program with
  | done result => trivial
  | call stmt next => exact fun v'' hrely' hinv ↦ h v'' (htrans _ _ _ hrely hrely') hinv

end Cover

/-- Every job is covered, and every event respects the pact. -/
structure Kept (S : Sharing Reply Choice σ Env Job α) (rules : Rules Reply Choice σ Env Job)
    (P : Pact Reply Choice σ Env Job) : Prop where
  refl : ∀ pid v, P.rely pid v v
  trans : ∀ pid a b c, P.rely pid a b → P.rely pid b c → P.rely pid a c
  guarantee_refl : ∀ v, P.guarantee v v
  guarantee_trans : ∀ a b c, P.guarantee a b → P.guarantee b c → P.guarantee a c
  main : ∀ pid job v, P.inv v → cover S rules P pid job (S.main job) (fun _ _ ↦ True) v
  event : ∀ env v, P.inv v → rules.events env v →
    P.inv (S.occurred env v) ∧ P.guarantee v (S.occurred env v) ∧ ∀ pid, P.rely pid v (S.occurred env v)

/-- A cluster in which every process is where its verification covers it. -/
structure Secure (S : Sharing Reply Choice σ Env Job α) (rules : Rules Reply Choice σ Env Job)
    (P : Pact Reply Choice σ Env Job) (c : Cluster Reply Choice σ Env Job α) : Prop where
  inv : P.inv c.scene
  safe : ∀ pid job program, c.process pid = some (job, program) →
    cover S rules P pid job program (fun _ _ ↦ True) c.scene

namespace Kept

variable {S : Sharing Reply Choice σ Env Job α} {rules : Rules Reply Choice σ Env Job}
  {P : Pact Reply Choice σ Env Job} {c c' : Cluster Reply Choice σ Env Job α}

theorem secure_idle {state : σ} (h : P.inv ⟨state, []⟩) : Secure S rules P (.idle state) :=
  ⟨h, fun _ _ _ hprocess ↦ nomatch hprocess⟩

/-- A turn that changes one process, as it is allowed to. -/
theorem secure_update (V : Kept S rules P) (h : Secure S rules P c) {pid : ℕ}
    {new : Option (Job × Program Reply α)} {v : Scene Reply Choice σ Env Job} (hinv : P.inv v)
    (hrely : ∀ other, other ≠ pid → P.rely other c.scene v)
    (hnew : ∀ job program, new = some (job, program) →
      cover S rules P pid job program (fun _ _ ↦ True) v) :
    Secure S rules P ⟨v, Function.update c.process pid new⟩ := by
  refine ⟨hinv, fun other job program hother ↦ ?_⟩
  by_cases hpid : other = pid
  · subst hpid
    exact hnew job program (by simpa using hother)
  · have hbefore : c.process other = some (job, program) := by simpa [hpid] using hother
    exact cover_stable (V.trans other) (h.safe other job program hbefore) (hrely other hpid)

theorem secure_step (V : Kept S rules P) (h : Secure S rules P c) (hstep : S.Step rules c c') :
    Secure S rules P c' ∧ P.guarantee c.scene c'.scene := by
  obtain ⟨turn, hpermit, hadvance⟩ := hstep
  cases turn with
  | spawn pid job =>
    simp only [Sharing.advance] at hadvance
    split at hadvance
    · cases hadvance
    · cases hadvance
      refine ⟨V.secure_update h h.inv (fun other _ ↦ V.refl other _) fun job' program hnew ↦ ?_,
        V.guarantee_refl _⟩
      obtain ⟨rfl, rfl⟩ := Prod.mk.inj (Option.some.inj hnew)
      exact V.main pid job _ h.inv
  | call pid choice =>
    simp only [Sharing.advance] at hadvance
    split at hadvance
    · next job stmt next hprocess =>
      cases hadvance
      obtain ⟨hallows, hnext⟩ := h.safe pid job _ hprocess c.scene (V.refl pid _) h.inv choice
        (hpermit job stmt next hprocess)
      refine ⟨V.secure_update h hallows.inv hallows.rely fun job' program hnew ↦ ?_,
        hallows.guarantee⟩
      obtain ⟨rfl, rfl⟩ := Prod.mk.inj (Option.some.inj hnew)
      exact hnext
    · cases hadvance
  | crash pid =>
    cases hadvance
    exact ⟨V.secure_update h h.inv (fun other _ ↦ V.refl other _) fun _ _ hnew ↦ (nomatch hnew),
      V.guarantee_refl _⟩
  | occur env =>
    cases hadvance
    obtain ⟨hinv, hguarantee, hrely⟩ := V.event env c.scene h.inv hpermit
    exact ⟨⟨hinv, fun pid job program hprocess ↦
      cover_stable (V.trans pid) (h.safe pid job program hprocess) (hrely pid)⟩, hguarantee⟩

/-- Every run from a secure cluster stays secure, and the guarantee holds from one end to the other. -/
theorem sound (V : Kept S rules P) (h : Secure S rules P c) (hsteps : S.Steps rules c c') :
    Secure S rules P c' ∧ P.guarantee c.scene c'.scene := by
  induction hsteps with
  | refl => exact ⟨h, V.guarantee_refl _⟩
  | tail _ hstep ih =>
    obtain ⟨hsecure, hguarantee⟩ := V.secure_step ih.1 hstep
    exact ⟨hsecure, V.guarantee_trans _ _ _ ih.2 hguarantee⟩

end Kept

end PaymentRail.Transaction
