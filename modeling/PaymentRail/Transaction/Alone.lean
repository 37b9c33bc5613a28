import PaymentRail.Transaction.Shared

/-!
# A process that runs alone

While one process of a cluster runs and nothing else happens, its program is a sequential one.
`ensures` is the rule for it: whatever the environment chooses within some limits, the program ends,
and it ends as the postcondition says.  `Sharing.Alone.post` carries that over to the cluster.

`exec` runs a program on given choices.  Since nobody else acts, it does not matter which cluster the
program runs in: `Sharing.exists_alone` is the run of a process in every cluster with that state.

`Sharing.invariant_of_steps` is the induction over all runs for what every call and every event keeps.
-/

namespace PaymentRail.Transaction

variable {Stmt : Type} {Reply : Stmt → Type} {Choice σ Env Job α β : Type}

section Ensures

variable (eval : (stmt : Stmt) → Choice → σ → Reply stmt × σ) (allowed : Stmt → Choice → σ → Prop)

/-- Whatever the environment chooses, a program that runs alone ends as the postcondition says. -/
def ensures : Program Reply α → (α → σ → Prop) → σ → Prop
  | .done result, post, s => post result s
  | .call stmt next, post, s => ∀ choice, allowed stmt choice s →
      ensures (next (eval stmt choice s).1) post (eval stmt choice s).2

variable {eval allowed}

theorem ensures_bind {program : Program Reply α} {rest : α → Program Reply β}
    {post : β → σ → Prop} {s : σ} :
    ensures eval allowed (program >>= rest) post s ↔
      ensures eval allowed program (fun result ↦ ensures eval allowed (rest result) post) s := by
  induction program generalizing s with
  | done result => rfl
  | call stmt next ih =>
    simp only [Bind.bind, Program.bind_call, ensures] at ih ⊢
    simp only [ih]

theorem ensures_mono {program : Program Reply α} {post post' : α → σ → Prop} {s : σ}
    (h : ensures eval allowed program post s) (hpost : ∀ result s, post result s → post' result s) :
    ensures eval allowed program post' s := by
  induction program generalizing s with
  | done result => exact hpost result s h
  | call stmt next ih => exact fun choice hchoice ↦ ih _ (h choice hchoice)

variable (eval allowed) [∀ stmt choice s, Decidable (allowed stmt choice s)]

/-- Run a program that nobody disturbs; `none` if a choice is not allowed or their number is wrong. -/
def exec : Program Reply α → List Choice → σ → Option (α × σ)
  | .done result, [], s => some (result, s)
  | .call stmt next, choice :: choices, s =>
    if allowed stmt choice s then exec (next (eval stmt choice s).1) choices (eval stmt choice s).2
    else none
  | .done _, _ :: _, _ => none
  | .call _ _, [], _ => none

end Ensures

/-- What is within some rules is within weaker ones. -/
theorem Rules.Permit.mono {rules rules' : Rules Reply Choice σ Env Job}
    {c : Cluster Reply Choice σ Env Job α} {turn : Turn Choice Env Job} (h : rules.Permit c turn)
    (hcalls : ∀ pid job stmt choice v, rules.calls pid job stmt choice v →
      rules'.calls pid job stmt choice v)
    (hevents : ∀ env v, rules.events env v → rules'.events env v) : rules'.Permit c turn := by
  cases turn with
  | call pid choice => exact fun job stmt next hprocess ↦ hcalls _ _ _ _ _ (h job stmt next hprocess)
  | occur env => exact hevents env _ h
  | _ => trivial

theorem permit_none (c : Cluster Reply Choice σ Env Job α) (turn : Turn Choice Env Job) :
    (Rules.none : Rules Reply Choice σ Env Job).Permit c turn := by
  cases turn with
  | call pid choice => exact fun _ _ _ _ ↦ trivial
  | _ => trivial

namespace Sharing

variable {S : Sharing Reply Choice σ Env Job α} {rules : Rules Reply Choice σ Env Job}
  {c c' : Cluster Reply Choice σ Env Job α} {pid : ℕ} {job : Job} {result : α}

/-- The calls of one process, within the rules. -/
abbrev Calls (S : Sharing Reply Choice σ Env Job α) (rules : Rules Reply Choice σ Env Job)
    (pid : ℕ) : Cluster Reply Choice σ Env Job α → Cluster Reply Choice σ Env Job α → Prop :=
  Relation.ReflTransGen fun c c' ↦ ∃ choice, rules.Permit c (.call pid choice) ∧
    S.advance c (.call pid choice) = some c'

/-- The cluster in which a process has just been started. -/
def started (S : Sharing Reply Choice σ Env Job α) (pid : ℕ) (job : Job)
    (c : Cluster Reply Choice σ Env Job α) : Cluster Reply Choice σ Env Job α :=
  ⟨c.scene, Function.update c.process pid (some (job, S.main job))⟩

/-- A process is started, makes its calls and ends, and nothing else happens. -/
structure Alone (S : Sharing Reply Choice σ Env Job α) (rules : Rules Reply Choice σ Env Job)
    (pid : ℕ) (job : Job) (c c' : Cluster Reply Choice σ Env Job α) (result : α) : Prop where
  free : c.process pid = none
  calls : S.Calls rules pid (S.started pid job c) c'
  finished : c'.process pid = some (job, .done result)

theorem post_of_calls {allowed : Stmt → Choice → σ → Prop} {program : Program Reply α}
    {post : α → σ → Prop}
    (hallowed : ∀ stmt choice v, rules.calls pid job stmt choice v → allowed stmt choice v.state)
    (hprocess : c.process pid = some (job, program))
    (hensures : ensures S.eval allowed program post c.scene.state) (hcalls : S.Calls rules pid c c')
    (hfinished : c'.process pid = some (job, .done result)) : post result c'.scene.state := by
  induction hcalls using Relation.ReflTransGen.head_induction_on generalizing program with
  | refl =>
    obtain ⟨-, rfl⟩ := Prod.mk.inj (Option.some.inj (hprocess.symm.trans hfinished))
    exact hensures
  | head hcall _ ih =>
    obtain ⟨choice, hpermit, hadvance⟩ := hcall
    simp only [advance, hprocess] at hadvance
    cases program with
    | done result => cases hadvance
    | call stmt next =>
      cases hadvance
      apply ih (Function.update_self ..)
      exact hensures choice (hallowed stmt choice _ (hpermit _ _ _ hprocess))

/-- What a program ensures holds after it has run alone. -/
theorem Alone.post (h : S.Alone rules pid job c c' result) {allowed : Stmt → Choice → σ → Prop}
    {post : α → σ → Prop}
    (hallowed : ∀ stmt choice v, rules.calls pid job stmt choice v → allowed stmt choice v.state)
    (hensures : ensures S.eval allowed (S.main job) post c.scene.state) :
    post result c'.scene.state :=
  post_of_calls (c := S.started pid job c) hallowed (Function.update_self ..) hensures h.calls
    h.finished

theorem Alone.mono {rules' : Rules Reply Choice σ Env Job} (h : S.Alone rules pid job c c' result)
    (hcalls : ∀ pid job stmt choice v, rules.calls pid job stmt choice v →
      rules'.calls pid job stmt choice v) : S.Alone rules' pid job c c' result := by
  refine ⟨h.free, ?_, h.finished⟩
  apply Relation.ReflTransGen.mono _ _ _ h.calls
  rintro _ _ ⟨choice, hpermit, hadvance⟩
  exact ⟨choice, fun job stmt next hprocess ↦ hcalls _ _ _ _ _ (hpermit job stmt next hprocess),
    hadvance⟩

/-- To run alone is to take turns. -/
theorem Alone.steps_within (h : S.Alone rules pid job c c' result) : S.Steps rules c c' := by
  have hspawn : S.advance c (.spawn pid job) = some (S.started pid job c) := by
    simp only [advance, h.free, started]
  apply Relation.ReflTransGen.head ⟨.spawn pid job, trivial, hspawn⟩
  apply Relation.ReflTransGen.mono _ _ _ h.calls
  rintro _ _ ⟨choice, hpermit, hadvance⟩
  exact ⟨.call pid choice, hpermit, hadvance⟩

theorem Alone.steps (h : S.Alone rules pid job c c' result) : S.Steps .none c c' :=
  (h.mono fun _ _ _ _ _ _ ↦ trivial).steps_within

theorem steps_mono {rules' : Rules Reply Choice σ Env Job}
    (hcalls : ∀ pid job stmt choice v, rules.calls pid job stmt choice v →
      rules'.calls pid job stmt choice v)
    (hevents : ∀ env v, rules.events env v → rules'.events env v) (h : S.Steps rules c c') :
    S.Steps rules' c c' := by
  apply Relation.ReflTransGen.mono _ _ _ h
  rintro _ _ ⟨turn, hpermit, hadvance⟩
  exact ⟨turn, hpermit.mono hcalls hevents, hadvance⟩

section Runs

variable [∀ pid job stmt choice v, Decidable (rules.calls pid job stmt choice v)]
  [∀ env v, Decidable (rules.events env v)]

theorem calls_of_run {choices : List Choice}
    (hrun : S.run rules c (choices.map (.call pid)) = some c') : S.Calls rules pid c c' := by
  induction choices generalizing c with
  | nil =>
    cases hrun
    exact .refl
  | cons choice rest ih =>
    rw [List.map_cons, Sharing.run] at hrun
    split at hrun
    · next hpermitted =>
      obtain ⟨mid, hmid, hrest⟩ := Option.bind_eq_some_iff.mp hrun
      exact .head ⟨choice, permit_of_permitted hpermitted, hmid⟩ (ih hrest)
    · cases hrun

theorem alone_of_run {choices : List Choice} (hfree : c.process pid = none)
    (hrun : S.run rules (S.started pid job c) (choices.map (.call pid)) = some c')
    (hfinished : c'.process pid = some (job, .done result)) : S.Alone rules pid job c c' result :=
  ⟨hfree, calls_of_run hrun, hfinished⟩

end Runs

section Exec

variable {allowed : Stmt → Choice → σ → Prop} [∀ stmt choice s, Decidable (allowed stmt choice s)]

theorem exists_calls {program : Program Reply α} {choices : List Choice} {s' : σ}
    (hallowed : ∀ stmt choice v, allowed stmt choice v.state → rules.calls pid job stmt choice v)
    (hprocess : c.process pid = some (job, program))
    (h : exec S.eval allowed program choices c.scene.state = some (result, s')) :
    ∃ c', S.Calls rules pid c c' ∧ c'.process pid = some (job, .done result) ∧
      c'.scene.state = s' ∧ ∀ other, other ≠ pid → c'.process other = c.process other := by
  induction choices generalizing c program with
  | nil =>
    cases program with
    | done result =>
      cases h
      exact ⟨c, .refl, hprocess, rfl, fun _ _ ↦ rfl⟩
    | call stmt next => cases h
  | cons choice choices ih =>
    cases program with
    | done result => cases h
    | call stmt next =>
      rw [exec] at h
      split at h
      · next hchoice =>
        have hadvance : S.advance c (.call pid choice) =
            some ⟨S.called pid job stmt choice c.scene, Function.update c.process pid
              (some (job, next (S.eval stmt choice c.scene.state).1))⟩ := by
          simp only [advance, hprocess]
        have hpermit : rules.Permit c (.call pid choice) := by
          intro job' stmt' next' hprocess'
          cases hprocess.symm.trans hprocess'
          exact hallowed stmt choice c.scene hchoice
        obtain ⟨c', hcalls, hfinished, hstate, hothers⟩ := ih
          (c := ⟨S.called pid job stmt choice c.scene, Function.update c.process pid
            (some (job, next (S.eval stmt choice c.scene.state).1))⟩)
          (Function.update_self ..) h
        refine ⟨c', .head ⟨choice, hpermit, hadvance⟩ hcalls, hfinished, hstate, ?_⟩
        intro other hother
        rw [hothers other hother]
        exact Function.update_of_ne hother ..
      · cases h

/-- What a program does when it is executed, a process does in every cluster with that state. -/
theorem exists_alone (S : Sharing Reply Choice σ Env Job α) (rules : Rules Reply Choice σ Env Job)
    (pid : ℕ) (job : Job) {choices : List Choice} {s' : σ}
    (hallowed : ∀ stmt choice v, allowed stmt choice v.state → rules.calls pid job stmt choice v)
    (hfree : c.process pid = none)
    (h : exec S.eval allowed (S.main job) choices c.scene.state = some (result, s')) :
    ∃ c', S.Alone rules pid job c c' result ∧ c'.scene.state = s' ∧
      ∀ other, other ≠ pid → c'.process other = c.process other := by
  obtain ⟨c', hcalls, hfinished, hstate, hothers⟩ :=
    exists_calls (c := S.started pid job c) hallowed (Function.update_self ..) h
  refine ⟨c', ⟨hfree, hcalls, hfinished⟩, hstate, fun other hother ↦ ?_⟩
  rw [hothers other hother]
  exact Function.update_of_ne hother ..

end Exec

/-- What every call and every event within the rules keeps holds in every run. -/
theorem invariant_of_steps {I : σ → Prop}
    (hcall : ∀ stmt choice s, I s → I (S.eval stmt choice s).2)
    (hevent : ∀ env v, rules.events env v → I v.state → I (S.occur env v.state))
    (h : I c.scene.state) (hsteps : S.Steps rules c c') : I c'.scene.state := by
  induction hsteps with
  | refl => exact h
  | tail _ hstep ih =>
    obtain ⟨turn, hpermit, hadvance⟩ := hstep
    cases turn with
    | spawn pid job =>
      simp only [advance] at hadvance
      split at hadvance
      · cases hadvance
      · cases hadvance
        exact ih
    | call pid choice =>
      simp only [advance] at hadvance
      split at hadvance
      · cases hadvance
        exact hcall _ choice _ ih
      · cases hadvance
    | crash pid =>
      cases hadvance
      exact ih
    | occur env =>
      cases hadvance
      exact hevent env _ hpermit ih

end Sharing

end PaymentRail.Transaction
