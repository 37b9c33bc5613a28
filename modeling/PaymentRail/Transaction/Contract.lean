import PaymentRail.Transaction.Process

/-!
# Verifying processes

`pwp` is a rely/guarantee rule for processes, in the way of `wp` for transaction bodies.  Between any
two steps of a process the others may change what is visible as far as `rely` allows; each of its own
steps has to keep the invariant and to be allowed by the `rely` of everyone else.  A transaction enters
with the postcondition that holds when it commits.

`Verified.sound` is the induction over the runs of a system: every world it reaches has the invariant.
-/

namespace PaymentRail.Transaction

variable {Stmt : Type} {Reply : Stmt → Type} {Ambient Db Write Lock Call ε ρ : Type}
  {Op : Type} {OpReply : Op → Type} {Choice Ext Job α : Type}

namespace View

variable (v : View Db Ext Job Call ρ Choice OpReply α)

/-- After the COMMIT of a transaction. -/
def commit (E : Engine Reply Ambient Db Write Lock) (pid : ℕ) (job : Job) (call : Call) (result : ρ)
    (writes : List Write) : View Db Ext Job Call ρ Choice OpReply α :=
  ⟨E.view v.db writes, v.ext, .committed pid job call result :: v.log⟩

/-- After a call to the outside. -/
def perform (ext : Ext) (pid : ℕ) (job : Job) (op : Op) (choice : Choice) (reply : OpReply op) :
    View Db Ext Job Call ρ Choice OpReply α :=
  ⟨v.db, ext, .performed pid job op choice reply :: v.log⟩

/-- After the end of a process. -/
def finish (pid : ℕ) (job : Job) (result : α) : View Db Ext Job Call ρ Choice OpReply α :=
  ⟨v.db, v.ext, .returned pid job result :: v.log⟩

end View

/-- An invariant of what is visible, what each process relies on, and what a COMMIT writes. -/
structure Contract (Db Ext Write Job Call ρ Choice : Type) {Op : Type} (OpReply : Op → Type)
    (α : Type) where
  inv : View Db Ext Job Call ρ Choice OpReply α → Prop
  rely : ℕ → View Db Ext Job Call ρ Choice OpReply α → View Db Ext Job Call ρ Choice OpReply α → Prop
  post : Call → ρ → List Write → Db → Prop

/-- A step of one process keeps the invariant and does to the others what they expect. -/
def Contract.Allows (C : Contract Db Ext Write Job Call ρ Choice OpReply α) (pid : ℕ)
    (v v' : View Db Ext Job Call ρ Choice OpReply α) : Prop :=
  C.inv v' ∧ ∀ other, other ≠ pid → C.rely other v v'

section Rules

variable (S : System Reply Ambient Db Write Lock Call ε ρ OpReply Choice Ext Job α)
  (limits : Limits Job Call Op Choice Ext) (C : Contract Db Ext Write Job Call ρ Choice OpReply α)
  (pid : ℕ) (job : Job)

/-- Every step of a process is allowed, and where it ends the postcondition holds. -/
def pwp {β : Type} : Program (Demand.Answer Call ε ρ OpReply) β →
    (β → View Db Ext Job Call ρ Choice OpReply α → Prop) →
    View Db Ext Job Call ρ Choice OpReply α → Prop
  | .done result, post, v => post result v
  | .call (.transact call) next, post, v => ∀ v', C.rely pid v v' → C.inv v' →
      (∀ result writes, C.post call result writes v'.db →
        C.Allows pid v' (v'.commit S.engine pid job call result writes) ∧
        pwp (next (.ok result)) post (v'.commit S.engine pid job call result writes) ∧
        (limits.losesAck job call → ∀ err,
          pwp (next (.error err)) post (v'.commit S.engine pid job call result writes))) ∧
      ∀ err, pwp (next (.error err)) post v'
  | .call (.perform op) next, post, v => ∀ v', C.rely pid v v' → C.inv v' →
      ∀ choice, limits.admits job op choice v'.ext →
        C.Allows pid v' (v'.perform (S.eval op choice v'.ext).2 pid job op choice
          (S.eval op choice v'.ext).1) ∧
        pwp (next (S.eval op choice v'.ext).1) post (v'.perform (S.eval op choice v'.ext).2 pid job op
          choice (S.eval op choice v'.ext).1)

/-- The end of a process: its result may be recorded at any later time. -/
def Contract.Ends (result : α) (v : View Db Ext Job Call ρ Choice OpReply α) : Prop :=
  ∀ v', C.rely pid v v' → C.inv v' → C.Allows pid v' (v'.finish pid job result)

variable {S limits C pid job} {v v' : View Db Ext Job Call ρ Choice OpReply α}

/-- Sequencing. -/
theorem pwp_bind {β γ : Type} {program : Program (Demand.Answer Call ε ρ OpReply) β}
    {rest : β → Program (Demand.Answer Call ε ρ OpReply) γ}
    {post : γ → View Db Ext Job Call ρ Choice OpReply α → Prop} :
    pwp S limits C pid job (program >>= rest) post v ↔
      pwp S limits C pid job program (fun b ↦ pwp S limits C pid job (rest b) post) v := by
  induction program generalizing v with
  | done result => rfl
  | call demand next ih =>
    cases demand with
    | transact call =>
      simp only [Bind.bind, Program.bind_call, pwp] at ih ⊢
      simp only [ih]
    | perform op =>
      simp only [Bind.bind, Program.bind_call, pwp] at ih ⊢
      simp only [ih]

theorem pwp_mono {β : Type} {program : Program (Demand.Answer Call ε ρ OpReply) β}
    {post post' : β → View Db Ext Job Call ρ Choice OpReply α → Prop}
    (hpost : ∀ result v, post result v → post' result v)
    (h : pwp S limits C pid job program post v) : pwp S limits C pid job program post' v := by
  induction program generalizing v with
  | done result => exact hpost _ _ h
  | call demand next ih =>
    cases demand with
    | transact call =>
      intro v' hrely hinv
      obtain ⟨hcommit, hfail⟩ := h v' hrely hinv
      refine ⟨fun result writes hwrites ↦ ?_, fun err ↦ ih _ (hfail err)⟩
      obtain ⟨hallows, hok, hlost⟩ := hcommit result writes hwrites
      exact ⟨hallows, ih _ hok, fun hloses err ↦ ih _ (hlost hloses err)⟩
    | perform op =>
      intro v' hrely hinv choice hadmits
      obtain ⟨hallows, hnext⟩ := h v' hrely hinv choice hadmits
      exact ⟨hallows, ih _ hnext⟩

/-- What holds at a point of a process survives what it relies on. -/
theorem pwp_stable {program : Program (Demand.Answer Call ε ρ OpReply) α}
    (htrans : ∀ a b c, C.rely pid a b → C.rely pid b c → C.rely pid a c)
    (h : pwp S limits C pid job program (C.Ends pid job) v) (hrely : C.rely pid v v') :
    pwp S limits C pid job program (C.Ends pid job) v' := by
  cases program with
  | done result => exact fun v'' hrely' hinv ↦ h v'' (htrans _ _ _ hrely hrely') hinv
  | call demand next =>
    cases demand with
    | transact call => exact fun v'' hrely' hinv ↦ h v'' (htrans _ _ _ hrely hrely') hinv
    | perform op => exact fun v'' hrely' hinv ↦ h v'' (htrans _ _ _ hrely hrely') hinv

/-- A program all of whose demands keep what its process knows. -/
theorem pwp_of_issues {β : Type} {P : Demand Call Op → Prop}
    {K : View Db Ext Job Call ρ Choice OpReply α → Prop}
    {program : Program (Demand.Answer Call ε ρ OpReply) β} (hissues : program.Issues P)
    (hstable : ∀ v v', C.rely pid v v' → K v → K v')
    (hcommit : ∀ call result writes v, P (.transact call) → C.inv v → K v →
      C.post call result writes v.db → C.Allows pid v (v.commit S.engine pid job call result writes) ∧
        K (v.commit S.engine pid job call result writes))
    (hperform : ∀ op choice v, P (.perform op) → C.inv v → K v → limits.admits job op choice v.ext →
      C.Allows pid v (v.perform (S.eval op choice v.ext).2 pid job op choice
        (S.eval op choice v.ext).1) ∧
        K (v.perform (S.eval op choice v.ext).2 pid job op choice (S.eval op choice v.ext).1))
    (hv : K v) : pwp S limits C pid job program (fun _ ↦ K) v := by
  induction program generalizing v with
  | done result => exact hv
  | call demand next ih =>
    obtain ⟨hdemand, hnext⟩ := hissues
    cases demand with
    | transact call =>
      intro v' hrely hinv
      have hv' := hstable v v' hrely hv
      refine ⟨fun result writes hpost ↦ ?_, fun err ↦ ih _ (hnext _) hv'⟩
      obtain ⟨hallows, hk⟩ := hcommit call result writes v' hdemand hinv hv' hpost
      exact ⟨hallows, ih _ (hnext _) hk, fun _ err ↦ ih _ (hnext _) hk⟩
    | perform op =>
      intro v' hrely hinv choice hadmits
      obtain ⟨hallows, hk⟩ := hperform op choice v' hdemand hinv (hstable v v' hrely hv) hadmits
      exact ⟨hallows, ih _ (hnext _) hk⟩

/-- The same for a program whose result has a property, and which only makes calls to the outside. -/
theorem pwp_of_yields {β : Type} {P : Demand Call Op → Prop} {Q : β → Prop}
    {K : View Db Ext Job Call ρ Choice OpReply α → Prop}
    {program : Program (Demand.Answer Call ε ρ OpReply) β} (hyields : program.Yields P Q)
    (hstable : ∀ v v', C.rely pid v v' → K v → K v') (hcall : ∀ call, ¬P (.transact call))
    (hperform : ∀ op choice v, P (.perform op) → C.inv v → K v → limits.admits job op choice v.ext →
      C.Allows pid v (v.perform (S.eval op choice v.ext).2 pid job op choice
        (S.eval op choice v.ext).1) ∧
        K (v.perform (S.eval op choice v.ext).2 pid job op choice (S.eval op choice v.ext).1))
    (hv : K v) : pwp S limits C pid job program (fun result v' ↦ Q result ∧ K v') v := by
  induction program generalizing v with
  | done result => exact ⟨hyields, hv⟩
  | call demand next ih =>
    obtain ⟨hdemand, hnext⟩ := hyields
    cases demand with
    | transact call => exact absurd hdemand (hcall call)
    | perform op =>
      intro v' hrely hinv choice hadmits
      obtain ⟨hallows, hk⟩ := hperform op choice v' hdemand hinv (hstable v v' hrely hv) hadmits
      exact ⟨hallows, ih _ (hnext _) hk⟩

end Rules

variable [DecidableEq Lock]

/-- A verified system: every job is, against a contract whose COMMITs a discipline vouches for. -/
structure Verified (S : System Reply Ambient Db Write Lock Call ε ρ OpReply Choice Ext Job α)
    (limits : Limits Job Call Op Choice Ext)
    (C : Contract Db Ext Write Job Call ρ Choice OpReply α) : Prop where
  refl : ∀ pid v, C.rely pid v v
  trans : ∀ pid a b c, C.rely pid a b → C.rely pid b c → C.rely pid a c
  commits : ∀ db tables, Reaches S.engine S.body unrestricted db tables →
    ∀ pid call result writes locks,
      tables.session pid = some ⟨call, .done (.ok result), writes, locks⟩ →
        C.post call result writes tables.db
  main : ∀ pid job v, C.inv v → pwp S limits C pid job (S.main job) (C.Ends pid job) v

/-- A world in which every process is where its verification covers it. -/
structure Sound (S : System Reply Ambient Db Write Lock Call ε ρ OpReply Choice Ext Job α)
    (limits : Limits Job Call Op Choice Ext)
    (C : Contract Db Ext Write Job Call ρ Choice OpReply α) (start : Db)
    (w : World Reply Db Write Lock Call ε ρ OpReply Choice Ext Job α) : Prop where
  inv : C.inv w.view
  safe : ∀ pid job program, w.process pid = some (job, program) →
    pwp S limits C pid job program (C.Ends pid job) w.view
  tables : Reaches S.engine S.body unrestricted start w.tables
  session : ∀ pid session, w.tables.session pid = some session →
    ∃ job next, w.process pid = some (job, .call (.transact session.call) next)

namespace Verified

variable {S : System Reply Ambient Db Write Lock Call ε ρ OpReply Choice Ext Job α}
  {limits : Limits Job Call Op Choice Ext} {C : Contract Db Ext Write Job Call ρ Choice OpReply α}
  {start : Db} {w w' : World Reply Db Write Lock Call ε ρ OpReply Choice Ext Job α}

/-- A step that changes what one process knows, as it is allowed to. -/
theorem safe_update (V : Verified S limits C) (h : Sound S limits C start w) {pid : ℕ}
    {new : Option (Job × Program (Demand.Answer Call ε ρ OpReply) α)}
    (hprocess : w'.process = Function.update w.process pid new)
    (hallows : ∀ other, other ≠ pid → C.rely other w.view w'.view)
    (hnew : ∀ job program, new = some (job, program) →
      pwp S limits C pid job program (C.Ends pid job) w'.view) :
    ∀ pid job program, w'.process pid = some (job, program) →
      pwp S limits C pid job program (C.Ends pid job) w'.view := by
  intro other job program hother
  rw [hprocess] at hother
  by_cases hpid : other = pid
  · subst hpid
    rw [Function.update_self] at hother
    exact hnew job program hother
  · rw [Function.update_of_ne hpid] at hother
    exact pwp_stable (V.trans other) (h.safe other job program hother) (hallows other hpid)

theorem reaches_rollback (h : Reaches S.engine S.body unrestricted start w.tables) (pid : ℕ) :
    Reaches S.engine S.body unrestricted start (rollback S.engine S.body w.tables pid) := by
  unfold rollback
  cases hstep : step S.engine S.body w.tables (.abort pid) with
  | none => exact h
  | some tables => exact h.step (permitted_unrestricted _ _) hstep

theorem rollback_db (tables : State Reply Db Write Lock Call ε ρ) (pid : ℕ) :
    (rollback S.engine S.body tables pid).db = tables.db := by
  unfold rollback
  cases hstep : step S.engine S.body tables (.abort pid) with
  | none => rfl
  | some after => rw [Option.getD_some, step_abort hstep, State.close]

/-- After a rollback only the other transactions are open. -/
theorem session_of_rollback {tables : State Reply Db Write Lock Call ε ρ} {pid other : ℕ}
    {session : Session Reply Write Lock Call ε ρ}
    (h : (rollback S.engine S.body tables pid).session other = some session) :
    other ≠ pid ∧ tables.session other = some session := by
  unfold rollback at h
  cases hstep : step S.engine S.body tables (.abort pid) with
  | none =>
    rw [hstep, Option.getD_none] at h
    refine ⟨?_, h⟩
    rintro rfl
    simp [step, h] at hstep
  | some after =>
    rw [hstep, Option.getD_some, step_abort hstep] at h
    obtain ⟨hne, hsession⟩ := session_of_close h
    exact ⟨hne.symm, hsession⟩

/-- The open transactions still belong to their processes when one process goes on without one. -/
theorem session_update (h : Sound S limits C start w) {pid : ℕ}
    {new : Option (Job × Program (Demand.Answer Call ε ρ OpReply) α)}
    (hprocess : w'.process = Function.update w.process pid new)
    (hsession : ∀ other session, w'.tables.session other = some session →
      other ≠ pid ∧ w.tables.session other = some session) :
    ∀ other session, w'.tables.session other = some session →
      ∃ job next, w'.process other = some (job, .call (.transact session.call) next) := by
  intro other session hopen
  obtain ⟨hne, hopen⟩ := hsession other session hopen
  rw [hprocess, Function.update_of_ne hne]
  exact h.session other session hopen

/-- A process that is not in a transaction has none open. -/
theorem ne_of_session (h : Sound S limits C start w) {pid other : ℕ} {job : Job}
    {program : Program (Demand.Answer Call ε ρ OpReply) α}
    {session : Session Reply Write Lock Call ε ρ}
    (hprocess : w.process pid = some (job, program))
    (hprogram : ∀ call next, program ≠ .call (.transact call) next)
    (hopen : w.tables.session other = some session) : other ≠ pid := by
  rintro rfl
  obtain ⟨job', next, hother⟩ := h.session other session hopen
  rw [hprocess, Option.some.injEq, Prod.mk.injEq] at hother
  exact hprogram _ _ hother.2

theorem sound_spawn (V : Verified S limits C) (h : Sound S limits C start w) {pid : ℕ} {job : Job}
    (hnone : w.process pid = none) : Sound S limits C start (w.goto pid job (S.main job)) where
  inv := h.inv
  safe := by
    refine V.safe_update h rfl (fun other _ ↦ V.refl other _) fun job' program hnew ↦ ?_
    obtain ⟨rfl, rfl⟩ := Prod.mk.inj (Option.some.inj hnew)
    exact V.main pid job _ h.inv
  tables := h.tables
  session := by
    refine session_update h rfl fun other session hopen ↦ ⟨?_, hopen⟩
    rintro rfl
    obtain ⟨_, _, hprocess⟩ := h.session other session hopen
    rw [hnone] at hprocess
    cases hprocess

/-- A statement, or the start of a transaction, is seen by nobody. -/
theorem sound_quiet (h : Sound S limits C start w) {tables : State Reply Db Write Lock Call ε ρ}
    {pid : ℕ} {session : Session Reply Write Lock Call ε ρ}
    (hreaches : Reaches S.engine S.body unrestricted start tables) (hdb : tables.db = w.tables.db)
    (hsession : tables.session = Function.update w.tables.session pid (some session))
    (hprocess : ∃ job next, w.process pid = some (job, .call (.transact session.call) next)) :
    Sound S limits C start { w with tables := tables } := by
  have hview : World.view { w with tables := tables } = w.view := by
    rw [World.view, World.view, hdb]
  refine ⟨by rw [hview]; exact h.inv, by rw [hview]; exact h.safe, hreaches, fun other _ hopen ↦ ?_⟩
  simp only [hsession] at hopen
  rcases eq_or_ne other pid with rfl | hne
  · rw [Function.update_self, Option.some.injEq] at hopen
    subst hopen
    exact hprocess
  · rw [Function.update_of_ne hne] at hopen
    exact h.session other _ hopen

theorem sound_commit (V : Verified S limits C) (h : Sound S limits C start w) {pid : ℕ} {job : Job}
    {call : Call} {next : Except ε ρ → Program (Demand.Answer Call ε ρ OpReply) α} {result : ρ}
    {call' : Call} {writes : List Write} {locks : List Lock} {lost : Option ε}
    {tables : State Reply Db Write Lock Call ε ρ}
    (hprocess : w.process pid = some (job, .call (.transact call) next))
    (hopen : w.tables.session pid = some ⟨call', .done (.ok result), writes, locks⟩)
    (hstep : step S.engine S.body w.tables (.commit pid) = some tables)
    (hlost : lost ≠ none → limits.losesAck job call) :
    Sound S limits C start ((({ w with tables := tables }).record
      (.committed pid job call result)).goto pid job (next (lost.elim (.ok result) .error))) := by
  obtain ⟨job', next', hprocess'⟩ := h.session pid _ hopen
  rw [hprocess, Option.some.injEq, Prod.mk.injEq, Program.call.injEq, Demand.transact.injEq]
    at hprocess'
  obtain ⟨rfl, rfl, -⟩ := hprocess'
  have hpost := V.commits start w.tables h.tables pid call result writes locks hopen
  obtain ⟨_, result', writes', locks', hopen', htables⟩ := step_commit hstep
  rw [hopen, Option.some.injEq, Session.mk.injEq, Program.done.injEq, Except.ok.injEq] at hopen'
  obtain ⟨-, rfl, rfl, -⟩ := hopen'
  have hsafe := h.safe pid job _ hprocess w.view (V.refl pid _) h.inv
  obtain ⟨⟨hinv, hallows⟩, hok, hlose⟩ := hsafe.1 result writes hpost
  have hview : World.view ((({ w with tables := tables }).record
      (.committed pid job call result)).goto pid job (next (lost.elim (.ok result) .error))) =
        w.view.commit S.engine pid job call result writes := by
    rw [htables]
    rfl
  refine ⟨by rw [hview]; exact hinv, ?_, h.tables.step (permitted_unrestricted _ _) hstep, ?_⟩
  · refine V.safe_update h rfl (by rw [hview]; exact hallows) fun job'' program hnew ↦ ?_
    obtain ⟨rfl, rfl⟩ := Prod.mk.inj (Option.some.inj hnew)
    rw [hview]
    cases lost with
    | none => exact hok
    | some err => exact hlose (hlost (Option.some_ne_none err)) err
  · refine session_update h rfl fun other session hother ↦ ?_
    have hclose : (w.tables.close pid).session other = some session := by
      rw [htables] at hother
      exact hother
    obtain ⟨hne, hold⟩ := session_of_close hclose
    exact ⟨hne.symm, hold⟩

theorem sound_fail (V : Verified S limits C) (h : Sound S limits C start w) {pid : ℕ} {job : Job}
    {call : Call} {next : Except ε ρ → Program (Demand.Answer Call ε ρ OpReply) α}
    (hprocess : w.process pid = some (job, .call (.transact call) next)) (err : ε) :
    Sound S limits C start (({ w with tables := rollback S.engine S.body w.tables pid }).goto pid job
      (next (.error err))) := by
  have hview : World.view (({ w with tables := rollback S.engine S.body w.tables pid }).goto pid job
      (next (.error err))) = w.view := by
    rw [World.view, World.view]
    exact congrArg (View.mk · w.ext w.log) (rollback_db w.tables pid)
  have hsafe := h.safe pid job _ hprocess w.view (V.refl pid _) h.inv
  refine ⟨by rw [hview]; exact h.inv, ?_, reaches_rollback h.tables pid,
    session_update h rfl fun other session hother ↦ session_of_rollback hother⟩
  refine V.safe_update h rfl (fun other _ ↦ by rw [hview]; exact V.refl other _) fun _ _ hnew ↦ ?_
  obtain ⟨rfl, rfl⟩ := Prod.mk.inj (Option.some.inj hnew)
  rw [hview]
  exact hsafe.2 err

theorem sound_perform (V : Verified S limits C) (h : Sound S limits C start w) {pid : ℕ} {job : Job}
    {op : Op} {next : OpReply op → Program (Demand.Answer Call ε ρ OpReply) α} {choice : Choice}
    (hprocess : w.process pid = some (job, .call (.perform op) next))
    (hadmits : limits.admits job op choice w.ext) :
    Sound S limits C start ((({ w with ext := (S.eval op choice w.ext).2 }).record
      (.performed pid job op choice (S.eval op choice w.ext).1)).goto pid job
        (next (S.eval op choice w.ext).1)) := by
  have hsafe := h.safe pid job _ hprocess w.view (V.refl pid _) h.inv choice hadmits
  obtain ⟨⟨hinv, hallows⟩, hnext⟩ := hsafe
  refine ⟨hinv, ?_, h.tables, session_update h rfl fun other session hopen ↦
    ⟨ne_of_session h hprocess (by simp) hopen, hopen⟩⟩
  refine V.safe_update h rfl hallows fun _ _ hnew ↦ ?_
  obtain ⟨rfl, rfl⟩ := Prod.mk.inj (Option.some.inj hnew)
  exact hnext

theorem sound_finish (V : Verified S limits C) (h : Sound S limits C start w) {pid : ℕ} {job : Job}
    {result : α} (hprocess : w.process pid = some (job, .done result)) :
    Sound S limits C start ((w.record (.returned pid job result)).remove pid) := by
  obtain ⟨hinv, hallows⟩ := h.safe pid job _ hprocess w.view (V.refl pid _) h.inv
  exact ⟨hinv, V.safe_update h rfl hallows (fun _ _ hnew ↦ by cases hnew), h.tables,
    session_update h rfl fun other session hopen ↦
      ⟨ne_of_session h hprocess (by simp) hopen, hopen⟩⟩

theorem sound_crash (V : Verified S limits C) (h : Sound S limits C start w) (pid : ℕ) :
    Sound S limits C start
      (({ w with tables := rollback S.engine S.body w.tables pid }).remove pid) := by
  have hview : World.view (({ w with tables := rollback S.engine S.body w.tables pid }).remove pid) =
      w.view := by
    rw [World.view, World.view]
    exact congrArg (View.mk · w.ext w.log) (rollback_db w.tables pid)
  exact ⟨by rw [hview]; exact h.inv,
    V.safe_update h rfl (fun other _ ↦ by rw [hview]; exact V.refl other _) (fun _ _ hnew ↦ by cases hnew),
    reaches_rollback h.tables pid,
    session_update h rfl fun other session hother ↦ session_of_rollback hother⟩

/-- Every move within the limits keeps a world covered. -/
theorem sound_advance (V : Verified S limits C) (h : Sound S limits C start w)
    {move : Move Job Ambient Choice ε} (hpermits : limits.Permits w move)
    (hmove : S.advance w move = some w') : Sound S limits C start w' := by
  cases move with
  | spawn pid job =>
    simp only [System.advance] at hmove
    split at hmove
    · cases hmove
    · next hnone =>
      cases hmove
      exact V.sound_spawn h hnone
  | begin pid =>
    simp only [System.advance] at hmove
    split at hmove
    · next job call next hprocess =>
      obtain ⟨tables, hstep, rfl⟩ := Option.map_eq_some_iff.mp hmove
      have hreaches := h.tables.step (permitted_unrestricted _ _) hstep
      obtain rfl := step_start hstep
      exact sound_quiet h hreaches rfl rfl ⟨job, next, hprocess⟩
    · cases hmove
  | exec pid ambient =>
    obtain ⟨tables, hstep, rfl⟩ := Option.map_eq_some_iff.mp hmove
    have hreaches := h.tables.step (permitted_unrestricted _ _) hstep
    obtain ⟨call, stmt, next, writes, locks, hopen, -, rfl⟩ := step_exec hstep
    obtain ⟨job, next', hprocess⟩ := h.session pid _ hopen
    exact sound_quiet h hreaches rfl rfl ⟨job, next', hprocess⟩
  | commit pid lost =>
    simp only [System.advance] at hmove
    split at hmove
    · next job call next call' result writes locks hprocess hopen =>
      obtain ⟨tables, hstep, rfl⟩ := Option.map_eq_some_iff.mp hmove
      refine V.sound_commit h hprocess hopen hstep fun hlost ↦ ?_
      obtain ⟨err, rfl⟩ := Option.ne_none_iff_exists'.mp hlost
      exact hpermits job call next hprocess
    · cases hmove
  | fail pid err =>
    simp only [System.advance] at hmove
    split at hmove
    · next job call next hprocess =>
      cases hmove
      exact V.sound_fail h hprocess _
    · cases hmove
  | perform pid choice =>
    simp only [System.advance] at hmove
    split at hmove
    · next job op next hprocess =>
      cases hmove
      exact V.sound_perform h hprocess (hpermits job op next hprocess)
    · cases hmove
  | finish pid =>
    simp only [System.advance] at hmove
    split at hmove
    · next job result hprocess =>
      cases hmove
      exact V.sound_finish h hprocess
    · cases hmove
  | crash pid =>
    simp only [System.advance] at hmove
    split at hmove
    · cases hmove
      exact V.sound_crash h pid
    · cases hmove

/-- Every world that a verified system reaches is covered by the verification. -/
theorem sound (V : Verified S limits C) {ext : Ext} (hstart : C.inv ⟨start, ext, []⟩)
    (h : S.Reaches limits start ext w) : Sound S limits C start w := by
  induction h with
  | idle => exact ⟨hstart, fun _ _ _ hnone ↦ (by cases hnone), .idle, fun _ _ hnone ↦ (by cases hnone)⟩
  | move _ hpermits hmove ih => exact V.sound_advance ih hpermits hmove

end Verified

end PaymentRail.Transaction
