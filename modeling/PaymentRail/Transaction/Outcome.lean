import PaymentRail.Transaction.Interference
import Mathlib.Logic.Relation

/-!
# How a transaction of a run ends

Rules for the end of one transaction, beside those of `PaymentRail.Transaction.Interference` for what
it has done when it succeeds.  `OnFailure` is a postcondition on the error of a body that fails, and
`Fails` is the calculus of bodies all of whose errors satisfy a predicate, whatever the database holds.

A transaction is also followed from the middle of a run.  `Onward` is a step of the run that leaves
the transaction open, and what holds at a point of its body holds at every later point
(`Discipline.onward`).  The interference may be narrowed by an invariant of the reachable databases.
-/

namespace PaymentRail.Transaction

variable {Stmt : Type} {Reply : Stmt → Type} {Ambient Db Write Lock Call ε ρ α β : Type}
variable {E : Engine Reply Ambient Db Write Lock} {allowed : Stmt → Ambient → Db → Prop}
  {Rely Rely' : List Lock → Db → Db → Prop}

section Rules

variable {post post' : α → List Write → List Lock → Db → Prop} {writes : List Write}
  {locks : List Lock} {db : Db}

/-- Two postconditions are reached together. -/
theorem wp_and {program : Program Reply α} (h : wp E allowed Rely program post writes locks db)
    (h' : wp E allowed Rely program post' writes locks db) :
    wp E allowed Rely program (fun a w l d ↦ post a w l d ∧ post' a w l d) writes locks db := by
  induction program generalizing writes locks db with
  | done result => exact ⟨h, h'⟩
  | call stmt next ih =>
    intro ambient after hrely hallowed
    exact ih _ (h ambient after hrely hallowed) (h' ambient after hrely hallowed)

/-- What holds under more interference holds under less. -/
theorem wp_anti {program : Program Reply α} (hrely : ∀ l d d', Rely' l d d' → Rely l d d')
    (h : wp E allowed Rely program post writes locks db) :
    wp E allowed Rely' program post writes locks db := by
  induction program generalizing writes locks db with
  | done result => exact h
  | call stmt next ih =>
    intro ambient after hafter hallowed
    exact ih _ (h ambient after (hrely _ _ _ hafter) hallowed)

/-- A transaction never takes a write back. -/
theorem wp_writes_ne_nil (program : Program Reply α) (h : writes ≠ []) :
    wp E allowed Rely program (fun _ w _ _ ↦ w ≠ []) writes locks db := by
  induction program generalizing writes locks db with
  | done result => exact h
  | call stmt next ih => exact fun _ _ _ _ ↦ ih _ (List.append_ne_nil_of_left_ne_nil h _)

/-- A postcondition for the failing end of a body; nothing is asked of a body that succeeds. -/
def OnFailure (blame : ε → Prop) : Except ε α → List Write → List Lock → Db → Prop
  | .ok _ => fun _ _ _ ↦ True
  | .error err => fun _ _ _ ↦ blame err

/-- A body whose first part fails only so, and whose second part does after a first part that
succeeded. -/
theorem wp_failure_bind {blame : ε → Prop} {body : Tx Reply ε α} {rest : α → Tx Reply ε β}
    (hbody : wp E allowed Rely body (OnFailure blame) writes locks db)
    (hrest : wp E allowed Rely body
      (OnSuccess fun value ↦ wp E allowed Rely (rest value) (OnFailure blame)) writes locks db) :
    wp E allowed Rely (body >>= rest : Tx Reply ε β) (OnFailure blame) writes locks db := by
  rw [wp_tx_bind]
  refine wp_mono (fun result w l d h ↦ ?_) (wp_and hbody hrest)
  cases result with
  | ok value => exact h.2
  | error err => exact h.1

end Rules

/-- Every error that a body can end with satisfies `blame`, whatever its statements reply on whatever
tables. -/
def Fails (E : Engine Reply Ambient Db Write Lock) (blame : ε → Prop) (body : Tx Reply ε α) : Prop :=
  ∀ writes locks db, wp E (fun _ _ _ ↦ True) (fun _ _ _ ↦ True) body (OnFailure blame) writes locks db

namespace Fails

variable {blame : ε → Prop}

theorem pure (value : α) : Fails E blame (Pure.pure value : Tx Reply ε α) := fun _ _ _ ↦ trivial

theorem ofExcept {result : Except ε α} (h : ∀ err, result = .error err → blame err) :
    Fails E blame (Tx.ofExcept result : Tx Reply ε α) := by
  intro writes locks db
  rw [wp_ofExcept]
  cases result with
  | ok value => trivial
  | error err => exact h err rfl

theorem bind {body : Tx Reply ε α} {rest : α → Tx Reply ε β} (hbody : Fails E blame body)
    (hrest : ∀ value, Fails E blame (rest value)) : Fails E blame (body >>= rest : Tx Reply ε β) := by
  intro writes locks db
  rw [wp_tx_bind]
  refine wp_mono (fun result w l d h ↦ ?_) (hbody writes locks db)
  cases result with
  | ok value => exact hrest value w l d
  | error err => exact h

/-- One statement and what follows each reply it can give. -/
theorem stmt_bind {stmt : Stmt} {rest : Reply stmt → Tx Reply ε α}
    (h : ∀ ambient db, Fails E blame (rest (E.eval stmt ambient db).reply)) :
    Fails E blame (Tx.stmt stmt >>= rest : Tx Reply ε α) :=
  fun _ _ _ _ _ _ _ ↦ h _ _ _ _ _

/-- The errors of a body are the same under every interference. -/
theorem wp_failure {body : Tx Reply ε α} (h : Fails E blame body) {writes : List Write}
    {locks : List Lock} {db : Db} :
    wp E allowed Rely body (OnFailure blame) writes locks db := by
  have hany : ∀ (program : Program Reply (Except ε α)) w l d,
      wp E (fun _ _ _ ↦ True) (fun _ _ _ ↦ True) program (OnFailure blame) w l d →
        wp E allowed Rely program (OnFailure blame) w l d := by
    intro program
    induction program with
    | done result => exact fun _ _ _ hend ↦ hend
    | call stmt next ih =>
      exact fun _ _ _ hnext ambient after _ _ ↦ ih _ _ _ _ (hnext ambient after trivial trivial)
  exact hany body writes locks db (h writes locks db)

end Fails

section Onward

variable [DecidableEq Lock] {body : Call → Program Reply (Except ε ρ)}
  {post : Call → Except ε ρ → List Write → List Lock → Db → Prop}

/-- One step of a run that does not close the transaction `tid`. -/
def Onward (E : Engine Reply Ambient Db Write Lock) (body : Call → Program Reply (Except ε ρ))
    (allowed : Stmt → Ambient → Db → Prop) (tid : ℕ) (s s' : State Reply Db Write Lock Call ε ρ) :
    Prop :=
  ∃ action, Permitted E allowed s action ∧ step E body s action = some s' ∧
    action ≠ .commit tid ∧ action ≠ .abort tid

/-- The interference that reachable databases with an invariant allow for. -/
def within (Rely : List Lock → Db → Db → Prop) (invariant : Db → Prop) (locks : List Lock)
    (db db' : Db) : Prop :=
  Rely locks db db' ∧ invariant db'

variable {start : Db} {invariant : Db → Prop} {s s' : State Reply Db Write Lock Call ε ρ} {tid : ℕ}

theorem Reaches.onward (h : Reaches E body allowed start s)
    (hlater : Relation.ReflTransGen (Onward E body allowed tid) s s') :
    Reaches E body allowed start s' := by
  induction hlater with
  | refl => exact h
  | tail _ hstep ih =>
    obtain ⟨action, hpermitted, hstep, -, -⟩ := hstep
    exact ih.step hpermitted hstep

namespace Discipline

variable (D : Discipline E allowed Rely body post)
include D

omit [DecidableEq Lock] in
/-- A verified family with a second postcondition of its own. -/
theorem and {extra : Call → Except ε ρ → List Write → List Lock → Db → Prop}
    (hstable : ∀ call result writes locks db db', extra call result writes locks db →
      Rely locks db db' → extra call result writes locks db')
    (hverified : ∀ call db, wp E allowed Rely (body call) (extra call) [] [] db) :
    Discipline E allowed Rely body
      fun call result w l d ↦ post call result w l d ∧ extra call result w l d where
  refl := D.refl
  trans := D.trans
  stable call result writes locks db db' hpost hrely :=
    ⟨D.stable call result writes locks db db' hpost.1 hrely,
      hstable call result writes locks db db' hpost.2 hrely⟩
  verified call db := wp_and (D.verified call db) (hverified call db)
  guarantee call result writes locks db others hpost hlocks :=
    D.guarantee call result writes locks db others hpost.1 hlocks

/-- What holds at a point of an open transaction holds after one more step of the run. -/
theorem onward_step (hinvariant : ∀ s, Reaches E body allowed start s → invariant s.db)
    {goal : Except ε ρ → List Write → List Lock → Db → Prop}
    (hgoal : ∀ result w l d d', goal result w l d → within Rely invariant l d d' →
      goal result w l d')
    {session : Session Reply Write Lock Call ε ρ} (hs : Reaches E body allowed start s)
    (hopen : s.session tid = some session)
    (hwp : wp E allowed (within Rely invariant) session.rest goal session.writes session.locks s.db)
    (hstep : Onward E body allowed tid s s') :
    ∃ later, s'.session tid = some later ∧ later.call = session.call ∧
      wp E allowed (within Rely invariant) later.rest goal later.writes later.locks s'.db := by
  obtain ⟨action, hpermitted, hstep, hcommit, habort⟩ := hstep
  cases action with
  | start other call =>
    have hne : tid ≠ other := by
      rintro rfl
      simp [step, hopen] at hstep
    rw [step_start hstep]
    exact ⟨session, by simp only [Function.update_of_ne hne, hopen], rfl, hwp⟩
  | exec other ambient =>
    obtain ⟨call, stmt, next, writes, locks, hother, hfree, rfl⟩ := step_exec hstep
    by_cases htid : tid = other
    · subst htid
      obtain rfl := Option.some.inj (hopen.symm.trans hother)
      refine ⟨_, Function.update_self .., rfl, ?_⟩
      refine hwp ambient s.db ⟨D.refl _ _, hinvariant s hs⟩ ?_
      simpa only [Permitted, hother, Option.elim_some, Session.Admits] using hpermitted
    · exact ⟨session, by simp only [Function.update_of_ne htid, hopen], rfl, hwp⟩
  | commit other =>
    have hne : tid ≠ other := fun h ↦ hcommit (h ▸ rfl)
    have hinv : invariant s'.db := hinvariant s' (hs.step hpermitted hstep)
    obtain ⟨call, result, writes, locks, hother, rfl⟩ := step_commit hstep
    have hrely : Rely session.locks s.db (E.view s.db writes) :=
      D.guarantee call result writes locks s.db session.locks (D.covered hs other _ hother).1
        (locks_disjoint (Ne.symm hne) (D.covered hs other _ hother).2 (D.covered hs tid _ hopen).2)
    refine ⟨session, by simp only [State.close, Function.update_of_ne hne, hopen], rfl, ?_⟩
    exact wp_stable (fun l a b c h h' ↦ ⟨D.trans l a b c h.1 h'.1, h'.2⟩) hgoal hwp ⟨hrely, hinv⟩
  | abort other =>
    have hne : tid ≠ other := fun h ↦ habort (h ▸ rfl)
    rw [step_abort hstep]
    exact ⟨session, by simp only [State.close, Function.update_of_ne hne, hopen], rfl, hwp⟩

/-- What holds at a point of an open transaction holds for as long as it stays open. -/
theorem onward (hinvariant : ∀ s, Reaches E body allowed start s → invariant s.db)
    {goal : Except ε ρ → List Write → List Lock → Db → Prop}
    (hgoal : ∀ result w l d d', goal result w l d → within Rely invariant l d d' →
      goal result w l d')
    {session : Session Reply Write Lock Call ε ρ} (hs : Reaches E body allowed start s)
    (hopen : s.session tid = some session)
    (hwp : wp E allowed (within Rely invariant) session.rest goal session.writes session.locks s.db)
    (hlater : Relation.ReflTransGen (Onward E body allowed tid) s s') :
    ∃ later, s'.session tid = some later ∧ later.call = session.call ∧
      wp E allowed (within Rely invariant) later.rest goal later.writes later.locks s'.db := by
  induction hlater with
  | refl => exact ⟨session, hopen, rfl, hwp⟩
  | tail hsteps hstep ih =>
    obtain ⟨mid, hmid, hcall, hwpMid⟩ := ih
    obtain ⟨later, hlater, hcall', hwpLater⟩ :=
      D.onward_step hinvariant hgoal (hs.onward hsteps) hmid hwpMid hstep
    exact ⟨later, hlater, hcall'.trans hcall, hwpLater⟩

end Discipline

end Onward

end PaymentRail.Transaction
