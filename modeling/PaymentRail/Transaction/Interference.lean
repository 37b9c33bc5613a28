import PaymentRail.Transaction.ReadCommitted

/-!
# Reasoning about one transaction among others

`wp` is a weakest precondition for a transaction body that is interleaved with others.  Before each
of its statements the committed database may change, but only as `Rely` allows for the locks the
transaction holds by then.  A `Discipline` collects what makes this sound: every body is verified
against the interference, and what a body commits is in turn interference its peers allow for.

Two consequences are drawn for every interleaving.  Each open transaction is at a point of its body
that its verification covers, and the commits form a serial run in which each one meets its
postcondition on the database it committed to.
-/

namespace PaymentRail.Transaction

variable {Stmt : Type} {Reply : Stmt → Type} {Ambient Db Write Lock Call ε ρ α β : Type}
variable (E : Engine Reply Ambient Db Write Lock) (allowed : Stmt → Ambient → Db → Prop)
  (Rely : List Lock → Db → Db → Prop)

/-- The postcondition holds whenever the program ends, whatever others commit in between. -/
def wp : Program Reply α → (α → List Write → List Lock → Db → Prop) →
    List Write → List Lock → Db → Prop
  | .done result, post, writes, locks, db => post result writes locks db
  | .call stmt next, post, writes, locks, db =>
    ∀ ambient db', Rely locks db db' → allowed stmt ambient (E.view db' writes) →
      wp (next (E.eval stmt ambient (E.view db' writes)).reply) post
        (writes ++ (E.eval stmt ambient (E.view db' writes)).writes)
        (locks ++ (E.eval stmt ambient (E.view db' writes)).locks) db'

section Rules

variable {E allowed Rely} {post : α → List Write → List Lock → Db → Prop}
  {writes : List Write} {locks : List Lock} {db : Db}

/-- Sequencing: the first program has to end where the second may start. -/
theorem wp_bind {program : Program Reply α} {rest : α → Program Reply β}
    {post : β → List Write → List Lock → Db → Prop} :
    wp E allowed Rely (program.bind rest) post writes locks db ↔
      wp E allowed Rely program (fun a ↦ wp E allowed Rely (rest a) post) writes locks db := by
  induction program generalizing writes locks db with
  | done result => rfl
  | call stmt next ih =>
    simp only [Program.bind_call, wp]
    exact forall_congr' fun ambient ↦ forall_congr' fun db' ↦ forall_congr' fun _ ↦
      forall_congr' fun _ ↦ ih _

/-- A weaker postcondition is easier to reach. -/
theorem wp_mono {program : Program Reply α} {post' : α → List Write → List Lock → Db → Prop}
    (hpost : ∀ a w l d, post a w l d → post' a w l d)
    (h : wp E allowed Rely program post writes locks db) :
    wp E allowed Rely program post' writes locks db := by
  induction program generalizing writes locks db with
  | done result => exact hpost _ _ _ _ h
  | call stmt next ih => exact fun ambient db' hrely hallowed ↦ ih _ (h ambient db' hrely hallowed)

/-- What holds at a point of a body survives the interference that point allows for. -/
theorem wp_stable {program : Program Reply α}
    (htrans : ∀ l a b c, Rely l a b → Rely l b c → Rely l a c)
    (hpost : ∀ a w l d d', post a w l d → Rely l d d' → post a w l d')
    (h : wp E allowed Rely program post writes locks db) {db' : Db} (hrely : Rely locks db db') :
    wp E allowed Rely program post writes locks db' := by
  cases program with
  | done result => exact hpost _ _ _ _ _ h hrely
  | call stmt next =>
    exact fun ambient db'' hrely' hallowed ↦ h ambient db'' (htrans _ _ _ _ hrely hrely') hallowed

variable {error : ε} {value : α}

@[simp]
theorem wp_pure {post : Except ε α → List Write → List Lock → Db → Prop} :
    wp E allowed Rely (pure value : Tx Reply ε α) post writes locks db ↔
      post (.ok value) writes locks db := Iff.rfl

@[simp]
theorem wp_fail {post : Except ε α → List Write → List Lock → Db → Prop} :
    wp E allowed Rely (Tx.fail error : Tx Reply ε α) post writes locks db ↔
      post (.error error) writes locks db := Iff.rfl

/-- Sequencing of fallible bodies: an error skips what follows. -/
theorem wp_tx_bind {body : Tx Reply ε α} {rest : α → Tx Reply ε β}
    {post : Except ε β → List Write → List Lock → Db → Prop} :
    wp E allowed Rely (body >>= rest : Tx Reply ε β) post writes locks db ↔
      wp E allowed Rely body
        (fun result ↦ wp E allowed Rely (Tx.andThen rest result) post) writes locks db :=
  wp_bind

@[simp]
theorem wp_andThen_ok {rest : α → Tx Reply ε β}
    {post : Except ε β → List Write → List Lock → Db → Prop} :
    wp E allowed Rely (Tx.andThen rest (.ok value)) post writes locks db ↔
      wp E allowed Rely (rest value) post writes locks db := Iff.rfl

@[simp]
theorem wp_andThen_error {rest : α → Tx Reply ε β}
    {post : Except ε β → List Write → List Lock → Db → Prop} :
    wp E allowed Rely (Tx.andThen rest (.error error)) post writes locks db ↔
      post (.error error) writes locks db := Iff.rfl

@[simp]
theorem wp_ofExcept {result : Except ε α} {post : Except ε α → List Write → List Lock → Db → Prop} :
    wp E allowed Rely (Tx.ofExcept result : Tx Reply ε α) post writes locks db ↔
      post result writes locks db := by
  cases result <;> rfl

/-- A postcondition for the successful end of a body; nothing is asked of a body that fails. -/
def OnSuccess (post : α → List Write → List Lock → Db → Prop) :
    Except ε α → List Write → List Lock → Db → Prop
  | .ok value => post value
  | .error _ => fun _ _ _ ↦ True

theorem wp_success_bind {body : Tx Reply ε α} {rest : α → Tx Reply ε β}
    {post : β → List Write → List Lock → Db → Prop} :
    wp E allowed Rely (body >>= rest : Tx Reply ε β) (OnSuccess post) writes locks db ↔
      wp E allowed Rely body
        (OnSuccess fun value ↦ wp E allowed Rely (rest value) (OnSuccess post)) writes locks db := by
  have hthen : ∀ result, wp E allowed Rely (Tx.andThen rest result) (OnSuccess post) =
      OnSuccess (fun value ↦ wp E allowed Rely (rest value) (OnSuccess post)) result := by
    intro result
    cases result <;> rfl
  simp only [wp_tx_bind, hthen]

theorem wp_success_mono {body : Tx Reply ε α} {post' : α → List Write → List Lock → Db → Prop}
    (hpost : ∀ a w l d, post a w l d → post' a w l d)
    (h : wp E allowed Rely body (OnSuccess post) writes locks db) :
    wp E allowed Rely body (OnSuccess post') writes locks db := by
  refine wp_mono (fun result w l d hresult ↦ ?_) h
  cases result with
  | ok value => exact hpost value w l d hresult
  | error err => trivial

theorem wp_success_ofExcept {result : Except ε α} :
    wp E allowed Rely (Tx.ofExcept result : Tx Reply ε α) (OnSuccess post) writes locks db ↔
      ∀ value, result = .ok value → post value writes locks db := by
  cases result <;> simp [OnSuccess]

/-- One statement followed by the rest of a body. -/
theorem wp_stmt_bind {stmt : Stmt} {rest : Reply stmt → Tx Reply ε α}
    {post : Except ε α → List Write → List Lock → Db → Prop} :
    wp E allowed Rely (Tx.stmt stmt >>= rest : Tx Reply ε α) post writes locks db ↔
      ∀ ambient db', Rely locks db db' → allowed stmt ambient (E.view db' writes) →
        wp E allowed Rely (rest (E.eval stmt ambient (E.view db' writes)).reply) post
          (writes ++ (E.eval stmt ambient (E.view db' writes)).writes)
          (locks ++ (E.eval stmt ambient (E.view db' writes)).locks) db' := Iff.rfl

end Rules

/-- A verified family of transaction bodies. -/
structure Discipline (body : Call → Program Reply (Except ε ρ))
    (post : Call → Except ε ρ → List Write → List Lock → Db → Prop) : Prop where
  refl : ∀ locks db, Rely locks db db
  trans : ∀ locks a b c, Rely locks a b → Rely locks b c → Rely locks a c
  stable : ∀ call result writes locks db db', post call result writes locks db →
    Rely locks db db' → post call result writes locks db'
  verified : ∀ call db, wp E allowed Rely (body call) (post call) [] [] db
  guarantee : ∀ call result writes locks db others, post call (.ok result) writes locks db →
    (∀ lock ∈ locks, lock ∉ others) → Rely others db (E.view db writes)

/-- A run of whole transactions one after the other, newest first, from `start`. -/
inductive Serial (post : Call → ρ → List Write → Db → Prop) (start : Db) :
    List (Commit Write Call ρ) → Db → Prop
  | nil : Serial post start [] start
  | cons {history : List (Commit Write Call ρ)} {db : Db} (commit : Commit Write Call ρ) :
      Serial post start history db → post commit.call commit.result commit.writes db →
        Serial post start (commit :: history) (E.view db commit.writes)

variable {E allowed Rely} {body : Call → Program Reply (Except ε ρ)}
  {post : Call → Except ε ρ → List Write → List Lock → Db → Prop}

theorem Serial.mono {post post' : Call → ρ → List Write → Db → Prop} {start db : Db}
    {history : List (Commit Write Call ρ)}
    (hpost : ∀ call result writes db, post call result writes db → post' call result writes db)
    (h : Serial E post start history db) : Serial E post' start history db := by
  induction h with
  | nil => exact .nil
  | cons commit _ hcommit ih => exact .cons commit ih (hpost _ _ _ _ hcommit)

/-- Every commit of a serial run met its postcondition on some database of the run. -/
theorem Serial.of_mem {post : Call → ρ → List Write → Db → Prop} {start db : Db}
    {history : List (Commit Write Call ρ)} (h : Serial E post start history db)
    {commit : Commit Write Call ρ} (hmem : commit ∈ history) :
    ∃ before, post commit.call commit.result commit.writes before := by
  induction h with
  | nil => cases hmem
  | @cons history before newest _ hcommit ih =>
    rcases List.mem_cons.mp hmem with rfl | hrest
    · exact ⟨before, hcommit⟩
    · exact ih hrest

/-- An open transaction is where its verification covers it and owns the locks it recorded. -/
def Covered (E : Engine Reply Ambient Db Write Lock) (allowed : Stmt → Ambient → Db → Prop)
    (Rely : List Lock → Db → Db → Prop)
    (post : Call → Except ε ρ → List Write → List Lock → Db → Prop)
    (s : State Reply Db Write Lock Call ε ρ) (tid : ℕ)
    (session : Session Reply Write Lock Call ε ρ) : Prop :=
  wp E allowed Rely session.rest (post session.call) session.writes session.locks s.db ∧
    ∀ lock ∈ session.locks, s.holder lock = some tid

/-- Two open transactions never record the same lock. -/
theorem locks_disjoint {s : State Reply Db Write Lock Call ε ρ} {tid tid' : ℕ} (hne : tid ≠ tid')
    {locks locks' : List Lock} (h : ∀ lock ∈ locks, s.holder lock = some tid)
    (h' : ∀ lock ∈ locks', s.holder lock = some tid') : ∀ lock ∈ locks, lock ∉ locks' := by
  intro lock hlock hlock'
  have heq : some tid = some tid' := (h lock hlock).symm.trans (h' lock hlock')
  exact hne (Option.some.inj heq)

/-- Closing one transaction leaves the locks of the others in place. -/
theorem close_holder_of_ne {s : State Reply Db Write Lock Call ε ρ} {tid tid' : ℕ}
    (hne : tid ≠ tid') {lock : Lock} (h : s.holder lock = some tid') :
    (s.close tid).holder lock = some tid' := by
  simp [State.close, h, Ne.symm hne]

/-- A transaction that is open after another was closed was open before. -/
theorem session_of_close {s : State Reply Db Write Lock Call ε ρ} {tid tid' : ℕ}
    {session : Session Reply Write Lock Call ε ρ} (h : (s.close tid).session tid' = some session) :
    tid ≠ tid' ∧ s.session tid' = some session := by
  by_cases htid : tid' = tid
  · subst htid
    simp [State.close] at h
  · simp only [State.close, Function.update_of_ne htid] at h
    exact ⟨Ne.symm htid, h⟩

namespace Discipline

variable [DecidableEq Lock] (D : Discipline E allowed Rely body post)
include D

/-- Every open transaction of a reachable state is covered by its verification. -/
theorem covered {start : Db} {s : State Reply Db Write Lock Call ε ρ}
    (h : Reaches E body allowed start s) :
    ∀ tid session, s.session tid = some session → Covered E allowed Rely post s tid session := by
  induction h with
  | idle => intro tid session hsession; simp [State.idle] at hsession
  | @step s s' action _ hpermitted hstep ih =>
    intro tid' session hsession
    cases action with
    | start tid call =>
      rw [step_start hstep] at hsession ⊢
      by_cases htid : tid' = tid
      · subst htid
        simp only [Function.update_self, Option.some.injEq] at hsession
        subst hsession
        exact ⟨D.verified call s.db, by simp⟩
      · simp only [Function.update_of_ne htid] at hsession
        exact ih tid' session hsession
    | exec tid ambient =>
      obtain ⟨call, stmt, next, writes, locks, hopen, hfree, rfl⟩ := step_exec hstep
      by_cases htid : tid' = tid
      · subst htid
        simp only [Function.update_self, Option.some.injEq] at hsession
        subst hsession
        obtain ⟨hwp, hheld⟩ := ih tid' _ hopen
        have hallowed : allowed stmt ambient (E.view s.db writes) := by
          simpa only [Permitted, hopen, Option.elim_some, Session.Admits] using hpermitted
        refine ⟨hwp ambient s.db (D.refl _ _) hallowed, ?_⟩
        intro lock hlock
        rcases List.mem_append.mp hlock with hold | hnew
        · simp [hheld lock hold]
        · simp [hnew]
      · simp only [Function.update_of_ne htid] at hsession
        obtain ⟨hwp, hheld⟩ := ih tid' session hsession
        refine ⟨hwp, fun lock hlock ↦ ?_⟩
        have hnot : lock ∉ (E.eval stmt ambient (E.view s.db writes)).locks := by
          intro hmem
          -- the statement could not have run while its peer held the lock
          rcases hfree lock hmem with hnone | hself
          · rw [hheld lock hlock] at hnone
            cases hnone
          · rw [hheld lock hlock] at hself
            exact htid (Option.some.inj hself)
        simpa only [if_neg hnot] using hheld lock hlock
    | commit tid =>
      obtain ⟨call, result, writes, locks, hopen, rfl⟩ := step_commit hstep
      obtain ⟨htid, hsession⟩ := session_of_close hsession
      obtain ⟨hpost, hheld⟩ := ih tid _ hopen
      obtain ⟨hwp, hheld'⟩ := ih tid' session hsession
      have hrely : Rely session.locks s.db (E.view s.db writes) :=
        D.guarantee call result writes locks s.db session.locks hpost
          (locks_disjoint htid hheld hheld')
      exact ⟨wp_stable D.trans (D.stable session.call) hwp hrely,
        fun lock hlock ↦ close_holder_of_ne htid (hheld' lock hlock)⟩
    | abort tid =>
      rw [step_abort hstep] at hsession ⊢
      obtain ⟨htid, hsession⟩ := session_of_close hsession
      obtain ⟨hwp, hheld⟩ := ih tid' session hsession
      exact ⟨hwp, fun lock hlock ↦ close_holder_of_ne htid (hheld lock hlock)⟩

/-- The commits of an interleaving are a serial run, each meeting its postcondition. -/
theorem serial {start : Db} {s : State Reply Db Write Lock Call ε ρ}
    (h : Reaches E body allowed start s) :
    Serial E (fun call result writes db ↦ ∃ locks, post call (.ok result) writes locks db) start
      s.history s.db := by
  induction h with
  | idle => exact .nil
  | @step s s' action hreach _ hstep ih =>
    cases action with
    | start tid call => rw [step_start hstep]; exact ih
    | exec tid ambient =>
      obtain ⟨call, stmt, next, writes, locks, -, -, rfl⟩ := step_exec hstep
      exact ih
    | commit tid =>
      obtain ⟨call, result, writes, locks, hopen, rfl⟩ := step_commit hstep
      exact Serial.cons ⟨call, result, writes⟩ ih ⟨locks, (D.covered hreach tid _ hopen).1⟩
    | abort tid => rw [step_abort hstep]; exact ih

end Discipline

end PaymentRail.Transaction
