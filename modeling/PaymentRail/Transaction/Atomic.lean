import PaymentRail.Transaction.Interference

/-!
# One transaction at a time

`execute` runs a body with nothing in between, `atomically` also commits or rolls back.  A body that
is verified against interference is verified for this executor as a special case, and an atomic run
is one of the interleavings of `PaymentRail.Transaction.ReadCommitted`.
-/

namespace PaymentRail.Transaction

variable {Stmt : Type} {Reply : Stmt → Type} {Ambient Db Write Lock Call ε ρ α β : Type}

/-- Run a program on a database that no one else changes; the result and its writes. -/
def execute (E : Engine Reply Ambient Db Write Lock) (db : Db) :
    Program Reply α → (ℕ → Ambient) → List Write → α × List Write
  | .done result, _, writes => (result, writes)
  | .call stmt next, ambient, writes =>
    execute E db (next (E.eval stmt (ambient 0) (E.view db writes)).reply)
      (fun n ↦ ambient (n + 1)) (writes ++ (E.eval stmt (ambient 0) (E.view db writes)).writes)

/-- Run a body in a transaction of its own: COMMIT on success, ROLLBACK on error. -/
def atomically (E : Engine Reply Ambient Db Write Lock) (body : Program Reply (Except ε ρ))
    (ambient : ℕ → Ambient) (db : Db) : Except ε ρ × Db :=
  match execute E db body ambient [] with
  | (.ok result, writes) => (.ok result, E.view db writes)
  | (.error err, _) => (.error err, db)

variable {E : Engine Reply Ambient Db Write Lock}

/-- Every statement that a program runs on its own is one that `allowed` admits. -/
def Admitted (E : Engine Reply Ambient Db Write Lock) (allowed : Stmt → Ambient → Db → Prop)
    (db : Db) : Program Reply α → (ℕ → Ambient) → List Write → Prop
  | .done _, _, _ => True
  | .call stmt next, ambient, writes =>
    allowed stmt (ambient 0) (E.view db writes) ∧
      Admitted E allowed db (next (E.eval stmt (ambient 0) (E.view db writes)).reply)
        (fun n ↦ ambient (n + 1)) (writes ++ (E.eval stmt (ambient 0) (E.view db writes)).writes)

instance decidableAdmitted (allowed : Stmt → Ambient → Db → Prop)
    [∀ stmt ambient db, Decidable (allowed stmt ambient db)] (db : Db) :
    (program : Program Reply α) → (ambient : ℕ → Ambient) → (writes : List Write) →
      Decidable (Admitted E allowed db program ambient writes)
  | .done _, _, _ => isTrue trivial
  | .call stmt next, ambient, writes =>
    have := decidableAdmitted allowed db
      (next (E.eval stmt (ambient 0) (E.view db writes)).reply) (fun n ↦ ambient (n + 1))
      (writes ++ (E.eval stmt (ambient 0) (E.view db writes)).writes)
    inferInstanceAs (Decidable (_ ∧ _))

theorem admitted_unrestricted (db : Db) (program : Program Reply α) (ambient : ℕ → Ambient)
    (writes : List Write) : Admitted E unrestricted db program ambient writes := by
  induction program generalizing ambient writes with
  | done result => trivial
  | call stmt next ih => exact ⟨trivial, ih _ _ _⟩

/-- A verified program ends in its postcondition when it runs alone. -/
theorem wp_execute {allowed : Stmt → Ambient → Db → Prop} {Rely : List Lock → Db → Db → Prop}
    (hrefl : ∀ locks db, Rely locks db db) {program : Program Reply α}
    {post : α → List Write → List Lock → Db → Prop} {db : Db} {writes : List Write}
    {locks : List Lock} {ambient : ℕ → Ambient}
    (h : wp E allowed Rely program post writes locks db)
    (hadmitted : Admitted E allowed db program ambient writes) :
    ∃ locks', post (execute E db program ambient writes).1 (execute E db program ambient writes).2
      locks' db := by
  induction program generalizing ambient writes locks with
  | done result => exact ⟨locks, h⟩
  | call stmt next ih => exact ih _ (h (ambient 0) db (hrefl _ _) hadmitted.1) hadmitted.2

/-- A transaction that ran alone committed what its postcondition describes, or changed nothing. -/
theorem atomically_cases {Rely : List Lock → Db → Db → Prop} (hrefl : ∀ locks db, Rely locks db db)
    {body : Program Reply (Except ε ρ)}
    {post : Except ε ρ → List Write → List Lock → Db → Prop} {db : Db}
    (h : wp E unrestricted Rely body post [] [] db) (ambient : ℕ → Ambient) :
    (∃ result writes locks, post (.ok result) writes locks db ∧
      atomically E body ambient db = (.ok result, E.view db writes)) ∨
    ∃ err, atomically E body ambient db = (.error err, db) := by
  obtain ⟨locks, hpost⟩ := wp_execute hrefl h (admitted_unrestricted db body ambient [])
  unfold atomically
  rcases hrun : execute E db body ambient [] with ⟨result | result, writes⟩
  · exact .inr ⟨result, rfl⟩
  · rw [hrun] at hpost
    exact .inl ⟨result, writes, locks, hpost, rfl⟩

/-! ### Verification without interference -/

/-- Nobody else commits anything. -/
def alone (_ : List Lock) (db db' : Db) : Prop := db = db'

theorem alone_refl (locks : List Lock) (db : Db) : alone locks db db := rfl

/-- A postcondition for a body that must not fail. -/
def Succeeds (post : α → List Write → List Lock → Db → Prop) :
    Except ε α → List Write → List Lock → Db → Prop
  | .ok value => post value
  | .error _ => fun _ _ _ ↦ False

section Alone

variable {allowed : Stmt → Ambient → Db → Prop} {Rely : List Lock → Db → Db → Prop}
  {writes : List Write} {locks : List Lock} {db : Db}
  {post : α → List Write → List Lock → Db → Prop}

/-- A body that is verified against interference is verified without it, and then ends on the
database it started on. -/
theorem wp_alone (hrefl : ∀ locks db, Rely locks db db) {program : Program Reply α}
    (h : wp E allowed Rely program post writes locks db) :
    wp E allowed alone program (fun result writes' locks' after ↦
      after = db ∧ post result writes' locks' db) writes locks db := by
  induction program generalizing writes locks with
  | done result => exact ⟨rfl, h⟩
  | call stmt next ih =>
    rintro ambient _ rfl hallowed
    exact ih _ (h ambient _ (hrefl _ _) hallowed)

theorem wp_alone_success (hrefl : ∀ locks db, Rely locks db db) {body : Tx Reply ε α}
    {post' : α → List Write → List Lock → Db → Prop}
    (h : wp E allowed Rely body (OnSuccess post) writes locks db)
    (hpost : ∀ value writes' locks', post value writes' locks' db → post' value writes' locks' db) :
    wp E allowed alone body (OnSuccess post') writes locks db := by
  refine wp_mono (fun result writes' locks' after hresult ↦ ?_) (wp_alone hrefl h)
  obtain ⟨rfl, hresult⟩ := hresult
  cases result with
  | ok value => exact hpost value writes' locks' hresult
  | error err => trivial

theorem wp_succeeds_bind {body : Tx Reply ε α} {rest : α → Tx Reply ε β}
    {post : β → List Write → List Lock → Db → Prop} :
    wp E allowed Rely (body >>= rest : Tx Reply ε β) (Succeeds post) writes locks db ↔
      wp E allowed Rely body
        (Succeeds fun value ↦ wp E allowed Rely (rest value) (Succeeds post)) writes locks db := by
  have hthen : ∀ result, wp E allowed Rely (Tx.andThen rest result) (Succeeds post) =
      Succeeds (fun value ↦ wp E allowed Rely (rest value) (Succeeds post)) result := by
    intro result
    cases result <;> rfl
  simp only [wp_tx_bind, hthen]

theorem wp_succeeds_mono {body : Tx Reply ε α} {post' : α → List Write → List Lock → Db → Prop}
    (hpost : ∀ a w l d, post a w l d → post' a w l d)
    (h : wp E allowed Rely body (Succeeds post) writes locks db) :
    wp E allowed Rely body (Succeeds post') writes locks db := by
  refine wp_mono (fun result w l d hresult ↦ ?_) h
  cases result with
  | ok value => exact hpost value w l d hresult
  | error err => exact hresult

/-- A transaction that cannot fail commits what its postcondition describes. -/
theorem atomically_succeeds {body : Program Reply (Except ε ρ)}
    {post : ρ → List Write → List Lock → Db → Prop} {ambient : ℕ → Ambient}
    (h : wp E allowed alone body (Succeeds post) [] [] db)
    (hadmitted : Admitted E allowed db body ambient []) :
    ∃ result writes locks, post result writes locks db ∧
      atomically E body ambient db = (.ok result, E.view db writes) := by
  obtain ⟨locks, hpost⟩ := wp_execute alone_refl h hadmitted
  unfold atomically
  rcases hrun : execute E db body ambient [] with ⟨err | result, writes⟩
  · rw [hrun] at hpost
    exact hpost.elim
  · rw [hrun] at hpost
    exact ⟨result, writes, locks, hpost, rfl⟩

end Alone

section Sequencing

variable {db : Db} {ambient : ℕ → Ambient} {writes : List Write}

/-- How many statements a program runs. -/
def length (E : Engine Reply Ambient Db Write Lock) (db : Db) :
    Program Reply α → (ℕ → Ambient) → List Write → ℕ
  | .done _, _, _ => 0
  | .call stmt next, ambient, writes =>
    length E db (next (E.eval stmt (ambient 0) (E.view db writes)).reply)
      (fun n ↦ ambient (n + 1)) (writes ++ (E.eval stmt (ambient 0) (E.view db writes)).writes) + 1

end Sequencing

variable [DecidableEq Lock] {body : Call → Program Reply (Except ε ρ)}

/-- The open transaction `tid` may run the rest of its body alone, to its end. -/
theorem schedule_execute {tid : ℕ} {call : Call} (program : Program Reply (Except ε ρ))
    (ambient : ℕ → Ambient) (writes : List Write) (locks : List Lock)
    (s : State Reply Db Write Lock Call ε ρ)
    (hopen : s.session tid = some ⟨call, program, writes, locks⟩)
    (hfree : ∀ lock, s.holder lock = none ∨ s.holder lock = some tid) :
    ∃ actions s' locks', schedule E body s actions = some s' ∧
      s'.session = Function.update s.session tid
        (some ⟨call, .done (execute E s.db program ambient writes).1,
          (execute E s.db program ambient writes).2, locks'⟩) ∧
      s'.db = s.db ∧ s'.history = s.history ∧
      ∀ lock, s'.holder lock = none ∨ s'.holder lock = some tid := by
  induction program generalizing s ambient writes locks with
  | done result =>
    refine ⟨[], s, locks, rfl, ?_, rfl, rfl, hfree⟩
    rw [execute, ← hopen, Function.update_eq_self]
  | call stmt next ih =>
    let effect := E.eval stmt (ambient 0) (E.view s.db writes)
    let mid : State Reply Db Write Lock Call ε ρ :=
      { s with
        session := Function.update s.session tid
          (some ⟨call, next effect.reply, writes ++ effect.writes, locks ++ effect.locks⟩)
        holder := fun lock ↦ if lock ∈ effect.locks then some tid else s.holder lock }
    have hstep : step E body s (.exec tid (ambient 0)) = some mid := by
      simp only [step, hopen]
      exact if_pos fun lock _ ↦ hfree lock
    have hmid : ∀ lock, mid.holder lock = none ∨ mid.holder lock = some tid := by
      intro lock
      by_cases hlock : lock ∈ effect.locks
      · exact .inr (if_pos hlock)
      · simpa only [mid, if_neg hlock] using hfree lock
    obtain ⟨actions, s', locks', hrun, hsession, hdb, hhistory, hfree'⟩ :=
      ih effect.reply (fun n ↦ ambient (n + 1)) (writes ++ effect.writes) (locks ++ effect.locks)
        mid (Function.update_self _ _ _) hmid
    refine ⟨.exec tid (ambient 0) :: actions, s', locks', ?_, ?_, hdb, hhistory, hfree'⟩
    · rw [schedule, hstep]
      exact hrun
    · rw [hsession]
      exact Function.update_idem _ _ _

/-- An atomic run that commits is one of the interleavings: the schedule that starts the
transaction, runs it to its end and commits it. -/
theorem reaches_atomically (call : Call) (ambient : ℕ → Ambient) (db : Db) (result : ρ)
    (hok : (atomically E (body call) ambient db).1 = .ok result) :
    ∃ s : State Reply Db Write Lock Call ε ρ, Reaches E body unrestricted db s ∧
      s.db = (atomically E (body call) ambient db).2 := by
  let opened : State Reply Db Write Lock Call ε ρ :=
    { db := db
      session := Function.update (fun _ ↦ none) 0 (some ⟨call, body call, [], []⟩)
      holder := fun _ ↦ none
      history := [] }
  have hstart : step E body (State.idle db) (.start 0 call) = some opened := rfl
  have hopened : Reaches E body unrestricted db opened :=
    Reaches.idle.step (permitted_unrestricted _ _) hstart
  have hsession : opened.session 0 = some ⟨call, body call, [], []⟩ := by
    simp [opened]
  obtain ⟨actions, s', locks', hrun, hsession, hdb, -, -⟩ :=
    schedule_execute (body call) ambient [] [] opened hsession (fun _ ↦ .inl rfl)
  have hreach := reaches_of_schedule hopened hrun (permittedRun_unrestricted _ _)
  unfold atomically at hok ⊢
  rcases hexec : execute E db (body call) ambient [] with ⟨outcome, writes⟩
  rw [hexec] at hok
  have hsession0 : s'.session 0 = some ⟨call, .done (execute E db (body call) ambient []).1,
      (execute E db (body call) ambient []).2, locks'⟩ := by
    rw [hsession]
    exact Function.update_self _ _ _
  rw [hexec] at hsession0
  cases outcome with
  | error err => cases hok
  | ok value =>
    have hstep : step E body s' (.commit 0 : Action Call Ambient) = some { s'.close 0 with
        db := E.view s'.db writes
        history := ⟨call, value, writes⟩ :: s'.history } := by
      simp only [step, hsession0]
    exact ⟨_, hreach.step (permitted_unrestricted _ _) hstep, congrArg (E.view · writes) hdb⟩

end PaymentRail.Transaction
