import PaymentRail.Outbox.Order
import PaymentRail.Transaction.Alone

/-!
# A relay that is left in peace drains the outbox

Faults delay events and may duplicate them, but they never wedge the relay.  From whatever state
crashes and errors have left, ticks without a fault publish the unsent rows batch by batch, each of
them once, and mark them.
-/

namespace PaymentRail.Outbox.Relay

open Table Transaction

/-- The rows that have not been marked as sent. -/
def State.unsent (s : State) : List Stored := s.outbox.filter fun row ↦ row.sentAt.isNone

/-- A publication delivers the whole batch. -/
def Complete (choice : Choice) : Stmt → Prop
  | .publish msgs => (taken Message.key choice.picks msgs).length = msgs.length
  | _ => True

/-- A call without a fault. -/
structure Faultless (stmt : Stmt) (choice : Choice) : Prop where
  received : choice.ack = .received
  complete : Complete choice stmt

/-! ### One batch -/

section Batch

variable {s : State} {rank : UUID → ℕ} {limit : ℕ}

/-- The unsent rows in the order of a claim. -/
def State.backlog (s : State) (rank : UUID → ℕ) : List Stored :=
  ordered Stored.createdAt (ordered (fun row ↦ rank row.id) s.unsent)

theorem perm_backlog (s : State) (rank : UUID → ℕ) : (s.backlog rank).Perm s.unsent :=
  (List.perm_insertionSort _ _).trans (List.perm_insertionSort _ _)

theorem oldest_eq (hmarks : s.marks = some []) : s.oldest rank limit = (s.backlog rank).take limit := by
  simp [State.oldest, State.backlog, State.unsent, hmarks]

theorem isNone_settle (marks : List UUID) (now : Time) (row : Stored) :
    (row.settle marks now).sentAt.isNone = (row.sentAt.isNone && !marks.contains row.id) := by
  rw [Stored.settle]
  split
  · next hmarked => rw [hmarked, Bool.not_true, Bool.and_false, Option.isNone_some]
  · next hmarked => rw [Bool.eq_false_of_not_eq_true hmarked, Bool.not_false, Bool.and_true]

/-- A commit leaves the rows that were not marked. -/
theorem unsent_settle (now : Time) :
    (s.settle now).unsent = s.unsent.filter fun row ↦ !(s.marks.getD []).contains row.id := by
  calc (s.settle now).unsent
    _ = (s.outbox.filter fun row ↦ row.sentAt.isNone && !(s.marks.getD []).contains row.id).map
        (Stored.settle (s.marks.getD []) now) := by
      rw [State.unsent, State.settle, List.filter_map]
      simp only [Function.comp_def, isNone_settle]
    _ = s.outbox.filter fun row ↦ row.sentAt.isNone && !(s.marks.getD []).contains row.id := by
      rw [List.map_congr_left, List.map_id']
      intro row hrow
      have hunmarked := (Bool.and_eq_true_iff.mp (List.mem_filter.mp hrow).2).2
      rw [Stored.settle, if_neg (by simpa using hunmarked)]
    _ = s.unsent.filter fun row ↦ !(s.marks.getD []).contains row.id := by
      rw [State.unsent, List.filter_filter]
      simp only [Bool.and_comm]

/-- Under distinct identifiers, the rows that are not in the first part are those of the second. -/
theorem filter_append (front back : List Stored)
    (hnodup : ((front ++ back).map fun row ↦ row.id).Nodup) :
    (front ++ back).filter (fun row ↦ !(front.map fun row ↦ row.id).contains row.id) = back := by
  have hfront : front.filter (fun row ↦ !(front.map fun row ↦ row.id).contains row.id) = [] := by
    apply List.filter_eq_nil_iff.mpr
    intro row hrow
    simpa using ⟨row, hrow, rfl⟩
  have hback : back.filter (fun row ↦ !(front.map fun row ↦ row.id).contains row.id) = back := by
    apply List.filter_eq_self.mpr
    intro row hrow
    rw [List.map_append, List.nodup_append'] at hnodup
    have hnew := hnodup.2.2
    simpa using fun other hother hid ↦ hnew (List.mem_map_of_mem hother)
      (hid ▸ List.mem_map_of_mem hrow)
  rw [List.filter_append, hfront, hback, List.nil_append]

end Batch

/-! ### A tick -/

/-- Ticks have published some unsent rows, each of them once, and marked them. -/
structure Advanced (count : ℕ) (s s' : State) : Prop where
  rows : s'.outbox.map Stored.toOutboxRow = s.outbox.map Stored.toOutboxRow
  fewer : s'.unsent.length ≤ s.unsent.length - count
  published : ∃ new, s'.topic = s.topic ++ new ∧
    (new ++ s'.unsent.map Stored.message).Perm (s.unsent.map Stored.message)

theorem Advanced.refl (s : State) : Advanced 0 s s :=
  ⟨rfl, le_rfl, [], (List.append_nil _).symm, .refl _⟩

theorem Advanced.trans {count count' : ℕ} {s s' s'' : State} (h : Advanced count s s')
    (h' : Advanced count' s' s'') : Advanced (count + count') s s'' := by
  obtain ⟨new, htopic, hperm⟩ := h.published
  obtain ⟨new', htopic', hperm'⟩ := h'.published
  refine ⟨h'.rows.trans h.rows, ?_, new ++ new', ?_, ?_⟩
  · have hfewer := h.fewer
    have hfewer' := h'.fewer
    omega
  · rw [htopic', htopic, List.append_assoc]
  · rw [List.append_assoc]
    exact (hperm'.append_left new).trans hperm

theorem Advanced.nodup {count : ℕ} {s s' : State} (h : Advanced count s s')
    (hnodup : (s.outbox.map fun row ↦ row.id).Nodup) : (s'.outbox.map fun row ↦ row.id).Nodup := by
  have hids := congrArg (List.map OutboxRow.id) h.rows
  rw [List.map_map, List.map_map] at hids
  exact hids ▸ hnodup

/-- The open transaction has published a batch and marked it. -/
structure Prepared (batch : List Stored) (s s' : State) : Prop where
  outbox : s'.outbox = s.outbox
  marks : s'.marks = some (batch.map fun row ↦ row.id)
  published : ∃ new, s'.topic = s.topic ++ new ∧ new.Perm (batch.map Stored.message)

/-- The commit of a batch that comes first among the unsent rows. -/
theorem Prepared.settle {s s' : State} {rank : UUID → ℕ} {batch : ℕ}
    (h : Prepared ((s.backlog rank).take batch) s s')
    (hnodup : (s.outbox.map fun row ↦ row.id).Nodup) (now : Time) :
    Advanced batch s (s'.settle now) := by
  have hbacklog := perm_backlog s rank
  have hids : ((s.backlog rank).map fun row ↦ row.id).Nodup :=
    (hbacklog.map _).nodup_iff.mpr (hnodup.sublist (List.filter_sublist.map _))
  have hleft : (s'.settle now).unsent.Perm ((s.backlog rank).drop batch) := by
    have hdrop := filter_append ((s.backlog rank).take batch) ((s.backlog rank).drop batch)
      (by rwa [List.take_append_drop])
    rw [List.take_append_drop] at hdrop
    rw [unsent_settle, h.marks, Option.getD_some, State.unsent, h.outbox, ← hdrop]
    exact (hbacklog.filter _).symm
  refine ⟨?_, ?_, ?_⟩
  · rw [State.settle, h.outbox, List.map_map]
    exact List.map_congr_left fun row _ ↦ Stored.settle_toOutboxRow _ now row
  · rw [hleft.length_eq, List.length_drop, hbacklog.length_eq]
  · obtain ⟨new, htopic, hperm⟩ := h.published
    refine ⟨new, htopic, ?_⟩
    calc
      List.Perm (new ++ (s'.settle now).unsent.map Stored.message)
          (((s.backlog rank).take batch).map Stored.message ++
            ((s.backlog rank).drop batch).map Stored.message) := hperm.append (hleft.map _)
      _ = (s.backlog rank).map Stored.message := by
        rw [← List.map_append, List.take_append_drop]
      List.Perm _ (s.unsent.map Stored.message) := hbacklog.map _

section Tick

variable {s : State} {batch ticks : ℕ}

theorem ensures_call {stmt : Stmt} {post : Reply stmt → State → Prop} :
    ensures eval (fun stmt choice _ ↦ Faultless stmt choice) (call stmt) post s ↔
      ∀ choice, Faultless stmt choice → post (eval stmt choice s).1 (eval stmt choice s).2 := Iff.rfl

theorem Faultless.check {stmt : Stmt} {choice : Choice} (h : Faultless stmt choice) :
    choice.ack.check = .ok () := by
  rw [h.received, Ack.check]

theorem ensures_drainBatch (hmarks : s.marks = some []) :
    ensures eval (fun stmt choice _ ↦ Faultless stmt choice) (drainBatch batch)
      (fun result s' ↦ ∃ n rank, result = .ok n ∧ Prepared ((s.backlog rank).take batch) s s') s := by
  rw [drainBatch, ensures_bind, ensures_call]
  intro claim hclaim
  simp only [eval, hclaim.check, Except.map, oldest_eq hmarks]
  split
  · next hempty =>
    rw [List.isEmpty_iff] at hempty
    refine ⟨0, claim.rank, rfl, rfl, ?_, [], (List.append_nil _).symm, ?_⟩
    · rw [hempty, hmarks, List.map_nil]
    · rw [hempty, List.map_nil]
  · rw [ensures_bind, ensures_call]
    intro publish hpublish
    have hcomplete : (taken Message.key publish.picks
        (((s.backlog claim.rank).take batch).map Stored.message)).length = _ := hpublish.complete
    simp only [eval, hpublish.check, if_pos hcomplete]
    rw [ensures_bind, ensures_call]
    intro mark hmark
    simp only [eval, hmark.check]
    refine ⟨_, claim.rank, rfl, rfl, ?_, _, rfl, ?_⟩
    · rw [hmarks, Option.map_some, List.nil_append]
    · exact (taken_subperm _ _).perm_of_length_le hcomplete.ge

/-- A tick without a fault publishes and marks the next batch. -/
theorem ensures_execTx (hnodup : (s.outbox.map fun row ↦ row.id).Nodup) :
    ensures eval (fun stmt choice _ ↦ Faultless stmt choice) (execTx (drainBatch batch))
      (fun _ s' ↦ Advanced batch s s') s := by
  rw [execTx, ensures_bind, ensures_call]
  intro begin_ hbegin
  simp only [eval, hbegin.check]
  rw [ensures_bind]
  apply ensures_mono (ensures_drainBatch rfl)
  rintro result s₁ ⟨n, rank, rfl, hprepared⟩
  rw [ensures_bind, ensures_call]
  intro commit hcommit
  simp only [eval, hcommit.received]
  have hadvanced := hprepared.settle hnodup commit.now
  exact ⟨hadvanced.rows, hadvanced.fewer, hadvanced.published⟩

theorem ensures_run (hnodup : (s.outbox.map fun row ↦ row.id).Nodup) :
    ensures eval (fun stmt choice _ ↦ Faultless stmt choice) (run batch ticks)
      (fun _ s' ↦ Advanced (batch * ticks) s s') s := by
  induction ticks generalizing s with
  | zero => exact Advanced.refl s
  | succ ticks ih =>
    rw [run, ensures_bind]
    apply ensures_mono (ensures_execTx hnodup)
    intro _ s₁ hfirst
    apply ensures_mono (ih (hfirst.nodup hnodup))
    intro _ s₂ hrest
    rw [Nat.mul_succ, Nat.add_comm]
    exact hfirst.trans hrest

end Tick

/-! ### From every state of the relay -/

/-- The calls of a relay that meets no fault. -/
def faultless : Rules Reply Choice State Happening Job where
  calls _ _ stmt choice _ := Faultless stmt choice
  events _ _ := True

theorem inOrder_of_steps {c : Cluster Reply Choice State Happening Job Unit}
    (hsteps : relay.Steps oneAtATime (.idle .initial) c) : InOrder c.scene.state := by
  have hidle : Secure relay oneAtATime turns (.idle .initial) := Kept.secure_idle inOrder_initial
  exact (kept_turns.sound hidle hsteps).1.inv

theorem advanced_of_alone {c c' : Cluster Reply Choice State Happening Job Unit}
    (h : InOrder c.scene.state) {pid : ℕ} {job : Job}
    (halone : relay.Alone faultless pid job c c' ()) :
    Advanced (job.batch * job.ticks) c.scene.state c'.scene.state :=
  halone.post (fun _ _ _ hfaultless ↦ hfaultless) (ensures_run h.nodup)

theorem sent_of_unsent_nil {s : State} (h : s.unsent = []) {row : Stored} (hrow : row ∈ s.outbox) :
    row.sentAt.isSome = true := by
  have hsent := List.filter_eq_nil_iff.mp h row hrow
  rwa [Bool.not_eq_true, Option.isNone_eq_false_iff] at hsent

theorem Advanced.unsent_eq_nil {count : ℕ} {s s' : State} (h : Advanced count s s')
    (hcount : s.unsent.length ≤ count) : s'.unsent = [] := by
  apply List.length_eq_zero_iff.mp
  have hfewer := h.fewer
  rw [Nat.sub_eq_zero_of_le hcount] at hfewer
  exact Nat.le_zero.mp hfewer

/-- Once nothing is left to send, everything has been delivered. -/
theorem Advanced.delivered {count : ℕ} {s s' : State} (h : Advanced count s s') (hs : InOrder s)
    (hnil : s'.unsent = []) {row : Stored} (hrow : row ∈ s'.outbox) : row.message ∈ s'.topic := by
  have hmem : row.toOutboxRow ∈ s.outbox.map Stored.toOutboxRow := by
    rw [← h.rows]
    exact List.mem_map_of_mem hrow
  obtain ⟨before, hbefore, hsame⟩ := List.mem_map.mp hmem
  have hmessage : before.message = row.message := by
    rw [Stored.message, Stored.message, hsame]
  obtain ⟨new, htopic, hperm⟩ := h.published
  rw [hnil, List.map_nil, List.append_nil] at hperm
  rw [htopic, ← hmessage]
  by_cases hsent : before.sentAt.isSome
  · exact List.mem_append_left _ (hs.delivered before hbefore hsent)
  · apply List.mem_append_right
    apply hperm.mem_iff.mpr
    apply List.mem_map_of_mem
    exact List.mem_filter.mpr ⟨hbefore, by simpa using hsent⟩

/-- From every state that a relay and its predecessors have left, crashes in the middle of a
transaction included, enough ticks without a fault send everything: every row is marked, the topic has
grown by the messages of the rows that had not been marked, each of them once, and no row has been
added or lost. -/
theorem relay_drains_outbox {c c' : Cluster Reply Choice State Happening Job Unit}
    (hsteps : relay.Steps oneAtATime (.idle .initial) c) {pid batch ticks : ℕ}
    (halone : relay.Alone faultless pid ⟨batch, ticks⟩ c c' ())
    (hticks : c.scene.state.unsent.length ≤ batch * ticks) :
    (∀ row ∈ c'.scene.state.outbox, row.sentAt.isSome ∧ row.message ∈ c'.scene.state.topic) ∧
    c'.scene.state.outbox.map Stored.toOutboxRow = c.scene.state.outbox.map Stored.toOutboxRow ∧
    ∃ new, c'.scene.state.topic = c.scene.state.topic ++ new ∧
      new.Perm (c.scene.state.unsent.map Stored.message) := by
  have hinorder := inOrder_of_steps hsteps
  have hadvanced := advanced_of_alone hinorder halone
  have hnil := hadvanced.unsent_eq_nil hticks
  obtain ⟨new, htopic, hperm⟩ := hadvanced.published
  rw [hnil, List.map_nil, List.append_nil] at hperm
  refine ⟨fun row hrow ↦ ?_, hadvanced.rows, new, htopic, hperm⟩
  exact ⟨sent_of_unsent_nil hnil hrow, hadvanced.delivered hinorder hnil hrow⟩

instance (choice : Choice) (stmt : Stmt) : Decidable (Complete choice stmt) :=
  match stmt with
  | .publish msgs =>
    inferInstanceAs (Decidable ((taken Message.key choice.picks msgs).length = msgs.length))
  | .begin | .claimUnsentOutbox _ | .markOutboxSent _ | .commit | .rollback => .isTrue trivial

instance (pid : ℕ) (job : Job) (stmt : Stmt) (choice : Choice) (v : View) :
    Decidable (faultless.calls pid job stmt choice v) :=
  decidable_of_iff (choice.ack = .received ∧ Complete choice stmt)
    ⟨fun ⟨hreceived, hcomplete⟩ ↦ ⟨hreceived, hcomplete⟩, fun h ↦ ⟨h.received, h.complete⟩⟩

instance (tx : Happening) (v : View) : Decidable (faultless.events tx v) :=
  inferInstanceAs (Decidable True)

/-- The job of a process that has ended. -/
def ended : Option (Job × Running Unit) → Option (ℕ × ℕ)
  | some (job, .done _) => some (job.batch, job.ticks)
  | _ => none

theorem of_ended {process : Option (Job × Running Unit)} {batch ticks : ℕ}
    (h : ended process = some (batch, ticks)) : process = some (⟨batch, ticks⟩, .done ()) := by
  unfold ended at h
  split at h
  · cases h
    rfl
  · cases h

/-- A relay has published one of two events of an aggregate and crashed; the next one sends both, one
in each tick. -/
theorem relay_drains_outbox_sample :
    ∃ c c', relay.Steps oneAtATime (.idle .initial) c ∧ relay.Alone faultless 1 ⟨1, 2⟩ c c' () ∧
      c.scene.state.topic.length = 1 ∧ c.scene.state.unsent.length = 2 ∧
      (∀ row ∈ c'.scene.state.outbox, row.sentAt.isSome ∧ row.message ∈ c'.scene.state.topic) := by
  have hrun : (relay.run oneAtATime (.idle .initial) (sampleEvents ++
      [.spawn 0 ⟨2, 1⟩] ++ List.replicate 3 (.call 0 ⟨3, .received, fun _ ↦ 0, ["7"]⟩) ++
      [.crash 0])).map (fun c ↦
        (c.scene.state.topic.length == 1) && (c.scene.state.unsent.length == 2) &&
        (c.process 1).isNone && ((relay.run faultless (relay.started 1 ⟨1, 2⟩ c)
          ((List.replicate 10 ⟨4, .received, fun _ ↦ 0, ["7"]⟩).map (.call 1))).any fun c' ↦
            ended (c'.process 1) = some (1, 2))) = some true := by
    decide +kernel
  obtain ⟨c, hc, hchecks⟩ := Option.map_eq_some_iff.mp hrun
  simp only [Bool.and_eq_true, beq_iff_eq, decide_eq_true_eq, Option.any_eq_true,
    Option.isNone_iff_eq_none] at hchecks
  obtain ⟨⟨⟨htopic, hunsent⟩, hfree⟩, c', hc', hended⟩ := hchecks
  have hsteps := Sharing.steps_of_run hc
  have halone := Sharing.alone_of_run hfree hc' (of_ended hended)
  exact ⟨c, c', hsteps, halone, htopic, hunsent, (relay_drains_outbox hsteps halone hunsent.le).1⟩

end PaymentRail.Outbox.Relay
