import PaymentRail.Transaction.Alone
import PaymentRail.Webhook.FanOut
import Mathlib.Algebra.BigOperators.Group.Finset.Basic

/-!
# The consumer catches up

A consumer that is left in peace reads on from the committed offsets, whatever the readers before it
have left.  With every round one message fewer is unread, and where none is left, everything on the
topic has been fanned out.
-/

namespace PaymentRail.Webhook

open Transaction Outbox Table

/-- What a call of a consumer in peace meets: an answer, a message that is left to read, and new
identifiers. -/
def Attentive (choice : Choice) (s : State) : Stmt → Prop
  | .fetchMessage reader => choice.ack = .received ∧ ∃ position, s.readers[reader]? = some position ∧
      position choice.partition < (s.topic choice.partition).length
  | .fanOutDelivery params => choice.ack = .received ∧
      ((s.deliveries ++ fannedOut s.subscriptions s.deliveries params choice.newID choice.now).map
        Delivery.id).Nodup
  | _ => choice.ack = .received

/-- The messages of the first partitions whose offset has not been committed. -/
def State.unread (s : State) (partitions : ℕ) : ℕ :=
  ∑ partition ∈ Finset.range partitions, ((s.topic partition).length - s.committed partition)

/-- A reader of the group that has committed all it has read. -/
structure Current (reader : ℕ) (s : State) : Prop where
  position : s.readers[reader]? = some s.committed
  last : reader + 1 = s.readers.length

/-- The topic and the events are as they were. -/
structure SameTopic (s s' : State) : Prop where
  topic : s'.topic = s.topic
  emitted : s'.emitted = s.emitted

theorem Effect.sameTopic {stmt : Stmt} {choice : Choice} {s s' : State}
    (h : Effect choice s stmt s') : SameTopic s s' := by
  cases h <;> exact ⟨rfl, rfl⟩

theorem sameTopic_subscribe (subscriptions : List Subscription) (s : State) :
    SameTopic s (occur (.subscribe subscriptions) s) := by
  rw [occur]
  split
  · exact ⟨rfl, rfl⟩
  · exact ⟨rfl, rfl⟩

section Consumer

variable {s : State} {reader partitions rounds : ℕ}

theorem ensures_attentive {stmt : Stmt} {post : Reply stmt → State → Prop} :
    ensures eval (fun stmt choice s ↦ Attentive choice s stmt) (call stmt) post s ↔
      ∀ choice, Attentive choice s stmt → post (eval stmt choice s).1 (eval stmt choice s).2 :=
  Iff.rfl

/-- A message is fanned out, or it is poison. -/
theorem ensures_handle (value : Json) :
    ensures eval (fun stmt choice s ↦ Attentive choice s stmt) (handle value)
      (fun result s' ↦ skippable result = true ∧ SameTopic s s' ∧ s'.readers = s.readers ∧
        s'.committed = s.committed) s := by
  rw [handle]
  split
  · exact ⟨rfl, ⟨rfl, rfl⟩, rfl, rfl⟩
  · split
    · exact ⟨rfl, ⟨rfl, rfl⟩, rfl, rfl⟩
    · rw [fanOut, ensures_bind, ensures_attentive]
      rintro choice ⟨hreceived, hnodup⟩
      simp only [eval, if_pos hnodup, settle_received hreceived]
      exact ⟨rfl, ⟨rfl, rfl⟩, rfl, rfl⟩

/-- Committing the next message of a partition. -/
theorem unread_commit {partition : ℕ} (hpartition : partition < partitions)
    (hunread : s.committed partition < (s.topic partition).length) {s' : State}
    (htopic : s'.topic = s.topic)
    (hcommitted : s'.committed =
      Function.update s.committed partition (s.committed partition + 1)) :
    s'.unread partitions + 1 = s.unread partitions := by
  have hmem : partition ∈ Finset.range partitions := Finset.mem_range.mpr hpartition
  rw [State.unread, State.unread, htopic, hcommitted, ← Finset.add_sum_erase _ _ hmem,
    ← Finset.add_sum_erase _ _ hmem, Function.update_self]
  have hothers : ∀ other ∈ (Finset.range partitions).erase partition,
      (s.topic other).length -
          Function.update s.committed partition (s.committed partition + 1) other =
        (s.topic other).length - s.committed other := by
    intro other hother
    rw [Function.update_of_ne (Finset.ne_of_mem_erase hother)]
  rw [Finset.sum_congr rfl hothers]
  omega

theorem ensures_consume (h : Current reader s)
    (hpartitions : ∀ partition, partitions ≤ partition → s.topic partition = [])
    (hrounds : s.unread partitions ≤ rounds) :
    ensures eval (fun stmt choice s ↦ Attentive choice s stmt) (consume reader rounds)
      (fun result s' ↦ result = .ok () ∧ SameTopic s s' ∧ s'.unread partitions = 0) s := by
  induction rounds generalizing s with
  | zero => exact ⟨rfl, ⟨rfl, rfl⟩, Nat.le_zero.mp hrounds⟩
  | succ rounds ih =>
    rw [consume, ensures_bind, ensures_attentive]
    rintro fetch ⟨hreceived, position, hposition, hunread⟩
    obtain rfl : s.committed = position := Option.some.inj (h.position.symm.trans hposition)
    have hvalue := List.getElem?_eq_getElem hunread
    have hpartition : fetch.partition < partitions := by
      by_contra hlarge
      rw [hpartitions _ (Nat.le_of_not_lt hlarge)] at hunread
      exact Nat.not_lt_zero _ hunread
    simp only [eval, hposition, hvalue, settle_received hreceived]
    rw [ensures_bind]
    apply ensures_mono (ensures_handle _)
    rintro herr s₁ ⟨hskippable, hsame, hreaders, hcommitted⟩
    rw [if_pos hskippable, ensures_bind, ensures_attentive]
    intro commit hreceived
    have hlast : reader + 1 = s₁.readers.length := by
      rw [hreaders, State.advance, List.length_set, h.last]
    have hreceived : commit.ack = .received := hreceived
    simp only [eval, if_pos hlast, settle_received hreceived]
    have hnext : (s₁.commit ⟨fetch.partition, s.committed fetch.partition,
        (s.topic fetch.partition)[s.committed fetch.partition]⟩).unread partitions + 1 =
        s.unread partitions := by
      apply unread_commit hpartition hunread
      · exact hsame.topic
      · rw [State.commit, hcommitted]
        rfl
    apply ensures_mono (ih ?_ ?_ ?_)
    · rintro result s₂ ⟨hresult, hsame', hnone⟩
      exact ⟨hresult, ⟨hsame'.topic.trans hsame.topic, hsame'.emitted.trans hsame.emitted⟩, hnone⟩
    · refine ⟨?_, hlast⟩
      have hreader : reader < s.readers.length := Nat.lt_of_succ_le h.last.le
      rw [State.commit, hreaders, hcommitted, State.advance, List.getElem?_set_self hreader]
    · intro partition hlarge
      exact (congrFun hsame.topic partition).trans (hpartitions partition hlarge)
    · omega

theorem ensures_consumer {p : Platform}
    (hpartitions : ∀ partition, partitions ≤ partition → s.topic partition = [])
    (hrounds : s.unread partitions ≤ rounds) :
    ensures eval (fun stmt choice s ↦ Attentive choice s stmt) (main p (.consumer rounds))
      (fun result s' ↦ result = .ok () ∧ SameTopic s s' ∧ s'.unread partitions = 0) s := by
  rw [main, ensures_bind, ensures_attentive]
  intro choice _
  have hcurrent : Current s.readers.length { s with readers := s.readers ++ [s.committed] } :=
    ⟨List.getElem?_concat_length, by simp⟩
  apply ensures_mono (ensures_consume hcurrent hpartitions hrounds)
  rintro result s' ⟨hresult, hsame, hunread⟩
  exact ⟨hresult, ⟨hsame.topic, hsame.emitted⟩, hunread⟩

end Consumer

/-- The calls of a consumer in peace. -/
def attentive : Rules Reply Choice State Happening Job where
  calls _ _ stmt choice v := Attentive choice v.state stmt
  events _ _ := True

theorem grown_of_steps {p : Platform}
    {c c' : Cluster Reply Choice State Happening Job (Except Err Unit)}
    (hsteps : (webhookd p).Steps .none c c') : Grown c.scene.state c'.scene.state := by
  apply Sharing.invariant_of_steps ?_ ?_ (Grown.refl c.scene.state) hsteps
  · intro stmt choice s h
    exact h.trans (effect_eval stmt choice s).grown
  · intro event v _ h
    exact h.trans (grown_occur event v.state)

/-- Where nothing is unread, every message has been handled. -/
theorem Traced.handled_of_unread {s : State} (h : Traced s) {partitions : ℕ}
    (hpartitions : ∀ partition, partitions ≤ partition → s.topic partition = [])
    (hunread : s.unread partitions = 0) {partition : ℕ} {value : Json}
    (hvalue : value ∈ s.topic partition) : Handled s value := by
  obtain ⟨offset, hoffset, hvalue⟩ := List.getElem_of_mem hvalue
  have hpartition : partition < partitions := by
    by_contra hlarge
    rw [hpartitions _ (Nat.le_of_not_lt hlarge)] at hoffset
    exact Nat.not_lt_zero _ hoffset
  have hzero := (Finset.sum_eq_zero_iff.mp hunread) partition (Finset.mem_range.mpr hpartition)
  obtain ⟨value', hvalue', hhandled⟩ := h.committed partition offset (by omega)
  rw [List.getElem?_eq_getElem hoffset, hvalue] at hvalue'
  exact Option.some.inj hvalue' ▸ hhandled

/-- A consumer that catches up leaves no event on the topic that has not been fanned out. -/
theorem handled_of_alone {p : Platform}
    {c c' : Cluster Reply Choice State Happening Job (Except Err Unit)}
    (hsteps : (webhookd p).Steps .none (.idle .initial) c) {pid rounds partitions : ℕ}
    {result : Except Err Unit}
    (halone : (webhookd p).Alone attentive pid (.consumer rounds) c c' result)
    (hpartitions : ∀ partition, partitions ≤ partition → c.scene.state.topic partition = [])
    (hrounds : c.scene.state.unread partitions ≤ rounds) :
    SameTopic c.scene.state c'.scene.state ∧
      ∀ partition, ∀ value ∈ c'.scene.state.topic partition, Handled c'.scene.state value := by
  obtain ⟨-, hsame, hunread⟩ :=
    halone.post (fun _ _ _ hcalls ↦ hcalls) (ensures_consumer (p := p) hpartitions hrounds)
  refine ⟨hsame, fun partition value hvalue ↦ ?_⟩
  apply (traced_of_steps (hsteps.trans halone.steps)).handled_of_unread ?_ hunread hvalue
  intro partition hlarge
  rw [hsame.topic]
  exact hpartitions partition hlarge

end PaymentRail.Webhook
