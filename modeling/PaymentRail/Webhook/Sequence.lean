import PaymentRail.Webhook.Consumer

/-!
# Events are fanned out in the order of their partition

A consumer handles the messages of a partition one after the other, and one that takes over starts at
the committed offset, below which everything has been handled.  So whenever an event is fanned out, every
message before it on its partition has been fanned out already, whichever consumers did that and however
often they crashed.
-/

namespace PaymentRail.Webhook

open Transaction Outbox Table

/-- Every fan-out came in turn after the ones before it. -/
def InSequence (s : State) : Prop :=
  ∀ i entry, s.fanned[i]? = some entry →
    ∃ partition offset, InTurn s ((s.fanned.take i).map Prod.fst) entry.1 partition offset

theorem InTurn.grown {s s' : State} {done : List UUID} {id : UUID} {partition offset : ℕ}
    (h : InTurn s done id partition offset) (hgrown : Grown s s') :
    InTurn s' done id partition offset := by
  constructor
  · obtain ⟨row, hrow, hid, value, hmessage, hvalue⟩ := h.own
    exact ⟨row, hgrown.emitted hrow, hid, value, hmessage, hgrown.getElem?_topic hvalue⟩
  · intro earlier hearlier
    obtain ⟨value, hvalue, row, hrow, hmessage, hdone⟩ := h.behind earlier hearlier
    exact ⟨value, hgrown.getElem?_topic hvalue, row, hgrown.emitted hrow, hmessage, hdone⟩

theorem InSequence.same {s s' : State} (h : InSequence s) (hgrown : Grown s s')
    (hfanned : s'.fanned = s.fanned) : InSequence s' := by
  rw [InSequence, hfanned]
  intro i entry hentry
  obtain ⟨partition, offset, hturn⟩ := h i entry hentry
  exact ⟨partition, offset, hturn.grown hgrown⟩

theorem InSequence.append {s s' : State} (h : InSequence s) (hgrown : Grown s s')
    {entry : UUID × List Subscription} (hfanned : s'.fanned = s.fanned ++ [entry])
    {partition offset : ℕ} (hturn : InTurn s (s.fanned.map Prod.fst) entry.1 partition offset) :
    InSequence s' := by
  rw [InSequence, hfanned]
  intro i other hother
  rcases Nat.lt_or_ge i s.fanned.length with hlt | hge
  · rw [List.getElem?_append_left hlt] at hother
    rw [List.take_append_of_le_length hlt.le]
    obtain ⟨partition, offset, hturn⟩ := h i other hother
    exact ⟨partition, offset, hturn.grown hgrown⟩
  · rw [List.getElem?_append_right hge] at hother
    obtain ⟨hzero, rfl⟩ : i - s.fanned.length = 0 ∧ entry = other := by
      rcases hindex : i - s.fanned.length with _ | k
      · rw [hindex] at hother
        exact ⟨rfl, Option.some.inj hother⟩
      · rw [hindex] at hother
        cases hother
    obtain rfl : i = s.fanned.length := by omega
    rw [List.take_left]
    exact ⟨partition, offset, hturn.grown hgrown⟩

/-! ### One call -/

theorem InSequence.effect {s s' : State} {stmt : Stmt} {choice : Choice} (h : InSequence s)
    (heffect : Effect choice s stmt s') (hnext : NextIn s stmt) : InSequence s' := by
  have hgrown := heffect.grown
  cases heffect with
  | fanOut params =>
    obtain ⟨-, partition, offset, hturn⟩ := hnext
    exact h.append hgrown rfl hturn
  | _ => exact h.same hgrown rfl

theorem InSequence.occur {s : State} (h : InSequence s) (event : Happening) :
    InSequence (Webhook.occur event s) := by
  refine h.same (grown_occur event s) ?_
  cases event <;> simp only [Webhook.occur] <;> split <;> rfl

/-! ### The runs of the service -/

theorem kept_inSequence (p : Platform) :
    Kept (webhookd p) .none (tracking fun v ↦ InSequence v.state) := by
  apply kept_tracking
  · intro pid job v
    apply cover_worker
    intro v stmt choice hinv hstmt
    exact hinv.effect (effect_eval stmt choice v.state) (nextIn_of_delivers hstmt v.state)
  · intro v pid job stmt choice hinv _ hnext
    exact hinv.effect (effect_eval stmt choice v.state) hnext
  · intro v pid job choice subscriptionID hinv
    exact hinv.effect (effect_eval _ choice v.state) trivial
  · intro event v hinv _
    exact hinv.occur event

theorem inSequence_of_steps {p : Platform}
    {c : Cluster Reply Choice State Happening Job (Except Err Unit)}
    (hsteps : (webhookd p).Steps .none (.idle .initial) c) : InSequence c.scene.state := by
  apply (tracking_of_steps (kept_inSequence p) _ hsteps).2
  intro i entry hentry
  cases hentry

end PaymentRail.Webhook
