import PaymentRail.Webhook.Service

/-!
# From an event to its deliveries

The relay may publish an event any number of times and the consumer may handle a message any number of
times.  The identifier of the outbox row goes through the envelope, the topic and the parser unchanged,
so `ON CONFLICT DO NOTHING` leaves one row for an event and a subscription.  `Traced` says what this comes
to in a state, and every call and every event from elsewhere keeps it.
-/

namespace PaymentRail.Webhook

open Transaction Outbox Table

/-! ### Messages -/

section Messages

variable {event : Event} {id : UUID} {now : Time} {value : Json}

theorem parseEnvelope_message (h : message (event.row id now) = some value) :
    parseEnvelope value = .ok (Envelope.received (event.row id now).payload) :=
  parseEnvelope_marshal h rfl

/-- The message of an event is never poison: it is fanned out under the identifier of its row. -/
theorem handle_message (h : message (event.row id now) = some value) :
    handle value = fanOut id event.type value := by
  have hid : UUID.parse (Envelope.received (event.row id now).payload).id = .ok id :=
    UUID.parse_string id
  simp only [handle, parseEnvelope_message h, hid]
  rfl

end Messages

/-- The event and the subscription of a row. -/
def Delivery.pair (row : Delivery) : UUID × UUID := (row.eventID, row.subscriptionID)

theorem Rewrites.pair_eq {stmt : Stmt} {row row' : Delivery} (h : Rewrites stmt row row') :
    row'.pair = row.pair := by
  cases h <;> rfl

/-- The message is one of an event that has been fanned out. -/
def Handled (s : State) (value : Json) : Prop :=
  ∃ row ∈ s.emitted, message row = some value ∧ row.id ∈ s.fanned.map Prod.fst

/-- All messages before a position have been handled. -/
def Below (s : State) (position : ℕ → ℕ) : Prop :=
  ∀ partition, ∀ offset < position partition,
    ∃ value, (s.topic partition)[offset]? = some value ∧ Handled s value

/-- The messages come from emitted events, committed ones have been handled, and the rows are those of
the fan-outs, one for each event and subscription. -/
structure Traced (s : State) : Prop where
  nodup : (s.emitted.map OutboxRow.id).Nodup
  emitted : ∀ row ∈ s.emitted, ∃ event id now, row = Event.row event id now ∧ (message row).isSome
  topic : ∀ partition, ∀ value ∈ s.topic partition, ∃ row ∈ s.emitted, message row = some value
  committed : Below s s.committed
  subscriptions : (s.subscriptions.map Subscription.id).Nodup
  pairs : (s.deliveries.map Delivery.pair).Nodup
  fanned : ∀ entry ∈ s.fanned, ∃ row ∈ s.emitted, row.id = entry.1 ∧
    ∀ sub ∈ entry.2, sub.wants row.eventType → (row.id, sub.id) ∈ s.deliveries.map Delivery.pair

/-- Events, messages and fan-outs are only added. -/
structure Grown (s s' : State) : Prop where
  emitted : s.emitted ⊆ s'.emitted
  topic : ∀ partition, s.topic partition <+: s'.topic partition
  fanned : s.fanned ⊆ s'.fanned

namespace Grown

variable {s s' : State}

theorem refl (s : State) : Grown s s :=
  ⟨List.Subset.refl _, fun _ ↦ List.prefix_rfl, List.Subset.refl _⟩

theorem trans {s'' : State} (h : Grown s s') (h' : Grown s' s'') : Grown s s'' :=
  ⟨fun _ hrow ↦ h'.emitted (h.emitted hrow),
    fun partition ↦ (h.topic partition).trans (h'.topic partition),
    fun _ hentry ↦ h'.fanned (h.fanned hentry)⟩

theorem handled (h : Grown s s') {value : Json} (hvalue : Handled s value) : Handled s' value := by
  obtain ⟨row, hrow, hmessage, hfanned⟩ := hvalue
  exact ⟨row, h.emitted hrow, hmessage, List.map_subset _ h.fanned hfanned⟩

theorem getElem?_topic (h : Grown s s') {partition offset : ℕ} {value : Json}
    (hvalue : (s.topic partition)[offset]? = some value) :
    (s'.topic partition)[offset]? = some value := by
  obtain ⟨new, hnew⟩ := h.topic partition
  rw [← hnew, List.getElem?_append_left (List.getElem?_eq_some_iff.mp hvalue).1]
  exact hvalue

theorem below (h : Grown s s') {position : ℕ → ℕ} (hbelow : Below s position) :
    Below s' position := by
  intro partition offset hoffset
  obtain ⟨value, hvalue, hhandled⟩ := hbelow partition offset hoffset
  exact ⟨value, h.getElem?_topic hvalue, h.handled hhandled⟩

end Grown

/-! ### One call -/

section Calls

variable {choice : Choice} {s s' : State} {stmt : Stmt}

theorem Effect.grown (h : Effect choice s stmt s') : Grown s s' := by
  cases h with
  | fanOut params => exact ⟨List.Subset.refl _, fun _ ↦ List.prefix_rfl, List.subset_append_left ..⟩
  | _ => exact ⟨List.Subset.refl _, fun _ ↦ List.prefix_rfl, List.Subset.refl _⟩

/-- The rows of a fan-out have new pairs. -/
theorem nodup_pair_fanOut {params : FanOutDeliveryParams} {newID : UUID → UUID} {now : Time}
    (hsubscriptions : (s.subscriptions.map Subscription.id).Nodup)
    (hpairs : (s.deliveries.map Delivery.pair).Nodup) :
    ((s.deliveries ++ fannedOut s.subscriptions s.deliveries params newID now).map
      Delivery.pair).Nodup := by
  rw [List.map_append, List.nodup_append']
  refine ⟨hpairs, ?_, fun pair hold hnew ↦ ?_⟩
  · rw [fannedOut, List.map_map]
    have hids := (List.pairwise_map.mp hsubscriptions).filter fun sub ↦
      sub.wants params.eventType && !s.deliveries.any fun row ↦
        row.eventID = params.eventID && row.subscriptionID = sub.id
    exact List.pairwise_map.mpr (hids.imp fun hne heq ↦ hne (Prod.mk.inj heq).2)
  · obtain ⟨row, hrow, rfl⟩ := List.mem_map.mp hold
    obtain ⟨new, hnewRow, hpair⟩ := List.mem_map.mp hnew
    obtain ⟨sub, hsub, rfl⟩ := List.mem_map.mp hnewRow
    obtain ⟨hevent, hsubscription⟩ := Prod.mk.inj hpair
    have hfresh := (Bool.and_eq_true_iff.mp (List.mem_filter.mp hsub).2).2
    rw [Bool.not_eq_true', List.any_eq_false] at hfresh
    exact hfresh row hrow (by simp [← hevent, ← hsubscription])

/-- After a fan-out every subscription that wants the event has a row. -/
theorem mem_pair_fanOut {params : FanOutDeliveryParams} {newID : UUID → UUID} {now : Time}
    {sub : Subscription} (hsub : sub ∈ s.subscriptions) (hwants : sub.wants params.eventType) :
    (params.eventID, sub.id) ∈
      (s.deliveries ++ fannedOut s.subscriptions s.deliveries params newID now).map Delivery.pair := by
  rw [List.map_append, List.mem_append]
  by_cases hold : (params.eventID, sub.id) ∈ s.deliveries.map Delivery.pair
  · exact .inl hold
  · refine .inr (List.mem_map.mpr ⟨_, List.mem_map_of_mem (List.mem_filter.mpr ⟨hsub, ?_⟩), rfl⟩)
    rw [hwants, Bool.true_and, Bool.not_eq_true', List.any_eq_false]
    intro row hrow heq
    simp only [Bool.and_eq_true, decide_eq_true_eq] at heq
    exact hold (List.mem_map.mpr ⟨row, hrow, Prod.ext heq.1 heq.2⟩)

/-- What a statement of a process has to be: a fan-out of an event under its type, or a commit of
handled messages. -/
def Sound (s : State) : Stmt → Prop
  | .fanOutDelivery params =>
    ∃ row ∈ s.emitted, row.id = params.eventID ∧ row.eventType = params.eventType
  | .commitMessages _ m => ∀ offset < m.offset + 1,
    ∃ value, (s.topic m.partition)[offset]? = some value ∧ Handled s value
  | _ => True

theorem Traced.effect (h : Traced s) (heffect : Effect choice s stmt s') (hsound : Sound s stmt) :
    Traced s' := by
  have hbelow := heffect.grown.below h.committed
  cases heffect with
  | none => exact h
  | join => exact { h with committed := hbelow }
  | fetch => exact { h with committed := hbelow }
  | commit reader m =>
    refine { h with committed := fun partition offset hoffset ↦ ?_ }
    by_cases hpartition : partition = m.partition
    · subst hpartition
      exact hsound offset (by simpa [State.commit] using hoffset)
    · exact h.committed partition offset (by simpa [State.commit, hpartition] using hoffset)
  | fanOut params =>
    refine { h with
      committed := hbelow
      pairs := nodup_pair_fanOut h.subscriptions h.pairs
      fanned := fun entry hentry ↦ ?_ }
    rcases List.mem_append.mp hentry with hold | hnew
    · obtain ⟨row, hrow, hid, hpairs⟩ := h.fanned entry hold
      exact ⟨row, hrow, hid, fun sub hsub hwants ↦
        List.map_subset _ (List.subset_append_left ..) (hpairs sub hsub hwants)⟩
    · obtain rfl := List.mem_singleton.mp hnew
      obtain ⟨row, hrow, hid, htype⟩ := hsound
      refine ⟨row, hrow, hid, fun sub hsub hwants ↦ ?_⟩
      rw [hid]
      exact mem_pair_fanOut hsub (htype ▸ hwants)
  | rewrite stmt f hf =>
    have hpairs : (s.mapDeliveries f).deliveries.map Delivery.pair = s.deliveries.map Delivery.pair :=
      map_rewrites Delivery.pair (fun _ _ ↦ Rewrites.pair_eq) hf _
    exact { h with committed := hbelow, pairs := hpairs ▸ h.pairs, fanned := hpairs ▸ h.fanned }

end Calls

/-! ### Events from elsewhere -/

theorem readers_occur (event : Happening) (s : State) : (occur event s).readers = s.readers := by
  cases event <;> simp only [occur] <;> split <;> rfl

theorem grown_occur (event : Happening) (s : State) : Grown s (occur event s) := by
  cases event with
  | emit event id now =>
    simp only [occur]
    split
    · exact ⟨List.subset_append_left .., fun _ ↦ List.prefix_rfl, List.Subset.refl _⟩
    · exact .refl s
  | publish id partition =>
    simp only [occur]
    split
    · exact .refl s
    · next value hvalue =>
      refine ⟨List.Subset.refl _, fun other ↦ ?_, List.Subset.refl _⟩
      by_cases hother : other = partition
      · subst hother
        simp only [Function.update_self]
        exact List.prefix_append ..
      · simp only [Function.update_of_ne hother]
        exact List.prefix_rfl
  | subscribe subscriptions =>
    simp only [occur]
    split
    · exact ⟨List.Subset.refl _, fun _ ↦ List.prefix_rfl, List.Subset.refl _⟩
    · exact .refl s

theorem Traced.occur {s : State} (h : Traced s) (event : Happening) :
    Traced (Webhook.occur event s) := by
  have hgrown := grown_occur event s
  cases event with
  | emit event id now =>
    simp only [Webhook.occur] at hgrown ⊢
    split at hgrown
    · next hnew =>
      rw [if_pos hnew]
      refine { h with
        nodup := ?_
        emitted := fun row hrow ↦ ?_
        topic := fun partition value hvalue ↦ ?_
        committed := hgrown.below h.committed
        fanned := fun entry hentry ↦ ?_ }
      · rw [List.map_append]
        exact List.nodup_append'.mpr ⟨h.nodup, List.nodup_singleton _, by simpa [Event.row] using hnew.1⟩
      · rcases List.mem_append.mp hrow with hold | hrow
        · exact h.emitted row hold
        · obtain rfl := List.mem_singleton.mp hrow
          exact ⟨event, id, now, rfl, hnew.2⟩
      · obtain ⟨row, hrow, hmessage⟩ := h.topic partition value hvalue
        exact ⟨row, hgrown.emitted hrow, hmessage⟩
      · obtain ⟨row, hrow, hpairs⟩ := h.fanned entry hentry
        exact ⟨row, hgrown.emitted hrow, hpairs⟩
    · next hold =>
      rw [if_neg hold]
      exact h
  | publish id partition =>
    simp only [Webhook.occur] at hgrown ⊢
    split at hgrown
    · exact h
    · next value hvalue =>
      refine { h with
        topic := fun other value' hvalue' ↦ ?_
        committed := hgrown.below h.committed }
      by_cases hother : other = partition
      · subst hother
        simp only [Function.update_self] at hvalue'
        rcases List.mem_append.mp hvalue' with hold | hnew
        · exact h.topic other value' hold
        · obtain rfl := List.mem_singleton.mp hnew
          obtain ⟨row, hrow, hmessage⟩ := Option.bind_eq_some_iff.mp hvalue
          exact ⟨row, mem_of_lookup hrow, hmessage⟩
      · simp only [Function.update_of_ne hother] at hvalue'
        exact h.topic other value' hvalue'
  | subscribe subscriptions =>
    simp only [Webhook.occur] at hgrown ⊢
    split at hgrown
    · next hnew =>
      rw [if_pos hnew]
      exact { h with committed := hgrown.below h.committed, subscriptions := hnew.1 }
    · next hold =>
      rw [if_neg hold]
      exact h

theorem traced_initial : Traced .initial where
  nodup := .nil
  emitted _ hrow := nomatch hrow
  topic _ _ hvalue := nomatch hvalue
  committed _ _ hoffset := absurd hoffset (Nat.not_lt_zero _)
  subscriptions := .nil
  pairs := .nil
  fanned _ hentry := nomatch hentry

end PaymentRail.Webhook
