import PaymentRail.Webhook.Consumer

/-!
# Every event is fanned out once

In every run of the service the events whose messages are committed have one row for each subscription that
wanted them, however often the messages were published and handled.
-/

namespace PaymentRail.Webhook

open Transaction Outbox Table

theorem traced_of_steps {p : Platform}
    {c : Cluster Reply Choice State Happening Job (Except Err Unit)}
    (hsteps : (webhookd p).Steps .none (.idle .initial) c) : Traced c.scene.state := by
  have hkept : Kept (webhookd p) .none (tracking fun _ ↦ True) := by
    apply kept_tracking
    · intro pid job v
      exact cover_worker fun _ _ ↦ trivial
    · intro _ _ _ _ _ _ _ _
      trivial
    · intro _ _ _ _ _ _
      trivial
    · intro _ _ _ _
      trivial
  exact (tracking_of_steps hkept trivial hsteps).1.traced

/-- The message of an emitted row is read back. -/
theorem Traced.read {s : State} (h : Traced s) {row : OutboxRow} (hrow : row ∈ s.emitted)
    {value : Json} (hvalue : message row = some value) :
    ∃ env, parseEnvelope value = .ok env ∧ UUID.parse env.id = .ok row.id ∧
      env.type = row.eventType ∧ handle value = fanOut row.id row.eventType value := by
  obtain ⟨event, id, now, rfl, -⟩ := h.emitted row hrow
  exact ⟨_, parseEnvelope_message hvalue, UUID.parse_string id, rfl, handle_message hvalue⟩

/-- A message belongs to one event. -/
theorem Traced.id_eq {s : State} (h : Traced s) {row row' : OutboxRow} (hrow : row ∈ s.emitted)
    (hrow' : row' ∈ s.emitted) {value : Json} (hvalue : message row = some value)
    (hvalue' : message row' = some value) : row.id = row'.id := by
  obtain ⟨env, henv, hid, -⟩ := h.read hrow hvalue
  obtain ⟨env', henv', hid', -⟩ := h.read hrow' hvalue'
  obtain rfl := Except.ok.inj (henv.symm.trans henv')
  exact Except.ok.inj (hid.symm.trans hid')

/-- The first fan-out of a handled event, and its rows. -/
theorem Traced.first {s : State} (h : Traced s) {row : OutboxRow} (hrow : row ∈ s.emitted)
    (hfanned : row.id ∈ s.fanned.map Prod.fst) :
    ∃ subscriptions, s.fanned.find? (fun entry ↦ entry.1 = row.id) = some (row.id, subscriptions) ∧
      ∀ sub ∈ subscriptions, sub.wants row.eventType →
        (s.deliveries.map Delivery.pair).count (row.id, sub.id) = 1 := by
  obtain ⟨entry, hentry, hid⟩ := List.mem_map.mp hfanned
  have hsome : (s.fanned.find? fun entry ↦ entry.1 = row.id).isSome :=
    List.find?_isSome.mpr ⟨entry, hentry, decide_eq_true hid⟩
  obtain ⟨⟨id, subscriptions⟩, hfirst⟩ := Option.isSome_iff_exists.mp hsome
  have hid : id = row.id := of_decide_eq_true (List.find?_some hfirst :)
  subst hid
  refine ⟨subscriptions, hfirst, fun sub hsub hwants ↦ ?_⟩
  obtain ⟨row', hrow', hid', hpairs⟩ := h.fanned _ (List.mem_of_find?_eq_some hfirst)
  obtain rfl := List.inj_on_of_nodup_map h.nodup hrow' hrow hid'
  exact List.count_eq_one_of_mem h.pairs (hpairs sub hsub hwants)

/-- In every run of the service: the message of an emitted event is parsed, with the identifier and the
type of its row, and fanned out; there are no other messages; an event with a committed message has one
row for each subscription that wanted it at its first fan-out; and no event and subscription have two
rows. -/
theorem fan_out_exactly_once (p : Platform)
    (c : Cluster Reply Choice State Happening Job (Except Err Unit))
    (hsteps : (webhookd p).Steps .none (.idle .initial) c) :
    (∀ row ∈ c.scene.state.emitted, ∃ value env, message row = some value ∧
      parseEnvelope value = .ok env ∧ UUID.parse env.id = .ok row.id ∧ env.type = row.eventType ∧
      handle value = fanOut row.id row.eventType value) ∧
    (∀ partition, ∀ value ∈ c.scene.state.topic partition,
      ∃ row ∈ c.scene.state.emitted, message row = some value) ∧
    (∀ partition, ∀ offset < c.scene.state.committed partition, ∀ value,
      (c.scene.state.topic partition)[offset]? = some value →
      ∀ row ∈ c.scene.state.emitted, message row = some value →
        ∃ subscriptions, c.scene.state.fanned.find? (fun entry ↦ entry.1 = row.id) =
            some (row.id, subscriptions) ∧
          ∀ sub ∈ subscriptions, sub.wants row.eventType →
            (c.scene.state.deliveries.map Delivery.pair).count (row.id, sub.id) = 1) ∧
    (c.scene.state.deliveries.map Delivery.pair).Nodup := by
  have h := traced_of_steps hsteps
  refine ⟨fun row hrow ↦ ?_, h.topic, fun partition offset hoffset value hvalue row hrow hmessage ↦ ?_,
    h.pairs⟩
  · obtain ⟨event, id, now, hevent, hsome⟩ := h.emitted row hrow
    obtain ⟨value, hvalue⟩ := Option.isSome_iff_exists.mp hsome
    obtain ⟨env, hread⟩ := h.read hrow hvalue
    exact ⟨value, env, hvalue, hread⟩
  · obtain ⟨value', hvalue', row', hrow', hmessage', hfanned⟩ := h.committed partition offset hoffset
    obtain rfl := Option.some.inj (hvalue'.symm.trans hvalue)
    rw [h.id_eq hrow' hrow hmessage' hmessage] at hfanned
    exact h.first hrow hfanned

/-- An event is published twice and read in between; a crash loses the offset of the second read. -/
theorem fan_out_exactly_once_sample :
    ∃ c, (webhookd mutePlatform).Steps .none (.idle .initial) c ∧ c.scene.state.committed 0 = 1 ∧
      ∃ row ∈ c.scene.state.emitted, ∃ subscriptions,
        c.scene.state.fanned.find? (fun entry ↦ entry.1 = row.id) = some (row.id, subscriptions) ∧
        ∀ sub ∈ subscriptions, sub.wants row.eventType →
          (c.scene.state.deliveries.map Delivery.pair).count (row.id, sub.id) = 1 := by
  have hrun : ((webhookd mutePlatform).run .none (.idle .initial)
      (opening ++ [.occur (.publish 7 0), .spawn 1 (.consumer 1)] ++
        List.replicate 3 (.call 1 (callAt 0 200)) ++ [.crash 1])).map
          (fun c ↦ (c.scene.state.committed 0, (c.scene.state.topic 0).length)) = some (1, 2) := by
    decide +kernel
  obtain ⟨c, hc, hcommitted⟩ := Option.map_eq_some_iff.mp hrun
  obtain ⟨hcommitted, hlength⟩ := Prod.mk.inj hcommitted
  have hsteps := Sharing.steps_of_run hc
  obtain ⟨-, htopic, hrows, -⟩ := fan_out_exactly_once mutePlatform c hsteps
  have hzero : 0 < (c.scene.state.topic 0).length := hlength ▸ Nat.two_pos
  have hvalue := List.getElem?_eq_getElem hzero
  obtain ⟨row, hrow, hmessage⟩ := htopic 0 _ (List.mem_of_getElem? hvalue)
  exact ⟨c, hsteps, hcommitted, row, hrow,
    hrows 0 0 (hcommitted ▸ Nat.one_pos) _ hvalue row hrow hmessage⟩

end PaymentRail.Webhook
