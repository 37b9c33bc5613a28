import PaymentRail.Pipeline.World

/-!
# The end of every delivery

Once the faults are over, every event of the outbox is brought to an end at every subscription that
wanted it: the relay sends it, a consumer fans it out, and the drains of a worker deliver it or give it
up.
-/

namespace PaymentRail.Pipeline

open Transaction Outbox Table
open Webhook (Platform webhookd)

/-- A quiet period: while a relay meets no fault and has ticks enough for the unsent rows, a consumer
then catches up, and drains of a worker follow, at least as many as the attempts left. -/
inductive Quiet (p : Platform) (route : String → ℕ) (partitions : ℕ) (l : World) : World → Prop where
  | intro {mid : World} {pid batch ticks reader rounds count : ℕ} {since : Time}
    {caughtUp decided : ServiceCluster} {result : Except Webhook.Err Unit}
    (hmid : Relation.ReflTransGen (Step p route) l mid)
    (hrelay : Relay.relay.Alone Relay.faultless pid ⟨batch, ticks⟩ l.relay mid.relay ())
    (hticks : l.relay.scene.state.unsent.length ≤ batch * ticks)
    (hconsumer : (webhookd p).Alone Webhook.attentive reader (.consumer rounds) mid.service caughtUp
      result)
    (hrounds : mid.service.scene.state.unread partitions ≤ rounds)
    (hdue : ∀ row ∈ caughtUp.scene.state.deliveries, row.status = .pending →
      row.nextAttemptAt ≤ since)
    (hcount : caughtUp.scene.state.owed ≤ count)
    (hdrains : Webhook.Drains p since count caughtUp decided) :
    Quiet p route partitions l ⟨mid.relay, decided⟩

theorem onPartition_of_route {route : String → ℕ} {partitions : ℕ}
    (hroute : ∀ key, route key < partitions) (topic : List Relay.Message) :
    ∀ partition, partitions ≤ partition → onPartition route topic partition = [] := by
  intro partition hlarge
  rw [onPartition, List.map_eq_nil_iff, List.filter_eq_nil_iff]
  intro m _ hpartition
  have := hroute m.key
  have := of_decide_eq_true hpartition
  omega

theorem Joint.mem_partition {p : Platform} {route : String → ℕ} {l : World} (h : Joint p route l)
    {row : Relay.Stored} (hmessage : row.message ∈ l.relay.scene.state.topic) :
    Envelope.json row.payload ∈ l.service.scene.state.topic (route row.aggregateID) := by
  rw [h.coupled.topic, onPartition]
  exact List.mem_map.mpr ⟨row.message, List.mem_filter.mpr ⟨hmessage, decide_eq_true rfl⟩, rfl⟩

/-- From every state of the relay and the service a quiet period brings every event of the outbox to its
end: it has been fanned out, and for every subscription that wanted it then there is a delivery, which
has succeeded or is dead. -/
theorem events_reach_subscribers {p : Platform} {route : String → ℕ} {partitions : ℕ}
    (hroute : ∀ key, route key < partitions) {l l' : World} (hreached : Reached p route l)
    (hquiet : Quiet p route partitions l l') :
    l'.relay.scene.state.outbox.map Relay.Stored.toOutboxRow =
        l.relay.scene.state.outbox.map Relay.Stored.toOutboxRow ∧
    ∀ row ∈ l'.relay.scene.state.outbox, ∃ subscriptions,
      l'.service.scene.state.fanned.find? (fun entry ↦ entry.1 = row.id) =
          some (row.id, subscriptions) ∧
        ∀ sub ∈ subscriptions, sub.wants row.eventType →
          ∃ delivery ∈ l'.service.scene.state.deliveries, delivery.pair = (row.id, sub.id) ∧
            (delivery.status = .delivered ∨ delivery.status = .deadLetter) := by
  obtain @⟨mid, _, _, _, _, _, _, _, _, _, _, hmid, hrelay, hticks, hconsumer, hrounds, hdue, hcount,
    hdrains⟩ := hquiet
  have hjoint := joint_of_reached (hreached.trans hmid)
  have hinOrder := inOrder_of_writing (joint_of_reached hreached).relay
  have hadvanced := Relay.advanced_of_alone hinOrder hrelay
  refine ⟨hadvanced.rows, fun row hrow ↦ ?_⟩
  -- The relay has put the message of the event on its partition.
  have hmessage := hadvanced.delivered hinOrder (hadvanced.unsent_eq_nil hticks) hrow
  have hpartition := hjoint.mem_partition hmessage
  -- The consumer has fanned it out, and that stays so.
  obtain ⟨hsame, hhandled⟩ := Webhook.handled_of_alone hjoint.service hconsumer
    (hjoint.coupled.topic ▸ onPartition_of_route hroute _) hrounds
  have hcaughtUp := hjoint.service.trans hconsumer.steps
  have hsteps := hcaughtUp.trans hdrains.steps
  have hgrown := Webhook.grown_of_steps hdrains.steps
  have htraced := Webhook.traced_of_steps hsteps
  obtain ⟨other, hother, hmessage', hfanned⟩ :=
    hgrown.handled (hhandled _ _ (hsame.topic ▸ hpartition))
  have hemitted : row.toOutboxRow ∈ mid.service.scene.state.emitted := by
    rw [hjoint.coupled.emitted]
    exact List.mem_map_of_mem hrow
  have hreadable := message_of_readable (allReadable_of_steps hjoint.relay _
    (List.mem_map_of_mem hrow))
  have hemitted := hgrown.emitted (hsame.emitted ▸ hemitted)
  rw [htraced.id_eq hother hemitted hmessage' hreadable] at hfanned
  obtain ⟨subscriptions, hfirst, hpairs⟩ := htraced.first hemitted hfanned
  refine ⟨subscriptions, hfirst, fun sub hsub hwants ↦ ?_⟩
  -- Its deliveries have been decided by the drains.
  have hpair := List.count_pos_iff.mp (Nat.lt_of_lt_of_eq Nat.one_pos (hpairs sub hsub hwants).symm)
  obtain ⟨delivery, hdelivery, hpair⟩ := List.mem_map.mp hpair
  have hdecided := (Webhook.decided_of_drains hdrains (.of_steps hcaughtUp hdue) hcount).1
  exact ⟨delivery, hdelivery, hpair, Webhook.decided_of_not_pending (hdecided delivery hdelivery)⟩

/-- The calls that one relay at a time makes without a fault. -/
def peaceful : Rules Relay.Reply Relay.Choice Relay.State Relay.Happening Relay.Job where
  calls pid job stmt choice v := Relay.faultless.calls pid job stmt choice v ∧
    writing.calls pid job stmt choice v
  events := writing.events

instance (pid : ℕ) (job : Relay.Job) (stmt : Relay.Stmt) (choice : Relay.Choice) (v : Relay.View) :
    Decidable (peaceful.calls pid job stmt choice v) :=
  inferInstanceAs (Decidable (Relay.faultless.calls pid job stmt choice v ∧
    writing.calls pid job stmt choice v))

instance (tx : Relay.Happening) (v : Relay.View) : Decidable (peaceful.events tx v) :=
  inferInstanceAs (Decidable (writing.events tx v))

/-- A first drain that succeeds, and seven that find nothing. -/
def eightDrains : List (Time × List Webhook.Choice) :=
  (0, List.replicate 4 (Webhook.callAt 0 200)) ::
    (List.range 7).map fun n ↦
      (((n : ℤ) + 1) * 4000 * 10 ^ 9, [Webhook.callAt ((n + 1) * 4000) 200])

/-- An event is relayed, read and delivered. -/
theorem events_reach_subscribers_sample :
    ∃ l l', Reached Webhook.mutePlatform (fun _ ↦ 0) l ∧
      Quiet Webhook.mutePlatform (fun _ ↦ 0) 1 l l' ∧ l.relay.scene.state.unsent.length = 1 ∧
      ∀ row ∈ l'.relay.scene.state.outbox, ∃ subscriptions,
        l'.service.scene.state.fanned.find? (fun entry ↦ entry.1 = row.id) =
            some (row.id, subscriptions) ∧
          ∀ sub ∈ subscriptions, sub.wants row.eventType →
            ∃ delivery ∈ l'.service.scene.state.deliveries, delivery.pair = (row.id, sub.id) ∧
              (delivery.status = .delivered ∨ delivery.status = .deadLetter) := by
  have hrun : (Relay.relay.run writing (.idle .initial) (Relay.sampleEvents.take 1)).map (fun r ↦
      (r.scene.state.unsent.length == 1) && (r.process 0).isNone &&
      (Relay.relay.run peaceful (Relay.relay.started 0 ⟨1, 1⟩ r)
        ((List.replicate 5 ⟨4, .received, fun _ ↦ 0, ["7"]⟩).map (.call 0))).any fun r' ↦
          decide (Relay.ended (r'.process 0) = some (1, 1)) &&
          (exec Webhook.eval (fun stmt choice s ↦ Webhook.Attentive choice s stmt)
            (Webhook.main Webhook.mutePlatform (.consumer 1))
            (List.replicate 4 (Webhook.callAt 0 200))
            (seeing (fun _ ↦ 0) r'.scene.state (seeing (fun _ ↦ 0) r.scene.state
              subscribed.service.scene.state))).any fun outcome ↦
            decide ((seeing (fun _ ↦ 0) r'.scene.state (seeing (fun _ ↦ 0) r.scene.state
              subscribed.service.scene.state)).unread 1 ≤ 1) &&
            (outcome.2.deliveries.all fun row ↦ row.nextAttemptAt ≤ 0) &&
            decide (outcome.2.owed ≤ 8) &&
            (Webhook.drainAll Webhook.mutePlatform 0 eightDrains outcome.2).isSome) =
      some true := by
    decide +kernel
  obtain ⟨r, hr, hchecks⟩ := Option.map_eq_some_iff.mp hrun
  simp only [Bool.and_eq_true, beq_iff_eq, decide_eq_true_eq, Option.any_eq_true,
    Option.isNone_iff_eq_none, List.all_eq_true, Option.isSome_iff_exists] at hchecks
  obtain ⟨⟨hunsent, hfree⟩, r', hr', hended, ⟨result, w⟩, hexec, ⟨⟨hrounds, hdue⟩, howed⟩, w', hdrained⟩ :=
    hchecks
  have hpeaceful := Sharing.alone_of_run hfree hr' (Relay.of_ended hended)
  have hwriting := (hpeaceful.mono fun _ _ _ _ _ hcalls ↦ hcalls.2).steps_within
  have hfaultless := hpeaceful.mono fun _ _ _ _ _ hcalls ↦ hcalls.1
  obtain ⟨l, hl, rfl, hprocess, hstate⟩ :=
    exists_seeing reached_subscribed (Sharing.steps_of_run hr)
  have hreached := reached_subscribed.trans hl
  obtain ⟨mid, hmid, rfl, hprocess', hstate'⟩ := exists_seeing hreached hwriting
  rw [hstate] at hstate'
  obtain ⟨s, halone, rfl, -⟩ := Sharing.exists_alone (webhookd Webhook.mutePlatform)
    Webhook.attentive 0 (.consumer 1) (fun _ _ _ hcalls ↦ hcalls)
    ((congrFun hprocess' 0).trans (congrFun hprocess 0)) (hstate' ▸ hexec)
  obtain ⟨s', hdrains, -⟩ := Webhook.exists_drains hdrained
  have hquiet : Quiet Webhook.mutePlatform (fun _ ↦ 0) 1 l ⟨mid.relay, s'⟩ :=
    .intro hmid hfaultless hunsent.le halone (hstate' ▸ hrounds) (fun row hrow _ ↦ hdue row hrow)
      howed hdrains
  exact ⟨l, _, hreached, hquiet, hunsent,
    (events_reach_subscribers (fun _ ↦ Nat.one_pos) hreached hquiet).2⟩

end PaymentRail.Pipeline
