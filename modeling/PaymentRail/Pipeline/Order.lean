import PaymentRail.Pipeline.World
import PaymentRail.Webhook.Sequence

/-!
# The order of the fan-outs

The relay puts an event on its partition only behind the earlier events of its aggregate, and the
service fans the messages of a partition out one after the other.  So no subscriber gets a row for an
event before the earlier events of its aggregate have been fanned out.
-/

namespace PaymentRail.Pipeline

open Transaction Outbox Table
open Webhook (Platform webhookd)

section Order

variable {route : String → ℕ} {r : Relay.State} {w : Webhook.State}

/-- What stands on a partition before a message of an event. -/
theorem exists_before (h : Relay.InOrder r) {row earlier : Relay.Stored} (hrow : row ∈ r.outbox)
    (hearlier : earlier ∈ r.outbox) (hbefore : earlier.Before row) {partition offset : ℕ}
    (hvalue : (onPartition route r.topic partition)[offset]? = some (Envelope.json row.payload)) :
    ∃ position < offset, (onPartition route r.topic partition)[position]? =
      some (Envelope.json earlier.payload) := by
  rw [onPartition, List.getElem?_map, Option.map_eq_some_iff] at hvalue
  obtain ⟨m, hm, hjson⟩ := hvalue
  obtain ⟨hlt, hm⟩ := List.getElem?_eq_some_iff.mp hm
  -- The messages of the partition up to this one, and what they are of the whole topic.
  have hsplit := (List.take_append_drop offset (r.topic.filter fun m ↦ route m.key = partition)).symm
  rw [List.drop_eq_getElem_cons hlt, hm] at hsplit
  obtain ⟨front, rest, htopic, hfront, hrest⟩ := List.filter_eq_append_iff.mp hsplit
  obtain ⟨between, back, rfl, hbetween, hroute, -⟩ := List.filter_eq_cons_iff.mp hrest
  obtain ⟨stored, hstored, rfl⟩ := h.known m (htopic ▸ by simp)
  obtain rfl := h.eq_of_json hstored hrow hjson
  have hmem : earlier.message ∈ front ++ between := by
    apply h.preceded stored hstored earlier hearlier hbefore _ back
    rw [htopic, List.append_assoc]
  have hkey : route earlier.message.key = partition := by
    rw [Relay.Stored.message, hbefore.1]
    exact of_decide_eq_true hroute
  rcases List.mem_append.mp hmem with hmem | hmem
  · have htake : earlier.message ∈
        (r.topic.filter fun m ↦ route m.key = partition).take offset := by
      rw [← hfront]
      exact List.mem_filter.mpr ⟨hmem, decide_eq_true hkey⟩
    obtain ⟨position, hposition, hget⟩ := List.getElem_of_mem htake
    rw [List.length_take] at hposition
    refine ⟨position, by omega, ?_⟩
    rw [onPartition, List.getElem?_map, ← List.getElem?_take_of_lt (by omega : position < offset),
      List.getElem?_eq_getElem (by rw [List.length_take]; exact hposition), hget]
    rfl
  · exact absurd (decide_eq_true hkey) (hbetween _ hmem)

end Order

/-- The row of an event that the service has seen. -/
theorem Joint.exists_stored {p : Platform} {route : String → ℕ} {l : World} (h : Joint p route l)
    {row : OutboxRow} {value : Json} (hrow : row ∈ l.service.scene.state.emitted)
    (hmessage : Webhook.message row = some value) :
    ∃ stored ∈ l.relay.scene.state.outbox, stored.toOutboxRow = row ∧
      Envelope.json stored.payload = value := by
  rw [h.coupled.emitted] at hrow
  rw [message_of_readable (allReadable_of_steps h.relay row hrow)] at hmessage
  obtain ⟨stored, hstored, rfl⟩ := List.mem_map.mp hrow
  exact ⟨stored, hstored, rfl, Option.some.inj hmessage⟩

/-- Over every run of the relay and the service, with any crashes, faults and repeated publications: the
service can follow every turn of the relay, and in the log of the fan-outs an event comes only after
every earlier event of its aggregate. -/
theorem fan_outs_follow_aggregates {p : Platform} {route : String → ℕ} {l : World}
    (hreached : Reached p route l) :
    (∀ turn r, writing.Permit l.relay turn → Relay.relay.advance l.relay turn = some r →
      ∃ l', Step p route l l' ∧ l'.relay = r) ∧
    ∀ row ∈ l.relay.scene.state.outbox, ∀ earlier ∈ l.relay.scene.state.outbox,
      earlier.aggregateID = row.aggregateID → earlier.createdAt < row.createdAt →
      ∀ front entry back, l.service.scene.state.fanned = front ++ entry :: back →
        entry.1 = row.id → earlier.id ∈ front.map Prod.fst := by
  have hjoint := joint_of_reached hreached
  constructor
  · intro turn r hpermit hadvance
    obtain ⟨happenings, -, hstep⟩ := exists_step hjoint hpermit hadvance
    exact ⟨_, hstep, rfl⟩
  intro row hrow earlier hearlier hkey hlt front entry back hfanned hid
  have hinOrder := inOrder_of_writing hjoint.relay
  obtain ⟨partition, offset, hturn⟩ :=
    Webhook.inSequence_of_steps hjoint.service front.length entry (by rw [hfanned]; simp)
  rw [hfanned, List.take_left, hid] at hturn
  -- The message that was read is the one of the row, and the earlier event stands before it.
  obtain ⟨own, hown, hownID, value, hmessage, hvalue⟩ := hturn.own
  obtain ⟨stored, hstored, rfl, rfl⟩ := hjoint.exists_stored hown hmessage
  obtain rfl := List.inj_on_of_nodup_map hinOrder.nodup hstored hrow hownID
  rw [hjoint.coupled.topic] at hvalue
  obtain ⟨position, hposition, hbefore⟩ :=
    exists_before hinOrder hstored hearlier ⟨hkey, hlt⟩ hvalue
  obtain ⟨value', hvalue', other, hother, hmessage', hdone⟩ := hturn.behind position hposition
  rw [hjoint.coupled.topic, hbefore, Option.some.injEq] at hvalue'
  obtain ⟨stored', hstored', rfl, hjson⟩ := hjoint.exists_stored hother hmessage'
  obtain rfl := hinOrder.eq_of_json hstored' hearlier (hjson.trans hvalue'.symm)
  exact hdone

/-- A relay that publishes both events of the sample in one tick. -/
def relayed : List (Turn Relay.Choice Relay.Happening Relay.Job) :=
  Relay.sampleEvents ++ [.spawn 0 ⟨2, 1⟩] ++
    List.replicate 5 (.call 0 ⟨4, .received, fun _ ↦ 0, ["7", "7"]⟩)

/-- The calls of a consumer that reads two messages. -/
def reading : List Webhook.Choice :=
  List.replicate 4 (Webhook.callAt 0 200) ++
    List.replicate 3 { Webhook.callAt 0 200 with newID := fun id ↦ id + 200 }

/-- The cancellation of a payment is fanned out after its completion. -/
theorem fan_outs_follow_aggregates_sample :
    ∃ l, Reached Webhook.mutePlatform (fun _ ↦ 0) l ∧
      ∃ row ∈ l.relay.scene.state.outbox, ∃ earlier ∈ l.relay.scene.state.outbox,
        earlier.Before row ∧ ∃ front entry back,
          l.service.scene.state.fanned = front ++ entry :: back ∧ entry.1 = row.id ∧
          earlier.id ∈ front.map Prod.fst := by
  have hrun : (Relay.relay.run writing (.idle .initial) relayed).map (fun r ↦
      (r.scene.state.outbox.map fun row ↦ (row.id, row.aggregateID, row.createdAt),
        (exec Webhook.eval (fun stmt choice s ↦ Webhook.Attentive choice s stmt)
          (Webhook.main Webhook.mutePlatform (.consumer 2)) reading
          (seeing (fun _ ↦ 0) r.scene.state subscribed.service.scene.state)).map
            fun outcome ↦ outcome.2.fanned.map Prod.fst)) =
      some ([(11, "7", 1), (12, "7", 2)], some [11, 12]) := by
    decide +kernel
  obtain ⟨r, hr, hresults⟩ := Option.map_eq_some_iff.mp hrun
  obtain ⟨hrows, hfanned⟩ := Prod.mk.inj hresults
  obtain ⟨⟨result, w⟩, hexec, hfanned⟩ := Option.map_eq_some_iff.mp hfanned
  obtain ⟨l, hsteps, hrelay, hprocess, hstate⟩ :=
    exists_seeing reached_subscribed (Sharing.steps_of_run hr)
  obtain ⟨s, halone, rfl, -⟩ := Sharing.exists_alone (webhookd Webhook.mutePlatform)
    Webhook.attentive 0 (.consumer 2) (fun _ _ _ hcalls ↦ hcalls) (congrFun hprocess 0)
    (hstate ▸ hexec)
  have hreached : Reached Webhook.mutePlatform (fun _ ↦ 0) ⟨l.relay, s⟩ :=
    (reached_subscribed.trans hsteps).trans (steps_of_alone halone)
  obtain ⟨earlier, rest, houtbox, hearlier, hrest⟩ := List.map_eq_cons_iff.mp hrows
  obtain ⟨row, _, rfl, hrow, -⟩ := List.map_eq_cons_iff.mp hrest
  obtain ⟨hearlierID, hearlierKey, hearlierTime⟩ := Prod.mk.inj hearlier |>.imp_right Prod.mk.inj
  obtain ⟨hrowID, hrowKey, hrowTime⟩ := Prod.mk.inj hrow |>.imp_right Prod.mk.inj
  obtain ⟨first, others, hentries, hfirst, hothers⟩ := List.map_eq_cons_iff.mp hfanned
  obtain ⟨entry, back, rfl, hentry, -⟩ := List.map_eq_cons_iff.mp hothers
  have hmem : earlier ∈ l.relay.scene.state.outbox ∧ row ∈ l.relay.scene.state.outbox := by
    rw [hrelay, houtbox]
    exact ⟨List.mem_cons_self, List.mem_cons_of_mem _ List.mem_cons_self⟩
  have hkey : earlier.aggregateID = row.aggregateID := hearlierKey.trans hrowKey.symm
  have hlt : earlier.createdAt < row.createdAt := by
    rw [hearlierTime, hrowTime]
    decide
  have hid : entry.1 = row.id := hentry.trans hrowID.symm
  refine ⟨⟨l.relay, s⟩, hreached, row, hmem.2, earlier, hmem.1, ⟨hkey, hlt⟩, [first], entry, back,
    hentries, hid, ?_⟩
  exact (fan_outs_follow_aggregates hreached).2 row hmem.2 earlier hmem.1 hkey hlt [first] entry back
    hentries hid

end PaymentRail.Pipeline
