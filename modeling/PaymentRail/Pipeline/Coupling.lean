import PaymentRail.Outbox.Drain
import PaymentRail.Webhook.CatchUp

/-!
# The relay and the webhook service on one topic

The webhook service is modelled with an environment that emits and publishes events as it likes.  Here
the relay takes the place of that environment.  The two are coupled by the events of the outbox and by
the partitions of the topic, on which the balancer of the producer puts a message by its key
(`cmd/outboxrelay/kafka.go`).

Whatever the relay does, some emissions and publications follow it (`exists_feed`).  So the relay never
does what the environment of the service cannot do, and what holds of the service in every environment
holds of it behind the relay.
-/

namespace PaymentRail.Pipeline

open Transaction Outbox Table

/-- The values on a partition. -/
def onPartition (route : String → ℕ) (topic : List Relay.Message) (partition : ℕ) : List Json :=
  (topic.filter fun m ↦ route m.key = partition).map Relay.Message.value

/-- The service sees the events of the outbox and the partitions of the topic. -/
structure Coupled (route : String → ℕ) (r : Relay.State) (w : Webhook.State) : Prop where
  emitted : w.emitted = r.outbox.map Relay.Stored.toOutboxRow
  topic : w.topic = onPartition route r.topic

/-- What the relay may be seen doing. -/
def FromRelay : Webhook.Happening → Prop
  | .emit _ _ _ | .publish _ _ => True
  | .subscribe _ => False

/-- Several events happen one after the other. -/
def feed (happenings : List Webhook.Happening) (w : Webhook.State) : Webhook.State :=
  happenings.foldl (fun w event ↦ Webhook.occur event w) w

theorem feed_append (first rest : List Webhook.Happening) (w : Webhook.State) :
    feed (first ++ rest) w = feed rest (feed first w) := List.foldl_append

theorem onPartition_append (route : String → ℕ) (topic new : List Relay.Message) (partition : ℕ) :
    onPartition route (topic ++ new) partition =
      onPartition route topic partition ++ onPartition route new partition := by
  rw [onPartition, List.filter_append, List.map_append, onPartition, onPartition]

/-! ### Following the relay -/

/-- A row whose envelope can be written. -/
def Readable (row : OutboxRow) : Prop := Writable row.payload.occurredAt

theorem message_of_readable {row : OutboxRow} (h : Readable row) :
    Webhook.message row = some (Envelope.json row.payload) := by
  unfold Readable at h
  rw [Webhook.message, marshal, if_pos h]

/-- Rows are emitted. -/
def emitAll (rows : List OutboxRow) (w : Webhook.State) : Webhook.State :=
  { w with emitted := w.emitted ++ rows }

/-- Messages are published. -/
def publishAll (route : String → ℕ) (new : List Relay.Message) (w : Webhook.State) : Webhook.State :=
  { w with topic := fun partition ↦ w.topic partition ++ onPartition route new partition }

def Emission.outboxRow (e : Relay.Emission) : OutboxRow := e.event.row e.id e.now

theorem occur_emit {e : Relay.Emission} {w : Webhook.State}
    (hnew : e.id ∉ w.emitted.map OutboxRow.id) (hreadable : Readable (Emission.outboxRow e)) :
    Webhook.occur (.emit e.event e.id e.now) w = emitAll [Emission.outboxRow e] w := by
  have hsome : (Webhook.message (Emission.outboxRow e)).isSome := by
    rw [message_of_readable hreadable]
    rfl
  exact if_pos ⟨hnew, hsome⟩

/-- The emissions of a transaction. -/
theorem feed_emit (events : List Relay.Emission) {w : Webhook.State}
    (hnodup : (w.emitted.map OutboxRow.id ++ events.map Relay.Emission.id).Nodup)
    (hreadable : ∀ e ∈ events, Readable (Emission.outboxRow e)) :
    feed (events.map fun e ↦ .emit e.event e.id e.now) w =
      emitAll (events.map Emission.outboxRow) w := by
  induction events generalizing w with
  | nil => simp [feed, emitAll]
  | cons e events ih =>
    have hnew : e.id ∉ w.emitted.map OutboxRow.id := by
      intro hold
      exact (List.nodup_append'.mp hnodup).2.2 hold List.mem_cons_self
    have hrest : ((emitAll [Emission.outboxRow e] w).emitted.map OutboxRow.id ++
        events.map Relay.Emission.id).Nodup := by
      rw [emitAll, List.map_append, List.append_assoc]
      exact hnodup
    calc feed ((e :: events).map fun e ↦ .emit e.event e.id e.now) w
      _ = feed (events.map fun e ↦ .emit e.event e.id e.now) (emitAll [Emission.outboxRow e] w) := by
        rw [← occur_emit hnew (hreadable e List.mem_cons_self)]
        rfl
      _ = emitAll (events.map Emission.outboxRow) (emitAll [Emission.outboxRow e] w) :=
        ih hrest fun other hother ↦ hreadable other (List.mem_cons_of_mem _ hother)
      _ = emitAll ((e :: events).map Emission.outboxRow) w := by
        simp [emitAll]

theorem publishAll_append (route : String → ℕ) (first rest : List Relay.Message)
    (w : Webhook.State) :
    publishAll route (first ++ rest) w = publishAll route rest (publishAll route first w) := by
  simp only [publishAll, onPartition_append, List.append_assoc]

theorem occur_publish (route : String → ℕ) {row : OutboxRow} {w : Webhook.State}
    (hnodup : (w.emitted.map OutboxRow.id).Nodup) (hrow : row ∈ w.emitted)
    (hreadable : Readable row) :
    Webhook.occur (.publish row.id (route row.aggregateID)) w =
      publishAll route [⟨row.aggregateID, Envelope.json row.payload⟩] w := by
  have hlookup : (lookup OutboxRow.id w.emitted row.id).bind Webhook.message =
      some (Envelope.json row.payload) := by
    rw [lookup_of_mem hnodup hrow, Option.bind_some, message_of_readable hreadable]
  simp only [Webhook.occur, hlookup, publishAll]
  congr 1
  funext partition
  by_cases hpartition : partition = route row.aggregateID
  · subst hpartition
    simp [onPartition]
  · rw [Function.update_of_ne hpartition]
    simp [onPartition, Ne.symm hpartition]

/-- The publications of some messages of emitted rows. -/
theorem exists_feed_publish (route : String → ℕ) (new : List Relay.Message) {w : Webhook.State}
    (hnodup : (w.emitted.map OutboxRow.id).Nodup) (hreadable : ∀ row ∈ w.emitted, Readable row)
    (hknown : ∀ m ∈ new, ∃ row ∈ w.emitted, m = ⟨row.aggregateID, Envelope.json row.payload⟩) :
    ∃ happenings, (∀ event ∈ happenings, FromRelay event) ∧
      feed happenings w = publishAll route new w := by
  induction new generalizing w with
  | nil => exact ⟨[], List.forall_mem_nil _, by simp [feed, publishAll, onPartition]⟩
  | cons m new ih =>
    obtain ⟨row, hrow, rfl⟩ := hknown m List.mem_cons_self
    have hfirst := occur_publish route hnodup hrow (hreadable row hrow)
    obtain ⟨happenings, hfrom, hfeed⟩ := ih
      (w := publishAll route [⟨row.aggregateID, Envelope.json row.payload⟩] w) hnodup hreadable
      fun other hother ↦ hknown other (List.mem_cons_of_mem _ hother)
    refine ⟨.publish row.id (route row.aggregateID) :: happenings, ?_, ?_⟩
    · exact List.forall_mem_cons.mpr ⟨trivial, hfrom⟩
    · calc feed (.publish row.id (route row.aggregateID) :: happenings) w
        _ = feed happenings (publishAll route [⟨row.aggregateID, Envelope.json row.payload⟩] w) := by
          rw [← hfirst]
          rfl
        _ = _ := hfeed
        _ = _ := (publishAll_append route [_] new w).symm

/-- Some events and some messages have been added. -/
structure Grows (events : List Relay.Emission) (new : List Relay.Message) (r r' : Relay.State) :
    Prop where
  rows : r'.outbox.map Relay.Stored.toOutboxRow =
    r.outbox.map Relay.Stored.toOutboxRow ++ events.map Emission.outboxRow
  topic : r'.topic = r.topic ++ new

theorem Grows.same {r r' : Relay.State} (houtbox : r'.outbox = r.outbox) (htopic : r'.topic = r.topic) :
    Grows [] [] r r' :=
  ⟨by rw [houtbox, List.map_nil, List.append_nil], by rw [htopic, List.append_nil]⟩

theorem grows_settle (r : Relay.State) (now : Time) : Grows [] [] r (r.settle now) := by
  refine ⟨?_, (List.append_nil _).symm⟩
  rw [List.map_nil, List.append_nil, Relay.State.settle, List.map_map]
  exact List.map_congr_left fun row _ ↦ Relay.Stored.settle_toOutboxRow _ now row

theorem grows_eval (stmt : Relay.Stmt) (choice : Relay.Choice) (r : Relay.State) :
    ∃ new, Grows [] new r (Relay.eval stmt choice r).2 := by
  cases stmt with
  | begin =>
    refine ⟨[], ?_⟩
    rw [Relay.eval]
    split
    · exact .same rfl rfl
    · exact .same rfl rfl
  | claimUnsentOutbox limit => exact ⟨[], .same rfl rfl⟩
  | publish msgs => exact ⟨_, by simp [Relay.eval], rfl⟩
  | markOutboxSent ids =>
    refine ⟨[], ?_⟩
    rw [Relay.eval]
    split
    · exact .same rfl rfl
    · exact .same rfl rfl
  | commit =>
    refine ⟨[], ?_⟩
    rw [Relay.eval]
    apply Ack.settle_cases
    · exact .same rfl rfl
    · exact grows_settle r choice.now
  | rollback => exact ⟨[], .same rfl rfl⟩

theorem grows_occur (tx : Relay.Happening) (r : Relay.State) :
    ∃ events, (∀ e ∈ events, e ∈ tx.events) ∧ Grows events [] r (Relay.occur tx r) := by
  rw [Relay.occur]
  split
  · refine ⟨tx.events, fun _ he ↦ he, ?_, (List.append_nil _).symm⟩
    rw [List.map_append, List.map_map]
    rfl
  · exact ⟨[], List.forall_mem_nil _, .same rfl rfl⟩

/-- What the relay does is followed by emissions and publications. -/
theorem exists_feed {route : String → ℕ} {r r' : Relay.State} {w : Webhook.State}
    {events : List Relay.Emission} {new : List Relay.Message} (h : Coupled route r w)
    (hgrows : Grows events new r r') (hr' : Relay.InOrder r')
    (hreadable : ∀ row ∈ r'.outbox, Readable row.toOutboxRow) :
    ∃ happenings, (∀ event ∈ happenings, FromRelay event) ∧ Coupled route r' (feed happenings w) := by
  have hids : (r'.outbox.map Relay.Stored.toOutboxRow).map OutboxRow.id =
      r'.outbox.map fun row ↦ row.id := List.map_map
  have hemitted : (emitAll (events.map Emission.outboxRow) w).emitted =
      r'.outbox.map Relay.Stored.toOutboxRow := by
    rw [emitAll, h.emitted, hgrows.rows]
  have hnodup : (((emitAll (events.map Emission.outboxRow) w).emitted).map OutboxRow.id).Nodup := by
    rw [hemitted, hids]
    exact hr'.nodup
  have hrows : ∀ row ∈ (emitAll (events.map Emission.outboxRow) w).emitted, Readable row := by
    rw [hemitted]
    intro row hrow
    obtain ⟨stored, hstored, rfl⟩ := List.mem_map.mp hrow
    exact hreadable stored hstored
  have hemit := feed_emit events (w := w)
    (by simpa [emitAll, Function.comp_def, Emission.outboxRow, Event.row] using hnodup)
    fun e he ↦ hrows _ (List.mem_append_right _ (List.mem_map_of_mem he))
  obtain ⟨happenings, hfrom, hfeed⟩ := exists_feed_publish route new hnodup hrows (by
    rw [hemitted]
    intro m hm
    obtain ⟨row, hrow, rfl⟩ := hr'.known m (hgrows.topic ▸ List.mem_append_right _ hm)
    exact ⟨row.toOutboxRow, List.mem_map_of_mem hrow, rfl⟩)
  refine ⟨(events.map fun e ↦ .emit e.event e.id e.now) ++ happenings, ?_, ?_⟩
  · intro event hevent
    rcases List.mem_append.mp hevent with hemission | hpublication
    · obtain ⟨e, -, rfl⟩ := List.mem_map.mp hemission
      trivial
    · exact hfrom event hpublication
  · rw [feed_append, hemit, hfeed]
    refine ⟨hemitted, ?_⟩
    funext partition
    rw [hgrows.topic, onPartition_append, ← h.topic]
    rfl

end PaymentRail.Pipeline
