import PaymentRail.Pipeline.Coupling
import PaymentRail.Webhook.Progress

/-!
# The relay and the webhook service side by side

The relay with its outbox and the webhook service run side by side, each with its own processes,
crashes and faults, on one topic.  A step is a turn of the relay, which the service follows, or a turn
of the service.  Every run of the two is a run of each of them (`joint_of_reached`), so the results
about each hold of both; and the service can follow every run of the relay (`exists_run`).
-/

namespace PaymentRail.Pipeline

open Transaction Outbox Table
open Webhook (Platform webhookd)

abbrev RelayCluster :=
  Cluster Relay.Reply Relay.Choice Relay.State Relay.Happening Relay.Job Unit

abbrev ServiceCluster :=
  Cluster Webhook.Reply Webhook.Choice Webhook.State Webhook.Happening Webhook.Job
    (Except Webhook.Err Unit)

/-- The relay and the service. -/
structure World where
  relay : RelayCluster
  service : ServiceCluster

def World.initial : World := ⟨.idle .initial, .idle .initial⟩

/-- One relay at a time, and events at times that can be written: `Emit` fails at others. -/
def writing : Rules Relay.Reply Relay.Choice Relay.State Relay.Happening Relay.Job where
  calls := Relay.oneAtATime.calls
  events tx v := Relay.oneAtATime.events tx v ∧ ∀ e ∈ tx.events, Writable e.now

/-- The service sees what the relay does. -/
def fed (p : Platform) (happenings : List Webhook.Happening) (c : ServiceCluster) : ServiceCluster :=
  happenings.foldl (fun c event ↦ ⟨(webhookd p).occurred event c.scene, c.process⟩) c

/-- A turn of the service itself. -/
def Own : Turn Webhook.Choice Webhook.Happening Webhook.Job → Prop
  | .occur event => ¬FromRelay event
  | _ => True

inductive Step (p : Platform) (route : String → ℕ) : World → World → Prop where
  | relay {l : World} {turn : Turn Relay.Choice Relay.Happening Relay.Job} {r : RelayCluster}
    {happenings : List Webhook.Happening} (hpermit : writing.Permit l.relay turn)
    (hadvance : Relay.relay.advance l.relay turn = some r)
    (hfrom : ∀ event ∈ happenings, FromRelay event)
    (hcoupled : Coupled route r.scene.state (feed happenings l.service.scene.state)) :
    Step p route l ⟨r, fed p happenings l.service⟩
  | service {l : World} {turn : Turn Webhook.Choice Webhook.Happening Webhook.Job}
    {s : ServiceCluster} (hown : Own turn) (hadvance : (webhookd p).advance l.service turn = some s) :
    Step p route l ⟨l.relay, s⟩

/-- A state of some run. -/
def Reached (p : Platform) (route : String → ℕ) : World → Prop :=
  Relation.ReflTransGen (Step p route) .initial

section Runs

variable {p : Platform} {route : String → ℕ}

theorem fed_state (happenings : List Webhook.Happening) (c : ServiceCluster) :
    (fed p happenings c).scene.state = feed happenings c.scene.state := by
  induction happenings generalizing c with
  | nil => rfl
  | cons event rest ih => exact ih _

theorem steps_fed (happenings : List Webhook.Happening) (c : ServiceCluster) :
    (webhookd p).Steps .none c (fed p happenings c) := by
  induction happenings generalizing c with
  | nil => exact .refl
  | cons event rest ih => exact .head ⟨.occur event, trivial, rfl⟩ (ih _)

/-- A turn of the service leaves the events and the topic alone. -/
theorem sameTopic_of_advance {turn : Turn Webhook.Choice Webhook.Happening Webhook.Job}
    {c c' : ServiceCluster} (hown : Own turn) (h : (webhookd p).advance c turn = some c') :
    Webhook.SameTopic c.scene.state c'.scene.state := by
  cases turn with
  | spawn pid job =>
    simp only [Sharing.advance] at h
    split at h
    · cases h
    · cases h
      exact ⟨rfl, rfl⟩
  | call pid choice =>
    simp only [Sharing.advance] at h
    split at h
    · next stmt _ _ =>
      cases h
      have heffect := Webhook.effect_eval stmt choice c.scene.state
      exact heffect.sameTopic
    · cases h
  | crash pid =>
    cases h
    exact ⟨rfl, rfl⟩
  | occur event =>
    cases h
    cases event with
    | subscribe subscriptions => exact Webhook.sameTopic_subscribe subscriptions c.scene.state
    | _ => exact absurd trivial hown

/-- In every run of the two, each of them runs as it would alone, and they stay coupled. -/
structure Joint (p : Platform) (route : String → ℕ) (l : World) : Prop where
  relay : Relay.relay.Steps writing (.idle .initial) l.relay
  service : (webhookd p).Steps .none (.idle .initial) l.service
  coupled : Coupled route l.relay.scene.state l.service.scene.state

theorem joint_of_reached {l : World} (h : Reached p route l) : Joint p route l := by
  induction h with
  | refl => exact ⟨.refl, .refl, rfl, rfl⟩
  | tail _ hstep ih =>
    cases hstep with
    | relay hpermit hadvance hfrom hcoupled =>
      exact ⟨ih.relay.tail ⟨_, hpermit, hadvance⟩, ih.service.trans (steps_fed _ _),
        (fed_state (p := p) _ _) ▸ hcoupled⟩
    | service hown hadvance =>
      have hsame := sameTopic_of_advance hown hadvance
      exact ⟨ih.relay, ih.service.tail ⟨_, permit_none _ _, hadvance⟩, hsame.emitted.trans ih.coupled.emitted,
        hsame.topic.trans ih.coupled.topic⟩

theorem inOrder_of_writing {r : RelayCluster} (h : Relay.relay.Steps writing (.idle .initial) r) :
    Relay.InOrder r.scene.state := by
  apply Relay.inOrder_of_steps
  apply Sharing.steps_mono _ _ h
  · exact fun _ _ _ _ _ hcalls ↦ hcalls
  · exact fun tx v (hevents : Relay.oneAtATime.events tx v ∧ _) ↦ hevents.1

/-- Every envelope of the outbox can be written. -/
def AllReadable (r : Relay.State) : Prop :=
  ∀ row ∈ r.outbox.map Relay.Stored.toOutboxRow, Readable row

theorem AllReadable.grows {events : List Relay.Emission} {new : List Relay.Message}
    {r r' : Relay.State} (h : AllReadable r) (hgrows : Grows events new r r')
    (hevents : ∀ e ∈ events, Writable e.now) : AllReadable r' := by
  intro row hrow
  rw [hgrows.rows] at hrow
  rcases List.mem_append.mp hrow with hold | hnew
  · exact h row hold
  · obtain ⟨e, he, rfl⟩ := List.mem_map.mp hnew
    exact hevents e he

theorem allReadable_of_steps {r : RelayCluster} (h : Relay.relay.Steps writing (.idle .initial) r) :
    AllReadable r.scene.state := by
  have hinitial : AllReadable Relay.State.initial := List.forall_mem_nil _
  apply Sharing.invariant_of_steps ?_ ?_ hinitial h
  · intro stmt choice s hs
    obtain ⟨new, hgrows⟩ := grows_eval stmt choice s
    exact hs.grows hgrows (List.forall_mem_nil _)
  · intro tx v hrules hs
    obtain ⟨events, hevents, hgrows⟩ := grows_occur tx v.state
    exact hs.grows hgrows fun e he ↦ hrules.2 e (hevents e he)

/-- A turn of the relay adds some events and some messages. -/
theorem grows_of_advance {turn : Turn Relay.Choice Relay.Happening Relay.Job} {r r' : RelayCluster}
    (h : Relay.relay.advance r turn = some r') :
    ∃ events new, Grows events new r.scene.state r'.scene.state := by
  cases turn with
  | spawn pid job =>
    simp only [Sharing.advance] at h
    split at h
    · cases h
    · cases h
      exact ⟨[], [], .same rfl rfl⟩
  | call pid choice =>
    simp only [Sharing.advance] at h
    split at h
    · next stmt _ _ =>
      cases h
      exact ⟨[], grows_eval stmt choice r.scene.state⟩
    · cases h
  | crash pid =>
    cases h
    exact ⟨[], [], .same rfl rfl⟩
  | occur tx =>
    cases h
    obtain ⟨events, -, hgrows⟩ := grows_occur tx r.scene.state
    exact ⟨events, [], hgrows⟩

/-- The service can follow every turn of the relay. -/
theorem exists_step {l : World} (h : Joint p route l)
    {turn : Turn Relay.Choice Relay.Happening Relay.Job} {r : RelayCluster}
    (hpermit : writing.Permit l.relay turn) (hadvance : Relay.relay.advance l.relay turn = some r) :
    ∃ happenings, (∀ event ∈ happenings, FromRelay event) ∧
      Step p route l ⟨r, fed p happenings l.service⟩ := by
  have hsteps : Relay.relay.Steps writing (.idle .initial) r :=
    h.relay.tail ⟨turn, hpermit, hadvance⟩
  obtain ⟨events, new, hgrows⟩ := grows_of_advance hadvance
  obtain ⟨happenings, hfrom, hcoupled⟩ := exists_feed h.coupled hgrows (inOrder_of_writing hsteps)
    fun row hrow ↦ allReadable_of_steps hsteps _ (List.mem_map_of_mem hrow)
  exact ⟨happenings, hfrom, .relay hpermit hadvance hfrom hcoupled⟩

end Runs

/-! ### Runs of both -/

section Sample

variable {p : Platform} {route : String → ℕ}

theorem fed_append (first rest : List Webhook.Happening) (c : ServiceCluster) :
    fed p (first ++ rest) c = fed p rest (fed p first c) := List.foldl_append

/-- The service can follow every run of the relay. -/
theorem exists_run {l : World} (h : Reached p route l) {r : RelayCluster}
    (hsteps : Relay.relay.Steps writing l.relay r) :
    ∃ happenings, (∀ event ∈ happenings, FromRelay event) ∧
      Relation.ReflTransGen (Step p route) l ⟨r, fed p happenings l.service⟩ := by
  induction hsteps with
  | refl => exact ⟨[], List.forall_mem_nil _, .refl⟩
  | tail _ hstep ih =>
    obtain ⟨happenings, hfrom, hrun⟩ := ih
    obtain ⟨turn, hpermit, hadvance⟩ := hstep
    obtain ⟨more, hmore, hnext⟩ := exists_step (joint_of_reached (h.trans hrun)) hpermit hadvance
    refine ⟨happenings ++ more, fun event hevent ↦ ?_, ?_⟩
    · exact (List.mem_append.mp hevent).elim (hfrom event) (hmore event)
    · rw [fed_append]
      exact hrun.tail hnext

/-- The state of a service that sees an outbox and a topic. -/
def seeing (route : String → ℕ) (r : Relay.State) (w : Webhook.State) : Webhook.State :=
  { w with
    emitted := r.outbox.map Relay.Stored.toOutboxRow
    topic := onPartition route r.topic }

theorem exists_feed_eq {happenings : List Webhook.Happening} (w : Webhook.State)
    (hfrom : ∀ event ∈ happenings, FromRelay event) :
    ∃ emitted topic, feed happenings w = { w with emitted := emitted, topic := topic } := by
  induction happenings generalizing w with
  | nil => exact ⟨w.emitted, w.topic, rfl⟩
  | cons event rest ih =>
    obtain ⟨hevent, hrest⟩ := List.forall_mem_cons.mp hfrom
    have hfirst : ∃ emitted topic,
        Webhook.occur event w = { w with emitted := emitted, topic := topic } := by
      cases event with
      | emit event id now =>
        rw [Webhook.occur]
        split
        · exact ⟨_, _, rfl⟩
        · exact ⟨_, _, rfl⟩
      | publish id partition =>
        rw [Webhook.occur]
        split
        · exact ⟨_, _, rfl⟩
        · exact ⟨_, _, rfl⟩
      | subscribe subscriptions => exact hevent.elim
    obtain ⟨emitted, topic, hfirst⟩ := hfirst
    obtain ⟨emitted', topic', hrest⟩ := ih (Webhook.occur event w) hrest
    refine ⟨emitted', topic', ?_⟩
    rw [feed, List.foldl_cons, ← feed, hrest, hfirst]

theorem feed_eq_seeing {r : Relay.State} {w : Webhook.State} {happenings : List Webhook.Happening}
    (hfrom : ∀ event ∈ happenings, FromRelay event) (h : Coupled route r (feed happenings w)) :
    feed happenings w = seeing route r w := by
  obtain ⟨emitted, topic, hfeed⟩ := exists_feed_eq w hfrom
  rw [hfeed] at h ⊢
  rw [seeing, ← h.emitted, ← h.topic]

theorem fed_process (happenings : List Webhook.Happening) (c : ServiceCluster) :
    (fed p happenings c).process = c.process := by
  induction happenings generalizing c with
  | nil => rfl
  | cons event rest ih => exact ih _

/-- The relay runs and the service follows. -/
theorem exists_seeing {l : World} (h : Reached p route l) {r : RelayCluster}
    (hsteps : Relay.relay.Steps writing l.relay r) :
    ∃ l', Relation.ReflTransGen (Step p route) l l' ∧ l'.relay = r ∧
      l'.service.process = l.service.process ∧
      l'.service.scene.state = seeing route r.scene.state l.service.scene.state := by
  obtain ⟨happenings, hfrom, hrun⟩ := exists_run h hsteps
  have hcoupled := (joint_of_reached (h.trans hrun)).coupled
  refine ⟨_, hrun, rfl, fed_process happenings l.service, ?_⟩
  rw [fed_state] at hcoupled ⊢
  exact feed_eq_seeing hfrom hcoupled

/-- A process of the service runs alone. -/
theorem steps_of_alone {l : World} {s : ServiceCluster} {pid : ℕ} {job : Webhook.Job}
    {rules : Rules Webhook.Reply Webhook.Choice Webhook.State Webhook.Happening Webhook.Job}
    {result : Except Webhook.Err Unit} (h : (webhookd p).Alone rules pid job l.service s result) :
    Relation.ReflTransGen (Step p route) l ⟨l.relay, s⟩ := by
  have hspawn : (webhookd p).advance l.service (.spawn pid job) =
      some ((webhookd p).started pid job l.service) := by
    simp only [Sharing.advance, h.free, Sharing.started]
  have hlift : Relation.ReflTransGen (Step p route)
      ⟨l.relay, (webhookd p).started pid job l.service⟩ ⟨l.relay, s⟩ := by
    apply Relation.ReflTransGen.lift (World.mk l.relay) _ _ _ h.calls
    rintro c c' ⟨choice, -, hadvance⟩
    have hown : Own (.call pid choice) := trivial
    exact .service (l := ⟨l.relay, c⟩) hown hadvance
  have hown : Own (.spawn pid job) := trivial
  exact .head (.service hown hspawn) hlift

end Sample

/-- One subscription for the events of payments. -/
def subscribed : World :=
  ⟨.idle .initial, ⟨(webhookd Webhook.mutePlatform).occurred (.subscribe
    [⟨1, "https://example.com", ["payment.completed", "payment.canceled"], "secret", true⟩])
      (Cluster.idle Webhook.State.initial : ServiceCluster).scene, fun _ ↦ none⟩⟩

theorem reached_subscribed : Reached Webhook.mutePlatform (fun _ ↦ 0) subscribed := by
  apply Relation.ReflTransGen.single
  have hown : Own (.occur (.subscribe
    [⟨1, "https://example.com", ["payment.completed", "payment.canceled"], "secret", true⟩])) := id
  exact .service (l := .initial) hown rfl

instance (pid : ℕ) (job : Relay.Job) (stmt : Relay.Stmt) (choice : Relay.Choice) (v : Relay.View) :
    Decidable (writing.calls pid job stmt choice v) :=
  inferInstanceAs (Decidable (Relay.oneAtATime.calls pid job stmt choice v))

instance (tx : Relay.Happening) (v : Relay.View) : Decidable (writing.events tx v) :=
  inferInstanceAs (Decidable (Relay.oneAtATime.events tx v ∧ ∀ e ∈ tx.events, Writable e.now))

instance (choice : Webhook.Choice) (s : Webhook.State) (stmt : Webhook.Stmt) :
    Decidable (Webhook.Attentive choice s stmt) :=
  match stmt with
  | .fetchMessage reader =>
    decidable_of_iff (choice.ack = .received ∧ ((s.readers[reader]?).any fun position ↦
        position choice.partition < (s.topic choice.partition).length) = true)
      (by simp [Webhook.Attentive, Option.any_eq_true])
  | .fanOutDelivery params =>
    inferInstanceAs (Decidable (choice.ack = .received ∧ ((s.deliveries ++
      Webhook.fannedOut s.subscriptions s.deliveries params choice.newID choice.now).map
        Webhook.Delivery.id).Nodup))
  | .joinGroup | .commitMessages _ _ | .claimDueDeliveries _ _ | .now | .send _ _ _
  | .markDeliverySucceeded _ | .markDeliveryRetry _ | .markDeliveryDeadLettered _
  | .replayDeadLettered _ => inferInstanceAs (Decidable (choice.ack = .received))

end PaymentRail.Pipeline
