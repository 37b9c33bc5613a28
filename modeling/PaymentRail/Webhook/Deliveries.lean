import PaymentRail.Outbox.Message
import PaymentRail.Transaction.Ack
import PaymentRail.Transaction.Fault
import PaymentRail.Table.Keyset

/-!
# Webhook deliveries and the topic they come from

The tables `webhook_subscriptions` and `webhook_deliveries` with the queries of `db/query/webhook.sql`,
and the topic from which the consumer of `cmd/webhookd` reads.

A statement on the tables is a transaction of its own.  It may fail, and it may take effect and yet be
reported as failed.  A claim skips the rows that another statement has locked at its time; which rows
those are, the order in which `RETURNING` lists rows and the identifiers that the database generates
are choices of the environment.

A reader of the consumer group starts at the committed offsets.  When another reader joins, the older
ones can no longer commit.
-/

namespace PaymentRail.Webhook

open Outbox Table Transaction

inductive Sentinel where
  | errPoisonMessage
  deriving DecidableEq

abbrev Err := Fault Sentinel

inductive DeliveryStatus where
  | pending
  | delivered
  | deadLetter
  deriving DecidableEq

structure Subscription where
  id : UUID
  url : String
  eventTypes : List String
  signingSecret : String
  active : Bool

/-- A row of `webhook_deliveries`; `(event_id, subscription_id)` is unique.  The time stamps that no
query reads are left out. -/
structure Delivery where
  id : UUID
  eventID : UUID
  subscriptionID : UUID
  eventType : String
  payload : Json
  status : DeliveryStatus
  attempts : Int32
  nextAttemptAt : Time
  lastStatusCode : Option Int32
  lastError : Option String

/-- A row of `ClaimDueDeliveries`. -/
structure ClaimedRow where
  id : UUID
  eventID : UUID
  attempts : Int32
  payload : Json
  url : String
  signingSecret : String

structure FanOutDeliveryParams where
  eventID : UUID
  eventType : String
  payload : Json

structure MarkDeliverySucceededParams where
  id : UUID
  attempts : Int32
  lastStatusCode : Option Int32

structure MarkDeliveryRetryParams where
  id : UUID
  attempts : Int32
  nextAttemptAt : Time
  lastStatusCode : Option Int32
  lastError : Option String

structure MarkDeliveryDeadLetteredParams where
  id : UUID
  attempts : Int32
  lastStatusCode : Option Int32
  lastError : Option String

/-! ### The rows that the queries write -/

namespace Delivery

def succeed (params : MarkDeliverySucceededParams) (row : Delivery) : Delivery :=
  { row with
    status := .delivered
    attempts := params.attempts
    lastStatusCode := params.lastStatusCode
    lastError := none }

def retry (params : MarkDeliveryRetryParams) (row : Delivery) : Delivery :=
  { row with
    attempts := params.attempts
    nextAttemptAt := params.nextAttemptAt
    lastStatusCode := params.lastStatusCode
    lastError := params.lastError }

def deadLetter (params : MarkDeliveryDeadLetteredParams) (row : Delivery) : Delivery :=
  { row with
    status := .deadLetter
    attempts := params.attempts
    lastStatusCode := params.lastStatusCode
    lastError := params.lastError }

def replay (now : Time) (row : Delivery) : Delivery :=
  { row with status := .pending, attempts := 0, nextAttemptAt := now, lastError := none }

def lease (until_ : Time) (row : Delivery) : Delivery := { row with nextAttemptAt := until_ }

end Delivery

def Subscription.wants (eventType : String) (s : Subscription) : Bool :=
  s.active && s.eventTypes.contains eventType

/-- The rows of `FanOutDelivery`: one for each subscription that wants the event and has none yet. -/
def fannedOut (subscriptions : List Subscription) (deliveries : List Delivery)
    (params : FanOutDeliveryParams) (newID : UUID → UUID) (now : Time) : List Delivery :=
  (subscriptions.filter fun s ↦ s.wants params.eventType &&
    !deliveries.any fun row ↦ row.eventID = params.eventID && row.subscriptionID = s.id).map fun s ↦
    { id := newID s.id
      eventID := params.eventID
      subscriptionID := s.id
      eventType := params.eventType
      payload := params.payload
      status := .pending
      attempts := 0
      nextAttemptAt := now
      lastStatusCode := none
      lastError := none }

/-- The rows that `ClaimDueDeliveries` selects. -/
def due (deliveries : List Delivery) (now : Time) (locked : UUID → Bool) (rank : UUID → ℕ)
    (limit : ℕ) : List Delivery :=
  (ordered Delivery.nextAttemptAt (ordered (fun row ↦ rank row.id) (deliveries.filter fun row ↦
    row.status = .pending && row.nextAttemptAt ≤ now && !locked row.id))).take limit

/-- A selected row as it is returned, with the columns of its subscription. -/
def Delivery.claimed (subscriptions : List Subscription) (row : Delivery) : Option ClaimedRow :=
  (lookup Subscription.id subscriptions row.subscriptionID).map fun s ↦
    ⟨row.id, row.eventID, row.attempts, row.payload, s.url, s.signingSecret⟩

/-! ### The state -/

/-- A message of a partition. -/
structure Fetched where
  partition : ℕ
  offset : ℕ
  value : Json

/-- The tables, the topic and the readers.  `emitted` are the committed rows of the outbox, and
`fanned` records for every fan-out that took effect its event and the subscriptions at that time. -/
structure State where
  subscriptions : List Subscription
  deliveries : List Delivery
  emitted : List OutboxRow
  topic : ℕ → List Json
  committed : ℕ → ℕ
  readers : List (ℕ → ℕ)
  fanned : List (UUID × List Subscription)

/-- Nothing has been emitted yet. -/
def State.initial : State := ⟨[], [], [], fun _ ↦ [], fun _ ↦ 0, [], []⟩

/-- What a `Sender` reports. -/
structure SendResult where
  statusCode : ℤ
  deriving DecidableEq

inductive Stmt where
  | joinGroup
  | fetchMessage (reader : ℕ)
  | commitMessages (reader : ℕ) (m : Fetched)
  | fanOutDelivery (params : FanOutDeliveryParams)
  | claimDueDeliveries (leaseSeconds claimLimit : ℕ)
  | now
  | send (row : ClaimedRow) (sig : String) (attempt : Int32)
  | markDeliverySucceeded (params : MarkDeliverySucceededParams)
  | markDeliveryRetry (params : MarkDeliveryRetryParams)
  | markDeliveryDeadLettered (params : MarkDeliveryDeadLetteredParams)
  | replayDeadLettered (subscriptionID : UUID)

abbrev Reply : Stmt → Type
  | .joinGroup => ℕ
  | .fetchMessage _ => Except Err Fetched
  | .commitMessages _ _ => Except Err Unit
  | .fanOutDelivery _ => Except Err ℕ
  | .claimDueDeliveries _ _ => Except Err (List ClaimedRow)
  | .now => Time
  | .send _ _ _ => Except String SendResult
  | .markDeliverySucceeded _ | .markDeliveryRetry _ | .markDeliveryDeadLettered _ => Except Err Unit
  | .replayDeadLettered _ => Except Err ℕ

/-- What the environment has to say about a call: the time, what becomes of the statement, the rows
that are locked, the order of rows without one, new identifiers, the partition a message comes from and
the response of an endpoint. -/
structure Choice where
  now : Time
  ack : Ack String
  locked : UUID → Bool
  rank : UUID → ℕ
  newID : UUID → UUID
  partition : ℕ
  response : Except String SendResult

/-- The answer to a statement and the state after it.  A failure of the database is none of the errors of
the package. -/
def Choice.settle {α : Type} (choice : Choice) (reply : α) (before after : State) : Except Err α × State :=
  (choice.ack.map Fault.plain).settle (.ok reply) before after

def errGroup : Err := .plain "kafka: the reader is not in the group"

def errFetch : Err := .plain "context canceled"

def errUnique : Err := .plain "duplicate key value violates unique constraint"

namespace State

variable (s : State)

/-- Every row changes in one way. -/
def mapDeliveries (f : Delivery → Delivery) : State := { s with deliveries := s.deliveries.map f }

def fanOut (params : FanOutDeliveryParams) (rows : List Delivery) : State :=
  { s with
    deliveries := s.deliveries ++ rows
    fanned := s.fanned ++ [(params.eventID, s.subscriptions)] }

/-- The rows of a claim: due, and joined with their subscription. -/
def claimable (choice : Choice) (limit : ℕ) : List ClaimedRow :=
  (due s.deliveries choice.now choice.locked choice.rank limit).filterMap
    (Delivery.claimed s.subscriptions)

def claim (choice : Choice) (leaseSeconds limit : ℕ) : State :=
  s.mapDeliveries fun row ↦
    if (s.claimable choice limit).any fun claimed ↦ claimed.id = row.id then
      row.lease (choice.now + leaseSeconds * 10 ^ 9)
    else row

def mark (id : UUID) (f : Delivery → Delivery) : State :=
  s.mapDeliveries fun row ↦ if row.id = id then f row else row

/-- A reader is one message further in a partition. -/
def advance (reader : ℕ) (position : ℕ → ℕ) (partition : ℕ) : State :=
  { s with
    readers := s.readers.set reader (Function.update position partition (position partition + 1)) }

def commit (m : Fetched) : State :=
  { s with committed := Function.update s.committed m.partition (m.offset + 1) }

/-- The rows that `ReplayDeadLettered` updates. -/
def dead (subscriptionID : UUID) (row : Delivery) : Bool :=
  row.status = .deadLetter && row.subscriptionID = subscriptionID

end State

/-- The effect of a call. -/
def eval : (stmt : Stmt) → Choice → State → Reply stmt × State
  | .joinGroup, _, s => (s.readers.length, { s with readers := s.readers ++ [s.committed] })
  | .fetchMessage reader, choice, s =>
    match s.readers[reader]? with
    | none => (.error errGroup, s)
    | some position =>
      match (s.topic choice.partition)[position choice.partition]? with
      | none => (.error errFetch, s)
      | some value =>
        choice.settle ⟨choice.partition, position choice.partition, value⟩ s
          (s.advance reader position choice.partition)
  | .commitMessages reader m, choice, s =>
    if reader + 1 = s.readers.length then choice.settle () s (s.commit m)
    else (.error errGroup, s)
  | .fanOutDelivery params, choice, s =>
    let rows := fannedOut s.subscriptions s.deliveries params choice.newID choice.now
    if ((s.deliveries ++ rows).map Delivery.id).Nodup then
      choice.settle rows.length s (s.fanOut params rows)
    else (.error errUnique, s)
  | .claimDueDeliveries leaseSeconds claimLimit, choice, s =>
    choice.settle (ordered (fun row ↦ choice.rank row.id) (s.claimable choice claimLimit)) s
      (s.claim choice leaseSeconds claimLimit)
  | .now, choice, s => (choice.now, s)
  | .send _ _ _, choice, s => (choice.response, s)
  | .markDeliverySucceeded params, choice, s =>
    choice.settle () s (s.mark params.id (·.succeed params))
  | .markDeliveryRetry params, choice, s =>
    choice.settle () s (s.mark params.id (·.retry params))
  | .markDeliveryDeadLettered params, choice, s =>
    choice.settle () s (s.mark params.id (·.deadLetter params))
  | .replayDeadLettered subscriptionID, choice, s =>
    choice.settle ((s.deliveries.filter (State.dead subscriptionID)).length) s
      (s.mapDeliveries fun row ↦
        if State.dead subscriptionID row then row.replay choice.now else row)

/-! ### What a call does to the rows -/

/-- What may become of a row in a statement. -/
inductive Rewrites : Stmt → Delivery → Delivery → Prop where
  | keep (stmt : Stmt) (row : Delivery) : Rewrites stmt row row
  | lease (leaseSeconds claimLimit : ℕ) (row : Delivery) (time : Time) :
    Rewrites (.claimDueDeliveries leaseSeconds claimLimit) row (row.lease time)
  | succeed (params : MarkDeliverySucceededParams) (row : Delivery) (h : row.id = params.id) :
    Rewrites (.markDeliverySucceeded params) row (row.succeed params)
  | retry (params : MarkDeliveryRetryParams) (row : Delivery) (h : row.id = params.id) :
    Rewrites (.markDeliveryRetry params) row (row.retry params)
  | deadLetter (params : MarkDeliveryDeadLetteredParams) (row : Delivery) (h : row.id = params.id) :
    Rewrites (.markDeliveryDeadLettered params) row (row.deadLetter params)
  | replay (subscriptionID : UUID) (row : Delivery) (time : Time) (h : row.status = .deadLetter) :
    Rewrites (.replayDeadLettered subscriptionID) row (row.replay time)

theorem Rewrites.id_eq {stmt : Stmt} {row row' : Delivery} (h : Rewrites stmt row row') :
    row'.id = row.id := by
  cases h <;> rfl

theorem settle_received {choice : Choice} (h : choice.ack = .received) {α : Type} (reply : α)
    (before after : State) : choice.settle reply before after = (.ok reply, after) := by
  rw [Choice.settle, h]
  rfl

theorem settle_ok {α : Type} {choice : Choice} {reply result : α} {before after : State}
    (h : (choice.settle reply before after).1 = .ok result) :
    result = reply ∧ (choice.settle reply before after).2 = after := by
  obtain ⟨hreply, hafter⟩ := Ack.settle_ok h
  exact ⟨(Except.ok.inj hreply).symm, hafter⟩

theorem settle_error {α : Type} {choice : Choice} {reply : α} {before after : State} {err : Err}
    (h : (choice.settle reply before after).1 = .error err) : err.cause = none := by
  unfold Choice.settle at h
  cases hack : choice.ack with
  | received =>
    rw [hack] at h
    cases h
  | failed text =>
    rw [hack] at h
    exact congrArg Fault.cause (Except.error.inj h).symm
  | lost text =>
    rw [hack] at h
    exact congrArg Fault.cause (Except.error.inj h).symm

/-- What a statement can do to the state. -/
inductive Effect (choice : Choice) (s : State) : Stmt → State → Prop where
  | none (stmt : Stmt) : Effect choice s stmt s
  | join : Effect choice s .joinGroup { s with readers := s.readers ++ [s.committed] }
  | fetch (reader : ℕ) (position : ℕ → ℕ) (h : s.readers[reader]? = some position) :
    Effect choice s (.fetchMessage reader) (s.advance reader position choice.partition)
  | commit (reader : ℕ) (m : Fetched) : Effect choice s (.commitMessages reader m) (s.commit m)
  | fanOut (params : FanOutDeliveryParams)
    (h : ((s.deliveries ++ fannedOut s.subscriptions s.deliveries params choice.newID
      choice.now).map Delivery.id).Nodup) :
    Effect choice s (.fanOutDelivery params)
      (s.fanOut params (fannedOut s.subscriptions s.deliveries params choice.newID choice.now))
  | rewrite (stmt : Stmt) (f : Delivery → Delivery) (h : ∀ row, Rewrites stmt row (f row)) :
    Effect choice s stmt (s.mapDeliveries f)

theorem Effect.settle {α : Type} {stmt : Stmt} {choice : Choice} {s s' : State} {reply : α}
    (h : Effect choice s stmt s') : Effect choice s stmt (choice.settle reply s s').2 :=
  Ack.settle_cases _ _ (.none stmt) h

theorem effect_eval (stmt : Stmt) (choice : Choice) (s : State) :
    Effect choice s stmt (eval stmt choice s).2 := by
  cases stmt with
  | joinGroup => exact .join
  | fetchMessage reader =>
    simp only [eval]
    split
    · exact .none _
    · next position hreader =>
      split
      · exact .none _
      · exact Effect.settle (.fetch reader position hreader)
  | commitMessages reader m =>
    simp only [eval]
    split
    · exact Effect.settle (.commit reader m)
    · exact .none _
  | fanOutDelivery params =>
    simp only [eval]
    split
    · next hnodup => exact Effect.settle (.fanOut params hnodup)
    · exact .none _
  | claimDueDeliveries leaseSeconds claimLimit =>
    refine Effect.settle (.rewrite _ _ fun row ↦ ?_)
    split
    · exact .lease ..
    · exact .keep ..
  | now => exact .none _
  | send row sig attempt => exact .none _
  | markDeliverySucceeded params =>
    refine Effect.settle (.rewrite _ _ fun row ↦ ?_)
    split
    · next hid => exact .succeed params row hid
    · exact .keep ..
  | markDeliveryRetry params =>
    refine Effect.settle (.rewrite _ _ fun row ↦ ?_)
    split
    · next hid => exact .retry params row hid
    · exact .keep ..
  | markDeliveryDeadLettered params =>
    refine Effect.settle (.rewrite _ _ fun row ↦ ?_)
    split
    · next hid => exact .deadLetter params row hid
    · exact .keep ..
  | replayDeadLettered subscriptionID =>
    refine Effect.settle (.rewrite _ _ fun row ↦ ?_)
    split
    · next hdead =>
      simp only [State.dead, Bool.and_eq_true, decide_eq_true_eq] at hdead
      exact .replay subscriptionID row _ hdead.1
    · exact .keep ..

section Effects

variable {stmt : Stmt} {choice : Choice} {s s' : State} {row row' : Delivery}

/-- Where a row comes from. -/
theorem Effect.of_mem (h : Effect choice s stmt s') (hrow : row' ∈ s'.deliveries) :
    (∃ row ∈ s.deliveries, Rewrites stmt row row') ∨ ∃ params, stmt = .fanOutDelivery params ∧
      row' ∈ fannedOut s.subscriptions s.deliveries params choice.newID choice.now := by
  cases h with
  | fanOut params =>
    rcases List.mem_append.mp hrow with hold | hnew
    · exact .inl ⟨row', hold, .keep _ row'⟩
    · exact .inr ⟨params, rfl, hnew⟩
  | rewrite stmt f hf =>
    obtain ⟨row, hold, rfl⟩ := List.mem_map.mp hrow
    exact .inl ⟨row, hold, hf row⟩
  | _ => exact .inl ⟨row', hrow, .keep _ row'⟩

/-- Rows are never deleted. -/
theorem Effect.exists_of_mem (h : Effect choice s stmt s') (hrow : row ∈ s.deliveries) :
    ∃ row' ∈ s'.deliveries, Rewrites stmt row row' := by
  cases h with
  | fanOut params => exact ⟨row, List.mem_append_left _ hrow, .keep _ row⟩
  | rewrite stmt f hf => exact ⟨f row, List.mem_map_of_mem hrow, hf row⟩
  | _ => exact ⟨row, hrow, .keep _ row⟩

/-- What every rewriting keeps is the same for all rows. -/
theorem map_rewrites {α : Type} {f : Delivery → Delivery} (key : Delivery → α)
    (hkey : ∀ row row', Rewrites stmt row row' → key row' = key row)
    (hf : ∀ row, Rewrites stmt row (f row)) (rows : List Delivery) :
    (rows.map f).map key = rows.map key := by
  rw [List.map_map]
  exact List.map_congr_left fun row _ ↦ hkey row (f row) (hf row)

/-- The identifiers stay unique; a fan-out for which they would not fails. -/
theorem Effect.nodup (h : Effect choice s stmt s') (hnodup : (s.deliveries.map Delivery.id).Nodup) :
    (s'.deliveries.map Delivery.id).Nodup := by
  cases h with
  | fanOut params hnodup' => exact hnodup'
  | rewrite stmt f hf =>
    rw [State.mapDeliveries, map_rewrites Delivery.id (fun _ _ ↦ Rewrites.id_eq) hf]
    exact hnodup
  | _ => exact hnodup

end Effects

/-- The answer to a claim has pending rows that were due, as they were in the table. -/
theorem claimed_of_eval {leaseSeconds claimLimit : ℕ} {choice : Choice} {s : State}
    {rows : List ClaimedRow}
    (h : (eval (.claimDueDeliveries leaseSeconds claimLimit) choice s).1 = .ok rows)
    {claimed : ClaimedRow} (hclaimed : claimed ∈ rows) :
    ∃ row ∈ s.deliveries, row.status = .pending ∧ row.id = claimed.id ∧
      row.attempts = claimed.attempts := by
  obtain ⟨rfl, -⟩ := settle_ok h
  have hclaimed : claimed ∈ s.claimable choice claimLimit := (List.mem_insertionSort _).mp hclaimed
  obtain ⟨row, hrow, hjoin⟩ := List.mem_filterMap.mp hclaimed
  obtain ⟨subscription, -, rfl⟩ := Option.map_eq_some_iff.mp hjoin
  have hdue := (List.mem_insertionSort _).mp
    ((List.mem_insertionSort _).mp (List.mem_of_mem_take hrow))
  obtain ⟨hmem, hpending⟩ := List.mem_filter.mp hdue
  simp only [Bool.and_eq_true, decide_eq_true_eq] at hpending
  exact ⟨row, hmem, hpending.1.1, rfl, rfl⟩

/-- A claim returns no row twice. -/
theorem nodup_claimed_of_eval {leaseSeconds claimLimit : ℕ} {choice : Choice} {s : State}
    {rows : List ClaimedRow}
    (h : (eval (.claimDueDeliveries leaseSeconds claimLimit) choice s).1 = .ok rows)
    (hnodup : (s.deliveries.map Delivery.id).Nodup) : (rows.map ClaimedRow.id).Nodup := by
  obtain ⟨rfl, -⟩ := settle_ok h
  have hdue : (due s.deliveries choice.now choice.locked choice.rank claimLimit).Pairwise
      (fun row other ↦ row.id ≠ other.id) := by
    refine List.Pairwise.sublist (List.take_sublist ..) ?_
    refine (((List.perm_insertionSort _ _).trans (List.perm_insertionSort _ _)).pairwise_iff
      fun hne ↦ hne.symm).mpr ?_
    exact (List.pairwise_map.mp hnodup).filter _
  refine (((List.perm_insertionSort _ _).map _).nodup_iff).mpr (List.pairwise_map.mpr ?_)
  refine List.pairwise_filterMap.mpr (hdue.imp fun hne claimed hclaimed other hother ↦ ?_)
  obtain ⟨subscription, -, rfl⟩ := Option.map_eq_some_iff.mp hclaimed
  obtain ⟨subscription', -, rfl⟩ := Option.map_eq_some_iff.mp hother
  exact hne

end PaymentRail.Webhook
