import PaymentRail.Ledger.Balance
import PaymentRail.Table.Window
import PaymentRail.Transaction.Fault

/-!
# Velocity limits

`VelocityLimiter.Charge` over the Postgres store (`internal/policy/velocity.go`,
`cmd/paymentrailctl/velocitystore.go`).  A charge reads the clock, takes the advisory lock of its
signing key, sums the events of the key since the start of its window and, if the caps leave room,
inserts an event of its own.

The clocks of the callers are arbitrary, so events are inserted out of order and with times before
the ones already there.  The sum has no upper limit in time, and that is what carries the bound to
every window: see `PaymentRail.Table.Window`.  The generated id of an event is left out.
-/

namespace PaymentRail.Policy

open Transaction

/-- What `errors.Is` looks for in the errors of the payment policy. -/
inductive Sentinel where
  | errDenied
  | errVelocityExceeded
  | errSelfApproval
  | errUnknownApprover
  deriving DecidableEq

abbrev Err := Fault Sentinel

def errVelocityExceeded : Err := ⟨"policy: velocity limit exceeded", some .errVelocityExceeded⟩

/-- `maxCount` is unlimited when 0, `maxAmount` when absent. -/
structure VelocityCaps where
  window : ℤ
  maxCount : UInt64
  maxAmount : Option ℤ
  deriving DecidableEq

def VelocityCaps.enabled (caps : VelocityCaps) : Bool :=
  0 < caps.window ∧ (0 < caps.maxCount ∨ caps.maxAmount.isSome)

structure Usage where
  count : UInt64
  sum : ℤ

/-- The decision of the limiter on the usage that the store reports. -/
def VelocityCaps.decide (caps : VelocityCaps) (amount : ℤ) (usage : Usage) : Except Err Unit :=
  if 0 < caps.maxCount ∧ caps.maxCount < usage.count + 1 then
    .error (errVelocityExceeded.wrap
      ("velocity count " ++ toString usage.count ++ "+1 > cap " ++ toString caps.maxCount))
  else if caps.maxAmount.any fun maxAmount ↦ maxAmount < usage.sum + amount then
    .error (errVelocityExceeded.wrap "velocity amount over cap")
  else .ok ()

end PaymentRail.Policy

namespace PaymentRail.Policy.Velocity

open Transaction

/-! ### The event table -/

/-- A row of `velocity_events`, with the `CHECK` on its amount. -/
structure Event where
  keyID : String
  amount : Int64
  occurredAt : Time
  positive : 0 < amount.toInt
  deriving DecidableEq

structure SumVelocityWindowRow where
  count : Int64
  sum : Int64

inductive Stmt where
  | timeNow
  | acquireVelocityLock (key : Int64)
  | sumVelocityWindow (keyID : String) (since : Time)
  | insertVelocityEvent (keyID : String) (amount : Int64) (occurredAt : Time)

abbrev Reply : Stmt → Type
  | .timeNow => Time
  | .acquireVelocityLock .. | .insertVelocityEvent .. => Except Err Unit
  | .sumVelocityWindow .. => Except Err SumVelocityWindowRow

/-- The events of one key, in the order of their commits. -/
def eventsOf (keyID : String) (events : List Event) : List Event :=
  events.filter fun event ↦ event.keyID = keyID

/-- The cast to `bigint`. -/
def bigint (value : ℤ) : Except Err Int64 :=
  if -2 ^ 63 ≤ value ∧ value < 2 ^ 63 then .ok (Int64.ofInt value)
  else .error (.plain "pq: bigint out of range (22003)")

/-- The total amount of some events. -/
def total (events : List Event) : ℤ := Window.load (fun event ↦ event.amount.toInt) events

/-- `SELECT COUNT(*)::bigint, COALESCE(SUM(amount), 0)::bigint`. -/
def sumRow (events : List Event) : Except Err SumVelocityWindowRow := do
  let count ← bigint events.length
  let sum ← bigint (total events)
  return ⟨count, sum⟩

/-- What a statement replies, writes and locks.  The clock of the caller is the ambient value. -/
def Stmt.eval : (stmt : Stmt) → Time → List Event → Effect (Reply stmt) Event Int64
  | .timeNow, now, _ => ⟨now, [], []⟩
  | .acquireVelocityLock key, _, _ => ⟨.ok (), [], [key]⟩
  | .sumVelocityWindow keyID since, _, events =>
    ⟨sumRow (Window.since Event.occurredAt since (eventsOf keyID events)), [], []⟩
  | .insertVelocityEvent keyID amount occurredAt, _, _ =>
    if h : 0 < amount.toInt then ⟨.ok (), [⟨keyID, amount, occurredAt, h⟩], []⟩
    else ⟨.error (.plain ("pq: new row for relation \"velocity_events\" violates check constraint " ++
      "\"velocity_events_amount_check\" (23514)")), [], []⟩

/-- The event table as an engine; a write is the row it inserts. -/
def store : Engine Reply Time (List Event) Event Int64 where
  apply events event := events ++ [event]
  eval := Stmt.eval

/-! ### Charging -/

/-- The FNV-1a hash of a key id, as `bigint`. -/
def advisoryKey (keyID : String) : Int64 :=
  (keyID.toUTF8.data.foldl (fun hash byte ↦ (hash ^^^ byte.toUInt64) * 1099511628211)
    (14695981039346656037 : UInt64)).toInt64

/-- `pgVelocityStore.Charge`, with the decision that the limiter passes to it. -/
def storeCharge (keyID : String) (amount window : ℤ) (now : Time)
    (decide : Usage → Except Err Unit) : Tx Reply Err Unit := do
  if ¬(-2 ^ 63 ≤ amount ∧ amount < 2 ^ 63) then
    Tx.fail (.plain ("velocity: amount exceeds int64 range for key " ++ keyID))
  else
    Tx.orFail (← Tx.stmt (.acquireVelocityLock (advisoryKey keyID)))
      (Fault.wrap "velocity: acquire lock")
    let row ← Tx.orFail (← Tx.stmt (.sumVelocityWindow keyID (now - window)))
      (Fault.wrap "velocity: sum window")
    Tx.ofExcept (decide ⟨row.count.toUInt64, row.sum.toInt⟩)
    Tx.orFail (← Tx.stmt (.insertVelocityEvent keyID (Int64.ofInt amount) now))
      (Fault.wrap "velocity: insert event")

/-- A call of `Charge`; the amount is a pointer. -/
structure Call where
  keyID : String
  amount : Option ℤ
  deriving DecidableEq

/-- The error for an amount that is missing or not positive. -/
def errAmount (keyID : String) : Err :=
  .plain ("policy: velocity charge for " ++ Ledger.quote keyID ++ " requires amount > 0")

/-- `VelocityLimiter.Charge`. -/
def charge (caps : VelocityCaps) (call : Call) : Tx Reply Err Unit :=
  if caps.enabled then
    match call.amount with
    | none => Tx.fail (errAmount call.keyID)
    | some amount =>
      if amount ≤ 0 then Tx.fail (errAmount call.keyID)
      else do
        let now ← Tx.stmt .timeNow
        storeCharge call.keyID amount caps.window now (caps.decide amount)
  else pure ()

/-! ### What one charge does -/

/-- The events of a key that the check before an event looks at. -/
def earlier (caps : VelocityCaps) (event : Event) (events : List Event) : List Event :=
  Window.since Event.occurredAt (event.occurredAt - caps.window) (eventsOf event.keyID events)

/-- The caps leave room for an event. -/
structure Fits (caps : VelocityCaps) (event : Event) (events : List Event) : Prop where
  count : 0 < caps.maxCount → (earlier caps event events).length + 1 ≤ caps.maxCount.toNat
  amount : ∀ maxAmount ∈ caps.maxAmount,
    total (earlier caps event events) + event.amount.toInt ≤ maxAmount

/-- A charge has inserted an event that fits, under the lock of its key; one that failed has inserted
nothing. -/
def Post (caps : VelocityCaps) (call : Call) :
    Except Err Unit → List Event → List Int64 → List Event → Prop
  | .ok _, writes, locks, events => ∃ event, writes = [event] ∧ event.keyID = call.keyID ∧
      advisoryKey call.keyID ∈ locks ∧ Fits caps event events
  | .error _, writes, _, _ => writes = []

/-- The events of a key stay as they are while its lock is held. -/
def Held (locks : List Int64) (events events' : List Event) : Prop :=
  ∀ keyID, advisoryKey keyID ∈ locks → eventsOf keyID events' = eventsOf keyID events

section Charging

variable {caps : VelocityCaps} {event : Event} {events events' : List Event} {locks : List Int64}

theorem Fits.stable (h : Fits caps event events) (hheld : Held locks events events')
    (hlock : advisoryKey event.keyID ∈ locks) : Fits caps event events' := by
  have hsame : earlier caps event events' = earlier caps event events := by
    rw [earlier, hheld _ hlock, earlier]
  exact ⟨by rw [hsame]; exact h.count, by rw [hsame]; exact h.amount⟩

theorem bigint_ok {value : ℤ} {result : Int64} (h : bigint value = .ok result) :
    result.toInt = value := by
  unfold bigint at h
  split at h
  · next hrange =>
    rw [← Except.ok.inj h]
    exact Int64.toInt_ofInt_of_le hrange.1 hrange.2
  · cases h

theorem sumRow_ok {row : SumVelocityWindowRow} (h : sumRow events = .ok row) :
    row.count.toInt = events.length ∧ row.sum.toInt = total events := by
  obtain ⟨count, hcount, h⟩ := bind_eq_ok.mp h
  obtain ⟨sum, hsum, h⟩ := bind_eq_ok.mp h
  rw [← Except.ok.inj h]
  exact ⟨bigint_ok hcount, bigint_ok hsum⟩

/-- The count of a window is not negative, so as `uint64` it has room for one more. -/
theorem toNat_count_add_one {count : Int64} {length : ℕ} (h : count.toInt = length) :
    (count.toUInt64 + 1).toNat = length + 1 := by
  have hbound := Int64.toInt_lt count
  have hnonneg : 0 ≤ count := by
    rw [Int64.le_iff_toInt_le, h]
    exact Int.natCast_nonneg length
  have hnat : count.toUInt64.toNat = length := by
    rw [Int64.toNat_toUInt64_of_le hnonneg, Int64.toNatClampNeg, h, Int.toNat_natCast]
  rw [UInt64.toNat_add, hnat]
  simp
  omega

/-- A decision that admits a charge leaves room for its event. -/
theorem fits_of_decide {amount : ℤ} {row : SumVelocityWindowRow}
    (hrow : sumRow (earlier caps event events) = .ok row) (hamount : event.amount.toInt = amount)
    (h : caps.decide amount ⟨row.count.toUInt64, row.sum.toInt⟩ = .ok ()) :
    Fits caps event events := by
  obtain ⟨hcount, hsum⟩ := sumRow_ok hrow
  unfold VelocityCaps.decide at h
  split at h
  · cases h
  · next hroom =>
    split at h
    · cases h
    · next hunder =>
      refine ⟨fun hset ↦ ?_, fun maxAmount hmax ↦ ?_⟩
      · have hle : row.count.toUInt64 + 1 ≤ caps.maxCount := by
          rw [← UInt64.not_lt]
          exact fun hlt ↦ hroom ⟨hset, hlt⟩
        rw [← toNat_count_add_one hcount]
        exact UInt64.le_iff_toNat_le.mp hle
      · rw [Option.mem_def] at hmax
        simp only [hmax, Option.any_some, decide_eq_true_eq, Int.not_lt] at hunder
        rw [hamount, ← hsum]
        exact hunder

theorem wp_storeCharge {call : Call} {amount now : ℤ} (hpositive : 0 < amount)
    (events : List Event) :
    wp store unrestricted Held
      (storeCharge call.keyID amount caps.window now (caps.decide amount)) (Post caps call) [] []
      events := by
  unfold storeCharge
  split
  · exact rfl
  · next hrange =>
    rw [not_not] at hrange
    rw [wp_stmt_bind]
    intro _ locked _ _
    rw [wp_tx_bind, wp_tx_orFail]
    refine ⟨fun _ _ ↦ ?_, fun _ _ ↦ rfl⟩
    rw [wp_andThen_ok, wp_stmt_bind]
    intro _ read _ _
    rw [wp_tx_bind, wp_tx_orFail]
    refine ⟨fun row hrow ↦ ?_, fun _ _ ↦ rfl⟩
    rw [wp_andThen_ok, wp_tx_bind, wp_ofExcept]
    cases hdecide : caps.decide amount ⟨row.count.toUInt64, row.sum.toInt⟩ with
    | error err => exact rfl
    | ok _ =>
      rw [wp_andThen_ok, wp_stmt_bind]
      intro _ after hafter _
      have hamount : (Int64.ofInt amount).toInt = amount := Int64.toInt_ofInt_of_le hrange.1 hrange.2
      have hinsert : 0 < (Int64.ofInt amount).toInt := by rw [hamount]; exact hpositive
      let event : Event := ⟨call.keyID, Int64.ofInt amount, now, hinsert⟩
      have hheld : advisoryKey event.keyID ∈ [] ++ [advisoryKey call.keyID] ++ [] := by simp [event]
      have hfits : Fits caps event read := fits_of_decide hrow hamount hdecide
      rw [wp_tx_orFail]
      simp only [store, Stmt.eval, dif_pos hinsert]
      refine ⟨fun _ _ ↦ ?_, fun _ herr ↦ by cases herr⟩
      exact ⟨event, rfl, rfl, by simp, hfits.stable hafter hheld⟩

theorem wp_charge (henabled : caps.enabled) (call : Call) (events : List Event) :
    wp store unrestricted Held (charge caps call) (Post caps call) [] [] events := by
  unfold charge
  rw [if_pos henabled]
  split
  · exact rfl
  · next amount _ =>
    split
    · exact rfl
    · next hpositive =>
      rw [wp_stmt_bind]
      intro now read _ _
      exact wp_storeCharge (not_le.mp hpositive) read

end Charging

/-! ### Interleavings -/

/-- The event table with open charges over it. -/
abbrev ChargeState := State Reply (List Event) Event Int64 Call Err Unit

theorem discipline {caps : VelocityCaps} (henabled : caps.enabled) :
    Discipline store unrestricted Held (charge caps) (Post caps) where
  refl _ _ _ _ := rfl
  trans _ _ _ _ h h' keyID hlock := (h' keyID hlock).trans (h keyID hlock)
  stable call result writes locks events events' hpost hheld := by
    cases result with
    | error err => exact hpost
    | ok _ =>
      obtain ⟨event, hwrites, hkey, hlock, hfits⟩ := hpost
      exact ⟨event, hwrites, hkey, hlock, hfits.stable hheld (by rw [hkey]; exact hlock)⟩
  verified := wp_charge henabled
  guarantee call _ writes locks events others hpost hothers := by
    obtain ⟨event, rfl, hkey, hlock, -⟩ := hpost
    intro keyID hheld
    -- an event of the key would have been inserted under the lock that the peer holds
    have hne : event.keyID ≠ keyID := by
      rintro rfl
      exact hothers _ hlock (by rw [← hkey]; exact hheld)
    simp [Engine.view, store, eventsOf, List.filter_append, hne]

/-- The caps hold of every window of every key.  A window without an event is held to no amount: its
sum of 0 is over a negative cap. -/
def Within (caps : VelocityCaps) (events : List Event) : Prop :=
  ∀ keyID instant,
    let window := Window.between Event.occurredAt (instant - caps.window) instant
      (eventsOf keyID events)
    (0 < caps.maxCount → window.length ≤ caps.maxCount.toNat) ∧
      ∀ maxAmount ∈ caps.maxAmount, window ≠ [] → total window ≤ maxAmount

theorem within_nil (caps : VelocityCaps) : Within caps [] :=
  fun _ _ ↦ ⟨fun _ ↦ Nat.zero_le _, fun _ _ hsome ↦ absurd rfl hsome⟩

section Windows

variable {caps : VelocityCaps} {event : Event} {events : List Event}

theorem load_one (events : List Event) : Window.load (fun _ ↦ 1) events = events.length := by
  simp [Window.load]

/-- Both caps as bounds on the windows of each key. -/
theorem within_iff : Within caps events ↔ ∀ keyID,
    (0 < caps.maxCount → Window.Bounded Event.occurredAt (fun _ ↦ 1) caps.window
      caps.maxCount.toNat (eventsOf keyID events)) ∧
    ∀ maxAmount ∈ caps.maxAmount, Window.Bounded Event.occurredAt (fun event ↦ event.amount.toInt)
      caps.window maxAmount (eventsOf keyID events) := by
  simp only [Within, Window.Bounded, load_one, Nat.cast_le]
  constructor
  · intro h keyID
    exact ⟨fun hset instant _ ↦ (h keyID instant).1 hset,
      fun maxAmount hmax instant ↦ (h keyID instant).2 maxAmount hmax⟩
  · intro h keyID instant
    refine ⟨fun hset ↦ ?_, fun maxAmount hmax ↦ (h keyID).2 maxAmount hmax instant⟩
    by_cases hnone : Window.between Event.occurredAt (instant - caps.window) instant
        (eventsOf keyID events) = []
    · rw [hnone]
      exact Nat.zero_le _
    · exact (h keyID).1 hset instant hnone

/-- An event that fits keeps the caps. -/
theorem Within.concat (h : Within caps events) (hfits : Fits caps event events) :
    Within caps (events ++ [event]) := by
  rw [within_iff] at h ⊢
  intro keyID
  obtain ⟨hcount, hamount⟩ := h keyID
  by_cases hkey : event.keyID = keyID
  · subst hkey
    have hevents : eventsOf event.keyID (events ++ [event]) = eventsOf event.keyID events ++ [event] := by
      simp [eventsOf, List.filter_append]
    rw [hevents]
    refine ⟨fun hset ↦ (hcount hset).concat (fun _ _ ↦ Int.one_nonneg) ?_,
      fun maxAmount hmax ↦ (hamount maxAmount hmax).concat (fun other _ ↦ other.positive.le)
        (hfits.amount maxAmount hmax)⟩
    rw [load_one]
    exact_mod_cast hfits.count hset
  · have hevents : eventsOf keyID (events ++ [event]) = eventsOf keyID events := by
      simp [eventsOf, List.filter_append, hkey]
    rw [hevents]
    exact ⟨hcount, hamount⟩

theorem within_serial {start : List Event} (hstart : Within caps start)
    {history : List (Commit Event Call Unit)}
    (h : Serial store (fun call result writes events ↦
      ∃ locks, Post caps call (.ok result) writes locks events) start history events) :
    Within caps events := by
  induction h with
  | nil => exact hstart
  | cons commit _ hcommit ih =>
    obtain ⟨locks, event, hwrites, -, -, hfits⟩ := hcommit
    rw [hwrites]
    exact ih.concat hfits

end Windows

/-- Over every interleaving of charges under enabled caps, whatever their clocks, the caps hold of every
window of every key in every committed state, and a charge that was refused changes nothing. -/
theorem windows_within_caps {caps : VelocityCaps} (henabled : caps.enabled) {start : List Event}
    (hstart : Within caps start) {s : ChargeState}
    (h : Reaches store (charge caps) unrestricted start s) :
    Within caps s.db ∧
    ∀ tid call err writes locks, s.session tid = some ⟨call, .done (.error err), writes, locks⟩ →
      err.is .errVelocityExceeded → writes = [] ∧
        ∀ action s', action.tid = tid → step store (charge caps) s action = some s' → s'.db = s.db := by
  have hdiscipline := discipline henabled
  refine ⟨within_serial hstart (hdiscipline.serial h), ?_⟩
  intro tid call err writes locks hsession _
  refine ⟨(hdiscipline.covered h tid _ hsession).1, ?_⟩
  rintro action s' rfl hstep
  exact step_db_of_failed hsession hstep

/-- Two keys under caps of two events and an amount of 100 in a window of 10: the first charge has
the latest clock, the third is refused and the fourth commits after it. -/
def sampleSchedule : List (Action Call Time) :=
  let exec (tid : ℕ) (now : Time) : Action Call Time := .exec tid now
  [.start 0 ⟨"hot", some 60⟩, .start 1 ⟨"hot", some 40⟩, .start 2 ⟨"hot", some 1⟩,
    .start 3 ⟨"cold", some 5⟩, exec 1 95, exec 2 101, exec 0 100, exec 0 0, exec 0 0, exec 0 0,
    .commit 0, exec 1 0, exec 1 0, exec 1 0, .commit 1, exec 2 0, exec 2 0, exec 3 0, exec 3 0,
    exec 3 0, exec 3 0, .commit 3]

theorem windows_within_caps_sample : ∃ s : ChargeState,
    schedule store (charge ⟨10, 2, some 100⟩) (State.idle []) sampleSchedule = some s ∧
    s.db.map (fun event ↦ (event.keyID, event.occurredAt)) =
      [("hot", 100), ("hot", 95), ("cold", 0)] ∧ Within ⟨10, 2, some 100⟩ s.db := by
  have hrun : (schedule store (charge ⟨10, 2, some 100⟩) (State.idle []) sampleSchedule).map
      (fun s : ChargeState ↦ s.db.map fun event ↦ (event.keyID, event.occurredAt)) =
        some [("hot", 100), ("hot", 95), ("cold", 0)] := by decide +kernel
  obtain ⟨s, hs, hevents⟩ := Option.map_eq_some_iff.mp hrun
  have hreach := reaches_of_schedule .idle hs (permittedRun_unrestricted _ _)
  exact ⟨s, hs, hevents, (windows_within_caps (by decide) (within_nil _) hreach).1⟩

/-- Under a negative cap on the amount a window without an event is over it. -/
theorem empty_window_over_negative_cap : ∃ caps : VelocityCaps, caps.enabled ∧
    caps.maxAmount = some (-1) ∧ ∃ s : ChargeState,
      Reaches store (charge caps) unrestricted [] s ∧
      ¬total (Window.between Event.occurredAt (0 - caps.window) 0 (eventsOf "hot" s.db)) ≤ -1 :=
  ⟨⟨10, 0, some (-1)⟩, by decide, rfl, State.idle [], .idle, by decide⟩

end PaymentRail.Policy.Velocity
