import PaymentRail.Chain.Faults

/-!
# The past of a stream

The past of the stream of statuses about a transaction is a list of events, the latest first.
`Admissible` says which status may come next, and `Tells` what the past says about the entry that
the watcher has for the transaction.
-/

namespace PaymentRail.Chain

/-! ### Reading a stream -/

/-- The anchor a status names. -/
def Status.anchor (s : Status) : String × UInt64 := (s.blockHash, s.blockNumber)

namespace Event

/-- The transaction is registered. -/
def registers : Event → Bool
  | .registered _ => true
  | _ => false

/-- The transaction has no block after this event: a registration or a reorg. -/
def startsOver : Event → Bool
  | .registered _ => true
  | .emitted s => s.phase = .reorged
  | .delivered _ _ => false

/-- The count of confirmations starts again after this event: a registration, a reorg, or the failed
delivery of a confirmation. -/
def restarts : Event → Bool
  | .registered _ => true
  | .emitted s => s.phase = .reorged
  | .delivered s ok => s.phase = .confirmed && !ok

end Event

/-- The events since the last one of a kind. -/
def since (kind : Event → Bool) (past : List Event) : List Event := past.takeWhile fun e ↦ !kind e

/-- The anchor of the registration by `Resume` that is still in force: no reorg came after it. -/
def resumeOf : List Event → Option (String × UInt64)
  | [] => none
  | .registered anchor :: _ => anchor
  | .emitted s :: past => if s.phase = .reorged then none else resumeOf past
  | .delivered _ _ :: past => resumeOf past

/-- How a status may continue a stream with this past. -/
structure Admissible (cfg : Config) (s : Status) (past : List Event) : Prop where
  /-- There are statuses only about registered transactions. -/
  registered : ∃ anchor, .registered anchor ∈ past
  /-- One anchor for all statuses since the last reorg, which a reorg names too. -/
  anchor : ∀ s', .emitted s' ∈ since Event.startsOver past → s'.anchor = s.anchor
  /-- After `Resume` and before a reorg it is the anchor given there. -/
  resumed : ∀ anchor, resumeOf past = some anchor → s.anchor = anchor
  /-- A reorg takes back something: a `Mined`, a `Confirmed` or the `Resume`. -/
  reorged : s.phase = .reorged → resumeOf past = some s.anchor ∨
    ∃ s', .emitted s' ∈ since Event.startsOver past ∧ (s'.phase = .mined ∨ s'.phase = .confirmed)
  /-- Between two confirmations there is a reorg, or the earlier one was not delivered. -/
  confirmed : s.phase = .confirmed → ∀ between s' earlier, past = between ++ .emitted s' :: earlier →
    s'.phase = .confirmed → (∀ e ∈ between, ¬e.registers) →
    (∃ r, .emitted r ∈ between ∧ r.phase = .reorged) ∨ .delivered s' false ∈ between
  /-- Finality comes after a confirmation that was delivered, or after the `Resume`. -/
  finalized : s.phase = .finalized → (resumeOf past).isSome ∨ ∃ s', s'.phase = .confirmed ∧
    .emitted s' ∈ since Event.startsOver past ∧ .delivered s' true ∈ since Event.startsOver past
  /-- Nothing comes after finality until the transaction is registered again. -/
  last : ∀ s', .emitted s' ∈ since Event.registers past → s'.phase ≠ .finalized
  minedDepth : s.phase = .mined → 1 ≤ s.depth ∧ s.depth < cfg.depth ∧
    ∀ s', .emitted s' ∈ since Event.restarts past → s'.phase = .mined → s'.depth < s.depth
  confirmedDepth : s.phase = .confirmed → cfg.depth ≤ s.depth
  finalizedDepth : s.phase = .finalized → cfg.finalityDepth ≤ s.depth

/-- The watchers of the runs with answers for which `served` holds, each with the events about one
transaction, the latest first. -/
inductive Traced (cfg : Config) (served : Answers → Prop) (tx : TxHash) :
    Watcher → List Event → Prop
  | start : Traced cfg served tx .empty []
  | step {w w' : Watcher} {past : List Event} {act : Act} (run : Traced cfg served tx w past)
      (hserves : act.Serves served) (hstep : w.step cfg act = some w') :
    Traced cfg served tx w' (events cfg tx w act ++ past)

/-- Receipts name blocks other than the genesis block. -/
def Numbered (answers : Answers) : Prop :=
  ∀ receipt, answers.receipt = .found receipt → receipt.blockNumber ≠ 0

variable {cfg : Config} {tx : TxHash} {kind : Event → Bool} {e : Event} {past : List Event}

@[simp]
theorem since_nil : since kind [] = [] := rfl

@[simp]
theorem since_cons : since kind (e :: past) = if kind e then [] else e :: since kind past := by
  cases h : kind e <;> simp [since, h]

/-! ### The entry and the past of its stream -/

/-- The anchor of an entry, as its statuses render it. -/
def Tracked.anchor (t : Tracked) : String × UInt64 :=
  (renderHash t.blockHash t.blockNumber, t.blockNumber)

/-- Another confirmation may follow: those since the last start were not delivered. -/
def Unconfirmed (past : List Event) : Prop :=
  ∀ between s earlier, past = between ++ .emitted s :: earlier → s.phase = .confirmed →
    (∀ e ∈ between, ¬e.startsOver) → .delivered s false ∈ between

/-- A confirmation since the last start was delivered, or the transaction was resumed. -/
def Delivered (past : List Event) : Prop :=
  (resumeOf past).isSome ∨ ∃ s, s.phase = .confirmed ∧
    .emitted s ∈ since Event.startsOver past ∧ .delivered s true ∈ since Event.startsOver past

/-- What the past of a stream says about the entry of its transaction. -/
structure Tells (v : View) (past : List Event) : Prop where
  live : ∀ t ∈ v.entry, (∃ anchor, .registered anchor ∈ past) ∧
    ∀ s, .emitted s ∈ since Event.registers past → s.phase ≠ .finalized
  pending : ∀ t ∈ v.entry, t.phase = .pending →
    resumeOf past = none ∧ ∀ s, .emitted s ∉ since Event.startsOver past
  anchored : ∀ t ∈ v.entry, t.Anchored →
    (∀ s, .emitted s ∈ since Event.startsOver past → s.anchor = t.anchor) ∧
    (∀ anchor, resumeOf past = some anchor → t.anchor = anchor) ∧
    (resumeOf past = some t.anchor ∨ ∃ s, .emitted s ∈ since Event.startsOver past ∧
      (s.phase = .mined ∨ s.phase = .confirmed))
  mined : ∀ t ∈ v.entry, t.phase = .mined → t.blockNumber ≠ 0 ∧
    ∀ s, .emitted s ∈ since Event.restarts past → s.phase = .mined →
      t.lastEmittedPhase = .mined ∧ s.depth ≤ t.lastEmittedDepth
  unconfirmed : ∀ t ∈ v.entry, t.phase ≠ .confirmed → Unconfirmed past
  /-- A confirmation that is not delivered is the latest event; otherwise it was delivered. -/
  confirmed : ∀ t ∈ v.entry, t.phase = .confirmed →
    (∃ s earlier, v.due = [s] ∧ s.phase = .confirmed ∧ past = .emitted s :: earlier ∧
      Unconfirmed earlier ∧ t.blockNumber ≠ 0) ∨
    ((∀ s ∈ v.due, s.phase ≠ .confirmed) ∧ Delivered past)
  due : ∀ s ∈ v.due, s.phase = .confirmed → ∃ t ∈ v.entry, t.phase = .confirmed

/-! ### Unconfirmed streams -/

theorem Unconfirmed.cons (h : Unconfirmed past) (he : ∀ s, e = .emitted s → s.phase ≠ .confirmed) :
    Unconfirmed (e :: past) := by
  intro between s earlier hpast hconfirmed hover
  cases between with
  | nil =>
    cases hpast
    exact absurd hconfirmed (he s rfl)
  | cons e' between =>
    cases hpast
    have hrest : ∀ e ∈ between, ¬e.startsOver := fun e' he' ↦ hover e' (List.mem_cons_of_mem _ he')
    exact List.mem_cons_of_mem _ (h between s earlier rfl hconfirmed hrest)

theorem unconfirmed_of_startsOver (he : e.startsOver) : Unconfirmed (e :: past) := by
  intro between s earlier hpast hconfirmed hover
  cases between with
  | nil =>
    cases hpast
    rw [Event.startsOver, hconfirmed] at he
    cases he
  | cons e' between =>
    cases hpast
    exact absurd he (hover e List.mem_cons_self)

/-- A failed delivery takes the confirmation back. -/
theorem Unconfirmed.failed (h : Unconfirmed past) (s : Status) :
    Unconfirmed (.delivered s false :: .emitted s :: past) := by
  intro between s' earlier hpast hconfirmed hover
  cases between with
  | nil => cases hpast
  | cons e' between =>
    obtain ⟨rfl, hpast⟩ := List.cons.inj hpast
    cases between with
    | nil =>
      cases hpast
      exact List.mem_cons_self
    | cons e' between =>
      cases hpast
      have hrest : ∀ e ∈ between, ¬e.startsOver := fun e' he' ↦
        hover e' (List.mem_cons_of_mem _ (List.mem_cons_of_mem _ he'))
      exact List.mem_cons_of_mem _
        (List.mem_cons_of_mem _ (h between s' earlier rfl hconfirmed hrest))

/-- What comes after the last restart of the count comes after the last start. -/
theorem mem_since_startsOver (h : e ∈ since Event.restarts past) :
    e ∈ since Event.startsOver past := by
  induction past with
  | nil => exact h
  | cons e' past ih =>
    rw [since_cons] at h ⊢
    cases hrestarts : e'.restarts with
    | true =>
      rw [hrestarts] at h
      cases h
    | false =>
      have hover : e'.startsOver = false := by
        cases e' with
        | registered anchor => cases hrestarts
        | emitted s => exact hrestarts
        | delivered s ok => rfl
      rw [hrestarts] at h
      rw [hover]
      obtain rfl | h := List.mem_cons.mp h
      · exact List.mem_cons_self
      · exact List.mem_cons_of_mem _ (ih h)

end PaymentRail.Chain
