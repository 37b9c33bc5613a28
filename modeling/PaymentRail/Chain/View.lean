import PaymentRail.Chain.Observe

/-!
# The watcher as one transaction sees it

Everything a run of the watcher does to one transaction passes through its `View`: the entry in the
map, whether the current pass has yet to visit it, and the statuses about it that were emitted and
not delivered.  A step of the watcher is a step of `ViewStep` on every view, and the events about the
transaction are those of `events`; what concerns other transactions leaves the view alone.

The one invariant this needs (`Watcher.Orderly`) is that a pass visits every key once.
-/

namespace PaymentRail.Chain

/-- What happens to one transaction: it is registered, as new or with the anchor it settled at; a
status about it is emitted; a status about it is delivered, with or without an error. -/
inductive Event where
  | registered (anchor : Option (String × UInt64))
  | emitted (status : Status)
  | delivered (status : Status) (ok : Bool)
  deriving DecidableEq

/-- The part of a watcher that concerns one transaction; `turn` is the head of a pass that has yet
to visit it, `due` what was emitted about it and not delivered. -/
structure View where
  entry : Option Tracked
  turn : Option UInt64
  due : List Status

/-- The statuses of a pass that are not delivered. -/
def Stage.statuses : Stage → List Status
  | .delivering queue => queue
  | .polling _ _ emitted => emitted

/-- The head of a pass that has yet to visit a transaction. -/
def Stage.turn (tx : TxHash) : Stage → Option UInt64
  | .delivering _ => none
  | .polling head keys _ => if tx ∈ keys then some head else none

def Watcher.view (w : Watcher) (tx : TxHash) : View :=
  ⟨w.tracked.lookup tx, w.stage.turn tx, w.stage.statuses.filter (·.txHash = tx)⟩

/-- The anchor a resumed entry stands for, as its statuses render it. -/
def resumeAnchor (blockHash : String) (blockNumber : UInt64) : String × UInt64 :=
  (renderHash (hexToHash blockHash) blockNumber, blockNumber)

/-- The events about a transaction in one step of the watcher. -/
def events (cfg : Config) (tx : TxHash) (w : Watcher) : Act → List Event
  | .track tx' =>
    if tx' = tx ∧ isHexTxHash tx ∧ w.tracked.lookup tx = none then [.registered none] else []
  | .resume tx' blockHash blockNumber =>
    if tx' = tx ∧ (isHexTxHash tx ∧ isHexTxHash blockHash) ∧ w.tracked.lookup tx = none then
      [.registered (some (resumeAnchor blockHash blockNumber))]
    else []
  | .visit answers =>
    match w.stage with
    | .polling head (tx' :: _) _ =>
      if tx' = tx then (visit cfg head tx answers w.tracked).2.map .emitted else []
    | _ => []
  | .deliver ok =>
    match w.stage with
    | .delivering (status :: _) => if status.txHash = tx then [.delivered status ok] else []
    | _ => []
  | .headFailed | .pollStart _ _ | .pollEnd => []

/-- What a failed delivery does to the entry of its transaction. -/
def Tracked.afterFailure (status : Status) (t : Tracked) : Tracked :=
  if status.phase = .confirmed ∧ t.phase = .confirmed then t.rolledBack else t

/-- The entry after a delivery. -/
def afterDelivery (status : Status) (ok : Bool) (entry : Option Tracked) : Option Tracked :=
  if ok then entry else entry.map (Tracked.afterFailure status)

/-- The steps of a view, with their events.  A visit is made with answers for which `served` holds. -/
inductive ViewStep (cfg : Config) (served : Answers → Prop) (tx : TxHash) :
    View → List Event → View → Prop
  | unseen (v : View) : ViewStep cfg served tx v [] v
  | tracked (turn : Option UInt64) (due : List Status) :
    ViewStep cfg served tx ⟨none, turn, due⟩ [.registered none] ⟨some .fresh, turn, due⟩
  | resumed (turn : Option UInt64) (due : List Status) (blockHash : String) (blockNumber : UInt64)
      (hhash : isHexTxHash blockHash) :
    ViewStep cfg served tx ⟨none, turn, due⟩
      [.registered (some (resumeAnchor blockHash blockNumber))]
      ⟨some (.resumed cfg (hexToHash blockHash) blockNumber), turn, due⟩
  | begun (t : Tracked) (head : UInt64) :
    ViewStep cfg served tx ⟨some t, none, []⟩ [] ⟨some t, some head, []⟩
  | visited (t : Tracked) (head : UInt64) (answers : Answers) (hserved : served answers)
      (entry : Option Tracked) (out : List Status)
      (hvisit : observe cfg head tx answers t = (entry, out)) :
    ViewStep cfg served tx ⟨some t, some head, []⟩ (out.map .emitted) ⟨entry, none, out⟩
  | delivered (entry : Option Tracked) (status : Status) (due : List Status) (ok : Bool) :
    ViewStep cfg served tx ⟨entry, none, status :: due⟩ [.delivered status ok]
      ⟨afterDelivery status ok entry, none, due⟩

/-- The answers of an act meet a condition. -/
def Act.Serves (served : Answers → Prop) : Act → Prop
  | .visit answers => served answers
  | _ => True

/-- A pass visits every key once: the keys still to visit are distinct and tracked, and nothing was
emitted about them. -/
def Stage.Orderly (tracked : TrackedMap) : Stage → Prop
  | .delivering _ => True
  | .polling _ keys emitted =>
    keys.Nodup ∧ ∀ tx ∈ keys, (tracked.lookup tx).isSome ∧ ∀ s ∈ emitted, s.txHash ≠ tx

/-- What holds of a watcher in every run: every entry has one of the shapes, and a pass is orderly. -/
structure Watcher.Orderly (w : Watcher) : Prop where
  shape : ∀ tx t, w.tracked.lookup tx = some t → t.Shape
  stage : w.stage.Orderly w.tracked

variable {cfg : Config} {tx : TxHash} {served : Answers → Prop} {w w' : Watcher} {act : Act}

/-! ### The steps of the watcher, on one entry -/

theorem lookup_track {tracked : TrackedMap} {tx tx' : TxHash} :
    (registered tracked (track tracked tx')).lookup tx =
      if tx' = tx ∧ isHexTxHash tx ∧ tracked.lookup tx = none then some .fresh
      else tracked.lookup tx := by
  unfold track
  by_cases hhash : isHexTxHash tx'
  · simp only [hhash, not_true_eq_false, if_false, registered, lookup_register]
    by_cases htx : tx' = tx
    · subst htx
      simp [hhash]
    · simp [htx, Ne.symm htx]
  · have hother : ¬(tx' = tx ∧ isHexTxHash tx ∧ tracked.lookup tx = none) := by
      rintro ⟨rfl, h, -⟩
      exact hhash h
    simp only [hhash, Bool.false_eq_true, not_false_eq_true, if_true, registered, if_neg hother]

theorem lookup_resume {tracked : TrackedMap} {tx tx' : TxHash} {blockHash : String}
    {blockNumber : UInt64} :
    (registered tracked (resume cfg tracked tx' blockHash blockNumber)).lookup tx =
      if tx' = tx ∧ (isHexTxHash tx ∧ isHexTxHash blockHash) ∧ tracked.lookup tx = none then
        some (.resumed cfg (hexToHash blockHash) blockNumber)
      else tracked.lookup tx := by
  unfold resume
  by_cases hhash : isHexTxHash tx'
  · by_cases hblock : isHexTxHash blockHash
    · simp only [hhash, hblock, not_true_eq_false, if_false, registered, lookup_register]
      by_cases htx : tx' = tx
      · subst htx
        simp [hhash]
      · simp [htx, Ne.symm htx]
    · simp [hhash, hblock, registered]
  · have hother : ¬(tx' = tx ∧ (isHexTxHash tx ∧ isHexTxHash blockHash) ∧
        tracked.lookup tx = none) := by
      rintro ⟨rfl, h, -⟩
      exact hhash h.1
    simp only [hhash, Bool.false_eq_true, not_false_eq_true, if_true, registered, if_neg hother]

theorem lookup_rollback_other {tracked : TrackedMap} {status : Status} (h : status.txHash ≠ tx) :
    (rollback tracked status).lookup tx = tracked.lookup tx := by
  simp [lookup_rollback, h]

theorem lookup_rollback_self {tracked : TrackedMap} {status : Status} (h : status.txHash = tx) :
    (rollback tracked status).lookup tx =
      (tracked.lookup tx).map (Tracked.afterFailure status) := by
  simp only [lookup_rollback, h, true_and]
  rfl

/-- The entry of the delivered status after a delivery. -/
theorem lookup_deliver {tracked : TrackedMap} {status : Status} {ok : Bool} :
    (if ok then tracked else rollback tracked status).lookup tx =
      if status.txHash = tx then afterDelivery status ok (tracked.lookup tx)
      else tracked.lookup tx := by
  cases ok
  · by_cases htx : status.txHash = tx
    · simp [htx, afterDelivery, lookup_rollback_self htx]
    · simp [htx, lookup_rollback_other htx]
  · simp [afterDelivery]

/-- A visit emits statuses about its own transaction only. -/
theorem txHash_of_mem_visit {head : UInt64} {answers : Answers} {tracked : TrackedMap}
    (hshape : ∀ tx t, tracked.lookup tx = some t → t.Shape) {s : Status}
    (hs : s ∈ (visit cfg head tx answers tracked).2) : s.txHash = tx := by
  unfold visit at hs
  cases hrow : tracked.lookup tx with
  | none =>
    rw [hrow] at hs
    cases hs
  | some t =>
    rw [hrow] at hs
    exact ((observed cfg head tx answers (hshape tx t hrow)).of_mem hs).1

/-- The statuses of a visit, as each transaction sees them. -/
theorem filter_visit {head : UInt64} {tx' : TxHash} {answers : Answers} {tracked : TrackedMap}
    (hshape : ∀ tx t, tracked.lookup tx = some t → t.Shape) :
    (visit cfg head tx' answers tracked).2.filter (·.txHash = tx) =
      if tx' = tx then (visit cfg head tx' answers tracked).2 else [] := by
  split
  · next htx =>
    subst htx
    exact List.filter_eq_self.mpr fun s hs ↦ by simpa using txHash_of_mem_visit hshape hs
  · next htx =>
    refine List.filter_eq_nil_iff.mpr fun s hs ↦ ?_
    simpa [txHash_of_mem_visit hshape hs] using htx

/-! ### Every run is orderly -/

theorem Watcher.Orderly.empty : Watcher.empty.Orderly where
  shape _ _ h := by cases h
  stage := trivial

/-- Adding keys keeps a pass orderly. -/
theorem Stage.Orderly.mono {stage : Stage} {tracked tracked' : TrackedMap}
    (h : stage.Orderly tracked)
    (hkeep : ∀ tx, (tracked.lookup tx).isSome → (tracked'.lookup tx).isSome) :
    stage.Orderly tracked' := by
  cases stage with
  | delivering queue => trivial
  | polling head keys emitted => exact ⟨h.1, fun tx htx ↦ ⟨hkeep tx (h.2 tx htx).1, (h.2 tx htx).2⟩⟩

/-- A visit keeps the entries in shape. -/
theorem shape_visit {tracked : TrackedMap} (cfg : Config) (head : UInt64) (tx' : TxHash)
    (answers : Answers) (hshape : ∀ tx t, tracked.lookup tx = some t → t.Shape) :
    ∀ tx t, (visit cfg head tx' answers tracked).1.lookup tx = some t → t.Shape := by
  intro tx t hrow
  by_cases htx : tx = tx'
  · subst htx
    rw [lookup_visit_self, Option.bind_eq_some_iff] at hrow
    obtain ⟨t', ht', hrow⟩ := hrow
    exact (observed cfg head tx answers (hshape tx t' ht')).shape (hshape tx t' ht') t hrow
  · rw [lookup_visit_of_ne htx] at hrow
    exact hshape tx t hrow

/-- One step keeps a watcher orderly. -/
theorem Watcher.Orderly.step (h : w.Orderly) (hstep : w.step cfg act = some w') : w'.Orderly := by
  cases Watcher.stepped hstep with
  | track tx' =>
    refine ⟨fun tx t hrow ↦ ?_, h.stage.mono fun tx hsome ↦ ?_⟩
    · dsimp only at hrow
      rw [lookup_track] at hrow
      split at hrow
      · cases hrow
        exact .fresh
      · exact h.shape tx t hrow
    · rw [lookup_track]
      split
      · rfl
      · exact hsome
  | resume tx' blockHash blockNumber =>
    refine ⟨fun tx t hrow ↦ ?_, h.stage.mono fun tx hsome ↦ ?_⟩
    · dsimp only at hrow
      rw [lookup_resume] at hrow
      split at hrow
      · cases hrow
        exact .resumed ..
      · exact h.shape tx t hrow
    · rw [lookup_resume]
      split
      · rfl
      · exact hsome
  | headFailed => exact h
  | pollStart hstage hperm =>
    refine ⟨h.shape, hperm.nodup_iff.mpr w.tracked.nodupKeys, fun tx htx ↦ ⟨?_, ?_⟩⟩
    · exact AList.lookup_isSome.mpr (hperm.mem_iff.mp htx)
    · exact fun s hs ↦ by cases hs
  | @visit head tx keys emitted answers hstage =>
    have hpass := h.stage
    rw [hstage] at hpass
    obtain ⟨hnodup, hkeys⟩ := hpass
    obtain ⟨hnotMem, hnodup⟩ := List.nodup_cons.mp hnodup
    refine ⟨shape_visit cfg head tx answers h.shape, hnodup, fun tx' htx' ↦ ?_⟩
    have hne : tx' ≠ tx := fun heq ↦ hnotMem (heq ▸ htx')
    have hold := hkeys tx' (List.mem_cons_of_mem _ htx')
    refine ⟨?_, fun s hs ↦ ?_⟩
    · rw [lookup_visit_of_ne hne]
      exact hold.1
    · obtain hs | hs := List.mem_append.mp hs
      · exact hold.2 s hs
      · rw [txHash_of_mem_visit h.shape hs]
        exact hne.symm
  | pollEnd => exact ⟨h.shape, trivial⟩
  | deliver ok hstage =>
    refine ⟨fun tx t hrow ↦ ?_, trivial⟩
    dsimp only at hrow
    rw [lookup_deliver, afterDelivery] at hrow
    split at hrow
    · split at hrow
      · exact h.shape tx t hrow
      · obtain ⟨t', ht', rfl⟩ := Option.map_eq_some_iff.mp hrow
        unfold Tracked.afterFailure
        split
        · exact .rolledBack t'
        · exact h.shape tx t' ht'
    · exact h.shape tx t hrow

/-- The watchers of all runs. -/
inductive Watcher.Reached (cfg : Config) : Watcher → Prop
  | start : Watcher.Reached cfg .empty
  | step {w w' : Watcher} {act : Act} (run : Watcher.Reached cfg w)
      (hstep : w.step cfg act = some w') : Watcher.Reached cfg w'

theorem Watcher.Reached.orderly (h : w.Reached cfg) : w.Orderly := by
  induction h with
  | start => exact .empty
  | step run hstep ih => exact ih.step hstep

/-! ### Every step of the watcher is a step of each view -/

/-- A step of the watcher is, for every transaction, a step of its view. -/
theorem view_step (h : w.Orderly) (hserves : act.Serves served)
    (hstep : w.step cfg act = some w') :
    ViewStep cfg served tx (w.view tx) (events cfg tx w act) (w'.view tx) := by
  cases Watcher.stepped hstep with
  | track tx' =>
    simp only [Watcher.view, lookup_track, events]
    split
    · next hnew =>
      rw [hnew.2.2]
      exact .tracked ..
    · exact .unseen _
  | resume tx' blockHash blockNumber =>
    simp only [Watcher.view, lookup_resume, events]
    split
    · next hnew =>
      rw [hnew.2.2]
      exact .resumed _ _ _ _ hnew.2.1.2
    · exact .unseen _
  | headFailed => exact .unseen _
  | @pollStart head keys hstage hperm =>
    simp only [Watcher.view, hstage, Stage.turn, Stage.statuses, events, List.filter_nil]
    split
    · next htx =>
      obtain ⟨t, ht⟩ := Option.isSome_iff_exists.mp
        (AList.lookup_isSome.mpr (hperm.mem_iff.mp htx))
      rw [ht]
      exact .begun t head
    · exact .unseen _
  | @visit head tx' keys emitted answers hstage =>
    have hpass := h.stage
    rw [hstage] at hpass
    obtain ⟨hnodup, hkeys⟩ := hpass
    obtain ⟨hsome, hquiet⟩ := hkeys tx' List.mem_cons_self
    simp only [Watcher.view, hstage, Stage.turn, Stage.statuses, events, List.filter_append]
    by_cases htx : tx' = tx
    · subst htx
      obtain ⟨t, ht⟩ := Option.isSome_iff_exists.mp hsome
      have hbefore : emitted.filter (·.txHash = tx') = [] :=
        List.filter_eq_nil_iff.mpr fun s hs ↦ by simpa using hquiet s hs
      rw [hbefore, filter_visit h.shape, if_pos rfl, if_pos List.mem_cons_self,
        if_neg (List.nodup_cons.mp hnodup).1, if_pos rfl, lookup_visit_self, ht, visit_eq ht]
      exact .visited t head answers hserves _ _ rfl
    · have hmem : tx ∈ tx' :: keys ↔ tx ∈ keys := by simp [Ne.symm htx]
      rw [filter_visit h.shape, if_neg htx, if_neg htx, List.append_nil,
        lookup_visit_of_ne (Ne.symm htx)]
      simp only [hmem]
      exact .unseen _
  | pollEnd hstage =>
    simp only [Watcher.view, hstage, Stage.turn, Stage.statuses, events, List.not_mem_nil, if_false]
    exact .unseen _
  | @deliver status queue ok hstage =>
    simp only [Watcher.view, hstage, Stage.turn, Stage.statuses, events, lookup_deliver]
    by_cases htx : status.txHash = tx
    · rw [if_pos htx, if_pos htx, List.filter_cons_of_pos (by simpa using htx)]
      exact .delivered ..
    · rw [if_neg htx, if_neg htx, List.filter_cons_of_neg (by simpa using htx)]
      exact .unseen _

end PaymentRail.Chain
