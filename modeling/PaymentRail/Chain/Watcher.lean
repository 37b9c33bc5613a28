import PaymentRail.Codec.Identifier
import PaymentRail.Db.Queries
import Mathlib.Data.List.AList

/-!
# The chain watcher

`internal/chain/evm/watcher.go`: the tracked map, one pass of `poll` over it and the loop of `Run`,
which hands each status of a pass to the sink and rolls an entry back when the delivery of a
confirmation failed.

The mutex is never held across a query, so registrations by `Track` and `Resume` may fall between
any two of the watcher's steps.  They only add absent keys, and entries are changed only by the
goroutine of `Run`; reading an entry, asking the node about it and storing the result is therefore
one step here (`observe`).  What the node answers is left open, from one query to the next.
-/

namespace PaymentRail.Chain

abbrev TxHash := String

inductive Phase where
  | pending
  | mined
  | confirmed
  | reorged
  | finalized
  deriving DecidableEq

structure Status where
  txHash : TxHash
  phase : Phase
  blockHash : String
  blockNumber : UInt64
  depth : UInt64
  deriving DecidableEq

/-- The watcher's state of one transaction: the block it was seen in, and what was last emitted. -/
structure Tracked where
  phase : Phase
  blockHash : Hash
  blockNumber : UInt64
  lastEmittedPhase : Phase
  lastEmittedDepth : UInt64
  deriving DecidableEq

/-- What the node answers to a query: a value, a nil without an error, `ethereum.NotFound`, or any
other error. -/
inductive Answer (α : Type) where
  | found (value : α)
  | null
  | notFound
  | fault
  deriving DecidableEq

/-- A receipt; `status` is 1 for a transaction that executed and 0 for one that reverted. -/
structure Receipt where
  blockHash : Hash
  blockNumber : UInt64
  status : UInt64
  deriving DecidableEq

/-- The node's answers to the queries made for one transaction. -/
structure Answers where
  receipt : Answer Receipt
  header : UInt64 → Answer Hash

/-- The two depths of a watcher. -/
structure Config where
  depth : UInt64
  finalityDepth : UInt64
  depth_pos : 0 < depth
  depth_lt : depth < finalityDepth

/-- The checks of `NewWatcher` on its depths. -/
def newWatcher (depth finalityDepth : UInt64) : Except Err Config :=
  if hpos : depth = 0 then
    .error ⟨"evm: watcher confirmation depth must be positive", none⟩
  else if hlt : finalityDepth ≤ depth then
    .error ⟨"evm: watcher finality depth must exceed confirmation depth", none⟩
  else
    .ok ⟨depth, finalityDepth, UInt64.pos_iff_ne_zero.mpr hpos, UInt64.not_le.mp hlt⟩

abbrev TrackedMap := AList fun _ : TxHash ↦ Tracked

def errInvalidIntent : Err := ⟨"chain: invalid payment intent", some .errInvalidIntent⟩

/-- The entry of a fresh registration. -/
def Tracked.fresh : Tracked := ⟨.pending, 0, 0, .pending, 0⟩

/-- The entry of a transaction that settled in an earlier process. -/
def Tracked.resumed (cfg : Config) (blockHash : Hash) (blockNumber : UInt64) : Tracked :=
  ⟨.confirmed, blockHash, blockNumber, .confirmed, cfg.depth⟩

/-- Register an entry unless the key is taken. -/
def register (tracked : TrackedMap) (tx : TxHash) (entry : Tracked) : TrackedMap :=
  if (tracked.lookup tx).isSome then tracked else tracked.insert tx entry

def track (tracked : TrackedMap) (tx : TxHash) : Except Err TrackedMap :=
  if ¬isHexTxHash tx then
    .error (errInvalidIntent.wrap "evm: track transaction hash is not a valid 0x-hex hash")
  else .ok (register tracked tx .fresh)

def resume (cfg : Config) (tracked : TrackedMap) (tx : TxHash) (blockHash : String)
    (blockNumber : UInt64) : Except Err TrackedMap :=
  if ¬isHexTxHash tx then
    .error (errInvalidIntent.wrap "evm: resume transaction hash is not a valid 0x-hex hash")
  else if ¬isHexTxHash blockHash then
    .error (errInvalidIntent.wrap "evm: resume block hash is not a valid 0x-hex hash")
  else .ok (register tracked tx (.resumed cfg (hexToHash blockHash) blockNumber))

/-- The depth of a block under the head, zero while the head lags behind. -/
def confirmations (head mined : UInt64) : UInt64 := if head < mined then 0 else head - mined + 1

/-- How a status renders the hash of an anchor. -/
def renderHash (blockHash : Hash) (blockNumber : UInt64) : String :=
  if blockNumber ≠ 0 then blockHash.hex else ""

/-- `emit`: surface a status unless it repeats the last one. -/
def emit (t : Tracked) (tx : TxHash) (phase : Phase) (bHash : Hash) (bNum depth : UInt64) :
    Tracked × List Status :=
  if phase = t.lastEmittedPhase ∧ depth ≤ t.lastEmittedDepth then (t, [])
  else
    ({ t with lastEmittedPhase := phase, lastEmittedDepth := depth },
      [⟨tx, phase, renderHash bHash bNum, bNum, depth⟩])

/-- `reverse`: emit the reorg of the anchor and start over as pending. -/
def reverse (t : Tracked) (tx : TxHash) : Tracked × List Status :=
  let out := emit t tx .reorged t.blockHash t.blockNumber 0
  ({ out.1 with phase := .pending, blockHash := 0, blockNumber := 0 }, out.2)

/-- What the node's answers say about the anchor of an entry. -/
inductive Anchor where
  | unknown
  | orphaned
  | canonical
  deriving DecidableEq

/-- The check of an anchor, common to the mined and the confirmed branch of `poll`: the header is
asked for only when there is a receipt, and its own `NotFound` counts as a fault. -/
def checkAnchor (answers : Answers) (t : Tracked) : Anchor :=
  match answers.receipt with
  | .notFound => .orphaned
  | .found _ =>
    match answers.header t.blockNumber with
    | .found hash => if hash ≠ t.blockHash then .orphaned else .canonical
    | _ => .unknown
  | _ => .unknown

/-- The pending branch of `poll`. -/
def observePending (cfg : Config) (head : UInt64) (tx : TxHash) (answers : Answers) (t : Tracked) :
    Tracked × List Status :=
  match answers.receipt with
  | .found receipt =>
    let counted := confirmations head receipt.blockNumber
    -- mined, so at least one confirmation, even if the head lags
    let depth := if counted = 0 then 1 else counted
    let seen := { t with blockHash := receipt.blockHash, blockNumber := receipt.blockNumber }
    if cfg.depth ≤ depth then
      emit { seen with phase := .confirmed } tx .confirmed receipt.blockHash receipt.blockNumber depth
    else emit { seen with phase := .mined } tx .mined receipt.blockHash receipt.blockNumber depth
  | _ => (t, [])

/-- The mined branch of `poll`. -/
def observeMined (cfg : Config) (head : UInt64) (tx : TxHash) (answers : Answers) (t : Tracked) :
    Tracked × List Status :=
  match checkAnchor answers t with
  | .unknown => (t, [])
  | .orphaned => reverse t tx
  | .canonical =>
    if head < t.blockNumber then (t, [])
    else
      let depth := head - t.blockNumber + 1
      if cfg.depth ≤ depth then
        emit { t with phase := .confirmed } tx .confirmed t.blockHash t.blockNumber depth
      else emit t tx .mined t.blockHash t.blockNumber depth

/-- The confirmed branch of `poll`; no entry is left once finality is surfaced. -/
def observeConfirmed (cfg : Config) (head : UInt64) (tx : TxHash) (answers : Answers)
    (t : Tracked) : Option Tracked × List Status :=
  match checkAnchor answers t with
  | .unknown => (some t, [])
  | .orphaned => let out := reverse t tx; (some out.1, out.2)
  | .canonical =>
    if t.blockNumber ≤ head ∧ cfg.finalityDepth ≤ head - t.blockNumber + 1 then
      (none, (emit t tx .finalized t.blockHash t.blockNumber (head - t.blockNumber + 1)).2)
    else (some t, [])

/-- One entry in one pass of `poll`: what becomes of it and what is emitted. -/
def observe (cfg : Config) (head : UInt64) (tx : TxHash) (answers : Answers) (t : Tracked) :
    Option Tracked × List Status :=
  match t.phase with
  | .pending => let out := observePending cfg head tx answers t; (some out.1, out.2)
  | .mined => let out := observeMined cfg head tx answers t; (some out.1, out.2)
  | .confirmed => observeConfirmed cfg head tx answers t
  -- no branch of the switch
  | .reorged | .finalized => (some t, [])

/-- Store what became of an entry. -/
def TrackedMap.put (tracked : TrackedMap) (tx : TxHash) : Option Tracked → TrackedMap
  | some t => tracked.insert tx t
  | none => tracked.erase tx

/-- One turn of the loop of `poll` over the keys it took. -/
def visit (cfg : Config) (head : UInt64) (tx : TxHash) (answers : Answers) (tracked : TrackedMap) :
    TrackedMap × List Status :=
  match tracked.lookup tx with
  | none => (tracked, [])
  | some t =>
    let out := observe cfg head tx answers t
    (tracked.put tx out.1, out.2)

/-- The loop of `poll` over its keys, with a reader that answers each transaction's queries. -/
def visitAll (cfg : Config) (head : UInt64) (reader : TxHash → Answers) :
    List TxHash → TrackedMap → TrackedMap × List Status
  | [], tracked => (tracked, [])
  | tx :: rest, tracked =>
    let first := visit cfg head tx (reader tx) tracked
    let others := visitAll cfg head reader rest first.1
    (others.1, first.2 ++ others.2)

/-- `poll`: one pass over the keys in the order the map yields them; nothing without a head. -/
def poll (cfg : Config) (head : Option UInt64) (reader : TxHash → Answers) (keys : List TxHash)
    (tracked : TrackedMap) : TrackedMap × List Status :=
  match head with
  | none => (tracked, [])
  | some head => visitAll cfg head reader keys tracked

/-- What `Run` does to an entry after a failed delivery: a confirmation is taken back to mined and
will be emitted again. -/
def rollback (tracked : TrackedMap) (status : Status) : TrackedMap :=
  if status.phase = .confirmed then
    match tracked.lookup status.txHash with
    | some t =>
      if t.phase = .confirmed then
        tracked.insert status.txHash
          { t with phase := .mined, lastEmittedPhase := .pending, lastEmittedDepth := 0 }
      else tracked
    | none => tracked
  else tracked

/-! ### The watcher as a state machine -/

/-- Where the goroutine of `Run` is: between passes with statuses still to deliver, or in a pass
with keys still to visit. -/
inductive Stage where
  | delivering (queue : List Status)
  | polling (head : UInt64) (keys : List TxHash) (emitted : List Status)
  deriving DecidableEq

structure Watcher where
  tracked : TrackedMap
  stage : Stage

/-- A watcher between passes with nothing to deliver. -/
def Watcher.Waiting (w : Watcher) : Prop := w.stage = .delivering []

def Watcher.empty : Watcher := ⟨∅, .delivering []⟩

/-- A step of the watcher; `deliver` says whether the sink returned an error. -/
inductive Act where
  | track (tx : TxHash)
  | resume (tx : TxHash) (blockHash : String) (blockNumber : UInt64)
  | headFailed
  | pollStart (head : UInt64) (keys : List TxHash)
  | visit (answers : Answers)
  | pollEnd
  | deliver (ok : Bool)

/-- The map after a registration, which an invalid hash leaves as it is. -/
def registered (tracked : TrackedMap) (result : Except Err TrackedMap) : TrackedMap :=
  match result with
  | .ok tracked' => tracked'
  | .error _ => tracked

/-- Run one step; `none` when it is not enabled. -/
def Watcher.step (cfg : Config) (w : Watcher) : Act → Option Watcher
  | .track tx => some { w with tracked := registered w.tracked (Chain.track w.tracked tx) }
  | .resume tx blockHash blockNumber =>
    some { w with
      tracked := registered w.tracked (Chain.resume cfg w.tracked tx blockHash blockNumber) }
  | .headFailed =>
    match w.stage with
    | .delivering [] => some w
    | _ => none
  | .pollStart head keys =>
    match w.stage with
    | .delivering [] =>
      -- the snapshot has every key once, in an order of the map's choice
      if keys.Perm w.tracked.keys then some { w with stage := .polling head keys [] } else none
    | _ => none
  | .visit answers =>
    match w.stage with
    | .polling head (tx :: keys) emitted =>
      let out := Chain.visit cfg head tx answers w.tracked
      some ⟨out.1, .polling head keys (emitted ++ out.2)⟩
    | _ => none
  | .pollEnd =>
    match w.stage with
    | .polling _ [] emitted => some { w with stage := .delivering emitted }
    | _ => none
  | .deliver ok =>
    match w.stage with
    | .delivering (status :: queue) =>
      some ⟨if ok then w.tracked else rollback w.tracked status, .delivering queue⟩
    | _ => none

/-- What a step does, with the stage in which it can be taken. -/
inductive Watcher.Stepped (cfg : Config) (w : Watcher) : Act → Watcher → Prop
  | track (tx : TxHash) : Watcher.Stepped cfg w (.track tx)
      { w with tracked := registered w.tracked (Chain.track w.tracked tx) }
  | resume (tx : TxHash) (blockHash : String) (blockNumber : UInt64) :
    Watcher.Stepped cfg w (.resume tx blockHash blockNumber)
      { w with
        tracked := registered w.tracked (Chain.resume cfg w.tracked tx blockHash blockNumber) }
  | headFailed (stage : w.stage = .delivering []) : Watcher.Stepped cfg w .headFailed w
  | pollStart {head : UInt64} {keys : List TxHash} (stage : w.stage = .delivering [])
      (perm : keys.Perm w.tracked.keys) :
    Watcher.Stepped cfg w (.pollStart head keys) { w with stage := .polling head keys [] }
  | visit {head : UInt64} {tx : TxHash} {keys : List TxHash} {emitted : List Status}
      (answers : Answers) (stage : w.stage = .polling head (tx :: keys) emitted) :
    Watcher.Stepped cfg w (.visit answers)
      ⟨(Chain.visit cfg head tx answers w.tracked).1,
        .polling head keys (emitted ++ (Chain.visit cfg head tx answers w.tracked).2)⟩
  | pollEnd {head : UInt64} {emitted : List Status} (stage : w.stage = .polling head [] emitted) :
    Watcher.Stepped cfg w .pollEnd { w with stage := .delivering emitted }
  | deliver {status : Status} {queue : List Status} (ok : Bool)
      (stage : w.stage = .delivering (status :: queue)) :
    Watcher.Stepped cfg w (.deliver ok)
      ⟨if ok then w.tracked else rollback w.tracked status, .delivering queue⟩

theorem Watcher.stepped {cfg : Config} {w w' : Watcher} {act : Act}
    (h : w.step cfg act = some w') : w.Stepped cfg act w' := by
  cases act with
  | track tx =>
    cases h
    exact .track tx
  | resume tx blockHash blockNumber =>
    cases h
    exact .resume tx blockHash blockNumber
  | headFailed =>
    simp only [Watcher.step] at h
    split at h
    · next hstage =>
      cases h
      exact .headFailed hstage
    · cases h
  | pollStart head keys =>
    simp only [Watcher.step] at h
    split at h
    · next hstage =>
      obtain ⟨hperm, hstarted⟩ := Option.ite_none_right_eq_some.mp h
      cases hstarted
      exact .pollStart hstage hperm
    · cases h
  | visit answers =>
    simp only [Watcher.step] at h
    split at h
    · next head tx keys emitted hstage =>
      cases h
      exact .visit answers hstage
    · cases h
  | pollEnd =>
    simp only [Watcher.step] at h
    split at h
    · next head emitted hstage =>
      cases h
      exact .pollEnd hstage
    · cases h
  | deliver ok =>
    simp only [Watcher.step] at h
    split at h
    · next status queue hstage =>
      cases h
      exact .deliver ok hstage
    · cases h

/-! ### The map -/

theorem lookup_register {tracked : TrackedMap} {tx tx' : TxHash} {entry : Tracked} :
    (register tracked tx entry).lookup tx' =
      if tx' = tx ∧ tracked.lookup tx = none then some entry else tracked.lookup tx' := by
  unfold register
  by_cases htx : tx' = tx
  · subst htx
    cases hrow : tracked.lookup tx' <;> simp [hrow]
  · cases hrow : tracked.lookup tx <;> simp [htx, AList.lookup_insert_ne]

theorem lookup_put_self (tracked : TrackedMap) (tx : TxHash) (entry : Option Tracked) :
    (tracked.put tx entry).lookup tx = entry := by
  cases entry <;> simp [TrackedMap.put]

theorem lookup_put_of_ne (tracked : TrackedMap) {tx tx' : TxHash} (entry : Option Tracked)
    (h : tx' ≠ tx) : (tracked.put tx entry).lookup tx' = tracked.lookup tx' := by
  cases entry <;> simp [TrackedMap.put, AList.lookup_insert_ne, AList.lookup_erase_ne, h]

theorem visit_eq {cfg : Config} {head : UInt64} {tx : TxHash} {answers : Answers}
    {tracked : TrackedMap} {t : Tracked} (h : tracked.lookup tx = some t) :
    visit cfg head tx answers tracked =
      (tracked.put tx (observe cfg head tx answers t).1, (observe cfg head tx answers t).2) := by
  rw [visit, h]

/-- A visit concerns no other entry. -/
theorem lookup_visit_of_ne {cfg : Config} {head : UInt64} {tx tx' : TxHash} {answers : Answers}
    {tracked : TrackedMap} (h : tx' ≠ tx) :
    (visit cfg head tx answers tracked).1.lookup tx' = tracked.lookup tx' := by
  unfold visit
  split
  · rfl
  · exact lookup_put_of_ne _ _ h

theorem lookup_visit_self {cfg : Config} {head : UInt64} {tx : TxHash} {answers : Answers}
    {tracked : TrackedMap} :
    (visit cfg head tx answers tracked).1.lookup tx =
      (tracked.lookup tx).bind fun t ↦ (observe cfg head tx answers t).1 := by
  unfold visit
  split
  · next hrow => simp [hrow]
  · next t hrow => simp [hrow, lookup_put_self]

/-- A failed delivery concerns only a confirmed entry of its own transaction. -/
theorem lookup_rollback {tracked : TrackedMap} {status : Status} {tx : TxHash} :
    (rollback tracked status).lookup tx =
      (tracked.lookup tx).map fun t ↦
        if status.txHash = tx ∧ status.phase = .confirmed ∧ t.phase = .confirmed then
          { t with phase := .mined, lastEmittedPhase := .pending, lastEmittedDepth := 0 }
        else t := by
  unfold rollback
  by_cases hphase : status.phase = .confirmed
  · rw [if_pos hphase]
    cases hrow : tracked.lookup status.txHash with
    | none =>
      by_cases htx : status.txHash = tx
      · subst htx
        simp [hrow]
      · simp [htx]
    | some t =>
      by_cases htx : status.txHash = tx
      · subst htx
        by_cases hconfirmed : t.phase = .confirmed <;> simp [hrow, hphase, hconfirmed]
      · by_cases hconfirmed : t.phase = .confirmed <;>
          simp [hconfirmed, htx, AList.lookup_insert_ne, Ne.symm htx]
  · simp [hphase]

end PaymentRail.Chain
