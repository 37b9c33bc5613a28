import PaymentRail.Chain.Stream
import PaymentRail.Rail.Delivery

/-!
# The chainwatcher process

`cmd/chainwatcher/main.go`: one process with the watcher, the settlement sink and the re-scan, over
tables that other processes change as well.  The startup seed and the re-scan are the same two
moves, a listing of the rows that are still watched and the registration of the listed rows one by
one; what is listed may be out of date by the time it is registered.

A delivery ends in one of three ways: it is applied, it fails without effect, or it is committed and
the caller still gets an error (`lost`).  Everything a move does to one transaction is a step of
`Seen` on its `Glimpse`: its view of the watcher, its row, and its rows in the listing.
-/

namespace PaymentRail.Chainwatcher

open Transaction Chain Rail

/-- `ListPendingSettlements`: the rows that are still watched, oldest first. -/
def listPendingSettlements (db : Db) : List Settlement :=
  (db.settlements.filter fun row ↦
    row.status = .pending ∨ row.status = .settled ∨ row.status = .reorged).insertionSort
    fun a b ↦ a.createdAt ≤ b.createdAt

/-- `seed`: a row that is settled at a known anchor is resumed, every other row is tracked. -/
def seed (row : Settlement) : Act :=
  match row.status, row.settledBlockHash with
  | .settled, some blockHash =>
    -- the zero of a NULL block number
    .resume row.txHash blockHash (row.settledBlockNumber.getD 0).toUInt64
  | _, _ => .track row.txHash

/-- The watcher, the tables, and the listed rows that are still to be registered. -/
structure Proc where
  watcher : Watcher
  db : Db
  scan : List Settlement

def Proc.start (db : Db) : Proc := ⟨.empty, db, []⟩

/-- How a delivery ends. -/
inductive Outcome where
  | applied
  | lost
  | failed
  deriving DecidableEq

/-- Whether the sink returned without an error. -/
def Outcome.ok : Outcome → Bool
  | .applied => true
  | .lost | .failed => false

inductive Move where
  | list
  | seed
  | watch (act : Act)
  | deliver (ambient : ℕ → Ambient) (outcome : Outcome)
  | world (db : Db)

/-- The steps that the loop of `Run` makes on its own. -/
def Internal : Act → Bool
  | .headFailed | .pollStart _ _ | .visit _ | .pollEnd => true
  | .track _ | .resume _ _ _ | .deliver _ => false

/-- The tables after a delivery, if it can end in this way. -/
def delivered (rt : Audit.Runtime) (st : Status) (ambient : ℕ → Ambient) (db : Db) :
    Outcome → Option Db
  | .failed => some db
  | .applied | .lost =>
    match atomically queries (body rt (.onStatus st)) ambient db with
    | (.ok _, db') => some db'
    | (.error _, _) => none

/-- Make one move; `none` when it is not enabled. -/
def Proc.step (rt : Audit.Runtime) (cfg : Config) (p : Proc) : Move → Option Proc
  | .list =>
    match p.scan with
    | [] => some { p with scan := listPendingSettlements p.db }
    | _ :: _ => none
  | .seed =>
    match p.scan with
    | [] => none
    | row :: rest =>
      (p.watcher.step cfg (Chainwatcher.seed row)).map fun w ↦ { p with watcher := w, scan := rest }
  | .watch act =>
    if Internal act then (p.watcher.step cfg act).map fun w ↦ { p with watcher := w } else none
  | .deliver ambient outcome =>
    match p.watcher.stage with
    | .delivering (st :: _) =>
      (p.watcher.step cfg (.deliver outcome.ok)).bind fun w ↦
        (Chainwatcher.delivered rt st ambient p.db outcome).map fun db ↦
          { p with watcher := w, db := db }
    | _ => none
  | .world db => some { p with db := db }

/-- What a move does, with the state in which it can be made. -/
inductive Proc.Stepped (rt : Audit.Runtime) (cfg : Config) (p : Proc) : Move → Proc → Prop
  | list (scan : p.scan = []) :
    Proc.Stepped rt cfg p .list { p with scan := listPendingSettlements p.db }
  | seed {row : Settlement} {rest : List Settlement} {w : Watcher} (scan : p.scan = row :: rest)
      (step : p.watcher.step cfg (Chainwatcher.seed row) = some w) :
    Proc.Stepped rt cfg p .seed { p with watcher := w, scan := rest }
  | watch {act : Act} {w : Watcher} (internal : Internal act = true)
      (step : p.watcher.step cfg act = some w) :
    Proc.Stepped rt cfg p (.watch act) { p with watcher := w }
  | deliver {ambient : ℕ → Ambient} {outcome : Outcome} {st : Status} {queue : List Status}
      {w : Watcher} {db : Db} (stage : p.watcher.stage = .delivering (st :: queue))
      (step : p.watcher.step cfg (.deliver outcome.ok) = some w)
      (delivered : Chainwatcher.delivered rt st ambient p.db outcome = some db) :
    Proc.Stepped rt cfg p (.deliver ambient outcome) { p with watcher := w, db := db }
  | world (db : Db) : Proc.Stepped rt cfg p (.world db) { p with db := db }

theorem Proc.stepped {rt : Audit.Runtime} {cfg : Config} {p p' : Proc} {move : Move}
    (h : p.step rt cfg move = some p') : p.Stepped rt cfg move p' := by
  cases move with
  | list =>
    simp only [Proc.step] at h
    split at h
    · next hscan =>
      cases h
      exact .list hscan
    · cases h
  | seed =>
    simp only [Proc.step] at h
    split at h
    · cases h
    · next row rest hscan =>
      obtain ⟨w, hw, rfl⟩ := Option.map_eq_some_iff.mp h
      exact .seed hscan hw
  | watch act =>
    obtain ⟨hinternal, h⟩ := Option.ite_none_right_eq_some.mp h
    obtain ⟨w, hw, rfl⟩ := Option.map_eq_some_iff.mp h
    exact .watch hinternal hw
  | deliver ambient outcome =>
    simp only [Proc.step] at h
    split at h
    · next st queue hstage =>
      obtain ⟨w, hw, h⟩ := Option.bind_eq_some_iff.mp h
      obtain ⟨db, hdb, rfl⟩ := Option.map_eq_some_iff.mp h
      exact .deliver hstage hw hdb
    · cases h
  | world db =>
    cases h
    exact .world db

/-- A re-scan from the first listing to the last registration, after what is left of the one before. -/
def Proc.rescan (p : Proc) : List Move :=
  p.scan.map (fun _ ↦ .seed) ++ .list :: (listPendingSettlements p.db).map fun _ ↦ .seed

/-- A pass over the given keys, each query about a transaction answered by `reader`. -/
def pass (head : UInt64) (keys : List TxHash) (reader : TxHash → Answers) : List Move :=
  (passActs head keys reader).map .watch

/-- Make a list of moves. -/
def Proc.run (rt : Audit.Runtime) (cfg : Config) : List Move → Proc → Option Proc
  | [], p => some p
  | move :: moves, p => (p.step rt cfg move).bind (run rt cfg moves)

/-- What other processes do to the settlement rows: they add pending ones. -/
structure Bystander (db db' : Db) : Prop where
  kept : ∀ tx row, db.settlement tx = some row → db'.settlement tx = some row
  added : ∀ tx row, db.settlement tx = none → db'.settlement tx = some row → row.status = .pending
  keys : (db.settlements.map Settlement.txHash).Nodup → (db'.settlements.map Settlement.txHash).Nodup

/-- A move of the world is one that other processes can make. -/
def Worldly (p : Proc) : Move → Prop
  | .world db => Bystander p.db db
  | _ => True

/-- The processes of all runs whose moves are admitted, from an empty watcher. -/
inductive Reached (rt : Audit.Runtime) (cfg : Config) (admits : Proc → Move → Prop) (start : Db) :
    Proc → Prop
  | start : Reached rt cfg admits start (.start start)
  | step {p p' : Proc} {move : Move} (run : Reached rt cfg admits start p)
      (hadmits : admits p move) (hworldly : Worldly p move)
      (hstep : p.step rt cfg move = some p') : Reached rt cfg admits start p'

/-! ### What a move does to one transaction -/

/-- The part of a process that concerns one transaction. -/
structure Glimpse where
  view : View
  row : Option Settlement
  listed : List Settlement

def Proc.glimpse (p : Proc) (tx : TxHash) : Glimpse :=
  ⟨p.watcher.view tx, p.db.settlement tx, p.scan.filter (·.txHash = tx)⟩

/-- The entry that a row is registered with, if its hashes are valid. -/
def seededEntry (cfg : Config) (row : Settlement) : Option Tracked :=
  match row.status, row.settledBlockHash with
  | .settled, some blockHash =>
    if isHexTxHash row.txHash ∧ isHexTxHash blockHash then
      some (.resumed cfg (hexToHash blockHash) (row.settledBlockNumber.getD 0).toUInt64)
    else none
  | _, _ => if isHexTxHash row.txHash then some .fresh else none

/-- A move, as one transaction sees it. -/
inductive TxMove where
  | other
  | seed (row : Settlement)
  | deliver (st : Status) (outcome : Outcome)

/-- The steps of a glimpse. -/
inductive Seen (cfg : Config) (served : Answers → Prop) (tx : TxHash) :
    Glimpse → TxMove → Glimpse → Prop
  | unseen (g : Glimpse) : Seen cfg served tx g .other g
  | linked (view : View) (listed : List Settlement) (row : Settlement)
      (hpending : row.status = .pending) :
    Seen cfg served tx ⟨view, none, listed⟩ .other ⟨view, some row, listed⟩
  | listed (view : View) (row : Option Settlement) (listed : List Settlement)
      (hlisted : ∀ r ∈ listed, row = some r) :
    Seen cfg served tx ⟨view, row, []⟩ .other ⟨view, row, listed⟩
  | seeded (view : View) (row : Option Settlement) (r : Settlement) (rest : List Settlement) :
    Seen cfg served tx ⟨view, row, r :: rest⟩ (.seed r)
      ⟨{ view with entry := view.entry.or (seededEntry cfg r) }, row, rest⟩
  | begun (t : Tracked) (head : UInt64) (row : Option Settlement) (listed : List Settlement) :
    Seen cfg served tx ⟨⟨some t, none, []⟩, row, listed⟩ .other ⟨⟨some t, some head, []⟩, row, listed⟩
  | visited (t : Tracked) (head : UInt64) (answers : Answers) (hserved : served answers)
      (entry : Option Tracked) (out : List Status)
      (hvisit : observe cfg head tx answers t = (entry, out)) (row : Option Settlement)
      (listed : List Settlement) :
    Seen cfg served tx ⟨⟨some t, some head, []⟩, row, listed⟩ .other ⟨⟨entry, none, out⟩, row, listed⟩
  | delivered (entry : Option Tracked) (st : Status) (due : List Status) (outcome : Outcome)
      (row row' : Option Settlement) (listed : List Settlement)
      (hfailed : outcome = .failed → row' = row)
      (hmoved : outcome ≠ .failed → ∀ r ∈ row, ∃ r' ∈ row', Moved st r r') :
    Seen cfg served tx ⟨⟨entry, none, st :: due⟩, row, listed⟩ (.deliver st outcome)
      ⟨⟨afterDelivery st outcome.ok entry, none, due⟩, row', listed⟩

/-- A move as a transaction sees it: only registrations of its rows and deliveries about it. -/
def Proc.txMove (p : Proc) (tx : TxHash) : Move → TxMove
  | .seed =>
    match p.scan with
    | row :: _ => if row.txHash = tx then .seed row else .other
    | [] => .other
  | .deliver _ outcome =>
    match p.watcher.stage with
    | .delivering (st :: _) => if st.txHash = tx then .deliver st outcome else .other
    | _ => .other
  | .list | .watch _ | .world _ => .other

/-- The answers of a move meet a condition. -/
def Move.Serves (served : Answers → Prop) : Move → Prop
  | .watch act => act.Serves served
  | _ => True

theorem Move.serves_true (move : Move) : move.Serves fun _ ↦ True := by
  cases move with
  | watch act => cases act <;> trivial
  | _ => trivial

/-- What holds of a process in every run. -/
structure Proc.Sound (p : Proc) : Prop where
  orderly : p.watcher.Orderly
  keys : (p.db.settlements.map Settlement.txHash).Nodup

section Step

variable {rt : Audit.Runtime} {cfg : Config} {served : Answers → Prop} {tx : TxHash}
  {p p' : Proc} {move : Move} {row : Settlement} {w w' : Watcher} {st : Status}
  {ambient : ℕ → Ambient} {outcome : Outcome} {db db' : Db}

/-- Registering a row adds its entry if the transaction has none, and changes nothing else. -/
theorem view_seed (hstep : w.step cfg (seed row) = some w') :
    w'.stage = w.stage ∧ w'.tracked.lookup tx =
      if row.txHash = tx then (w.tracked.lookup tx).or (seededEntry cfg row)
      else w.tracked.lookup tx := by
  unfold seed at hstep
  split at hstep
  · next blockHash hstatus hhash =>
    have hseeded : seededEntry cfg row =
        if isHexTxHash row.txHash ∧ isHexTxHash blockHash then
          some (.resumed cfg (hexToHash blockHash) (row.settledBlockNumber.getD 0).toUInt64)
        else none := by
      simp only [seededEntry, hstatus, hhash]
    cases hstep
    refine ⟨rfl, ?_⟩
    simp only [lookup_resume, hseeded]
    by_cases htx : row.txHash = tx
    · subst htx
      cases hrow : w.tracked.lookup row.txHash <;> simp
    · simp [htx]
  · next hother =>
    have hseeded : seededEntry cfg row =
        if isHexTxHash row.txHash then some .fresh else none := by
      unfold seededEntry
      split
      · exact (hother _ ‹_› ‹_›).elim
      · rfl
    cases hstep
    refine ⟨rfl, ?_⟩
    simp only [lookup_track, hseeded]
    by_cases htx : row.txHash = tx
    · subst htx
      cases hrow : w.tracked.lookup row.txHash <;> simp
    · simp [htx]

/-- A delivery that did not fail without effect ran its transaction to the end. -/
theorem delivered_run (h : delivered rt st ambient db outcome = some db')
    (houtcome : outcome ≠ .failed) :
    ∃ result, atomically queries (body rt (.onStatus st)) ambient db = (.ok result, db') := by
  cases outcome with
  | failed => exact absurd rfl houtcome
  | applied | lost =>
    simp only [delivered] at h
    split at h
    · next result committed heq =>
      cases h
      exact ⟨result, heq⟩
    · cases h

/-- What a delivery that committed did to the rows. -/
theorem delivered_rows (h : delivered rt st ambient db outcome = some db') :
    (outcome = .failed → db' = db) ∧
    (outcome ≠ .failed → ∀ row, db.settlement st.txHash = some row →
      ∃ row', db'.settlement st.txHash = some row' ∧ Moved st row row') ∧
    (∀ tx, st.txHash ≠ tx → db'.settlement tx = db.settlement tx) ∧
    db'.settlements.map Settlement.txHash = db.settlements.map Settlement.txHash := by
  by_cases hfailed : outcome = .failed
  · subst hfailed
    cases h
    exact ⟨fun _ ↦ rfl, fun hne ↦ absurd rfl hne, fun _ _ ↦ rfl, rfl⟩
  · obtain ⟨result, hrun⟩ := delivered_run h hfailed
    have hkeys := settlement_keys_after_delivery hrun
    refine ⟨fun h ↦ absurd h hfailed, fun _ row hrow ↦ row_after_delivery hrun hrow,
      fun tx htx ↦ ?_, hkeys⟩
    cases hrow : db.settlement tx with
    | some row => exact other_row_after_delivery hrun htx hrow
    | none =>
      -- a row that is not there is not inserted
      have hnone : tx ∉ db.settlements.map Settlement.txHash := by
        simpa [List.mem_map] using Table.lookup_eq_none.mp hrow
      rw [← hkeys] at hnone
      refine Table.lookup_eq_none.mpr fun row hmem heq ↦ hnone ?_
      exact List.mem_map.mpr ⟨row, hmem, heq⟩

theorem mem_listPendingSettlements : row ∈ listPendingSettlements db ↔
    row ∈ db.settlements ∧ (row.status = .pending ∨ row.status = .settled ∨ row.status = .reorged) := by
  rw [listPendingSettlements, List.mem_insertionSort, List.mem_filter, decide_eq_true_eq]

/-- The listed rows of a transaction are its row. -/
theorem listed_row (hkeys : (db.settlements.map Settlement.txHash).Nodup)
    (h : row ∈ (listPendingSettlements db).filter (·.txHash = tx)) :
    db.settlement tx = some row := by
  obtain ⟨hlisted, htx⟩ := List.mem_filter.mp h
  obtain rfl : row.txHash = tx := of_decide_eq_true htx
  exact Table.lookup_of_mem hkeys (mem_listPendingSettlements.mp hlisted).1

/-- A row that is still watched is listed. -/
theorem mem_listed (hrow : db.settlement tx = some row)
    (hstatus : row.status = .pending ∨ row.status = .settled ∨ row.status = .reorged) :
    row ∈ (listPendingSettlements db).filter (·.txHash = tx) := by
  have hlisted := mem_listPendingSettlements.mpr ⟨Table.mem_of_lookup hrow, hstatus⟩
  exact List.mem_filter.mpr ⟨hlisted, decide_eq_true (Table.key_of_lookup hrow)⟩

/-- The loop of `Run` registers nothing and delivers nothing in its own steps. -/
theorem emitted_of_internal {act : Act} (hinternal : Internal act = true) {e : Event}
    (he : e ∈ events cfg tx w act) : ∃ s, e = .emitted s := by
  cases act with
  | track | resume | deliver => cases hinternal
  | headFailed | pollStart | pollEnd => cases he
  | visit answers =>
    simp only [events] at he
    split at he
    · split at he
      · obtain ⟨s, -, rfl⟩ := List.mem_map.mp he
        exact ⟨s, rfl⟩
      · cases he
    · cases he

/-- A step of a view with no other events than emissions, as a step of a glimpse. -/
theorem seen_of_viewStep {v v' : View} {new : List Event}
    (hstep : ViewStep cfg served tx v new v') (hnew : ∀ e ∈ new, ∃ s, e = .emitted s)
    (row : Option Settlement) (listed : List Settlement) :
    Seen cfg served tx ⟨v, row, listed⟩ .other ⟨v', row, listed⟩ := by
  cases hstep with
  | unseen => exact .unseen _
  | begun t head => exact .begun t head row listed
  | visited t head answers hserved entry out hvisit =>
    exact .visited t head answers hserved entry out hvisit row listed
  | tracked | resumed | delivered =>
    obtain ⟨s, hs⟩ := hnew _ List.mem_cons_self
    cases hs

/-- A move is, for every transaction, a step of its glimpse. -/
theorem glimpse_step (hsound : p.Sound) (hserves : move.Serves served) (hworldly : Worldly p move)
    (hstep : p.step rt cfg move = some p') :
    Seen cfg served tx (p.glimpse tx) (p.txMove tx move) (p'.glimpse tx) := by
  cases Proc.stepped hstep with
  | list hscan =>
    simp only [Proc.glimpse, hscan, List.filter_nil, Proc.txMove]
    exact .listed _ _ _ fun r hr ↦ listed_row hsound.keys hr
  | @seed row rest w' hscan hw' =>
    obtain ⟨hstage, hentry⟩ :
        w'.stage = p.watcher.stage ∧ w'.tracked.lookup tx = _ := view_seed hw'
    simp only [Proc.glimpse, hscan, Proc.txMove, Watcher.view, hstage, hentry]
    by_cases htx : row.txHash = tx
    · rw [if_pos htx, if_pos htx, List.filter_cons_of_pos (by simpa using htx)]
      exact .seeded ..
    · rw [if_neg htx, if_neg htx, List.filter_cons_of_neg (by simpa using htx)]
      exact .unseen _
  | watch hinternal hw' =>
    exact seen_of_viewStep (view_step hsound.orderly hserves hw')
      (fun e he ↦ emitted_of_internal hinternal he) _ _
  | @deliver ambient outcome st queue w' db' hstage hw' hdb' =>
    obtain ⟨hfailed, hmoved, hothers, -⟩ := delivered_rows hdb'
    simp only [Watcher.step, hstage, Option.some.injEq] at hw'
    subst hw'
    simp only [Proc.glimpse, Proc.txMove, Watcher.view, hstage, Stage.turn, Stage.statuses,
      lookup_deliver]
    by_cases htx : st.txHash = tx
    · subst htx
      rw [if_pos rfl, if_pos rfl, List.filter_cons_of_pos (by simp)]
      exact .delivered _ _ _ _ _ _ _ (fun h ↦ by rw [hfailed h]) hmoved
    · rw [if_neg htx, if_neg htx, List.filter_cons_of_neg (by simpa using htx), hothers tx htx]
      exact .unseen _
  | world db =>
    simp only [Proc.glimpse, Proc.txMove]
    cases hrow : p.db.settlement tx with
    | some row =>
      rw [hworldly.kept tx row hrow]
      exact .unseen _
    | none =>
      cases hrow' : db.settlement tx with
      | none => exact .unseen _
      | some row => exact .linked _ _ row (hworldly.added tx row hrow hrow')

/-- Every move keeps a process sound. -/
theorem Proc.Sound.step (hsound : p.Sound) (hworldly : Worldly p move)
    (hstep : p.step rt cfg move = some p') : p'.Sound := by
  cases Proc.stepped hstep with
  | list => exact ⟨hsound.orderly, hsound.keys⟩
  | seed hscan hw' => exact ⟨hsound.orderly.step hw', hsound.keys⟩
  | watch hinternal hw' => exact ⟨hsound.orderly.step hw', hsound.keys⟩
  | deliver hstage hw' hdb' =>
    refine ⟨hsound.orderly.step hw', ?_⟩
    rw [(delivered_rows hdb').2.2.2]
    exact hsound.keys
  | world db => exact ⟨hsound.orderly, hworldly.keys hsound.keys⟩

theorem Reached.sound {admits : Proc → Move → Prop} {start : Db}
    (hkeys : (start.settlements.map Settlement.txHash).Nodup)
    (h : Reached rt cfg admits start p) : p.Sound := by
  induction h with
  | start => exact ⟨.empty, hkeys⟩
  | step run hadmits hworldly hstep ih => exact ih.step hworldly hstep

theorem Proc.run_append (first second : List Move) :
    p.run rt cfg (first ++ second) = (p.run rt cfg first).bind (run rt cfg second) := by
  induction first generalizing p with
  | nil => rfl
  | cons move first ih =>
    simp only [List.cons_append, Proc.run, Option.bind_assoc]
    exact congrArg _ (funext fun mid ↦ ih)

/-- A move other than one of the world asks nothing of other processes. -/
theorem worldly_of_ne (hworld : ∀ db, move ≠ .world db) : Worldly p move := by
  cases move with
  | world db => exact absurd rfl (hworld db)
  | _ => trivial

theorem Proc.Sound.run {moves : List Move} (hsound : p.Sound) (hworld : ∀ db, .world db ∉ moves)
    (hrun : p.run rt cfg moves = some p') : p'.Sound := by
  induction moves generalizing p with
  | nil =>
    cases hrun
    exact hsound
  | cons move moves ih =>
    obtain ⟨mid, hstep, hrest⟩ := Option.bind_eq_some_iff.mp hrun
    have hworldly : Worldly p move :=
      worldly_of_ne fun db heq ↦ hworld db (heq ▸ List.mem_cons_self)
    exact ih (hsound.step hworldly hstep) (fun db hmem ↦ hworld db (List.mem_cons_of_mem _ hmem))
      hrest

/-- A run of moves that the process makes on its own, as a run from an empty watcher. -/
theorem Reached.run {admits : Proc → Move → Prop} {start : Db} {moves : List Move}
    (h : Reached rt cfg admits start p) (hadmits : ∀ move ∈ moves, ∀ p, admits p move)
    (hworld : ∀ db, .world db ∉ moves) (hrun : p.run rt cfg moves = some p') :
    Reached rt cfg admits start p' := by
  induction moves generalizing p with
  | nil =>
    cases hrun
    exact h
  | cons move moves ih =>
    obtain ⟨mid, hstep, hrest⟩ := Option.bind_eq_some_iff.mp hrun
    have hworldly : Worldly p move :=
      worldly_of_ne fun db heq ↦ hworld db (heq ▸ List.mem_cons_self)
    exact ih (h.step (hadmits move List.mem_cons_self p) hworldly hstep)
      (fun move hmem ↦ hadmits move (List.mem_cons_of_mem _ hmem))
      (fun db hmem ↦ hworld db (List.mem_cons_of_mem _ hmem)) hrest

/-- Induction over a run, as one transaction sees it. -/
theorem Reached.glimpse_induction {admits : Proc → Move → Prop} {start : Db}
    (good : Glimpse → Prop) (hkeys : (start.settlements.map Settlement.txHash).Nodup)
    (hstart : good ⟨⟨none, none, []⟩, start.settlement tx, []⟩)
    (hgood : ∀ (p : Proc) (move : Move) (g : Glimpse), p.Sound → admits p move →
      good (p.glimpse tx) → Seen cfg (fun _ ↦ True) tx (p.glimpse tx) (p.txMove tx move) g → good g)
    (h : Reached rt cfg admits start p) : good (p.glimpse tx) := by
  induction h with
  | start => exact hstart
  | @step p p' move run hadmits hworldly hstep ih =>
    have hserves : move.Serves fun _ ↦ True := move.serves_true
    exact hgood p move _ (run.sound hkeys) hadmits ih
      (glimpse_step (run.sound hkeys) hserves hworldly hstep)

/-- Registering all listed rows: every transaction without an entry gets the first one that its rows
give. -/
theorem run_seeds (rows : List Settlement) (w : Watcher) (db : Db) :
    ∃ w', Proc.run rt cfg (rows.map fun _ ↦ .seed) ⟨w, db, rows⟩ = some ⟨w', db, []⟩ ∧
      w'.stage = w.stage ∧ ∀ tx, w'.tracked.lookup tx =
        (w.tracked.lookup tx).or ((rows.filter (·.txHash = tx)).findSome? (seededEntry cfg)) := by
  induction rows generalizing w with
  | nil => exact ⟨w, rfl, rfl, fun tx ↦ by simp⟩
  | cons row rows ih =>
    obtain ⟨mid, hmid⟩ : ∃ mid, w.step cfg (seed row) = some mid := by
      unfold seed
      split <;> exact ⟨_, rfl⟩
    have hstep : Proc.step rt cfg ⟨w, db, row :: rows⟩ .seed = some ⟨mid, db, rows⟩ := by
      simp only [Proc.step, hmid, Option.map_some]
    obtain ⟨w', hrun, hstage, hlookup⟩ := ih mid
    have hseeded : ∀ tx, mid.stage = w.stage ∧ mid.tracked.lookup tx = _ := fun tx ↦ view_seed hmid
    refine ⟨w', ?_, hstage.trans (hseeded "").1, fun tx ↦ ?_⟩
    · rw [List.map_cons, Proc.run, hstep, Option.bind_some]
      exact hrun
    · rw [hlookup tx, (hseeded tx).2]
      by_cases htx : row.txHash = tx
      · rw [if_pos htx, List.filter_cons_of_pos (by simpa using htx), Option.or_assoc]
        congr 1
        rw [List.findSome?_cons]
        cases seededEntry cfg row <;> rfl
      · rw [if_neg htx, List.filter_cons_of_neg (by simpa using htx)]

/-- A re-scan always goes through; it leaves the tables alone. -/
theorem run_rescan (p : Proc) :
    ∃ w', p.run rt cfg p.rescan = some ⟨w', p.db, []⟩ ∧ w'.stage = p.watcher.stage ∧
      ∀ tx, w'.tracked.lookup tx = ((p.watcher.tracked.lookup tx).or
        ((p.scan.filter (·.txHash = tx)).findSome? (seededEntry cfg))).or
          (((listPendingSettlements p.db).filter (·.txHash = tx)).findSome? (seededEntry cfg)) := by
  obtain ⟨mid, hmid, hstage, hlookup⟩ :
      ∃ mid, p.run rt cfg (p.scan.map fun _ ↦ .seed) = some ⟨mid, p.db, []⟩ ∧ _ :=
    run_seeds p.scan p.watcher p.db
  obtain ⟨w', hrun, hstage', hlookup'⟩ :
      ∃ w', Proc.run rt cfg _ ⟨mid, p.db, listPendingSettlements p.db⟩ = some ⟨w', p.db, []⟩ ∧ _ :=
    run_seeds (listPendingSettlements p.db) mid p.db
  refine ⟨w', ?_, hstage'.trans hstage, fun tx ↦ ?_⟩
  · rw [Proc.rescan, Proc.run_append, hmid, Option.bind_some, Proc.run, Proc.step, Option.bind_some]
    exact hrun
  · rw [hlookup' tx, hlookup tx]

theorem run_watch {acts : List Act} (hinternal : ∀ act ∈ acts, Internal act = true) :
    p.run rt cfg (acts.map .watch) =
      (p.watcher.run cfg acts).map fun w ↦ { p with watcher := w } := by
  induction acts generalizing p with
  | nil => rfl
  | cons act acts ih =>
    have hstep : p.step rt cfg (.watch act) =
        (p.watcher.step cfg act).map fun w ↦ { p with watcher := w } := by
      simp only [Proc.step, hinternal act List.mem_cons_self, if_true]
    rw [List.map_cons, Proc.run, hstep, Watcher.run]
    cases p.watcher.step cfg act with
    | none => rfl
    | some w => exact ih fun act hact ↦ hinternal act (List.mem_cons_of_mem _ hact)

/-- A pass of the process is a pass of `poll`: it visits every transaction once and leaves what it
emits to be delivered. -/
theorem run_pass {head : UInt64} {keys : List TxHash} {reader : TxHash → Answers} {t : Tracked}
    (hsound : p.Sound) (hwaiting : p.watcher.Waiting) (hkeys : keys.Perm p.watcher.tracked.keys)
    (ht : p.watcher.tracked.lookup tx = some t) :
    ∃ w queue, p.run rt cfg (pass head keys reader) = some ⟨w, p.db, p.scan⟩ ∧
      w.stage = .delivering queue ∧ w.tracked.lookup tx = (observe cfg head tx (reader tx) t).1 ∧
      queue.filter (·.txHash = tx) = (observe cfg head tx (reader tx) t).2 := by
  have hinternal : ∀ act ∈ passActs head keys reader, Internal act = true := by
    intro act hact
    simp only [passActs, List.mem_append, List.mem_cons, List.mem_map, List.not_mem_nil,
      or_false] at hact
    obtain (rfl | ⟨tx, -, rfl⟩) | rfl := hact <;> rfl
  set result := poll cfg (some head) reader keys p.watcher.tracked with hresult
  have houtcome : outcome result tx = observe cfg head tx (reader tx) t := by
    rw [hresult, outcome_poll hsound.orderly.shape hkeys, ht]
  refine ⟨⟨result.1, .delivering result.2⟩, result.2, ?_, rfl, congrArg Prod.fst houtcome,
    congrArg Prod.snd houtcome⟩
  rw [pass, run_watch hinternal, pass_steps hwaiting hkeys, Option.map_some]

theorem Bystander.of_settlements_eq (h : db'.settlements = db.settlements) : Bystander db db' := by
  have hrows : ∀ tx, db'.settlement tx = db.settlement tx := fun tx ↦ by
    rw [Db.settlement, Db.settlement, h]
  refine ⟨fun tx row hrow ↦ (hrows tx).trans hrow, fun tx row hnone hrow ↦ ?_, fun hkeys ↦ ?_⟩
  · rw [hrows tx, hnone] at hrow
    cases hrow
  · rw [h]
    exact hkeys

/-- What the other calls of the rail commit is what the world may do. -/
theorem bystander_of_committed {allowed : Stmt → Ambient → Db → Prop} {call : Call}
    {writes : List Write} (h : Committed rt allowed db call writes)
    (hcall : ∀ st, call ≠ .onStatus st) : Bystander db (queries.view db writes) := by
  cases h with
  | nothing => exact .of_settlements_eq rfl
  | created | canceled =>
    refine .of_settlements_eq ?_
    rw [Engine.view_append, Ledger.view_entry_writes]
    rfl
  | linked paymentID tx row fresh payment pending =>
    have hkey : row.txHash = tx := by rw [pending]
    refine ⟨fun tx' row' hrow' ↦ Table.lookup_append_of_some row hrow',
      fun tx' row' hnone hrow' ↦ ?_, fun hkeys ↦ ?_⟩
    · have hlookup : (db.settlement tx').or (if row.txHash = tx' then some row else none) =
          some row' := (Table.lookup_append row).symm.trans hrow'
      rw [hnone, Option.none_or] at hlookup
      split at hlookup
      · cases hlookup
        rw [pending]
      · cases hlookup
    · change ((db.settlements ++ [row]).map Settlement.txHash).Nodup
      rw [List.map_append, List.nodup_append]
      refine ⟨hkeys, List.nodup_singleton _, ?_⟩
      rintro key hkey' other hother rfl
      obtain rfl : key = tx := by simpa [hkey] using hother
      obtain ⟨row', hmem, heq⟩ := List.mem_map.mp hkey'
      exact Table.lookup_eq_none.mp fresh row' hmem heq
  | settled | reversed | finalized | settledUnmarked | reversedUnmarked =>
    exact absurd rfl (hcall _)

end Step

/-! ### Sample moves -/

/-- The sample tables with a valid transaction hash. -/
def watchedRow : Settlement := ⟨30, 20, sampleTx, .pending, none, 0, none, none⟩

def watchedDb : Db := { sampleDb with settlements := [watchedRow] }

/-- Random identifiers that count up from `seed`. -/
def sampleAmbient (seed : ℕ) (n : ℕ) : Ambient := ⟨BitVec.ofNat 128 (seed + n), n⟩

/-- A pass over the sample transaction. -/
def samplePassOf (head : UInt64) (answers : Answers) : List Move := pass head [sampleTx] fun _ ↦ answers

/-- A node on a chain without the transaction. -/
def noReceipt : Answers := ⟨.notFound, fun _ ↦ .found 5⟩

/-- The process on the sample tables after a list of moves. -/
def sampleProc (moves : List Move) : Option Proc :=
  (Proc.start watchedDb).run sampleRuntime sampleConfig moves

theorem nodup_watchedDb : (watchedDb.settlements.map Settlement.txHash).Nodup := by
  simp [watchedDb]

end PaymentRail.Chainwatcher
