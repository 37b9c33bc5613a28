import PaymentRail.Chainwatcher.Process

/-!
# The watcher's statuses in the sink

The statuses that `poll` emits about one registered transaction, handed to the sink in order, with a
payment that can be settled and reversed and a database that does not fail.  The watcher and the row
then stay in step (`Agrees`), and no delivery fails, unless a confirmation comes back in a block in
which the payment was settled before: the reference of the settlement is then taken.
-/

namespace PaymentRail.Chainwatcher

open Transaction Chain Rail Sink Ledger

/-- The row status that a phase calls for. -/
def callFor (phase : Phase) (status : SettlementStatus) : SettlementStatus :=
  match phase with
  | .confirmed => .settled
  | .reorged => if status = .settled then .reorged else status
  | .finalized => if status = .settled then .finalized else status
  | .pending | .mined => status

/-- One call of `OnStatus`: its result and the row after it. -/
structure Delivery where
  status : Status
  result : Except Err Result
  row : Option Settlement

/-- The row status that the deliveries so far call for, the latest first. -/
def calledFor (initial : SettlementStatus) (log : List Delivery) : SettlementStatus :=
  log.foldr (fun d status ↦ callFor d.status.phase status) initial

/-- What may happen to the tables between two deliveries: the row of the transaction stays, and so do
the settlement references of its payment. -/
structure Keeps (tx : TxHash) (db db' : Db) : Prop where
  row : db'.settlement tx = db.settlement tx
  references : ∀ row, db.settlement tx = some row → ∀ blockHash,
    db'.posted "settlement.settle" (settleRef row.paymentID blockHash) =
      db.posted "settlement.settle" (settleRef row.paymentID blockHash) ∧
    db'.posted "settlement.reversal" (reverseRef row.paymentID blockHash) =
      db.posted "settlement.reversal" (reverseRef row.paymentID blockHash)

/-- A payment that can be settled and reversed, on a database that does not fail: the payment and the
clearing account are there, both accounts are active, and the one debited holds the amount. -/
structure Funded (rt : Audit.Runtime) (db : Db) (st : Status) (ambient : ℕ → Ambient)
    (row : Settlement) (pay : Payment) (house : Account) : Prop where
  resolved : Resolved db st.txHash row pay house
  asset : pay.asset ≠ ""
  amount : 0 < pay.amount.toInt
  settle : st.phase = .confirmed → row.status ≠ .settled →
    Affordable db pay.asset pay.destAccountID house.id pay.amount
  reverse : st.phase = .reorged → row.status = .settled →
    Affordable db pay.asset house.id pay.destAccountID pay.amount
  healthy : Admitted queries Healthy db (body rt (.onStatus st)) ambient []

/-- A confirmation does not come back in a block the payment was settled in before, and there is room
for the amount in the account that is credited. -/
structure Unused (db : Db) (st : Status) (row : Settlement) (pay : Payment) (house : Account) :
    Prop where
  fresh : st.phase = .confirmed → row.status ≠ .settled →
    db.posted "settlement.settle" (settleRef row.paymentID st.blockHash) = false
  settleRoom : st.phase = .confirmed → row.status ≠ .settled →
    db.balance house.id + pay.amount.toInt < 2 ^ 63
  reverseRoom : st.phase = .reorged → row.status = .settled →
    db.balance pay.destAccountID + pay.amount.toInt < 2 ^ 63

/-- The outcome of a delivery that ends as its transaction does. -/
def outcomeOf : Except Err Result → Outcome
  | .ok _ => .applied
  | .error _ => .failed

/-- The runs of a process in which the statuses about one transaction are handed to the sink, with
the deliveries made, the latest first.  The transaction is not registered a second time. -/
inductive Fed (rt : Audit.Runtime) (cfg : Config) (tx : TxHash) (start : Proc) :
    List Delivery → Proc → Prop
  | start : Fed rt cfg tx start [] start
  | other {log : List Delivery} {p p' : Proc} {move : Move} (run : Fed rt cfg tx start log p)
      (hworldly : Worldly p move) (hstep : p.step rt cfg move = some p')
      (hother : ∀ st outcome, p.txMove tx move ≠ .deliver st outcome)
      (hseed : ∀ row, p.txMove tx move = .seed row → (p.watcher.tracked.lookup tx).isSome)
      (hkeeps : Keeps tx p.db p'.db) : Fed rt cfg tx start log p'
  | delivered {log : List Delivery} {p p' : Proc} {st : Status} {queue : List Status}
      {ambient : ℕ → Ambient} {row : Settlement} {pay : Payment} {house : Account}
      (run : Fed rt cfg tx start log p) (hstage : p.watcher.stage = .delivering (st :: queue))
      (htx : st.txHash = tx) (hfunded : Funded rt p.db st ambient row pay house)
      (hunused : Unused p.db st row pay house)
      (hstep : p.step rt cfg (.deliver ambient
        (outcomeOf (atomically queries (body rt (.onStatus st)) ambient p.db).1)) = some p') :
      Fed rt cfg tx start
        (⟨st, (atomically queries (body rt (.onStatus st)) ambient p.db).1,
          p'.db.settlement tx⟩ :: log) p'

/-- The settlement references of a payment: every reversal has its settlement, and the block that the
row is settled in has no reversal yet. -/
structure References (db : Db) (row : Settlement) : Prop where
  reversed : ∀ blockHash,
    db.posted "settlement.reversal" (reverseRef row.paymentID blockHash) = true →
    db.posted "settlement.settle" (settleRef row.paymentID blockHash) = true
  settled : row.status = .settled → ∃ blockHash, row.settledBlockHash = some blockHash ∧
    db.posted "settlement.settle" (settleRef row.paymentID blockHash) = true ∧
    db.posted "settlement.reversal" (reverseRef row.paymentID blockHash) = false

/-- A transaction right after its registration: as new with an open row, or resumed at the anchor of
a settled row. -/
structure Registered (cfg : Config) (p : Proc) (tx : TxHash) (row : Settlement) : Prop where
  sound : p.Sound
  waiting : p.watcher.Waiting
  linked : p.db.settlement tx = some row
  entry : (p.watcher.tracked.lookup tx = some .fresh ∧ row.status.settleable = true) ∨
    ∃ blockHash blockNumber,
      p.watcher.tracked.lookup tx = some (.resumed cfg blockHash blockNumber) ∧
      row.status = .settled ∧ row.settledBlockHash = some (renderHash blockHash blockNumber)
  references : References p.db row

/-- The watcher and the row are in step. -/
inductive Agrees : View → Settlement → Prop
  /-- Not confirmed: the row is open, and a reorg that is due takes nothing back. -/
  | watching (t : Tracked) (turn : Option UInt64) (due : List Status) (row : Settlement)
      (hphase : t.phase ≠ .confirmed) (hdue : ∀ s ∈ due, s.phase = .mined ∨ s.phase = .reorged)
      (hrow : row.status.settleable = true) : Agrees ⟨some t, turn, due⟩ row
  /-- Confirmed and not delivered. -/
  | confirming (t : Tracked) (s : Status) (row : Settlement) (hphase : t.phase = .confirmed)
      (hs : s.phase = .confirmed) (hanchor : s.blockHash = renderHash t.blockHash t.blockNumber)
      (hrow : row.status.settleable = true) : Agrees ⟨some t, none, [s]⟩ row
  | settled (t : Tracked) (turn : Option UInt64) (row : Settlement) (hphase : t.phase = .confirmed)
      (hrow : row.status = .settled)
      (hanchor : row.settledBlockHash = some (renderHash t.blockHash t.blockNumber)) :
      Agrees ⟨some t, turn, []⟩ row
  /-- Orphaned and not delivered. -/
  | reversing (t : Tracked) (s : Status) (row : Settlement) (hphase : t.phase ≠ .confirmed)
      (hs : s.phase = .reorged) (hrow : row.status = .settled)
      (hanchor : row.settledBlockHash = some s.blockHash) : Agrees ⟨some t, none, [s]⟩ row
  | finalizing (s : Status) (row : Settlement) (hs : s.phase = .finalized)
      (hrow : row.status = .settled) : Agrees ⟨none, none, [s]⟩ row
  | closed (turn : Option UInt64) (row : Settlement) (hrow : row.status = .finalized) :
      Agrees ⟨none, turn, []⟩ row

/-! ### The watcher and the row stay in step -/

section Agreement

variable {cfg : Config} {tx : TxHash} {served : Answers → Prop} {head : UInt64} {answers : Answers}
  {t : Tracked} {entry : Option Tracked} {out due : List Status} {turn : Option UInt64}
  {v v' : View} {row row' : Settlement} {st : Status} {move : TxMove} {listed listed' : List Settlement}

theorem not_settled_of_settleable (h : row.status.settleable = true) : row.status ≠ .settled := by
  intro hsettled
  rw [hsettled] at h
  cases h

/-- A transaction seen in a block: its confirmation is due, or it is watched on. -/
theorem agrees_seen (hrow : row.status.settleable = true) (blockHash : Hash)
    (blockNumber depth : UInt64) :
    Agrees ⟨some (.seen cfg blockHash blockNumber depth), none,
      [.seen cfg tx blockHash blockNumber depth]⟩ row := by
  obtain ⟨-, hat⟩ | ⟨-, hat⟩ := phaseAt_cases cfg depth
  · exact .confirming _ _ row hat hat rfl hrow
  · refine .watching _ none _ row (fun hphase ↦ ?_) (fun s hs ↦ ?_) hrow
    · cases hat.symm.trans hphase
    · obtain rfl := List.mem_singleton.mp hs
      exact .inl hat

/-- A visit keeps the watcher and the row in step. -/
theorem Agrees.visited (h : Agrees ⟨some t, turn, []⟩ row)
    (ho : Observed cfg head tx answers t entry out) : Agrees ⟨entry, none, out⟩ row := by
  cases h with
  | watching _ _ _ _ hphase hdue hrow =>
    cases ho with
    | silent => exact .watching t none [] row hphase hdue hrow
    | sighted receipt => exact agrees_seen hrow _ _ _
    | deepened => exact agrees_seen hrow _ _ _
    | orphaned =>
      refine .watching _ none _ row (by decide) (fun s hs ↦ ?_) hrow
      obtain rfl := List.mem_singleton.mp hs
      exact .inr rfl
    | finalized hconfirmed => exact absurd hconfirmed hphase
  | settled _ _ _ hphase hrow hanchor =>
    cases ho with
    | silent => exact .settled t none row hphase hrow hanchor
    | sighted receipt hpending =>
      rw [hphase] at hpending
      cases hpending
    | deepened hmined =>
      rw [hphase] at hmined
      cases hmined
    | orphaned => exact .reversing _ _ row (by decide) rfl hrow hanchor
    | finalized => exact .finalizing _ row rfl hrow

/-- Every move but a delivery keeps them in step, if the transaction is not registered again. -/
theorem Agrees.other (h : Agrees v row) (hshape : ∀ t ∈ v.entry, t.Shape)
    (hseen : Seen cfg served tx ⟨v, some row, listed⟩ move ⟨v', some row, listed'⟩)
    (hmove : ∀ st outcome, move ≠ .deliver st outcome)
    (hseed : ∀ row, move = .seed row → v.entry.isSome) : Agrees v' row := by
  cases hseen with
  | unseen => exact h
  | listed => exact h
  | seeded _ _ r rest =>
    obtain ⟨t, ht⟩ := Option.isSome_iff_exists.mp (hseed r rfl)
    rw [ht, Option.some_or, ← ht]
    exact h
  | begun t head =>
    cases h with
    | watching _ _ _ _ hphase hdue hrow => exact .watching t (some head) [] row hphase hdue hrow
    | settled _ _ _ hphase hrow hanchor => exact .settled t (some head) row hphase hrow hanchor
  | visited t head answers hserved entry out hvisit =>
    have ho := observed cfg head tx answers (hshape t rfl)
    rw [hvisit] at ho
    exact h.visited ho
  | delivered _ st due outcome => exact absurd rfl (hmove st outcome)

/-- A delivery that moves the row as its phase asks keeps them in step. -/
theorem Agrees.delivered (h : Agrees ⟨entry, turn, st :: due⟩ row) (hmoved : Moved st row row') :
    Agrees ⟨entry, none, due⟩ row' ∧ row'.status = callFor st.phase row.status := by
  cases h with
  | watching t _ _ _ hphase hdue hrow =>
    have hopen := not_settled_of_settleable hrow
    have hsame : row' = row ∧ callFor st.phase row.status = row.status := by
      obtain hst | hst := hdue st List.mem_cons_self <;>
        simpa [Moved, callFor, hst, hopen] using hmoved
    rw [hsame.1, hsame.2]
    exact ⟨.watching t none due row hphase (fun s hs ↦ hdue s (List.mem_cons_of_mem _ hs)) hrow, rfl⟩
  | confirming t _ _ hphase hs hanchor hrow =>
    simp only [Moved, hs, hrow, if_true] at hmoved
    obtain ⟨id, rfl⟩ := hmoved
    simp only [callFor, hs]
    exact ⟨.settled t none _ hphase rfl (congrArg some hanchor), rfl⟩
  | reversing t _ _ hphase hs hrow hanchor =>
    simp only [Moved, hs, hrow, if_true] at hmoved
    subst hmoved
    simp only [callFor, hs, hrow, if_true]
    exact ⟨.watching t none [] _ hphase (fun s hs ↦ by cases hs) rfl, rfl⟩
  | finalizing _ _ hs hrow =>
    simp only [Moved, hs, hrow, if_true] at hmoved
    subst hmoved
    simp only [callFor, hs, hrow, if_true]
    exact ⟨.closed none _ rfl, rfl⟩

/-- What is due is what the row is ready for. -/
theorem Agrees.due_cases (h : Agrees ⟨entry, turn, st :: due⟩ row) :
    (st.phase = .confirmed → row.status.settleable = true) ∧
      (st.phase = .reorged → row.status = .settled → row.settledBlockHash = some st.blockHash) := by
  cases h with
  | watching t _ _ _ hphase hdue hrow =>
    exact ⟨fun _ ↦ hrow, fun _ hsettled ↦ absurd hsettled (not_settled_of_settleable hrow)⟩
  | confirming t _ _ hphase hs hanchor hrow =>
    exact ⟨fun _ ↦ hrow, fun _ hsettled ↦ absurd hsettled (not_settled_of_settleable hrow)⟩
  | reversing t _ _ hphase hs hrow hanchor =>
    refine ⟨fun hconfirmed ↦ ?_, fun _ _ ↦ hanchor⟩
    rw [hs] at hconfirmed
    cases hconfirmed
  | finalizing _ _ hs hrow =>
    refine ⟨fun hconfirmed ↦ ?_, fun hreorged ↦ ?_⟩
    · rw [hs] at hconfirmed
      cases hconfirmed
    · rw [hs] at hreorged
      cases hreorged

end Agreement

/-! ### No reference is used twice -/

section References

variable {rt : Audit.Runtime} {tx : TxHash} {db db' : Db} {st : Status} {row row' : Settlement}
  {pay : Payment} {house : Account} {ambient : ℕ → Ambient} {result : Result}
  {entry : Option Tracked} {turn : Option UInt64} {due : List Status}

theorem reverseRef_injective (pid : UUID) : Function.Injective (reverseRef pid) := by
  intro first second h
  have hlist := congrArg String.toList h
  simp only [reverseRef, String.toList_append, List.append_right_inj] at hlist
  exact String.toList_injective hlist

theorem settleRef_ne_empty (pid : UUID) (blockHash : String) : settleRef pid blockHash ≠ "" := by
  intro h
  have hlist := congrArg String.toList h
  simp [settleRef] at hlist

theorem reverseRef_ne_empty (pid : UUID) (blockHash : String) : reverseRef pid blockHash ≠ "" := by
  intro h
  have hlist := congrArg String.toList h
  simp [reverseRef] at hlist

theorem posted_append {je : JournalEntry} (h : db'.journalEntries = db.journalEntries ++ [je])
    (kind externalRef : String) :
    db'.posted kind externalRef =
      (db.posted kind externalRef || decide (je.kind = kind ∧ je.externalRef = externalRef)) := by
  simp only [Db.posted, h, List.any_append, List.any_cons, List.any_nil, Bool.or_false]

theorem References.keeps (h : References db row) (hrow : db.settlement tx = some row)
    (hkeeps : Keeps tx db db') : References db' row := by
  refine ⟨fun blockHash hreversed ↦ ?_, fun hsettled ↦ ?_⟩
  · obtain ⟨hsettle, hreverse⟩ := hkeeps.references row hrow blockHash
    rw [hreverse] at hreversed
    rw [hsettle]
    exact h.reversed blockHash hreversed
  · obtain ⟨blockHash, hanchor, hposted, hfree⟩ := h.settled hsettled
    obtain ⟨hsettle, hreverse⟩ := hkeeps.references row hrow blockHash
    exact ⟨blockHash, hanchor, hsettle.trans hposted, hreverse.trans hfree⟩

/-- A settlement under a new reference: its block has no reversal yet. -/
theorem References.settle (h : References db row) {je : JournalEntry}
    (hjournal : db'.journalEntries = db.journalEntries ++ [je])
    (hkind : je.kind = "settlement.settle")
    (href : je.externalRef = settleRef row.paymentID st.blockHash)
    (hfresh : db.posted "settlement.settle" (settleRef row.paymentID st.blockHash) = false)
    (id : UUID) : References db'
      (row.settle (some id) (some st.blockHash) (some st.blockNumber.toInt64)) := by
  have hreversal : ∀ externalRef,
      db'.posted "settlement.reversal" externalRef = db.posted "settlement.reversal" externalRef := by
    intro externalRef
    rw [posted_append hjournal, hkind]
    simp
  have hsettle : ∀ externalRef, db.posted "settlement.settle" externalRef = true →
      db'.posted "settlement.settle" externalRef = true := by
    intro externalRef hposted
    rw [posted_append hjournal, hposted, Bool.true_or]
  constructor
  · intro blockHash hreversed
    rw [hreversal] at hreversed
    exact hsettle _ (h.reversed blockHash hreversed)
  · intro _
    refine ⟨st.blockHash, rfl, ?_, ?_⟩
    · change db'.posted "settlement.settle" (settleRef row.paymentID st.blockHash) = true
      rw [posted_append hjournal, hkind, href]
      simp
    · change db'.posted "settlement.reversal" (reverseRef row.paymentID st.blockHash) = false
      rw [hreversal, Bool.eq_false_iff]
      intro hreversed
      rw [h.reversed st.blockHash hreversed] at hfresh
      cases hfresh

/-- The reversal of the block that the row is settled in. -/
theorem References.reverse (h : References db row) {je : JournalEntry}
    (hjournal : db'.journalEntries = db.journalEntries ++ [je])
    (hkind : je.kind = "settlement.reversal")
    (href : je.externalRef = reverseRef row.paymentID st.blockHash)
    (hsettled : row.status = .settled) (hanchor : row.settledBlockHash = some st.blockHash) :
    References db' row.reorg := by
  have hsettle : ∀ externalRef,
      db'.posted "settlement.settle" externalRef = db.posted "settlement.settle" externalRef := by
    intro externalRef
    rw [posted_append hjournal, hkind]
    simp
  refine ⟨fun blockHash hreversed ↦ ?_, fun hstatus ↦ by cases hstatus⟩
  rw [posted_append hjournal, hkind, href, Bool.or_eq_true] at hreversed
  rw [hsettle]
  obtain hold | hnew := hreversed
  · exact h.reversed blockHash hold
  · obtain rfl := reverseRef_injective _ (of_decide_eq_true hnew).2
    obtain ⟨blockHash, hblock, hposted, -⟩ := h.settled hsettled
    obtain rfl := Option.some.inj (hanchor.symm.trans hblock)
    exact hposted

/-- A delivery to a row in step with the watcher keeps the references in order. -/
theorem Agrees.references (h : Agrees ⟨entry, turn, st :: due⟩ row) (hrefs : References db row)
    (hrun : atomically queries (body rt (.onStatus st)) ambient db = (.ok result, db'))
    (hrow : db.settlement st.txHash = some row) (hrow' : db'.settlement st.txHash = some row')
    (hmoved : Moved st row row')
    (hfresh : st.phase = .confirmed → row.status ≠ .settled →
      db.posted "settlement.settle" (settleRef row.paymentID st.blockHash) = false) :
    References db' row' := by
  have hjournal := journal_after_delivery hrun hrow
  cases h with
  | watching t _ _ _ hphase hdue hopen =>
    have hidle : st.phase = .mined ∨ st.phase = .reorged ∧ row.status ≠ .settled :=
      (hdue st List.mem_cons_self).imp_right fun hst ↦ ⟨hst, not_settled_of_settleable hopen⟩
    obtain rfl := db_after_idle hrun hrow hidle
    obtain rfl := Option.some.inj (hrow.symm.trans hrow')
    exact hrefs
  | confirming t _ _ hphase hs hanchor hopen =>
    have hstatus := not_settled_of_settleable hopen
    simp only [Moved, hs, hopen, if_true] at hmoved
    obtain ⟨id, rfl⟩ := hmoved
    obtain ⟨-, rfl | hfinal⟩ | ⟨je, hentries, ⟨-, hkind, href⟩ | ⟨hreorged, -⟩⟩ := hjournal
    · -- the row was open and is settled, so something was written
      have hsame := Option.some.inj (hrow.symm.trans hrow')
      exact absurd (congrArg Settlement.status hsame) hstatus
    · cases hs.symm.trans hfinal
    · exact hrefs.settle hentries hkind href (hfresh hs hstatus) id
    · cases hs.symm.trans hreorged
  | reversing t _ _ hphase hs hsettled hanchor =>
    simp only [Moved, hs, hsettled, if_true] at hmoved
    subst hmoved
    obtain ⟨-, rfl | hfinal⟩ | ⟨je, hentries, ⟨hconfirmed, -⟩ | ⟨-, hkind, href⟩⟩ := hjournal
    · have hsame := Option.some.inj (hrow.symm.trans hrow')
      have hreorged : SettlementStatus.settled = .reorged :=
        hsettled.symm.trans (congrArg Settlement.status hsame)
      cases hreorged
    · cases hs.symm.trans hfinal
    · cases hs.symm.trans hconfirmed
    · exact hrefs.reverse hentries hkind href hsettled hanchor
  | finalizing _ _ hs hsettled =>
    simp only [Moved, hs, hsettled, if_true] at hmoved
    subst hmoved
    obtain ⟨hentries, -⟩ | ⟨je, -, ⟨hconfirmed, -⟩ | ⟨hreorged, -⟩⟩ := hjournal
    · refine ⟨fun blockHash hreversed ↦ ?_, fun hstatus ↦ by cases hstatus⟩
      simp only [Db.posted, hentries] at hreversed ⊢
      exact hrefs.reversed blockHash hreversed
    · cases hs.symm.trans hconfirmed
    · cases hs.symm.trans hreorged

/-- A status in step with the row can be delivered. -/
theorem Agrees.deliverable (h : Agrees ⟨entry, turn, st :: due⟩ row) (hrefs : References db row)
    (hfunded : Funded rt db st ambient row pay house) (hunused : Unused db st row pay house) :
    Deliverable db st row pay house := by
  obtain ⟨-, hanchored⟩ := h.due_cases
  refine ⟨hfunded.resolved, fun hphase hstatus ↦ ?_, fun hphase hstatus ↦ ?_⟩
  · exact (hfunded.settle hphase hstatus).postable (hunused.settleRoom hphase hstatus) (by decide)
      (settleRef_ne_empty _ _) hfunded.asset hfunded.amount (hunused.fresh hphase hstatus)
  · obtain ⟨blockHash, hblock, -, hfree⟩ := hrefs.settled hstatus
    obtain rfl := Option.some.inj ((hanchored hphase hstatus).symm.trans hblock)
    exact (hfunded.reverse hphase hstatus).postable (hunused.reverseRoom hphase hstatus) (by decide)
      (reverseRef_ne_empty _ _) hfunded.asset hfunded.amount hfree

end References

/-! ### Whole runs -/

/-- What holds after every move: the watcher, the row and the references are in step, and the row has
the status that the deliveries call for. -/
structure InStep (tx : TxHash) (initial : SettlementStatus) (log : List Delivery) (p : Proc) :
    Prop where
  sound : p.Sound
  linked : ∃ row, p.db.settlement tx = some row ∧ Agrees (p.watcher.view tx) row ∧
    References p.db row ∧ row.status = calledFor initial log

section Runs

variable {rt : Audit.Runtime} {cfg : Config} {tx : TxHash} {p p' start : Proc} {row : Settlement}
  {log : List Delivery} {initial : SettlementStatus} {st : Status} {queue : List Status}
  {ambient : ℕ → Ambient} {pay : Payment} {house : Account} {move : Move}

theorem Registered.inStep (h : Registered cfg start tx row) : InStep tx row.status [] start := by
  have hview : start.watcher.view tx = ⟨start.watcher.tracked.lookup tx, none, []⟩ := by
    have hwaiting : start.watcher.stage = .delivering [] := h.waiting
    simp [Watcher.view, hwaiting, Stage.turn, Stage.statuses]
  refine ⟨h.sound, row, h.linked, ?_, h.references, rfl⟩
  rw [hview]
  obtain ⟨hfresh, hopen⟩ | ⟨blockHash, blockNumber, hresumed, hsettled, hanchor⟩ := h.entry
  · rw [hfresh]
    exact .watching _ none [] row (by decide) (fun s hs ↦ by cases hs) hopen
  · rw [hresumed]
    exact .settled _ none row rfl hsettled hanchor

theorem InStep.other (h : InStep tx initial log p) (hworldly : Worldly p move)
    (hstep : p.step rt cfg move = some p')
    (hother : ∀ st outcome, p.txMove tx move ≠ .deliver st outcome)
    (hseed : ∀ row, p.txMove tx move = .seed row → (p.watcher.tracked.lookup tx).isSome)
    (hkeeps : Keeps tx p.db p'.db) : InStep tx initial log p' := by
  obtain ⟨row, hrow, hagrees, hrefs, hstatus⟩ := h.linked
  have hrow' := hkeeps.row.trans hrow
  have hseen : Seen cfg _ tx (p.glimpse tx) (p.txMove tx move) (p'.glimpse tx) :=
    glimpse_step h.sound move.serves_true hworldly hstep
  simp only [Proc.glimpse, hrow, hrow'] at hseen
  refine ⟨h.sound.step hworldly hstep, row, hrow', ?_, hrefs.keeps hrow hkeeps, hstatus⟩
  exact hagrees.other (fun t ht ↦ h.sound.orderly.shape tx t ht) hseen hother hseed

/-- A delivery succeeds, and the row gets the status that its phase calls for. -/
theorem InStep.delivered (h : InStep st.txHash initial log p)
    (hstage : p.watcher.stage = .delivering (st :: queue))
    (hfunded : Funded rt p.db st ambient row pay house) (hunused : Unused p.db st row pay house)
    (hstep : p.step rt cfg (.deliver ambient
      (outcomeOf (atomically queries (body rt (.onStatus st)) ambient p.db).1)) = some p') :
    (atomically queries (body rt (.onStatus st)) ambient p.db).1 = .ok .done ∧
      InStep st.txHash initial (⟨st, .ok .done, p'.db.settlement st.txHash⟩ :: log) p' := by
  obtain ⟨row', hrow, hagrees, hrefs, hstatus⟩ := h.linked
  obtain rfl := Option.some.inj (hfunded.resolved.linked.symm.trans hrow)
  have hview : p.watcher.view st.txHash = ⟨p.watcher.tracked.lookup st.txHash, none,
      st :: queue.filter (·.txHash = st.txHash)⟩ := by
    simp [Watcher.view, hstage, Stage.turn, Stage.statuses]
  rw [hview] at hagrees
  obtain ⟨db', hrun⟩ := delivery_succeeds (hagrees.deliverable hrefs hfunded hunused) hfunded.healthy
  have hsound : p'.Sound := by
    refine h.sound.step ?_ hstep
    trivial
  simp only [Proc.step, hstage, Watcher.step, hrun, outcomeOf, Outcome.ok, Chainwatcher.delivered,
    Option.bind_some, Option.map_some, if_true, Option.some.injEq] at hstep
  subst hstep
  obtain ⟨moved, hrow', hmoved⟩ := row_after_delivery hrun hrow
  obtain ⟨hagrees', hcall⟩ := hagrees.delivered hmoved
  refine ⟨by rw [hrun], hsound, moved, hrow', hagrees', ?_, ?_⟩
  · exact hagrees.references hrefs hrun hrow hrow' hmoved hunused.fresh
  · rw [hcall, hstatus]
    rfl

theorem Fed.inStep (hstart : Registered cfg start tx row) (h : Fed rt cfg tx start log p) :
    InStep tx row.status log p := by
  induction h with
  | start => exact hstart.inStep
  | other run hworldly hstep hother hseed hkeeps ih =>
    exact ih.other hworldly hstep hother hseed hkeeps
  | delivered run hstage htx hfunded hunused hstep ih =>
    subst htx
    obtain ⟨hok, hnext⟩ := ih.delivered hstage hfunded hunused hstep
    rw [hok]
    exact hnext

/-- In every run of the watcher against the sink in which no confirmation comes back in a block the
payment was settled in before, and the amount fits into the account it goes to, every delivery to a
funded payment succeeds and leaves the row in the status that the phases so far call for. -/
theorem deliveries_succeed (hstart : Registered cfg start tx row) (h : Fed rt cfg tx start log p)
    {later earlier : List Delivery} {d : Delivery} (hlog : log = later ++ d :: earlier) :
    d.result = .ok .done ∧
      d.row.map Settlement.status = some (calledFor row.status (d :: earlier)) := by
  induction h generalizing later with
  | start => simp at hlog
  | other run hworldly hstep hother hseed hkeeps ih => exact ih hlog
  | @delivered log p p' st queue ambient row' pay house run hstage htx hfunded hunused hstep ih =>
    cases later with
    | cons first later => exact ih (List.cons.inj hlog).2
    | nil =>
      obtain ⟨rfl, rfl⟩ := List.cons.inj hlog
      subst htx
      obtain ⟨hok, hnext⟩ := (run.inStep hstart).delivered hstage hfunded hunused hstep
      obtain ⟨moved, hmoved, -, -, hstatus⟩ := hnext.linked
      refine ⟨hok, ?_⟩
      rw [hmoved, Option.map_some, hstatus]
      rfl

/-- A pass changes nothing in the tables. -/
theorem Fed.pass {acts : List Act} (h : Fed rt cfg tx start log p)
    (hrun : p.run rt cfg (acts.map .watch) = some p') : Fed rt cfg tx start log p' := by
  induction acts generalizing p with
  | nil =>
    cases hrun
    exact h
  | cons act acts ih =>
    obtain ⟨mid, hstep, hrest⟩ := Option.bind_eq_some_iff.mp hrun
    have hdb : mid.db = p.db := by
      cases Proc.stepped hstep
      rfl
    have hkeeps : Keeps tx p.db mid.db := by
      rw [hdb]
      exact ⟨rfl, fun _ _ _ ↦ ⟨rfl, rfl⟩⟩
    have hworldly : Worldly p (.watch act) := trivial
    exact ih (h.other hworldly hstep (fun _ _ h ↦ by cases h) (fun _ h ↦ by cases h) hkeeps) hrest

end Runs

/-! ### A block that comes back -/

/-- The sample transaction is settled in block 1, loses its receipt, and is back in block 1. -/
def backInBlock : List Move :=
  [.list, .seed] ++ samplePassOf 10 (sampleAnswers 1 9) ++ [.deliver (sampleAmbient 100) .applied] ++
    samplePassOf 11 noReceipt ++ [.deliver (sampleAmbient 200) .applied] ++
    samplePassOf 12 (sampleAnswers 1 9)

/-- The confirmation that is emitted last. -/
def confirmedAgain : Status := ⟨sampleTx, .confirmed, (1 : Hash).hex, 9, 4⟩

/-- The sample payment, and the clearing account. -/
def samplePayment : Payment := ⟨20, .completed, "USDC", 100, 1, 2, 12, none, 0⟩

def sampleHouse : Account := ⟨3, houseAccountName, "onchain_settlement", "USDC", "active"⟩

/-- What the sample tables say about the payment and its accounts. -/
def sampleView (db : Db) : List Account × Option Payment × ℤ × ℤ :=
  (db.accounts, db.payment 20, db.balance 2, db.balance 3)

/-- The merchant can pay, and a confirmation of an open row is funded. -/
theorem funded_sample {db : Db} {st : Status} {row : Settlement} {ambient : ℕ → Ambient}
    (hview : sampleView db = (sampleDb.accounts, some samplePayment, 200, 0))
    (hrow : db.settlement st.txHash = some row) (hpid : row.paymentID = 20)
    (hphase : st.phase = .confirmed)
    (hhealthy : Admitted queries Healthy db (body sampleRuntime (.onStatus st)) ambient []) :
    Funded sampleRuntime db st ambient row samplePayment sampleHouse := by
  obtain ⟨haccounts, hview⟩ := Prod.mk.inj hview
  obtain ⟨hpayment, hview⟩ := Prod.mk.inj hview
  obtain ⟨hmerchant, hhouse⟩ := Prod.mk.inj hview
  have hclearing : db.accountByNameAndAsset houseAccountName "USDC" = some sampleHouse := by
    rw [Db.accountByNameAndAsset, haccounts]
    decide +kernel
  refine ⟨⟨hrow, hpid.symm ▸ hpayment, hclearing⟩, by decide, by decide, fun _ _ ↦ ?_, ?_, hhealthy⟩
  · refine ⟨?_, ?_, ?_, ?_⟩
    · rw [haccounts]
      decide
    · rw [haccounts]
      decide
    · change (100 : Int64).toInt ≤ db.balance 2
      rw [hmerchant]
      decide
    · change db.balance 2 < 2 ^ 63 ∧ 0 ≤ db.balance 3
      rw [hmerchant, hhouse]
      decide
  · intro hreorged
    cases hphase.symm.trans hreorged

/-- The third status is a confirmation in the block of the first one.  The payment is funded and the
database healthy, and still the sink fails: the reference of the settlement was used up by the first
confirmation. -/
theorem back_in_block_is_duplicate :
    ∃ p row, sampleProc backInBlock = some p ∧ p.watcher.stage = .delivering [confirmedAgain] ∧
      Funded sampleRuntime p.db confirmedAgain (sampleAmbient 300) row samplePayment sampleHouse ∧
      row.status = .reorged ∧
      ∃ err, (atomically queries (body sampleRuntime (.onStatus confirmedAgain))
        (sampleAmbient 300) p.db).1 = .error err ∧ err.is .errDuplicateEntry = true := by
  have hstate : (sampleProc backInBlock).map (fun p ↦ (p.watcher.stage,
      (p.db.settlement sampleTx).map fun row ↦ (row.paymentID, row.status))) =
      some (.delivering [confirmedAgain], some (20, .reorged)) := by decide +kernel
  obtain ⟨p, hp, hfacts⟩ := Option.map_eq_some_iff.mp hstate
  obtain ⟨hstage, hrow⟩ := Prod.mk.inj hfacts
  have hview : (sampleProc backInBlock).map (fun p ↦ sampleView p.db) =
      some (sampleDb.accounts, some samplePayment, 200, 0) := by decide +kernel
  rw [hp, Option.map_some, Option.some.injEq] at hview
  obtain ⟨row, hrow, hfacts⟩ := Option.map_eq_some_iff.mp hrow
  obtain ⟨hpid, hstatus⟩ := Prod.mk.inj hfacts
  have hlast : (sampleProc backInBlock).map (fun p ↦ (decide (Admitted queries Healthy p.db
      (body sampleRuntime (.onStatus confirmedAgain)) (sampleAmbient 300) []),
      match (atomically queries (body sampleRuntime (.onStatus confirmedAgain))
        (sampleAmbient 300) p.db).1 with
      | .ok _ => false
      | .error err => err.is .errDuplicateEntry)) = some (true, true) := by decide +kernel
  rw [hp, Option.map_some, Option.some.injEq] at hlast
  obtain ⟨hhealthy, hresult⟩ := Prod.mk.inj hlast
  refine ⟨p, row, hp, hstage, ?_, hstatus, ?_⟩
  · exact funded_sample hview hrow hpid rfl (of_decide_eq_true hhealthy)
  · split at hresult
    · cases hresult
    · next err herr => exact ⟨err, herr, hresult⟩

/-- The first status of that run: a confirmation in block 1. -/
def confirmedFirst : Status := ⟨sampleTx, .confirmed, (1 : Hash).hex, 9, 2⟩

/-- A linked transaction right after its registration. -/
theorem registered_sample : ∃ start, sampleProc [.list, .seed] = some start ∧
    Registered sampleConfig start sampleTx watchedRow := by
  have hstate : (sampleProc [.list, .seed]).map (fun p ↦ (p.watcher.stage,
      p.watcher.tracked.lookup sampleTx, p.db.settlement sampleTx, p.db.journalEntries)) =
      some (.delivering [], some .fresh, some watchedRow,
        sampleDb.journalEntries) := by decide +kernel
  obtain ⟨start, hstart, hfacts⟩ := Option.map_eq_some_iff.mp hstate
  obtain ⟨hstage, hfacts⟩ := Prod.mk.inj hfacts
  obtain ⟨hentry, hfacts⟩ := Prod.mk.inj hfacts
  obtain ⟨hrow, hjournal⟩ := Prod.mk.inj hfacts
  have hreached : Reached sampleRuntime sampleConfig (fun _ _ ↦ True) watchedDb start :=
    Reached.run .start (fun _ _ _ ↦ trivial) (by simp) hstart
  refine ⟨start, hstart, hreached.sound nodup_watchedDb, hstage, hrow,
    .inl ⟨hentry, rfl⟩, fun blockHash hposted ↦ ?_, fun h ↦ by cases h⟩
  rw [Db.posted, hjournal] at hposted
  simp [sampleDb] at hposted

/-- The first delivery of the sample run. -/
theorem deliveries_succeed_sample :
    ∃ start p d, Registered sampleConfig start sampleTx
        watchedRow ∧
      Fed sampleRuntime sampleConfig sampleTx start [d] p ∧ d.status = confirmedFirst ∧
      d.result = .ok .done ∧ d.row.map Settlement.status = some .settled := by
  obtain ⟨start, hstart, hregistered⟩ := registered_sample
  have hstate : (sampleProc ([.list, .seed] ++ samplePassOf 10 (sampleAnswers 1 9))).map
      (fun p ↦ (p.watcher.stage, p.db.settlement sampleTx, decide (Admitted queries Healthy p.db
        (body sampleRuntime (.onStatus confirmedFirst)) (sampleAmbient 100) []))) =
      some (.delivering [confirmedFirst],
        some watchedRow, true) := by decide +kernel
  obtain ⟨p, hp, hfacts⟩ := Option.map_eq_some_iff.mp hstate
  obtain ⟨hstage, hfacts⟩ := Prod.mk.inj hfacts
  obtain ⟨hrow, hhealthy⟩ := Prod.mk.inj hfacts
  have htables : (sampleProc ([.list, .seed] ++ samplePassOf 10 (sampleAnswers 1 9))).map
      (fun p ↦ (p.db.posted "settlement.settle" (settleRef 20 confirmedFirst.blockHash),
        sampleView p.db)) =
      some (false, sampleDb.accounts, some samplePayment, 200, 0) := by decide +kernel
  rw [hp, Option.map_some, Option.some.injEq] at htables
  obtain ⟨hfresh, hview⟩ := Prod.mk.inj htables
  have hfunded : Funded sampleRuntime p.db confirmedFirst (sampleAmbient 100) watchedRow
      samplePayment sampleHouse :=
    funded_sample hview hrow rfl rfl (of_decide_eq_true hhealthy)
  have hhouse : p.db.balance 3 = 0 := congrArg (fun v ↦ v.2.2.2) hview
  have hunused : Unused p.db confirmedFirst watchedRow samplePayment sampleHouse := by
    refine ⟨fun _ _ ↦ hfresh, fun _ _ ↦ ?_, fun hreorged ↦ by cases hreorged⟩
    change p.db.balance 3 + (100 : Int64).toInt < 2 ^ 63
    rw [hhouse]
    decide
  have hdelivered : ((sampleProc ([.list, .seed] ++ samplePassOf 10 (sampleAnswers 1 9))).bind
      fun p ↦ p.step sampleRuntime sampleConfig (.deliver (sampleAmbient 100) (outcomeOf
        (atomically queries (body sampleRuntime (.onStatus confirmedFirst)) (sampleAmbient 100)
          p.db).1))).isSome = true := by decide +kernel
  rw [hp, Option.bind_some] at hdelivered
  obtain ⟨p', hstep⟩ := Option.isSome_iff_exists.mp hdelivered
  rw [sampleProc, Proc.run_append] at hp
  have hpass : start.run sampleRuntime sampleConfig (samplePassOf 10 (sampleAnswers 1 9)) = some p := by
    rw [sampleProc] at hstart
    rw [hstart, Option.bind_some] at hp
    exact hp
  have hfed : Fed sampleRuntime sampleConfig sampleTx start [_] p' :=
    (Fed.start.pass hpass).delivered hstage rfl hfunded hunused hstep
  obtain ⟨hresult, hstatus⟩ := deliveries_succeed hregistered hfed (List.nil_append _).symm
  exact ⟨start, p', _, hregistered, hfed, rfl, hresult, hstatus⟩

end PaymentRail.Chainwatcher
