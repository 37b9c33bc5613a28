import PaymentRail.Chain.Watcher

/-!
# What one visit of `poll` does

The entries of the tracked map have only a few shapes (`Tracked.Shape`): the phase, the last emitted
phase and the anchor are not independent.  In particular the memory against repeated emissions never
holds back a reorg, a confirmation or a finality.  For an entry of one of these shapes `Observed`
lists everything a visit can do, together with the answers of the node that lead there, and the
later modules argue from that list.
-/

namespace PaymentRail.Chain

/-- The entry after `reverse`: as fresh, except that the last status was a reorg. -/
def Tracked.reversed : Tracked := ⟨.pending, 0, 0, .reorged, 0⟩

/-- The phase of a transaction whose block is `depth` deep. -/
def phaseAt (cfg : Config) (depth : UInt64) : Phase :=
  if cfg.depth ≤ depth then .confirmed else .mined

/-- The entry of a transaction that was just seen in a block `depth` deep. -/
def Tracked.seen (cfg : Config) (blockHash : Hash) (blockNumber depth : UInt64) : Tracked :=
  ⟨phaseAt cfg depth, blockHash, blockNumber, phaseAt cfg depth, depth⟩

/-- The status that goes with `Tracked.seen`. -/
def Status.seen (cfg : Config) (tx : TxHash) (blockHash : Hash) (blockNumber depth : UInt64) :
    Status :=
  ⟨tx, phaseAt cfg depth, renderHash blockHash blockNumber, blockNumber, depth⟩

/-- The reorg of a transaction out of the block of its entry. -/
def Status.reorg (tx : TxHash) (t : Tracked) : Status :=
  ⟨tx, .reorged, renderHash t.blockHash t.blockNumber, t.blockNumber, 0⟩

/-- The finality of a transaction in the block of its entry. -/
def Status.final (tx : TxHash) (t : Tracked) (depth : UInt64) : Status :=
  ⟨tx, .finalized, renderHash t.blockHash t.blockNumber, t.blockNumber, depth⟩

/-- The depth `poll` gives a receipt of a pending transaction: one at least, even if the head lags. -/
def receiptDepth (head mined : UInt64) : UInt64 :=
  if confirmations head mined = 0 then 1 else confirmations head mined

/-- The entry after `Run` rolled back a confirmation it could not deliver. -/
def Tracked.rolledBack (t : Tracked) : Tracked :=
  { t with phase := .mined, lastEmittedPhase := .pending, lastEmittedDepth := 0 }

/-- The shapes of the entries in the tracked map. -/
inductive Tracked.Shape : Tracked → Prop
  | fresh : Shape .fresh
  | reversed : Shape .reversed
  | mined (blockHash blockNumber depth) : Shape ⟨.mined, blockHash, blockNumber, .mined, depth⟩
  | retry (blockHash blockNumber) : Shape ⟨.mined, blockHash, blockNumber, .pending, 0⟩
  | confirmed (blockHash blockNumber depth) :
    Shape ⟨.confirmed, blockHash, blockNumber, .confirmed, depth⟩

/-- An entry that is anchored in a block. -/
def Tracked.Anchored (t : Tracked) : Prop := t.phase = .mined ∨ t.phase = .confirmed

instance (t : Tracked) : Decidable t.Anchored := inferInstanceAs (Decidable (_ ∨ _))

variable {cfg : Config} {head : UInt64} {tx : TxHash} {answers : Answers} {t : Tracked}

theorem phaseAt_cases (cfg : Config) (depth : UInt64) :
    (cfg.depth ≤ depth ∧ phaseAt cfg depth = .confirmed) ∨
      (depth < cfg.depth ∧ phaseAt cfg depth = .mined) := by
  unfold phaseAt
  by_cases h : cfg.depth ≤ depth
  · exact .inl ⟨h, if_pos h⟩
  · exact .inr ⟨UInt64.not_le.mp h, if_neg h⟩

namespace Tracked.Shape

theorem seen (cfg : Config) (blockHash : Hash) (blockNumber depth : UInt64) :
    Shape (.seen cfg blockHash blockNumber depth) := by
  unfold Tracked.seen
  obtain ⟨-, h⟩ | ⟨-, h⟩ := phaseAt_cases cfg depth <;> rw [h]
  · exact .confirmed ..
  · exact .mined ..

theorem resumed (cfg : Config) (blockHash : Hash) (blockNumber : UInt64) :
    Shape (.resumed cfg blockHash blockNumber) := .confirmed ..

theorem rolledBack (t : Tracked) : Shape t.rolledBack := .retry ..

/-- A reorg of an anchored entry is never taken for a repetition. -/
theorem lastEmitted_ne_reorged (h : t.Shape) (hanchored : t.Anchored) :
    t.lastEmittedPhase ≠ .reorged := by
  cases h <;> simp [Tracked.Anchored, Tracked.fresh, Tracked.reversed] at hanchored ⊢

theorem lastEmitted_of_pending (h : t.Shape) (hphase : t.phase = .pending) :
    t.lastEmittedPhase ≠ .mined ∧ t.lastEmittedPhase ≠ .confirmed := by
  cases h <;> simp [Tracked.fresh, Tracked.reversed] at hphase ⊢

theorem lastEmitted_of_mined (h : t.Shape) (hphase : t.phase = .mined) :
    t.lastEmittedPhase ≠ .confirmed := by
  cases h <;> simp [Tracked.fresh, Tracked.reversed] at hphase ⊢

theorem lastEmitted_of_confirmed (h : t.Shape) (hphase : t.phase = .confirmed) :
    t.lastEmittedPhase = .confirmed := by
  cases h <;> simp [Tracked.fresh, Tracked.reversed] at hphase ⊢

/-- An entry is pending, mined or confirmed: the other two phases are never stored. -/
theorem pending_or_anchored (h : t.Shape) : t.phase = .pending ∨ t.Anchored := by
  cases h <;> simp [Tracked.Anchored, Tracked.fresh, Tracked.reversed]

end Tracked.Shape

/-! ### The branches of a visit -/

theorem emit_of_ne {phase : Phase} {bHash : Hash} {bNum depth : UInt64}
    (h : t.lastEmittedPhase ≠ phase) :
    emit t tx phase bHash bNum depth =
      ({ t with lastEmittedPhase := phase, lastEmittedDepth := depth },
        [⟨tx, phase, renderHash bHash bNum, bNum, depth⟩]) := by
  unfold emit
  rw [if_neg fun hrepeat ↦ h hrepeat.1.symm]

/-- A receipt of a pending transaction is always surfaced. -/
theorem observe_receipt (h : t.Shape) (hphase : t.phase = .pending) {receipt : Receipt}
    (hreceipt : answers.receipt = .found receipt) :
    observe cfg head tx answers t =
      (some (.seen cfg receipt.blockHash receipt.blockNumber (receiptDepth head receipt.blockNumber)),
        [.seen cfg tx receipt.blockHash receipt.blockNumber
          (receiptDepth head receipt.blockNumber)]) := by
  obtain ⟨hmined, hconfirmed⟩ := h.lastEmitted_of_pending hphase
  have hdepth : (if confirmations head receipt.blockNumber = 0 then 1
      else confirmations head receipt.blockNumber) = receiptDepth head receipt.blockNumber := rfl
  simp only [observe, hphase, observePending, hreceipt, hdepth]
  unfold Tracked.seen Status.seen
  obtain ⟨hdeep, hat⟩ | ⟨hshallow, hat⟩ :=
    phaseAt_cases cfg (receiptDepth head receipt.blockNumber)
  · simp only [if_pos hdeep, hat]
    rw [emit_of_ne (by exact hconfirmed)]
  · simp only [if_neg (UInt64.not_le.mpr hshallow), hat]
    rw [emit_of_ne (by exact hmined)]

/-- An orphaned anchor is always surfaced as a reorg. -/
theorem observe_orphaned (h : t.Shape) (hanchored : t.Anchored)
    (horphaned : checkAnchor answers t = .orphaned) :
    observe cfg head tx answers t = (some .reversed, [.reorg tx t]) := by
  have hreverse : reverse t tx = (.reversed, [.reorg tx t]) := by
    rw [reverse, emit_of_ne (h.lastEmitted_ne_reorged hanchored)]
    rfl
  obtain hphase | hphase := hanchored
  · simp only [observe, hphase, observeMined, horphaned, hreverse]
  · simp only [observe, hphase, observeConfirmed, horphaned, hreverse]

/-- A mined entry in a canonical block is seen again, unless that is no news. -/
theorem observe_mined (h : t.Shape) (hphase : t.phase = .mined)
    (hcanonical : checkAnchor answers t = .canonical) (hhead : t.blockNumber ≤ head) :
    observe cfg head tx answers t =
      if head - t.blockNumber + 1 < cfg.depth ∧ .mined = t.lastEmittedPhase ∧
          head - t.blockNumber + 1 ≤ t.lastEmittedDepth then (some t, [])
      else (some (.seen cfg t.blockHash t.blockNumber (head - t.blockNumber + 1)),
        [.seen cfg tx t.blockHash t.blockNumber (head - t.blockNumber + 1)]) := by
  have hlag : ¬head < t.blockNumber := UInt64.not_lt.mpr hhead
  simp only [observe, hphase, observeMined, hcanonical, if_neg hlag]
  unfold Tracked.seen Status.seen
  obtain ⟨hdeep, hat⟩ | ⟨hshallow, hat⟩ := phaseAt_cases cfg (head - t.blockNumber + 1)
  · simp only [if_pos hdeep, hat, UInt64.not_lt.mpr hdeep, false_and, if_false]
    rw [emit_of_ne (by exact h.lastEmitted_of_mined hphase)]
  · simp only [if_neg (UInt64.not_le.mpr hshallow), hat, hshallow, true_and]
    unfold emit
    split
    · rfl
    · simp only [hphase]

/-- A confirmed entry in a canonical block leaves the map once it is final. -/
theorem observe_confirmed (h : t.Shape) (hphase : t.phase = .confirmed)
    (hcanonical : checkAnchor answers t = .canonical) :
    observe cfg head tx answers t =
      if t.blockNumber ≤ head ∧ cfg.finalityDepth ≤ head - t.blockNumber + 1 then
        (none, [.final tx t (head - t.blockNumber + 1)])
      else (some t, []) := by
  have hlast : t.lastEmittedPhase ≠ .finalized := by
    rw [h.lastEmitted_of_confirmed hphase]
    decide
  simp only [observe, hphase, observeConfirmed, hcanonical]
  rw [emit_of_ne hlast]
  rfl

/-- Everything a visit can do to an entry, with the answers that lead there. -/
inductive Observed (cfg : Config) (head : UInt64) (tx : TxHash) (answers : Answers) (t : Tracked) :
    Option Tracked → List Status → Prop
  | silent : Observed cfg head tx answers t (some t) []
  | sighted (receipt : Receipt) (hphase : t.phase = .pending)
      (hreceipt : answers.receipt = .found receipt) :
    Observed cfg head tx answers t
      (some (.seen cfg receipt.blockHash receipt.blockNumber (receiptDepth head receipt.blockNumber)))
      [.seen cfg tx receipt.blockHash receipt.blockNumber (receiptDepth head receipt.blockNumber)]
  | deepened (hphase : t.phase = .mined) (hcanonical : checkAnchor answers t = .canonical)
      (hhead : t.blockNumber ≤ head)
      (hnews : head - t.blockNumber + 1 < cfg.depth → t.lastEmittedPhase = .mined →
        t.lastEmittedDepth < head - t.blockNumber + 1) :
    Observed cfg head tx answers t
      (some (.seen cfg t.blockHash t.blockNumber (head - t.blockNumber + 1)))
      [.seen cfg tx t.blockHash t.blockNumber (head - t.blockNumber + 1)]
  | orphaned (hanchored : t.Anchored) (horphaned : checkAnchor answers t = .orphaned) :
    Observed cfg head tx answers t (some .reversed) [.reorg tx t]
  | finalized (hphase : t.phase = .confirmed) (hcanonical : checkAnchor answers t = .canonical)
      (hhead : t.blockNumber ≤ head) (hdepth : cfg.finalityDepth ≤ head - t.blockNumber + 1) :
    Observed cfg head tx answers t none [.final tx t (head - t.blockNumber + 1)]

/-- An answer that is no value and no `NotFound` leaves an entry as it is. -/
theorem observe_unknown (hanchored : t.Anchored) (hunknown : checkAnchor answers t = .unknown) :
    observe cfg head tx answers t = (some t, []) := by
  obtain hphase | hphase := hanchored
  · simp only [observe, hphase, observeMined, hunknown]
  · simp only [observe, hphase, observeConfirmed, hunknown]

/-- Without a receipt a pending entry stays as it is. -/
theorem observe_no_receipt (hphase : t.phase = .pending)
    (hreceipt : ∀ receipt, answers.receipt ≠ .found receipt) :
    observe cfg head tx answers t = (some t, []) := by
  simp only [observe, hphase, observePending]

theorem observed (cfg : Config) (head : UInt64) (tx : TxHash) (answers : Answers) (h : t.Shape) :
    Observed cfg head tx answers t (observe cfg head tx answers t).1
      (observe cfg head tx answers t).2 := by
  obtain hpending | hanchored := h.pending_or_anchored
  · by_cases hreceipt : ∃ receipt, answers.receipt = .found receipt
    · obtain ⟨receipt, hreceipt⟩ := hreceipt
      rw [observe_receipt h hpending hreceipt]
      exact .sighted receipt hpending hreceipt
    · rw [observe_no_receipt hpending fun receipt hr ↦ hreceipt ⟨receipt, hr⟩]
      exact .silent
  · cases hanchor : checkAnchor answers t with
    | unknown =>
      rw [observe_unknown hanchored hanchor]
      exact .silent
    | orphaned =>
      rw [observe_orphaned h hanchored hanchor]
      exact .orphaned hanchored hanchor
    | canonical =>
      obtain hphase | hphase := hanchored
      · by_cases hhead : t.blockNumber ≤ head
        · rw [observe_mined h hphase hanchor hhead]
          split
          · exact .silent
          · next hnews =>
            refine .deepened hphase hanchor hhead fun hshallow hlast ↦ ?_
            exact UInt64.not_le.mp fun hle ↦ hnews ⟨hshallow, hlast.symm, hle⟩
        · have hlag : head < t.blockNumber := UInt64.not_le.mp hhead
          simp only [observe, hphase, observeMined, hanchor, if_pos hlag]
          exact .silent
      · rw [observe_confirmed h hphase hanchor]
        split
        · next hfinal => exact .finalized hphase hanchor hfinal.1 hfinal.2
        · exact .silent

namespace Observed

variable {entry : Option Tracked} {out : List Status}

/-- A visit leaves an entry of one of the shapes. -/
theorem shape (ho : Observed cfg head tx answers t entry out) (h : t.Shape) :
    ∀ t' ∈ entry, t'.Shape := by
  intro t' ht'
  cases ho with
  | silent =>
    cases ht'
    exact h
  | sighted receipt =>
    cases ht'
    exact .seen ..
  | deepened =>
    cases ht'
    exact .seen ..
  | orphaned =>
    cases ht'
    exact .reversed
  | finalized => cases ht'

/-- A visit emits one status at most, and about its own transaction. -/
theorem of_mem (ho : Observed cfg head tx answers t entry out) {s : Status} (hs : s ∈ out) :
    s.txHash = tx ∧ out = [s] := by
  cases ho <;> simp_all [Status.seen, Status.reorg, Status.final]

end Observed

end PaymentRail.Chain
