import PaymentRail.Rail.LockSequences

/-!
# No deadlock among the transactions

The transactions of the rail, of the approval queue and of the velocity limits respect one order of
locks, so no set of them ever waits in a circle (`no_deadlock`).  The advisory keys of the velocity
limits and of the audit chain may collide; a transaction takes one of them at most.
-/

namespace PaymentRail.Rail

open Transaction Ledger Chain Sink Payments

section Operators

variable {held : List Request}

/-- The audit row at the end of a transaction of the approval store. -/
theorem climb_appendAudit {α : Type} {entry : Ctl.AuditEntry} {context : Ctl.Err → Ctl.Err} {value : α}
    (h : Below 7 held) :
    climb approvalGrants lockOrder
      (Tx.stmt (Ctl.Stmt.appendAudit entry) >>= fun reply ↦ Tx.orFail reply context >>= fun _ ↦
        pure value : Tx Ctl.Reply Ctl.Err α) (OnOk fun _ _ ↦ True) held := by
  rw [climb_stmt_bind]
  intro seen current _
  have hchain : Below 8 (held ++ [exclusive (.advisory Audit.chainAdvisoryKey)]) := h.concat rfl
  have hseq : Below 9 (held ++ [exclusive (.advisory Audit.chainAdvisoryKey)] ++
      [exclusive (.auditSeq seen.seq)]) := hchain.concat rfl
  refine ⟨⟨admissible_of_below h rfl, admissible_of_below hchain rfl, climbs_single hseq rfl⟩, ?_⟩
  rw [climb_tx_bind, climb_tx_orFail]
  exact fun _ _ ↦ trivial

theorem climb_propose (proposer : String) (intent : Policy.Intent) :
    climb approvalGrants lockOrder (Ctl.propose proposer intent) (OnOk fun _ _ ↦ True) [] := by
  unfold Ctl.propose
  split
  · trivial
  rw [climb_tx_bind, climb_ofExcept]
  intro paymentID _
  rw [climb_stmt_bind]
  intro seen current _
  refine ⟨climbs_single (below_nil 5) rfl, ?_⟩
  rw [climb_tx_bind, climb_tx_orFail]
  intro id _
  exact climb_appendAudit (((below_nil 5).concat rfl).mono (by decide))

/-- An approval that was read for update is locked. -/
theorem mem_approvalRequests {id : UUID} {world : ApprovalWorld} {row : Ctl.PaymentApproval}
    (h : approvalGrants.reply (.getApprovalForUpdate id) world = .ok row) :
    (⟨.approval id, .update⟩ : Request) ∈ approvalGrants.requests (.getApprovalForUpdate id) world := by
  simp only [approvalGrants, Ctl.store, Ctl.Stmt.eval, Ctl.Ambient.unlessFault] at h
  split at h
  · cases h
  · split at h
    · cases h
    · next found hfound => simp [approvalGrants, approvalRequests, hfound]

theorem climb_claim (approvalID approver : String)
    (decide : Policy.PendingApproval → Except Ctl.Err Unit) :
    climb approvalGrants lockOrder (Ctl.claim approvalID approver decide) (OnOk fun _ _ ↦ True)
      [] := by
  rw [Ctl.claim, climb_tx_bind, climb_ofExcept]
  intro id _
  rw [climb_stmt_bind]
  intro seen current hsubset
  have hbelow : Below 6 ([] ++ approvalGrants.requests (.getApprovalForUpdate id) seen) := by
    intro r hr
    simp only [approvalGrants, approvalRequests, List.nil_append] at hr
    split at hr
    · rw [List.mem_singleton.mp hr]
      exact level_lt_level.mpr (by decide)
    · cases hr
  refine ⟨?_, ?_⟩
  · simp only [approvalGrants, approvalRequests]
    split
    · exact climbs_single (below_nil 5) rfl
    · trivial
  rw [climb_tx_bind, climb_tx_orFail]
  intro row hrow
  have hlocked := hsubset (mem_approvalRequests hrow)
  split
  · trivial
  rw [climb_tx_bind, climb_ofExcept]
  intro _ _
  rw [climb_stmt_bind]
  intro seen' current' _
  have hown : ∀ r ∈ approvalGrants.requests (.markApprovalApproved id (some approver)) seen',
      r.resource = .approval id := by
    intro r hr
    simp only [approvalGrants, approvalRequests, updateApproval] at hr
    split at hr
    · rw [List.mem_singleton.mp hr]
    · cases hr
  refine ⟨climbs_of_held fun r hr ↦ ?_, ?_⟩
  · rw [hown r hr]
    exact hlocked
  rw [climb_tx_bind, climb_tx_orFail]
  intro rows _
  split
  · trivial
  refine climb_appendAudit ((hbelow.append fun r hr ↦ ?_).mono (by decide))
  rw [hown r hr]
  exact level_lt_level.mpr (by decide)

/-- A transaction that updates one approval and does nothing else. -/
theorem climb_updateApproval {α : Type} {stmt : Ctl.Stmt} {rest : Ctl.Reply stmt → Tx Ctl.Reply Ctl.Err α}
    {id : UUID} {guard : Ctl.PaymentApproval → Bool}
    (hstmt : ∀ world, approvalRequests stmt world = updateApproval world id guard)
    (hrest : ∀ reply held, climb approvalGrants lockOrder (rest reply) (OnOk fun _ _ ↦ True) held) :
    climb approvalGrants lockOrder (Tx.stmt stmt >>= rest : Tx Ctl.Reply Ctl.Err α)
      (OnOk fun _ _ ↦ True) [] := by
  rw [climb_stmt_bind]
  intro seen current _
  refine ⟨?_, hrest _ _⟩
  change Climbs lockOrder [] (approvalRequests stmt seen)
  rw [hstmt, updateApproval]
  split
  · exact climbs_single (below_nil 5) rfl
  · trivial

theorem climb_ctl_body (call : Ctl.Call) :
    climb approvalGrants lockOrder (Ctl.body call) (OnOk fun _ _ ↦ True) [] := by
  cases call with
  | propose proposer intent => exact climb_propose proposer intent
  | claim approvalID approver decide => exact climb_claim approvalID approver decide
  | markBroadcast approvalID txHash =>
    rw [Ctl.body, Ctl.markBroadcast, climb_tx_bind, climb_ofExcept]
    intro id _
    refine climb_updateApproval (fun _ ↦ rfl) fun reply held ↦ ?_
    rw [climb_tx_bind, climb_tx_orFail]
    intro rows _
    split <;> trivial
  | reopen approvalID =>
    rw [Ctl.body, Ctl.reopen, climb_tx_bind, climb_ofExcept]
    intro id _
    refine climb_updateApproval (fun _ ↦ rfl) fun reply held ↦ ?_
    rw [climb_tx_bind, climb_tx_orFail]
    intro rows _
    split <;> trivial

theorem climb_charge (caps : Policy.VelocityCaps) (call : Policy.Velocity.Call) :
    climb velocityGrants lockOrder (Policy.Velocity.charge caps call) (OnOk fun _ _ ↦ True) [] := by
  unfold Policy.Velocity.charge
  split
  · split
    · trivial
    · split
      · trivial
      · refine climb_read (fun _ ↦ rfl) fun now ↦ ?_
        unfold Policy.Velocity.storeCharge
        split
        · trivial
        rw [climb_stmt_bind]
        intro seen current _
        refine ⟨climbs_single (below_nil 7) rfl, ?_⟩
        rw [climb_tx_bind, climb_tx_orFail]
        intro _ _
        refine climb_read (fun _ ↦ rfl) fun sums ↦ ?_
        rw [climb_tx_bind, climb_tx_orFail]
        intro row _
        rw [climb_tx_bind, climb_ofExcept]
        intro _ _
        rw [climb_stmt_bind]
        intro seen' current' _
        have hadvisory : Below 10 ([] ++ velocityGrants.requests
            (.acquireVelocityLock (Policy.Velocity.advisoryKey call.keyID)) seen) :=
          Below.mono ((below_nil 7).concat rfl) (by decide)
        refine ⟨climbs_single hadvisory rfl, ?_⟩
        rw [climb_tx_orFail]
        exact fun _ _ ↦ trivial
  · trivial

end Operators

/-- The transactions: the calls of the rail, the commands on the approval queue, and the charges of the
velocity limits. -/
inductive Starts (rt : Audit.Runtime) : LockTree Request → Prop
  | rail (call : Call) : Starts rt ((body rt call).locks railGrants)
  | approval (call : Ctl.Call) : Starts rt (Program.locks approvalGrants (Ctl.body call))
  | charge (caps : Policy.VelocityCaps) (call : Policy.Velocity.Call) :
      Starts rt (Program.locks velocityGrants (Policy.Velocity.charge caps call))

theorem ordered_of_starts {rt : Audit.Runtime} {tree : LockTree Request} (h : Starts rt tree) :
    tree.Ordered lockOrder [] := by
  cases h with
  | rail call => exact ordered_of_climb (climb_body rt call)
  | approval call => exact ordered_of_climb (climb_ctl_body call)
  | charge caps call => exact ordered_of_climb (climb_charge caps call)

/-- Whatever transactions run, and however their requests interleave, they never wait for each other in
a circle. -/
theorem no_deadlock {rt : Audit.Runtime} {s : LockState Request}
    (h : Reachable lockOrder (Starts rt) s) (tid : ℕ) :
    ¬Relation.TransGen (Waits lockOrder s) tid tid :=
  h.no_cycle (fun _ ↦ ordered_of_starts) tid

/-! ### Two deliveries for one row -/

/-- A transaction that has started and asks for its first lock. -/
theorem reachable_asking {rt : Audit.Runtime} {s : LockState Request} {tid : ℕ} {ι : Type}
    {next : ι → LockTree Request} {i : ι} {request : Request} {rest : LockTree Request}
    (h : Reachable lockOrder (Starts rt) s) (hfree : s tid = none)
    (hstarts : Starts rt (.choose ι next)) (hnext : next i = .lock request rest) :
    Reachable lockOrder (Starts rt) (Function.update s tid (some ⟨.lock request rest, []⟩)) := by
  have hstarted := h.tail (.start tid _ hfree hstarts)
  have hchosen := hstarted.tail (.choose tid ι next [] i (Function.update_self ..))
  rw [Function.update_idem, hnext] at hchosen
  exact hchosen

/-- A settled row. -/
def settledDb : Db :=
  { accounts := [], journalEntries := [], entryLines := [], payments := []
    settlements := [⟨30, 20, "0xaa", .settled, none, 0, none, none⟩]
    outbox := [], auditLog := [] }

/-- Of two deliveries that finalize the same row, the second waits for the first. -/
theorem no_deadlock_waiting :
    ∃ s, Reachable lockOrder (Starts ⟨id, fun _ ↦ []⟩) s ∧ Waits lockOrder s 1 0 ∧
      ∀ tid, ¬Relation.TransGen (Waits lockOrder s) tid tid := by
  obtain ⟨ι, next, i, rest, hstarts, hnext⟩ : ∃ (ι : Type) (next : ι → LockTree Request) (i : ι)
      (rest : LockTree Request), Starts ⟨id, fun _ ↦ []⟩ (.choose ι next) ∧
        next i = .lock (noKeyUpdate (.settlement "0xaa")) rest :=
    ⟨_, _, ⟨((⟨0, 0⟩, settledDb), (⟨0, 0⟩, settledDb)), fun _ h ↦ h⟩, _,
      .rail (.onStatus ⟨"0xaa", .finalized, "0xb1", 7, 64⟩), rfl⟩
  -- the first asks for the row and gets it, the second asks for it too
  have hasking : Reachable lockOrder (Starts ⟨id, fun _ ↦ []⟩)
      (Function.update (fun _ ↦ none) 0 (some ⟨.lock (noKeyUpdate (.settlement "0xaa")) rest, []⟩)) :=
    reachable_asking .refl rfl hstarts hnext
  have hholding := hasking.tail (.acquire 0 _ rest [] (Function.update_self ..)
    fun other party hother hparty ↦ by simp [Function.update_of_ne hother] at hparty)
  rw [Function.update_idem] at hholding
  have hboth := reachable_asking hholding (Function.update_of_ne (by decide : 1 ≠ 0) ..) hstarts hnext
  refine ⟨_, hboth, ⟨by decide, _, _, _, ⟨rest, [noKeyUpdate (.settlement "0xaa")]⟩, _,
    Function.update_self .., ?_, List.mem_singleton_self _, rfl, rfl⟩, no_deadlock hboth⟩
  rw [Function.update_of_ne (by decide : 0 ≠ 1), Function.update_self]
  rfl

end PaymentRail.Rail
