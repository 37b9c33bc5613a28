import PaymentRail.Evm.Adapter
import Mathlib.Data.List.Pairwise

/-!
# The nonces of a sender

`nonceAllocator.withNonce` over a whole history of calls on one allocator.  A call fixes what the node
and the other peers answer while it runs, and `fn` may do anything with the nonce it gets, so a history
ranges over every behaviour of both.  The allocator holds its lock over the whole call: calls are one
after the other.

What the allocator remembers of a history is, for each sender, the successor of the last nonce that was
used.  The laws of the nonces follow from that.
-/

namespace PaymentRail.Evm

open Transaction

/-- The allocator of `newNonceAllocator`: no sender has sent anything. -/
def Nonces.initial : Nonces := fun _ ↦ 0

/-- The nonce for a sender whose next transaction, as the node sees it, has the nonce `pending`. -/
def Nonces.allocate (next : Nonces) («from» : Address) (pending : UInt64) : UInt64 :=
  if pending < next «from» then next «from» else pending

theorem Nonces.toNat_allocate (next : Nonces) («from» : Address) (pending : UInt64) :
    (next.allocate «from» pending).toNat = max pending.toNat (next «from»).toNat := by
  unfold Nonces.allocate
  split
  · next hlt => exact (max_eq_right (UInt64.lt_iff_toNat_lt.mp hlt).le).symm
  · next hle => exact (max_eq_left (UInt64.le_iff_toNat_le.mp (UInt64.not_lt.mp hle))).symm

theorem toNat_succ {nonce : UInt64} (h : nonce.toNat + 1 < 2 ^ 64) :
    (nonce + 1).toNat = nonce.toNat + 1 := by
  rw [UInt64.toNat_add]
  exact Nat.mod_eq_of_lt h

/-- A call of `withNonce`, with the answers that it gets. -/
structure Call (α : Type) where
  «from» : Address
  fn : UInt64 → Tx RpcReply Err α
  answer : (rpc : Rpc) → RpcReply rpc

namespace Call

variable {α : Type} (next : Nonces) (call : Call α)

/-- The answer of the node to `PendingNonceAt`. -/
def pending : Except String UInt64 := call.answer (.pendingNonceAt call.from)

def run : Except Err α × Nonces := (withNonce next call.from call.fn).answered call.answer

/-- The nonce that `fn` gets: what `withNonce` gives to a body that returns its argument. -/
def nonce : Option UInt64 :=
  ((withNonce next call.from fun nonce ↦ (pure nonce : Tx RpcReply Err UInt64)).answered
    call.answer).1.toOption

def succeeded : Bool := (call.run next).1.isOk

/-- The nonce is the larger one of what the node and the allocator know. -/
theorem nonce_eq : call.nonce next = call.pending.toOption.map (next.allocate call.from) := by
  unfold Call.nonce withNonce Call.pending
  rw [Program.answered]
  cases call.answer (.pendingNonceAt call.from) with
  | error text => rfl
  | ok pending => rfl

/-- `fn` runs with that nonce, and its success moves the sender past it. -/
theorem run_eq : call.run next =
    match call.nonce next with
    | none => (.error (errNonceUnavailable.wrap "evm: query pending nonce"), next)
    | some nonce =>
      let result := Program.answered call.answer (call.fn nonce)
      (result, if result.isOk then Function.update next call.from (nonce + 1) else next) := by
  rw [nonce_eq]
  unfold Call.run withNonce Call.pending
  rw [Program.answered]
  cases call.answer (.pendingNonceAt call.from) with
  | error text => rfl
  | ok pending =>
    refine (Program.answered_bind (call.fn (next.allocate call.from pending)) _).trans ?_
    simp only [Except.toOption, Option.map_some]
    cases Program.answered call.answer (call.fn (next.allocate call.from pending)) <;> rfl

/-- The nonce that the call has used up. -/
def used : Option UInt64 := if call.succeeded next then call.nonce next else none

/-- A call moves the sender past the nonce that it used, and does nothing else. -/
theorem run_next : (call.run next).2 =
    (call.used next).elim next fun nonce ↦ Function.update next call.from (nonce + 1) := by
  unfold Call.used Call.succeeded
  rw [run_eq]
  cases call.nonce next with
  | none => rfl
  | some nonce =>
    cases hok : (Program.answered call.answer (call.fn nonce)).isOk <;> simp [hok]

/-- A call that succeeds has used a nonce. -/
theorem used_isSome : (call.used next).isSome = call.succeeded next := by
  unfold Call.used Call.succeeded
  rw [run_eq]
  cases call.nonce next with
  | none => rfl
  | some nonce => cases (Program.answered call.answer (call.fn nonce)).isOk <;> rfl

theorem run_next_of_failed (hfailed : call.succeeded next = false) : (call.run next).2 = next := by
  have hnone : call.used next = none := by
    rw [← Option.not_isSome_iff_eq_none, used_isSome, hfailed]
    exact Bool.false_ne_true
  rw [run_next, hnone]
  rfl

theorem le_of_used {next : Nonces} {used : UInt64} (h : call.used next = some used) :
    next call.from ≤ used := by
  unfold Call.used at h
  split at h
  · rw [nonce_eq, Option.map_eq_some_iff] at h
    obtain ⟨pending, _, rfl⟩ := h
    rw [UInt64.le_iff_toNat_le, Nonces.toNat_allocate]
    exact le_max_right ..
  · cases h

/-- Only what the allocator knows of its own sender matters to a call. -/
theorem nonce_congr {next next' : Nonces} (h : next call.from = next' call.from) :
    call.nonce next = call.nonce next' := by
  have hallocate : next.allocate call.from = next'.allocate call.from := by
    funext pending
    rw [Nonces.allocate, Nonces.allocate, h]
  rw [nonce_eq, nonce_eq, hallocate]

theorem used_congr {next next' : Nonces} (h : next call.from = next' call.from) :
    call.used next = call.used next' := by
  unfold Call.used Call.succeeded
  rw [run_eq, run_eq, nonce_congr call h]
  cases call.nonce next' <;> rfl

end Call

/-! ### Histories -/

section History

variable {α : Type}

/-- What the allocator knows after some calls. -/
def afterCalls (next : Nonces) : List (Call α) → Nonces
  | [] => next
  | call :: rest => afterCalls (call.run next).2 rest

/-- The nonces that the calls for one sender have used, in their order. -/
def usedBy (sender : Address) (next : Nonces) : List (Call α) → List UInt64
  | [] => []
  | call :: rest =>
    (if call.from = sender then (call.used next).toList else []) ++
      usedBy sender (call.run next).2 rest

theorem afterCalls_append (next : Nonces) (calls calls' : List (Call α)) :
    afterCalls next (calls ++ calls') = afterCalls (afterCalls next calls) calls' := by
  induction calls generalizing next with
  | nil => rfl
  | cons call rest ih => exact ih _

theorem usedBy_append (sender : Address) (next : Nonces) (calls calls' : List (Call α)) :
    usedBy sender next (calls ++ calls') =
      usedBy sender next calls ++ usedBy sender (afterCalls next calls) calls' := by
  induction calls generalizing next with
  | nil => rfl
  | cons call rest ih =>
    rw [List.cons_append, usedBy, usedBy, ih, List.append_assoc]
    rfl

/-- One call moves only its own sender. -/
theorem run_next_apply (next : Nonces) (call : Call α) (sender : Address) :
    (call.run next).2 sender =
      (if call.from = sender then call.used next else none).elim (next sender) (· + 1) := by
  rw [Call.run_next]
  by_cases hsender : call.from = sender
  · subst hsender
    rw [if_pos rfl]
    cases call.used next with
    | none => rfl
    | some nonce => exact Function.update_self ..
  · rw [if_neg hsender]
    cases call.used next with
    | none => rfl
    | some nonce => exact Function.update_of_ne (Ne.symm hsender) ..

/-- The allocator knows the successor of the last nonce that a sender has used. -/
theorem afterCalls_apply (next : Nonces) (calls : List (Call α)) (sender : Address) :
    afterCalls next calls sender =
      (usedBy sender next calls).getLast?.elim (next sender) (· + 1) := by
  induction calls using List.reverseRecOn with
  | nil => rfl
  | append_singleton rest call ih =>
    rw [afterCalls_append, usedBy_append]
    simp only [afterCalls, usedBy, List.append_nil]
    rw [run_next_apply, ih]
    by_cases hsender : call.from = sender
    · rw [if_pos hsender, if_pos hsender]
      cases call.used (afterCalls next rest) with
      | none => simp
      | some nonce => simp
    · rw [if_neg hsender, if_neg hsender, List.append_nil]
      rfl

/-- The calls for a sender see nothing of the others. -/
theorem usedBy_filter (sender : Address) {next next' : Nonces} (h : next sender = next' sender)
    (calls : List (Call α)) :
    usedBy sender next calls = usedBy sender next' (calls.filter fun call ↦ call.from = sender) := by
  induction calls generalizing next next' with
  | nil => rfl
  | cons call rest ih =>
    by_cases hsender : call.from = sender
    · have hused : call.used next = call.used next' := call.used_congr (by rw [hsender, h])
      have hnext : (call.run next).2 sender = (call.run next').2 sender := by
        rw [run_next_apply, run_next_apply, hused, h]
      rw [List.filter_cons_of_pos (by simpa using hsender), usedBy, usedBy, hused, ih hnext]
    · have hnext : (call.run next).2 sender = next' sender := by
        rw [run_next_apply, if_neg hsender, ← h]
        rfl
      rw [List.filter_cons_of_neg (by simpa using hsender), usedBy, if_neg hsender, List.nil_append,
        ih hnext]

/-- As long as the successor of a used nonce is a nonce, they increase. -/
theorem usedBy_increasing {sender : Address} {calls : List (Call α)}
    (hbound : ∀ nonce ∈ usedBy sender .initial calls, nonce.toNat + 1 < 2 ^ 64) :
    (usedBy sender .initial calls).Pairwise (· < ·) ∧
      ∀ nonce ∈ usedBy sender .initial calls, nonce < afterCalls .initial calls sender := by
  -- on the calls from the last one back: a new nonce is not below what the allocator knows
  induction calls using List.reverseRecOn with
  | nil => exact ⟨.nil, fun nonce hnonce ↦ nomatch hnonce⟩
  | append_singleton rest call ih =>
    rw [usedBy_append] at hbound ⊢
    obtain ⟨hincreasing, hbelow⟩ := ih fun nonce hnonce ↦ hbound nonce (List.mem_append_left _ hnonce)
    simp only [afterCalls_append, afterCalls, usedBy, List.append_nil] at hbound ⊢
    rw [run_next_apply]
    by_cases hsender : call.from = sender
    · rw [if_pos hsender] at hbound ⊢
      rw [if_pos hsender]
      cases hused : call.used (afterCalls .initial rest) with
      | none => simpa using ⟨hincreasing, hbelow⟩
      | some used =>
        rw [hused] at hbound
        have hleast : afterCalls .initial rest sender ≤ used := hsender ▸ call.le_of_used hused
        have hlt : used < used + 1 := by
          rw [UInt64.lt_iff_toNat_lt, toNat_succ (hbound used (by simp))]
          exact Nat.lt_succ_self _
        have hearlier : ∀ nonce ∈ usedBy sender .initial rest, nonce < used := fun nonce hnonce ↦
          UInt64.lt_of_lt_of_le (hbelow nonce hnonce) hleast
        refine ⟨List.pairwise_append.mpr ⟨hincreasing, List.pairwise_singleton .., ?_⟩, ?_⟩
        · intro nonce hnonce used' hused'
          rw [List.mem_singleton.mp hused']
          exact hearlier nonce hnonce
        · intro nonce hnonce
          rcases List.mem_append.mp hnonce with hnonce | hnonce
          · exact UInt64.lt_trans (hearlier nonce hnonce) hlt
          · rw [List.mem_singleton.mp hnonce]
            exact hlt
    · rw [if_neg hsender, if_neg hsender, List.append_nil]
      exact ⟨hincreasing, hbelow⟩

/-- In every history in which no sender has used the last nonce there is: the nonces that a sender has
used increase; a call gets the larger one of the node's answer and the successor of the last nonce that
its sender used; a call that fails changes nothing, so that its nonce is there for the next one; and
the calls of other senders play no part. -/
theorem nonces_of_history {calls : List (Call α)}
    (hbound : ∀ sender, ∀ nonce ∈ usedBy sender .initial calls, nonce.toNat ≠ 2 ^ 64 - 1) :
    (∀ sender, (usedBy sender .initial calls).Pairwise (· < ·)) ∧
    (∀ before call later, calls = before ++ call :: later →
      ∀ nonce, call.nonce (afterCalls .initial before) = some nonce →
        ∃ pending, call.pending = .ok pending ∧
          nonce.toNat = (usedBy call.from .initial before).getLast?.elim pending.toNat fun last ↦
            max pending.toNat (last.toNat + 1)) ∧
    (∀ (next : Nonces) (call : Call α), call.succeeded next = false → (call.run next).2 = next) ∧
    (∀ before call between call' later, calls = before ++ (call :: between) ++ call' :: later →
      usedBy call.from (afterCalls .initial before) (call :: between) = [] →
      call'.from = call.from → call'.pending = call.pending →
        call'.nonce (afterCalls .initial (before ++ call :: between)) =
          call.nonce (afterCalls .initial before)) ∧
    (∀ before call later, calls = before ++ call :: later →
      call.nonce (afterCalls .initial before) =
        call.nonce (afterCalls .initial (before.filter fun earlier ↦ earlier.from = call.from))) := by
  have hnonce_lt : ∀ sender, ∀ nonce ∈ usedBy sender .initial calls, nonce.toNat + 1 < 2 ^ 64 := by
    intro sender nonce hnonce
    have hne := hbound sender nonce hnonce
    have hlt := nonce.toNat_lt
    omega
  refine ⟨fun sender ↦ (usedBy_increasing (hnonce_lt sender)).1, ?_, fun next call ↦
    call.run_next_of_failed next, ?_, ?_⟩
  · rintro before call later rfl nonce hnonce
    rw [Call.nonce_eq, Option.map_eq_some_iff] at hnonce
    obtain ⟨pending, hpending, rfl⟩ := hnonce
    refine ⟨pending, ?_, ?_⟩
    · cases hanswer : call.pending with
      | error text =>
        rw [hanswer] at hpending
        cases hpending
      | ok answer =>
        rw [hanswer] at hpending
        exact congrArg _ (Option.some.inj hpending)
    · rw [Nonces.toNat_allocate, afterCalls_apply]
      cases hlast : (usedBy call.from .initial before).getLast? with
      | none => exact max_eq_left (Nat.zero_le _)
      | some last =>
        have hmem : last ∈ usedBy call.from .initial (before ++ call :: later) := by
          rw [usedBy_append]
          exact List.mem_append_left _ (List.mem_of_getLast? hlast)
        exact congrArg _ (toNat_succ (hnonce_lt _ _ hmem))
  · intro before call between call' _ _ hnone hsender hpending
    have hnext : afterCalls .initial (before ++ call :: between) call.from =
        afterCalls .initial before call.from := by
      rw [afterCalls_append, afterCalls_apply, hnone]
      rfl
    rw [Call.nonce_eq, Call.nonce_eq, hpending, hsender]
    congr 1
    funext pending
    rw [Nonces.allocate, Nonces.allocate, hnext]
  · intro before call _ _
    apply Call.nonce_congr
    rw [afterCalls_apply, afterCalls_apply, ← usedBy_filter call.from rfl]

/-- A call that hears `pending` from the node and whose body ends in this result. -/
def plainCall (sender : Address) (pending : UInt64) (result : Except Err Unit) : Call Unit where
  «from» := sender
  fn _ := .done result
  answer
    | .pendingNonceAt _ => .ok pending
    | .chainID | .headerByNumber => .ok none
    | .estimateGas _ => .ok 0
    | .suggestGasTipCap => .ok 0
    | .sendTransaction _ => .ok ()
    | .sign _ => .error "locked"

/-- The sender 1 sends with the nonces 5 and 6 while the node still answers 5 and 2.  The call between
them fails, another sender's does not. -/
theorem nonces_of_history_sample :
    let calls := [plainCall 1 5 (.ok ()), plainCall 1 5 (.error errBroadcast), plainCall 2 9 (.ok ()),
      plainCall 1 2 (.ok ())]
    usedBy 1 .initial calls = [5, 6] ∧ (usedBy 1 .initial calls).Pairwise (· < ·) := by
  intro calls
  have hused : usedBy 1 .initial calls = [5, 6] := by decide +kernel
  have hused' : usedBy 2 .initial calls = [9] := by decide +kernel
  refine ⟨hused, (nonces_of_history fun sender nonce hnonce ↦ ?_).1 1⟩
  by_cases hfirst : sender = 1
  · rw [hfirst, hused] at hnonce
    rcases List.mem_pair.mp hnonce with rfl | rfl <;> decide
  by_cases hsecond : sender = 2
  · rw [hsecond, hused', List.mem_singleton] at hnonce
    subst hnonce
    decide
  have hothers : calls.filter (fun call ↦ call.from = sender) = [] := by
    refine List.filter_eq_nil_iff.mpr fun call hcall ↦ ?_
    have hfrom : call.from = 1 ∨ call.from = 2 :=
      (by decide : ∀ call ∈ calls, call.from = 1 ∨ call.from = 2) call hcall
    rw [decide_eq_true_iff]
    rintro rfl
    exact hfrom.elim hfirst hsecond
  rw [usedBy_filter sender rfl, hothers] at hnonce
  cases hnonce

end History

end PaymentRail.Evm
