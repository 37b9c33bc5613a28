import PaymentRail.Transaction.Alone
import PaymentRail.Webhook.Attempts
import Mathlib.Algebra.Order.BigOperators.Group.List

/-!
# Every delivery is decided

A worker that finds the database answering brings every pending delivery to an end, whatever the
endpoints answer and whatever state earlier workers and crashes have left the rows in.  The measure is
the number of attempts that the pending rows may still use up.  A claim changes none of it, every row of
the claim then loses at least one attempt, and as no delay exceeds the cap of `backoff` and no lease is
longer, an hour after a drain every pending row is due again.
-/

namespace PaymentRail.Webhook

open Transaction Outbox Table

/-! ### The delay before the next attempt -/

theorem double_le (rounds : ℕ) {d : ℤ} (h : d ≤ backoffCap) : double rounds d ≤ backoffCap := by
  induction rounds generalizing d with
  | zero => exact h
  | succ rounds ih =>
    rw [double]
    split
    · exact le_rfl
    · next hcap => exact ih (le_of_not_ge hcap)

theorem backoff_le (attempts : Int32) : backoff attempts ≤ backoffCap :=
  double_le _ (by decide)

/-! ### What every run keeps -/

/-- The rows have distinct identifiers, and each refers to a subscription. -/
structure Tidy (s : State) : Prop where
  nodup : (s.deliveries.map Delivery.id).Nodup
  joined : ∀ row ∈ s.deliveries, row.subscriptionID ∈ s.subscriptions.map Subscription.id

theorem Rewrites.subscriptionID_eq {stmt : Stmt} {row row' : Delivery} (h : Rewrites stmt row row') :
    row'.subscriptionID = row.subscriptionID := by
  cases h <;> rfl

theorem Effect.subscriptions_eq {stmt : Stmt} {choice : Choice} {s s' : State}
    (h : Effect choice s stmt s') : s'.subscriptions = s.subscriptions := by
  cases h <;> rfl

namespace Tidy

variable {s s' : State}

theorem effect {stmt : Stmt} {choice : Choice} (h : Tidy s) (heffect : Effect choice s stmt s') :
    Tidy s' where
  nodup := heffect.nodup h.nodup
  joined row' hrow' := by
    rw [heffect.subscriptions_eq]
    rcases heffect.of_mem hrow' with ⟨row, hrow, hrewrite⟩ | ⟨params, -, hnew⟩
    · rw [hrewrite.subscriptionID_eq]
      exact h.joined row hrow
    · obtain ⟨subscription, hmem, rfl⟩ := List.mem_map.mp hnew
      exact List.mem_map_of_mem (List.mem_of_mem_filter hmem)

theorem occur (h : Tidy s) (event : Happening) : Tidy (occur event s) := by
  cases event with
  | emit event id now =>
    rw [Webhook.occur]
    split
    · exact ⟨h.nodup, h.joined⟩
    · exact h
  | publish id partition =>
    rw [Webhook.occur]
    split
    · exact h
    · exact ⟨h.nodup, h.joined⟩
  | subscribe subscriptions =>
    rw [Webhook.occur]
    split
    · next hkept => exact ⟨h.nodup, hkept.2⟩
    · exact h

theorem of_steps {p : Platform} {c : Cluster Reply Choice State Happening Job (Except Err Unit)}
    (hsteps : (webhookd p).Steps .none (.idle .initial) c) : Tidy c.scene.state := by
  have hinitial : Tidy State.initial := ⟨List.nodup_nil, List.forall_mem_nil _⟩
  apply Sharing.invariant_of_steps ?_ ?_ hinitial hsteps
  · intro stmt choice s h
    exact h.effect (effect_eval stmt choice s)
  · intro event v _ h
    exact h.occur event

end Tidy

/-! ### The attempts that are left -/

/-- The attempts that a row may still use up. -/
def Delivery.owed (row : Delivery) : ℤ := if row.status = .pending then 8 - row.attempts.toInt else 0

/-- The attempts that all rows together may still use up. -/
def State.owed (s : State) : ℤ := (s.deliveries.map Delivery.owed).sum

/-- A state between drains: each pending row has attempts left and is due at some time. -/
structure Ripe (time : Time) (s : State) : Prop extends Tidy s where
  bounded : ∀ row ∈ s.deliveries, row.status = .pending →
    0 ≤ row.attempts.toInt ∧ row.attempts.toInt < 8
  dueBy : ∀ row ∈ s.deliveries, row.status = .pending → row.nextAttemptAt ≤ time

/-- The database answers, no row is locked, and the clock is within bounds. -/
structure Calm (since until_ : Time) (choice : Choice) (s : State) : Prop where
  received : choice.ack = .received
  unlocked : ∀ row ∈ s.deliveries, choice.locked row.id = false
  later : since ≤ choice.now
  earlier : choice.now ≤ until_

theorem Calm.settle {since until_ : Time} {choice : Choice} {s : State}
    (h : Calm since until_ choice s) {α : Type} (reply : α) (before after : State) :
    choice.settle reply before after = (.ok reply, after) := settle_received h.received ..

theorem Delivery.owed_nonneg {row : Delivery} (h : row.status = .pending → row.attempts.toInt < 8) :
    0 ≤ row.owed := by
  rw [owed]
  split
  · next hpending =>
    have hlt := h hpending
    omega
  · exact le_rfl

theorem owed_eq_zero {s : State} (h : ∀ row ∈ s.deliveries, row.status ≠ .pending) : s.owed = 0 := by
  apply List.sum_eq_zero
  intro owed howed
  obtain ⟨row, hrow, rfl⟩ := List.mem_map.mp howed
  exact if_neg (h row hrow)

namespace Ripe

variable {time : Time} {s : State}

/-- While a row is pending, there is an attempt left. -/
theorem owed_pos (h : Ripe time s) {row : Delivery} (hrow : row ∈ s.deliveries)
    (hpending : row.status = .pending) : 0 < s.owed := by
  have hone : 0 < row.owed := by
    have hlt := (h.bounded row hrow hpending).2
    rw [Delivery.owed, if_pos hpending]
    omega
  have hle : row.owed ≤ s.owed := by
    apply List.single_le_sum _ _ (List.mem_map_of_mem hrow)
    intro owed howed
    obtain ⟨other, hother, rfl⟩ := List.mem_map.mp howed
    exact Delivery.owed_nonneg fun hpending ↦ (h.bounded other hother hpending).2
  exact hone.trans_le hle

theorem occur (h : Ripe time s) (event : Happening) : Ripe time (occur event s) :=
  ⟨h.toTidy.occur event, deliveries_occur event s ▸ h.bounded, deliveries_occur event s ▸ h.dueBy⟩

end Ripe

/-! ### A row is sent and marked -/

/-- A state after a row has been marked: its attempts are fewer, and the other rows are as before. -/
structure Marked (time : Time) (id : UUID) (s s' : State) : Prop extends Ripe time s' where
  fewer : s'.owed < s.owed
  others : ∀ other, other ≠ id →
    lookup Delivery.id s'.deliveries other = lookup Delivery.id s.deliveries other
  ids : s'.deliveries.map Delivery.id = s.deliveries.map Delivery.id

section Worker

variable {p : Platform} {since until_ : Time} {s : State}

theorem ensures_call {stmt : Stmt} {post : Reply stmt → State → Prop} :
    ensures eval (fun _ ↦ Calm since until_) (call stmt) post s ↔
      ∀ choice, Calm since until_ choice s → post (eval stmt choice s).1 (eval stmt choice s).2 :=
  Iff.rfl

/-- Marking a pending row. -/
theorem Ripe.mark {time : Time} (h : Ripe time s) {id : UUID} {row : Delivery}
    (hrow : lookup Delivery.id s.deliveries id = some row) (hpending : row.status = .pending)
    {f : Delivery → Delivery} (hid : ∀ row, (f row).id = row.id)
    (hsubscription : ∀ row, (f row).subscriptionID = row.subscriptionID)
    (hnext : (f row).status = .pending → row.attempts.toInt < (f row).attempts.toInt ∧
      (f row).attempts.toInt < 8 ∧ (f row).nextAttemptAt ≤ time) :
    Marked time id s (s.mark id f) := by
  have hids : (s.mark id f).deliveries.map Delivery.id = s.deliveries.map Delivery.id :=
    map_key_modify hid
  have hbounded := h.bounded row (mem_of_lookup hrow) hpending
  have hmem {row' : Delivery} (hrow' : row' ∈ (s.mark id f).deliveries) :
      row' = f row ∨ row' ∈ s.deliveries := by
    obtain ⟨before, hbefore, rfl⟩ := List.mem_map.mp hrow'
    split
    · next hkey =>
      have hfound := lookup_of_mem h.nodup hbefore
      rw [hkey, hrow, Option.some.injEq] at hfound
      exact .inl (congrArg f hfound.symm)
    · exact .inr hbefore
  have howed : (f row).owed < row.owed := by
    rw [Delivery.owed, Delivery.owed, if_pos hpending]
    split
    · next hagain =>
      have hmore := (hnext hagain).1
      omega
    · omega
  exact
    { nodup := hids ▸ h.nodup
      joined := fun row' hrow' ↦ by
        rcases hmem hrow' with rfl | hold
        · rw [hsubscription]
          exact h.joined row (mem_of_lookup hrow)
        · exact h.joined row' hold
      bounded := fun row' hrow' hpending' ↦ by
        rcases hmem hrow' with rfl | hold
        · obtain ⟨hmore, hlt, -⟩ := hnext hpending'
          exact ⟨hbounded.1.trans hmore.le, hlt⟩
        · exact h.bounded row' hold hpending'
      dueBy := fun row' hrow' hpending' ↦ by
        rcases hmem hrow' with rfl | hold
        · exact (hnext hpending').2.2
        · exact h.dueBy row' hold hpending'
      fewer := by
        have hsum : (s.mark id f).owed = s.owed + ((f row).owed - row.owed) :=
          sum_map_modify h.nodup hrow Delivery.owed
        omega
      others := fun other hother ↦ lookup_modify_of_ne hid hother
      ids := hids }

/-- A row of a claim is in the table as it was claimed. -/
def Leased (s : State) (claimed : ClaimedRow) : Prop :=
  ∃ row, lookup Delivery.id s.deliveries claimed.id = some row ∧ row.status = .pending ∧
    row.attempts = claimed.attempts

theorem toInt_add_one {attempts : Int32} (h : 0 ≤ attempts.toInt ∧ attempts.toInt < 8) :
    (attempts + 1).toInt = attempts.toInt + 1 := by
  have hone : (1 : Int32).toInt = 1 := rfl
  rw [Int32.toInt_add, hone, Int.bmod_eq_of_le (by omega) (by omega)]

theorem lt_of_classify_retry {attempts : Int32} {res : Except String SendResult}
    (h : classify attempts res = .retry) : attempts.toInt < 8 := by
  rw [classify] at h
  split at h
  · split at h
    · cases h
    · next hmax => exact Int32.lt_iff_toInt_lt.mp (Int32.not_le.mp hmax)
  · cases h

/-- Whatever the endpoint answers, the row is marked. -/
theorem ensures_deliver {claimed : ClaimedRow} (h : Ripe (until_ + backoffCap) s)
    (hclaimed : Leased s claimed) :
    ensures eval (fun _ ↦ Calm since until_) (deliver p claimed)
      (fun result s' ↦ result = .ok () ∧ Marked (until_ + backoffCap) claimed.id s s') s := by
  obtain ⟨row, hrow, hpending, hattempts⟩ := hclaimed
  have hbounded := h.bounded row (mem_of_lookup hrow) hpending
  have hadd : (claimed.attempts + 1).toInt = row.attempts.toInt + 1 :=
    hattempts ▸ toInt_add_one hbounded
  rw [deliver, ensures_bind, ensures_call]
  intro clock _
  rw [ensures_bind, ensures_call]
  intro answer _
  rw [record]
  split
  · rw [ensures_call]
    intro choice hcalm
    simp only [eval, hcalm.settle]
    exact ⟨trivial, h.mark hrow hpending (fun _ ↦ rfl) (fun _ ↦ rfl) (by rintro ⟨⟩)⟩
  · rw [ensures_call]
    intro choice hcalm
    simp only [eval, hcalm.settle]
    exact ⟨trivial, h.mark hrow hpending (fun _ ↦ rfl) (fun _ ↦ rfl) (by rintro ⟨⟩)⟩
  · next hretry =>
    have hmax := lt_of_classify_retry hretry
    rw [ensures_bind, ensures_call]
    intro now hnow
    rw [ensures_call]
    intro choice hcalm
    simp only [eval, hcalm.settle]
    refine ⟨trivial, h.mark hrow hpending (fun _ ↦ rfl) (fun _ ↦ rfl) fun _ ↦ ⟨?_, hmax, ?_⟩⟩
    · exact hadd ▸ Int.lt_succ _
    · exact add_le_add hnow.earlier (backoff_le _)

theorem Leased.marked {time : Time} {s' : State} {id : UUID} {claimed : ClaimedRow}
    (h : Leased s claimed) (hmarked : Marked time id s s') (hne : claimed.id ≠ id) :
    Leased s' claimed := by
  rw [Leased, hmarked.others claimed.id hne]
  exact h

/-- Every row of a claim uses up at least one attempt. -/
theorem ensures_deliverAll {rows : List ClaimedRow} (h : Ripe (until_ + backoffCap) s)
    (hnodup : (rows.map ClaimedRow.id).Nodup) (hleased : ∀ row ∈ rows, Leased s row) :
    ensures eval (fun _ ↦ Calm since until_) (deliverAll p rows)
      (fun _ s' ↦ Ripe (until_ + backoffCap) s' ∧ s'.owed + rows.length ≤ s.owed ∧
        s'.deliveries.map Delivery.id = s.deliveries.map Delivery.id) s := by
  induction rows generalizing s with
  | nil => exact ⟨h, (add_zero s.owed).le, rfl⟩
  | cons row rest ih =>
    obtain ⟨hfirst, hrest⟩ := List.nodup_cons.mp hnodup
    rw [deliverAll, ensures_bind]
    apply ensures_mono (ensures_deliver h (hleased row List.mem_cons_self))
    rintro result s₁ ⟨rfl, hmarked⟩
    have hleased' : ∀ other ∈ rest, Leased s₁ other := by
      intro other hother
      apply (hleased other (List.mem_cons_of_mem _ hother)).marked hmarked
      exact fun hid ↦ hfirst (hid ▸ List.mem_map_of_mem hother)
    apply ensures_mono (ih hmarked.toRipe hrest hleased')
    rintro _ s₂ ⟨hripe, howed, hids⟩
    have hfewer := hmarked.fewer
    refine ⟨hripe, ?_, hids.trans hmarked.ids⟩
    rw [List.length_cons]
    omega

/-! ### A claim and a drain -/

/-- A claim changes the times of rows only. -/
theorem map_claim {α : Type} (key : Delivery → α) (hkey : ∀ row time, key (row.lease time) = key row)
    (choice : Choice) (leaseSeconds limit : ℕ) :
    (s.claim choice leaseSeconds limit).deliveries.map key = s.deliveries.map key := by
  rw [State.claim, State.mapDeliveries, List.map_map]
  apply List.map_congr_left
  intro row _
  rw [Function.comp_apply]
  split
  · exact hkey row _
  · rfl

theorem Ripe.claim {choice : Choice} (h : Ripe since s) (hcalm : Calm since until_ choice s)
    (limit : ℕ) : Ripe (until_ + backoffCap) (s.claim choice leaseSeconds limit) := by
  have hcap : (0 : ℤ) ≤ backoffCap := by decide
  have hlease : (leaseSeconds : ℤ) * 10 ^ 9 ≤ backoffCap := by decide
  have hlater : since ≤ until_ + backoffCap :=
    calc since
      _ ≤ until_ := hcalm.later.trans hcalm.earlier
      _ ≤ until_ + backoffCap := le_add_of_nonneg_right hcap
  exact
    { nodup := by
        rw [map_claim Delivery.id fun _ _ ↦ rfl]
        exact h.nodup
      joined := fun row hrow ↦ by
        obtain ⟨before, hbefore, rfl⟩ := List.mem_map.mp hrow
        split
        · exact h.joined before hbefore
        · exact h.joined before hbefore
      bounded := fun row hrow ↦ by
        obtain ⟨before, hbefore, rfl⟩ := List.mem_map.mp hrow
        split
        · exact h.bounded before hbefore
        · exact h.bounded before hbefore
      dueBy := fun row hrow ↦ by
        obtain ⟨before, hbefore, rfl⟩ := List.mem_map.mp hrow
        split
        · exact fun _ ↦ add_le_add hcalm.earlier hlease
        · exact fun hpending ↦ (h.dueBy before hbefore hpending).trans hlater }

theorem leased_of_claim {choice : Choice} (h : Tidy s) {leaseSeconds limit : ℕ}
    {rows : List ClaimedRow}
    (hrows : (eval (.claimDueDeliveries leaseSeconds limit) choice s).1 = .ok rows)
    {claimed : ClaimedRow} (hclaimed : claimed ∈ rows) :
    Leased (s.claim choice leaseSeconds limit) claimed := by
  rw [Leased]
  obtain ⟨before, hbefore, hpending, hid, hattempts⟩ := claimed_of_eval hrows hclaimed
  have hnodup : ((s.claim choice leaseSeconds limit).deliveries.map Delivery.id).Nodup := by
    rw [map_claim Delivery.id fun _ _ ↦ rfl]
    exact h.nodup
  have hlookup := lookup_of_mem hnodup (List.mem_map_of_mem hbefore)
  rw [← hid]
  split at hlookup
  · exact ⟨before.lease _, hlookup, hpending, hattempts⟩
  · exact ⟨before, hlookup, hpending, hattempts⟩

/-- A pending row that is due and not locked is not passed over for nothing: the claim has a row. -/
theorem claimable_ne_nil {choice : Choice} (h : Ripe since s) (hcalm : Calm since until_ choice s)
    {limit : ℕ} (hlimit : 0 < limit) {row : Delivery} (hrow : row ∈ s.deliveries)
    (hpending : row.status = .pending) : s.claimable choice limit ≠ [] := by
  have hselected : row ∈ ordered Delivery.nextAttemptAt (ordered (fun row ↦ choice.rank row.id)
      (s.deliveries.filter fun row ↦
        row.status = .pending && row.nextAttemptAt ≤ choice.now && !choice.locked row.id)) := by
    apply (List.mem_insertionSort _).mpr
    apply (List.mem_insertionSort _).mpr
    have hdue := (h.dueBy row hrow hpending).trans hcalm.later
    simp [hrow, hpending, hdue, hcalm.unlocked row hrow]
  obtain ⟨first, hfirst⟩ : ∃ first, first ∈
      due s.deliveries choice.now choice.locked choice.rank limit := by
    apply List.exists_mem_of_ne_nil
    rw [due, ne_eq, List.take_eq_nil_iff, not_or]
    exact ⟨hlimit.ne', List.ne_nil_of_mem hselected⟩
  have hstored : first ∈ s.deliveries := by
    have := (List.mem_insertionSort _).mp
      ((List.mem_insertionSort _).mp (List.mem_of_mem_take hfirst))
    exact List.mem_of_mem_filter this
  obtain ⟨subscription, hsubscription⟩ : ∃ subscription,
      lookup Subscription.id s.subscriptions first.subscriptionID = some subscription := by
    apply Option.ne_none_iff_exists'.mp
    rw [ne_eq, lookup_eq_none]
    obtain ⟨subscription, hmem, hid⟩ := List.mem_map.mp (h.joined first hstored)
    exact fun hnone ↦ hnone subscription hmem hid
  apply List.ne_nil_of_mem
  apply List.mem_filterMap.mpr
  exact ⟨first, hfirst, by rw [Delivery.claimed, hsubscription, Option.map_some]⟩

/-- A drain uses up an attempt, as long as a row is pending. -/
theorem ensures_drainOnce (h : Ripe since s) :
    ensures eval (fun _ ↦ Calm since until_) (drainOnce p)
      (fun _ s' ↦ Ripe (until_ + backoffCap) s' ∧ s'.owed ≤ max (s.owed - 1) 0 ∧
        s'.deliveries.map Delivery.id = s.deliveries.map Delivery.id) s := by
  rw [drainOnce, ensures_bind, ensures_call]
  intro choice hcalm
  have heval : eval (.claimDueDeliveries leaseSeconds claimBatch) choice s =
      (.ok (ordered (fun row ↦ choice.rank row.id) (s.claimable choice claimBatch)),
        s.claim choice leaseSeconds claimBatch) := hcalm.settle ..
  have hreply := congrArg Prod.fst heval
  have howed : (s.claim choice leaseSeconds claimBatch).owed = s.owed :=
    congrArg List.sum (map_claim Delivery.owed (fun _ _ ↦ rfl) ..)
  have hids : (s.claim choice leaseSeconds claimBatch).deliveries.map Delivery.id =
      s.deliveries.map Delivery.id := map_claim Delivery.id (fun _ _ ↦ rfl) ..
  rw [heval]
  apply ensures_mono (ensures_deliverAll (h.claim hcalm claimBatch)
    (nodup_claimed_of_eval hreply h.nodup) fun row hrow ↦ leased_of_claim h.toTidy hreply hrow)
  rintro _ s' ⟨hripe, hfewer, hids'⟩
  refine ⟨hripe, ?_, hids'.trans hids⟩
  rw [howed, ordered, List.length_insertionSort] at hfewer
  by_cases hpending : ∃ row ∈ s.deliveries, row.status = .pending
  · obtain ⟨row, hrow, hpending⟩ := hpending
    have hrows := List.length_pos_iff.mpr
      (claimable_ne_nil h hcalm (by decide : 0 < claimBatch) hrow hpending)
    exact le_max_of_le_left (by omega)
  · have hnone : s.owed = 0 :=
      owed_eq_zero fun row hrow hpending' ↦ hpending ⟨row, hrow, hpending'⟩
    exact le_max_of_le_right (by omega)

end Worker

/-! ### Drains one after the other -/

/-- The calls of a drain between two times. -/
def calm (since until_ : Time) : Rules Reply Choice State Happening Job where
  calls _ _ _ choice v := Calm since until_ choice v.state
  events _ _ := True

/-- Drains of a worker, each at least an hour after the one before, the first not before a time.  The
database answers while a drain runs; between the drains events happen elsewhere and processes crash. -/
inductive Drains (p : Platform) : Time → ℕ →
    Cluster Reply Choice State Happening Job (Except Err Unit) →
    Cluster Reply Choice State Happening Job (Except Err Unit) → Prop where
  | done (since c) : Drains p since 0 c c
  | drain {since until_ : Time} {count pid : ℕ} {c mid c' result}
    (hworker : (webhookd p).Alone (calm since until_) pid .worker c mid result)
    (hrest : Drains p (until_ + backoffCap) count mid c') : Drains p since (count + 1) c c'
  | event {since count c c'} (event : Happening)
    (hrest : Drains p since count ⟨(webhookd p).occurred event c.scene, c.process⟩ c') :
    Drains p since count c c'
  | crash {since count c c'} (pid : ℕ)
    (hrest : Drains p since count ⟨c.scene, Function.update c.process pid none⟩ c') :
    Drains p since count c c'

theorem decided_of_not_pending {row : Delivery} (h : row.status ≠ .pending) :
    row.status = .delivered ∨ row.status = .deadLetter := by
  cases hstatus : row.status with
  | pending => exact absurd hstatus h
  | delivered => exact .inl rfl
  | deadLetter => exact .inr rfl

theorem Drains.steps {p : Platform} {since : Time} {count : ℕ}
    {c c' : Cluster Reply Choice State Happening Job (Except Err Unit)}
    (h : Drains p since count c c') : (webhookd p).Steps .none c c' := by
  induction h with
  | done => exact .refl
  | drain hworker _ ih => exact hworker.steps.trans ih
  | event event _ ih => exact .head ⟨.occur event, permit_none _ _, rfl⟩ ih
  | crash pid _ ih => exact .head ⟨.crash pid, permit_none _ _, rfl⟩ ih

/-- In every run a pending row has attempts left. -/
theorem Ripe.of_steps {p : Platform} {since : Time}
    {c : Cluster Reply Choice State Happening Job (Except Err Unit)}
    (hsteps : (webhookd p).Steps .none (.idle .initial) c)
    (hdue : ∀ row ∈ c.scene.state.deliveries, row.status = .pending → row.nextAttemptAt ≤ since) :
    Ripe since c.scene.state := by
  have hidle : Secure (webhookd p) .none accounts (.idle .initial) :=
    Kept.secure_idle (List.forall_mem_nil _)
  have hcounted := ((kept_accounts p).sound hidle hsteps).1.inv
  refine ⟨Tidy.of_steps hsteps, fun row hrow hpending ↦ ?_, hdue⟩
  obtain ⟨hnonneg, hlt, -⟩ := (hcounted row hrow).pending hpending
  exact ⟨hnonneg, hlt⟩

theorem decided_of_drains {p : Platform} {since : Time} {count : ℕ}
    {c c' : Cluster Reply Choice State Happening Job (Except Err Unit)}
    (hdrains : Drains p since count c c') (h : Ripe since c.scene.state)
    (hcount : c.scene.state.owed ≤ count) :
    (∀ row ∈ c'.scene.state.deliveries, row.status ≠ .pending) ∧
      c'.scene.state.deliveries.map Delivery.id = c.scene.state.deliveries.map Delivery.id := by
  induction hdrains with
  | done since c =>
    refine ⟨fun row hrow hpending ↦ ?_, rfl⟩
    exact (h.owed_pos hrow hpending).not_ge hcount
  | drain hworker hrest ih =>
    obtain ⟨hripe, howed, hids⟩ := hworker.post (fun _ _ _ hcalm ↦ hcalm) (ensures_drainOnce h)
    obtain ⟨hdecided, hids'⟩ := ih hripe (howed.trans (by push_cast at hcount; omega))
    exact ⟨hdecided, hids'.trans hids⟩
  | @event since count c c' event hrest ih =>
    have hsame := deliveries_occur event c.scene.state
    have howed : (occur event c.scene.state).owed = c.scene.state.owed := by
      rw [State.owed, hsame, State.owed]
    obtain ⟨hdecided, hids⟩ := ih (h.occur event) (howed.trans_le hcount)
    exact ⟨hdecided, hids.trans (congrArg (List.map Delivery.id) hsame)⟩
  | crash pid hrest ih => exact ih h hcount

instance (since until_ : Time) (choice : Choice) (s : State) :
    Decidable (Calm since until_ choice s) :=
  decidable_of_iff (choice.ack = .received ∧ (∀ row ∈ s.deliveries, choice.locked row.id = false) ∧
      since ≤ choice.now ∧ choice.now ≤ until_)
    ⟨fun ⟨h₁, h₂, h₃, h₄⟩ ↦ ⟨h₁, h₂, h₃, h₄⟩, fun h ↦ ⟨h.1, h.2, h.3, h.4⟩⟩

/-- Drains one after the other, each with the time by which it ends and its choices. -/
def drainAll (p : Platform) : Time → List (Time × List Choice) → State → Option State
  | _, [], s => some s
  | since, (until_, choices) :: rest, s =>
    (exec eval (fun _ ↦ Calm since until_) (drainOnce p) choices s).bind fun outcome ↦
      drainAll p (until_ + backoffCap) rest outcome.2

theorem exists_drains {p : Platform} {since : Time} {drains : List (Time × List Choice)} {s' : State}
    {c : Cluster Reply Choice State Happening Job (Except Err Unit)}
    (h : drainAll p since drains c.scene.state = some s') :
    ∃ c', Drains p since drains.length c c' ∧ c'.scene.state = s' := by
  induction drains generalizing since c with
  | nil =>
    cases h
    exact ⟨c, .done since c, rfl⟩
  | cons drain rest ih =>
    obtain ⟨until_, choices⟩ := drain
    obtain ⟨⟨result, s₁⟩, hexec, hrest⟩ := Option.bind_eq_some_iff.mp h
    obtain ⟨c₁, halone, rfl, -⟩ := Sharing.exists_alone (webhookd p) (calm since until_) 0 .worker
      (c := ⟨c.scene, Function.update c.process 0 none⟩) (fun _ _ _ hcalm ↦ hcalm)
      (by simp) hexec
    obtain ⟨c', hdrains, hstate⟩ := ih hrest
    exact ⟨c', .crash 0 (.drain halone hdrains), hstate⟩

end PaymentRail.Webhook
