import PaymentRail.Outbox.Relay
import Mathlib.Data.List.Pairwise

/-!
# The order of events on the topic

The rows of an aggregate that are sent are the first ones of it, so the unsent rows that a claim
selects are the next ones, in their order, wherever the limit cuts the batch.  A publication delivers
some first ones of those.  So each time an event is on the topic, every earlier event of the aggregate
is there before it, however often batches are rolled back and published again.
-/

namespace PaymentRail.Outbox.Relay

open Table Transaction

/-- The row is of the same aggregate and older. -/
def Stored.Before (earlier row : Stored) : Prop :=
  earlier.aggregateID = row.aggregateID ∧ earlier.createdAt < row.createdAt

/-- Sent rows have been delivered, with everything before them, and each event on the topic comes after
the earlier ones of its aggregate. -/
structure InOrder (s : State) : Prop where
  payload : ∀ row ∈ s.outbox, row.payload.id = row.id.string
  nodup : (s.outbox.map fun row ↦ row.id).Nodup
  increasing : s.outbox.Pairwise fun a b ↦ a.aggregateID = b.aggregateID → a.createdAt < b.createdAt
  known : ∀ m ∈ s.topic, ∃ row ∈ s.outbox, row.message = m
  delivered : ∀ row ∈ s.outbox, row.sentAt.isSome → row.message ∈ s.topic
  closed : ∀ row ∈ s.outbox, ∀ earlier ∈ s.outbox, earlier.Before row → row.sentAt.isSome →
    earlier.sentAt.isSome
  preceded : ∀ row ∈ s.outbox, ∀ earlier ∈ s.outbox, earlier.Before row → ∀ front back,
    s.topic = front ++ row.message :: back → earlier.message ∈ front

/-- The value of a message has the identifier of its event. -/
theorem id_eq_of_json {row other : Stored} (hrow : row.payload.id = row.id.string)
    (hother : other.payload.id = other.id.string)
    (hjson : Envelope.json row.payload = Envelope.json other.payload) : row.id = other.id := by
  have hpayload : row.payload.id = other.payload.id := by
    simp only [Envelope.json, Json.obj.injEq, List.cons.injEq, Prod.mk.injEq, Json.str.injEq] at hjson
    exact hjson.1.2
  rw [hrow, hother] at hpayload
  exact UUID.string_injective hpayload

namespace InOrder

variable {s : State}

/-- A value belongs to one row. -/
theorem eq_of_json (h : InOrder s) {row other : Stored} (hrow : row ∈ s.outbox)
    (hother : other ∈ s.outbox) (hjson : Envelope.json row.payload = Envelope.json other.payload) :
    row = other :=
  List.inj_on_of_nodup_map h.nodup hrow hother
    (id_eq_of_json (h.payload row hrow) (h.payload other hother) hjson)

/-- Two rows of an aggregate are not of one instant. -/
theorem createdAt_ne (h : InOrder s) {row other : Stored} (hrow : row ∈ s.outbox)
    (hother : other ∈ s.outbox) (hne : row ≠ other) (hkey : row.aggregateID = other.aggregateID) :
    row.createdAt ≠ other.createdAt := by
  have hsymm : Std.Symm fun a b : Stored ↦ a.aggregateID = b.aggregateID → a.createdAt ≠ b.createdAt :=
    ⟨fun a b hab hkey ↦ (hab hkey.symm).symm⟩
  have hpairwise := h.increasing.imp fun {a b} hlt (hkey : a.aggregateID = b.aggregateID) ↦
    ne_of_lt (hlt hkey)
  exact hpairwise.forall hrow hother hne hkey

end InOrder

/-! ### A batch -/

/-- Unsent rows in their order, with the unsent rows before them. -/
structure Batch (rows : List Stored) (s : State) : Prop where
  nodup : rows.Nodup
  mem : ∀ row ∈ rows, row ∈ s.outbox
  closed : ∀ row ∈ rows, ∀ earlier ∈ s.outbox, earlier.Before row → earlier.sentAt = none →
    earlier ∈ rows
  sorted : rows.Pairwise fun a b ↦ a.createdAt ≤ b.createdAt

/-- What is before a row of the first part of an ordered list is in that part. -/
theorem mem_take_of_lt {rows : List Stored} (h : rows.Pairwise fun a b ↦ a.createdAt ≤ b.createdAt)
    {limit : ℕ} {row earlier : Stored} (hrow : row ∈ rows.take limit) (hearlier : earlier ∈ rows)
    (hlt : earlier.createdAt < row.createdAt) : earlier ∈ rows.take limit := by
  rw [← List.take_append_drop limit rows] at h hearlier
  rcases List.mem_append.mp hearlier with htake | hdrop
  · exact htake
  · exact absurd ((List.pairwise_append.mp h).2.2 row hrow earlier hdrop) (not_le_of_gt hlt)

theorem batch_oldest {s : State} (h : InOrder s) (hmarks : s.marks = some []) (rank : UUID → ℕ)
    (limit : ℕ) : Batch (s.oldest rank limit) s := by
  have hmem (row : Stored) : row ∈ ordered Stored.createdAt (ordered (fun row ↦ rank row.id)
      (s.outbox.filter fun row ↦ row.sentAt.isNone && !(s.marks.getD []).contains row.id)) ↔
      row ∈ s.outbox ∧ row.sentAt = none := by
    simp [ordered, hmarks]
  have hsorted := pairwise_ordered Stored.createdAt (ordered (fun row ↦ rank row.id)
    (s.outbox.filter fun row ↦ row.sentAt.isNone && !(s.marks.getD []).contains row.id))
  refine ⟨?_, fun row hrow ↦ ((hmem row).mp (List.mem_of_mem_take hrow)).1,
    fun row hrow earlier hearlier hbefore hunsent ↦ ?_, hsorted.sublist (List.take_sublist ..)⟩
  · refine List.Nodup.sublist (List.take_sublist ..) ?_
    refine ((List.perm_insertionSort _ _).trans (List.perm_insertionSort _ _)).nodup_iff.mpr ?_
    exact (List.Nodup.of_map _ h.nodup).filter _
  · exact mem_take_of_lt hsorted hrow ((hmem earlier).mpr ⟨hearlier, hunsent⟩) hbefore.2

/-- Rows of an aggregate are in the order of their creation. -/
theorem Batch.pairwise_lane {rows : List Stored} {s : State} (h : Batch rows s) (hs : InOrder s)
    (key : String) :
    (lane (fun row ↦ row.aggregateID) rows key).Pairwise fun a b ↦ a.createdAt < b.createdAt := by
  have hboth := (h.sorted.and h.nodup).filter fun row ↦ row.aggregateID = key
  refine hboth.imp_of_mem fun {a b} ha hb hab ↦ lt_of_le_of_ne hab.1 ?_
  obtain ⟨ha, hakey⟩ := List.mem_filter.mp ha
  obtain ⟨hb, hbkey⟩ := List.mem_filter.mp hb
  exact hs.createdAt_ne (h.mem a ha) (h.mem b hb) hab.2
    ((of_decide_eq_true hakey).trans (of_decide_eq_true hbkey).symm)

/-- What a publication of a batch delivers comes after what is before it. -/
theorem Batch.preceded {rows : List Stored} {s : State} (h : Batch rows s) (hs : InOrder s)
    {picks : List String} {front back : List Message} {row earlier : Stored} (hrow : row ∈ s.outbox)
    (hearlier : earlier ∈ s.outbox) (hbefore : earlier.Before row)
    (hdelivered : (taken (fun row ↦ row.aggregateID) picks rows).map Stored.message =
      front ++ row.message :: back) : earlier.message ∈ s.topic ∨ earlier.message ∈ front := by
  by_cases hsent : earlier.sentAt.isSome
  · exact .inl (hs.delivered earlier hearlier hsent)
  · obtain ⟨front', rest, htaken, rfl, hrest⟩ := List.map_eq_append_iff.mp hdelivered
    obtain ⟨row', back', rfl, hmessage, -⟩ := List.map_eq_cons_iff.mp hrest
    have hsub : (taken (fun row ↦ row.aggregateID) picks rows).Subperm rows :=
      taken_subperm picks rows
    have hmem : row' ∈ rows := by
      refine hsub.subset ?_
      rw [htaken]
      exact List.mem_append_right _ List.mem_cons_self
    obtain rfl := hs.eq_of_json (h.mem row' hmem) hrow (congrArg Message.value hmessage)
    have hearlierRow : earlier ∈ rows :=
      h.closed row' hmem earlier hearlier hbefore (by simpa using hsent)
    refine .inr (List.mem_map_of_mem (mem_front_of_taken (fun a b hab ↦ not_lt_of_gt hab)
      (h.pairwise_lane hs row'.aggregateID) htaken hearlierRow hbefore.1 hbefore.2))

/-! ### One call -/

theorem InOrder.publish {s : State} {rows : List Stored} (h : InOrder s) (hbatch : Batch rows s)
    (picks : List String) :
    InOrder { s with topic := s.topic ++ taken Message.key picks (rows.map Stored.message) } := by
  rw [taken_map]
  have hsub : (taken (fun row ↦ row.aggregateID) picks rows).Subperm rows :=
    taken_subperm picks rows
  refine { h with
    known := fun m hm ↦ ?_
    delivered := fun row hrow hsent ↦ List.mem_append_left _ (h.delivered row hrow hsent)
    preceded := fun row hrow earlier hearlier hbefore front back htopic ↦ ?_ }
  · rcases List.mem_append.mp hm with hold | hnew
    · exact h.known m hold
    · obtain ⟨row, hrow, hmessage⟩ := List.mem_map.mp hnew
      exact ⟨row, hbatch.mem row (hsub.subset hrow), hmessage⟩
  · -- the event is in what was delivered just now, or it was on the topic before
    rcases List.append_eq_append_iff.mp htopic with ⟨front', rfl, hdelivered⟩ | ⟨rest, hold, hrest⟩
    · rcases hbatch.preceded h hrow hearlier hbefore hdelivered with hearly | hfront
      · exact List.mem_append_left _ hearly
      · exact List.mem_append_right _ hfront
    · cases rest with
      | nil =>
        rw [List.append_nil] at hold
        subst hold
        have hfirst : (taken (fun row ↦ row.aggregateID) picks rows).map Stored.message =
            [] ++ row.message :: back := hrest.symm
        rcases hbatch.preceded h hrow hearlier hbefore hfirst with hearly | hfront
        · exact hearly
        · cases hfront
      | cons m rest =>
        obtain ⟨rfl, -⟩ := List.cons_eq_cons.mp hrest
        exact h.preceded row hrow earlier hearlier hbefore front rest hold

/-- The marked rows have been delivered, and the rows before them are sent or marked. -/
def Committable (s : State) : Prop :=
  ∀ row ∈ s.outbox, row.id ∈ s.marks.getD [] → row.message ∈ s.topic ∧
    ∀ earlier ∈ s.outbox, earlier.Before row →
      earlier.sentAt.isSome ∨ earlier.id ∈ s.marks.getD []

namespace Stored

variable (marks : List UUID) (now : Time) (row : Stored)

@[simp]
theorem settle_toOutboxRow : (row.settle marks now).toOutboxRow = row.toOutboxRow := by
  rw [settle]
  split <;> rfl

@[simp]
theorem settle_createdAt : (row.settle marks now).createdAt = row.createdAt := by
  rw [settle]
  split <;> rfl

@[simp]
theorem settle_message : (row.settle marks now).message = row.message := by
  simp [message]

theorem settle_sent :
    (row.settle marks now).sentAt.isSome ↔ row.id ∈ marks ∨ row.sentAt.isSome := by
  rw [settle]
  split
  · next hmark => simpa using .inl (List.contains_iff_mem.mp hmark)
  · next hmark => simp_all

theorem settle_before {earlier : Stored} :
    (earlier.settle marks now).Before (row.settle marks now) ↔ earlier.Before row := by
  simp [Before]

end Stored

theorem InOrder.settle {s : State} (h : InOrder s) (hmarks : Committable s) (now : Time) :
    InOrder (s.settle now) where
  payload := by
    intro row' hrow'
    obtain ⟨row, hrow, rfl⟩ := List.mem_map.mp hrow'
    simpa using h.payload row hrow
  nodup := by
    simpa [State.settle, Function.comp_def] using h.nodup
  increasing := by
    refine List.pairwise_map.mpr (h.increasing.imp fun hlt ↦ ?_)
    simpa using hlt
  known := by
    intro m hm
    obtain ⟨row, hrow, hmessage⟩ := h.known m hm
    exact ⟨_, List.mem_map_of_mem hrow, (row.settle_message ..).trans hmessage⟩
  delivered := by
    intro row' hrow' hsent
    obtain ⟨row, hrow, rfl⟩ := List.mem_map.mp hrow'
    rw [Stored.settle_message]
    rcases (row.settle_sent ..).mp hsent with hmark | hsent
    · exact (hmarks row hrow hmark).1
    · exact h.delivered row hrow hsent
  closed := by
    intro row' hrow' earlier' hearlier' hbefore hsent
    obtain ⟨row, hrow, rfl⟩ := List.mem_map.mp hrow'
    obtain ⟨earlier, hearlier, rfl⟩ := List.mem_map.mp hearlier'
    have hbefore := (row.settle_before ..).mp hbefore
    rw [Stored.settle_sent]
    rcases (row.settle_sent ..).mp hsent with hmark | hsent
    · exact ((hmarks row hrow hmark).2 earlier hearlier hbefore).symm
    · exact .inr (h.closed row hrow earlier hearlier hbefore hsent)
  preceded := by
    intro row' hrow' earlier' hearlier' hbefore front back htopic
    obtain ⟨row, hrow, rfl⟩ := List.mem_map.mp hrow'
    obtain ⟨earlier, hearlier, rfl⟩ := List.mem_map.mp hearlier'
    rw [Stored.settle_message] at htopic ⊢
    exact h.preceded row hrow earlier hearlier ((row.settle_before ..).mp hbefore) front back htopic

/-- Rows that are new, unsent and later than the others of their aggregate may be added. -/
theorem InOrder.append {s : State} (h : InOrder s) {new : List Stored}
    (hpayload : ∀ row ∈ new, row.payload.id = row.id.string) (hunsent : ∀ row ∈ new, row.sentAt = none)
    (hnodup : ((s.outbox ++ new).map fun row ↦ row.id).Nodup)
    (hkeys : new.Pairwise fun a b ↦ a.aggregateID ≠ b.aggregateID)
    (hlater : ∀ old ∈ s.outbox, ∀ row ∈ new, old.aggregateID = row.aggregateID →
      old.createdAt < row.createdAt) : InOrder { s with outbox := s.outbox ++ new } := by
  have hafter {old row : Stored} (hold : old ∈ s.outbox) (hrow : row ∈ new) : ¬row.Before old :=
    fun hbefore ↦ lt_asymm hbefore.2 (hlater old hold row hrow hbefore.1.symm)
  refine ⟨fun row hrow ↦ ?_, hnodup, ?_, fun m hm ↦ ?_, fun row hrow hsent ↦ ?_,
    fun row hrow earlier hearlier hbefore hsent ↦ ?_,
    fun row hrow earlier hearlier hbefore front back htopic ↦ ?_⟩
  · rcases List.mem_append.mp hrow with hold | hrow
    · exact h.payload row hold
    · exact hpayload row hrow
  · exact List.pairwise_append.mpr
      ⟨h.increasing, hkeys.imp fun hne heq ↦ absurd heq hne, hlater⟩
  · obtain ⟨row, hrow, hmessage⟩ := h.known m hm
    exact ⟨row, List.mem_append_left _ hrow, hmessage⟩
  · rcases List.mem_append.mp hrow with hold | hrow
    · exact h.delivered row hold hsent
    · simp [hunsent row hrow] at hsent
  · rcases List.mem_append.mp hrow with hold | hrow
    · rcases List.mem_append.mp hearlier with hearlier | hearlier
      · exact h.closed row hold earlier hearlier hbefore hsent
      · exact absurd hbefore (hafter hold hearlier)
    · simp [hunsent row hrow] at hsent
  · rcases List.mem_append.mp hrow with hold | hrow
    · rcases List.mem_append.mp hearlier with hearlier | hearlier
      · exact h.preceded row hold earlier hearlier hbefore front back htopic
      · exact absurd hbefore (hafter hold hearlier)
    · -- a new event is not on the topic yet
      have hmem : row.message ∈ s.topic := by
        rw [show s.topic = _ from htopic]
        exact List.mem_append_right _ List.mem_cons_self
      obtain ⟨old, hold, hmessage⟩ := h.known _ hmem
      have hid : old.id = row.id :=
        id_eq_of_json (h.payload old hold) (hpayload row hrow) (congrArg Message.value hmessage)
      rw [List.map_append] at hnodup
      exact absurd hid ((List.nodup_append.mp hnodup).2.2 _ (List.mem_map_of_mem hold) _
        (List.mem_map_of_mem hrow))

theorem inOrder_occur {v : View} (h : InOrder v.state) {tx : Happening}
    (hrules : oneAtATime.events tx v) : InOrder (occur tx v.state) := by
  obtain ⟨hkeys, hlater⟩ := hrules
  rw [occur]
  split
  · next hnodup =>
    refine h.append (fun row hrow ↦ ?_) (fun row hrow ↦ ?_) hnodup
      (List.pairwise_map.mpr (List.pairwise_map.mp hkeys)) fun old hold row hrow hkey ↦ ?_
    · obtain ⟨e, -, rfl⟩ := List.mem_map.mp hrow
      rfl
    · obtain ⟨e, -, rfl⟩ := List.mem_map.mp hrow
      rfl
    · obtain ⟨e, he, rfl⟩ := List.mem_map.mp hrow
      exact hlater e he old hold hkey
  · exact h

/-- What the relay has to know for a call. -/
def Fitting (s : State) : Stmt → Prop
  | .publish msgs => ∃ rows, msgs = rows.map Stored.message ∧ Batch rows s
  | .commit => Committable s
  | _ => True

theorem inOrder_eval {s : State} (h : InOrder s) {stmt : Stmt} (hfitting : Fitting s stmt)
    (choice : Choice) : InOrder (eval stmt choice s).2 := by
  cases stmt with
  | begin =>
    simp only [eval]
    split
    · exact { h with }
    · exact { h with }
  | claimUnsentOutbox limit => exact h
  | publish msgs =>
    obtain ⟨rows, rfl, hbatch⟩ := hfitting
    exact h.publish hbatch choice.picks
  | markOutboxSent ids =>
    simp only [eval]
    split
    · exact h
    · exact { h with }
  | commit =>
    simp only [eval]
    apply Ack.settle_cases
    · exact { h with }
    · exact h.settle hfitting choice.now
  | rollback => exact { h with }

/-! ### The relay -/

/-- Rows have been added; the topic and the open transaction are as they were. -/
structure Extended (s s' : State) : Prop where
  outbox : s.outbox <+: s'.outbox
  topic : s'.topic = s.topic
  marks : s'.marks = s.marks

theorem Batch.extended {rows : List Stored} {s s' : State} (h : Batch rows s)
    (hext : Extended s s') (hs' : InOrder s') : Batch rows s' := by
  refine ⟨h.nodup, fun row hrow ↦ hext.outbox.subset (h.mem row hrow), ?_, h.sorted⟩
  intro row hrow earlier hearlier hbefore hunsent
  obtain ⟨new, hnew⟩ := hext.outbox
  have hincreasing := hs'.increasing
  rw [← hnew] at hearlier hincreasing
  rcases List.mem_append.mp hearlier with hold | hadded
  · exact h.closed row hrow earlier hold hbefore hunsent
  · have hlater := (List.pairwise_append.mp hincreasing).2.2 row (h.mem row hrow) earlier hadded
    exact absurd (hlater hbefore.1.symm) (lt_asymm hbefore.2)

/-- A batch has been claimed by the open transaction. -/
structure Claimed (rows : List Stored) (s : State) : Prop where
  batch : Batch rows s
  marks : s.marks = some []

/-- It has been delivered, too. -/
structure Published (rows : List Stored) (s : State) : Prop extends Claimed rows s where
  delivered : ∀ row ∈ rows, row.message ∈ s.topic

/-- A batch has been delivered and marked. -/
structure Marked (rows : List Stored) (s : State) : Prop where
  batch : Batch rows s
  delivered : ∀ row ∈ rows, row.message ∈ s.topic
  marks : s.marks = some (rows.map fun row ↦ row.id)

section Extended

variable {rows : List Stored} {s s' : State}

theorem Claimed.extended (h : Claimed rows s) (hext : Extended s s') (hs' : InOrder s') :
    Claimed rows s' :=
  ⟨h.batch.extended hext hs', hext.marks.trans h.marks⟩

theorem Published.extended (h : Published rows s) (hext : Extended s s') (hs' : InOrder s') :
    Published rows s' :=
  ⟨h.toClaimed.extended hext hs', fun row hrow ↦ hext.topic ▸ h.delivered row hrow⟩

theorem Marked.extended (h : Marked rows s) (hext : Extended s s') (hs' : InOrder s') :
    Marked rows s' :=
  ⟨h.batch.extended hext hs', fun row hrow ↦ hext.topic ▸ h.delivered row hrow,
    hext.marks.trans h.marks⟩

end Extended

theorem Marked.committable {rows : List Stored} {s : State} (h : Marked rows s) (hs : InOrder s) :
    Committable s := by
  intro row hrow hmark
  rw [h.marks] at hmark ⊢
  obtain ⟨row', hrow', hid⟩ := List.mem_map.mp hmark
  obtain rfl := List.inj_on_of_nodup_map hs.nodup (h.batch.mem row' hrow') hrow hid
  refine ⟨h.delivered row' hrow', fun earlier hearlier hbefore ↦ ?_⟩
  by_cases hsent : earlier.sentAt.isSome
  · exact .inl hsent
  · exact .inr (List.mem_map_of_mem
      (h.batch.closed row' hrow' earlier hearlier hbefore (by simpa using hsent)))

/-- While a relay is the active one, the others only add rows. -/
def turns : Pact Reply Choice State Happening Job where
  inv v := InOrder v.state
  rely pid v v' := active v'.log = some pid → active v.log = some pid ∧ Extended v.state v'.state
  guarantee _ _ := True

section Cover

variable {v : View} {pid : ℕ} {job : Job} {stmt : Stmt} {choice : Choice}

/-- Who makes a call is the active relay. -/
theorem active_called (hrules : oneAtATime.calls pid job stmt choice v) :
    active (relay.called pid job stmt choice v).log = some pid := by
  cases stmt with
  | begin => rfl
  | _ => exact hrules.resolve_left (by rintro ⟨⟩)

theorem turns_allows (hinv : InOrder v.state) (hrules : oneAtATime.calls pid job stmt choice v)
    (hfitting : Fitting v.state stmt) :
    turns.Allows pid v (relay.called pid job stmt choice v) :=
  ⟨inOrder_eval hinv hfitting choice, trivial, fun _ hother hactive ↦
    absurd (Option.some.inj (hactive.symm.trans (active_called hrules))) hother⟩

/-- A call within a transaction, of which the relay knows something. -/
theorem cover_known {Q : State → Prop} {post : Reply stmt → View → Prop} (hbegin : stmt ≠ .begin)
    (h : active v.log = some pid → Q v.state)
    (hstable : ∀ s s', Extended s s' → InOrder s' → Q s → Q s')
    (hfitting : ∀ s, InOrder s → Q s → Fitting s stmt)
    (hpost : ∀ v' choice, InOrder v'.state → Q v'.state →
      post (eval stmt choice v'.state).1 (relay.called pid job stmt choice v')) :
    cover relay oneAtATime turns pid job (call stmt) post v := by
  intro v' hrely hinv choice hrules
  obtain ⟨hactive, hext⟩ := hrely (hrules.resolve_left hbegin)
  have hQ : Q v'.state := hstable _ _ hext hinv (h hactive)
  exact ⟨turns_allows hinv hrules (hfitting _ hinv hQ), hpost v' choice hinv hQ⟩

theorem claimed_eq {limit : ℕ} {s : State} {rows : List Stored}
    (h : (eval (.claimUnsentOutbox limit) choice s).1 = .ok rows) :
    rows = s.oldest choice.rank limit := by
  simp only [eval] at h
  cases hack : choice.ack.check with
  | error text =>
    rw [hack] at h
    cases h
  | ok =>
    rw [hack] at h
    exact (Except.ok.inj h).symm

/-- A publication that is acknowledged has delivered everything. -/
theorem Claimed.publish {rows : List Stored} {s : State} (hs : Claimed rows s)
    (h : (eval (.publish (rows.map Stored.message)) choice s).1 = .ok ()) :
    Published rows (eval (.publish (rows.map Stored.message)) choice s).2 := by
  refine ⟨⟨{ hs.batch with }, hs.marks⟩, fun row hrow ↦ ?_⟩
  simp only [eval] at h ⊢
  split at h
  · next hlength =>
    exact List.mem_append_right _ (mem_taken_of_length hlength (List.mem_map_of_mem hrow))
  · cases h

theorem begun_of_eval {s : State} (h : (eval .begin choice s).1 = .ok ()) :
    (eval .begin choice s).2.marks = some [] := by
  simp only [eval] at h ⊢
  split at h
  · cases h
  · rfl

theorem Published.mark {rows : List Stored} {s : State} {count : ℕ} (hs : Published rows s)
    (h : (eval (.markOutboxSent (rows.map fun row ↦ row.id)) choice s).1 = .ok count) :
    Marked rows (eval (.markOutboxSent (rows.map fun row ↦ row.id)) choice s).2 := by
  simp only [eval] at h ⊢
  split at h
  · cases h
  · exact ⟨{ hs.batch with }, hs.delivered, congrArg (Option.map _) hs.marks⟩

theorem cover_claim {limit : ℕ} {post : Except String (List Stored) → View → Prop}
    (h : active v.log = some pid → v.state.marks = some [])
    (herror : ∀ err v', post (.error err) v')
    (hpost : ∀ rows v', Claimed rows v'.state → post (.ok rows) v') :
    cover relay oneAtATime turns pid job (call (.claimUnsentOutbox limit)) post v := by
  apply cover_known (by rintro ⟨⟩) (Q := fun s ↦ s.marks = some []) h
  · intro s s' hext _ hmarks
    exact hext.marks.trans hmarks
  · intro _ _ _
    trivial
  · intro v₁ choice hinv hmarks
    cases hrows : (eval (.claimUnsentOutbox limit) choice v₁.state).1 with
    | error err => exact herror _ _
    | ok rows =>
      apply hpost
      exact ⟨claimed_eq hrows ▸ batch_oldest hinv hmarks choice.rank limit, hmarks⟩

theorem cover_publish {rows : List Stored} {post : Except String Unit → View → Prop}
    (h : Claimed rows v.state) (herror : ∀ err v', post (.error err) v')
    (hpost : ∀ v', Published rows v'.state → post (.ok ()) v') :
    cover relay oneAtATime turns pid job (call (.publish (rows.map Stored.message))) post v := by
  apply cover_known (by rintro ⟨⟩) fun _ ↦ h
  · intro s s' hext hs' hs
    exact hs.extended hext hs'
  · intro s _ hs
    exact ⟨rows, rfl, hs.batch⟩
  · intro v₁ choice _ hclaimed
    cases hpublished : (eval (.publish (rows.map Stored.message)) choice v₁.state).1 with
    | error err => exact herror _ _
    | ok _ => exact hpost _ (hclaimed.publish hpublished)

theorem cover_mark {rows : List Stored} {post : Except String ℕ → View → Prop}
    (h : Published rows v.state) (herror : ∀ err v', post (.error err) v')
    (hpost : ∀ count v', Marked rows v'.state → post (.ok count) v') :
    cover relay oneAtATime turns pid job (call (.markOutboxSent (rows.map fun row ↦ row.id))) post v := by
  apply cover_known (by rintro ⟨⟩) fun _ ↦ h
  · intro s s' hext hs' hs
    exact hs.extended hext hs'
  · intro _ _ _
    trivial
  · intro v₁ choice _ hdelivered
    cases hmarked : (eval (.markOutboxSent (rows.map fun row ↦ row.id)) choice v₁.state).1 with
    | error err => exact herror _ _
    | ok count => exact hpost _ _ (hdelivered.mark hmarked)

/-- A batch that is drained has been delivered and marked. -/
theorem cover_drainBatch {batch : ℕ} {post : Except String ℕ → View → Prop}
    (h : active v.log = some pid → v.state.marks = some [])
    (herror : ∀ err v', post (.error err) v')
    (hpost : ∀ n v', (∃ rows, Marked rows v'.state) → post (.ok n) v') :
    cover relay oneAtATime turns pid job (drainBatch batch) post v := by
  apply cover_bind.mpr
  apply cover_claim h herror
  intro rows v₁ hclaimed
  simp only
  split
  · next hempty =>
    obtain rfl := List.isEmpty_iff.mp hempty
    exact hpost _ _ ⟨[], hclaimed.batch, List.forall_mem_nil _, hclaimed.marks⟩
  · apply cover_bind.mpr
    apply cover_publish hclaimed herror
    intro v₂ hpublished
    apply cover_bind.mpr
    apply cover_mark hpublished
    · exact herror
    · intro count v₃ hmarked
      exact hpost _ _ ⟨rows, hmarked⟩

theorem cover_execTx {batch : ℕ} {post : Except String Unit → View → Prop}
    (hpost : ∀ result v', post result v') :
    cover relay oneAtATime turns pid job (execTx (drainBatch batch)) post v := by
  apply cover_bind.mpr
  apply cover_single.mpr
  intro v₁ _ hinv₁ choice hrules
  refine ⟨turns_allows hinv₁ hrules trivial, ?_⟩
  split
  · exact hpost _ _
  next hbegun =>
  apply cover_bind.mpr
  apply cover_drainBatch fun _ ↦ begun_of_eval hbegun
  · -- a batch that failed is rolled back
    intro err v₂
    apply cover_bind.mpr
    apply cover_single.mpr
    intro v₃ _ hinv₃ choice₃ hrules₃
    refine ⟨turns_allows hinv₃ hrules₃ trivial, ?_⟩
    split
    · exact hpost _ _
    · exact hpost _ _
  · intro n v₂ hmarked
    apply cover_bind.mpr
    apply cover_known (by rintro ⟨⟩) (Q := fun s ↦ ∃ rows, Marked rows s) fun _ ↦ hmarked
    · rintro s s' hext hs' ⟨rows, hrows⟩
      exact ⟨rows, hrows.extended hext hs'⟩
    · rintro s hs ⟨rows, hrows⟩
      exact hrows.committable hs
    · intro v₃ choice₃ _ _
      split
      · exact hpost _ _
      · exact hpost _ _

theorem cover_run {batch ticks : ℕ} :
    cover relay oneAtATime turns pid job (run batch ticks) (fun _ _ ↦ True) v := by
  induction ticks generalizing v with
  | zero => trivial
  | succ ticks ih => exact cover_bind.mpr (cover_execTx fun _ _ ↦ ih)

end Cover

/-! ### The runs of the relay -/

theorem extended_occur (tx : Happening) (s : State) : Extended s (occur tx s) := by
  rw [occur]
  split
  · exact ⟨List.prefix_append .., rfl, rfl⟩
  · exact ⟨List.prefix_rfl, rfl, rfl⟩

theorem kept_turns : Kept relay oneAtATime turns where
  refl _ _ hactive := ⟨hactive, List.prefix_rfl, rfl, rfl⟩
  trans pid a b c hab hbc hactive := by
    obtain ⟨hactive, hext⟩ := hbc hactive
    obtain ⟨hactive, hext'⟩ := hab hactive
    exact ⟨hactive, hext'.outbox.trans hext.outbox, hext.topic.trans hext'.topic,
      hext.marks.trans hext'.marks⟩
  guarantee_refl _ := trivial
  guarantee_trans _ _ _ _ _ := trivial
  main _ _ _ _ := cover_run
  event tx v hinv hrules :=
    ⟨inOrder_occur hinv hrules, trivial, fun _ hactive ↦ ⟨hactive, extended_occur tx v.state⟩⟩

theorem inOrder_initial : InOrder .initial where
  payload _ hrow := nomatch hrow
  nodup := .nil
  increasing := .nil
  known _ hm := nomatch hm
  delivered _ hrow := nomatch hrow
  closed _ hrow := nomatch hrow
  preceded _ hrow := nomatch hrow

/-- In every run of one relay at a time: a row that is marked as sent is on the topic, and an event is
on the topic only after every earlier event of its aggregate. -/
theorem relay_keeps_order (c : Cluster Reply Choice State Happening Job Unit)
    (hsteps : relay.Steps oneAtATime (.idle .initial) c) :
    (∀ row ∈ c.scene.state.outbox, row.sentAt.isSome → row.message ∈ c.scene.state.topic) ∧
    ∀ row ∈ c.scene.state.outbox, ∀ earlier ∈ c.scene.state.outbox,
      earlier.aggregateID = row.aggregateID → earlier.createdAt < row.createdAt →
      ∀ front back, c.scene.state.topic = front ++ row.message :: back → earlier.message ∈ front := by
  have hidle : Secure relay oneAtATime turns (.idle .initial) := Kept.secure_idle inOrder_initial
  have h := (kept_turns.sound hidle hsteps).1.inv
  exact ⟨h.delivered, fun row hrow earlier hearlier hkey hlt ↦
    h.preceded row hrow earlier hearlier ⟨hkey, hlt⟩⟩

/-- Two events of one aggregate. -/
def sampleEvents : List (Turn Choice Happening Job) :=
  [.occur ⟨1, [⟨⟨"payment.completed", "7", .payment ⟨7, "USDC", 5, 1, 2, .completed⟩⟩, 11, 1⟩]⟩,
    .occur ⟨2, [⟨⟨"payment.canceled", "7", .payment ⟨7, "USDC", 5, 1, 2, .canceled⟩⟩, 12, 2⟩]⟩]

/-- A relay publishes one of the two and is restarted, then it publishes both. -/
def sampleTicks : List (Turn Choice Happening Job) :=
  [.spawn 0 ⟨2, 1⟩] ++ List.replicate 3 (.call 0 ⟨3, .received, fun _ ↦ 0, ["7"]⟩) ++
    [.crash 0, .spawn 1 ⟨2, 1⟩] ++ List.replicate 5 (.call 1 ⟨4, .received, fun _ ↦ 0, ["7", "7"]⟩)

theorem relay_keeps_order_sample :
    ∃ c, relay.Steps oneAtATime (.idle .initial) c ∧ c.scene.state.topic.length = 3 ∧
      ∃ row ∈ c.scene.state.outbox, ∃ earlier ∈ c.scene.state.outbox, earlier.Before row ∧
        ∃ front back, c.scene.state.topic = front ++ row.message :: back ∧
          earlier.message ∈ front := by
  have hrun : (relay.run oneAtATime (.idle .initial) (sampleEvents ++ sampleTicks)).map (fun c ↦
      (c.scene.state.topic.length, c.scene.state.outbox.any fun row ↦ row.sentAt.isSome ∧
        c.scene.state.outbox.any fun earlier ↦
          earlier.aggregateID = row.aggregateID ∧ earlier.createdAt < row.createdAt)) =
      some (3, true) := by
    decide +kernel
  obtain ⟨c, hc, hfinal⟩ := Option.map_eq_some_iff.mp hrun
  obtain ⟨hlength, hany⟩ := Prod.mk.inj hfinal
  obtain ⟨row, hrow, hpair⟩ := List.any_eq_true.mp hany
  obtain ⟨hsent, hany⟩ := of_decide_eq_true hpair
  obtain ⟨earlier, hearlier, hbefore⟩ := List.any_eq_true.mp hany
  have hbefore : earlier.aggregateID = row.aggregateID ∧ earlier.createdAt < row.createdAt :=
    of_decide_eq_true hbefore
  have hsteps := Sharing.steps_of_run hc
  obtain ⟨hdelivered, horder⟩ := relay_keeps_order c hsteps
  obtain ⟨front, back, htopic⟩ := List.append_of_mem (hdelivered row hrow hsent)
  exact ⟨c, hsteps, hlength, row, hrow, earlier, hearlier, hbefore, front, back, htopic,
    horder row hrow earlier hearlier hbefore.1 hbefore.2 front back htopic⟩

end PaymentRail.Outbox.Relay
