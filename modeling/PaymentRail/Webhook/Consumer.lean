import PaymentRail.Webhook.Trace

/-!
# The walk of a consumer

A consumer owns its reader, fetches the messages of the partitions one after the other, fans each of them
out and commits its offset.  One that takes over starts at the committed offsets, below which everything
has been handled.  So every event is fanned out behind the messages before it on its partition.

`tracking` adds to this an invariant of whatever else is said about the service; `kept_tracking` is the
induction over its processes, to which such an invariant contributes what its own calls do.
-/

namespace PaymentRail.Webhook

open Transaction Outbox Table

/-! ### The readers -/

/-- The process has joined the group and got this reader. -/
def Owns (pid reader : ℕ) (log : Log) : Prop :=
  ∃ job choice, (.called pid job .joinGroup choice reader) ∈ log

theorem Owns.mono {pid reader : ℕ} {log log' : Log} (h : Owns pid reader log) (hlog : log <:+ log') :
    Owns pid reader log' := by
  obtain ⟨job, choice, hentry⟩ := h
  exact ⟨job, choice, hlog.subset hentry⟩

/-- Every reader has one owner. -/
structure Tracked (v : View) : Prop where
  traced : Traced v.state
  bounded : ∀ pid reader, Owns pid reader v.log → reader < v.state.readers.length
  unique : ∀ pid other reader, Owns pid reader v.log → Owns other reader v.log → pid = other

/-- The others add events, messages and fan-outs, and leave the readers of a process alone. -/
structure Apart (pid : ℕ) (v v' : View) : Prop where
  grown : Grown v.state v'.state
  log : v.log <:+ v'.log
  reader : ∀ reader, Owns pid reader v.log → v'.state.readers[reader]? = v.state.readers[reader]?

/-- Every reader has one owner, and some other invariant holds. -/
def tracking (inv : View → Prop) : Pact Reply Choice State Happening Job where
  inv v := Tracked v ∧ inv v
  rely := Apart
  guarantee _ _ := True

/-- A process fetches from its own reader, and its other calls are sound. -/
structure Timely (pid : ℕ) (v : View) (stmt : Stmt) : Prop where
  owns : ∀ reader, stmt = .fetchMessage reader → Owns pid reader v.log
  sound : Sound v.state stmt

section Readers

variable {p : Platform} {v : View} {pid : ℕ} {job : Job} {stmt : Stmt} {choice : Choice}

/-- A reader is new when it is joined. -/
theorem owns_called {other reader : ℕ}
    (h : Owns other reader ((webhookd p).called pid job stmt choice v).log) :
    Owns other reader v.log ∨
      other = pid ∧ stmt = .joinGroup ∧ reader = v.state.readers.length := by
  obtain ⟨job', choice', hentry⟩ := h
  rcases List.mem_cons.mp hentry with hnew | hold
  · cases hnew
    exact .inr ⟨rfl, rfl, rfl⟩
  · exact .inl ⟨job', choice', hold⟩

/-- What a call does to the readers. -/
theorem readers_called (htimely : Timely pid v stmt) (hinv : Tracked v) :
    v.state.readers.length ≤ (eval stmt choice v.state).2.readers.length ∧
    ∀ other reader, other ≠ pid → Owns other reader v.log →
      (eval stmt choice v.state).2.readers[reader]? = v.state.readers[reader]? := by
  have heffect := effect_eval stmt choice v.state
  generalize (eval stmt choice v.state).2 = s' at heffect ⊢
  cases heffect with
  | join =>
    refine ⟨by simp, fun other reader _ howns ↦ ?_⟩
    exact List.getElem?_append_left (hinv.bounded other reader howns)
  | fetch reader position =>
    refine ⟨by simp [State.advance], fun other reader' hother howns ↦ ?_⟩
    have hne : reader ≠ reader' := fun heq ↦
      hother (hinv.unique other pid reader' howns (heq ▸ htimely.owns reader rfl))
    exact List.getElem?_set_ne hne
  | _ => exact ⟨le_rfl, fun _ _ _ _ ↦ rfl⟩

theorem tracked_called (hinv : Tracked v) (htimely : Timely pid v stmt) :
    Tracked ((webhookd p).called pid job stmt choice v) := by
  have hlength : v.state.readers.length ≤ (eval stmt choice v.state).2.readers.length :=
    (readers_called htimely hinv).1
  refine ⟨hinv.traced.effect (effect_eval stmt choice v.state) htimely.sound, ?_, ?_⟩
  · intro other reader howns
    rcases owns_called howns with hold | ⟨-, rfl, rfl⟩
    · exact (hinv.bounded other reader hold).trans_le hlength
    · simp [webhookd, Sharing.called, eval]
  · intro first second reader hfirst hsecond
    rcases owns_called hfirst with hold | ⟨hpid, -, hreader⟩
    · rcases owns_called hsecond with hold' | ⟨-, -, hreader'⟩
      · exact hinv.unique first second reader hold hold'
      · exact absurd hreader' (hinv.bounded first reader hold).ne
    · rcases owns_called hsecond with hold' | ⟨hpid', -, -⟩
      · exact absurd hreader (hinv.bounded second reader hold').ne
      · exact hpid.trans hpid'.symm

theorem tracking_allows {inv : View → Prop} (hinv : (tracking inv).inv v) (htimely : Timely pid v stmt)
    (hcalled : inv ((webhookd p).called pid job stmt choice v)) :
    (tracking inv).Allows pid v ((webhookd p).called pid job stmt choice v) where
  inv := ⟨tracked_called hinv.1 htimely, hcalled⟩
  guarantee := trivial
  rely other hother :=
    { grown := (effect_eval stmt choice v.state).grown
      log := List.suffix_cons ..
      reader := fun reader howns ↦ (readers_called htimely hinv.1).2 other reader hother howns }

/-! ### Handled messages -/

/-- A process knows the position of its reader, and all before another position is handled. -/
structure Reads (pid reader : ℕ) (position handled : ℕ → ℕ) (v : View) : Prop where
  owns : Owns pid reader v.log
  position : v.state.readers[reader]? = some position
  handled : Below v.state handled

variable {reader : ℕ} {position handled : ℕ → ℕ}

theorem Reads.apart {v' : View} (h : Reads pid reader position handled v) (hapart : Apart pid v v') :
    Reads pid reader position handled v' :=
  ⟨h.owns.mono hapart.log, (hapart.reader reader h.owns).trans h.position,
    hapart.grown.below h.handled⟩

theorem Effect.readers_eq {s s' : State} (h : Effect choice s stmt s') (hjoin : stmt ≠ .joinGroup)
    (hfetch : ∀ reader, stmt ≠ .fetchMessage reader) : s'.readers = s.readers := by
  cases h with
  | join => exact absurd rfl hjoin
  | fetch reader => exact absurd rfl (hfetch reader)
  | _ => rfl

theorem Reads.called (h : Reads pid reader position handled v) (hjoin : stmt ≠ .joinGroup)
    (hfetch : ∀ reader, stmt ≠ .fetchMessage reader) :
    Reads pid reader position handled ((webhookd p).called pid job stmt choice v) := by
  have heffect := effect_eval stmt choice v.state
  refine ⟨h.owns.mono (List.suffix_cons ..), ?_, heffect.grown.below h.handled⟩
  rw [← h.position, ← heffect.readers_eq hjoin hfetch]
  rfl

/-- One more message has been handled. -/
theorem Reads.advance (h : Reads pid reader position handled v) {partition : ℕ} {value : Json}
    (hvalue : (v.state.topic partition)[handled partition]? = some value)
    (hhandled : Handled v.state value) :
    Reads pid reader position (Function.update handled partition (handled partition + 1)) v := by
  refine ⟨h.owns, h.position, fun other offset hoffset ↦ ?_⟩
  by_cases hother : other = partition
  · subst hother
    rw [Function.update_self] at hoffset
    rcases Nat.lt_succ_iff_lt_or_eq.mp hoffset with hlt | rfl
    · exact h.handled other offset hlt
    · exact ⟨value, hvalue, hhandled⟩
  · rw [Function.update_of_ne hother] at hoffset
    exact h.handled other offset hoffset

/-- The answer to a fetch is the next message of a partition. -/
theorem fetched_of_eval {s : State} {m : Fetched} (hposition : s.readers[reader]? = some position)
    (h : (eval (.fetchMessage reader) choice s).1 = .ok m) :
    m.offset = position m.partition ∧ (s.topic m.partition)[m.offset]? = some m.value ∧
      (eval (.fetchMessage reader) choice s).2.readers[reader]? =
        some (Function.update position m.partition (m.offset + 1)) := by
  simp only [eval, hposition] at h ⊢
  split at h
  · cases h
  · next value hvalue =>
    obtain ⟨rfl, hstate⟩ := settle_ok h
    refine ⟨rfl, hvalue, ?_⟩
    simp only [hstate]
    exact List.getElem?_set_self (List.getElem?_eq_some_iff.mp hposition).1

/-- A fan-out that is answered has been recorded. -/
theorem fanned_of_eval {params : FanOutDeliveryParams} {s : State} {count : ℕ}
    (h : (eval (.fanOutDelivery params) choice s).1 = .ok count) :
    params.eventID ∈ (eval (.fanOutDelivery params) choice s).2.fanned.map Prod.fst := by
  simp only [eval] at h ⊢
  split at h
  · next hnodup =>
    rw [if_pos hnodup, (settle_ok h).2, State.fanOut, List.map_append]
    exact List.mem_append_right _ List.mem_cons_self
  · cases h

/-- A fan-out that fails is not taken for poison. -/
theorem cause_of_fanOut {params : FanOutDeliveryParams} {s : State} {err : Err}
    (h : (eval (.fanOutDelivery params) choice s).1 = .error err) : err.cause = none := by
  simp only [eval] at h
  split at h
  · exact settle_error h
  · exact congrArg Fault.cause (Except.error.inj h).symm

end Readers

/-! ### The consumer -/

/-- A message of the event stands on a partition behind messages that have been fanned out. -/
structure InTurn (s : State) (done : List UUID) (id : UUID) (partition offset : ℕ) : Prop where
  own : ∃ row ∈ s.emitted, row.id = id ∧ ∃ value, message row = some value ∧
    (s.topic partition)[offset]? = some value
  behind : ∀ earlier < offset, ∃ value, (s.topic partition)[earlier]? = some value ∧
    ∃ row ∈ s.emitted, message row = some value ∧ row.id ∈ done

/-- An event is fanned out as its message says, and it is the next one of a partition. -/
def NextIn (s : State) : Stmt → Prop
  | .fanOutDelivery params =>
    (∃ row ∈ s.emitted, row.id = params.eventID ∧ row.eventType = params.eventType ∧
      message row = some params.payload) ∧
    ∃ partition offset, InTurn s (s.fanned.map Prod.fst) params.eventID partition offset
  | _ => True

theorem nextIn_of_delivers {stmt : Stmt} (h : stmt.Delivers) (s : State) : NextIn s stmt := by
  cases stmt <;> trivial

/-- The invariant survives the calls of a consumer that fans out the next event of a partition. -/
def Consumed (p : Platform) (inv : View → Prop) : Prop :=
  ∀ {v : View} {pid : ℕ} {job : Job} {stmt : Stmt} {choice : Choice}, inv v → stmt.Consumes →
    NextIn v.state stmt → inv ((webhookd p).called pid job stmt choice v)

section Consumer

variable {p : Platform} {rules : Rules Reply Choice State Happening Job} {inv : View → Prop}
  {v : View} {pid reader : ℕ} {job : Job} {position handled : ℕ → ℕ}

/-- The message after the handled ones is the next one. -/
theorem Reads.inTurn (h : Reads pid reader position handled v) {row : OutboxRow} {partition : ℕ}
    {value : Json} (hrow : row ∈ v.state.emitted) (hmessage : message row = some value)
    (hvalue : (v.state.topic partition)[handled partition]? = some value) :
    InTurn v.state (v.state.fanned.map Prod.fst) row.id partition (handled partition) :=
  ⟨⟨row, hrow, rfl, value, hmessage, hvalue⟩, h.handled partition⟩

/-- The message of an emitted event is handled, or the error is not poison. -/
theorem cover_handle (hconsumed : Consumed p inv) {event : Event} {id : UUID} {now : Time}
    {value : Json} {partition : ℕ} {post : Except Err Unit → View → Prop}
    (hrow : event.row id now ∈ v.state.emitted)
    (hmessage : message (event.row id now) = some value) (h : Reads pid reader position handled v)
    (hvalue : (v.state.topic partition)[handled partition]? = some value)
    (hok : ∀ v' : View, Grown v.state v'.state → Reads pid reader position handled v' →
      Handled v'.state value → post (.ok ()) v')
    (herr : ∀ err v', err.cause = none → post (.error err) v') :
    cover (webhookd p) rules (tracking inv) pid job (handle value) post v := by
  rw [handle_message hmessage]
  apply cover_bind.mpr
  apply cover_single.mpr
  intro v' hapart hinv choice _
  have hrow' := hapart.grown.emitted hrow
  have hturn := (h.apart hapart).inTurn hrow' hmessage (hapart.grown.getElem?_topic hvalue)
  have hnext : NextIn v'.state (.fanOutDelivery ⟨id, event.type, value⟩) :=
    ⟨⟨_, hrow', rfl, rfl, hmessage⟩, partition, _, hturn⟩
  refine ⟨tracking_allows hinv ⟨by rintro _ ⟨⟩, _, hrow', rfl, rfl⟩
    (hconsumed hinv.2 trivial hnext), ?_⟩
  have hgrown := hapart.grown.trans
    (effect_eval (.fanOutDelivery ⟨id, event.type, value⟩) choice v'.state).grown
  split
  · next err hreply => exact herr _ _ ((Fault.wrap_cause ..).trans (cause_of_fanOut hreply))
  · next count hreply =>
    have hreads : Reads pid reader position handled
        ((webhookd p).called pid job (.fanOutDelivery ⟨id, event.type, value⟩) choice v') :=
      (h.apart hapart).called (by rintro ⟨⟩) (by rintro _ ⟨⟩)
    exact hok _ hgrown hreads ⟨_, hgrown.emitted hrow, hmessage, fanned_of_eval hreply⟩

/-- A reader commits up to the messages that have been handled. -/
theorem cover_commit (hconsumed : Consumed p inv) {m : Fetched} {post : Except Err Unit → View → Prop}
    (h : Reads pid reader position handled v) (hm : handled m.partition = m.offset + 1)
    (hok : ∀ v', Reads pid reader position handled v' → post (.ok ()) v')
    (herr : ∀ err v', post (.error err) v') :
    cover (webhookd p) rules (tracking inv) pid job (call (.commitMessages reader m)) post v := by
  apply cover_single.mpr
  intro v' hapart hinv choice _
  have h' := h.apart hapart
  have hsound : Sound v'.state (.commitMessages reader m) := by
    intro offset hlt
    apply h'.handled m.partition offset
    rw [hm]
    exact hlt
  refine ⟨tracking_allows hinv ⟨by rintro _ ⟨⟩, hsound⟩ (hconsumed hinv.2 trivial trivial), ?_⟩
  have hreads : Reads pid reader position handled
      ((webhookd p).called pid job (.commitMessages reader m) choice v') :=
    h'.called (by rintro ⟨⟩) (by rintro _ ⟨⟩)
  cases ((webhookd p).eval (.commitMessages reader m) choice v'.state).1 with
  | error err => exact herr err _
  | ok => exact hok _ hreads

/-- A round fetches a message, has it handled and commits it, and the next round starts behind it. -/
theorem cover_consume (hconsumed : Consumed p inv) {rounds : ℕ}
    (h : Reads pid reader position position v) :
    cover (webhookd p) rules (tracking inv) pid job (consume reader rounds) (fun _ _ ↦ True) v := by
  induction rounds generalizing v position with
  | zero => trivial
  | succ rounds ih =>
    apply cover_bind.mpr
    apply cover_single.mpr
    intro v₁ hapart₁ hinv₁ choice _
    have h₁ := h.apart hapart₁
    have htimely : Timely pid v₁ (.fetchMessage reader) :=
      ⟨fun other hother ↦ Stmt.fetchMessage.inj hother ▸ h₁.owns, trivial⟩
    refine ⟨tracking_allows hinv₁ htimely (hconsumed hinv₁.2 trivial trivial), ?_⟩
    split
    · trivial
    · next m hm =>
      obtain ⟨hoffset, hvalue, hposition⟩ := fetched_of_eval h₁.position hm
      obtain ⟨row, hrow, hmessage⟩ :=
        hinv₁.1.traced.topic m.partition m.value (List.mem_of_getElem? hvalue)
      obtain ⟨event, id, now, rfl, -⟩ := hinv₁.1.traced.emitted row hrow
      have hgrown := (effect_eval (.fetchMessage reader) choice v₁.state).grown
      have h₂ : Reads pid reader (Function.update position m.partition (m.offset + 1)) position
          ((webhookd p).called pid job (.fetchMessage reader) choice v₁) :=
        ⟨h₁.owns.mono (List.suffix_cons ..), hposition, hgrown.below h₁.handled⟩
      have hvalue₂ := hgrown.getElem?_topic hvalue
      rw [hoffset] at hvalue₂
      apply cover_bind.mpr
      apply cover_handle hconsumed (hgrown.emitted hrow) hmessage h₂ hvalue₂
      · intro v₃ hgrown₃ h₃ hhandled
        rw [hoffset] at h₃
        have hcommitted : Function.update position m.partition (position m.partition + 1) m.partition =
            m.offset + 1 := by
          rw [Function.update_self, hoffset]
        apply cover_bind.mpr
        apply cover_commit hconsumed (h₃.advance (hgrown₃.getElem?_topic hvalue₂) hhandled) hcommitted
        · intro v₄ h₄
          exact ih h₄
        · intro err v₄
          trivial
      · intro err v₃ hcause
        rw [skippable, Fault.is, hcause]
        trivial

theorem cover_consumer (hconsumed : Consumed p inv) {rounds : ℕ} :
    cover (webhookd p) rules (tracking inv) pid job (main p (.consumer rounds)) (fun _ _ ↦ True) v := by
  apply cover_bind.mpr
  apply cover_single.mpr
  intro v' _ hinv choice _
  refine ⟨tracking_allows hinv ⟨by rintro _ ⟨⟩, trivial⟩ (hconsumed hinv.2 trivial trivial), ?_⟩
  have hreads : Reads pid v'.state.readers.length v'.state.committed v'.state.committed
      ((webhookd p).called pid job .joinGroup choice v') :=
    ⟨⟨_, _, List.mem_cons_self⟩, List.getElem?_concat_length,
      (effect_eval .joinGroup choice v'.state).grown.below hinv.1.traced.committed⟩
  exact cover_consume hconsumed hreads

end Consumer

/-! ### The other processes, and events from elsewhere -/

theorem timely_of_delivers {stmt : Stmt} (h : stmt.Delivers) (pid : ℕ) (v : View) :
    Timely pid v stmt := by
  constructor
  · rintro reader rfl
    cases h
  · cases stmt <;> trivial

theorem tracked_occurred {p : Platform} {v : View} {event : Happening} (hinv : Tracked v) :
    Tracked ((webhookd p).occurred event v) := by
  have howns {pid reader : ℕ} (h : Owns pid reader ((webhookd p).occurred event v).log) :
      Owns pid reader v.log := by
    obtain ⟨job, choice, hentry⟩ := h
    rcases List.mem_cons.mp hentry with hnew | hold
    · cases hnew
    · exact ⟨job, choice, hold⟩
  refine ⟨hinv.traced.occur event, fun pid reader h ↦ ?_, fun pid other reader h h' ↦
    hinv.unique pid other reader (howns h) (howns h')⟩
  rw [show ((webhookd p).occurred event v).state.readers = _ from readers_occur event v.state]
  exact hinv.bounded pid reader (howns h)

/-- The worker, if its calls keep the invariant. -/
theorem cover_worker {p : Platform} {rules : Rules Reply Choice State Happening Job} {inv : View → Prop}
    {pid : ℕ} {job : Job} {v : View}
    (hdelivered : ∀ {v stmt choice}, inv v → Stmt.Delivers stmt →
      inv ((webhookd p).called pid job stmt choice v)) :
    cover (webhookd p) rules (tracking inv) pid job (drainOnce p) (fun _ _ ↦ True) v := by
  apply cover_of_issues (issues_drainOnce p)
  intro stmt choice v hstmt hinv _
  exact tracking_allows hinv (timely_of_delivers hstmt pid v) (hdelivered hinv.2 hstmt)

theorem kept_tracking {p : Platform} {rules : Rules Reply Choice State Happening Job}
    {inv : View → Prop}
    (hworker : ∀ pid job v, cover (webhookd p) rules (tracking inv) pid job (drainOnce p)
      (fun _ _ ↦ True) v)
    (hconsumed : Consumed p inv)
    (hreplayed : ∀ {v pid job choice subscriptionID}, inv v →
      inv ((webhookd p).called pid job (.replayDeadLettered subscriptionID) choice v))
    (hoccurred : ∀ {event v}, inv v → rules.events event v → inv ((webhookd p).occurred event v)) :
    Kept (webhookd p) rules (tracking inv) where
  refl _ v := ⟨.refl v.state, List.suffix_rfl, fun _ _ ↦ rfl⟩
  trans pid a b c hab hbc :=
    { grown := hab.grown.trans hbc.grown
      log := hab.log.trans hbc.log
      reader := fun reader howns ↦
        (hbc.reader reader (howns.mono hab.log)).trans (hab.reader reader howns) }
  guarantee_refl _ := trivial
  guarantee_trans _ _ _ _ _ := trivial
  main pid job v _ := by
    cases job with
    | worker => exact hworker pid .worker v
    | consumer rounds => exact cover_consumer hconsumed
    | replayWebhook subscriptionID =>
      apply cover_of_issues (issues_replayWebhook p subscriptionID)
      rintro stmt choice v rfl hinv _
      exact tracking_allows hinv ⟨by rintro _ ⟨⟩, trivial⟩ (hreplayed hinv.2)
  event event v hinv hrules := by
    refine ⟨⟨tracked_occurred hinv.1, hoccurred hinv.2 hrules⟩, trivial, fun pid ↦ ?_⟩
    exact ⟨grown_occur event v.state, List.suffix_cons .., fun reader _ ↦
      congrArg (·[reader]?) (readers_occur event v.state)⟩

theorem tracked_idle : Tracked ⟨.initial, []⟩ := by
  refine ⟨traced_initial, ?_, ?_⟩
  · rintro _ _ ⟨_, _, hentry⟩
    cases hentry
  · rintro _ _ _ ⟨_, _, hentry⟩
    cases hentry

/-- What is tracked and the invariant hold in every run. -/
theorem tracking_of_steps {p : Platform} {rules : Rules Reply Choice State Happening Job}
    {inv : View → Prop} (hkept : Kept (webhookd p) rules (tracking inv)) (hidle : inv ⟨.initial, []⟩)
    {c : Cluster Reply Choice State Happening Job (Except Err Unit)}
    (hsteps : (webhookd p).Steps rules (.idle .initial) c) : Tracked c.scene ∧ inv c.scene := by
  have hsecure : Secure (webhookd p) rules (tracking inv) (.idle .initial) :=
    Kept.secure_idle ⟨tracked_idle, hidle⟩
  exact (hkept.sound hsecure hsteps).1.inv

end PaymentRail.Webhook
