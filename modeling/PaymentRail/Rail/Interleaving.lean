import PaymentRail.Rail.Commits

/-!
# The calls of the payment rail among each other

Each call is verified against the interference of all the others: whatever they commit between two
of its statements, what it commits itself is one of the cases of `Committed`.  `discipline` collects
the verification, and with it the commits of every interleaving are a serial run (`serial`).
-/

namespace PaymentRail.Rail

open Transaction Ledger Chain Sink Payments

variable (rt : Audit.Runtime) (allowed : Stmt → Ambient → Db → Prop)

/-- What a call has to have reached when it commits. -/
def Post (call : Call) : Except Err Result → List Write → List Lock → Db → Prop :=
  OnSuccess fun _ writes locks db ↦ Committed rt allowed db call writes ∧ Guarded writes locks

variable {rt allowed} {db : Db}

theorem settlement_view_entry (entry : Entry) (je : JournalEntry) (tx : TxHash) :
    (queries.view db (entry.writes je)).settlement tx = db.settlement tx := by
  rw [view_entry_writes]
  rfl

theorem payment_view_entry (entry : Entry) (je : JournalEntry) (pid : UUID) :
    (queries.view db (entry.writes je)).payment pid = db.payment pid := by
  rw [view_entry_writes]
  rfl

/-- The end of every transition: with its entry posted and its row flipped, the announcement is all
that is left, and what the call is about to commit stays so. -/
theorem wp_announce_transition {call : Call} {event : Outbox.Event} {entry : Audit.Entry}
    {first : List Write} {flip : Write} {locks flipLocks : List Lock}
    (hguarded : Guarded first locks) (hflip : ∀ lock ∈ flip.locks, lock ∈ flipLocks)
    (hcommitted : ∀ sent logged, Audit.Announced rt event entry sent logged →
      Committed rt allowed db call (first ++ transition flip sent logged)) :
    wp queries allowed Rely (Audit.announce rt event entry) (OnSuccess fun _ writes held after ↦
      Committed rt allowed after call writes ∧ Guarded writes held)
      (first ++ [flip]) (locks ++ flipLocks) db := by
  refine Audit.wp_announce fun sent logged more after hannounced hafter hmore ↦ ?_
  have hwrites : first ++ [flip] ++ [.insertOutboxEvent sent, .insertAuditEntry logged] =
      first ++ transition flip sent logged := by simp [transition]
  have hall : Guarded (first ++ transition flip sent logged) (locks ++ flipLocks ++ more) := by
    refine (hguarded.mono (by simp +contextual)).append fun write hwrite lock hlock ↦ ?_
    rcases List.mem_cons.mp hwrite with rfl | hrest
    · exact List.mem_append_left _ (List.mem_append_right _ (hflip lock hlock))
    · exact List.mem_append_right _ (hmore write hrest lock hlock)
  rw [hwrites]
  exact ⟨(hcommitted sent logged hannounced).stable hall hafter, hall⟩

theorem wp_create (input : CreateInput) :
    wp queries allowed Rely (create rt input) (OnSuccess fun _ writes locks after ↦
      Committed rt allowed after (.create input) writes ∧ Guarded writes locks) [] [] db := by
  rw [create, wp_stmt_bind]
  intro named first _ _
  change wp queries allowed Rely (postWithin (paymentEntry named.uuid input) >>= _ : DbTx _) _ [] []
    first
  rw [wp_success_bind]
  refine wp_postWithin fun je locks posted _ hposting hguarded ↦ ?_
  rw [wp_stmt_bind]
  intro clock inserted hinserted _
  rw [wp_success_bind, wp_orFail]
  intro payment hpayment
  obtain ⟨hrow, hfresh, heval⟩ := eval_insertPayment hpayment
  rw [payment_view_entry] at hfresh
  rw [heval, wp_success_bind]
  refine wp_announce_transition hguarded (by rw [hrow]; simp [Write.locks, Effect.wrote])
    fun sent logged hannounced ↦ ?_
  exact .created input named.uuid je payment sent logged (hposting.stable hguarded hinserted) hfresh
    (by rw [hrow]; rfl) hannounced

/-- A payment that is still completed has not changed. -/
theorem Evolves.eq_of_completed {pay later : Payment} (h : pay.Evolves later)
    (hcompleted : later.status = .completed) : later = pay := by
  rcases h with rfl | ⟨reversal, rfl⟩
  · rfl
  · cases hcompleted

theorem wp_cancel (pid : UUID) :
    wp queries allowed Rely (cancel rt pid) (OnSuccess fun _ writes locks after ↦
      Committed rt allowed after (.cancel pid) writes ∧ Guarded writes locks) [] [] db := by
  rw [cancel, wp_stmt_bind]
  intro _ first _ _
  rw [wp_success_bind, wp_orFail]
  intro payment hread
  rw [wp_success_bind, wp_success_ofExcept]
  intro _ hcheck
  rw [wp_success_bind]
  refine wp_postWithin fun je locks posted hposted hposting hguarded ↦ ?_
  rw [wp_stmt_bind]
  intro _ flipped hflipped _
  rw [wp_success_bind, wp_orFail]
  intro canceled hcanceled
  obtain ⟨before, hbefore, hcompleted, rfl, heval⟩ := eval_cancelPayment hcanceled
  rw [payment_view_entry] at hbefore
  -- the row that is flipped is the row that was read
  obtain rfl : before = payment := by
    have hrow : first.payment pid = some payment := eq_some_of_one hread
    obtain ⟨later, hlater, hevolves⟩ :=
      (hposted.trans (hflipped.anti (by simp))).payment pid payment hrow
    obtain rfl := Option.some.inj (hbefore.symm.trans hlater)
    exact Evolves.eq_of_completed hevolves hcompleted
  rw [heval, wp_success_bind]
  exact wp_announce_transition hguarded (by simp [Write.locks, Effect.wrote])
    fun sent logged hannounced ↦ .canceled pid before je sent logged hbefore hcompleted
      (hposting.stable hguarded hflipped) hannounced

theorem wp_link (paymentID : UUID) (tx : TxHash) :
    wp queries allowed Rely (link paymentID tx) (OnSuccess fun _ writes locks after ↦
      Committed rt allowed after (.link paymentID tx) writes ∧ Guarded writes locks) [] [] db := by
  rw [link, wp_stmt_bind]
  intro clock after _ _
  rcases hreply : (queries.eval (.insertSettlement paymentID tx) clock
    (queries.view after [])).reply with err | row
  · rw [eval_insertSettlement_failed hreply]
    have hnothing : ∀ seen, Committed rt allowed seen (.link paymentID tx) [] ∧ Guarded [] [] :=
      fun seen ↦ ⟨.nothing _, by simp [Guarded]⟩
    simp only [linkOutcome, Effect.failed, List.append_nil]
    split
    · trivial
    · rw [wp_stmt_bind]
      intro _ seen _ _
      rw [wp_success_bind, wp_orFail]
      intro existing _
      split
      · trivial
      · exact hnothing seen
  · obtain ⟨hpending, hfresh, hpayment, heval⟩ := eval_insertSettlement hreply
    rw [heval]
    refine ⟨.linked paymentID tx row hfresh hpayment hpending, ?_⟩
    rw [hpending]
    simp [Guarded, Effect.wrote, Write.locks]

/-- What follows a guarded `UPDATE` of a settlement row: the announcement of the flip, or the commit
of what was written before it. -/
theorem wp_afterMark {call : Call} {context type : String} {tx : TxHash}
    {data : Settlement → EventData} {guard : SettlementStatus → Bool} {settleEntryID : Option UUID}
    {change : Settlement → Settlement} {flip : Write} {first : List Write} {locks : List Lock}
    (hguarded : Guarded first locks) (hlocks : flip.locks = [.settlement tx])
    (hflipped : ∀ row sent logged, (queries.view db first).settlement tx = some row →
      guard row.status = true →
      Audit.Announced rt (Sink.outboxEvent type tx (data (change row)))
        (Sink.auditEntry type tx (data (change row))) sent logged →
      Committed rt allowed db call (first ++ transition flip sent logged))
    (hunmarked : (∀ row, (queries.view db first).settlement tx = some row →
      guard row.status = false) → Committed rt allowed db call first) :
    let mark := markSettlement (queries.view db first) tx guard settleEntryID change flip
    wp queries allowed Rely (afterMark rt context type tx data mark.reply)
      (OnSuccess fun _ writes held after ↦
        Committed rt allowed after call writes ∧ Guarded writes held)
      (first ++ mark.writes) (locks ++ mark.locks) db := by
  intro mark
  rcases hreply : mark.reply with err | after
  · unfold afterMark
    dsimp only
    split
    · next hnoRows =>
      obtain ⟨hguard, heval⟩ := markSettlement_noRows hreply hnoRows
      have hmark : mark = Effect.failed err := heval
      simp only [hmark, Effect.failed, List.append_nil]
      exact ⟨hunmarked hguard, hguarded⟩
    · trivial
  · obtain ⟨row, hrow, hguard, rfl, heval⟩ := markSettlement_ok hreply
    have hmark : mark = Effect.wrote (change row) flip [.settlement tx] := heval
    simp only [hmark, Effect.wrote]
    exact wp_announce_transition hguarded (by simp [hlocks])
      fun sent logged hannounced ↦ hflipped row sent logged hrow hguard hannounced

/-- What a row resolves to once its transaction has locked its accounts: the payment may have been
canceled since, which changes none of the columns the entry is made from. -/
theorem Resolved.later {db' : Db} {tx : TxHash} {row : Settlement} {pay : Payment} {house : Account}
    {locks : List Lock} (h : Resolved db tx row pay house) (hrely : Rely locks db db') :
    ∃ row' pay', Resolved db' tx row' pay' house ∧ row'.paymentID = row.paymentID ∧
      pay'.asset = pay.asset ∧ pay'.amount = pay.amount ∧
      (∀ blockHash, settleEntry row.paymentID pay' house blockHash =
        settleEntry row.paymentID pay house blockHash) ∧
      ∀ blockHash, reverseEntry row.paymentID pay' house blockHash =
        reverseEntry row.paymentID pay house blockHash := by
  obtain ⟨row', pay', hresolved, hrow, hpaid⟩ := h.evolve hrely
  refine ⟨row', pay', hresolved, hrow.2.1, ?_⟩
  rcases hpaid with rfl | ⟨reversal, rfl⟩ <;> exact ⟨rfl, rfl, fun _ ↦ rfl, fun _ ↦ rfl⟩

/-- The confirmation of a row that resolved to a payment and its clearing account. -/
theorem wp_settle {st : Status} {sett row : Settlement} {pay : Payment} {house : Account}
    (hphase : st.phase = .confirmed) (hresolved : Resolved db st.txHash row pay house)
    (hlink : row.paymentID = sett.paymentID) :
    wp queries allowed Rely (settle rt sett pay house st) (OnSuccess fun _ writes locks after ↦
      Committed rt allowed after (.onStatus st) writes ∧ Guarded writes locks) [] [] db := by
  unfold settle
  split
  · exact ⟨.nothing _, by simp [Guarded]⟩
  rw [wp_success_bind]
  refine wp_postWithin fun je locks posted hposted hposting hguarded ↦ ?_
  rw [wp_stmt_bind]
  intro clock marked hmarked hallowed
  have hposting := hposting.stable hguarded hmarked
  obtain ⟨row', pay', hresolved, hrow, hasset, hamount, hentry, -⟩ :=
    hresolved.later (hposted.trans (hmarked.anti (by simp)))
  rw [← hlink, ← hentry, ← hrow] at hposting hguarded hallowed ⊢
  rw [← hasset, ← hamount]
  refine wp_afterMark hguarded rfl (fun found sent logged hfound hguard hannounced ↦ ?_)
    fun hguard ↦ ?_
  · rw [settlement_view_entry] at hfound
    replace hfound := hresolved.linked.symm.trans hfound
    obtain rfl := Option.some.inj hfound
    exact .settled st row' pay' house je sent logged hphase hresolved hguard hposting hannounced
  · exact .settledUnmarked st row' pay' house je hphase hresolved hposting
      ⟨clock, _, hallowed, hguard⟩

/-- The reorg of a row that resolved to a payment and its clearing account. -/
theorem wp_reverse {st : Status} {sett row : Settlement} {pay : Payment} {house : Account}
    (hphase : st.phase = .reorged) (hresolved : Resolved db st.txHash row pay house)
    (hlink : row.paymentID = sett.paymentID) :
    wp queries allowed Rely (Sink.reverse rt sett pay house st) (OnSuccess fun _ writes locks after ↦
      Committed rt allowed after (.onStatus st) writes ∧ Guarded writes locks) [] [] db := by
  unfold Sink.reverse
  split
  · exact ⟨.nothing _, by simp [Guarded]⟩
  rw [wp_success_bind]
  refine wp_postWithin fun je locks posted hposted hposting hguarded ↦ ?_
  rw [wp_stmt_bind]
  intro clock marked hmarked hallowed
  have hposting := hposting.stable hguarded hmarked
  obtain ⟨row', pay', hresolved, hrow, hasset, hamount, -, hentry⟩ :=
    hresolved.later (hposted.trans (hmarked.anti (by simp)))
  rw [← hlink, ← hentry, ← hrow] at hposting hguarded hallowed ⊢
  rw [← hasset, ← hamount]
  refine wp_afterMark hguarded rfl (fun found sent logged hfound hguard hannounced ↦ ?_)
    fun hguard ↦ ?_
  · rw [settlement_view_entry] at hfound
    replace hfound := hresolved.linked.symm.trans hfound
    obtain rfl := Option.some.inj hfound
    exact .reversed st row' pay' house je sent logged hphase hresolved (of_decide_eq_true hguard)
      hposting hannounced
  · exact .reversedUnmarked st row' pay' house je hphase hresolved hposting
      ⟨clock, _, hallowed, fun found hfound ↦ of_decide_eq_false (hguard found hfound)⟩

theorem wp_finalize {st : Status} (hphase : st.phase = .finalized) :
    wp queries allowed Rely (finalize rt st) (OnSuccess fun _ writes locks after ↦
      Committed rt allowed after (.onStatus st) writes ∧ Guarded writes locks) [] [] db := by
  rw [finalize, wp_stmt_bind]
  intro _ marked _ _
  refine wp_afterMark (by simp [Guarded]) rfl (fun row sent logged hrow hguard hannounced ↦ ?_)
    fun _ ↦ .nothing _
  exact .finalized st row sent logged hphase hrow (of_decide_eq_true hguard) hannounced

/-- A tracked row leads to its payment and its clearing account, read one after the other. -/
theorem wp_resolve {st : Status} {sett : Settlement} (hrow : db.settlement st.txHash = some sett)
    (hphase : st.phase = .confirmed ∨ st.phase = .reorged) :
    wp queries allowed Rely (resolve rt st sett) (OnSuccess fun _ writes locks after ↦
      Committed rt allowed after (.onStatus st) writes ∧ Guarded writes locks) [] [] db := by
  rw [resolve, wp_stmt_bind]
  intro _ paid hpaid _
  rw [wp_success_bind, wp_orFail]
  intro pay hpay
  have hpay : paid.payment sett.paymentID = some pay := eq_some_of_one hpay
  rw [wp_stmt_bind]
  intro _ cleared hcleared _
  rw [wp_success_bind, wp_orFail]
  intro house hhouse
  have hhouse : cleared.accountByNameAndAsset houseAccountName pay.asset = some house :=
    eq_some_of_one hhouse
  have hcleared : Rely [] paid cleared := hcleared
  obtain ⟨row, hfound, hevolves⟩ := (hpaid.trans hcleared).settlement st.txHash sett hrow
  obtain ⟨later, hlater, hkept⟩ := hcleared.payment sett.paymentID pay hpay
  have hresolved : Resolved cleared st.txHash row later house :=
    ⟨hfound, by rw [hevolves.2.1]; exact hlater, by rw [Evolves.asset hkept]; exact hhouse⟩
  -- a payment canceled in between gives the same entries
  have hsettle : settle rt sett later house st = settle rt sett pay house st := by
    rcases hkept with rfl | ⟨_, rfl⟩ <;> rfl
  have hreverse : Sink.reverse rt sett later house st = Sink.reverse rt sett pay house st := by
    rcases hkept with rfl | ⟨_, rfl⟩ <;> rfl
  split
  · next hconfirmed =>
    rw [← hsettle]
    exact wp_settle hconfirmed hresolved hevolves.2.1
  · next hconfirmed =>
    rw [← hreverse]
    exact wp_reverse (hphase.resolve_left hconfirmed) hresolved hevolves.2.1

theorem wp_onStatus (st : Status) :
    wp queries allowed Rely (onStatus rt st) (OnSuccess fun _ writes locks after ↦
      Committed rt allowed after (.onStatus st) writes ∧ Guarded writes locks) [] [] db := by
  have hnothing : ∀ seen, Committed rt allowed seen (.onStatus st) [] ∧ Guarded [] [] :=
    fun seen ↦ ⟨.nothing _, by simp [Guarded]⟩
  have hdispatch : ∀ row first, Db.one (first.settlement st.txHash) = row →
      st.phase = .confirmed ∨ st.phase = .reorged →
      wp queries allowed Rely (dispatch rt st row) (OnSuccess fun _ writes locks after ↦
        Committed rt allowed after (.onStatus st) writes ∧ Guarded writes locks) [] [] first := by
    intro row first hread hphase
    unfold dispatch
    split
    · exact wp_resolve (eq_some_of_one hread) hphase
    · split
      · exact hnothing first
      · trivial
  unfold onStatus
  split
  · next hphase => exact fun _ first _ _ ↦ hdispatch _ first rfl (.inl hphase)
  · next hphase => exact fun _ first _ _ ↦ hdispatch _ first rfl (.inr hphase)
  · next hphase => exact wp_finalize hphase
  · exact hnothing db
  · exact hnothing db

theorem wp_body (call : Call) :
    wp queries allowed Rely (body rt call) (Post rt allowed call) [] [] db := by
  cases call with
  | create input =>
    rw [body, Post, wp_success_bind]
    exact wp_create input
  | cancel pid =>
    rw [body, Post, wp_success_bind]
    exact wp_cancel pid
  | link paymentID tx =>
    rw [body, Post, wp_success_bind]
    exact wp_link paymentID tx
  | onStatus st =>
    rw [body, Post, wp_success_bind]
    exact wp_onStatus st

variable (rt allowed) in
/-- The calls of the rail are verified against each other. -/
theorem discipline : Discipline queries allowed Rely (body rt) (Post rt allowed) where
  refl := Rely.refl
  trans _ _ _ _ := Rely.trans
  stable call result writes locks db db' hpost hrely := by
    cases result with
    | error => trivial
    | ok => exact ⟨hpost.1.stable hpost.2 hrely, hpost.2⟩
  verified call db := wp_body call
  guarantee call result writes locks db others hpost hothers :=
    Rely.view fun write hwrite lock hlock ↦ hothers lock (hpost.2 write hwrite lock hlock)

/-- The commits of every interleaving of the calls are a serial run of what calls may commit. -/
theorem serial {start : Db} {s : RailState} (h : Reaches queries (body rt) allowed start s) :
    Serial queries (fun call _ writes db ↦ Committed rt allowed db call writes) start s.history
      s.db :=
  ((discipline rt allowed).serial h).mono fun _ _ _ _ ⟨_, hpost⟩ ↦ hpost.1

end PaymentRail.Rail
