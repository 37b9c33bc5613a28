import PaymentRail.Ledger.Alone
import PaymentRail.Rail.Entries

/-!
# One status handed to the sink

The chain watcher hands its statuses to the sink one after the other.  Alone on the tables, a
delivery that succeeds moves the row of its transaction as the phase asks (`Moved`) and leaves every
other row as it is.  It does succeed when the database is healthy and the entry that the status
calls for, if any, can be posted (`delivery_succeeds`).
-/

namespace PaymentRail.Rail

open Transaction Ledger Chain Sink

/-- What a phase asks of a settlement row: a confirmation settles a pending or reorged row in the
block of the status, a reorg takes a settled row back, and finality closes it.  Any other row
stays. -/
def Moved (st : Status) (row row' : Settlement) : Prop :=
  match st.phase with
  | .confirmed =>
    if row.status.settleable then
      ∃ id, row' = row.settle (some id) (some st.blockHash) (some st.blockNumber.toInt64)
    else row' = row
  | .reorged => if row.status = .settled then row' = row.reorg else row' = row
  | .finalized => if row.status = .settled then row' = row.finalize else row' = row
  | .pending | .mined => row' = row

instance (rt : Audit.Runtime) (allowed : Stmt → Ambient → Db → Prop)
    [∀ stmt ambient db, Decidable (allowed stmt ambient db)] (db : Db) (call : Call)
    (ambient : ℕ → Ambient) (writes : List Write) :
    Decidable (Admitted queries allowed db (body rt call) ambient writes) :=
  decidableAdmitted allowed db (body rt call) ambient writes

/-- The writes of a delivery leave the row of its transaction where the phase asks for it. -/
def Lands (db : Db) (st : Status) (row : Settlement) (writes : List Write) : Prop :=
  ∃ row', (queries.view db writes).settlement st.txHash = some row' ∧ Moved st row row'

section Row

variable {rt : Audit.Runtime} {allowed : Stmt → Ambient → Db → Prop} {db db' : Db} {st : Status}
  {row row' : Settlement}

theorem Moved.refl_of_confirmed (hphase : st.phase = .confirmed)
    (hstatus : row.status.settleable = false) : Moved st row row := by
  simp [Moved, hphase, hstatus]

theorem Moved.refl_of_not_settled (hphase : st.phase = .reorged ∨ st.phase = .finalized)
    (hstatus : row.status ≠ .settled) : Moved st row row := by
  obtain hphase | hphase := hphase <;> simp [Moved, hphase, hstatus]

theorem Moved.settle (hphase : st.phase = .confirmed) (hstatus : row.status.settleable = true)
    (id : UUID) :
    Moved st row (row.settle (some id) (some st.blockHash) (some st.blockNumber.toInt64)) := by
  simp only [Moved, hphase, hstatus, if_true]
  exact ⟨id, rfl⟩

/-- A confirmation that is applied leaves a settled or a finalized row. -/
theorem Moved.cleared_of_confirmed (h : Moved st row row') (hphase : st.phase = .confirmed) :
    row'.status = .settled ∨ row'.status = .finalized := by
  simp only [Moved, hphase] at h
  split at h
  · obtain ⟨id, rfl⟩ := h
    exact .inl rfl
  · next hclosed =>
    subst h
    cases hstatus : row'.status with
    | settled => exact .inl rfl
    | finalized => exact .inr rfl
    | pending | reorged =>
      rw [hstatus] at hclosed
      exact absurd rfl hclosed

/-- Only a reorg takes the money back. -/
theorem Moved.cleared (h : Moved st row row') (hphase : st.phase ≠ .reorged)
    (hcleared : row.status = .settled ∨ row.status = .finalized) :
    row'.status = .settled ∨ row'.status = .finalized := by
  cases hst : st.phase with
  | confirmed => exact h.cleared_of_confirmed hst
  | reorged => exact absurd hst hphase
  | pending | mined =>
    simp only [Moved, hst] at h
    rwa [h]
  | finalized =>
    simp only [Moved, hst] at h
    split at h
    · rw [h]
      exact .inr rfl
    · rwa [h]

/-- What follows a guarded `UPDATE` that nobody interferes with. -/
theorem wp_alone_afterMark {context type : String} {tx : TxHash} {data : Settlement → EventData}
    {guard : SettlementStatus → Bool} {settleEntryID : Option UUID}
    {change : Settlement → Settlement} {flip : Write} {first : List Write} {locks : List Lock}
    {good : List Write → Prop} (hrow : (queries.view db first).settlement tx = some row)
    (hflip : guard row.status = true → ∀ sent logged, good (first ++ transition flip sent logged))
    (hkeep : guard row.status = false → good first) :
    let mark := markSettlement (queries.view db first) tx guard settleEntryID change flip
    wp queries allowed alone (afterMark rt context type tx data mark.reply)
      (OnSuccess fun _ writes _ _ ↦ good writes) (first ++ mark.writes) (locks ++ mark.locks) db := by
  intro mark
  rcases hreply : mark.reply with err | after
  · unfold afterMark
    dsimp only
    split
    · next hnoRows =>
      obtain ⟨hguard, heval⟩ := markSettlement_noRows hreply hnoRows
      have hmark : mark = Effect.failed err := heval
      simp only [hmark, Effect.failed, List.append_nil]
      exact hkeep (hguard row hrow)
    · trivial
  · obtain ⟨row', hrow', hguard, rfl, heval⟩ := markSettlement_ok hreply
    obtain rfl := Option.some.inj (hrow.symm.trans hrow')
    have hmark : mark = Effect.wrote (change row) flip [.settlement tx] := heval
    have hannounce : wp queries allowed Rely
        (Audit.announce rt (outboxEvent type tx (data (change row)))
          (auditEntry type tx (data (change row))))
        (OnSuccess fun _ writes _ _ ↦ good writes) (first ++ [flip]) (locks ++ [.settlement tx])
        db := by
      refine Audit.wp_announce fun sent logged more after _ _ _ ↦ ?_
      simpa [transition] using hflip hguard sent logged
    simp only [hmark, Effect.wrote]
    exact wp_alone_success Rely.refl hannounce fun _ _ _ hgood ↦ hgood

/-- An entry that is posted while nobody interferes, and what follows it. -/
theorem wp_alone_postWithin {entry : Entry} {rest : JournalEntry → DbTx Unit}
    {good : List Write → Prop}
    (h : ∀ je locks, wp queries allowed alone (rest je) (OnSuccess fun _ writes _ _ ↦ good writes)
      (entry.writes je) locks db) :
    wp queries allowed alone (postWithin entry >>= rest : DbTx Unit)
      (OnSuccess fun _ writes _ _ ↦ good writes) [] [] db := by
  have hposted : wp queries allowed Rely (postWithin entry)
      (OnSuccess fun je writes _ _ ↦ writes = entry.writes je) [] [] db :=
    wp_postWithin fun je locks after _ _ _ ↦ rfl
  rw [wp_success_bind]
  refine wp_alone_success Rely.refl hposted fun je writes locks hwrites ↦ ?_
  rw [hwrites]
  exact h je locks

theorem wp_alone_settle {pay : Payment} {house : Account} (hphase : st.phase = .confirmed)
    (hrow : db.settlement st.txHash = some row) :
    wp queries allowed alone (settle rt row pay house st)
      (OnSuccess fun _ writes _ _ ↦ Lands db st row writes) [] [] db := by
  unfold settle
  split
  · next hsettled => exact ⟨row, hrow, .refl_of_confirmed hphase (by rw [hsettled]; rfl)⟩
  refine wp_alone_postWithin fun je locks ↦ ?_
  rw [wp_stmt_bind]
  rintro clock _ rfl -
  have hrow' := (settlement_view_entry (settleEntry row.paymentID pay house st.blockHash) je
    st.txHash).trans hrow
  refine wp_alone_afterMark hrow' (fun hguard sent logged ↦ ?_) fun hguard ↦ ?_
  · exact ⟨_, settlement_after_settled hrow, .settle hphase hguard je.id⟩
  · exact ⟨row, hrow', .refl_of_confirmed hphase hguard⟩

theorem wp_alone_reverse {pay : Payment} {house : Account} (hphase : st.phase = .reorged)
    (hrow : db.settlement st.txHash = some row) :
    wp queries allowed alone (Sink.reverse rt row pay house st)
      (OnSuccess fun _ writes _ _ ↦ Lands db st row writes) [] [] db := by
  unfold Sink.reverse
  split
  · next hstatus => exact ⟨row, hrow, .refl_of_not_settled (.inl hphase) hstatus⟩
  refine wp_alone_postWithin fun je locks ↦ ?_
  rw [wp_stmt_bind]
  rintro clock _ rfl -
  have hrow' := (settlement_view_entry (reverseEntry row.paymentID pay house st.blockHash) je
    st.txHash).trans hrow
  refine wp_alone_afterMark hrow' (fun hguard sent logged ↦ ?_) fun hguard ↦ ?_
  · have hstatus : row.status = .settled := of_decide_eq_true hguard
    exact ⟨_, settlement_after_reversed hrow, by simp [Moved, hphase, hstatus]⟩
  · exact ⟨row, hrow', .refl_of_not_settled (.inl hphase) (of_decide_eq_false hguard)⟩

theorem wp_alone_finalize (hphase : st.phase = .finalized)
    (hrow : db.settlement st.txHash = some row) :
    wp queries allowed alone (finalize rt st)
      (OnSuccess fun _ writes _ _ ↦ Lands db st row writes) [] [] db := by
  rw [finalize, wp_stmt_bind]
  rintro clock _ rfl -
  have hrow' : (queries.view _ []).settlement st.txHash = some row := hrow
  refine wp_alone_afterMark hrow' (fun hguard sent logged ↦ ?_) fun hguard ↦ ?_
  · have hstatus : row.status = .settled := of_decide_eq_true hguard
    exact ⟨_, settlement_after_finalized hrow, by simp [Moved, hphase, hstatus]⟩
  · exact ⟨row, hrow, .refl_of_not_settled (.inr hphase) (of_decide_eq_false hguard)⟩

theorem wp_alone_resolve (hphase : st.phase = .confirmed ∨ st.phase = .reorged)
    (hrow : db.settlement st.txHash = some row) :
    wp queries allowed alone (resolve rt st row)
      (OnSuccess fun _ writes _ _ ↦ Lands db st row writes) [] [] db := by
  rw [resolve, wp_stmt_bind]
  rintro _ _ rfl -
  rw [wp_success_bind, wp_orFail]
  intro pay _
  rw [wp_stmt_bind]
  rintro _ _ rfl -
  rw [wp_success_bind, wp_orFail]
  intro house _
  split
  · next hconfirmed => exact wp_alone_settle hconfirmed hrow
  · next hconfirmed => exact wp_alone_reverse (hphase.resolve_left hconfirmed) hrow

theorem wp_alone_onStatus (hrow : db.settlement st.txHash = some row) :
    wp queries allowed alone (onStatus rt st)
      (OnSuccess fun _ writes _ _ ↦ Lands db st row writes) [] [] db := by
  have hdispatch : st.phase = .confirmed ∨ st.phase = .reorged →
      wp queries allowed alone (dispatch rt st (Db.one (db.settlement st.txHash)))
        (OnSuccess fun _ writes _ _ ↦ Lands db st row writes) [] [] db := by
    intro hphase
    rw [hrow]
    exact wp_alone_resolve hphase hrow
  unfold onStatus
  split
  · next hphase =>
    rintro _ _ rfl -
    exact hdispatch (.inl hphase)
  · next hphase =>
    rintro _ _ rfl -
    exact hdispatch (.inr hphase)
  · next hphase => exact wp_alone_finalize hphase hrow
  · next hphase => exact ⟨row, hrow, by simp [Moved, hphase]⟩
  · next hphase => exact ⟨row, hrow, by simp [Moved, hphase]⟩

end Row

section Delivery

variable {rt : Audit.Runtime} {db db' : Db} {st : Status} {row : Settlement}
  {ambient : ℕ → Ambient} {result : Result}

/-- A delivery that succeeded moved the row of its transaction as its phase asks. -/
theorem row_after_delivery
    (h : atomically queries (body rt (.onStatus st)) ambient db = (.ok result, db'))
    (hrow : db.settlement st.txHash = some row) :
    ∃ row', db'.settlement st.txHash = some row' ∧ Moved st row row' := by
  have hwp : wp queries unrestricted alone (body rt (.onStatus st))
      (OnSuccess fun _ writes _ _ ↦ Lands db st row writes) [] [] db := by
    rw [body, wp_success_bind]
    exact wp_alone_onStatus hrow
  obtain ⟨_, writes, _, hlands, heq⟩ | ⟨_, heq⟩ := atomically_cases alone_refl hwp ambient
  · rw [h] at heq
    cases heq
    exact hlands
  · rw [h] at heq
    cases heq

/-- A reorg of a row that is not settled, and a phase that settlement ignores, change nothing. -/
theorem db_after_idle
    (h : atomically queries (body rt (.onStatus st)) ambient db = (.ok result, db'))
    (hrow : db.settlement st.txHash = some row)
    (hidle : st.phase = .mined ∨ st.phase = .reorged ∧ row.status ≠ .settled) : db' = db := by
  have hreverse : row.status ≠ .settled → ∀ pay house,
      wp queries unrestricted alone (Sink.reverse rt row pay house st)
        (OnSuccess fun _ writes _ _ ↦ writes = []) [] [] db := by
    intro hstatus pay house
    rw [Sink.reverse, if_pos hstatus]
    exact rfl
  have hwp : wp queries unrestricted alone (onStatus rt st)
      (OnSuccess fun _ writes _ _ ↦ writes = []) [] [] db := by
    obtain hphase | ⟨hphase, hstatus⟩ := hidle
    · simp only [onStatus, hphase]
      exact rfl
    · simp only [onStatus, hphase]
      rintro _ _ rfl -
      have hfound : Db.one (db.settlement st.txHash) = .ok row := by rw [hrow]; rfl
      change wp queries _ _ (dispatch rt st (Db.one (db.settlement st.txHash))) _ _ _ _
      rw [hfound, dispatch, resolve, wp_stmt_bind]
      rintro _ _ rfl -
      rw [wp_success_bind, wp_orFail]
      intro pay _
      rw [wp_stmt_bind]
      rintro _ _ rfl -
      rw [wp_success_bind, wp_orFail]
      intro house _
      rw [hphase, if_neg (by decide)]
      exact hreverse hstatus pay house
  have hbody : wp queries unrestricted alone (body rt (.onStatus st))
      (OnSuccess fun _ writes _ _ ↦ writes = []) [] [] db := by
    rw [body, wp_success_bind]
    exact hwp
  obtain ⟨_, writes, _, hwrites, heq⟩ | ⟨_, heq⟩ := atomically_cases alone_refl hbody ambient
  · have hwrites : writes = [] := hwrites
    rw [h, hwrites] at heq
    exact congrArg Prod.snd heq
  · rw [h] at heq
    cases heq

/-- What a delivery that succeeded committed is one of the cases of `Committed`. -/
theorem committed_of_delivery
    (h : atomically queries (body rt (.onStatus st)) ambient db = (.ok result, db')) :
    ∃ writes, Committed rt unrestricted db (.onStatus st) writes ∧
      db' = queries.view db writes := by
  obtain ⟨_, writes, _, hpost, heq⟩ | ⟨_, heq⟩ :=
    atomically_cases Rely.refl (wp_body (.onStatus st)) ambient
  · rw [h] at heq
    cases heq
    exact ⟨writes, hpost.1, rfl⟩
  · rw [h] at heq
    cases heq

/-- Which transactions are linked changes only by an insert. -/
theorem settlement_keys_view {writes : List Write} (db : Db)
    (h : ∀ row, .insertSettlement row ∉ writes) :
    (queries.view db writes).settlements.map Settlement.txHash =
      db.settlements.map Settlement.txHash := by
  induction writes generalizing db with
  | nil => rfl
  | cons write rest ih =>
    rw [Engine.view_cons, ih _ fun row hrow ↦ h row (List.mem_cons_of_mem _ hrow)]
    cases write with
    | insertSettlement row => exact absurd List.mem_cons_self (h row)
    | markSettled | markReorged | markFinalized =>
      exact Table.map_key_modify fun _ ↦ rfl
    | _ => rfl

/-- A delivery links no transaction. -/
theorem settlement_keys_after_delivery
    (h : atomically queries (body rt (.onStatus st)) ambient db = (.ok result, db')) :
    db'.settlements.map Settlement.txHash = db.settlements.map Settlement.txHash := by
  obtain ⟨writes, hcommitted, rfl⟩ := committed_of_delivery h
  refine settlement_keys_view db fun row hrow ↦ ?_
  have hentry : ∀ (entry : Entry) (je : JournalEntry),
      Write.insertSettlement row ∉ entry.writes je := by
    simp [Entry.writes]
  have htransition : ∀ flip sent logged, flip ≠ .insertSettlement row →
      Write.insertSettlement row ∉ transition flip sent logged := by
    simp [transition, eq_comm]
  cases hcommitted with
  | nothing => cases hrow
  | settled | reversed =>
    obtain hrow | hrow := List.mem_append.mp hrow
    · exact hentry _ _ hrow
    · exact htransition _ _ _ (fun h ↦ by cases h) hrow
  | finalized => exact htransition _ _ _ (fun h ↦ by cases h) hrow
  | settledUnmarked | reversedUnmarked => exact hentry _ _ hrow

/-- A delivery leaves the rows of all other transactions alone. -/
theorem other_row_after_delivery {tx : TxHash}
    (h : atomically queries (body rt (.onStatus st)) ambient db = (.ok result, db'))
    (htx : st.txHash ≠ tx) (hrow : db.settlement tx = some row) :
    db'.settlement tx = some row := by
  obtain ⟨writes, hcommitted, rfl⟩ := committed_of_delivery h
  exact hcommitted.settlement_of_not_delivers (decide_eq_false htx) hrow

/-- What a delivery posts: nothing, or the settlement or the reversal of its payment in its block. -/
theorem journal_after_delivery
    (h : atomically queries (body rt (.onStatus st)) ambient db = (.ok result, db'))
    (hrow : db.settlement st.txHash = some row) :
    (db'.journalEntries = db.journalEntries ∧ (db' = db ∨ st.phase = .finalized)) ∨
    ∃ je, db'.journalEntries = db.journalEntries ++ [je] ∧
      ((st.phase = .confirmed ∧ je.kind = "settlement.settle" ∧
          je.externalRef = settleRef row.paymentID st.blockHash) ∨
        (st.phase = .reorged ∧ je.kind = "settlement.reversal" ∧
          je.externalRef = reverseRef row.paymentID st.blockHash)) := by
  obtain ⟨writes, hcommitted, rfl⟩ := committed_of_delivery h
  cases hcommitted with
  | nothing => exact .inl ⟨rfl, .inl rfl⟩
  | finalized _ _ _ _ phase => exact .inl ⟨rfl, .inr phase⟩
  | settled _ row' pay house je sent logged phase resolved _ posting =>
    obtain rfl := Option.some.inj (hrow.symm.trans resolved.linked)
    refine .inr ⟨je, ?_, .inl ⟨phase, posting.kind, posting.externalRef⟩⟩
    rw [Engine.view_append, view_entry_writes]
    rfl
  | reversed _ row' pay house je sent logged phase resolved _ posting =>
    obtain rfl := Option.some.inj (hrow.symm.trans resolved.linked)
    refine .inr ⟨je, ?_, .inr ⟨phase, posting.kind, posting.externalRef⟩⟩
    rw [Engine.view_append, view_entry_writes]
    rfl
  | settledUnmarked _ row' pay house je phase resolved posting =>
    obtain rfl := Option.some.inj (hrow.symm.trans resolved.linked)
    refine .inr ⟨je, ?_, .inl ⟨phase, posting.kind, posting.externalRef⟩⟩
    rw [view_entry_writes]
    rfl
  | reversedUnmarked _ row' pay house je phase resolved posting =>
    obtain rfl := Option.some.inj (hrow.symm.trans resolved.linked)
    refine .inr ⟨je, ?_, .inr ⟨phase, posting.kind, posting.externalRef⟩⟩
    rw [view_entry_writes]
    rfl

end Delivery

/-! ### Deliveries that cannot fail -/

section Total

variable {rt : Audit.Runtime} {db : Db} {st : Status} {row : Settlement} {pay : Payment}
  {house : Account} {locks : List Lock}

theorem wp_afterMark_noRows {allowed : Stmt → Ambient → Db → Prop} {context type : String}
    {tx : TxHash} {data : Settlement → EventData} {writes : List Write} :
    wp queries allowed alone (afterMark rt context type tx data (.error .errNoRows))
      (Succeeds fun _ _ _ _ ↦ True) writes locks db := by
  have hnoRows : Err.errNoRows.is .errNoRows = true := by decide
  simp only [afterMark, if_pos hnoRows]
  trivial

/-- What follows a guarded `UPDATE` does not fail, whether it matched the row or not. -/
theorem wp_afterMark_total {context type : String} {tx : TxHash} {data : Settlement → EventData}
    {guard : SettlementStatus → Bool} {settleEntryID : Option UUID}
    {change : Settlement → Settlement} {flip : Write} {first : List Write}
    (hentry : ∀ id ∈ settleEntryID, (queries.view db first).hasJournalID id = true) :
    let mark := markSettlement (queries.view db first) tx guard settleEntryID change flip
    wp queries Healthy alone (afterMark rt context type tx data mark.reply)
      (Succeeds fun _ _ _ _ ↦ True) (first ++ mark.writes) (locks ++ mark.locks) db := by
  intro mark
  have hforeign : ¬(settleEntryID.any fun id ↦ ¬(queries.view db first).hasJournalID id) = true := by
    cases settleEntryID with
    | none => simp
    | some id => simp [hentry id rfl]
  cases hrow : (queries.view db first).settlement tx with
  | none =>
    have hmark : mark = Effect.failed .errNoRows := by
      simp only [mark, markSettlement, hrow]
    rw [hmark]
    exact wp_afterMark_noRows
  | some row =>
    by_cases hguard : guard row.status = true
    · have hmark : mark = Effect.wrote (change row) flip [.settlement tx] := by
        simp only [mark, markSettlement, hrow, hguard, not_true_eq_false, if_false,
          if_neg hforeign]
      rw [hmark]
      exact wp_announce_total fun _ _ _ ↦ trivial
    · have hmark : mark = Effect.failed .errNoRows := by
        simp only [mark, markSettlement, hrow, if_pos hguard]
      rw [hmark]
      exact wp_afterMark_noRows

theorem hasJournalID_entry (entry : Entry) (je : JournalEntry) :
    (queries.view db (entry.writes je)).hasJournalID je.id = true := by
  rw [view_entry_writes]
  simp [postEntry, Db.hasJournalID]

theorem wp_settle_total (hpostable : row.status ≠ .settled →
      Postable db (settleEntry row.paymentID pay house st.blockHash)) :
    wp queries Healthy alone (settle rt row pay house st) (Succeeds fun _ _ _ _ ↦ True) [] [] db := by
  unfold settle
  split
  · trivial
  · next hstatus =>
    rw [wp_succeeds_bind]
    refine wp_postWithin_total (hpostable hstatus) fun je locks _ ↦ ?_
    rw [wp_stmt_bind]
    rintro _ _ rfl -
    refine wp_afterMark_total fun id hid ↦ ?_
    cases hid
    exact hasJournalID_entry _ je

theorem wp_reverse_total (hpostable : row.status = .settled →
      Postable db (reverseEntry row.paymentID pay house st.blockHash)) :
    wp queries Healthy alone (Sink.reverse rt row pay house st) (Succeeds fun _ _ _ _ ↦ True) [] []
      db := by
  unfold Sink.reverse
  split
  · trivial
  · next hstatus =>
    rw [wp_succeeds_bind]
    refine wp_postWithin_total (hpostable (not_not.mp hstatus)) fun je locks _ ↦ ?_
    rw [wp_stmt_bind]
    rintro _ _ rfl -
    exact wp_afterMark_total fun id hid ↦ by cases hid

/-- A status that calls for no entry, or for an entry that can be posted. -/
structure Deliverable (db : Db) (st : Status) (row : Settlement) (pay : Payment) (house : Account) :
    Prop where
  resolved : Resolved db st.txHash row pay house
  settle : st.phase = .confirmed → row.status ≠ .settled →
    Postable db (settleEntry row.paymentID pay house st.blockHash)
  reverse : st.phase = .reorged → row.status = .settled →
    Postable db (reverseEntry row.paymentID pay house st.blockHash)

theorem wp_resolve_total (h : Deliverable db st row pay house)
    (hphase : st.phase = .confirmed ∨ st.phase = .reorged) :
    wp queries Healthy alone (resolve rt st row) (Succeeds fun _ _ _ _ ↦ True) [] [] db := by
  have hpaid : Db.one (db.payment row.paymentID) = .ok pay := by rw [h.resolved.paid]; rfl
  have hclearing : Db.one (db.accountByNameAndAsset houseAccountName pay.asset) = .ok house := by
    rw [h.resolved.clearing]
    rfl
  rw [resolve, wp_stmt_bind]
  rintro _ _ rfl -
  rw [wp_succeeds_bind]
  refine wp_succeeds_orFail hpaid ?_
  rw [wp_stmt_bind]
  rintro _ _ rfl -
  rw [wp_succeeds_bind]
  refine wp_succeeds_orFail hclearing ?_
  split
  · next hconfirmed => exact wp_settle_total (h.settle hconfirmed)
  · next hconfirmed => exact wp_reverse_total (h.reverse (hphase.resolve_left hconfirmed))

theorem wp_onStatus_total (h : Deliverable db st row pay house) :
    wp queries Healthy alone (onStatus rt st) (Succeeds fun _ _ _ _ ↦ True) [] [] db := by
  have hfound : Db.one (db.settlement st.txHash) = .ok row := by rw [h.resolved.linked]; rfl
  have hdispatch : st.phase = .confirmed ∨ st.phase = .reorged →
      wp queries Healthy alone (dispatch rt st (Db.one (db.settlement st.txHash)))
        (Succeeds fun _ _ _ _ ↦ True) [] [] db := by
    intro hphase
    rw [hfound]
    exact wp_resolve_total h hphase
  unfold onStatus
  split
  · next hphase =>
    rintro _ _ rfl -
    exact hdispatch (.inl hphase)
  · next hphase =>
    rintro _ _ rfl -
    exact hdispatch (.inr hphase)
  · rw [finalize, wp_stmt_bind]
    rintro _ _ rfl -
    exact wp_afterMark_total fun id hid ↦ by cases hid
  · trivial
  · trivial

/-- On a healthy database a status whose entry can be posted is delivered without an error. -/
theorem delivery_succeeds {ambient : ℕ → Ambient} (h : Deliverable db st row pay house)
    (hhealthy : Admitted queries Healthy db (body rt (.onStatus st)) ambient []) :
    ∃ db', atomically queries (body rt (.onStatus st)) ambient db = (.ok .done, db') := by
  have hwp : wp queries Healthy alone (body rt (.onStatus st))
      (Succeeds fun result _ _ _ ↦ result = .done) [] [] db := by
    rw [body, wp_succeeds_bind]
    exact wp_succeeds_mono (fun _ _ _ _ _ ↦ rfl) (wp_onStatus_total h)
  obtain ⟨result, writes, _, hdone, heq⟩ := atomically_succeeds hwp hhealthy
  rw [hdone] at heq
  exact ⟨queries.view db writes, heq⟩

end Total

end PaymentRail.Rail
