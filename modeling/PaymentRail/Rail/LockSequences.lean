import PaymentRail.Rail.LockRequests

/-!
# The order of the locks of the rail

Every call of the rail asks for its locks in the order of their ranks.  A key share of an account or of
a journal entry comes later than its rank allows, but only for rows that the transaction holds already:
`PostWithin` locks the accounts of its lines and inserts the entry they refer to (`PostLocks`).
-/

namespace PaymentRail.Rail

open Transaction Ledger Chain Sink Payments

section Bodies

variable {held : List Request}

theorem climb_orFail {α : Type} {reply : Except Err α} {context : Err → Err}
    {post : α → List Request → Prop} :
    climb railGrants lockOrder (orFail reply context) (OnOk post) held ↔
      ∀ value, reply = .ok value → post value held := climb_tx_orFail

theorem climb_readBalances {ids : List UUID} {post : Balances → List Request → Prop}
    (hpost : ∀ cur, post cur held) :
    climb railGrants lockOrder (readBalances ids) (OnOk post) held := by
  induction ids generalizing post with
  | nil => exact hpost []
  | cons id rest ih =>
    refine climb_read (fun _ ↦ rfl) fun reply ↦ ?_
    rw [climb_tx_bind, climb_orFail]
    intro bal _
    rw [climb_tx_bind]
    exact ih fun cur ↦ hpost _

/-- The locks of a transaction that has posted an entry. -/
structure PostLocks (entry : Entry) (je : JournalEntry) (held : List Request) : Prop where
  below : Below 2 held
  journal : exclusive (.journalID je.id) ∈ held
  accounts : ∀ line ∈ entry.lines, exclusive (.account line.accountID) ∈ held

theorem PostLocks.append {entry : Entry} {je : JournalEntry} (h : PostLocks entry je held)
    {more : List Request} (hmore : Below 2 more) : PostLocks entry je (held ++ more) where
  below := h.below.append hmore
  journal := List.mem_append_left _ h.journal
  accounts line hline := List.mem_append_left _ (h.accounts line hline)

/-- The lines of an entry refer to rows that are locked. -/
theorem climb_insertLines {entry : Entry} {je : JournalEntry} {lines : List Line}
    {post : Unit → List Request → Prop} (hlines : ∀ line ∈ lines, line ∈ entry.lines)
    (h : PostLocks entry je held) (hpost : ∀ held', PostLocks entry je held' → post () held') :
    climb railGrants lockOrder (insertLines je.id lines) (OnOk post) held := by
  induction lines generalizing held with
  | nil => exact hpost held h
  | cons line rest ih =>
    rw [insertLines, climb_stmt_bind]
    intro seen current _
    have haccount := h.accounts line (hlines line List.mem_cons_self)
    have hshares : ∀ r ∈ [keyShare (.journalID je.id), keyShare (.account line.accountID)],
        (⟨r.resource, .update⟩ : Request) ∈ held := by
      simpa [keyShare, exclusive] using And.intro h.journal haccount
    refine ⟨climbs_of_held hshares, ?_⟩
    rw [climb_tx_bind, climb_orFail]
    intro _ _
    refine ih (fun other hother ↦ hlines other (List.mem_cons_of_mem _ hother)) (h.append ?_)
    simp [Below, railGrants, requests, keyShare, Resource.rank, toNat_lt_level]

theorem id_of_insertJournalEntry {kind externalRef asset : String} {ambient : Ambient} {db : Db}
    {je : JournalEntry}
    (h : (queries.eval (.insertJournalEntry kind externalRef asset) ambient db).reply = .ok je) :
    je.id = ambient.uuid := by
  simp only [queries, Stmt.eval] at h
  repeat' split at h
  · cases h
  · cases h
  · rw [← Except.ok.inj h]

/-- The accounts that pass the check are locked. -/
theorem accounts_locked {ids : List UUID} {asset : String} {db : Db}
    (h : checkAccounts (db.accountsByID ids) asset ids = .ok ()) {id : UUID} (hid : id ∈ ids) :
    exclusive (.account id) ∈
      (db.accountsByID ids).map fun account ↦ exclusive (.account account.id) := by
  obtain ⟨account, hmem, rfl, -, -⟩ := exists_of_checkAccounts h hid
  exact List.mem_map_of_mem hmem

theorem climb_postWithin {entry : Entry} {post : JournalEntry → List Request → Prop}
    (hpost : ∀ je held, PostLocks entry je held → post je held) :
    climb railGrants lockOrder (postWithin entry) (OnOk post) [] := by
  rw [postWithin, climb_tx_bind, climb_ofExcept]
  intro _ _
  rw [climb_stmt_bind]
  rintro ⟨_, seen⟩ ⟨_, current⟩ hsubset
  refine ⟨climbs_accounts (pairwise_accountsByID _ _) (List.forall_mem_nil _), ?_⟩
  rw [climb_tx_bind, climb_orFail]
  intro accounts haccounts
  obtain rfl : current.accountsByID (accountIDs entry.lines) = accounts := Except.ok.inj haccounts
  rw [climb_tx_bind, climb_ofExcept]
  intro _ hcheck
  rw [climb_tx_bind]
  refine climb_readBalances fun cur ↦ ?_
  rw [climb_tx_bind, climb_ofExcept]
  intro _ _
  rw [climb_stmt_bind]
  rintro ⟨named, seen'⟩ ⟨named', current'⟩ hsubset'
  set accountLocks : List Request := [] ++ railGrants.requests (.getAccountsForUpdate _) (_, seen)
  have hbelow : Below 0 accountLocks := by
    intro r hr
    obtain ⟨account, -, rfl⟩ := List.mem_map.mp hr
    exact toNat_lt_level account.id 0
  have hid : Below 1 (accountLocks ++ [exclusive (.journalID named.uuid)]) := hbelow.concat rfl
  refine ⟨⟨admissible_of_below hbelow rfl, admissible_of_below hid rfl, trivial⟩, ?_⟩
  rw [climb_tx_bind, climb_orFail]
  intro je hje
  have hjournal : exclusive (.journalID je.id) ∈
      railGrants.requests (.insertJournalEntry entry.kind entry.externalRef entry.asset)
        (named, seen') := by
    apply hsubset'
    rw [id_of_insertJournalEntry hje]
    exact List.mem_cons_self
  have hkey : Below 2 (accountLocks ++ [exclusive (.journalID named.uuid)] ++
      [exclusive (.journalKey entry.kind entry.externalRef)]) := hid.concat rfl
  rw [List.append_assoc] at hkey
  have hlocks : PostLocks entry je (accountLocks ++ railGrants.requests
      (.insertJournalEntry entry.kind entry.externalRef entry.asset) (named, seen')) := {
    below := hkey
    journal := List.mem_append_right _ hjournal
    accounts := fun line hline ↦ List.mem_append_left _ (hsubset
      (accounts_locked hcheck (mem_accountIDs.mpr ⟨line, hline, rfl⟩))) }
  rw [climb_tx_bind]
  exact climb_insertLines (fun _ hline ↦ hline) hlocks fun held hheld ↦ hpost je held hheld

/-- The audit row goes in under the advisory lock. -/
theorem climb_append {rt : Audit.Runtime} {entry : Audit.Entry} (h : Below 7 held) :
    climb railGrants lockOrder (Audit.append rt entry) (OnOk fun _ _ ↦ True) held := by
  have hinsert : ∀ occurred place held', Below 8 held' → climb railGrants lockOrder
      (Audit.insertAt rt entry occurred place) (OnOk fun _ _ ↦ True) held' := by
    intro occurred place held' hheld'
    rw [Audit.insertAt, climb_stmt_bind]
    intro seen current _
    have hseq : Below 9 (held' ++ [exclusive (.auditSeq (entry.row rt occurred place.1 place.2).seq)]) :=
      hheld'.concat rfl
    refine ⟨⟨admissible_of_below hheld' rfl, admissible_of_below hseq rfl, trivial⟩, ?_⟩
    rw [climb_orFail]
    exact fun _ _ ↦ trivial
  have hchain : ∀ occurred, climb railGrants lockOrder (do
      orFail (← Tx.stmt (.acquireAuditChainLock Audit.chainAdvisoryKey))
        (·.wrap "audit: acquire chain lock")
      let place ← Audit.nextPlace (← Tx.stmt .getAuditHead)
      Audit.insertAt rt entry occurred place : DbTx Unit) (OnOk fun _ _ ↦ True) held := by
    intro occurred
    rw [climb_stmt_bind]
    intro seen current _
    refine ⟨climbs_single h rfl, ?_⟩
    rw [climb_tx_bind, climb_orFail]
    intro _ _
    refine climb_read (fun _ ↦ rfl) fun head ↦ ?_
    have hlocked : Below 8 (held ++ railGrants.requests
      (.acquireAuditChainLock Audit.chainAdvisoryKey) seen) := h.concat rfl
    rw [climb_tx_bind]
    unfold Audit.nextPlace
    split
    · exact hinsert _ _ _ hlocked
    · split
      · exact hinsert _ _ _ hlocked
      · trivial
  rw [Audit.append, climb_tx_bind]
  unfold Audit.occurredAt
  split
  · exact hchain _
  · exact climb_read (fun _ ↦ rfl) fun now ↦ hchain now

theorem climb_announce {rt : Audit.Runtime} {event : Outbox.Event} {entry : Audit.Entry}
    (h : Below 6 held) :
    climb railGrants lockOrder (Audit.announce rt event entry) (OnOk fun _ _ ↦ True) held := by
  rw [Audit.announce, climb_tx_bind, Outbox.emit]
  refine climb_read (fun _ ↦ rfl) fun id ↦ climb_read (fun _ ↦ rfl) fun now ↦ ?_
  rw [climb_stmt_bind]
  intro seen current _
  refine ⟨climbs_single h rfl, ?_⟩
  rw [climb_orFail]
  exact fun _ _ ↦ climb_append (h.concat rfl)

/-- A guarded `UPDATE` locks its row, and refers to an entry that the transaction inserted. -/
theorem climbs_guardedUpdate (matched : Bool) (lock : Lock) {entryID : Option UUID} {n : ℕ}
    (h : Below n held) (hrank : (Resource.rail lock).rank = level n) (hn : n < 6)
    (hentry : ∀ id ∈ entryID, exclusive (.journalID id) ∈ held) :
    Climbs lockOrder held (guardedUpdate matched lock entryID) ∧
      Below 6 (held ++ guardedUpdate matched lock entryID) := by
  cases matched with
  | false =>
    refine ⟨trivial, ?_⟩
    rw [guardedUpdate, if_neg Bool.false_ne_true, List.append_nil]
    exact h.mono hn.le
  | true =>
    have hrow : Below 6 (held ++ [noKeyUpdate lock]) := (h.concat hrank).mono hn
    cases entryID with
    | none => exact ⟨climbs_single h hrank, hrow⟩
    | some id =>
      have hown : (⟨.rail (.journalID id), .update⟩ : Request) ∈ held ++ [noKeyUpdate lock] :=
        List.mem_append_left _ (hentry id rfl)
      refine ⟨⟨admissible_of_below h hrank, climbs_of_held (by simpa [keyShare] using hown)⟩, ?_⟩
      have hshare : Below 6 [keyShare (.journalID id)] := by simp [Below, keyShare, Resource.rank]
      have hall := hrow.append hshare
      rw [List.append_assoc] at hall
      exact hall

theorem climb_create (rt : Audit.Runtime) (input : CreateInput) :
    climb railGrants lockOrder (create rt input) (OnOk fun _ _ ↦ True) [] := by
  refine climb_read (fun _ ↦ rfl) fun pid ↦ ?_
  rw [climb_tx_bind]
  refine climb_postWithin fun je held hlocks ↦ ?_
  rw [climb_stmt_bind]
  intro seen current _
  have hsource : exclusive (.account input.sourceAccountID) ∈ held :=
    hlocks.accounts ⟨input.sourceAccountID, .debit, input.amount⟩ (by simp [paymentEntry, Entry.transfer])
  have hdest : exclusive (.account input.destAccountID) ∈ held :=
    hlocks.accounts ⟨input.destAccountID, .credit, input.amount⟩ (by simp [paymentEntry, Entry.transfer])
  have hbelow : Below 4 held := hlocks.below.mono (by decide)
  have hshares : ∀ r ∈ [keyShare (.account input.sourceAccountID),
      keyShare (.account input.destAccountID), keyShare (.journalID je.id)],
      (⟨r.resource, .update⟩ : Request) ∈ held := by
    simpa [keyShare, exclusive] using And.intro hsource (And.intro hdest hlocks.journal)
  refine ⟨⟨admissible_of_below hbelow rfl,
    climbs_of_held fun r hr ↦ List.mem_append_left _ (hshares r hr)⟩, ?_⟩
  rw [climb_tx_bind, climb_orFail]
  intro payment _
  rw [climb_tx_bind]
  refine climb_ok_mono (fun _ _ _ ↦ trivial) (climb_announce ?_)
  refine (hlocks.below.mono (by decide)).append ?_
  simp [Below, railGrants, requests, exclusive, keyShare, Resource.rank, toNat_lt_level]

theorem climb_cancel (rt : Audit.Runtime) (pid : UUID) :
    climb railGrants lockOrder (cancel rt pid) (OnOk fun _ _ ↦ True) [] := by
  refine climb_read (fun _ ↦ rfl) fun read ↦ ?_
  rw [climb_tx_bind, climb_orFail]
  intro payment _
  rw [climb_tx_bind, climb_ofExcept]
  intro _ _
  rw [climb_tx_bind]
  refine climb_postWithin fun je held hlocks ↦ ?_
  rw [climb_stmt_bind]
  rintro ⟨_, seen⟩ current _
  have hbelow : Below 4 held := hlocks.below.mono (by decide)
  have hentry : ∀ id ∈ some je.id, exclusive (.journalID id) ∈ held := by
    rintro id ⟨⟩
    exact hlocks.journal
  obtain ⟨hclimbs, hafter⟩ := climbs_guardedUpdate ((seen.payment pid).any (·.status = .completed))
    (.payment pid) hbelow rfl (by decide) hentry
  refine ⟨hclimbs, ?_⟩
  rw [climb_tx_bind, climb_orFail]
  intro canceled _
  rw [climb_tx_bind]
  exact climb_ok_mono (fun _ _ _ ↦ trivial) (climb_announce hafter)

theorem climb_afterMark {rt : Audit.Runtime} {context type : String} {tx : TxHash}
    {data : Settlement → EventData} {reply : Except Err Settlement} (h : Below 6 held) :
    climb railGrants lockOrder (afterMark rt context type tx data reply) (OnOk fun _ _ ↦ True)
      held := by
  unfold afterMark
  split
  · exact climb_announce h
  · split <;> trivial

/-- A delivery that posts an entry and marks its row. -/
theorem climb_settle (rt : Audit.Runtime) (sett : Settlement) (pay : Payment) (house : Account)
    (st : Status) :
    climb railGrants lockOrder (settle rt sett pay house st) (OnOk fun _ _ ↦ True) [] := by
  unfold settle
  split
  · trivial
  rw [climb_tx_bind]
  refine climb_postWithin fun je held hlocks ↦ ?_
  rw [climb_stmt_bind]
  rintro ⟨_, seen⟩ current _
  have hentry : ∀ id ∈ some je.id, exclusive (.journalID id) ∈ held := by
    rintro id ⟨⟩
    exact hlocks.journal
  obtain ⟨hclimbs, hafter⟩ := climbs_guardedUpdate
    ((seen.settlement st.txHash).any (·.status.settleable)) (.settlement st.txHash) hlocks.below rfl
    (by decide) hentry
  exact ⟨hclimbs, climb_afterMark hafter⟩

theorem climb_reverse (rt : Audit.Runtime) (sett : Settlement) (pay : Payment) (house : Account)
    (st : Status) :
    climb railGrants lockOrder (Sink.reverse rt sett pay house st) (OnOk fun _ _ ↦ True) [] := by
  unfold Sink.reverse
  split
  · trivial
  rw [climb_tx_bind]
  refine climb_postWithin fun je held hlocks ↦ ?_
  rw [climb_stmt_bind]
  rintro ⟨_, seen⟩ current _
  have hnone : ∀ id ∈ (none : Option UUID), exclusive (.journalID id) ∈ held := by simp
  obtain ⟨hclimbs, hafter⟩ := climbs_guardedUpdate
    ((seen.settlement st.txHash).any (·.status = .settled)) (.settlement st.txHash) hlocks.below rfl
    (by decide) hnone
  exact ⟨hclimbs, climb_afterMark hafter⟩

theorem climb_finalize (rt : Audit.Runtime) (st : Status) :
    climb railGrants lockOrder (finalize rt st) (OnOk fun _ _ ↦ True) [] := by
  rw [finalize, climb_stmt_bind]
  rintro ⟨_, seen⟩ current _
  have hnone : ∀ id ∈ (none : Option UUID), exclusive (.journalID id) ∈ [] := by simp
  obtain ⟨hclimbs, hafter⟩ := climbs_guardedUpdate
    ((seen.settlement st.txHash).any (·.status = .settled)) (.settlement st.txHash) (below_nil 2) rfl
    (by decide) hnone
  exact ⟨hclimbs, climb_afterMark hafter⟩

theorem climb_onStatus (rt : Audit.Runtime) (st : Status) :
    climb railGrants lockOrder (onStatus rt st) (OnOk fun _ _ ↦ True) [] := by
  have hresolve : ∀ sett, climb railGrants lockOrder (resolve rt st sett) (OnOk fun _ _ ↦ True)
      [] := by
    intro sett
    refine climb_read (fun _ ↦ rfl) fun read ↦ ?_
    rw [climb_tx_bind, climb_orFail]
    intro pay _
    refine climb_read (fun _ ↦ rfl) fun cleared ↦ ?_
    rw [climb_tx_bind, climb_orFail]
    intro house _
    split
    · exact climb_settle rt sett pay house st
    · exact climb_reverse rt sett pay house st
  have hdispatch : ∀ row, climb railGrants lockOrder (dispatch rt st row) (OnOk fun _ _ ↦ True)
      [] := by
    intro row
    unfold dispatch
    split
    · exact hresolve _
    · split <;> trivial
  unfold onStatus
  split
  · exact climb_read (fun _ ↦ rfl) hdispatch
  · exact climb_read (fun _ ↦ rfl) hdispatch
  · exact climb_finalize rt st
  · trivial
  · trivial

theorem climb_link (paymentID : UUID) (tx : TxHash) :
    climb railGrants lockOrder (link paymentID tx) (OnOk fun _ _ ↦ True) [] := by
  rw [link, climb_stmt_bind]
  rintro ⟨named, seen⟩ current _
  have hkey : Below 3 ([] ++ [exclusive (.settlement tx)]) := (below_nil 2).concat rfl
  have hid : Below 4 ([] ++ [exclusive (.settlement tx)] ++ [exclusive (.settlementID named.uuid)]) :=
    hkey.concat rfl
  refine ⟨⟨admissible_of_below (below_nil 2) rfl, admissible_of_below hkey rfl,
    climbs_single hid rfl⟩, ?_⟩
  unfold linkOutcome
  split
  · trivial
  · split
    · trivial
    · refine climb_read (fun _ ↦ rfl) fun existing ↦ ?_
      rw [climb_tx_bind, climb_orFail]
      intro _ _
      split <;> trivial

theorem climb_body (rt : Audit.Runtime) (call : Call) :
    climb railGrants lockOrder (body rt call) (OnOk fun _ _ ↦ True) [] := by
  cases call with
  | create input =>
    rw [body, climb_tx_bind]
    exact climb_create rt input
  | cancel pid =>
    rw [body, climb_tx_bind]
    exact climb_cancel rt pid
  | link paymentID tx =>
    rw [body, climb_tx_bind]
    exact climb_link paymentID tx
  | onStatus st =>
    rw [body, climb_tx_bind]
    exact climb_onStatus rt st

end Bodies

end PaymentRail.Rail
