import PaymentRail.Transaction.Fault
import Mathlib.Logic.Relation

/-!
# Transactions that wait for each other

The locks of a transaction, with everything else left out.  A `LockTree` is the ways in which a
transaction can go on to ask for locks.  A request is granted when no other transaction holds one that
conflicts with it; locks are kept to the end of the transaction, which may come at any time.

A `LockOrder` ranks the requests so that conflicting ones have the same rank.  If a transaction only
asks for what ranks above everything it holds, or for what a lock it holds covers, then no set of
transactions ever waits in a circle (`Reachable.no_cycle`): along a chain of waiting transactions the
ranks go up.

`Program.locks` reads the tree off a program over a statement interface.  The rules for `climb` derive
the order of the tree from the text of the program.
-/

namespace PaymentRail.Transaction

/-- What a transaction may do with locks: end, ask for one, or go on in one of several ways. -/
inductive LockTree (R : Type) : Type 1 where
  | done
  | lock (request : R) (rest : LockTree R)
  | choose (ι : Type) (next : ι → LockTree R)

/-- When two requests conflict, and the rank of a request. -/
structure LockOrder (R : Type) where
  conflict : R → R → Prop
  rank : R → ℕ
  symm : ∀ {r r' : R}, conflict r r' → conflict r' r
  rank_eq : ∀ {r r' : R}, conflict r r' → rank r = rank r'

/-- An open transaction: what is left of it and the locks it holds. -/
structure Party (R : Type) : Type 1 where
  rest : LockTree R
  held : List R

/-- The open transactions. -/
abbrev LockState (R : Type) : Type 1 := ℕ → Option (Party R)

section Machine

variable {R : Type} (O : LockOrder R) (starts : LockTree R → Prop)

/-- No other transaction holds a lock that conflicts with the request. -/
def Free (s : LockState R) (tid : ℕ) (request : R) : Prop :=
  ∀ other party, other ≠ tid → s other = some party → ∀ r ∈ party.held, ¬O.conflict request r

/-- A step of one transaction.  Closing it is its commit or its abort. -/
inductive LockStep (s : LockState R) : LockState R → Prop
  | start (tid : ℕ) (tree : LockTree R) (hfree : s tid = none) (hstarts : starts tree) :
      LockStep s (Function.update s tid (some ⟨tree, []⟩))
  | choose (tid : ℕ) (ι : Type) (next : ι → LockTree R) (held : List R) (i : ι)
      (hopen : s tid = some ⟨.choose ι next, held⟩) :
      LockStep s (Function.update s tid (some ⟨next i, held⟩))
  | acquire (tid : ℕ) (request : R) (rest : LockTree R) (held : List R)
      (hopen : s tid = some ⟨.lock request rest, held⟩) (hfree : Free O s tid request) :
      LockStep s (Function.update s tid (some ⟨rest, held ++ [request]⟩))
  | close (tid : ℕ) : LockStep s (Function.update s tid none)

/-- The states that are reached from the one without transactions. -/
def Reachable (s : LockState R) : Prop :=
  Relation.ReflTransGen (LockStep O starts) (fun _ ↦ none) s

/-- A transaction waits for a lock that another one holds. -/
def Waits (s : LockState R) (tid other : ℕ) : Prop :=
  tid ≠ other ∧ ∃ request rest held party r, s tid = some ⟨.lock request rest, held⟩ ∧
    s other = some party ∧ r ∈ party.held ∧ O.conflict request r

end Machine

section Order

variable {R : Type} (O : LockOrder R)

/-- A request that ranks above the locks held, or that one of them covers: whatever conflicts with the
request conflicts with that lock already. -/
def Admissible (held : List R) (request : R) : Prop :=
  (∀ r ∈ held, O.rank r < O.rank request) ∨
    ∃ r ∈ held, ∀ other, O.conflict request other → O.conflict r other

/-- Every request of a transaction is admissible when its turn comes. -/
def LockTree.Ordered : LockTree R → List R → Prop
  | .done, _ => True
  | .lock request rest, held => Admissible O held request ∧ rest.Ordered (held ++ [request])
  | .choose ι next, held => ∀ i : ι, (next i).Ordered held

/-- The invariant of the machine: every transaction is in order, and no two hold conflicting locks. -/
structure InOrder (s : LockState R) : Prop where
  ordered : ∀ tid party, s tid = some party → party.rest.Ordered O party.held
  apart : ∀ tid tid' party party', tid ≠ tid' → s tid = some party → s tid' = some party' →
    ∀ r ∈ party.held, ∀ r' ∈ party'.held, ¬O.conflict r r'

variable {O} {s s' : LockState R}

/-- Another state of one transaction keeps the invariant, if that transaction stays in order and apart
from the others. -/
theorem InOrder.update (h : InOrder O s) (tid : ℕ) (next : Option (Party R))
    (hnext : ∀ party, next = some party → party.rest.Ordered O party.held ∧
      ∀ other party', other ≠ tid → s other = some party' →
        ∀ r ∈ party.held, ∀ r' ∈ party'.held, ¬O.conflict r r') :
    InOrder O (Function.update s tid next) where
  ordered := by
    intro other party hparty
    by_cases hother : other = tid
    · subst hother
      rw [Function.update_self] at hparty
      exact (hnext party hparty).1
    · rw [Function.update_of_ne hother] at hparty
      exact h.ordered other party hparty
  apart := by
    intro first second party party' hne hfirst hsecond r hr r' hr' hconflict
    by_cases hself : first = tid
    · subst hself
      rw [Function.update_self] at hfirst
      rw [Function.update_of_ne (Ne.symm hne)] at hsecond
      exact (hnext party hfirst).2 second party' (Ne.symm hne) hsecond r hr r' hr' hconflict
    · rw [Function.update_of_ne hself] at hfirst
      by_cases hself' : second = tid
      · subst hself'
        rw [Function.update_self] at hsecond
        exact (hnext party' hsecond).2 first party hne hfirst r' hr' r hr (O.symm hconflict)
      · rw [Function.update_of_ne hself'] at hsecond
        exact h.apart first second party party' hne hfirst hsecond r hr r' hr' hconflict

theorem InOrder.step {starts : LockTree R → Prop} (hstarts : ∀ tree, starts tree → tree.Ordered O [])
    (h : InOrder O s) (hstep : LockStep O starts s s') : InOrder O s' := by
  cases hstep with
  | start tid tree _ htree =>
    refine h.update tid _ fun party hparty ↦ ?_
    obtain rfl := Option.some.inj hparty
    exact ⟨hstarts tree htree, by simp⟩
  | choose tid ι next held i hopen =>
    refine h.update tid _ fun party hparty ↦ ?_
    obtain rfl := Option.some.inj hparty
    refine ⟨h.ordered tid _ hopen i, fun other party' hother hparty' r hr r' hr' ↦ ?_⟩
    exact h.apart tid other _ party' (Ne.symm hother) hopen hparty' r hr r' hr'
  | acquire tid request rest held hopen hfree =>
    refine h.update tid _ fun party hparty ↦ ?_
    obtain rfl := Option.some.inj hparty
    refine ⟨(h.ordered tid _ hopen).2, fun other party' hother hparty' r hr r' hr' ↦ ?_⟩
    rcases List.mem_append.mp hr with hheld | hnew
    · exact h.apart tid other _ party' (Ne.symm hother) hopen hparty' r hheld r' hr'
    · rw [List.mem_singleton.mp hnew]
      exact hfree other party' hother hparty' r' hr'
  | close tid => exact h.update tid none fun party hparty ↦ by cases hparty

/-- The invariant holds in every reachable state. -/
theorem Reachable.inOrder {starts : LockTree R → Prop}
    (hstarts : ∀ tree, starts tree → tree.Ordered O []) (h : Reachable O starts s) : InOrder O s := by
  induction h with
  | refl => exact ⟨nofun, nofun⟩
  | tail _ hstep ih => exact ih.step hstarts hstep

/-- The rank of what a transaction asks for next. -/
def asked (O : LockOrder R) (s : LockState R) (tid : ℕ) : ℕ :=
  match s tid with
  | some ⟨.lock request _, _⟩ => O.rank request
  | _ => 0

/-- A transaction that others wait for asks for more than they do: it holds what they ask for, and
asks for something above it. -/
theorem InOrder.asked_lt (h : InOrder O s) {first second third : ℕ} (hwaits : Waits O s first second)
    (hwaits' : Waits O s second third) : asked O s first < asked O s second := by
  obtain ⟨-, request, rest, held, party, r, hfirst, hsecond, hr, hconflict⟩ := hwaits
  obtain ⟨hne, request', rest', held', party', r', hsecond', hthird, hr', hconflict'⟩ := hwaits'
  obtain rfl := Option.some.inj (hsecond.symm.trans hsecond')
  rcases (h.ordered second _ hsecond).1 with habove | ⟨own, hown, hcovers⟩
  · calc asked O s first = O.rank request := by simp only [asked, hfirst]
      _ = O.rank r := O.rank_eq hconflict
      _ < O.rank request' := habove r hr
      _ = asked O s second := by simp only [asked, hsecond]
  · -- a request that is covered conflicts with no lock of another transaction
    exact absurd (hcovers r' hconflict') (h.apart second third _ _ hne hsecond hthird own hown r' hr')

/-- Along a chain of waiting transactions the ranks of what they ask for go up. -/
theorem InOrder.asked_lt_of_chain (h : InOrder O s) {first last : ℕ}
    (hchain : Relation.TransGen (Waits O s) first last) {next : ℕ} (hlast : Waits O s last next) :
    asked O s first < asked O s last := by
  induction hchain generalizing next with
  | single hwaits => exact h.asked_lt hwaits hlast
  | tail _ hwaits ih => exact Nat.lt_trans (ih hwaits) (h.asked_lt hwaits hlast)

/-- Transactions that respect the order never wait in a circle. -/
theorem Reachable.no_cycle {starts : LockTree R → Prop}
    (hstarts : ∀ tree, starts tree → tree.Ordered O []) (h : Reachable O starts s) (tid : ℕ) :
    ¬Relation.TransGen (Waits O s) tid tid := by
  intro hcycle
  obtain ⟨next, hnext, -⟩ := Relation.TransGen.head'_iff.mp hcycle
  exact Nat.lt_irrefl _ ((h.inOrder hstarts).asked_lt_of_chain hcycle hnext)

end Order

/-! ### The locks of a program -/

/-- What the statements of an interface lock and reply, on the tables that they see. -/
structure Grants {Stmt : Type} (Reply : Stmt → Type) (World R : Type) where
  requests : Stmt → World → List R
  reply : (stmt : Stmt) → World → Reply stmt

/-- Ask for several locks one after the other. -/
def LockTree.lockAll {R : Type} : List R → LockTree R → LockTree R
  | [], rest => rest
  | request :: requests, rest => .lock request (lockAll requests rest)

variable {Stmt : Type} {Reply : Stmt → Type} {World R ε α β : Type}

/-- The locks of a program.  A statement asks for the locks of what it sees first, and replies from what
it sees when it has them: any tables on which it needs no lock besides. -/
def Program.locks (G : Grants Reply World R) : Program Reply α → LockTree R
  | .done _ => .done
  | .call stmt next =>
    .choose { worlds : World × World // G.requests stmt worlds.2 ⊆ G.requests stmt worlds.1 }
      fun worlds ↦ LockTree.lockAll (G.requests stmt worlds.1.1)
        ((next (G.reply stmt worlds.1.2)).locks G)

section Climb

variable (G : Grants Reply World R) (O : LockOrder R)

/-- Each of some requests is admissible when its turn comes. -/
def Climbs : List R → List R → Prop
  | _, [] => True
  | held, request :: requests => Admissible O held request ∧ Climbs (held ++ [request]) requests

/-- The program respects the order, and when it ends the postcondition holds of its result and of the
locks it holds. -/
def climb : Program Reply α → (α → List R → Prop) → List R → Prop
  | .done result, post, held => post result held
  | .call stmt next, post, held => ∀ seen current, G.requests stmt current ⊆ G.requests stmt seen →
      Climbs O held (G.requests stmt seen) ∧
        climb (next (G.reply stmt current)) post (held ++ G.requests stmt seen)

variable {G O} {held : List R}

theorem LockTree.ordered_lockAll {requests : List R} {rest : LockTree R}
    (h : Climbs O held requests) (hrest : rest.Ordered O (held ++ requests)) :
    (lockAll requests rest).Ordered O held := by
  induction requests generalizing held with
  | nil =>
    rw [List.append_nil] at hrest
    exact hrest
  | cons request requests ih => exact ⟨h.1, ih h.2 (by simpa using hrest)⟩

/-- A program that climbs has an ordered tree. -/
theorem ordered_of_climb {program : Program Reply α} {post : α → List R → Prop}
    (h : climb G O program post held) : (program.locks G).Ordered O held := by
  induction program generalizing held with
  | done result => trivial
  | call stmt next ih =>
    rintro ⟨⟨seen, current⟩, hsubset⟩
    obtain ⟨hclimbs, hrest⟩ := h seen current hsubset
    exact LockTree.ordered_lockAll hclimbs (ih _ hrest)

theorem climb_bind {program : Program Reply α} {rest : α → Program Reply β}
    {post : β → List R → Prop} :
    climb G O (program.bind rest) post held ↔
      climb G O program (fun a ↦ climb G O (rest a) post) held := by
  induction program generalizing held with
  | done result => rfl
  | call stmt next ih =>
    simp only [Program.bind_call, climb]
    exact forall_congr' fun seen ↦ forall_congr' fun current ↦ forall_congr' fun _ ↦
      and_congr_right fun _ ↦ ih _

theorem climb_mono {program : Program Reply α} {post post' : α → List R → Prop}
    (hpost : ∀ a l, post a l → post' a l) (h : climb G O program post held) :
    climb G O program post' held := by
  induction program generalizing held with
  | done result => exact hpost _ _ h
  | call stmt next ih =>
    intro seen current hsubset
    obtain ⟨hclimbs, hrest⟩ := h seen current hsubset
    exact ⟨hclimbs, ih _ hrest⟩

/-- A postcondition for the successful end of a body. -/
def OnOk (post : α → List R → Prop) : Except ε α → List R → Prop
  | .ok value => post value
  | .error _ => fun _ ↦ True

theorem climb_tx_bind {body : Tx Reply ε α} {rest : α → Tx Reply ε β} {post : β → List R → Prop} :
    climb G O (body >>= rest : Tx Reply ε β) (OnOk post) held ↔
      climb G O body (OnOk fun value ↦ climb G O (rest value) (OnOk post)) held := by
  have hthen : ∀ result, climb G O (Tx.andThen rest result) (OnOk post) =
      OnOk (fun value ↦ climb G O (rest value) (OnOk post)) result := by
    intro result
    cases result <;> rfl
  have hbind : climb G O (body >>= rest : Tx Reply ε β) (OnOk post) held ↔
      climb G O body (fun result ↦ climb G O (Tx.andThen rest result) (OnOk post)) held := climb_bind
  simp only [hbind, hthen]

theorem climb_ok_mono {body : Tx Reply ε α} {post post' : α → List R → Prop}
    (hpost : ∀ a l, post a l → post' a l) (h : climb G O body (OnOk post) held) :
    climb G O body (OnOk post') held := by
  refine climb_mono (fun result l hresult ↦ ?_) h
  cases result with
  | ok value => exact hpost value l hresult
  | error err => trivial

theorem climb_ofExcept {result : Except ε α} {post : α → List R → Prop} :
    climb G O (Tx.ofExcept result : Tx Reply ε α) (OnOk post) held ↔
      ∀ value, result = .ok value → post value held := by
  cases result with
  | ok value => exact ⟨fun h other hother ↦ Except.ok.inj hother ▸ h, fun h ↦ h value rfl⟩
  | error err => exact ⟨fun _ ↦ nofun, fun _ ↦ trivial⟩

/-- One statement followed by the rest of a body. -/
theorem climb_stmt_bind {stmt : Stmt} {rest : Reply stmt → Tx Reply ε α}
    {post : Except ε α → List R → Prop} :
    climb G O (Tx.stmt stmt >>= rest : Tx Reply ε α) post held ↔
      ∀ seen current, G.requests stmt current ⊆ G.requests stmt seen →
        Climbs O held (G.requests stmt seen) ∧
          climb G O (rest (G.reply stmt current)) post (held ++ G.requests stmt seen) := Iff.rfl

/-- A reply that is handed on. -/
theorem climb_tx_orFail {reply : Except ε α} {context : ε → ε} {post : α → List R → Prop} :
    climb G O (Tx.orFail reply context : Tx Reply ε α) (OnOk post) held ↔
      ∀ value, reply = .ok value → post value held := by
  rw [Tx.orFail, climb_ofExcept]
  exact forall_congr' fun value ↦ imp_congr mapError_eq_ok Iff.rfl

/-- A statement that locks nothing. -/
theorem climb_read {stmt : Stmt} {rest : Reply stmt → Tx Reply ε α}
    {post : Except ε α → List R → Prop} (hreads : ∀ world, G.requests stmt world = [])
    (h : ∀ reply, climb G O (rest reply) post held) :
    climb G O (Tx.stmt stmt >>= rest : Tx Reply ε α) post held := by
  rw [climb_stmt_bind]
  intro seen current _
  rw [hreads seen, List.append_nil]
  exact ⟨trivial, h _⟩

end Climb

end PaymentRail.Transaction
