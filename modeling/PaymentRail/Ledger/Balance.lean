import PaymentRail.Db.Queries

/-!
# Balanced entries and projected balances

The pure part of `internal/ledger`: `Balanced`, `ApplyToBalances` and the checks `PostWithin` makes
on an entry and its accounts.  Amounts and balances are 64-bit integers that wrap around, as in the
code.

For an entry of two lines that moves an amount from one account to another, a projection that is
accepted on balances in `[0, 2^63)` is exact: the account debited holds the amount and the account
credited can take it.
-/

namespace PaymentRail.Ledger

open Transaction

structure Line where
  accountID : UUID
  direction : Direction
  amount : Int64
  deriving DecidableEq

structure Entry where
  kind : String
  externalRef : String
  asset : String
  lines : List Line
  deriving DecidableEq

def errUnbalanced : Err := ⟨"ledger: entry is unbalanced", some .errUnbalanced⟩

def errInsufficientFunds : Err := ⟨"ledger: insufficient funds", some .errInsufficientFunds⟩

def errDuplicateEntry : Err := ⟨"ledger: duplicate entry", some .errDuplicateEntry⟩

def errInvalidEntry : Err := ⟨"ledger: invalid entry", some .errInvalidEntry⟩

/-- The `%q` verb, for texts of printable characters. -/
def quote (text : String) : String :=
  "\"" ++ String.ofList (text.toList.flatMap fun c ↦
    if c = '"' ∨ c = '\\' then ['\\', c] else [c]) ++ "\""

def errUnknownDirection (text : String) : Err :=
  errInvalidEntry.wrap ("ledger: unknown direction " ++ quote text)

/-- The loop of `Balanced`, with its two running sums. -/
def sumLines : List Line → Int64 → Int64 → Except Err Unit
  | [], debits, credits =>
    if debits ≠ credits then
      .error (errUnbalanced.wrap
        ("ledger: debits " ++ toString debits ++ " != credits " ++ toString credits))
    else .ok ()
  | line :: rest, debits, credits =>
    if line.amount ≤ 0 then
      .error (errInvalidEntry.wrap
        ("ledger: line amount must be positive, got " ++ toString line.amount))
    else
      match line.direction with
      | .debit => sumLines rest (debits + line.amount) credits
      | .credit => sumLines rest debits (credits + line.amount)
      | .other text => .error (errUnknownDirection text)

def balanced (lines : List Line) : Except Err Unit :=
  match lines with
  | [] => .error (errInvalidEntry.wrap "ledger: entry has no lines")
  | _ => sumLines lines 0 0

def Entry.validate (entry : Entry) : Except Err Unit :=
  if entry.kind = "" ∨ entry.asset = "" ∨ entry.externalRef = "" then
    .error (errInvalidEntry.wrap "ledger: kind, asset and external_ref are required")
  else balanced entry.lines

/-- A Go map from accounts to balances, as a list of its pairs. -/
abbrev Balances := List (UUID × Int64)

namespace Balances

/-- `m[id]`, zero for a missing key. -/
def get (balances : Balances) (id : UUID) : Int64 :=
  ((Table.lookup Prod.fst balances id).map Prod.snd).getD 0

/-- `m[id] = f(m[id])`. -/
def update (balances : Balances) (id : UUID) (f : Int64 → Int64) : Balances :=
  if (Table.lookup Prod.fst balances id).isSome then
    Table.modify Prod.fst balances id fun pair ↦ (pair.1, f pair.2)
  else balances ++ [(id, f 0)]

theorem get_update_self (balances : Balances) (id : UUID) (f : Int64 → Int64) :
    (balances.update id f).get id = f (balances.get id) := by
  unfold update get
  cases hrow : Table.lookup Prod.fst balances id with
  | none =>
    have hself : Table.lookup Prod.fst (balances ++ [(id, f 0)]) id = some (id, f 0) :=
      Table.lookup_append_self hrow
    simp [hself]
  | some pair => simp [Table.lookup_modify_self, hrow]

theorem get_update_of_ne (balances : Balances) {id id' : UUID} (f : Int64 → Int64) (h : id' ≠ id) :
    (balances.update id f).get id' = balances.get id' := by
  unfold update get
  split
  · have hrow : Table.lookup Prod.fst
        (Table.modify Prod.fst balances id fun pair ↦ (pair.1, f pair.2)) id' =
          Table.lookup Prod.fst balances id' :=
      Table.lookup_modify_of_ne (fun _ ↦ rfl) h
    rw [hrow]
  · rw [Table.lookup_append_of_ne (Ne.symm h)]

/-- A key that is not found reads as zero, so a negative value is stored under its key. -/
theorem exists_mem_of_get_neg {balances : Balances} {id : UUID} (h : balances.get id < 0) :
    ∃ pair ∈ balances, pair.2 < 0 := by
  unfold get at h
  cases hrow : Table.lookup Prod.fst balances id with
  | none =>
    rw [hrow] at h
    exact absurd h (by decide)
  | some pair =>
    rw [hrow] at h
    exact ⟨pair, Table.mem_of_lookup hrow, h⟩

end Balances

/-- The first loop of `ApplyToBalances`: each line applied to the copy. -/
def applyLines : List Line → Balances → Except Err Balances
  | [], next => .ok next
  | line :: rest, next =>
    match line.direction with
    | .credit => applyLines rest (next.update line.accountID (· + line.amount))
    | .debit => applyLines rest (next.update line.accountID (· - line.amount))
    | .other text => .error (errUnknownDirection text)

/-- `ApplyToBalances`.  Go visits the map in no fixed order; the account named in the error is the
first one here. -/
def applyToBalances (cur : Balances) (lines : List Line) : Except Err Balances :=
  match applyLines lines cur with
  | .error err => .error err
  | .ok next =>
    match next.find? fun pair ↦ pair.2 < 0 with
    | some (id, bal) =>
      .error (errInsufficientFunds.wrap
        ("ledger: account " ++ id.string ++ " balance " ++ toString bal ++ " < 0"))
    | none => .ok next

/-- The distinct accounts of some lines, in the order of their ids. -/
def accountIDs (lines : List Line) : List UUID :=
  (lines.foldl (fun ids line ↦ if line.accountID ∈ ids then ids else ids ++ [line.accountID])
    []).insertionSort (· ≤ ·)

/-- `checkAccounts`: every account was locked, is active and holds the asset. -/
def checkAccounts (accounts : List Account) (asset : String) : List UUID → Except Err Unit
  | [] => .ok ()
  | id :: rest =>
    match Table.lookup Account.id accounts id with
    | none => .error (errInvalidEntry.wrap ("ledger: account " ++ id.string ++ " does not exist"))
    | some account =>
      if account.status ≠ "active" then
        .error (errInvalidEntry.wrap
          ("ledger: account " ++ id.string ++ " is " ++ account.status ++ ", not active"))
      else if account.asset ≠ asset then
        .error (errInvalidEntry.wrap ("ledger: account " ++ id.string ++ " asset " ++
          quote account.asset ++ " != entry asset " ++ quote asset))
      else checkAccounts accounts asset rest

/-- An accepted projection leaves no balance negative. -/
theorem nonneg_of_applyToBalances {cur next : Balances} {lines : List Line}
    (h : applyToBalances cur lines = .ok next) (id : UUID) : 0 ≤ next.get id := by
  unfold applyToBalances at h
  split at h
  · cases h
  · split at h
    · cases h
    · next hnone =>
      obtain rfl := Except.ok.inj h
      by_contra hneg
      obtain ⟨pair, hpair, hlt⟩ := Balances.exists_mem_of_get_neg (Int64.not_le.mp hneg)
      simpa [hlt] using List.find?_eq_none.mp hnone pair hpair

/-- The entry that moves an amount from one account to another. -/
def Entry.transfer (kind externalRef asset : String) (debited credited : UUID) (amount : Int64) :
    Entry where
  kind := kind
  externalRef := externalRef
  asset := asset
  lines := [⟨debited, .debit, amount⟩, ⟨credited, .credit, amount⟩]

section Transfer

variable {kind externalRef asset : String} {debited credited : UUID} {amount : Int64}

theorem amount_pos_of_validate
    (h : (Entry.transfer kind externalRef asset debited credited amount).validate = .ok ()) :
    0 < amount.toInt := by
  by_contra hle
  have hamount : amount ≤ 0 := Int64.le_iff_toInt_le.mpr (by simpa using hle)
  unfold Entry.validate at h
  split at h
  · cases h
  · simp [Entry.transfer, balanced, sumLines, hamount] at h

/-- The projection of a transfer does not wrap around where it is accepted. -/
theorem transfer_exact {cur next : Balances} (hne : debited ≠ credited) (hamount : 0 < amount.toInt)
    (hdebited : 0 ≤ (cur.get debited).toInt) (hcredited : 0 ≤ (cur.get credited).toInt)
    (h : applyToBalances cur
      (Entry.transfer kind externalRef asset debited credited amount).lines = .ok next) :
    amount.toInt ≤ (cur.get debited).toInt ∧
      (cur.get credited).toInt + amount.toInt < 2 ^ 63 := by
  have hnext : next =
      (cur.update debited (· - amount)).update credited (· + amount) := by
    unfold applyToBalances at h
    split at h
    · cases h
    · next hlines =>
      split at h
      · cases h
      · obtain rfl := Except.ok.inj h
        exact (Except.ok.inj hlines).symm
  have hget : ∀ id, 0 ≤ (next.get id).toInt := fun id ↦ by
    simpa using Int64.le_iff_toInt_le.mp (nonneg_of_applyToBalances h id)
  have hfirst : 0 ≤ (cur.get debited - amount).toInt := by
    simpa [hnext, Balances.get_update_of_ne _ _ hne, Balances.get_update_self] using hget debited
  have hsecond : 0 ≤ (cur.get credited + amount).toInt := by
    simpa [hnext, Balances.get_update_of_ne _ _ (Ne.symm hne), Balances.get_update_self] using
      hget credited
  rw [Int64.toInt_sub, Int.bmod_def] at hfirst
  rw [Int64.toInt_add, Int.bmod_def] at hsecond
  have hdebited' := (cur.get debited).toInt_lt
  have hcredited' := (cur.get credited).toInt_lt
  have hamount' := amount.toInt_lt
  constructor <;> omega

end Transfer

end PaymentRail.Ledger
