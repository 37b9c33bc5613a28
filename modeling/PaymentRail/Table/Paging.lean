import PaymentRail.Table.Keyset

/-!
# Following cursors through a changing table

Each request reads one page behind the cursor of the page before, from the table as it is then.  A page
is read with one row more than it shows, which tells whether there is a next one.

Whatever is inserted between the requests, the keys increase over all pages, and a row that was there
from the first request on is on one of them once the pages come to an end.  They do as long as nothing
is inserted behind the cursor.
-/

namespace PaymentRail.Table

/-- What a request sees: the table at its time and the size of the page it asks for. -/
structure Visit (Row : Type) where
  rows : List Row
  limit : ℕ

variable {Row Key : Type} [LinearOrder Key] (key : Row → Key)

def page (visit : Visit Row) (cursor : Option Key) : List Row :=
  (after key visit.rows cursor).take visit.limit

/-- The cursor behind a page, if there are more rows than it shows. -/
def nextCursor (visit : Visit Row) (cursor : Option Key) : Option Key :=
  if visit.limit < (after key visit.rows cursor).length then (page key visit cursor).getLast?.map key
  else none

/-- The pages up to the one without a cursor behind it. -/
def pages (cursor : Option Key) : List (Visit Row) → List (List Row)
  | [] => []
  | visit :: rest =>
    page key visit cursor :: (nextCursor key visit cursor).elim [] fun next ↦ pages (some next) rest

/-- The pages come to an end. -/
def Ends (cursor : Option Key) : List (Visit Row) → Prop
  | [] => False
  | visit :: rest => ∀ next, nextCursor key visit cursor = some next → Ends (some next) rest

/-- No row is inserted behind the cursor. -/
def Undisturbed (cursor : Option Key) : List (Visit Row) → Prop
  | visit :: later :: rest => ∀ next, nextCursor key visit cursor = some next →
      (∀ row ∈ later.rows, next < key row → key row ∈ visit.rows.map key) ∧
        Undisturbed (some next) (later :: rest)
  | _ => True

variable {key} {visit : Visit Row} {cursor : Option Key} {next : Key}

theorem mem_after {rows : List Row} {row : Row} :
    row ∈ after key rows cursor ↔ row ∈ rows ∧ ∀ place, cursor = some place → place < key row := by
  have hmem : row ∈ ordered key rows ↔ row ∈ rows := List.mem_insertionSort _
  cases cursor with
  | none => simp [after, hmem]
  | some place => simp [after, hmem]

/-- Under distinct keys the rows behind a cursor are in strict order. -/
theorem strict_after {rows : List Row} (hnodup : (rows.map key).Nodup) (cursor : Option Key) :
    ((after key rows cursor).map key).Pairwise (· < ·) := by
  have hdistinct : ((after key rows cursor).map key).Nodup :=
    (nodup_ordered hnodup).sublist ((sublist_after rows cursor).map key)
  have hsorted : ((after key rows cursor).map key).Pairwise (· ≤ ·) :=
    List.pairwise_map.mpr (pairwise_after key rows cursor)
  exact (hsorted.and hdistinct).imp fun h ↦ lt_of_le_of_ne h.1 h.2

/-- A page with a cursor behind it ends with a row at the cursor. -/
theorem exists_last_of_nextCursor (h : nextCursor key visit cursor = some next) :
    visit.limit < (after key visit.rows cursor).length ∧
      ∃ row, (page key visit cursor).getLast? = some row ∧ key row = next := by
  unfold nextCursor at h
  split at h
  · next hmore => exact ⟨hmore, Option.map_eq_some_iff.mp h⟩
  · cases h

/-- Without a cursor behind it a page shows all the rows that are left. -/
theorem page_of_nextCursor_none (hlimit : 0 < visit.limit) (h : nextCursor key visit cursor = none) :
    page key visit cursor = after key visit.rows cursor := by
  unfold nextCursor at h
  split at h
  · next hmore =>
    have hempty : page key visit cursor = [] := by
      rw [Option.map_eq_none_iff, List.getLast?_eq_none_iff] at h
      exact h
    have hlength := congrArg List.length hempty
    rw [page, List.length_take, List.length_nil] at hlength
    omega
  · next hall => exact List.take_of_length_le (Nat.le_of_not_lt hall)

/-- Every row of a page is in the table of its request. -/
theorem mem_of_mem_pages {visits : List (Visit Row)} {row : Row}
    (h : row ∈ (pages key cursor visits).flatten) : ∃ visit ∈ visits, row ∈ visit.rows := by
  induction visits generalizing cursor with
  | nil => cases h
  | cons visit rest ih =>
    rw [pages, List.flatten_cons, List.mem_append] at h
    rcases h with hrow | hrow
    · exact ⟨visit, List.mem_cons_self .., (mem_after.mp (List.mem_of_mem_take hrow)).1⟩
    · cases hnext : nextCursor key visit cursor with
      | none =>
        rw [hnext] at hrow
        cases hrow
      | some next =>
        rw [hnext] at hrow
        obtain ⟨other, hother, hmem⟩ := ih hrow
        exact ⟨other, List.mem_cons_of_mem _ hother, hmem⟩

/-- No page is longer than its request asks for. -/
theorem length_le_of_mem_zip {visits : List (Visit Row)} {shown : List Row} {visit : Visit Row}
    (h : (shown, visit) ∈ (pages key cursor visits).zip visits) : shown.length ≤ visit.limit := by
  induction visits generalizing cursor with
  | nil => simp [pages] at h
  | cons first rest ih =>
    rw [pages, List.zip_cons_cons, List.mem_cons] at h
    rcases h with heq | h
    · obtain ⟨rfl, rfl⟩ := Prod.mk.inj heq
      exact List.length_take_le ..
    · cases hnext : nextCursor key first cursor with
      | none =>
        rw [hnext] at h
        cases h
      | some next =>
        rw [hnext] at h
        exact ih h

/-- The keys increase over all pages and lie behind the cursor. -/
theorem pages_increasing {visits : List (Visit Row)}
    (hnodup : ∀ visit ∈ visits, (visit.rows.map key).Nodup) :
    ((pages key cursor visits).flatten.map key).Pairwise (· < ·) ∧
      ∀ row ∈ (pages key cursor visits).flatten, ∀ place, cursor = some place → place < key row := by
  induction visits generalizing cursor with
  | nil => exact ⟨.nil, fun row hrow ↦ nomatch hrow⟩
  | cons visit rest ih =>
    have hstrict := strict_after (hnodup visit (List.mem_cons_self ..)) cursor
    have hpage : ∀ row ∈ page key visit cursor, row ∈ after key visit.rows cursor :=
      fun row ↦ List.mem_of_mem_take
    rw [pages]
    cases hnext : nextCursor key visit cursor with
    | none =>
      rw [Option.elim_none, List.flatten_cons, List.flatten_nil, List.append_nil]
      exact ⟨hstrict.sublist ((List.take_sublist ..).map key),
        fun row hrow ↦ (mem_after.mp (hpage row hrow)).2⟩
    | some next =>
      obtain ⟨-, last, hlast, rfl⟩ := exists_last_of_nextCursor hnext
      have hlater := @ih (some (key last)) fun visit hvisit ↦
        hnodup visit (List.mem_cons_of_mem _ hvisit)
      rw [Option.elim_some, List.flatten_cons, List.map_append]
      -- a later row lies behind the cursor, which is at the end of this page
      have hbetween : ∀ row ∈ page key visit cursor, key row ≤ key last := by
        intro row hrow
        obtain ⟨front, hfront⟩ := List.getLast?_eq_some_iff.mp hlast
        have hsorted := (pairwise_after key visit.rows cursor).sublist (List.take_sublist visit.limit _)
        rw [← page, hfront] at hsorted
        rw [hfront] at hrow
        rcases List.mem_append.mp hrow with hrow | hrow
        · exact (List.pairwise_append.mp hsorted).2.2 row hrow last (List.mem_singleton_self _)
        · exact (congrArg key (List.mem_singleton.mp hrow)).le
      refine ⟨List.pairwise_append.mpr ⟨hstrict.sublist ((List.take_sublist ..).map key), hlater.1, ?_⟩,
        ?_⟩
      · intro earlier hearlier later hlater'
        obtain ⟨row, hrow, rfl⟩ := List.mem_map.mp hearlier
        obtain ⟨row', hrow', rfl⟩ := List.mem_map.mp hlater'
        exact (hbetween row hrow).trans_lt (hlater.2 row' hrow' _ rfl)
      · intro row hrow place hplace
        rcases List.mem_append.mp hrow with hrow | hrow
        · exact (mem_after.mp (hpage row hrow)).2 place hplace
        · have hbehind := (mem_after.mp (hpage last (List.mem_of_getLast? hlast))).2 place hplace
          exact hbehind.trans (hlater.2 row hrow _ rfl)

/-- A row that is there all the time is found. -/
theorem mem_pages_of_ends {visits : List (Visit Row)}
    (hnodup : ∀ visit ∈ visits, (visit.rows.map key).Nodup) (hlimit : ∀ visit ∈ visits, 0 < visit.limit)
    {k : Key} (hk : ∀ visit ∈ visits, k ∈ visit.rows.map key)
    (hcursor : ∀ place, cursor = some place → place < k)
    (hends : Ends key cursor visits) : k ∈ (pages key cursor visits).flatten.map key := by
  induction visits generalizing cursor with
  | nil => exact hends.elim
  | cons visit rest ih =>
    obtain ⟨row, hrow, rfl⟩ := List.mem_map.mp (hk visit (List.mem_cons_self ..))
    have hafter : row ∈ after key visit.rows cursor := mem_after.mpr ⟨hrow, hcursor⟩
    have hhere := hlimit visit (List.mem_cons_self ..)
    rw [pages, List.flatten_cons, List.map_append, List.mem_append]
    cases hnext : nextCursor key visit cursor with
    | none =>
      rw [page_of_nextCursor_none hhere hnext]
      exact .inl (List.mem_map_of_mem hafter)
    | some next =>
      obtain ⟨-, last, hlast, rfl⟩ := exists_last_of_nextCursor hnext
      by_cases hshown : row ∈ page key visit cursor
      · exact .inl (List.mem_map_of_mem hshown)
      · have hdrop : row ∈ (after key visit.rows cursor).drop visit.limit := by
          rw [← List.take_append_drop visit.limit (after key visit.rows cursor)] at hafter
          exact (List.mem_append.mp hafter).resolve_left hshown
        have hbehind : row ∈ after key visit.rows (some (key last)) := by
          rw [after_page_of_nodup (hnodup visit (List.mem_cons_self ..)) hlast]
          exact hdrop
        refine .inr (ih (fun other hother ↦ hnodup other (List.mem_cons_of_mem _ hother))
          (fun other hother ↦ hlimit other (List.mem_cons_of_mem _ hother))
          (fun other hother ↦ hk other (List.mem_cons_of_mem _ hother)) ?_ (hends _ hnext))
        exact (mem_after.mp hbehind).2

/-- As long as nothing is inserted behind the cursor, there are at most as many pages as rows. -/
theorem ends_of_undisturbed {visits : List (Visit Row)} {first : Visit Row}
    (hnodup : ∀ visit ∈ first :: visits, (visit.rows.map key).Nodup)
    (hlimit : ∀ visit ∈ first :: visits, 0 < visit.limit)
    (hquiet : Undisturbed key cursor (first :: visits))
    (hlength : (after key first.rows cursor).length ≤ visits.length) :
    Ends key cursor (first :: visits) := by
  induction visits generalizing cursor first with
  | nil =>
    intro next hnext
    have hmore := (exists_last_of_nextCursor hnext).1
    have hhere := hlimit first (List.mem_cons_self ..)
    rw [List.length_nil] at hlength
    omega
  | cons later rest ih =>
    intro next hnext
    obtain ⟨hinserted, hquiet⟩ := hquiet next hnext
    obtain ⟨-, last, hlast, rfl⟩ := exists_last_of_nextCursor hnext
    refine ih (fun visit hvisit ↦ hnodup visit (List.mem_cons_of_mem _ hvisit))
      (fun visit hvisit ↦ hlimit visit (List.mem_cons_of_mem _ hvisit)) hquiet ?_
    have hfewer := length_after_page_lt hlast
    have hsubset : (after key later.rows (some (key last))).map key ⊆
        (after key first.rows (some (key last))).map key := by
      intro k hk
      obtain ⟨row, hrow, rfl⟩ := List.mem_map.mp hk
      obtain ⟨hrow, hbehind⟩ := mem_after.mp hrow
      obtain ⟨row', hrow', hkey⟩ := List.mem_map.mp (hinserted row hrow (hbehind _ rfl))
      rw [← hkey]
      refine List.mem_map_of_mem (mem_after.mpr ⟨hrow', fun place hplace ↦ ?_⟩)
      rw [hkey]
      exact hbehind place hplace
    have hdistinct : ((after key later.rows (some (key last))).map key).Nodup :=
      (strict_after (hnodup later (by simp)) _).imp ne_of_lt
    have hcount := (List.subperm_of_subset hdistinct hsubset).length_le
    rw [List.length_map, List.length_map] at hcount
    rw [List.length_cons] at hlength
    omega

end PaymentRail.Table
