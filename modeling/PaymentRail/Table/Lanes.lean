import Mathlib.Data.List.Basic
import Mathlib.Data.List.Perm.Subperm

/-!
# Lists that are taken in lanes

The rows of a list belong to lanes, one for each key.  `taken` takes rows one after the other, each
time the first row that is left of some lane.  What is taken of a lane is a prefix of that lane, and
every list of which that is true can be taken.
-/

namespace PaymentRail.Table

variable {Row Key : Type} [DecidableEq Key] (key : Row → Key)

/-- The rows of a lane. -/
def lane (rows : List Row) (k : Key) : List Row := rows.filter fun row ↦ key row = k

/-- The rows that are taken from a list, in the order of the lanes from which they are taken. -/
def taken : List Key → List Row → List Row
  | [], _ => []
  | k :: picks, rows =>
    match rows.find? fun row ↦ key row = k with
    | none => taken picks rows
    | some row => row :: taken picks (rows.eraseP fun row ↦ key row = k)

variable {key} {rows : List Row} {picks : List Key} {k : Key} {row : Row}

/-- The first row of a lane stands between rows of other lanes and the rest. -/
theorem split_of_find (h : (rows.find? fun row ↦ key row = k) = some row) :
    key row = k ∧ ∃ front back, rows = front ++ row :: back ∧ (∀ other ∈ front, key other ≠ k) ∧
      (rows.eraseP fun row ↦ key row = k) = front ++ back := by
  obtain ⟨hrow, front, back, rfl, hfront⟩ := List.find?_eq_some_iff_append.mp h
  have hkey : key row = k := of_decide_eq_true hrow
  have hother : ∀ other ∈ front, key other ≠ k := fun other hother heq ↦ by
    simpa [heq] using hfront other hother
  refine ⟨hkey, front, back, rfl, hother, ?_⟩
  rw [List.eraseP_append_right _ fun other hmem ↦ by simpa using hother other hmem,
    List.eraseP_cons_of_pos (by simpa using hkey)]

theorem lane_of_ne {front : List Row} (h : ∀ other ∈ front, key other ≠ k) : lane key front k = [] :=
  List.filter_eq_nil_iff.mpr fun other hother ↦ by simpa using h other hother

/-- The lanes before and after the first row of one of them is taken. -/
theorem lane_split {front back : List Row} (h : ∀ other ∈ front, key other ≠ key row) (k : Key) :
    lane key (front ++ row :: back) k =
      if key row = k then row :: lane key (front ++ back) k else lane key (front ++ back) k := by
  have happend (rest : List Row) : lane key (front ++ rest) k = lane key front k ++ lane key rest k :=
    List.filter_append ..
  rw [happend, happend, lane, lane, lane, List.filter_cons]
  by_cases hk : key row = k
  · subst hk
    rw [← lane, lane_of_ne h]
    simp
  · simp [hk]

/-- Of every lane a prefix is taken. -/
theorem isPrefix_lane_taken (picks : List Key) (rows : List Row) (k : Key) :
    lane key (taken key picks rows) k <+: lane key rows k := by
  induction picks generalizing rows with
  | nil => exact List.nil_prefix
  | cons pick picks ih =>
    rw [taken]
    split
    · exact ih rows
    · next row hfind =>
      obtain ⟨rfl, front, back, hrows, hfront, herase⟩ := split_of_find hfind
      have hrest := ih (front ++ back)
      rw [herase, hrows, lane_split hfront, lane, List.filter_cons, ← lane]
      by_cases hk : key row = k
      · rw [if_pos (decide_eq_true hk), if_pos hk]
        exact List.cons_prefix_cons.mpr ⟨rfl, hrest⟩
      · rw [if_neg (by simpa using hk), if_neg hk]
        exact hrest

/-- Every row is taken at most once. -/
theorem taken_subperm (picks : List Key) (rows : List Row) : (taken key picks rows).Subperm rows := by
  induction picks generalizing rows with
  | nil => exact List.nil_subperm
  | cons pick picks ih =>
    rw [taken]
    split
    · exact ih rows
    · next row hfind =>
      obtain ⟨-, front, back, hrows, -, herase⟩ := split_of_find hfind
      rw [herase, hrows]
      exact ((List.subperm_cons row).mpr (ih (front ++ back))).trans List.perm_middle.symm.subperm

theorem mem_taken_of_length (h : (taken key picks rows).length = rows.length) (hrow : row ∈ rows) :
    row ∈ taken key picks rows :=
  ((taken_subperm picks rows).perm_of_length_le (Nat.le_of_eq h.symm)).mem_iff.mpr hrow

/-- In a lane that is in order, what comes earlier is taken earlier. -/
theorem mem_front_of_taken {r : Row → Row → Prop} {front back : List Row} {earlier : Row}
    (hasymm : ∀ a b, r a b → ¬r b a) (hlane : (lane key rows (key row)).Pairwise r)
    (htaken : taken key picks rows = front ++ row :: back) (hearlier : earlier ∈ rows)
    (hkey : key earlier = key row) (hr : r earlier row) : earlier ∈ front := by
  have hinitial : lane key (taken key picks rows) (key row) <+: lane key rows (key row) :=
    isPrefix_lane_taken picks rows (key row)
  obtain ⟨rest, hrest⟩ := hinitial
  have hlanes : lane key (front ++ row :: back) (key row) =
      lane key front (key row) ++ row :: lane key back (key row) := by
    simp [lane, List.filter_append]
  rw [htaken, hlanes, List.append_assoc, List.cons_append] at hrest
  have hmem : earlier ∈ lane key rows (key row) := List.mem_filter.mpr ⟨hearlier, decide_eq_true hkey⟩
  rw [← hrest] at hlane hmem
  rcases List.mem_append.mp hmem with hfront | hback
  · exact List.mem_of_mem_filter hfront
  · rcases List.mem_cons.mp hback with rfl | hback
    · exact absurd hr (hasymm _ _ hr)
    · have hafter := (List.pairwise_cons.mp (List.pairwise_append.mp hlane).2.1).1 earlier hback
      exact absurd hr (hasymm _ _ hafter)

/-- Rows may be replaced by others with the same keys. -/
theorem taken_map {Row' : Type} (key : Row' → Key) (f : Row → Row') (picks : List Key)
    (rows : List Row) :
    taken key picks (rows.map f) = (taken (fun row ↦ key (f row)) picks rows).map f := by
  induction picks generalizing rows with
  | nil => rfl
  | cons pick picks ih =>
    rw [taken, taken, List.find?_map]
    simp only [Function.comp_def]
    cases rows.find? fun row ↦ decide (key (f row) = pick) with
    | none => exact ih rows
    | some row =>
      simp only [Option.map_some, List.map_cons, List.eraseP_map, Function.comp_def, ih]

/-- Every list that has of every lane a prefix can be taken. -/
theorem taken_of_lanes {delivered : List Row}
    (h : ∀ k, lane key delivered k <+: lane key rows k) :
    taken key (delivered.map key) rows = delivered := by
  induction delivered generalizing rows with
  | nil => rfl
  | cons row delivered ih =>
    have hcons (k : Key) : lane key (row :: delivered) k =
        if key row = k then row :: lane key delivered k else lane key delivered k := by
      simp only [lane, List.filter_cons, decide_eq_true_eq]
    have hfind : (rows.find? fun other ↦ key other = key row) = some row := by
      obtain ⟨rest, hrest⟩ := h (key row)
      rw [hcons, if_pos rfl] at hrest
      rw [← List.head?_filter, ← lane, ← hrest]
      rfl
    obtain ⟨-, front, back, hrows, hfront, herase⟩ := split_of_find hfind
    have hrest : ∀ k, lane key delivered k <+: lane key (front ++ back) k := by
      intro k
      have hk := h k
      rw [hcons, hrows, lane_split hfront] at hk
      split at hk
      · exact (List.cons_prefix_cons.mp hk).2
      · exact hk
    rw [List.map_cons, taken, hfind]
    exact congrArg (row :: ·) (herase ▸ ih hrest)

end PaymentRail.Table
