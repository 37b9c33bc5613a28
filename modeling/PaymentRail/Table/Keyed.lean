import Mathlib.Algebra.BigOperators.Group.List.Basic
import Mathlib.Algebra.BigOperators.Ring.List
import Mathlib.Algebra.Group.Int.Defs
import Mathlib.Tactic.Ring

/-!
# Tables of rows under a key

A table is a list of rows in insertion order, read through a key.  `lookup` finds the row stored
under a key and `modify` changes it in place.  A change that keeps the keys is seen by every lookup
as a change of the row it finds, and an appended row is seen only where no row was found before.

A map is such a table of pairs, read with `valueAt` and written with `setAt`.
-/

namespace PaymentRail.Table

variable {Row Key : Type} [DecidableEq Key] (key : Row → Key)

/-- The row stored under a key. -/
def lookup (rows : List Row) (k : Key) : Option Row := rows.find? fun row ↦ key row = k

/-- Change the row stored under a key. -/
def modify (rows : List Row) (k : Key) (f : Row → Row) : List Row :=
  rows.map fun row ↦ if key row = k then f row else row

variable {key} {rows : List Row} {k k' : Key} {row : Row}

theorem key_of_lookup (h : lookup key rows k = some row) : key row = k := by
  simpa using List.find?_some h

theorem mem_of_lookup (h : lookup key rows k = some row) : row ∈ rows :=
  List.mem_of_find?_eq_some h

/-- Nothing is found under a key that no row has. -/
theorem lookup_eq_none : lookup key rows k = none ↔ ∀ row ∈ rows, key row ≠ k := by
  simp [lookup]

/-- With distinct keys every row is found under its own. -/
theorem lookup_of_mem (hnodup : (rows.map key).Nodup) (hrow : row ∈ rows) :
    lookup key rows (key row) = some row := by
  induction rows with
  | nil => cases hrow
  | cons first rest ih =>
    obtain ⟨hfirst, hnodup⟩ := List.nodup_cons.mp hnodup
    obtain rfl | hrest := List.mem_cons.mp hrow
    · simp [lookup]
    · have hne : key first ≠ key row := fun heq ↦
        hfirst (List.mem_map.mpr ⟨row, hrest, heq.symm⟩)
      have htail := ih hnodup hrest
      rw [lookup] at htail ⊢
      rw [List.find?_cons_of_neg (by simpa using hne), htail]

/-- With distinct keys a row is the only one under its key. -/
theorem filter_key (hnodup : (rows.map key).Nodup) (hrow : row ∈ rows) :
    rows.filter (fun other ↦ key other = key row) = [row] := by
  induction rows with
  | nil => cases hrow
  | cons first rest ih =>
    obtain ⟨hfirst, hnodup⟩ := List.nodup_cons.mp hnodup
    obtain rfl | hrest := List.mem_cons.mp hrow
    · have hnone : rest.filter (fun other ↦ key other = key row) = [] := by
        refine List.filter_eq_nil_iff.mpr fun other hother ↦ ?_
        simpa using fun heq ↦ hfirst (List.mem_map.mpr ⟨other, hother, heq⟩)
      rw [List.filter_cons_of_pos (by simp), hnone]
    · have hne : key first ≠ key row := fun heq ↦
        hfirst (List.mem_map.mpr ⟨row, hrest, heq.symm⟩)
      rw [List.filter_cons_of_neg (by simpa using hne), ih hnodup hrest]

/-- With distinct keys the rows under a key are the one that a lookup finds. -/
theorem filter_eq_lookup (hnodup : (rows.map key).Nodup) (k : Key) :
    rows.filter (fun row ↦ key row = k) = (lookup key rows k).toList := by
  cases hrow : lookup key rows k with
  | none =>
    exact List.filter_eq_nil_iff.mpr fun row hmem ↦ by simpa using lookup_eq_none.mp hrow row hmem
  | some row =>
    rw [← key_of_lookup hrow]
    exact filter_key hnodup (mem_of_lookup hrow)

theorem lookup_append (added : Row) :
    lookup key (rows ++ [added]) k =
      (lookup key rows k).or (if key added = k then some added else none) := by
  by_cases hkey : key added = k <;> simp [lookup, List.find?_append, hkey]

/-- An appended row hides no row. -/
theorem lookup_append_of_some (added : Row) (h : lookup key rows k = some row) :
    lookup key (rows ++ [added]) k = some row := by
  rw [lookup_append, h, Option.some_or]

/-- An appended row is not found under another key. -/
theorem lookup_append_of_ne {added : Row} (h : key added ≠ k) :
    lookup key (rows ++ [added]) k = lookup key rows k := by
  rw [lookup_append, if_neg h, Option.or_none]

/-- An appended row is found under its own key if that was free. -/
theorem lookup_append_self {added : Row} (h : lookup key rows (key added) = none) :
    lookup key (rows ++ [added]) (key added) = some added := by
  rw [lookup_append, h, if_pos rfl, Option.none_or]

/-- Dropping rows is not seen under a key whose row stays. -/
theorem lookup_filter {p : Row → Bool} (h : ∀ row, lookup key rows k = some row → p row = true) :
    lookup key (rows.filter p) k = lookup key rows k := by
  induction rows with
  | nil => rfl
  | cons first rest ih =>
    by_cases hkey : key first = k
    · have hfirst : lookup key (first :: rest) k = some first := by simp [lookup, hkey]
      rw [List.filter_cons_of_pos (h first hfirst), hfirst]
      simp [lookup, hkey]
    · have hrest : lookup key (first :: rest) k = lookup key rest k := by simp [lookup, hkey]
      rw [hrest] at h ⊢
      rw [← ih h, List.filter_cons]
      split
      · simp [lookup, hkey]
      · rfl

theorem lookup_modify {f : Row → Row} (hf : ∀ row, key (f row) = key row) :
    lookup key (modify key rows k f) k' =
      (lookup key rows k').map fun row ↦ if k' = k then f row else row := by
  have hkey : ∀ row, key (if key row = k then f row else row) = key row := by
    intro row
    split
    · exact hf row
    · rfl
  have hfind : lookup key (modify key rows k f) k' =
      (lookup key rows k').map fun row ↦ if key row = k then f row else row := by
    simp only [lookup, modify, List.find?_map, Function.comp_def, hkey]
  rw [hfind]
  cases hrow : lookup key rows k' with
  | none => rfl
  | some row => rw [Option.map_some, Option.map_some, key_of_lookup hrow]

theorem lookup_modify_self {f : Row → Row} (hf : ∀ row, key (f row) = key row) :
    lookup key (modify key rows k f) k = (lookup key rows k).map f := by
  simp [lookup_modify hf]

/-- A change under one key is not seen under another. -/
theorem lookup_modify_of_ne {f : Row → Row} (hf : ∀ row, key (f row) = key row) (h : k' ≠ k) :
    lookup key (modify key rows k f) k' = lookup key rows k' := by
  simp [lookup_modify hf, h]

/-- A change under a key that no row has changes nothing. -/
theorem modify_of_notMem {f : Row → Row} (h : k ∉ rows.map key) : modify key rows k f = rows := by
  have hsame : ∀ row ∈ rows, (if key row = k then f row else row) = row := fun row hrow ↦
    if_neg fun hkey ↦ h (List.mem_map.mpr ⟨row, hrow, hkey⟩)
  rw [modify, List.map_congr_left hsame, List.map_id']

/-- With unique keys, a sum over the rows changes by the row that is changed. -/
theorem sum_map_modify {f : Row → Row} (hnodup : (rows.map key).Nodup)
    (hrow : lookup key rows k = some row) (g : Row → ℤ) :
    ((modify key rows k f).map g).sum = (rows.map g).sum + (g (f row) - g row) := by
  induction rows with
  | nil => cases hrow
  | cons first rest ih =>
    obtain ⟨hfirst, hrest⟩ := List.nodup_cons.mp hnodup
    by_cases hkey : key first = k
    · subst hkey
      obtain rfl : first = row := by simpa [lookup] using hrow
      have hmodify : modify key (first :: rest) (key first) f =
          f first :: modify key rest (key first) f := by simp [modify]
      rw [hmodify, modify_of_notMem hfirst, List.map_cons, List.sum_cons, List.map_cons,
        List.sum_cons]
      ring
    · have hmodify : modify key (first :: rest) k f = first :: modify key rest k f := by
        simp [modify, hkey]
      have hlater : lookup key rest k = some row := by simpa [lookup, hkey] using hrow
      rw [hmodify, List.map_cons, List.sum_cons, ih hrest hlater, List.map_cons, List.sum_cons]
      ring

theorem map_key_modify {f : Row → Row} (hf : ∀ row, key (f row) = key row) :
    (modify key rows k f).map key = rows.map key := by
  rw [modify, List.map_map]
  refine List.map_congr_left fun row _ ↦ ?_
  rw [Function.comp_apply]
  split
  · exact hf row
  · rfl

section Join

theorem sum_filter {α : Type} (p : α → Prop) [DecidablePred p] (rows : List α) (weight : α → ℤ) :
    ((rows.filter p).map weight).sum = (rows.map fun row ↦ if p row then weight row else 0).sum := by
  induction rows with
  | nil => rfl
  | cons row rest ih => by_cases hrow : p row <;> simp [hrow, ih]

theorem sum_filterMap {α β : Type} (f : α → Option β) (rows : List α) (weight : β → ℤ) :
    ((rows.filterMap f).map weight).sum = (rows.map fun row ↦ (f row).elim 0 weight).sum := by
  induction rows with
  | nil => rfl
  | cons row rest ih => cases hrow : f row <;> simp [hrow, ih]

variable {Left Right : Type} (on : Right → Left → Prop) [DecidableRel on]

/-- A sum over a join, taken row by row of the right table. -/
theorem sum_join (left : List Left) (right : List Right) (weight : Left → ℤ) :
    (left.flatMap fun l ↦ (right.filter (on · l)).map fun _ ↦ weight l).sum =
      (right.map fun r ↦ ((left.filter (on r)).map weight).sum).sum := by
  induction left with
  | nil => simp
  | cons first rest ih =>
    have hfirst : ((right.filter (on · first)).map fun _ ↦ weight first).sum =
        (right.map fun r ↦ if on r first then weight first else 0).sum :=
      sum_filter (on · first) right fun _ ↦ weight first
    have hsplit : ∀ r, (((first :: rest).filter (on r)).map weight).sum =
        (if on r first then weight first else 0) + ((rest.filter (on r)).map weight).sum := by
      intro r
      by_cases hon : on r first <;> simp [hon]
    rw [List.flatMap_cons, List.sum_append, ih, hfirst, ← List.sum_map_add]
    exact congrArg List.sum (List.map_congr_left fun r _ ↦ (hsplit r).symm)

end Join

section Map

variable {Value : Type} {pairs : List (Key × Value)}

/-- The value that a map holds under a key. -/
def valueAt (pairs : List (Key × Value)) (k : Key) : Option Value :=
  (lookup Prod.fst pairs k).map Prod.snd

/-- Assign to a key of a map. -/
def setAt (pairs : List (Key × Value)) (k : Key) (value : Value) : List (Key × Value) :=
  if (lookup Prod.fst pairs k).isSome then modify Prod.fst pairs k fun pair ↦ (pair.1, value)
  else pairs ++ [(k, value)]

theorem valueAt_setAt_self (value : Value) : valueAt (setAt pairs k value) k = some value := by
  unfold setAt valueAt
  cases hpair : lookup Prod.fst pairs k with
  | none =>
    have hself : lookup Prod.fst (pairs ++ [(k, value)]) k = some (k, value) :=
      lookup_append_self hpair
    simp [hself]
  | some pair => simp [lookup_modify_self, hpair]

theorem valueAt_setAt_of_ne (value : Value) (h : k' ≠ k) :
    valueAt (setAt pairs k value) k' = valueAt pairs k' := by
  unfold setAt valueAt
  split
  · have hpair : lookup Prod.fst (modify Prod.fst pairs k fun pair ↦ (pair.1, value)) k' =
        lookup Prod.fst pairs k' := lookup_modify_of_ne (fun _ ↦ rfl) h
    rw [hpair]
  · rw [lookup_append_of_ne (Ne.symm h)]

theorem isSome_valueAt_iff : (valueAt pairs k).isSome ↔ k ∈ pairs.map Prod.fst := by
  simp [valueAt, lookup]

end Map

section Lookup

variable {Left Key Row : Type} [DecidableEq Key] {key : Row → Key} {rows : List Row}

/-- The term of the row of a key, as a sum over all rows. -/
theorem elim_lookup (hnodup : (rows.map key).Nodup) (k : Key) (weight : Row → ℤ) :
    (lookup key rows k).elim 0 weight =
      (rows.map fun row ↦ if key row = k then weight row else 0).sum := by
  rw [← sum_filter (fun row ↦ key row = k), filter_eq_lookup hnodup]
  cases lookup key rows k <;> simp

/-- A sum over rows that refer to others, taken row by row of the others. -/
theorem sum_map_lookup (hnodup : (rows.map key).Nodup) (left : List Left) (ref : Left → Key)
    (count : Left → ℤ) (weight : Row → ℤ) :
    (left.map fun l ↦ count l * (lookup key rows (ref l)).elim 0 weight).sum =
      (rows.map fun row ↦
        (left.map fun l ↦ if ref l = key row then count l else 0).sum * weight row).sum := by
  induction left with
  | nil => simp
  | cons first rest ih =>
    have hfirst : count first * (lookup key rows (ref first)).elim 0 weight =
        (rows.map fun row ↦ (if ref first = key row then count first else 0) * weight row).sum := by
      rw [elim_lookup hnodup, ← List.sum_map_mul_left]
      apply congrArg List.sum
      apply List.map_congr_left
      intro row _
      simp only [eq_comm (a := ref first), mul_ite, ite_mul, mul_zero, zero_mul]
    simp only [List.map_cons, List.sum_cons, ih, hfirst, add_mul, List.sum_map_add]

end Lookup

end PaymentRail.Table
