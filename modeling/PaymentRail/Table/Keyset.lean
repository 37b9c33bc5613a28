import Mathlib.Data.List.Sort

/-!
# Reading a table page by page

`after` is what `WHERE key > cursor ORDER BY key` selects, and a page is its first rows.  The key of
the last row of a page is the cursor of the next one.  Each page with a row leaves fewer rows to
read, and under distinct keys the rows after the new cursor are the rows that the page left out.
-/

namespace PaymentRail.Table

variable {Row Key : Type} [LinearOrder Key] (key : Row → Key)

/-- The rows in the order of their keys. -/
def ordered (rows : List Row) : List Row := rows.insertionSort fun a b ↦ key a ≤ key b

/-- The rows after a cursor, in the order of their keys; all rows if there is none. -/
def after (rows : List Row) : Option Key → List Row
  | none => ordered key rows
  | some cursor => (ordered key rows).filter fun row ↦ cursor < key row

theorem pairwise_ordered (rows : List Row) :
    (ordered key rows).Pairwise fun a b ↦ key a ≤ key b :=
  haveI : Std.Total fun a b : Row ↦ key a ≤ key b := ⟨fun a b ↦ le_total (key a) (key b)⟩
  haveI : IsTrans Row fun a b ↦ key a ≤ key b := ⟨fun _ _ _ ↦ le_trans⟩
  List.pairwise_insertionSort _ rows

theorem pairwise_after (rows : List Row) (cursor : Option Key) :
    (after key rows cursor).Pairwise fun a b ↦ key a ≤ key b := by
  cases cursor with
  | none => exact pairwise_ordered key rows
  | some cursor => exact (pairwise_ordered key rows).filter _

variable {key} {rows : List Row} {row : Row} {cursor : Option Key} {limit : ℕ}

theorem nodup_ordered (h : (rows.map key).Nodup) : ((ordered key rows).map key).Nodup :=
  ((List.perm_insertionSort _ rows).map key).nodup_iff.mpr h

theorem sublist_after (rows : List Row) (cursor : Option Key) :
    (after key rows cursor).Sublist (ordered key rows) := by
  cases cursor with
  | none => exact List.Sublist.refl _
  | some cursor => exact List.filter_sublist

theorem length_after_le (rows : List Row) (cursor : Option Key) :
    (after key rows cursor).length ≤ rows.length :=
  calc
    _ ≤ (ordered key rows).length := (sublist_after rows cursor).length_le
    _ = rows.length := List.length_insertionSort _ rows

/-- Moving the cursor forward to a row it selects. -/
theorem after_eq_filter (h : row ∈ after key rows cursor) :
    after key rows (some (key row)) =
      (after key rows cursor).filter fun later ↦ key row < key later := by
  cases cursor with
  | none => rfl
  | some cursor =>
    have hcursor : cursor < key row := by simpa using (List.mem_filter.mp h).2
    simp only [after, List.filter_filter]
    refine List.filter_congr fun later _ ↦ ?_
    simpa using fun hlater ↦ hcursor.trans hlater

/-- The cursor that a page leaves behind skips the page. -/
theorem after_page (h : ((after key rows cursor).take limit).getLast? = some row) :
    after key rows (some (key row)) =
      ((after key rows cursor).drop limit).filter fun later ↦ key row < key later := by
  have hmem : row ∈ (after key rows cursor).take limit := List.mem_of_getLast? h
  obtain ⟨front, hpage⟩ := List.getLast?_eq_some_iff.mp h
  have hsorted := pairwise_after key rows cursor
  rw [← List.take_append_drop limit (after key rows cursor), hpage] at hsorted
  have hfront : ∀ earlier ∈ front ++ [row], key earlier ≤ key row := by
    intro earlier hearlier
    obtain hearlier | hrow := List.mem_append.mp hearlier
    · exact (List.pairwise_append.mp (List.pairwise_append.mp hsorted).1).2.2 earlier hearlier row
        (by simp)
    · exact (congrArg key (List.mem_singleton.mp hrow)).le
  have hskip : ((after key rows cursor).take limit).filter (fun later ↦ key row < key later) = [] := by
    rw [hpage, List.filter_eq_nil_iff]
    exact fun earlier hearlier ↦ by simpa using hfront earlier hearlier
  rw [after_eq_filter (List.mem_of_mem_take hmem)]
  conv_lhs => rw [← List.take_append_drop limit (after key rows cursor), List.filter_append, hskip]
  rfl

/-- A page that has a row leaves fewer rows to read. -/
theorem length_after_page_lt (h : ((after key rows cursor).take limit).getLast? = some row) :
    (after key rows (some (key row))).length < (after key rows cursor).length := by
  have hpos : 0 < ((after key rows cursor).take limit).length :=
    List.length_pos_of_mem (List.mem_of_getLast? h)
  have hle : (after key rows (some (key row))).length ≤
      ((after key rows cursor).drop limit).length := by
    rw [after_page h]
    exact List.length_filter_le _ _
  simp only [List.length_take, List.length_drop] at hpos hle
  omega

/-- Under distinct keys the next page starts right behind the last one. -/
theorem after_page_of_nodup (hnodup : (rows.map key).Nodup)
    (h : ((after key rows cursor).take limit).getLast? = some row) :
    after key rows (some (key row)) = (after key rows cursor).drop limit := by
  rw [after_page h, List.filter_eq_self]
  intro later hlater
  have hmem : row ∈ (after key rows cursor).take limit := List.mem_of_getLast? h
  have hsorted := pairwise_after key rows cursor
  rw [← List.take_append_drop limit (after key rows cursor)] at hsorted
  have hle : key row ≤ key later := (List.pairwise_append.mp hsorted).2.2 row hmem later hlater
  have hdistinct : ((after key rows cursor).map key).Nodup :=
    (nodup_ordered hnodup).sublist ((sublist_after rows cursor).map key)
  rw [← List.take_append_drop limit (after key rows cursor), List.map_append,
    List.nodup_append] at hdistinct
  have hne : key row ≠ key later := hdistinct.2.2 _ (List.mem_map_of_mem hmem) _
    (List.mem_map_of_mem hlater)
  simpa using lt_of_le_of_ne hle hne

end PaymentRail.Table
