import Mathlib.Algebra.Order.BigOperators.Group.List
import Mathlib.Tactic.Linarith

/-!
# Rows that a log pays for

The rows of a table are paid by entries of a log.  If no entry pays twice, the rows add up to no more
than the entries do.
-/

namespace PaymentRail.Table

variable {Row Entry : Type} {amount : Row → ℤ} {worth : Entry → ℤ} {entries : List Entry}
  {rows : List Row} {paidBy : Row → Entry → Prop}

/-- Rows that are paid by entries of the same worth, no two of them by one entry, add up to no more than
the entries do. -/
theorem sum_le_of_matching (hworth : ∀ entry ∈ entries, 0 ≤ worth entry)
    (hapart : rows.Pairwise fun row other ↦ ∀ entry, paidBy row entry → ¬paidBy other entry)
    (hpaid : ∀ row ∈ rows, ∃ entry ∈ entries, paidBy row entry ∧ amount row = worth entry) :
    (rows.map amount).sum ≤ (entries.map worth).sum := by
  induction rows generalizing entries with
  | nil =>
    refine List.sum_nonneg fun value hvalue ↦ ?_
    obtain ⟨entry, hentry, rfl⟩ := List.mem_map.mp hvalue
    exact hworth entry hentry
  | cons row rest ih =>
    obtain ⟨hfirst, hrest⟩ := List.pairwise_cons.mp hapart
    obtain ⟨entry, hentry, hpays, hamount⟩ := hpaid row List.mem_cons_self
    obtain ⟨before, after, rfl⟩ := List.append_of_mem hentry
    have hothers : (rest.map amount).sum ≤ ((before ++ after).map worth).sum := by
      refine ih (fun other hother ↦ hworth other ?_) hrest fun other hother ↦ ?_
      · rw [List.mem_append] at hother
        rw [List.mem_append, List.mem_cons]
        exact hother.imp_right .inr
      · obtain ⟨paying, hpaying, hpays', hamount'⟩ := hpaid other (List.mem_cons_of_mem _ hother)
        refine ⟨paying, ?_, hpays', hamount'⟩
        rw [List.mem_append, List.mem_cons] at hpaying
        rw [List.mem_append]
        refine hpaying.imp_right fun hafter ↦ hafter.resolve_left ?_
        rintro rfl
        exact hfirst other hother paying hpays hpays'
    simp only [List.map_append, List.sum_append, List.map_cons, List.sum_cons] at hothers ⊢
    linarith

end PaymentRail.Table
