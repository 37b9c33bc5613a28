import Mathlib.Data.List.Forall2
import Mathlib.Data.Set.Function

/-!
# Chains of hashes

Rows that carry a position, the hash of the row before them and a hash of their own.  A chain starts
from a fixed hash; each further row stands at the next position and points to the last hash.

A chain commits to its whole history: if the hash of a row tells its content, position and
predecessor, then two chains that end in the same hash have the same rows.  Their lengths need not be
known to be equal; the positions decide that.
-/

namespace PaymentRail.HashChain

variable {Row Hash Seq : Type} (seq : Row → Seq) (prev hash : Row → Hash) (pos : ℕ → Seq)
  (start : Hash)

/-- The hash that the next row has to point to. -/
def head (rows : List Row) : Hash := (rows.getLast?.map hash).getD start

@[simp]
theorem head_concat (rows : List Row) (row : Row) :
    head hash start (rows ++ [row]) = hash row := by
  simp [head]

/-- Rows at consecutive positions, each pointing to the one before it. -/
inductive Chain : List Row → Prop
  | nil : Chain []
  | concat {rows : List Row} {row : Row} : Chain rows → seq row = pos rows.length →
      prev row = head hash start rows → Chain (rows ++ [row])

variable {seq prev hash pos start}

theorem chain_concat_iff {rows : List Row} {row : Row} :
    Chain seq prev hash pos start (rows ++ [row]) ↔
      Chain seq prev hash pos start rows ∧ seq row = pos rows.length ∧
        prev row = head hash start rows := by
  constructor
  · intro h
    generalize hall : rows ++ [row] = all at h
    cases h with
    | nil => simp at hall
    | concat hrows hseq hprev =>
      obtain ⟨rfl, hrow⟩ := List.append_inj' hall rfl
      obtain rfl := List.singleton_inj.mp hrow
      exact ⟨hrows, hseq, hprev⟩
  · rintro ⟨hrows, hseq, hprev⟩
    exact .concat hrows hseq hprev

/-- The front of a chain is a chain. -/
theorem Chain.of_append {front rest : List Row} (h : Chain seq prev hash pos start (front ++ rest)) :
    Chain seq prev hash pos start front := by
  induction rest generalizing front with
  | nil => rwa [List.append_nil] at h
  | cons row rest ih =>
    rw [List.append_cons] at h
    exact (chain_concat_iff.mp (ih h)).1

/-- The rows of a chain stand at the positions from 0 on. -/
theorem Chain.map_seq {rows : List Row} (h : Chain seq prev hash pos start rows) :
    rows.map seq = (List.range rows.length).map pos := by
  induction h with
  | nil => rfl
  | concat _ hseq _ ih =>
    rw [List.length_append, List.length_singleton, List.range_succ, List.map_append, List.map_append,
      ih, List.map_singleton, List.map_singleton, hseq]

/-- What holds of the start and of every hash holds of every hash that a row points to. -/
theorem Chain.prev_of {rows : List Row} (h : Chain seq prev hash pos start rows) {p : Hash → Prop}
    (hstart : p start) (hhash : ∀ row ∈ rows, p (hash row)) : ∀ row ∈ rows, p (prev row) := by
  induction h with
  | nil => simp
  | @concat rows row hrows _ hprev ih =>
    rw [List.forall_mem_append] at hhash ⊢
    refine ⟨ih hhash.1, ?_⟩
    rw [List.forall_mem_singleton, hprev]
    cases hrows with
    | nil => exact hstart
    | @concat _ last =>
      rw [head_concat]
      exact hhash.1 last (by simp)

/-- Two chains that end in the same hash have the same rows. -/
theorem Chain.commit {same : Row → Row → Prop} {bound : ℕ} {first second : List Row}
    (hfirst : Chain seq prev hash pos start first) (hsecond : Chain seq prev hash pos start second)
    (hpos : Set.InjOn pos {n | n < bound}) (hlength : first.length ≤ bound)
    (hlength' : second.length ≤ bound)
    (hhash : ∀ a ∈ first, ∀ b ∈ second, hash a = hash b → same a b)
    (hsame : ∀ a ∈ first, ∀ b ∈ second, same a b → seq a = seq b ∧ prev a = prev b)
    (hne : first ≠ []) (hne' : second ≠ [])
    (hhead : head hash start first = head hash start second) : List.Forall₂ same first second := by
  induction hfirst generalizing second with
  | nil => exact absurd rfl hne
  | @concat rows row hrows hseq hprev ih =>
    cases hsecond with
    | nil => exact absurd rfl hne'
    | @concat rows' row' hrows' hseq' hprev' =>
      rw [head_concat, head_concat] at hhead
      have hrow := hhash row (by simp) row' (by simp) hhead
      obtain ⟨hpositions, hlinks⟩ := hsame row (by simp) row' (by simp) hrow
      simp only [List.length_append, List.length_singleton] at hlength hlength'
      -- the position of the last row is the length of what is before it
      have hlengths : rows.length = rows'.length := by
        refine hpos (Set.mem_ofPred.mpr (by omega)) (Set.mem_ofPred.mpr (by omega)) ?_
        rw [← hseq, ← hseq', hpositions]
      have hrest : List.Forall₂ same rows rows' := by
        by_cases hempty : rows = []
        · have hempty' : rows' = [] := List.length_eq_zero_iff.mp (by rw [← hlengths, hempty]; rfl)
          rw [hempty, hempty']
          exact .nil
        · have hnonempty : rows' ≠ [] := fun heq ↦
            hempty (List.length_eq_zero_iff.mp (by rw [hlengths, heq]; rfl))
          refine ih hrows' (by omega) (by omega) (fun a ha b hb ↦ ?_) (fun a ha b hb ↦ ?_) hempty
            hnonempty (by rw [← hprev, ← hprev', hlinks])
          · exact hhash a (by simp [ha]) b (by simp [hb])
          · exact hsame a (by simp [ha]) b (by simp [hb])
      exact List.rel_append hrest (.cons hrow .nil)

end PaymentRail.HashChain
