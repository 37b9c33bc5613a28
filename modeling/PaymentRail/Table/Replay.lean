import Mathlib.Data.List.Basic

/-!
# Replaying a log

The rows of a log belong to keys, and the rows of one key lead from an initial state through the
states that `next` allows.  `Fold.replay` is the state they end in; it is `none` as soon as a row does
not fit the state that the rows before it left.

A view of some tables is sourced in a log if replaying the rows of every key gives what the view
shows of it.  `Sourced.concat` is the rule for a step that adds one row to the log.
-/

namespace PaymentRail.Table

/-- Which rows of a log belong to a key, and what they do to its state. -/
structure Fold (Row Key State : Type) where
  own : Key → Row → Bool
  init : State
  next : State → Row → Option State

namespace Fold

variable {Row Key State : Type} (fold : Fold Row Key State)

/-- The state that the rows of a key lead to. -/
def replay (log : List Row) (k : Key) : Option State :=
  (log.filter (fold.own k)).foldlM fold.next fold.init

/-- What a view shows of each key is what the log replays to. -/
def Sourced (log : List Row) (view : Key → State) : Prop :=
  ∀ k, fold.replay log k = some (view k)

variable {fold} {log : List Row} {row : Row} {k : Key} {view view' : Key → State}

theorem replay_concat_of_own (hown : fold.own k row = true) :
    fold.replay (log ++ [row]) k = (fold.replay log k).bind fun state ↦ fold.next state row := by
  rw [replay, List.filter_append, List.filter_cons_of_pos hown, List.filter_nil, List.foldlM_append]
  simp only [List.foldlM_cons, List.foldlM_nil, bind_pure]
  rfl

theorem replay_concat_of_not_own (hown : fold.own k row = false) :
    fold.replay (log ++ [row]) k = fold.replay log k := by
  rw [replay, List.filter_append, List.filter_cons_of_neg (by simp [hown]), List.filter_nil,
    List.append_nil, replay]

theorem sourced_nil (h : ∀ k, view k = fold.init) : fold.Sourced [] view := fun k ↦ by
  rw [h k]
  rfl

/-- One row more for one key, whose state it changes as `next` says. -/
theorem Sourced.concat (h : fold.Sourced log view) (hown : fold.own k row = true)
    (hnext : fold.next (view k) row = some (view' k))
    (hothers : ∀ other, other ≠ k → fold.own other row = false ∧ view' other = view other) :
    fold.Sourced (log ++ [row]) view' := by
  intro other
  by_cases hkey : other = k
  · subst hkey
    rw [replay_concat_of_own hown, h other, Option.bind_some, hnext]
  · obtain ⟨hrow, hview⟩ := hothers other hkey
    rw [replay_concat_of_not_own hrow, h other, hview]

/-- A row that belongs to no key changes nothing. -/
theorem Sourced.concat_of_not_own (h : fold.Sourced log view)
    (hown : ∀ k, fold.own k row = false) : fold.Sourced (log ++ [row]) view := by
  intro k
  rw [replay_concat_of_not_own (hown k), h k]

end Fold

end PaymentRail.Table
