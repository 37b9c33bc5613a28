import Mathlib.Algebra.Order.BigOperators.Group.List
import Mathlib.Algebra.Ring.Int.Defs

/-!
# Loads of sliding windows

Events have a time and a weight.  A log is `Bounded` when no window of the given width that has an
event in it carries more than the bound, wherever the window lies.

The log may be out of order.  To keep the bound when an event is added it is enough to look from the
start of the window that ends with the new event, without an upper limit: a later window that holds
the new event holds nothing that this look misses, and an earlier one does not hold it.
-/

namespace PaymentRail.Window

variable {ε : Type} (time weight : ε → ℤ)

/-- The events from an instant on. -/
def since (start : ℤ) (events : List ε) : List ε := events.filter fun event ↦ start ≤ time event

/-- The events of a closed interval. -/
def between (start stop : ℤ) (events : List ε) : List ε :=
  events.filter fun event ↦ start ≤ time event ∧ time event ≤ stop

/-- The total weight of some events. -/
def load (events : List ε) : ℤ := (events.map weight).sum

/-- No window of this width with an event in it is over the bound. -/
def Bounded (width bound : ℤ) (events : List ε) : Prop :=
  ∀ instant, between time (instant - width) instant events ≠ [] →
    load weight (between time (instant - width) instant events) ≤ bound

variable {time weight} {width bound : ℤ} {events : List ε} {event : ε}

theorem load_append (first second : List ε) :
    load weight (first ++ second) = load weight first + load weight second := by
  simp [load]

theorem between_concat_of_mem {start stop : ℤ} (h : start ≤ time event ∧ time event ≤ stop) :
    between time start stop (events ++ [event]) = between time start stop events ++ [event] := by
  rw [between, between, List.filter_append]
  congr 1
  exact List.filter_eq_self.mpr (by simpa using h)

theorem between_concat_of_notMem {start stop : ℤ} (h : ¬(start ≤ time event ∧ time event ≤ stop)) :
    between time start stop (events ++ [event]) = between time start stop events := by
  rw [between, between, List.filter_append, List.append_right_eq_self]
  exact List.filter_eq_nil_iff.mpr (by simpa using h)

theorem load_le_of_sublist (hweight : ∀ event ∈ events, 0 ≤ weight event) {part : List ε}
    (h : part.Sublist events) : load weight part ≤ load weight events := by
  refine (h.map weight).sum_le_sum fun value hvalue ↦ ?_
  obtain ⟨event, hevent, rfl⟩ := List.mem_map.mp hvalue
  exact hweight event hevent

/-- A window that holds an event is part of what lies after the start of that event's window. -/
theorem between_sublist_since {instant : ℤ} (h : time event ≤ instant) :
    (between time (instant - width) instant events).Sublist
      (since time (time event - width) events) := by
  refine List.monotone_filter_right events fun other hother ↦ ?_
  simp only [decide_eq_true_eq] at hother ⊢
  omega

/-- An event that fits after the start of its own window may be added. -/
theorem Bounded.concat (h : Bounded time weight width bound events)
    (hweight : ∀ event ∈ events, 0 ≤ weight event)
    (hfits : load weight (since time (time event - width) events) + weight event ≤ bound) :
    Bounded time weight width bound (events ++ [event]) := by
  intro instant hsome
  by_cases hin : instant - width ≤ time event ∧ time event ≤ instant
  · calc load weight (between time (instant - width) instant (events ++ [event]))
      _ = load weight (between time (instant - width) instant events) + weight event := by
        rw [between_concat_of_mem hin, load_append]
        simp [load]
      _ ≤ load weight (since time (time event - width) events) + weight event := by
        have hlater : ∀ other ∈ since time (time event - width) events, 0 ≤ weight other :=
          fun other hother ↦ hweight other (List.mem_of_mem_filter hother)
        have hpart := load_le_of_sublist hlater (between_sublist_since hin.2)
        omega
      _ ≤ bound := hfits
  · rw [between_concat_of_notMem hin] at hsome ⊢
    exact h instant hsome

end PaymentRail.Window
