import Mathlib.Data.List.Induction
import Mathlib.Order.Lattice

/-!
# Gapless lists

A list goes through the points of a set beyond a start, without gap or repetition, if it increases,
holds only such points, and every one of them up to its last entry. Appending the least point
beyond its end continues it.
-/

namespace MyTeam.Order

variable {α : Type*}

section Reached

variable {start next : α} {points : List α}

/-- Where a list has come to. -/
def reached (start : α) (points : List α) : α :=
  points.getLast?.getD start

/-- A list that is continued has come to the next point. -/
@[simp] theorem reached_append : reached start (points ++ [next]) = next := by
  simp [reached]

/-- Where a list has come to is the start, or one of its points. -/
theorem reached_mem : reached start points ∈ start :: points := by
  unfold reached
  cases hlast : points.getLast? with
  | none => exact List.mem_cons_self
  | some last => exact List.mem_cons_of_mem _ (List.mem_of_getLast? hlast)

end Reached

variable [LinearOrder α] {Occurs : α → Prop} {start next : α} {points : List α}

/-- The points of a set beyond a start, in order, without gap or repetition. -/
structure Gapless (Occurs : α → Prop) (start : α) (points : List α) : Prop where
  increasing : (start :: points).Pairwise (· < ·)
  occurs : ∀ u ∈ points, Occurs u
  complete : ∀ u, Occurs u → start < u → (∃ v ∈ points, u ≤ v) → u ∈ points

namespace Gapless

/-- No point lies beyond where a list has come to. -/
theorem le_reached (h : Gapless Occurs start points) {u : α} (hu : u ∈ start :: points) : u ≤ reached start points := by
  induction points using List.reverseRecOn with
  | nil => exact (List.mem_singleton.mp hu).le
  | append_singleton points last _ =>
    rw [reached_append]
    rw [← List.cons_append] at hu
    obtain hu | hu := List.mem_append.mp hu
    · have hincreasing := h.increasing
      rw [← List.cons_append, List.pairwise_append] at hincreasing
      exact (hincreasing.2.2 u hu last (List.mem_singleton_self _)).le
    · exact (List.mem_singleton.mp hu).le

/-- The list that has not begun. -/
theorem nil : Gapless Occurs start [] := by
  constructor
  case increasing => exact List.pairwise_singleton _ _
  case occurs => exact fun _ hu => absurd hu List.not_mem_nil
  case complete =>
    intro _ _ _ hbelow
    obtain ⟨_, hv, -⟩ := hbelow
    exact absurd hv List.not_mem_nil

/-- The least point beyond its end continues a list. -/
theorem append (h : Gapless Occurs start points) (beyond : reached start points < next) (hnext : Occurs next)
    (least : ∀ u, Occurs u → reached start points < u → next ≤ u) : Gapless Occurs start (points ++ [next]) := by
  constructor
  case increasing =>
    rw [← List.cons_append, List.pairwise_append]
    refine ⟨h.increasing, List.pairwise_singleton _ _, fun u hu v hv => ?_⟩
    exact List.mem_singleton.mp hv ▸ (h.le_reached hu).trans_lt beyond
  case occurs =>
    intro u hu
    obtain hu | hu := List.mem_append.mp hu
    · exact h.occurs u hu
    · exact List.mem_singleton.mp hu ▸ hnext
  case complete =>
    intro u hu hstart hbelow
    obtain ⟨v, hv, huv⟩ := hbelow
    by_cases hpast : reached start points < u
    · obtain hv | hv := List.mem_append.mp hv
      · exact absurd (huv.trans (h.le_reached (List.mem_cons_of_mem _ hv))) (not_le.mpr hpast)
      · have hsame : u = next := le_antisymm (huv.trans (List.mem_singleton.mp hv).le) (least u hu hpast)
        exact List.mem_append_right _ (hsame ▸ List.mem_singleton_self _)
    · obtain hreached | hreached := List.mem_cons.mp (@reached_mem _ start points)
      · exact absurd (hreached ▸ not_lt.mp hpast) (not_le.mpr hstart)
      · exact List.mem_append_left _ (h.complete u hu hstart ⟨_, hreached, not_lt.mp hpast⟩)

end Gapless

end MyTeam.Order
