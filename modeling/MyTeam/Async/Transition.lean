import Mathlib.Init

/-!
# Transition systems

A system moves from state to state by labelled moves, some of which are impossible in some
states. A rule restricts the moves further, to state what a run is assumed to avoid. What every
permitted move preserves holds in every state that is reached.
-/

namespace MyTeam.Async

variable {σ μ : Type} {step : σ → μ → Option σ} {rule : σ → μ → Prop} {s t : σ} {I : σ → Prop}

/-- The states reached from `s` by moves that keep a rule. -/
inductive Reaches (step : σ → μ → Option σ) (rule : σ → μ → Prop) (s : σ) : σ → Prop
  | refl : Reaches step rule s s
  | move {t u : σ} (move : μ) (run : Reaches step rule s t) (keeps : rule t move) (moves : step t move = some u) :
      Reaches step rule s u

/-- The state after a list of moves. -/
def follow (step : σ → μ → Option σ) (s : σ) : List μ → Option σ
  | [] => some s
  | move :: rest => (step s move).bind fun t => follow step t rest

/-- What the permitted moves preserve holds at the end of every run. -/
theorem Reaches.invariant (h : Reaches step rule s t) (start : I s)
    (preserved : ∀ {t u move}, I t → rule t move → step t move = some u → I u) : I t := by
  induction h with
  | refl => exact start
  | move _ _ keeps moves ih => exact preserved ih keeps moves

/-- A run can be continued. -/
theorem Reaches.trans {u : σ} (h : Reaches step rule s t) (h' : Reaches step rule t u) : Reaches step rule s u := by
  induction h' with
  | refl => exact h
  | move m _ keeps moves ih => exact .move m ih keeps moves

/-- The moves of a system that keep a rule. -/
def within (step : σ → μ → Option σ) (rule : σ → μ → Prop) [∀ s move, Decidable (rule s move)] (s : σ) (move : μ) :
    Option σ :=
  if rule s move then step s move else none

/-- Following moves that keep a rule is a run. -/
theorem Reaches.of_follow [∀ s move, Decidable (rule s move)] {moves : List μ}
    (h : follow (within step rule) s moves = some t) : Reaches step rule s t := by
  induction moves generalizing s with
  | nil => exact Option.some.inj h ▸ .refl
  | cons move rest ih =>
    obtain ⟨u, hu, hrest⟩ := Option.bind_eq_some_iff.mp h
    rw [within, Option.ite_none_right_eq_some] at hu
    exact (Reaches.move move .refl hu.1 hu.2).trans (ih hrest)

end MyTeam.Async
