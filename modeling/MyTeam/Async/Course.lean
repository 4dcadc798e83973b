import Mathlib.Init

/-!
# Courses of calls

An object answers calls one after the other and moves to another state with each. What is asked of
it holds throughout a course of calls if an invariant gives it and every call of the course keeps
the invariant; and if a call that does not meet a condition is always noticed, then it holds
throughout exactly when every call meets the condition where it is made.
-/

namespace MyTeam.Async

variable {σ α : Type} {step : σ → α → σ} {P I : σ → Prop} {Q C : σ → α → Prop} {s : σ} {calls : List α}

/-- Every state of a course has a property, and every call of it one where it is made. -/
def Throughout (step : σ → α → σ) (P : σ → Prop) (Q : σ → α → Prop) : σ → List α → Prop
  | s, [] => P s
  | s, call :: calls => P s ∧ Q s call ∧ Throughout step P Q (step s call) calls

/-- Every call of a course meets a condition where it is made. -/
def Each (step : σ → α → σ) (C : σ → α → Prop) : σ → List α → Prop
  | _, [] => True
  | s, call :: calls => C s call ∧ Each step C (step s call) calls

/-- The property holds at the start. -/
theorem Throughout.start (h : Throughout step P Q s calls) : P s := by
  cases calls with
  | nil => exact h
  | cons => exact h.1

/-- An invariant that every call keeps holds throughout with what it gives. -/
theorem Throughout.of_each (start : I s) (gives : ∀ {s}, I s → P s)
    (keeps : ∀ {s call}, I s → C s call → I (step s call) ∧ Q s call) (each : Each step C s calls) :
    Throughout step P Q s calls := by
  induction calls generalizing s with
  | nil => exact gives start
  | cons call calls ih =>
    obtain ⟨hkept, hcall⟩ := keeps start each.1
    exact ⟨gives start, hcall, ih hkept each.2⟩

/-- An invariant that every call keeps, whatever the call, holds throughout. -/
theorem Throughout.of_all (start : I s) (gives : ∀ {s}, I s → P s)
    (keeps : ∀ {s call}, I s → I (step s call) ∧ Q s call) :
    Throughout step P Q s calls := by
  induction calls generalizing s with
  | nil => exact gives start
  | cons call calls ih => exact ⟨gives start, (keeps start).2, ih (keeps start).1⟩

/-- When every other call is noticed, the calls of a course meet a condition exactly if all is well throughout. -/
theorem throughout_iff_each (start : I s) (gives : ∀ {s}, I s → P s)
    (keeps : ∀ {s call}, I s → C s call → I (step s call) ∧ Q s call)
    (needs : ∀ {s call}, I s → Q s call → P (step s call) → C s call) :
    Throughout step P Q s calls ↔ Each step C s calls := by
  refine ⟨fun h => ?_, .of_each start gives keeps⟩
  induction calls generalizing s with
  | nil => trivial
  | cons call calls ih =>
    obtain ⟨-, hcall, hrest⟩ := h
    have hmeets := needs start hcall hrest.start
    exact ⟨hmeets, ih (keeps start hmeets).1 hrest⟩

end MyTeam.Async
