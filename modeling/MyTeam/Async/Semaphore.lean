import Mathlib.Data.List.Basic

/-!
# A first-come first-served counting semaphore

`asyncio.Semaphore` as its documentation describes it. A caller gets a permit at once
only if one is free and nobody is queued before it; otherwise it joins the queue, and
permits that become free go to the head of that queue. Callers are named by values of an
arbitrary type.
-/

namespace MyTeam.Async

variable {ι : Type*}

/-- Free permits, and the callers blocked in `acquire`, longest waiting first. -/
structure Semaphore (ι : Type*) where
  permits : ℕ
  waiters : List ι

namespace Semaphore

/-- A fresh semaphore has all its permits and no queue. -/
def new (value : ℕ) : Semaphore ι := ⟨value, []⟩

/-- Whether `acquire` returns without blocking. -/
def free (sem : Semaphore ι) : Bool := decide (0 < sem.permits) && sem.waiters.isEmpty

/-- `acquire` by a caller that finds a permit. -/
def take (sem : Semaphore ι) : Semaphore ι := { sem with permits := sem.permits - 1 }

/-- `acquire` by a caller that has to wait. -/
def enqueue (sem : Semaphore ι) (caller : ι) : Semaphore ι :=
  { sem with waiters := sem.waiters ++ [caller] }

/-- The blocked caller whose `acquire` can return now, if there is one. -/
def next (sem : Semaphore ι) : Option ι := if 0 < sem.permits then sem.waiters.head? else none

/-- The head of the queue leaves it with a permit. -/
def grant (sem : Semaphore ι) : Semaphore ι :=
  { permits := sem.permits - 1, waiters := sem.waiters.tail }

/-- `release` returns one permit. -/
def release (sem : Semaphore ι) : Semaphore ι := { sem with permits := sem.permits + 1 }

/-- A caller is served from the queue only with a free permit, and only from its head. -/
theorem next_eq_some {sem : Semaphore ι} {caller : ι} :
    sem.next = some caller ↔ 0 < sem.permits ∧ ∃ rest, sem.waiters = caller :: rest := by
  unfold next
  split
  · cases sem.waiters <;> simp [*]
  · simp [*]

/-- An unblocked `acquire` had a permit to take. -/
theorem permits_pos_of_free {sem : Semaphore ι} (h : sem.free = true) : 0 < sem.permits := by
  simp only [free, Bool.and_eq_true, decide_eq_true_eq] at h
  exact h.1

end Semaphore

end MyTeam.Async
