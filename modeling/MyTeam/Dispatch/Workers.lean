import MyTeam.Dispatch.BucketDispatcher

/-!
# The worker tasks of the bucket dispatcher

Every step is a submission or moves one worker from one point of its code to another.
`Move` lists the moves with their guards, and the steps are exactly these. Two facts about
the task list survive all of them: no two live tasks serve one source, and the running set
holds exactly the sources that a live task serves.
-/

namespace MyTeam.Dispatch

variable {α ρ : Type*}

namespace BucketDispatcher

/-- Everything one step can do, with the guard it ran under. A return to the queue comes
from `None` or from a queue that is not empty; a task ends on an empty queue or by an
exception. -/
inductive Move (p : Protocol α ρ) (d : BucketDispatcher α ρ) :
    Action α ρ → BucketDispatcher α ρ → Prop where
  | submit (event : α) : Move p d (.submit event) (d.submit p event)
  | begin {i : ℕ} {s : String} (at_ : d.workers[i]? = some ⟨s, .created⟩)
      (unbounded : d.maxConcurrentSources = 0) : Move p d (.start i) (d.moveTo i s .getting)
  | enter {i : ℕ} {s : String} (at_ : d.workers[i]? = some ⟨s, .created⟩)
      (bounded : 0 < d.maxConcurrentSources) (free : d.semaphore.free = true) :
      Move p d (.start i) { d.moveTo i s .getting with sem := some d.semaphore.take }
  | block {i : ℕ} {s : String} (at_ : d.workers[i]? = some ⟨s, .created⟩)
      (bounded : 0 < d.maxConcurrentSources) (full : d.semaphore.free = false) :
      Move p d (.start i) { d.moveTo i s .acquiring with sem := some (d.semaphore.enqueue i) }
  | grant {i : ℕ} {s : String} (at_ : d.workers[i]? = some ⟨s, .acquiring⟩)
      (next : d.semaphore.next = some i) :
      Move p d (.acquire i) { d.moveTo i s .getting with sem := some d.semaphore.grant }
  | get {i : ℕ} {s : String} {job : Job α} {rest : List (Job α)}
      (at_ : d.workers[i]? = some ⟨s, .getting⟩) (head : d.queues s = job :: rest) :
      Move p d (.get i) { d.moveTo i s (.responding job) with
        queues := Function.update d.queues s rest
        started := d.started ++ [job] }
  | emit {a : Action α ρ} {i : ℕ} {s : String} {job : Job α} {result : ρ}
      (at_ : d.workers[i]? = some ⟨s, .responding job⟩) : Move p d a (d.emit i s job result)
  | again {a : Action α ρ} {i : ℕ} {s : String} {point : Point α ρ}
      (at_ : d.workers[i]? = some ⟨s, point⟩) (call : point.inCall = true)
      (cause : d.queues s ≠ [] ∨ a = .respondReturns i .none) : Move p d a (d.moveTo i s .getting)
  | finish {a : Action α ρ} {i : ℕ} {s : String} {point : Point α ρ}
      (at_ : d.workers[i]? = some ⟨s, point⟩) (call : point.inCall = true)
      (cause : d.queues s = [] ∨ a = .respondReturns i .exception ∨ a = .emitReturns i true) :
      Move p d a (d.finish i s)

/-- The end of a round is a return to the queue or the end of the task. -/
theorem endRound_move {p : Protocol α ρ} {d : BucketDispatcher α ρ} {a : Action α ρ} {i : ℕ}
    {s : String} {point : Point α ρ} (at_ : d.workers[i]? = some ⟨s, point⟩)
    (call : point.inCall = true) : Move p d a (d.endRound i s) := by
  unfold endRound
  split
  next hempty => exact .finish at_ call (Or.inl (List.isEmpty_iff.mp hempty))
  next hqueued => exact .again at_ call (Or.inl (by simpa using hqueued))

/-- Every step is one of the moves. -/
theorem move_of_step {p : Protocol α ρ} {d d' : BucketDispatcher α ρ} {a : Action α ρ}
    (h : d.step p a = some d') : Move p d a d' := by
  cases a with
  | submit event =>
    obtain rfl : d.submit p event = d' := by simpa [step] using h
    exact .submit event
  | start i =>
    simp only [step] at h
    split at h
    next s at_ =>
      obtain rfl : d.start i s = d' := by simpa using h
      unfold start
      split
      next bounded =>
        split
        next free => exact .enter at_ bounded free
        next full => exact .block at_ bounded (by simpa using full)
      next unbounded => exact .begin at_ (by omega)
    next => exact absurd h (by simp)
  | acquire i =>
    simp only [step] at h
    split at h
    next s at_ =>
      split at h
      next next =>
        obtain rfl := Option.some.inj h
        exact .grant at_ next
      next => exact absurd h (by simp)
    next => exact absurd h (by simp)
  | get i =>
    simp only [step] at h
    split at h
    next s at_ =>
      split at h
      next => exact absurd h (by simp)
      next job rest head =>
        obtain rfl := Option.some.inj h
        exact .get at_ head
    next => exact absurd h (by simp)
  | respondReturns i reply =>
    simp only [step] at h
    split at h
    next s job at_ =>
      obtain rfl := Option.some.inj h
      cases reply with
      | none => exact .again at_ rfl (Or.inr rfl)
      | event result => exact .emit at_
      | void =>
        simp only [respondReturns]
        split
        · exact .emit at_
        · exact endRound_move at_ rfl
      | exception => exact .finish at_ rfl (Or.inr (Or.inl rfl))
    next => exact absurd h (by simp)
  | emitReturns i raises =>
    simp only [step] at h
    split at h
    next s job result at_ =>
      obtain rfl := Option.some.inj h
      cases raises with
      | true => exact .finish at_ rfl (Or.inr (Or.inr rfl))
      | false => exact endRound_move at_ rfl
    next => exact absurd h (by simp)

/-- Workers only take from the buckets. -/
theorem step_queues {p : Protocol α ρ} {d d' : BucketDispatcher α ρ} {a : Action α ρ}
    (h : d.step p a = some d') (hsubmit : ∀ event, a ≠ .submit event) (s : String) :
    d'.queues s <:+ d.queues s := by
  cases move_of_step h with
  | submit event => exact absurd rfl (hsubmit event)
  | @get i source job rest at_ head =>
    by_cases hs : s = source
    · subst hs
      simp [head]
    · simp [hs]
  | _ => exact List.suffix_refl _

/-- A worker that takes an event takes it from a bucket. -/
theorem step_get {p : Protocol α ρ} {d d' : BucketDispatcher α ρ} {i : ℕ} {s : String}
    {job : Job α} (h : d.step p (.get i) = some d')
    (at_ : d'.workers[i]? = some ⟨s, .responding job⟩) : job ∈ d.queues s := by
  simp only [step] at h
  split at h
  next source hat =>
    split at h
    next => simp at h
    next taken rest head =>
      obtain rfl := Option.some.inj h
      have hlt : i < d.workers.length := (List.getElem?_eq_some_iff.mp hat).1
      simp only [moveTo, List.getElem?_set_self hlt, Option.some.injEq, Worker.mk.injEq,
        Point.responding.injEq] at at_
      obtain ⟨rfl, rfl⟩ := at_
      simp [head]
  next => simp at h

end BucketDispatcher

/-- Some live task of the list serves the source. -/
def Serves (workers : List (Worker α ρ)) (s : String) : Prop :=
  ∃ (i : ℕ) (point : Point α ρ), workers[i]? = some ⟨s, point⟩ ∧ point.live = true

/-- No two live tasks of the list serve the same source. -/
def Exclusive (workers : List (Worker α ρ)) : Prop :=
  ∀ (i j : ℕ) (s : String) (point point' : Point α ρ), workers[i]? = some ⟨s, point⟩ →
    workers[j]? = some ⟨s, point'⟩ → point.live = true → point'.live = true → i = j

/-- A task inside a call is live. -/
theorem Point.live_of_inCall {point : Point α ρ} (h : point.inCall = true) : point.live = true := by
  cases point <;> simp_all [Point.inCall, Point.live]

/-- A task inside a call has its slot. -/
theorem Point.holds_of_inCall {point : Point α ρ} (h : point.inCall = true) :
    point.holds = true := by
  cases point <;> simp_all [Point.inCall, Point.holds]

section WorkerList

variable {workers : List (Worker α ρ)} {i : ℕ} {s : String} {point point' : Point α ρ}

/-- Reading the list after worker `i` has moved. -/
theorem getElem?_set_worker (at_ : workers[i]? = some ⟨s, point⟩) (w : Worker α ρ) (j : ℕ) :
    (workers.set i w)[j]? = if i = j then some w else workers[j]? := by
  have hi : i < workers.length := (List.getElem?_eq_some_iff.mp at_).1
  rw [List.getElem?_set, if_pos hi]

/-- A move of a live task keeps the live tasks exclusive. -/
theorem Exclusive.set (h : Exclusive workers) (at_ : workers[i]? = some ⟨s, point⟩)
    (hlive : point.live = true) : Exclusive (workers.set i ⟨s, point'⟩) := by
  intro j k r pj pk hj hk lj lk
  rw [getElem?_set_worker at_] at hj hk
  by_cases hij : i = j <;> by_cases hik : i = k
  · exact hij.symm.trans hik
  · simp only [hij, if_true, Option.some.injEq, Worker.mk.injEq] at hj
    rw [if_neg hik] at hk
    obtain ⟨rfl, -⟩ := hj
    exact absurd (h i k s point pk at_ hk hlive lk) hik
  · simp only [hik, if_true, Option.some.injEq, Worker.mk.injEq] at hk
    rw [if_neg hij] at hj
    obtain ⟨rfl, -⟩ := hk
    exact absurd (h i j s point pj at_ hj hlive lj) hij
  · rw [if_neg hij] at hj
    rw [if_neg hik] at hk
    exact h j k r pj pk hj hk lj lk

/-- A task that stays live serves the same source as before. -/
theorem serves_set_live (at_ : workers[i]? = some ⟨s, point⟩) (hlive : point.live = true)
    (hlive' : point'.live = true) (r : String) :
    Serves (workers.set i ⟨s, point'⟩) r ↔ Serves workers r := by
  constructor
  · rintro ⟨j, q, hj, hq⟩
    rw [getElem?_set_worker at_] at hj
    split at hj
    next hij =>
      obtain ⟨rfl, rfl⟩ := Worker.mk.inj (Option.some.inj hj)
      exact ⟨i, point, at_, hlive⟩
    next => exact ⟨j, q, hj, hq⟩
  · rintro ⟨j, q, hj, hq⟩
    by_cases hij : i = j
    · subst hij
      obtain ⟨rfl, rfl⟩ := Worker.mk.inj (Option.some.inj (at_.symm.trans hj))
      exact ⟨i, point', by rw [getElem?_set_worker at_, if_pos rfl], hlive'⟩
    · exact ⟨j, q, by rw [getElem?_set_worker at_, if_neg hij, hj], hq⟩

/-- A task that ends leaves its source unserved and every other source as it was. -/
theorem serves_set_finished (h : Exclusive workers) (at_ : workers[i]? = some ⟨s, point⟩)
    (hlive : point.live = true) (r : String) :
    Serves (workers.set i ⟨s, .finished⟩) r ↔ r ≠ s ∧ Serves workers r := by
  constructor
  · rintro ⟨j, q, hj, hq⟩
    rw [getElem?_set_worker at_] at hj
    split at hj
    next hij =>
      obtain ⟨-, rfl⟩ := Worker.mk.inj (Option.some.inj hj)
      simp [Point.live] at hq
    next hij =>
      refine ⟨fun hrs => hij ?_, j, q, hj, hq⟩
      subst hrs
      exact h i j r point q at_ hj hlive hq
  · rintro ⟨hrs, j, q, hj, hq⟩
    have hij : i ≠ j := by
      rintro rfl
      exact hrs (Worker.mk.inj (Option.some.inj (hj.symm.trans at_))).1
    exact ⟨j, q, by rw [getElem?_set_worker at_, if_neg hij, hj], hq⟩

/-- Starting a task for an unserved source keeps the live tasks exclusive. -/
theorem Exclusive.append (h : Exclusive workers) (hs : ¬ Serves workers s) :
    Exclusive (workers ++ [⟨s, point⟩]) := by
  -- An index of the longer list is an old task, or the new one in the last place.
  have hold : ∀ j r q, (workers ++ [⟨s, point⟩])[j]? = some ⟨r, q⟩ → q.live = true →
      (workers[j]? = some ⟨r, q⟩ ∧ r ≠ s) ∨ (j = workers.length ∧ r = s) := by
    intro j r q hj hq
    rcases Nat.lt_trichotomy j workers.length with hlt | rfl | hgt
    · rw [List.getElem?_append_left hlt] at hj
      exact Or.inl ⟨hj, fun hrs => hs (hrs ▸ ⟨j, q, hj, hq⟩)⟩
    · simp only [List.getElem?_concat_length, Option.some.injEq, Worker.mk.injEq] at hj
      exact Or.inr ⟨rfl, hj.1.symm⟩
    · rw [List.getElem?_eq_none (by simp; omega)] at hj
      exact absurd hj (by simp)
  intro j k r q q' hj hk lj lk
  rcases hold j r q hj lj with ⟨hj', hrs⟩ | ⟨rfl, rfl⟩ <;>
    rcases hold k r q' hk lk with ⟨hk', hrs'⟩ | ⟨rfl, hrs'⟩
  · exact h j k r q q' hj' hk' lj lk
  · exact absurd hrs' hrs
  · exact absurd rfl hrs'
  · rfl

/-- The sources served after a task for `s` has been started. -/
theorem serves_append (hlive : point.live = true) (r : String) :
    Serves (workers ++ [⟨s, point⟩]) r ↔ r = s ∨ Serves workers r := by
  constructor
  · rintro ⟨j, q, hj, hq⟩
    rw [List.getElem?_append] at hj
    split at hj
    next => exact Or.inr ⟨j, q, hj, hq⟩
    next =>
      obtain ⟨rfl, -⟩ := Worker.mk.inj (List.mem_singleton.mp (List.mem_of_getElem? hj))
      exact Or.inl rfl
  · rintro (rfl | ⟨j, q, hj, hq⟩)
    · exact ⟨workers.length, point, List.getElem?_concat_length, hlive⟩
    · have hlt : j < workers.length := (List.getElem?_eq_some_iff.mp hj).1
      exact ⟨j, q, by rw [List.getElem?_append_left hlt, hj], hq⟩

end WorkerList

end MyTeam.Dispatch
