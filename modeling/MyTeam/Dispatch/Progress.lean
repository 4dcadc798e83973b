import MyTeam.Dispatch.Safety

/-!
# When the bucket dispatcher leaves nothing behind

A worker that ends by an exception leaves the rest of its queue to nobody, and a worker
that gets `None` for the last event of its source keeps its slot while it waits at the
empty queue. As long as neither happens at the wrong moment, a queue with an event in it
has a live worker, and a blocked worker has somebody ahead of it who can still move. So a
state in which nothing can move has empty queues.
-/

namespace MyTeam.Dispatch

variable {α ρ : Type*}

namespace BucketDispatcher

/-- Worker `i` is inside a call, or at the queue with an event to take. -/
def Busy (d : BucketDispatcher α ρ) (i : ℕ) : Prop :=
  ∃ s point, d.workers[i]? = some ⟨s, point⟩ ∧
    (point.inCall = true ∨ (point = .getting ∧ d.queues s ≠ []))

/-- No call is outstanding and no worker has a segment to run. -/
def Quiescent (p : Protocol α ρ) (d : BucketDispatcher α ρ) : Prop :=
  d.activeSources = [] ∧
    ∀ i, (d.step p (.start i)).isNone ∧ (d.step p (.acquire i)).isNone ∧ (d.step p (.get i)).isNone

/-- A call raises only when its source has nothing queued, and with a bound on concurrent
sources `None` for the last queued event of a source leaves a slot that is free or in use. -/
def KeepsServing (d : BucketDispatcher α ρ) : Action α ρ → Prop
  | .respondReturns i .exception | .emitReturns i true =>
    ∀ s point, d.workers[i]? = some ⟨s, point⟩ → d.queues s = []
  | .respondReturns i .none =>
    ∀ s point, d.workers[i]? = some ⟨s, point⟩ → d.queues s = [] → 0 < d.maxConcurrentSources →
      0 < d.semaphore.permits ∨ ∃ j, j ≠ i ∧ d.Busy j
  | _ => True

/-- The additional invariant of runs that keep serving. -/
structure Attended (n : ℕ) (d : BucketDispatcher α ρ) : Prop where
  served : ∀ s, d.queues s ≠ [] → Serves d.workers s
  queued : ∀ (i : ℕ) (s : String) (point : Point α ρ), d.workers[i]? = some ⟨s, point⟩ →
    point = .created ∨ point = .acquiring → d.queues s ≠ []
  waiting : ∀ (i : ℕ), i ∈ d.semaphore.waiters ↔ ∃ s, d.workers[i]? = some ⟨s, .acquiring⟩
  waitOnce : d.semaphore.waiters.Nodup
  bounded : ∀ (i : ℕ) (s : String), d.workers[i]? = some ⟨s, .acquiring⟩ → 0 < n
  moving : 0 < n → 0 < d.semaphore.permits ∨ ∃ i, d.Busy i

/-- A worker that stays where it is stays busy, if no queue has been emptied. -/
theorem Busy.mono {d d' : BucketDispatcher α ρ} {j : ℕ} (h : d.Busy j)
    (hget : ∀ w, d.workers[j]? = some w → d'.workers[j]? = some w)
    (hqueues : ∀ s, d.queues s ≠ [] → d'.queues s ≠ []) : d'.Busy j := by
  obtain ⟨s, point, at_, hbusy⟩ := h
  exact ⟨s, point, hget _ at_, hbusy.imp_right fun ⟨hpoint, hne⟩ => ⟨hpoint, hqueues s hne⟩⟩

section Relocate

variable {n : ℕ} {d d' : BucketDispatcher α ρ} {i : ℕ} {s : String} {point point' : Point α ρ}

/-- A queued source stays served when worker `i` moves and no queue changes, since a worker
ends on an empty queue only. -/
theorem served_of_set (h : Attended n d) (hexclusive : Exclusive d.workers)
    (at_ : d.workers[i]? = some ⟨s, point⟩) (hlive : point.live = true)
    (hworkers : d'.workers = d.workers.set i ⟨s, point'⟩) (hqueues : d'.queues = d.queues)
    (hend : point' = .finished → d.queues s = []) (r : String) (hr : d'.queues r ≠ []) :
    Serves d'.workers r := by
  rw [hqueues] at hr
  rw [hworkers]
  by_cases hlive' : point'.live = true
  · exact (serves_set_live at_ hlive hlive' r).mpr (h.served r hr)
  · have hfinished : point' = .finished := by cases point' <;> simp_all [Point.live]
    subst hfinished
    refine (serves_set_finished hexclusive at_ hlive r).mpr ⟨?_, h.served r hr⟩
    rintro rfl
    exact hr (hend rfl)

/-- A task that has not reached the queue has an event to serve, also after worker `i` moved. -/
theorem queued_of_set (h : Attended n d) (at_ : d.workers[i]? = some ⟨s, point⟩)
    (hworkers : d'.workers = d.workers.set i ⟨s, point'⟩) (hqueues : d'.queues = d.queues)
    (hqueued : point' = .created ∨ point' = .acquiring → d.queues s ≠ [])
    (j : ℕ) (r : String) (q : Point α ρ) (hj : d'.workers[j]? = some ⟨r, q⟩)
    (hq : q = .created ∨ q = .acquiring) : d'.queues r ≠ [] := by
  rw [hworkers, getElem?_set_worker at_] at hj
  rw [hqueues]
  split at hj
  next =>
    obtain ⟨rfl, rfl⟩ := Worker.mk.inj (Option.some.inj hj)
    exact hqueued hq
  next => exact h.queued j r q hj hq

/-- The blocked workers after worker `i` moved. -/
theorem acquiring_of_set (at_ : d.workers[i]? = some ⟨s, point⟩)
    (hworkers : d'.workers = d.workers.set i ⟨s, point'⟩) (j : ℕ) :
    (∃ r, d'.workers[j]? = some ⟨r, .acquiring⟩) ↔
      if i = j then point' = .acquiring else ∃ r, d.workers[j]? = some ⟨r, .acquiring⟩ := by
  rw [hworkers, getElem?_set_worker at_]
  split <;> simp

/-- Some worker can move if worker `i` is busy after its move. -/
theorem moving_of_busy (h : d'.Busy i) : 0 < n → 0 < d'.semaphore.permits ∨ ∃ j, d'.Busy j :=
  fun _ => Or.inr ⟨i, h⟩

/-- A move that leaves queues, semaphore and blocked workers alone keeps the invariant,
provided something can still move afterwards. -/
theorem Attended.relocate (h : Attended n d) (hexclusive : Exclusive d.workers)
    (at_ : d.workers[i]? = some ⟨s, point⟩) (hlive : point.live = true)
    (hworkers : d'.workers = d.workers.set i ⟨s, point'⟩) (hqueues : d'.queues = d.queues)
    (hend : point' = .finished → d.queues s = []) (hpoint : point ≠ .acquiring)
    (hcreated : point' ≠ .created) (hpoint' : point' ≠ .acquiring)
    (hwaiters : d'.semaphore.waiters = d.semaphore.waiters)
    (hmoving : 0 < n → 0 < d'.semaphore.permits ∨ ∃ j, d'.Busy j) : Attended n d' where
  served := served_of_set h hexclusive at_ hlive hworkers hqueues hend
  queued := queued_of_set h at_ hworkers hqueues fun hor =>
    (hor.elim hcreated hpoint').elim
  waiting := by
    intro j
    rw [hwaiters, h.waiting j, acquiring_of_set at_ hworkers]
    split
    next hij =>
      subst hij
      simp [at_, hpoint, hpoint']
    next => rfl
  waitOnce := by rw [hwaiters]; exact h.waitOnce
  bounded := by
    intro j r hj
    have hset := (acquiring_of_set at_ hworkers j).mp ⟨r, hj⟩
    split at hset
    next => exact absurd hset hpoint'
    next =>
      obtain ⟨r', hj'⟩ := hset
      exact h.bounded j r' hj'
  moving := hmoving

end Relocate

/-- The initial state has nothing queued and all slots free. -/
theorem attended_new (n : ℕ) : Attended n (new n : BucketDispatcher α ρ) where
  served := by simp [new]
  queued := by intro i s point hi; simp [new] at hi
  waiting := by intro i; simp [new, semaphore, Async.Semaphore.new]
  waitOnce := List.nodup_nil
  bounded := by intro i s hi; simp [new] at hi
  moving := fun hn => Or.inl hn

/-- Queueing an event empties no queue. -/
theorem put_queues_ne_nil (p : Protocol α ρ) (d : BucketDispatcher α ρ) (event : α) (s : String)
    (hs : d.queues s ≠ []) : (d.put p event).queues s ≠ [] := by
  by_cases hsource : s = p.source event
  · simp [BucketDispatcher.put, hsource]
  · simpa [BucketDispatcher.put, hsource] using hs

/-- Queueing an event for a source with a live worker keeps the invariant. -/
theorem Attended.put {p : Protocol α ρ} {n : ℕ} {d : BucketDispatcher α ρ} (h : Attended n d)
    (event : α) (hserves : Serves d.workers (p.source event)) : Attended n (d.put p event) := by
  have hgrow := put_queues_ne_nil p d event
  refine { h with served := ?_, queued := ?_, moving := ?_ }
  · intro s hs
    by_cases hsource : s = p.source event
    · exact hsource ▸ hserves
    · exact h.served s (by simpa [BucketDispatcher.put, hsource] using hs)
  · exact fun i s point hi hpoint => hgrow s (h.queued i s point hi hpoint)
  · exact fun hn => (h.moving hn).imp_right (Exists.imp fun _ hi => hi.mono (fun _ => id) hgrow)

/-- A submission keeps the invariant. -/
theorem Attended.submit {p : Protocol α ρ} {n : ℕ} {d : BucketDispatcher α ρ} (h : Attended n d)
    (hinv : Inv p n d) (event : α) : Attended n (d.submit p event) := by
  unfold BucketDispatcher.submit
  split
  next hrunning => exact h.put event ((hinv.running _).mp hrunning)
  next hidle =>
    have hnew : ∀ (j : ℕ) (w : Worker α ρ), (d.workers ++ [⟨p.source event, .created⟩])[j]? = some w →
        d.workers[j]? = some w ∨ w = ⟨p.source event, .created⟩ := by
      intro j w hj
      rw [List.getElem?_append] at hj
      split at hj
      next => exact Or.inl hj
      next => exact Or.inr (List.mem_singleton.mp (List.mem_of_getElem? hj))
    have hold : ∀ (j : ℕ) (w : Worker α ρ), d.workers[j]? = some w →
        (d.workers ++ [⟨p.source event, .created⟩])[j]? = some w := by
      intro j w hj
      rw [List.getElem?_append_left (List.getElem?_eq_some_iff.mp hj).1, hj]
    have hqueue := put_queues_ne_nil p d event
    constructor
    · intro s hs
      rw [serves_append rfl]
      by_cases hsource : s = p.source event
      · exact Or.inl hsource
      · exact Or.inr (h.served s (by simpa [BucketDispatcher.put, hsource] using hs))
    · intro j s point hj hpoint
      rcases hnew j _ hj with hj | hw
      · exact hqueue s (h.queued j s point hj hpoint)
      · obtain ⟨rfl, -⟩ := Worker.mk.inj hw
        simp [BucketDispatcher.put]
    · intro j
      refine (h.waiting j).trans ⟨Exists.imp fun _ => hold j _, Exists.imp fun _ hj => ?_⟩
      exact (hnew j _ hj).resolve_right (by simp)
    · exact h.waitOnce
    · intro j s hj
      exact h.bounded j s ((hnew j _ hj).resolve_right (by simp))
    · exact fun hn => (h.moving hn).imp_right (Exists.imp fun j hj => hj.mono (hold j) hqueue)

/-- A worker that takes a slot at the queue has an event to serve. -/
theorem busy_at_queue {d d' : BucketDispatcher α ρ} {i : ℕ} {s : String} {point : Point α ρ}
    (at_ : d.workers[i]? = some ⟨s, point⟩) (hworkers : d'.workers = d.workers.set i ⟨s, .getting⟩)
    (hqueued : d'.queues s ≠ []) : d'.Busy i :=
  ⟨s, .getting, by rw [hworkers, getElem?_set_worker at_, if_pos rfl], Or.inr ⟨rfl, hqueued⟩⟩

/-- A worker joining the semaphore's queue keeps the invariant. -/
theorem Attended.block {n : ℕ} {d : BucketDispatcher α ρ} (h : Attended n d)
    (hexclusive : Exclusive d.workers) (hbound : d.maxConcurrentSources = n) {i : ℕ} {s : String}
    (at_ : d.workers[i]? = some ⟨s, .created⟩) (bounded : 0 < d.maxConcurrentSources) :
    Attended n { d.moveTo i s .acquiring with sem := some (d.semaphore.enqueue i) } := by
  have hqueued : d.queues s ≠ [] := h.queued i s _ at_ (Or.inl rfl)
  have hfresh : i ∉ d.semaphore.waiters := by
    rw [h.waiting i, at_]
    simp
  constructor
  · exact served_of_set h hexclusive at_ rfl rfl rfl (by simp)
  · exact queued_of_set h at_ rfl rfl fun _ => hqueued
  · intro j
    rw [acquiring_of_set at_ rfl j]
    change j ∈ d.semaphore.waiters ++ [i] ↔ _
    rw [List.mem_append, List.mem_singleton, h.waiting j]
    split
    next hij => simp [hij]
    next hij => simp [Ne.symm hij]
  · exact List.nodup_append.mpr ⟨h.waitOnce, List.nodup_singleton i,
      fun j hj k hk hjk => hfresh (List.mem_singleton.mp hk ▸ hjk ▸ hj)⟩
  · exact fun _ _ _ => hbound ▸ bounded
  · intro hn
    refine (h.moving hn).imp_right fun ⟨j, hj⟩ => ⟨j, hj.mono (fun w hw => ?_) fun _ => id⟩
    change (d.workers.set i _)[j]? = some w
    rw [getElem?_set_worker at_, if_neg, hw]
    rintro rfl
    obtain ⟨r, q, hget, hbusy⟩ := hj
    obtain ⟨rfl, rfl⟩ := Worker.mk.inj (Option.some.inj (at_.symm.trans hget))
    simp [Point.inCall] at hbusy

/-- The head of the semaphore's queue getting its slot keeps the invariant. -/
theorem Attended.grant {n : ℕ} {d : BucketDispatcher α ρ} (h : Attended n d)
    (hexclusive : Exclusive d.workers) {i : ℕ} {s : String}
    (at_ : d.workers[i]? = some ⟨s, .acquiring⟩) (next : d.semaphore.next = some i) :
    Attended n { d.moveTo i s .getting with sem := some d.semaphore.grant } := by
  have hqueued : d.queues s ≠ [] := h.queued i s _ at_ (Or.inr rfl)
  obtain ⟨-, rest, hrest⟩ := Async.Semaphore.next_eq_some.mp next
  have honce : i ∉ rest ∧ rest.Nodup := List.nodup_cons.mp (hrest ▸ h.waitOnce)
  have hwaiters : d.semaphore.grant.waiters = rest := by simp [Async.Semaphore.grant, hrest]
  constructor
  · exact served_of_set h hexclusive at_ rfl rfl rfl (by simp)
  · exact queued_of_set h at_ rfl rfl (by simp)
  · intro j
    rw [acquiring_of_set at_ rfl j]
    change j ∈ d.semaphore.grant.waiters ↔ _
    rw [hwaiters]
    split
    next hij => simpa [← hij] using honce.1
    next hij => rw [← h.waiting j, hrest, List.mem_cons, or_iff_right (Ne.symm hij)]
  · change d.semaphore.grant.waiters.Nodup
    rw [hwaiters]
    exact honce.2
  · intro j r hj
    have hset := (acquiring_of_set at_ rfl j).mp ⟨r, hj⟩
    split at hset
    next => simp at hset
    next =>
      obtain ⟨r', hj'⟩ := hset
      exact h.bounded j r' hj'
  · exact moving_of_busy (busy_at_queue at_ rfl hqueued)

/-- Taking an event from the queue keeps the invariant. -/
theorem Attended.get {n : ℕ} {d : BucketDispatcher α ρ} (h : Attended n d)
    (hexclusive : Exclusive d.workers) {i : ℕ} {s : String} {job : Job α} {rest : List (Job α)}
    (at_ : d.workers[i]? = some ⟨s, .getting⟩) :
    Attended n { d.moveTo i s (.responding job) with
      queues := Function.update d.queues s rest
      started := d.started ++ [job] } := by
  have hserves : ∀ r, Serves (d.workers.set i ⟨s, .responding job⟩) r ↔ Serves d.workers r :=
    serves_set_live at_ rfl rfl
  constructor
  · intro r hr
    refine (hserves r).mpr ?_
    by_cases hrs : r = s
    · exact hrs ▸ ⟨i, _, at_, rfl⟩
    · exact h.served r (by simpa [hrs] using hr)
  · -- A task of this source that has not reached the queue would be a second live one.
    intro j r q hj hq
    change (d.workers.set i ⟨s, .responding job⟩)[j]? = _ at hj
    rw [getElem?_set_worker at_] at hj
    split at hj
    next =>
      obtain ⟨-, rfl⟩ := Worker.mk.inj (Option.some.inj hj)
      simp at hq
    next hij =>
      have hrs : r ≠ s := by
        rintro rfl
        exact hij (hexclusive i j r _ _ at_ hj rfl (by rcases hq with rfl | rfl <;> rfl))
      simpa [hrs] using h.queued j r q hj hq
  · intro j
    rw [acquiring_of_set at_ rfl j]
    refine (h.waiting j).trans ?_
    split
    next hij => simp [← hij, at_]
    next => rfl
  · exact h.waitOnce
  · intro j r hj
    have hset := (acquiring_of_set at_ rfl j).mp ⟨r, hj⟩
    split at hset
    next => simp at hset
    next =>
      obtain ⟨r', hj'⟩ := hset
      exact h.bounded j r' hj'
  · refine moving_of_busy (i := i) ⟨s, .responding job, ?_, Or.inl rfl⟩
    change (d.workers.set i _)[i]? = _
    rw [getElem?_set_worker at_, if_pos rfl]

/-- A task that returns from a call to the queue keeps the invariant under the condition. -/
theorem Attended.again {n : ℕ} {d : BucketDispatcher α ρ} (h : Attended n d)
    (hexclusive : Exclusive d.workers) (hbound : d.maxConcurrentSources = n) {a : Action α ρ}
    (hok : d.KeepsServing a) {i : ℕ} {s : String} {point : Point α ρ}
    (at_ : d.workers[i]? = some ⟨s, point⟩) (call : point.inCall = true)
    (cause : d.queues s ≠ [] ∨ a = .respondReturns i .none) :
    Attended n (d.moveTo i s .getting) := by
  refine h.relocate hexclusive at_ (Point.live_of_inCall call) rfl rfl (by simp) ?_ (by simp)
    (by simp) rfl ?_
  · rintro rfl
    simp [Point.inCall] at call
  · intro hn
    by_cases hqueued : d.queues s = []
    · obtain rfl := cause.resolve_left (fun hne => hne hqueued)
      refine (hok s point at_ hqueued (hbound ▸ hn)).imp_right (Exists.imp fun j hj => ?_)
      refine hj.2.mono (fun w hw => ?_) fun _ => id
      rw [moveTo_workers, getElem?_set_worker at_, if_neg (Ne.symm hj.1), hw]
    · exact Or.inr ⟨i, busy_at_queue at_ rfl hqueued⟩

/-- A task that ends keeps the invariant under the condition. -/
theorem Attended.finish {n : ℕ} {d : BucketDispatcher α ρ} (h : Attended n d)
    (hexclusive : Exclusive d.workers) (hbound : d.maxConcurrentSources = n) {a : Action α ρ}
    (hok : d.KeepsServing a) {i : ℕ} {s : String} {point : Point α ρ}
    (at_ : d.workers[i]? = some ⟨s, point⟩) (call : point.inCall = true)
    (cause : d.queues s = [] ∨ a = .respondReturns i .exception ∨ a = .emitReturns i true) :
    Attended n (d.finish i s) := by
  have hempty : d.queues s = [] := by
    rcases cause with hempty | rfl | rfl
    · exact hempty
    · exact hok s point at_
    · exact hok s point at_
  refine h.relocate hexclusive at_ (Point.live_of_inCall call) rfl rfl (fun _ => hempty) ?_
    (by simp) (by simp) ?_ ?_
  · rintro rfl
    simp [Point.inCall] at call
  · unfold BucketDispatcher.finish semaphore
    split <;> rfl
  · intro hn
    left
    simp [BucketDispatcher.finish, semaphore, hbound, hn, Async.Semaphore.release]

/-- Every move of a run that keeps serving keeps the invariant. -/
theorem Attended.move {p : Protocol α ρ} {n : ℕ} {d d' : BucketDispatcher α ρ} {a : Action α ρ}
    (h : Attended n d) (hinv : Inv p n d) (hok : d.KeepsServing a) (hmove : Move p d a d') :
    Attended n d' := by
  cases hmove with
  | submit event => exact h.submit hinv event
  | begin at_ unbounded =>
    refine h.relocate hinv.exclusive at_ rfl rfl rfl (by simp) (by simp) (by simp) (by simp) rfl ?_
    exact moving_of_busy (busy_at_queue at_ rfl (h.queued _ _ _ at_ (Or.inl rfl)))
  | enter at_ bounded free =>
    refine h.relocate hinv.exclusive at_ rfl rfl rfl (by simp) (by simp) (by simp) (by simp) rfl ?_
    exact moving_of_busy (busy_at_queue at_ rfl (h.queued _ _ _ at_ (Or.inl rfl)))
  | block at_ bounded full => exact h.block hinv.exclusive hinv.bound at_ bounded
  | grant at_ next => exact h.grant hinv.exclusive at_ next
  | get at_ head => exact h.get hinv.exclusive at_
  | @emit _ i s job result at_ =>
    refine h.relocate hinv.exclusive at_ rfl rfl rfl (by simp) (by simp) (by simp) (by simp) rfl ?_
    refine moving_of_busy (i := i) ⟨s, .emitting job result, ?_, Or.inl rfl⟩
    change (d.workers.set i _)[i]? = _
    rw [getElem?_set_worker at_, if_pos rfl]
  | again at_ call cause => exact h.again hinv.exclusive hinv.bound hok at_ call cause
  | finish at_ call cause => exact h.finish hinv.exclusive hinv.bound hok at_ call cause

/-- Runs that keep serving keep both invariants. -/
theorem Reachable.attended {p : Protocol α ρ} {n : ℕ} {d : BucketDispatcher α ρ}
    (h : Reachable p n KeepsServing d) : Attended n d := by
  induction h with
  | init => exact attended_new n
  | step hreach hok hstep ih => exact ih.move hreach.inv hok (move_of_step hstep)

/-- A busy worker is not at rest. -/
theorem Quiescent.not_busy {p : Protocol α ρ} {d : BucketDispatcher α ρ} (h : d.Quiescent p)
    (i : ℕ) : ¬ d.Busy i := by
  rintro ⟨s, point, at_, hcall | ⟨rfl, hqueued⟩⟩
  · have hmem : s ∈ d.activeSources :=
      List.mem_map.mpr ⟨⟨s, point⟩, List.mem_filter.mpr ⟨List.mem_of_getElem? at_, hcall⟩, rfl⟩
    simp [h.1] at hmem
  · obtain ⟨job, rest, hhead⟩ := List.exists_cons_of_ne_nil hqueued
    have hget := (h.2 i).2.2
    simp [step, at_, hhead] at hget

/-- If calls raise only with nothing left for their source, and `None` never leaves all
slots with workers that wait at empty queues, then in every state in which no call is
outstanding and no worker can move, every queue is empty. -/
theorem leaves_nothing_queued (p : Protocol α ρ) (n : ℕ) (d : BucketDispatcher α ρ)
    (h : Reachable p n KeepsServing d) (hquiet : d.Quiescent p) (s : String) :
    d.queues s = [] := by
  by_contra hqueued
  have hattended := h.attended
  obtain ⟨i, point, at_, hlive⟩ := hattended.served s hqueued
  have hidle := hquiet.not_busy i
  cases point with
  | created =>
    have hstart := (hquiet.2 i).1
    simp [step, at_] at hstart
  | acquiring =>
    -- The worker is blocked, so somebody ahead of it would have to be able to move.
    have hmem := (hattended.waiting i).mpr ⟨s, at_⟩
    rcases hattended.moving (hattended.bounded i s at_) with hpermits | ⟨j, hj⟩
    · obtain ⟨first, rest, hwaiters⟩ := List.exists_cons_of_ne_nil (List.ne_nil_of_mem hmem)
      have hnext : d.semaphore.next = some first :=
        Async.Semaphore.next_eq_some.mpr ⟨hpermits, rest, hwaiters⟩
      obtain ⟨r, hfirst⟩ := (hattended.waiting first).mp (by rw [hwaiters]; simp)
      have hacquire := (hquiet.2 first).2.1
      simp [step, hfirst, hnext] at hacquire
    · exact hquiet.not_busy j hj
  | getting => exact hidle ⟨s, .getting, at_, Or.inr ⟨rfl, hqueued⟩⟩
  | responding job => exact hidle ⟨s, .responding job, at_, Or.inl rfl⟩
  | emitting job result => exact hidle ⟨s, .emitting job result, at_, Or.inl rfl⟩
  | finished => simp [Point.live] at hlive

/-- Only the workers of the list have to be looked at. -/
theorem quiescent_iff {p : Protocol α ρ} {d : BucketDispatcher α ρ} :
    d.Quiescent p ↔ d.activeSources = [] ∧ ∀ i < d.workers.length,
      (d.step p (.start i)).isNone ∧ (d.step p (.acquire i)).isNone ∧ (d.step p (.get i)).isNone := by
  refine ⟨fun h => ⟨h.1, fun i _ => h.2 i⟩, fun h => ⟨h.1, fun i => ?_⟩⟩
  by_cases hi : i < d.workers.length
  · exact h.2 i hi
  · simp [step, List.getElem?_eq_none (Nat.le_of_not_lt hi)]

instance (p : Protocol α ρ) (d : BucketDispatcher α ρ) : Decidable (d.Quiescent p) :=
  decidable_of_iff _ quiescent_iff.symm

/-- One event, answered and emitted, leaves a dispatcher at rest with nothing queued. -/
theorem leaves_nothing_queued_one_event :
    ∃ d, Reachable bySource 1 KeepsServing d ∧ d.Quiescent bySource ∧ d.started.length = 1 ∧
      d.queues "a" = [] := by
  obtain ⟨d, h, hquiet, hstarted⟩ : ∃ d, Reachable bySource 1 KeepsServing d ∧
      d.Quiescent bySource ∧ d.started.length = 1 :=
    ⟨_, .step (a := .emitReturns 0 false)
      (.step (a := .respondReturns 0 (.event "r"))
        (.step (a := .get 0)
          (.step (a := .start 0) (.step (a := .submit "a") .init trivial rfl) trivial rfl)
          trivial rfl) trivial rfl) trivial rfl, by decide, rfl⟩
  exact ⟨d, h, hquiet, hstarted, leaves_nothing_queued bySource 1 d h hquiet "a"⟩

/-- A state found by running a list of actions. -/
theorem exists_reachable {p : Protocol α ρ} {n : ℕ} (actions : List (Action α ρ))
    (good : BucketDispatcher α ρ → Bool) (h : ((new n).run p actions).any good = true) :
    ∃ d, Reachable p n (fun _ _ => True) d ∧ good d = true := by
  obtain ⟨d, hrun, hgood⟩ := (Option.any_eq_true good _).mp h
  exact ⟨d, Reachable.run .init actions hrun, hgood⟩

/-- Without the condition events are left behind: a second event of a source whose first
one raises, and an event of another source when `None` keeps the only slot. -/
theorem events_left_queued :
    (∃ d, Reachable bySource 0 (fun _ _ => True) d ∧ d.Quiescent bySource ∧ d.queues "a" ≠ []) ∧
      ∃ d, Reachable bySource 1 (fun _ _ => True) d ∧ d.Quiescent bySource ∧ d.queues "b" ≠ [] := by
  constructor
  · obtain ⟨d, hreach, hd⟩ := exists_reachable (p := bySource) (n := 0)
      [.submit "a", .submit "a", .start 0, .get 0, .respondReturns 0 .exception]
      (fun d => decide (d.Quiescent bySource) && !(d.queues "a").isEmpty) (by decide)
    simp only [Bool.and_eq_true, decide_eq_true_eq, Bool.not_eq_true', List.isEmpty_eq_false_iff] at hd
    exact ⟨d, hreach, hd⟩
  · obtain ⟨d, hreach, hd⟩ := exists_reachable (p := bySource) (n := 1)
      [.submit "a", .start 0, .submit "b", .start 1, .get 0, .respondReturns 0 .none]
      (fun d => decide (d.Quiescent bySource) && !(d.queues "b").isEmpty) (by decide)
    simp only [Bool.and_eq_true, decide_eq_true_eq, Bool.not_eq_true', List.isEmpty_eq_false_iff] at hd
    exact ⟨d, hreach, hd⟩

end BucketDispatcher

end MyTeam.Dispatch
