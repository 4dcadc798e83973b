import MyTeam.Dispatch.Workers
import Mathlib.Data.List.Nodup

/-!
# Order, exclusion and the slot bound

The invariant of the bucket dispatcher ties the per-source queues to the call histories:
what has been passed to `respond` for a source, followed by what is still queued, is what
was submitted for it. A worker inside `respond` holds the last event started for its
source, so an emitted result always belongs to a later event than the one before it. A
worker past `acquire` holds one of the semaphore's permits.
-/

namespace MyTeam.Dispatch

variable {α ρ : Type*}

/-- The events of one source, in the order of the list. -/
def ofSource (p : Protocol α ρ) (s : String) (jobs : List (Job α)) : List (Job α) :=
  jobs.filter fun job => p.source job.event = s

@[simp] theorem ofSource_append (p : Protocol α ρ) (s : String) (left right : List (Job α)) :
    ofSource p s (left ++ right) = ofSource p s left ++ ofSource p s right :=
  List.filter_append ..

/-- A single event is kept by its own source. -/
theorem ofSource_self {p : Protocol α ρ} {s : String} {job : Job α} (h : p.source job.event = s) :
    ofSource p s [job] = [job] := by
  simp [ofSource, h]

/-- A single event is dropped by every other source. -/
theorem ofSource_other {p : Protocol α ρ} {s : String} {job : Job α} (h : p.source job.event ≠ s) :
    ofSource p s [job] = [] := by
  simp [ofSource, h]

/-- The events of one source that have had a result emitted, in emission order. -/
def emittedOf (p : Protocol α ρ) (s : String) (emitted : List (Job α × ρ)) : List (Job α) :=
  ofSource p s (emitted.map Prod.fst)

namespace BucketDispatcher

/-- The invariant of all reachable states. -/
structure Inv (p : Protocol α ρ) (n : ℕ) (d : BucketDispatcher α ρ) : Prop where
  bound : d.maxConcurrentSources = n
  numbered : d.submitted.map Job.seq = List.range d.submitted.length
  fifo : ∀ s, ofSource p s d.started ++ d.queues s = ofSource p s d.submitted
  exclusive : Exclusive d.workers
  running : ∀ s, d.running s = true ↔ Serves d.workers s
  emitOrder : ∀ s, (emittedOf p s d.emitted).Sublist (ofSource p s d.started)
  respondLast : ∀ (i : ℕ) (s : String) (job : Job α), d.workers[i]? = some ⟨s, .responding job⟩ →
    ∃ earlier, ofSource p s d.started = earlier ++ [job] ∧
      (emittedOf p s d.emitted).Sublist earlier
  permits : 0 < n → d.semaphore.permits + d.workers.countP (·.point.holds) = n

section Fields

variable (d : BucketDispatcher α ρ) (i : ℕ) (s : String) (point : Point α ρ)

@[simp] theorem moveTo_workers : (d.moveTo i s point).workers = d.workers.set i ⟨s, point⟩ := rfl
@[simp] theorem moveTo_queues : (d.moveTo i s point).queues = d.queues := rfl
@[simp] theorem moveTo_started : (d.moveTo i s point).started = d.started := rfl
@[simp] theorem moveTo_emitted : (d.moveTo i s point).emitted = d.emitted := rfl
@[simp] theorem moveTo_running : (d.moveTo i s point).running = d.running := rfl
@[simp] theorem moveTo_semaphore : (d.moveTo i s point).semaphore = d.semaphore := rfl

end Fields

/-- How the slot count changes when worker `i` moves. -/
theorem countP_holds_set {workers : List (Worker α ρ)} {i : ℕ} {s : String}
    {point : Point α ρ} (at_ : workers[i]? = some ⟨s, point⟩) (point' : Point α ρ) :
    (workers.set i ⟨s, point'⟩).countP (·.point.holds) + (if point.holds then 1 else 0) =
      workers.countP (·.point.holds) + (if point'.holds then 1 else 0) := by
  obtain ⟨hi, hget⟩ := List.getElem?_eq_some_iff.mp at_
  rw [List.countP_set hi, hget]
  by_cases hp : point.holds = true
  · have hpos : 0 < workers.countP (·.point.holds) :=
      List.countP_pos_iff.mpr ⟨⟨s, point⟩, List.mem_of_getElem? at_, hp⟩
    simp only [hp, if_true]
    omega
  · simp [hp]

/-- A job has the source of its event. -/
theorem job_source (p : Protocol α ρ) (event : α) (seq : ℕ) :
    p.source (Job.mk seq event).event = p.source event := rfl

/-- A queued event belongs to the source of its queue. -/
theorem Inv.source_of_mem_queue {p : Protocol α ρ} {n : ℕ} {d : BucketDispatcher α ρ}
    (h : Inv p n d) {s : String} {job : Job α} (hmem : job ∈ d.queues s) :
    p.source job.event = s := by
  have hsub : job ∈ ofSource p s d.submitted := by
    rw [← h.fifo s]
    exact List.mem_append_right _ hmem
  simpa [ofSource] using (List.mem_filter.mp hsub).2

/-- An event inside `respond` belongs to the source of its worker. -/
theorem Inv.source_of_responding {p : Protocol α ρ} {n : ℕ} {d : BucketDispatcher α ρ}
    (h : Inv p n d) {i : ℕ} {s : String} {job : Job α}
    (at_ : d.workers[i]? = some ⟨s, .responding job⟩) : p.source job.event = s := by
  obtain ⟨earlier, hstarted, -⟩ := h.respondLast i s job at_
  have hmem : job ∈ ofSource p s d.started := by rw [hstarted]; simp
  simpa [ofSource] using (List.mem_filter.mp hmem).2

/-- The initial state satisfies the invariant. -/
theorem inv_new (p : Protocol α ρ) (n : ℕ) : Inv p n (new n) where
  bound := rfl
  numbered := rfl
  fifo := fun _ => rfl
  exclusive := by intro i j s point point' hi; simp [new] at hi
  running := by intro s; simp [new, Serves]
  emitOrder := fun _ => List.Sublist.refl _
  respondLast := by intro i s job hi; simp [new] at hi
  permits := fun _ => rfl

/-- Queueing an event keeps the invariant. -/
theorem Inv.put {p : Protocol α ρ} {n : ℕ} {d : BucketDispatcher α ρ} (h : Inv p n d)
    (event : α) : Inv p n (d.put p event) := by
  refine { h with numbered := ?_, fifo := ?_ }
  · simp [BucketDispatcher.put, h.numbered, List.range_succ]
  · intro s
    simp only [BucketDispatcher.put, ofSource_append, ← h.fifo]
    by_cases hs : s = p.source event
    · subst hs
      rw [Function.update_self, ofSource_self (job_source p event d.submitted.length),
        List.append_assoc]
    · rw [Function.update_of_ne hs, ofSource_other (Ne.symm hs), List.append_nil]

/-- A submission keeps the invariant. -/
theorem Inv.submit {p : Protocol α ρ} {n : ℕ} {d : BucketDispatcher α ρ} (h : Inv p n d)
    (event : α) : Inv p n (d.submit p event) := by
  unfold BucketDispatcher.submit
  split
  next => exact h.put event
  next hidle =>
    have hserves : ¬ Serves d.workers (p.source event) := fun hserves =>
      hidle ((h.running _).mpr hserves)
    refine { h.put event with exclusive := h.exclusive.append hserves, running := ?_,
                              respondLast := ?_, permits := ?_ }
    · intro s
      rw [serves_append rfl]
      by_cases hs : s = p.source event
      · simp [hs]
      · simp [hs, h.running]
    · intro i s job hi
      rw [List.getElem?_append] at hi
      split at hi
      next => exact h.respondLast i s job hi
      next =>
        have hmem := List.mem_of_getElem? hi
        simp at hmem
    · intro hn
      rw [List.countP_append]
      exact h.permits hn

/-- A worker that moves between points outside `respond`, keeping the slot count right,
keeps the invariant. -/
theorem Inv.moveTo {p : Protocol α ρ} {n : ℕ} {d : BucketDispatcher α ρ} (h : Inv p n d) {i : ℕ}
    {s : String} {point : Point α ρ} (at_ : d.workers[i]? = some ⟨s, point⟩) (point' : Point α ρ)
    (hlive : point.live = true) (hlive' : point'.live = true)
    (hrespond : ∀ job, point' ≠ .responding job) (sem : Option (Async.Semaphore ℕ))
    (hsem : 0 < n → (sem.getD (.new n)).permits + (if point'.holds then 1 else 0) =
      d.semaphore.permits + (if point.holds then 1 else 0)) :
    Inv p n { d.moveTo i s point' with sem := sem } := by
  refine { h with exclusive := h.exclusive.set at_ hlive, running := ?_, respondLast := ?_,
                  permits := ?_ }
  · intro r
    rw [show (_ : BucketDispatcher α ρ).workers = d.workers.set i ⟨s, point'⟩ from rfl,
      serves_set_live at_ hlive hlive']
    exact h.running r
  · intro j r job hj
    change (d.workers.set i ⟨s, point'⟩)[j]? = _ at hj
    rw [getElem?_set_worker at_] at hj
    split at hj
    next => exact absurd (Worker.mk.inj (Option.some.inj hj)).2 (hrespond job)
    next => exact h.respondLast j r job hj
  · intro hn
    change (sem.getD (.new d.maxConcurrentSources)).permits +
      (d.workers.set i ⟨s, point'⟩).countP (·.point.holds) = n
    have hcount := countP_holds_set at_ point'
    have hpermits := h.permits hn
    have hsem := hsem hn
    rw [h.bound]
    omega

/-- Taking the head of the queue into `respond` keeps the invariant. -/
theorem Inv.get {p : Protocol α ρ} {n : ℕ} {d : BucketDispatcher α ρ} (h : Inv p n d) {i : ℕ}
    {s : String} {job : Job α} {rest : List (Job α)}
    (at_ : d.workers[i]? = some ⟨s, .getting⟩) (head : d.queues s = job :: rest) :
    Inv p n { d.moveTo i s (.responding job) with
      queues := Function.update d.queues s rest
      started := d.started ++ [job] } := by
  have hsource : p.source job.event = s := h.source_of_mem_queue (by rw [head]; simp)
  have hother : ∀ r, r ≠ s → ofSource p r [job] = [] := fun r hr =>
    ofSource_other (by rw [hsource]; exact Ne.symm hr)
  refine { h with fifo := ?_, exclusive := h.exclusive.set at_ rfl, running := ?_,
                  emitOrder := ?_, respondLast := ?_, permits := ?_ }
  · intro r
    change ofSource p r (d.started ++ [job]) ++ Function.update d.queues s rest r =
      ofSource p r d.submitted
    rw [ofSource_append, ← h.fifo]
    by_cases hr : r = s
    · subst hr
      rw [Function.update_self, head, ofSource_self hsource, List.append_assoc]
      rfl
    · rw [Function.update_of_ne hr, hother r hr, List.append_nil]
  · intro r
    exact (h.running r).trans (serves_set_live at_ rfl rfl r).symm
  · intro r
    rw [ofSource_append]
    exact (h.emitOrder r).trans (List.sublist_append_left _ _)
  · intro j r job' hj
    change (d.workers.set i ⟨s, .responding job⟩)[j]? = _ at hj
    rw [getElem?_set_worker at_] at hj
    rw [ofSource_append]
    split at hj
    next =>
      obtain ⟨rfl, hpoint⟩ := Worker.mk.inj (Option.some.inj hj)
      obtain rfl := Point.responding.inj hpoint
      exact ⟨_, by rw [ofSource_self hsource], h.emitOrder s⟩
    next hij =>
      have hr : r ≠ s := by
        rintro rfl
        exact hij (h.exclusive i j r _ _ at_ hj rfl rfl)
      rw [hother r hr, List.append_nil]
      exact h.respondLast j r job' hj
  · intro hn
    have hcount := countP_holds_set at_ (.responding job)
    simp only [holds_getting, holds_responding, if_true] at hcount
    have hpermits := h.permits hn
    change d.semaphore.permits + (d.workers.set i ⟨s, .responding job⟩).countP _ = n
    omega

/-- Passing a result to `emit` keeps the invariant. -/
theorem Inv.emit {p : Protocol α ρ} {n : ℕ} {d : BucketDispatcher α ρ} (h : Inv p n d) {i : ℕ}
    {s : String} {job : Job α} (at_ : d.workers[i]? = some ⟨s, .responding job⟩) (result : ρ) :
    Inv p n (d.emit i s job result) := by
  have hsource := h.source_of_responding at_
  have hmoved := h.moveTo at_ (.emitting job result) rfl rfl (by simp) d.sem
    (fun hn => by simp [semaphore, h.bound])
  have hself : emittedOf p s (d.emitted ++ [(job, result)]) = emittedOf p s d.emitted ++ [job] := by
    rw [emittedOf, List.map_append, ofSource_append]
    exact congrArg _ (ofSource_self hsource)
  have hother : ∀ r, r ≠ s →
      emittedOf p r (d.emitted ++ [(job, result)]) = emittedOf p r d.emitted := by
    intro r hr
    rw [emittedOf, List.map_append, ofSource_append]
    have hnil : ofSource p r [job] = [] := ofSource_other (by rw [hsource]; exact Ne.symm hr)
    exact (congrArg _ hnil).trans (List.append_nil _)
  refine { hmoved with emitOrder := ?_, respondLast := ?_ }
  · intro r
    change (emittedOf p r (d.emitted ++ [(job, result)])).Sublist (ofSource p r d.started)
    by_cases hr : r = s
    · subst hr
      obtain ⟨earlier, hstarted, hsub⟩ := h.respondLast i r job at_
      rw [hself, hstarted]
      exact hsub.append (List.Sublist.refl _)
    · rw [hother r hr]
      exact h.emitOrder r
  · intro j r job' hj
    change (d.workers.set i ⟨s, .emitting job result⟩)[j]? = _ at hj
    rw [getElem?_set_worker at_] at hj
    split at hj
    next => exact absurd (Worker.mk.inj (Option.some.inj hj)).2 (by simp)
    next hij =>
      have hr : r ≠ s := by
        rintro rfl
        exact hij (h.exclusive i j r _ _ at_ hj rfl rfl)
      change ∃ earlier, ofSource p r d.started = earlier ++ [job'] ∧
        (emittedOf p r (d.emitted ++ [(job, result)])).Sublist earlier
      rw [hother r hr]
      exact h.respondLast j r job' hj

/-- The end of a task keeps the invariant. -/
theorem Inv.finish {p : Protocol α ρ} {n : ℕ} {d : BucketDispatcher α ρ} (h : Inv p n d) {i : ℕ}
    {s : String} {point : Point α ρ} (at_ : d.workers[i]? = some ⟨s, point⟩)
    (call : point.inCall = true) : Inv p n (d.finish i s) := by
  have hlive := Point.live_of_inCall call
  refine { h with exclusive := h.exclusive.set at_ hlive, running := ?_, respondLast := ?_,
                  permits := ?_ }
  · intro r
    change Function.update d.running s false r = true ↔ Serves (d.workers.set i ⟨s, .finished⟩) r
    rw [serves_set_finished h.exclusive at_ hlive, ← h.running]
    by_cases hr : r = s <;> simp [hr]
  · intro j r job hj
    change (d.workers.set i ⟨s, .finished⟩)[j]? = _ at hj
    rw [getElem?_set_worker at_] at hj
    split at hj
    next => exact absurd (Worker.mk.inj (Option.some.inj hj)).2 (by simp)
    next => exact h.respondLast j r job hj
  · intro hn
    have hcount := countP_holds_set at_ .finished
    rw [Point.holds_of_inCall call] at hcount
    have hpermits := h.permits hn
    have hsem : (d.finish i s).semaphore = d.semaphore.release := by
      simp [BucketDispatcher.finish, semaphore, h.bound, hn]
    rw [hsem]
    change d.semaphore.permits + 1 + (d.workers.set i ⟨s, .finished⟩).countP (·.point.holds) = n
    simp only [holds_finished, if_true, Bool.false_eq_true, if_false] at hcount
    omega

/-- Every move keeps the invariant. -/
theorem Inv.move {p : Protocol α ρ} {n : ℕ} {d d' : BucketDispatcher α ρ} {a : Action α ρ}
    (h : Inv p n d) (hmove : Move p d a d') : Inv p n d' := by
  cases hmove with
  | submit event => exact h.submit event
  | begin at_ unbounded =>
    refine h.moveTo at_ _ rfl rfl (by simp) d.sem fun hn => ?_
    exact absurd (h.bound ▸ unbounded) (Nat.ne_of_gt hn)
  | enter at_ bounded free =>
    refine h.moveTo at_ _ rfl rfl (by simp) _ fun hn => ?_
    have hpos := Async.Semaphore.permits_pos_of_free free
    simp [Async.Semaphore.take]
    omega
  | block at_ bounded full =>
    exact h.moveTo at_ _ rfl rfl (by simp) _ fun hn => rfl
  | grant at_ next =>
    refine h.moveTo at_ _ rfl rfl (by simp) _ fun hn => ?_
    obtain ⟨hpos, -⟩ := Async.Semaphore.next_eq_some.mp next
    simp [Async.Semaphore.grant]
    omega
  | get at_ head => exact h.get at_ head
  | emit at_ => exact h.emit at_ _
  | again at_ call cause =>
    refine h.moveTo at_ _ (Point.live_of_inCall call) rfl (by simp) d.sem fun hn => ?_
    rw [Point.holds_of_inCall call, semaphore, h.bound]
    rfl
  | finish at_ call cause => exact h.finish at_ call

/-- The invariant holds in every reachable state, whatever the runs are restricted to. -/
theorem Reachable.inv {p : Protocol α ρ} {n : ℕ} {ok : BucketDispatcher α ρ → Action α ρ → Prop}
    {d : BucketDispatcher α ρ} (h : Reachable p n ok d) : Inv p n d := by
  induction h with
  | init => exact inv_new p n
  | step _ _ hstep ih => exact ih.move (move_of_step hstep)

/-- The sources with a `respond` or `emit` call outstanding, once for each such call. -/
def activeSources (d : BucketDispatcher α ρ) : List String :=
  (d.workers.filter (·.point.inCall)).map Worker.source

/-- What has been started for a source is the first part of what was submitted for it. -/
theorem Inv.started_prefix {p : Protocol α ρ} {n : ℕ} {d : BucketDispatcher α ρ}
    (h : Inv p n d) (s : String) : ofSource p s d.started <+: ofSource p s d.submitted :=
  ⟨d.queues s, h.fifo s⟩

/-- Submission numbers increase along the submissions. -/
theorem Inv.submitted_increasing {p : Protocol α ρ} {n : ℕ} {d : BucketDispatcher α ρ}
    (h : Inv p n d) : d.submitted.Pairwise (fun a b => a.seq < b.seq) := by
  rw [← List.pairwise_map (R := (· < ·)), h.numbered]
  exact List.pairwise_lt_range

/-- Submission numbers increase along the events started for one source. -/
theorem Inv.started_increasing {p : Protocol α ρ} {n : ℕ} {d : BucketDispatcher α ρ}
    (h : Inv p n d) (s : String) :
    (ofSource p s d.started).Pairwise (fun a b => a.seq < b.seq) :=
  (h.submitted_increasing.sublist List.filter_sublist).sublist (h.started_prefix s).sublist

/-- A started event was submitted. -/
theorem Inv.mem_submitted {p : Protocol α ρ} {n : ℕ} {d : BucketDispatcher α ρ} (h : Inv p n d)
    {job : Job α} (hjob : job ∈ d.started) : job ∈ d.submitted := by
  have hown : job ∈ ofSource p (p.source job.event) d.started :=
    List.mem_filter.mpr ⟨hjob, by simp⟩
  exact (List.mem_filter.mp ((h.started_prefix _).subset hown)).1

/-- No submission is passed to `respond` twice. -/
theorem Inv.started_nodup {p : Protocol α ρ} {n : ℕ} {d : BucketDispatcher α ρ}
    (h : Inv p n d) : (d.started.map Job.seq).Nodup := by
  have hdistinct : (d.submitted.map Job.seq).Nodup := by
    rw [h.numbered]
    exact List.nodup_range
  rw [List.nodup_iff_count_le_one]
  intro q
  by_cases hq : q ∈ d.started.map Job.seq
  · obtain ⟨job, hjob, rfl⟩ := List.mem_map.mp hq
    -- All started events with this number are the same submission, hence of one source.
    have hsame : ∀ other ∈ d.started, other.seq = job.seq → p.source other.event = p.source job.event := by
      intro other hother hseq
      rw [List.inj_on_of_nodup_map hdistinct (h.mem_submitted hother) (h.mem_submitted hjob) hseq]
    have hcount : (d.started.map Job.seq).count job.seq =
        ((ofSource p (p.source job.event) d.started).map Job.seq).count job.seq := by
      simp only [List.count_eq_countP, List.countP_map, ofSource, List.countP_filter]
      apply List.countP_congr
      intro other hother
      simp only [Function.comp_apply, beq_iff_eq, Bool.and_eq_true, decide_eq_true_eq]
      exact ⟨fun hseq => ⟨hseq, hsame other hother hseq⟩, And.left⟩
    have hsource : ((ofSource p (p.source job.event) d.started).map Job.seq).Nodup :=
      List.pairwise_map.mpr ((h.started_increasing _).imp Nat.ne_of_lt)
    rw [hcount]
    exact List.nodup_iff_count_le_one.mp hsource _
  · rw [List.count_eq_zero_of_not_mem hq]
    exact Nat.zero_le 1

/-- No two outstanding calls belong to one source. -/
theorem Inv.activeSources_nodup {p : Protocol α ρ} {n : ℕ} {d : BucketDispatcher α ρ}
    (h : Inv p n d) : d.activeSources.Nodup := by
  have hpair : d.workers.Pairwise fun w w' =>
      w.point.inCall = true → w'.point.inCall = true → w.source ≠ w'.source := by
    rw [List.pairwise_iff_getElem]
    intro i j hi hj hij hcall hcall' hsource
    have hgeti : d.workers[i]? = some ⟨d.workers[i].source, d.workers[i].point⟩ :=
      List.getElem?_eq_getElem hi
    have hgetj : d.workers[j]? = some ⟨d.workers[i].source, d.workers[j].point⟩ := by
      rw [hsource]
      exact List.getElem?_eq_getElem hj
    have := h.exclusive i j _ _ _ hgeti hgetj (Point.live_of_inCall hcall)
      (Point.live_of_inCall hcall')
    omega
  rw [activeSources, List.Nodup, List.pairwise_map, List.pairwise_filter]
  exact hpair.imp fun hne hcall hcall' => hne hcall hcall'

/-- With a bound on concurrent sources, at most that many calls are outstanding. -/
theorem Inv.activeSources_length {p : Protocol α ρ} {n : ℕ} {d : BucketDispatcher α ρ}
    (h : Inv p n d) (hn : 0 < n) : d.activeSources.length ≤ n := by
  have hle : d.activeSources.length ≤ d.workers.countP (·.point.holds) := by
    rw [activeSources, List.length_map, ← List.countP_eq_length_filter]
    exact List.countP_mono_left fun w _ hcall => Point.holds_of_inCall hcall
  have hpermits := h.permits hn
  omega

/-- In every run, for every bound and whatever each `respond` and `emit` call does: no
submitted event is passed to `respond` twice; each source is served in submission order
with nothing skipped and no two calls at once; its results are emitted in the order of the
events that caused them; and with a bound, at most that many sources are inside a call. -/
theorem serves_in_order (p : Protocol α ρ) (n : ℕ) (d : BucketDispatcher α ρ)
    (h : Reachable p n (fun _ _ => True) d) :
    (d.started.map Job.seq).Nodup ∧
      (∀ s, ofSource p s d.started <+: ofSource p s d.submitted) ∧
      d.activeSources.Nodup ∧
      (∀ s, (emittedOf p s d.emitted).Sublist (ofSource p s d.started) ∧
        (emittedOf p s d.emitted).Pairwise (fun a b => a.seq < b.seq)) ∧
      (0 < n → d.activeSources.length ≤ n) :=
  ⟨h.inv.started_nodup, h.inv.started_prefix, h.inv.activeSources_nodup,
    fun s => ⟨h.inv.emitOrder s, (h.inv.started_increasing s).sublist (h.inv.emitOrder s)⟩,
    h.inv.activeSources_length⟩

/-- Events that are just their source and ask for no receipt. -/
def bySource : Protocol String String := ⟨id, fun _ => none⟩

/-- Two events of one source and one of another with a single slot: the second source waits
for its slot while the first is answered twice. -/
theorem serves_in_order_two_sources :
    ∃ d, (new 1).run bySource [.submit "a", .submit "a", .start 0, .submit "b", .start 1, .get 0,
        .respondReturns 0 (.event "first"), .emitReturns 0 false, .get 0,
        .respondReturns 0 (.event "second")] = some d ∧
      (d.started.map Job.seq).Nodup ∧
      (∀ s, ofSource bySource s d.started <+: ofSource bySource s d.submitted) ∧
      d.activeSources.Nodup ∧
      (∀ s, (emittedOf bySource s d.emitted).Sublist (ofSource bySource s d.started) ∧
        (emittedOf bySource s d.emitted).Pairwise (fun a b => a.seq < b.seq)) ∧
      (0 < 1 → d.activeSources.length ≤ 1) := by
  obtain ⟨d, hrun⟩ := Option.isSome_iff_exists.mp (rfl : ((new 1).run bySource [.submit "a",
    .submit "a", .start 0, .submit "b", .start 1, .get 0, .respondReturns 0 (.event "first"),
    .emitReturns 0 false, .get 0, .respondReturns 0 (.event "second")]).isSome = true)
  exact ⟨d, hrun, serves_in_order bySource 1 d (Reachable.run .init _ hrun)⟩

end BucketDispatcher

end MyTeam.Dispatch
