import MyTeam.Async.Semaphore

/-!
# The bucket dispatcher

`BucketDispatcher` keeps one queue per event source and one worker task per source that
has work. `submit` runs to completion; a worker gives up control at its `await`s only, so
its code is cut there: waiting for a semaphore slot, waiting at the queue, inside
`respond`, inside `emit`. Between two such points it runs undisturbed.

The event loop may interleave submissions, worker segments and returns of `respond` and
`emit` in any order; `respond` may return an event, the `VOID` marker or `None`, or raise,
and `emit` may raise. `submitted`, `started` and `emitted` are the histories of the three
calls and are read by no step.
-/

namespace MyTeam.Dispatch

open MyTeam.Async

/-- How one call of `respond` ends. -/
inductive Reply (ρ : Type*) where
  | event (result : ρ)
  | void
  | none
  | exception

/-- What a reply makes the worker emit: the event, or the receipt that was asked for. -/
def Reply.emits {α ρ : Type*} (receipt : α → Option ρ) (event : α) : Reply ρ → Option ρ
  | .event result => some result
  | .void => receipt event
  | .none | .exception => Option.none

/-- A submitted event with its position in the submission history. -/
structure Job (α : Type*) where
  seq : ℕ
  event : α

/-- Where a worker task gave up control. -/
inductive Point (α ρ : Type*) where
  | created
  | acquiring
  | getting
  | responding (job : Job α)
  | emitting (job : Job α) (result : ρ)
  | finished

/-- A worker task serves one source for its whole life. -/
structure Worker (α ρ : Type*) where
  source : String
  point : Point α ρ

/-- What the dispatcher reads of an event: its source, and the receipt it asks for. -/
structure Protocol (α ρ : Type*) where
  source : α → String
  receipt : α → Option ρ

/-- The dispatcher's fields and its worker tasks, with the histories of the calls it makes. -/
structure BucketDispatcher (α ρ : Type*) where
  maxConcurrentSources : ℕ
  queues : String → List (Job α)
  running : String → Bool
  sem : Option (Semaphore ℕ)
  workers : List (Worker α ρ)
  submitted : List (Job α)
  started : List (Job α)
  emitted : List (Job α × ρ)

variable {α ρ : Type*}

/-- The worker is inside a `respond` or `emit` call. -/
def Point.inCall : Point α ρ → Bool
  | .responding _ | .emitting _ _ => true
  | _ => false

/-- The worker is past `acquire` and has not released its slot. -/
def Point.holds : Point α ρ → Bool
  | .getting | .responding _ | .emitting _ _ => true
  | _ => false

/-- The task has not returned. -/
def Point.live : Point α ρ → Bool
  | .finished => false
  | _ => true

section Points

variable (job : Job α) (result : ρ)

@[simp] theorem holds_created : (Point.created : Point α ρ).holds = false := rfl
@[simp] theorem holds_acquiring : (Point.acquiring : Point α ρ).holds = false := rfl
@[simp] theorem holds_getting : (Point.getting : Point α ρ).holds = true := rfl
@[simp] theorem holds_responding : (Point.responding job : Point α ρ).holds = true := rfl
@[simp] theorem holds_emitting : (Point.emitting job result).holds = true := rfl
@[simp] theorem holds_finished : (Point.finished : Point α ρ).holds = false := rfl

end Points

namespace BucketDispatcher

/-- `__init__`: nothing queued, no task, and the semaphore not created yet. -/
def new (maxConcurrentSources : ℕ) : BucketDispatcher α ρ where
  maxConcurrentSources
  queues := fun _ => []
  running := fun _ => false
  sem := none
  workers := []
  submitted := []
  started := []
  emitted := []

/-- `_semaphore`: created on first use. -/
def semaphore (d : BucketDispatcher α ρ) : Semaphore ℕ :=
  d.sem.getD (.new d.maxConcurrentSources)

/-- Put an event at the end of its source's queue. -/
def put (p : Protocol α ρ) (d : BucketDispatcher α ρ) (event : α) : BucketDispatcher α ρ :=
  let job : Job α := ⟨d.submitted.length, event⟩
  { d with
    queues := Function.update d.queues (p.source event) (d.queues (p.source event) ++ [job])
    submitted := d.submitted ++ [job] }

/-- `submit`: queue the event, and start a worker for a source that has none. -/
def submit (p : Protocol α ρ) (d : BucketDispatcher α ρ) (event : α) : BucketDispatcher α ρ :=
  if d.running (p.source event) then d.put p event
  else { d.put p event with
    running := Function.update d.running (p.source event) true
    workers := d.workers ++ [⟨p.source event, .created⟩] }

/-- Move worker `i` to another point of its code. -/
def moveTo (d : BucketDispatcher α ρ) (i : ℕ) (source : String) (point : Point α ρ) :
    BucketDispatcher α ρ :=
  { d with workers := d.workers.set i ⟨source, point⟩ }

/-- The `finally` block: the source is no longer running, and its slot is given back. -/
def finish (d : BucketDispatcher α ρ) (i : ℕ) (source : String) : BucketDispatcher α ρ :=
  { d.moveTo i source .finished with
    running := Function.update d.running source false
    sem := if 0 < d.maxConcurrentSources then some d.semaphore.release else d.sem }

/-- The end of the loop body: `return` on an empty queue, else the next round. -/
def endRound (d : BucketDispatcher α ρ) (i : ℕ) (source : String) : BucketDispatcher α ρ :=
  if (d.queues source).isEmpty then d.finish i source else d.moveTo i source .getting

/-- The first segment of a task, up to the queue or to a full semaphore. -/
def start (d : BucketDispatcher α ρ) (i : ℕ) (source : String) : BucketDispatcher α ρ :=
  if 0 < d.maxConcurrentSources then
    if d.semaphore.free then { d.moveTo i source .getting with sem := some d.semaphore.take }
    else { d.moveTo i source .acquiring with sem := some (d.semaphore.enqueue i) }
  else d.moveTo i source .getting

/-- Call `emit` with a result. -/
def emit (d : BucketDispatcher α ρ) (i : ℕ) (source : String) (job : Job α) (result : ρ) :
    BucketDispatcher α ρ :=
  { d.moveTo i source (.emitting job result) with emitted := d.emitted ++ [(job, result)] }

/-- The segment after `respond`: `None` goes back to the queue at once, a result or a
requested receipt is emitted, silence ends the round, and an exception ends the task. -/
def respondReturns (p : Protocol α ρ) (d : BucketDispatcher α ρ) (i : ℕ) (source : String)
    (job : Job α) : Reply ρ → BucketDispatcher α ρ
  | .none => d.moveTo i source .getting
  | .event result => d.emit i source job result
  | .void =>
    match p.receipt job.event with
    | some receipt => d.emit i source job receipt
    | none => d.endRound i source
  | .exception => d.finish i source

/-- What can happen next: a submission, or a segment of worker `i`. -/
inductive Action (α ρ : Type*) where
  | submit (event : α)
  | start (i : ℕ)
  | acquire (i : ℕ)
  | get (i : ℕ)
  | respondReturns (i : ℕ) (reply : Reply ρ)
  | emitReturns (i : ℕ) (raises : Bool)

/-- Perform an action, if the worker it names is at the point it belongs to. -/
def step (p : Protocol α ρ) (d : BucketDispatcher α ρ) : Action α ρ → Option (BucketDispatcher α ρ)
  | .submit event => some (d.submit p event)
  | .start i =>
    match d.workers[i]? with
    | some ⟨source, .created⟩ => some (d.start i source)
    | _ => none
  | .acquire i =>
    match d.workers[i]? with
    | some ⟨source, .acquiring⟩ =>
      if d.semaphore.next = some i then
        some { d.moveTo i source .getting with sem := some d.semaphore.grant }
      else none
    | _ => none
  | .get i =>
    match d.workers[i]? with
    | some ⟨source, .getting⟩ =>
      match d.queues source with
      | [] => none
      | job :: rest => some { d.moveTo i source (.responding job) with
          queues := Function.update d.queues source rest
          started := d.started ++ [job] }
    | _ => none
  | .respondReturns i reply =>
    match d.workers[i]? with
    | some ⟨source, .responding job⟩ => some (d.respondReturns p i source job reply)
    | _ => none
  | .emitReturns i raises =>
    match d.workers[i]? with
    | some ⟨source, .emitting _ _⟩ =>
      some (if raises then d.finish i source else d.endRound i source)
    | _ => none

/-- The states of all runs whose steps satisfy `ok`; with no restriction, all runs. -/
inductive Reachable (p : Protocol α ρ) (n : ℕ)
    (ok : BucketDispatcher α ρ → Action α ρ → Prop) : BucketDispatcher α ρ → Prop where
  | init : Reachable p n ok (.new n)
  | step {d d' : BucketDispatcher α ρ} {a : Action α ρ} :
      Reachable p n ok d → ok d a → d.step p a = some d' → Reachable p n ok d'

/-- Perform a list of actions. -/
def run (p : Protocol α ρ) (d : BucketDispatcher α ρ) :
    List (Action α ρ) → Option (BucketDispatcher α ρ)
  | [] => some d
  | a :: rest => (d.step p a).bind fun d => d.run p rest

/-- A run that performs all its actions stays within the reachable states. -/
theorem Reachable.run {p : Protocol α ρ} {n : ℕ} {d d' : BucketDispatcher α ρ}
    (h : Reachable p n (fun _ _ => True) d) (actions : List (Action α ρ))
    (hrun : d.run p actions = some d') : Reachable p n (fun _ _ => True) d' := by
  induction actions generalizing d with
  | nil =>
    obtain rfl : d = d' := by simpa [BucketDispatcher.run] using hrun
    exact h
  | cons a rest ih =>
    obtain ⟨next, hstep, hrest⟩ := Option.bind_eq_some_iff.mp hrun
    exact ih (h.step trivial hstep) hrest

end BucketDispatcher

end MyTeam.Dispatch
