import MyTeam.Py.Value

/-!
# The task tree

The tasks of the agents, each with the task it was derived from. A task moves through its
statuses along a table of transitions; an update may walk through several of them to reach the
status it names.
-/

namespace MyTeam.Legacy

open MyTeam.Py

/-- The statuses of a task. -/
inductive TaskStatus
  | draft
  | assigned
  | accepted
  | inProgress
  | blocked
  | waitingForChildren
  | submitted
  | reviewing
  | completed
  | failed
  | cancelled
  | expired
deriving DecidableEq, Repr

namespace TaskStatus

/-- The value of a status. -/
def value : TaskStatus → String
  | draft => "draft"
  | assigned => "assigned"
  | accepted => "accepted"
  | inProgress => "in_progress"
  | blocked => "blocked"
  | waitingForChildren => "waiting_for_children"
  | submitted => "submitted"
  | reviewing => "reviewing"
  | completed => "completed"
  | failed => "failed"
  | cancelled => "cancelled"
  | expired => "expired"

/-- All statuses. -/
def all : List TaskStatus :=
  [draft, assigned, accepted, inProgress, blocked, waitingForChildren, submitted, reviewing, completed, failed,
    cancelled, expired]

/-- `TaskStatus(value)`; `none` is a `ValueError`. -/
def ofValue (v : Value) : Option TaskStatus :=
  all.find? fun status => v.isStr status.value

/-- `TASK_TRANSITIONS`. -/
def transitions : TaskStatus → List TaskStatus
  | draft => [assigned, cancelled]
  | assigned => [accepted, failed, cancelled, expired]
  | accepted => [inProgress, failed, cancelled, expired]
  | inProgress => [submitted, blocked, waitingForChildren, failed, cancelled, expired]
  | blocked => [inProgress, failed, cancelled, expired]
  | waitingForChildren => [inProgress, submitted, failed, cancelled, expired]
  | submitted => [reviewing, completed, failed]
  | reviewing => [completed, failed, inProgress]
  | completed | failed | cancelled | expired => []

/-- `is_terminal`. -/
def terminal (status : TaskStatus) : Bool :=
  status ∈ [completed, failed, cancelled, expired]

/-- The search of `update_status` for a way from the statuses in the queue to `target`; every status is queued at
most once, so `fuel` is their number. -/
def walk (target : TaskStatus) : ℕ → List TaskStatus → List (TaskStatus × List TaskStatus) → Option (List TaskStatus)
  | 0, _, _ => none
  | _, _, [] => none
  | fuel + 1, visited, (current, path) :: queue =>
    let fresh := current.transitions.filter fun next => next ∉ visited
    if target ∈ fresh then some (path ++ [target])
    else walk target fuel (visited ++ fresh) (queue ++ fresh.map fun next => (next, path ++ [next]))

/-- The way from a status to another: one transition where that is allowed, else the walk. -/
def way (status target : TaskStatus) : Option (List TaskStatus) :=
  if target ∈ status.transitions then some [target] else walk target all.length [status] [(status, [])]

end TaskStatus

/-- The priorities of a task. -/
inductive TaskPriority
  | low
  | normal
  | high
  | urgent
deriving DecidableEq, Repr

/-- `TaskPriority(value)`, where a wrong value stands for `NORMAL`. -/
def TaskPriority.ofValue (v : Value) : TaskPriority :=
  if v.isStr "low" then low
  else if v.isStr "high" then high
  else if v.isStr "urgent" then urgent
  else normal

/-- A task, by the fields that a commit sets. -/
structure Task where
  taskId : String
  title : String
  description : String
  assignerAgentId : String
  assigneeAgentId : String
  derivedFrom : Option String
  status : TaskStatus
  priority : TaskPriority
  deadline : Value
  createdAtTick : ℕ
  updatedAtTick : ℕ
  completedAtTick : Option ℕ := none
  metadata : List (String × Value) := []

namespace Task

/-- `transition_to` along a way. -/
def follow (task : Task) (tick : ℕ) (way : List TaskStatus) : Task :=
  way.foldl (fun task target => { task with
    status := target
    updatedAtTick := tick
    completedAtTick := if target = .completed then some tick else task.completedAtTick }) task

/-- `update_status(…, allow_walk=True)`; `none` is an `InvalidTransitionError`. -/
def updateStatus (task : Task) (target : TaskStatus) (tick : ℕ) : Option Task :=
  (task.status.way target).map (task.follow tick)

/-- `task.metadata[key] = x`, for a value that counts. -/
def note (task : Task) (key : String) (x : Value) : Task :=
  if x.truthy then { task with metadata := assign key x task.metadata } else task

end Task

/-- `TaskTree`: the tasks and the maps beside them. -/
structure TaskTree where
  tasks : String → Option Task := fun _ => none
  parentMap : String → Option (Option String) := fun _ => none
  childrenMap : String → Option (List String) := fun _ => none
  assigneeMap : String → Option (List String) := fun _ => none

namespace TaskTree

variable (tree : TaskTree)

/-- Appends to a list of a map, which is made if it is missing. -/
def append (map : String → Option (List String)) (key entry : String) : String → Option (List String) :=
  Function.update map key (some ((map key).getD [] ++ [entry]))

/-- `create`, for a task that passed its checks. -/
def create (task : Task) : TaskTree where
  tasks := Function.update tree.tasks task.taskId (some task)
  parentMap := Function.update tree.parentMap task.taskId (some task.derivedFrom)
  childrenMap := match task.derivedFrom with
    | none => tree.childrenMap
    | some parent => append tree.childrenMap parent task.taskId
  assigneeMap := append tree.assigneeMap task.assigneeAgentId task.taskId

/-- Stores a task. -/
def put (task : Task) (id : String) : TaskTree :=
  { tree with tasks := Function.update tree.tasks id (some task) }

/-- The inverse of a creation, in `_invert_one`. -/
def discard (id : String) : TaskTree :=
  let children := Function.update tree.childrenMap id none
  { tasks := Function.update tree.tasks id none
    parentMap := Function.update tree.parentMap id none
    childrenMap := match tree.parentMap id with
      | some (some parent) => Function.update children parent ((children parent).map fun siblings => siblings.erase id)
      | _ => children
    assigneeMap := fun owner => (tree.assigneeMap owner).map fun ids => ids.erase id }

end TaskTree

end MyTeam.Legacy
