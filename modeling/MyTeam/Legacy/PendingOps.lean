import MyTeam.Py.Value
import Mathlib.Data.List.Nodup

/-!
# The registry of pending operations

`PendingOperationRegistry` maps the ids of operations to their records. Its callers hold on to
the records after they have left the registry, so the records are kept apart, by their ids, and
the registry is the list of the ids it holds, in the order of submission. The ids of new
operations are drawn at random and are taken never to repeat: they are numbered.
-/

namespace MyTeam.Legacy

open MyTeam.Py

/-- `OpStatus`. -/
inductive OpStatus
  | submitted
  | pending
  | completed
  | failed
  | cancelled
  | timedOut
deriving DecidableEq, Repr

/-- The statuses of an operation in flight. -/
def OpStatus.InFlight (status : OpStatus) : Prop :=
  status = .submitted ∨ status = .pending

instance : DecidablePred OpStatus.InFlight := fun _ => inferInstanceAs (Decidable (_ ∨ _))

/-- The statuses in which a late result is ignored. -/
def OpStatus.Dead (status : OpStatus) : Prop :=
  status = .cancelled ∨ status = .timedOut ∨ status = .failed

instance : DecidablePred OpStatus.Dead := fun _ => inferInstanceAs (Decidable (_ ∨ _))

/-- The types of operation the tick submits, of `OpType`. -/
inductive OpType
  | llmRequest
  | toolRequest
deriving DecidableEq, Repr

/-- `PendingOperation`, with the parts of its metadata that the tick reads. -/
structure PendingOperation where
  opType : OpType
  agentId : String
  taskId : String
  createdTick : ℕ
  eligibleTick : ℕ
  deadlineTick : Option ℕ
  status : OpStatus := .submitted
  result : List (String × Value) := []
  error : String := ""
  stateEpoch : ℕ
  /-- `metadata["request_id"]`, the id the agent chose. -/
  chosenId : String
  /-- `metadata["tool_name"]`. -/
  toolName : String := ""
  /-- `metadata["external_tool"]`. -/
  externalTool : Bool := false

/-- `PendingOperationRegistry`: the records by id, the ids it holds, and the next id. -/
structure PendingOperationRegistry where
  op : ℕ → PendingOperation
  operations : List ℕ := []
  nextId : ℕ := 0
  /-- `_seen_requests`: who submitted an id the agents chose. -/
  seenRequests : String → Option String := fun _ => none

namespace PendingOperationRegistry

variable (r : PendingOperationRegistry) (id : ℕ)

/-- Changes a record. -/
def edit (f : PendingOperation → PendingOperation) : PendingOperationRegistry :=
  { r with op := Function.update r.op id (f (r.op id)) }

/-- `submit`: the new operation's id is `r.nextId`. -/
def submit (op : PendingOperation) : PendingOperationRegistry where
  op := Function.update r.op r.nextId op
  operations := r.operations ++ [r.nextId]
  nextId := r.nextId + 1
  seenRequests := if op.chosenId = "" then r.seenRequests
    else Function.update r.seenRequests op.chosenId (some op.agentId)

/-- `complete`, and `complete_tool` with a result for this operation. -/
def complete (result : List (String × Value)) : PendingOperationRegistry :=
  if id ∈ r.operations ∧ ¬(r.op id).status.Dead then
    r.edit id fun op => { op with status := .completed, result := result }
  else r

/-- `fail`. -/
def fail (error : String) : PendingOperationRegistry :=
  if id ∈ r.operations then r.edit id fun op => { op with status := .failed, error := error } else r

/-- `cancel`; `none` where the operation cannot be cancelled. -/
def cancel : Option PendingOperationRegistry :=
  if id ∈ r.operations ∧ (r.op id).status.InFlight then
    some (r.edit id fun op => { op with status := .cancelled })
  else none

/-- An executor claims a submitted operation, as `_phase_dispatch` does. -/
def claim : PendingOperationRegistry :=
  if id ∈ r.operations ∧ (r.op id).status = .submitted then
    r.edit id fun op => { op with status := .pending }
  else r

/-- The operations whose deadline `timeout_expired` finds to have passed. -/
def expired (tick : ℕ) : List ℕ :=
  r.operations.filter fun id => decide (r.op id).status.InFlight && (r.op id).deadlineTick.any (· < tick)

/-- The registry after `timeout_expired`. -/
def timeOut (tick : ℕ) : PendingOperationRegistry :=
  { r with op := fun id => if id ∈ r.expired tick then { r.op id with status := .timedOut } else r.op id }

/-- The operations that have failed. -/
def failed : List ℕ :=
  r.operations.filter fun id => decide ((r.op id).status = .failed)

/-- `collect_completed`. -/
def collectCompleted (tick : ℕ) : List ℕ :=
  r.operations.filter fun id => decide ((r.op id).status = .completed) && decide ((r.op id).eligibleTick ≤ tick)

/-- `count_in_flight` of an agent's operations of a type. -/
def countInFlight (agentId : String) (opType : OpType) : ℕ :=
  r.operations.countP fun id =>
    decide ((r.op id).agentId = agentId) && decide (r.op id).status.InFlight && decide ((r.op id).opType = opType)

/-- `remove`. -/
def remove : PendingOperationRegistry :=
  { r with operations := r.operations.erase id }

/-- `remove_for_rollback`. -/
def removeForRollback : PendingOperationRegistry :=
  if id ∈ r.operations then
    { r with
      operations := r.operations.erase id
      seenRequests := if (r.op id).chosenId = "" then r.seenRequests
        else Function.update r.seenRequests (r.op id).chosenId none }
  else r

end PendingOperationRegistry

end MyTeam.Legacy
