import MyTeam.Py.Value

/-!
# The agents of the tick kernel

An agent has a lifecycle state, moved along a table of allowed transitions, and a continuation:
where it left off in its cycle of deciding and waiting for results. `AgentRuntimeState` pairs the
two; the tick moves them at different places, so they can disagree.
-/

namespace MyTeam.Legacy

open MyTeam.Py

/-- `AgentState`. -/
inductive AgentState
  | created
  | initialized
  | ready
  | idle
  | processing
  | waiting
  | waitingForLlm
  | waitingForTool
  | waitingForChild
  | waitingForMail
  | waitingForLock
  | waitingForHuman
  | waitingForExternal
  | blocked
  | paused
  | failed
  | terminated
deriving DecidableEq, Repr

namespace AgentState

/-- `AgentState(value)`: the state a text names. -/
def ofValue : String → Option AgentState
  | "created" => some created
  | "initialized" => some initialized
  | "ready" => some ready
  | "idle" => some idle
  | "processing" => some processing
  | "waiting" => some waiting
  | "waiting_for_llm" => some waitingForLlm
  | "waiting_for_tool" => some waitingForTool
  | "waiting_for_child" => some waitingForChild
  | "waiting_for_mail" => some waitingForMail
  | "waiting_for_lock" => some waitingForLock
  | "waiting_for_human" => some waitingForHuman
  | "waiting_for_external" => some waitingForExternal
  | "blocked" => some blocked
  | "paused" => some paused
  | "failed" => some failed
  | "terminated" => some terminated
  | _ => none

/-- `TRANSITION_TABLE`. -/
def transitionTable : AgentState → List AgentState
  | created => [initialized]
  | initialized => [ready]
  | ready => [idle, processing, terminated]
  | idle => [ready, processing, paused, failed, terminated]
  | processing => [waiting, waitingForLlm, waitingForTool, waitingForChild, waitingForMail, waitingForLock,
      waitingForHuman, waitingForExternal, blocked, idle, failed, paused]
  | waiting | waitingForLlm | waitingForTool | waitingForChild | waitingForMail | waitingForLock
  | waitingForHuman | waitingForExternal => [processing, blocked, failed, paused]
  | blocked => [idle, processing, failed, terminated]
  | paused => [idle, processing, ready, waiting, waitingForLlm, waitingForTool, waitingForChild, waitingForMail,
      waitingForLock, waitingForHuman, waitingForExternal, blocked, failed, terminated]
  | failed => [idle, terminated, processing]
  | terminated => []

/-- `AgentStateMachine.transition`: `none` is `InvalidTransitionError`. -/
def transition (state target : AgentState) : Option AgentState :=
  if target ∈ state.transitionTable then some target else none

/-- `AgentRuntimeState.begin_activation`: its transitions are all in the table. -/
def beginActivation : AgentState → AgentState
  | idle | ready => processing
  | waitingForLlm | waitingForTool | waitingForChild | waitingForMail | waitingForLock | waitingForHuman => processing
  | state => state

/-- `AgentRuntimeState.complete_activation`. -/
def completeActivation : AgentState → AgentState
  | processing => idle
  | state => state

/-- `AgentRuntimeState.transition_to_waiting`. -/
def transitionToWaiting (state target : AgentState) : Option AgentState :=
  if state = processing then state.transition target else some state

/-- The states `compute_ready_set` passes over. -/
def unschedulable : List AgentState :=
  [paused, failed, terminated, created, initialized]

end AgentState

/-- `ContinuationPhase`. -/
inductive ContinuationPhase
  | fresh
  | waitingForLlm
  | waitingForTool
  | waitingForChild
  | waitingForMail
  | waitingForHuman
  | waitingForExternal
  | processingResult
  | readyToDecide
  | consolidating
  | completed
  | failed
deriving DecidableEq, Repr

/-- The phases in which an agent awaits the result of an operation. -/
def ContinuationPhase.Awaiting (phase : ContinuationPhase) : Prop :=
  phase = .waitingForLlm ∨ phase = .waitingForTool ∨ phase = .waitingForExternal

instance : DecidablePred ContinuationPhase.Awaiting := fun _ => inferInstanceAs (Decidable (_ ∨ _))

/-- The kinds of request a continuation can wait for, `pending_request_type`. -/
inductive RequestType
  | llm
  | tool
  | external
deriving DecidableEq, Repr

/-- `AgentContinuation`. Request ids are numbered; `none` is the empty id. -/
structure AgentContinuation where
  phase : ContinuationPhase := .fresh
  resumePhase : Option ContinuationPhase := none
  pendingRequestId : Option ℕ := none
  pendingRequestType : Option RequestType := none
  lastLlmResult : List (String × Value) := []
  lastToolResult : List (String × Value) := []

namespace AgentContinuation

variable (c : AgentContinuation)

/-- `advance_to_waiting_llm`. -/
def advanceToWaitingLlm (requestId : ℕ) : AgentContinuation :=
  { c with phase := .waitingForLlm, pendingRequestId := some requestId, pendingRequestType := some .llm }

/-- `advance_to_waiting_tool`. -/
def advanceToWaitingTool (requestId : ℕ) : AgentContinuation :=
  { c with phase := .waitingForTool, pendingRequestId := some requestId, pendingRequestType := some .tool }

/-- `advance_to_waiting_external`. -/
def advanceToWaitingExternal (requestId : ℕ) : AgentContinuation :=
  { c with phase := .waitingForExternal, pendingRequestId := some requestId, pendingRequestType := some .external }

/-- `receive_llm_result`. -/
def receiveLlmResult (result : List (String × Value)) : AgentContinuation :=
  { c with phase := .processingResult, lastLlmResult := result, pendingRequestId := none, pendingRequestType := none }

/-- `receive_tool_result`, and `receive_external_result`, which sets the same fields. -/
def receiveToolResult (result : List (String × Value)) : AgentContinuation :=
  { c with phase := .processingResult, lastToolResult := result, pendingRequestId := none, pendingRequestType := none }

/-- `finalize_result_processing`. -/
def finalizeResultProcessing : AgentContinuation :=
  if c.phase = .processingResult then
    { c with phase := .readyToDecide, lastLlmResult := [], lastToolResult := [] }
  else c

/-- `enter_consolidating`. -/
def enterConsolidating : AgentContinuation :=
  if c.phase = .consolidating ∨ c.resumePhase ≠ none then c
  else { c with resumePhase := some c.phase, phase := .consolidating }

/-- `exit_consolidating`. -/
def exitConsolidating : AgentContinuation :=
  match c.resumePhase with
  | none => c
  | some phase => { c with phase := phase, resumePhase := none }

/-- The result `_phase_decide` looks for: it is handled before any consolidation. -/
def pendingResult : Bool :=
  decide (c.phase = .processingResult) && !(c.lastLlmResult.isEmpty && c.lastToolResult.isEmpty)

end AgentContinuation

/-- `AgentRuntimeState`. -/
structure AgentRuntimeState where
  state : AgentState
  continuation : AgentContinuation

/-- An agent after `initialize`. -/
def AgentRuntimeState.initial : AgentRuntimeState where
  state := .idle
  continuation := {}

end MyTeam.Legacy
