import MyTeam.Async.Transition
import MyTeam.Legacy.PendingOps
import MyTeam.Legacy.Scheduler

/-!
# The tick

A tick collects the results that have come in, schedules the agents they wake, lets these decide
on intents, turns the intents into effects and operations, and commits or rolls back. This module
follows what a tick does to the operations, the continuations of the agents and the scheduler;
what the effects do to files, tasks and mail is left open, and so is what the agents decide.

The tick is taken apart into the moves between which the other threads can act: the executors and
the dispatcher of model requests complete and fail operations, a caller cancels one, and wake
events of other kinds are queued. Exceptions end a tick where it stands.
-/

namespace MyTeam.Legacy

open MyTeam.Py

/-- The intents an agent decides on. Those that only stage effects are told apart by their data; all values are
texts. -/
inductive Intent
  | submitLlmRequest (chosenId taskId : String) (timeoutTicks : ℕ)
  | submitToolRequest (chosenId taskId toolName : String) (timeoutTicks : ℕ) (arguments : List (String × String))
  | waitForEvent (waitingState : String)
  | memoryConsolidate (action : String) (structuredSummary : Bool)
  | stage (data : String)
deriving DecidableEq, Repr

/-- Where a tool runs: in the tick, at an executor, or at an outside platform. -/
inductive Route
  | kernel
  | remote
  | integration
deriving DecidableEq, Repr

/-- What an agent decided, each intent with whether it passed `_phase_validate`. -/
structure Plan where
  agentId : String
  intents : List (Intent × Bool)
deriving DecidableEq, Repr

/-- Where a tick stands: the operations, agents or plans it has yet to go through. -/
inductive Stage
  | boundary
  | expired (rest : List ℕ)
  | failed (rest : List ℕ)
  | completed (rest : List ℕ)
  | receipts
  | receipted (rest : List ℕ)
  | schedule
  | decide (rest : List String) (plans : List Plan)
  | act (rest : List Plan)
  | commit
  | publish
  | conclude (rest : List ReadyCandidate)
  | finish
deriving DecidableEq, Repr

/-- A result written into a continuation: what was awaited then, and the epochs. -/
structure Write where
  requestId : ℕ
  awaited : Option ℕ
  opEpoch : ℕ
  stateEpoch : ℕ
deriving DecidableEq, Repr

/-- The parts of `Simulation` that a tick moves. -/
structure Simulation where
  agents : List String
  runtimes : String → Option AgentRuntimeState
  registry : PendingOperationRegistry
  scheduler : AgentScheduler
  tick : ℕ := 0
  stateEpoch : ℕ := 0
  paused : Bool := false
  /-- What the tool registry and the integrations say of a tool. -/
  route : String → Route
  /-- The data no effect can be made of: attachments that `AttachmentRef` refuses, a pool no worker can be chosen of. -/
  unstageable : String → Bool := fun _ => false
  /-- The arguments on which `hash_payload` raises. -/
  unhashable : List (String × String) → Bool := fun _ => false
  maxConcurrentLlmRequests : ℕ
  tickPendingOps : List (String × ℕ) := []
  tickContinuations : List (String × ContinuationPhase × Option ℕ × Option RequestType) := []
  /-- The requests of each agent that this tick's Act has submitted. -/
  submittedLlm : String → ℕ := fun _ => 0
  lastTickRolledBack : Bool := false
  ready : List ReadyCandidate := []
  nextEventId : ℕ := 0
  stage : Stage := .boundary
  /-- The results written so far; nothing reads them. -/
  writes : List Write := []
  /-- The wake events of the results and notices written since the last Schedule; nothing reads them. -/
  notices : List WakeupEvent := []
  /-- The agents that began to wait in this tick; nothing reads them. -/
  waits : List String := []

namespace Simulation

variable (s : Simulation)

/-- Whether the agent of an operation awaits it. -/
def Awaits (id : ℕ) : Prop :=
  ∃ runtime, s.runtimes (s.registry.op id).agentId = some runtime ∧ runtime.continuation.pendingRequestId = some id

instance (id : ℕ) : Decidable (s.Awaits id) :=
  match h : s.runtimes (s.registry.op id).agentId with
  | none => isFalse (by simp [Awaits, h])
  | some runtime => decidable_of_iff (runtime.continuation.pendingRequestId = some id) (by simp [Awaits, h])

/-- Changes the continuation of an agent. -/
def resume (agent : String) (f : AgentContinuation → AgentContinuation) : Simulation :=
  let runtime := (s.runtimes agent).map fun runtime => { runtime with continuation := f runtime.continuation }
  { s with runtimes := Function.update s.runtimes agent runtime }

/-- A result goes into the continuation of the agent of an operation, by the type of the operation. -/
def receive (id : ℕ) (result : List (String × Value)) : Simulation :=
  s.resume (s.registry.op id).agentId fun c =>
    match (s.registry.op id).opType with
    | .llmRequest => c.receiveLlmResult result
    | .toolRequest => c.receiveToolResult result

/-- The event of `_enqueue_result_wake`. -/
def resultWake (id : ℕ) : WakeupEvent where
  eventId := s.nextEventId
  eventType := match (s.registry.op id).opType with
    | .llmRequest => .toolResult
    | .toolRequest => if (s.registry.op id).externalTool then .externalResult else .toolResult
  targetAgentId := (s.registry.op id).agentId
  tick := s.tick
  visibleAtTick := s.tick
  sourceAgentId := match (s.registry.op id).opType with
    | .llmRequest => "llm_gateway"
    | .toolRequest => if (s.registry.op id).externalTool then "external" else "tool_executor"
  taskId := (s.registry.op id).taskId

/-- `_enqueue_result_wake`. -/
def enqueueResultWake (id : ℕ) : Simulation :=
  { s with
    scheduler := s.scheduler.enqueueEvent (s.resultWake id)
    nextEventId := s.nextEventId + 1
    notices := s.notices ++ [s.resultWake id] }

/-- A result or a notice reaches the agent of an operation, and wakes it. -/
def deliver (id : ℕ) (result : List (String × Value)) : Simulation :=
  (s.receive id result).enqueueResultWake id

/-- A notice that stands for the result of an operation, if its agent awaits it. -/
def notify (id : ℕ) (notice : List (String × Value)) : Simulation :=
  if s.Awaits id then s.deliver id notice else s

/-- The operation leaves the registry. -/
def drop (id : ℕ) : Simulation :=
  { s with registry := s.registry.remove id }

/-- A timed-out operation in `_phase_ingest`. -/
def expireOperation (id : ℕ) : Simulation :=
  (s.notify id [("error", .str s!"Operation timed out at tick {s.tick}"), ("timed_out", .bool true),
    ("request_id", .str (toString id))]).drop id

/-- A failed operation in `_phase_ingest`. -/
def failOperation (id : ℕ) : Simulation :=
  let error := (s.registry.op id).error
  (s.notify id [("error", .str (if error = "" then s!"Operation failed ({id})" else error)), ("failed", .bool true),
    ("request_id", .str (toString id))]).drop id

/-- The result of an operation is written. -/
def write (id : ℕ) : Simulation :=
  let delivered := s.deliver id (s.registry.op id).result
  { delivered with
    writes := s.writes ++ [{
      requestId := id
      awaited := (s.runtimes (s.registry.op id).agentId).bind fun runtime => runtime.continuation.pendingRequestId
      opEpoch := (s.registry.op id).stateEpoch
      stateEpoch := s.stateEpoch }] }

/-- A completed operation in `_phase_ingest`, behind its two fences. -/
def completeOperation (id : ℕ) : Simulation :=
  if (s.registry.op id).stateEpoch ≠ s.stateEpoch then s.drop id
  else if ¬s.Awaits id then s.drop id
  else (s.write id).drop id

/-- A completed operation in the second loop, in `_consume_ingress`. -/
def receiptOperation (id : ℕ) : Simulation :=
  if s.Awaits id then (s.write id).drop id else s

/-- A receipt that an integration resolves to an operation in flight. -/
def receipt (id : ℕ) (result : List (String × Value)) : Simulation :=
  if id ∈ s.registry.operations ∧ (s.registry.op id).status.InFlight then
    { s with registry := s.registry.complete id result }
  else s

/-- `cancel_operation`, where the tool of the operation supports it. -/
def cancelOperation (id : ℕ) : Simulation :=
  match s.registry.cancel id with
  | none => s
  | some registry =>
    (notify { s with registry := registry } id [("error", .str s!"Operation cancelled (request {id})"),
      ("cancelled", .bool true), ("request_id", .str (toString id))]).drop id

/-- `_phase_decide` for an agent: `gate` is what the consolidation gate answers. -/
def decideIntents (agent : String) (gate : Bool) : Simulation :=
  s.resume agent fun c =>
    let gated :=
      if gate && !c.pendingResult then
        if c.resumePhase = none then c.enterConsolidating else c.exitConsolidating
      else c
    gated.finalizeResultProcessing

/-- An operation is submitted in Act: the agent's continuation is remembered and begins to wait. -/
def submitOperation (agent : String) (op : PendingOperation)
    (advance : AgentContinuation → ℕ → AgentContinuation) (target : AgentState) : Option Simulation :=
  let id := s.registry.nextId
  let submitted := { s with
    registry := s.registry.submit op
    tickPendingOps := s.tickPendingOps ++ [(agent, id)] }
  match s.runtimes agent with
  | none => some submitted
  | some ⟨state, c⟩ => do
    let state ← state.transitionToWaiting target
    some { submitted with
      tickContinuations := assign agent (c.phase, c.pendingRequestId, c.pendingRequestType) s.tickContinuations
      runtimes := Function.update s.runtimes agent (some ⟨state, advance c id⟩)
      waits := agent :: s.waits }

/-- Whether `_phase_act` raises on the data of an intent. The arguments of a tool in the tick are passed on by name,
beside those of `execute` itself. -/
def raises : Intent → Bool
  | .submitToolRequest _ _ toolName _ arguments =>
    match s.route toolName with
    | .kernel => arguments.any fun argument => argument.1 ∈ ["self", "context", "tool_name"]
    | _ => s.unhashable arguments
  | .stage data => s.unstageable data
  | _ => false

/-- `_phase_act` for a validated intent whose data is in order; `written` says whether a summary could be stored, and
`none` is an exception. -/
def actIntent (agent : String) (written : Bool) : Intent → Option Simulation
  | .submitLlmRequest chosenId taskId timeoutTicks =>
    if s.maxConcurrentLlmRequests ≤ s.registry.countInFlight agent .llmRequest + s.submittedLlm agent then some s
    else
      submitOperation
        { s with submittedLlm := Function.update s.submittedLlm agent (s.submittedLlm agent + 1) } agent
        { opType := .llmRequest, agentId := agent, taskId := taskId, createdTick := s.tick, eligibleTick := s.tick + 1,
          deadlineTick := some (s.tick + timeoutTicks), stateEpoch := s.stateEpoch, chosenId := chosenId }
        AgentContinuation.advanceToWaitingLlm .waitingForLlm
  | .submitToolRequest chosenId taskId toolName timeoutTicks _ =>
    let op : PendingOperation :=
      { opType := .toolRequest, agentId := agent, taskId := taskId, createdTick := s.tick, eligibleTick := s.tick + 1,
        deadlineTick := some (s.tick + timeoutTicks), stateEpoch := s.stateEpoch, chosenId := chosenId,
        toolName := toolName }
    match s.route toolName with
    | .kernel => some s
    | .remote => s.submitOperation agent op AgentContinuation.advanceToWaitingTool .waitingForTool
    | .integration =>
      s.submitOperation agent { op with externalTool := true } AgentContinuation.advanceToWaitingExternal
        .waitingForExternal
  | .waitForEvent waitingState =>
    match s.runtimes agent with
    | none => some s
    | some runtime => do
      let target ← AgentState.ofValue waitingState
      let state ← runtime.state.transitionToWaiting target
      some { s with
        runtimes := Function.update s.runtimes agent (some { runtime with state := state })
        waits := agent :: s.waits }
  | .memoryConsolidate action structuredSummary =>
    if action = "enter" then some (s.resume agent AgentContinuation.enterConsolidating)
    else if action = "exit" then
      if structuredSummary && !written then some s else some (s.resume agent AgentContinuation.exitConsolidating)
    else some s
  | .stage _ => some s

/-- `_phase_act` for a validated intent. -/
def perform (agent : String) (written : Bool) (intent : Intent) : Option Simulation :=
  if s.raises intent then none else s.actIntent agent written intent

/-- What is performed does not raise. -/
theorem perform_eq_some {s t : Simulation} {agent : String} {written : Bool} {intent : Intent} :
    s.perform agent written intent = some t ↔ s.raises intent = false ∧ s.actIntent agent written intent = some t := by
  unfold perform
  cases s.raises intent <;> simp

/-- `_rollback`, for the operations and the continuations, and `_bump_state_epoch`. -/
def rollback : Simulation :=
  { s with
    registry := s.tickPendingOps.foldl (fun registry submitted => registry.removeForRollback submitted.2) s.registry
    runtimes := fun agent =>
      match s.tickContinuations.lookup agent with
      | none => s.runtimes agent
      | some (phase, requestId, requestType) => (s.runtimes agent).map fun runtime =>
          { runtime with continuation := { runtime.continuation with
              phase := phase, pendingRequestId := requestId, pendingRequestType := requestType } }
    stateEpoch := s.stateEpoch + 1
    lastTickRolledBack := true }

/-- `_phase_schedule` for a candidate. -/
def activate (candidate : ReadyCandidate) : Option Simulation := do
  let scheduler ← s.scheduler.beginActivation candidate
  let runtime := (s.runtimes candidate.agentId).map fun runtime =>
    { runtime with state := runtime.state.beginActivation }
  some { s with scheduler := scheduler, runtimes := Function.update s.runtimes candidate.agentId runtime }

/-- `_get_agent_states`. -/
def agentStates (agent : String) : Option AgentState :=
  (s.runtimes agent).map AgentRuntimeState.state

/-- The activations of the candidates, one after the other, and whether none of them raised. -/
def activateAll (s : Simulation) : List ReadyCandidate → Simulation × Bool
  | [] => (s, true)
  | candidate :: rest =>
    match s.activate candidate with
    | none => (s, false)
    | some t => t.activateAll rest

/-- `_phase_schedule`, and whether it did not raise. The events of the first tick are queued before. -/
def schedule (urgency : String → Urgency) : Simulation × Bool :=
  let computed := s.scheduler.computeReadySet s.tick s.agentStates urgency
  activateAll { s with scheduler := computed.1, ready := computed.2, notices := [] } computed.2

/-- The activation of an agent in this tick. -/
def activation (agent : String) : Option ReadyCandidate :=
  s.scheduler.activationsThisTick.find? fun activation => activation.agentId == agent

/-- The end of a tick for a candidate. -/
def concludeActivation (candidate : ReadyCandidate) : Simulation :=
  match s.activation candidate.agentId with
  | none => s
  | some activation =>
    let runtime := (s.runtimes candidate.agentId).map fun runtime =>
      { runtime with state := runtime.state.completeActivation }
    { s with
      scheduler := s.scheduler.completeActivation activation !s.lastTickRolledBack
      runtimes := Function.update s.runtimes candidate.agentId runtime }

/-- The end of a tick: after a rollback the events of its activations are queued again. -/
def finishTick : Simulation :=
  let requeued :=
    if s.lastTickRolledBack then
      s.scheduler.requeueEvents (AgentScheduler.eventIds (s.ready.filterMap fun candidate =>
        s.activation candidate.agentId))
    else s.scheduler
  { s with
    scheduler := requeued.endTick
    tick := if s.paused then s.tick else s.tick + 1
    stage := .boundary }

end Simulation

/-- The moves: those of the other threads and callers, and those of the tick, with what is left open. -/
inductive Move
  | complete (id : ℕ) (result : List (String × Value))
  | fail (id : ℕ) (error : String)
  | claim (id : ℕ)
  | cancel (id : ℕ)
  | wake (event : WakeupEvent)
  | route (route : String → Route) (unstageable : String → Bool) (unhashable : List (String × String) → Bool)
  | pause
  | resume
  | start
  | ingest
  | receipt (id : ℕ) (result : List (String × Value))
  | schedule (urgency : String → Urgency)
  | decide (gate : Bool) (intents : List (Intent × Bool))
  | act (written : Bool)
  | commit (rolledBack : Bool)
  | publish
  | conclude
  | crash

namespace Simulation

variable (s : Simulation)

/-- The next step of Ingest: the next operation of a loop, or the next loop. -/
def ingest : Option Simulation :=
  match s.stage with
  | .expired [] => some { s with stage := .failed s.registry.failed }
  | .expired (id :: rest) => some { s.expireOperation id with stage := .expired rest }
  | .failed [] => some { s with stage := .completed (s.registry.collectCompleted s.tick) }
  | .failed (id :: rest) => some { s.failOperation id with stage := .failed rest }
  | .completed [] => some { s with stage := .receipts }
  | .completed (id :: rest) => some { s.completeOperation id with stage := .completed rest }
  | .receipts => some { s with stage := .receipted (s.registry.collectCompleted s.tick) }
  | .receipted [] => some { s with stage := .schedule }
  | .receipted (id :: rest) => some { s.receiptOperation id with stage := .receipted rest }
  | _ => none

/-- The next step of Act: the next intent, or the next plan. -/
def act (written : Bool) : Option Simulation :=
  match s.stage with
  | .act [] => some { s with stage := .commit }
  | .act ({ agentId := _, intents := [] } :: rest) => some { s with stage := .act rest }
  | .act ({ agentId := agent, intents := (intent, valid) :: intents } :: rest) =>
    (if valid then s.perform agent written intent else some s).map fun t =>
      { t with stage := .act (⟨agent, intents⟩ :: rest) }
  | _ => none

/-- A move of the simulation. -/
def step : Move → Option Simulation
  | .complete id result => some { s with registry := s.registry.complete id result }
  | .fail id error => some { s with registry := s.registry.fail id error }
  | .claim id => some { s with registry := s.registry.claim id }
  | .cancel id => some (s.cancelOperation id)
  | .wake event => some { s with
      scheduler := s.scheduler.enqueueEvent { event with eventId := s.nextEventId }
      nextEventId := s.nextEventId + 1 }
  | .route route unstageable unhashable =>
    some { s with route := route, unstageable := unstageable, unhashable := unhashable }
  | .pause => some { s with paused := true }
  | .resume => some { s with paused := false }
  | .start =>
    if s.stage = .boundary ∧ s.paused = false then
      some { s with
        registry := s.registry.timeOut s.tick
        stage := .expired (s.registry.expired s.tick) }
    else none
  | .ingest => s.ingest
  | .receipt id result => if s.stage = .receipts then some (s.receipt id result) else none
  | .schedule urgency =>
    if s.stage = .schedule then
      let scheduled := s.schedule urgency
      let active := s.agents.filter fun agent => scheduled.1.ready.any fun candidate => candidate.agentId == agent
      some { scheduled.1 with stage := if scheduled.2 then .decide active [] else .boundary }
    else none
  | .decide gate intents =>
    match s.stage with
    | .decide [] plans => some { s with
        stage := .act plans, tickPendingOps := [], tickContinuations := [], submittedLlm := fun _ => 0, waits := [] }
    | .decide (agent :: rest) plans => some { s.decideIntents agent gate with
        stage := .decide rest (plans ++ [⟨agent, intents⟩]) }
    | _ => none
  | .act written => s.act written
  | .commit rolledBack =>
    if s.stage = .commit then
      if rolledBack then some { s.rollback with stage := .publish }
      else some { s with stage := .publish, lastTickRolledBack := false }
    else none
  | .publish => if s.stage = .publish then some { s with stage := .conclude s.ready } else none
  | .conclude =>
    match s.stage with
    | .conclude [] => some { s with stage := .finish }
    | .conclude (candidate :: rest) => some { s.concludeActivation candidate with stage := .conclude rest }
    | .finish => some s.finishTick
    | _ => none
  | .crash => if s.stage = .boundary then none else some { s with stage := .boundary }

/-- A simulation as `_initialize` leaves it: `bootstrap` and `human` say which agents are so configured. -/
def initial (agents : List String) (bootstrap human : String → Bool) (route : String → Route)
    (maxConcurrentLlmRequests maxActiveAgentsPerTick : ℕ) : Simulation where
  agents := agents
  runtimes agent := if agent ∈ agents then some .initial else none
  registry := { op := fun _ => ⟨.llmRequest, "", "", 0, 0, none, .submitted, [], "", 0, "", "", false⟩ }
  scheduler :=
    { maxActiveAgentsPerTick := maxActiveAgentsPerTick
      wakeConditions := fun agent => if agent ∈ agents then
          some { eventTypes := (if bootstrap agent then [.bootstrap] else []) ++
            [.newEmail, .humanMessage, .toolResult, .childTaskChange, .deadlineApproaching] ++
            if human agent then [.humanAction] else [] }
        else none }
  route := route
  maxConcurrentLlmRequests := maxConcurrentLlmRequests

end Simulation

namespace Move

/-- A tick up to Schedule, with nothing to collect. -/
def opening : List Move :=
  [.start, .ingest, .ingest, .ingest, .ingest, .ingest]

/-- A wake event for an agent, and Schedule. -/
def waking (type : WakeEventType) (agent : String) (tick : ℕ) : List Move :=
  [.wake { eventId := 0, eventType := type, targetAgentId := agent, tick := tick, visibleAtTick := tick },
    .schedule fun _ => ⟨-1, none⟩]

/-- One agent decides on one intent, which is acted on; the tick is committed or rolled back, and ends. -/
def deciding (intent : Intent) (rolledBack : Bool) : List Move :=
  [.decide false [(intent, true)], .decide false [], .act true, .act true, .act true, .commit rolledBack, .publish,
    .conclude, .conclude, .conclude]

end Move

end MyTeam.Legacy
