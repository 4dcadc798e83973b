import MyTeam.Legacy.Agent
import Mathlib.Data.List.Dedup
import Mathlib.Data.List.Sort

/-!
# The scheduler of the tick kernel

Wake events are queued for agents. Each tick, the queued events that match their agent's wake
condition are merged into one candidate per agent; the most urgent candidates within capacity
are activated and claim their events, the events of the others go back to the queue, and what
was eligible but not claimed expires at the end of the tick.
-/

namespace MyTeam.Legacy

/-- `WakeEventType`. -/
inductive WakeEventType
  | newEmail
  | toolResult
  | childTaskChange
  | lockAvailable
  | retryTimer
  | humanMessage
  | deadlineApproaching
  | timerExpiry
  | bootstrap
  | externalResult
  | scheduleTrigger
  | humanAction
deriving DecidableEq, Repr

/-- `WakeupEvent`. The ids of events are drawn at random and taken never to repeat. -/
structure WakeupEvent where
  eventId : ℕ
  eventType : WakeEventType
  targetAgentId : String
  tick : ℕ
  visibleAtTick : ℕ
  sourceAgentId : String := ""
  taskId : String := ""
  resource : String := ""
  threadId : String := ""
deriving DecidableEq, Repr

/-- `WakeCondition`. -/
structure WakeCondition where
  eventTypes : List WakeEventType := [.bootstrap]
  wakeAtTick : ℕ := 0
  taskIds : List String := []
  resources : List String := []
  threadIds : List String := []
  senderIds : List String := []

/-- `EventStatus`. -/
inductive EventStatus
  | queued
  | eligible
  | claimed
  | consumed
  | expired
deriving DecidableEq, Repr

/-- `QueuedEvent`. -/
structure QueuedEvent where
  event : WakeupEvent
  status : EventStatus := .queued
deriving DecidableEq, Repr

/-- `ReadyCandidate`. -/
structure ReadyCandidate where
  agentId : String
  events : List WakeupEvent
deriving DecidableEq, Repr

/-- A restriction of a wake condition: no value is excluded, or the event has none, or it is listed. -/
def WakeCondition.allows (restriction : List String) (value : String) : Bool :=
  restriction.isEmpty || value == "" || restriction.contains value

/-- `_matches`. -/
def WakeCondition.matches (condition : WakeCondition) (event : WakeupEvent) (tick : ℕ) : Bool :=
  decide (event.visibleAtTick ≤ tick) && decide (condition.wakeAtTick ≤ tick) &&
    condition.eventTypes.contains event.eventType && allows condition.taskIds event.taskId &&
    allows condition.resources event.resource && allows condition.threadIds event.threadId &&
    allows condition.senderIds event.sourceAgentId

/-- `AgentScheduler`. An activation is kept as its candidate: the agent and its wake events. -/
structure AgentScheduler where
  maxActiveAgentsPerTick : ℕ := 8
  wakeConditions : String → Option WakeCondition := fun _ => none
  events : List QueuedEvent := []
  activationsThisTick : List ReadyCandidate := []

/-- What `urgency` says of an agent: the rank of its most urgent task, and its deadline. -/
structure Urgency where
  rank : ℤ
  deadline : Option ℤ

/-- `_urgency_key`: whether an agent's key is at most another's. -/
def Urgency.le (urgency : String → Urgency) (a b : String) : Bool :=
  let key (agent : String) := (-(urgency agent).rank, (urgency agent).deadline)
  if (key a).1 = (key b).1 then
    match (key a).2, (key b).2 with
    | none, none => decide (a ≤ b)
    | none, some _ => false
    | some _, none => true
    | some x, some y => if x = y then decide (a ≤ b) else decide (x < y)
  else decide ((key a).1 < (key b).1)

namespace AgentScheduler

variable (d : AgentScheduler)

/-- Changes the status of the events that are chosen. -/
def restatus (chosen : QueuedEvent → Bool) (status : EventStatus) : AgentScheduler :=
  { d with events := d.events.map fun queued => if chosen queued then { queued with status := status } else queued }

/-- `enqueue_event`, for an event that says when it is visible. -/
def enqueueEvent (event : WakeupEvent) : AgentScheduler :=
  { d with events := d.events ++ [{ event := event }] }

/-- An agent's wake event that `compute_ready_set` takes up. -/
def ready (tick : ℕ) (states : String → Option AgentState) (queued : QueuedEvent) : Bool :=
  decide (queued.status = .eligible) &&
    match states queued.event.targetAgentId with
    | none => false
    | some state => decide (state ∉ AgentState.unschedulable) &&
        match d.wakeConditions queued.event.targetAgentId with
        | none => false
        | some condition => condition.matches queued.event tick

/-- `compute_ready_set`, before the cut: the candidates, most urgent first. -/
def candidates (tick : ℕ) (states : String → Option AgentState) (urgency : String → Urgency) : List ReadyCandidate :=
  let matching := (d.events.filter (d.ready tick states)).map QueuedEvent.event
  let agents := (matching.map WakeupEvent.targetAgentId).dedup.mergeSort (Urgency.le urgency)
  agents.map fun agent => ⟨agent, matching.filter fun event => event.targetAgentId == agent⟩

/-- The ids of the events of candidates. -/
def eventIds (candidates : List ReadyCandidate) : List ℕ :=
  candidates.flatMap fun candidate => candidate.events.map WakeupEvent.eventId

/-- `claim_events`. -/
def claimEvents (ids : List ℕ) : AgentScheduler :=
  d.restatus (fun queued => decide (queued.status = .eligible) && ids.contains queued.event.eventId) .claimed

/-- `defer_events`. -/
def deferEvents (ids : List ℕ) : AgentScheduler :=
  d.restatus (fun queued => decide (queued.status = .claimed) && ids.contains queued.event.eventId) .eligible

/-- `consume_events`. -/
def consumeEvents (ids : List ℕ) : AgentScheduler :=
  d.restatus (fun queued => decide (queued.status = .claimed) && ids.contains queued.event.eventId) .consumed

/-- `requeue_events`. -/
def requeueEvents (ids : List ℕ) : AgentScheduler :=
  d.restatus (fun queued => (decide (queued.status = .claimed) || decide (queued.status = .eligible)) &&
    ids.contains queued.event.eventId) .queued

/-- The queued events become eligible. -/
def markEligible : AgentScheduler :=
  d.restatus (fun queued => decide (queued.status = .queued)) .eligible

/-- `compute_ready_set`: the scheduler after it and the candidates within capacity. -/
def computeReadySet (tick : ℕ) (states : String → Option AgentState) (urgency : String → Urgency) :
    AgentScheduler × List ReadyCandidate :=
  let marked := d.markEligible
  let candidates := marked.candidates tick states urgency
  (marked.requeueEvents (eventIds (candidates.drop d.maxActiveAgentsPerTick)),
    candidates.take d.maxActiveAgentsPerTick)

/-- `begin_activation`: `none` where the agent has an activation in this tick. -/
def beginActivation (candidate : ReadyCandidate) : Option AgentScheduler :=
  if candidate.agentId ∈ d.activationsThisTick.map ReadyCandidate.agentId then none
  else
    let claimed := d.claimEvents (candidate.events.map WakeupEvent.eventId)
    some { claimed with activationsThisTick := claimed.activationsThisTick ++ [candidate] }

/-- `complete_activation` of an agent's activation. -/
def completeActivation (candidate : ReadyCandidate) (success : Bool) : AgentScheduler :=
  let ids := candidate.events.map WakeupEvent.eventId
  if success then d.consumeEvents ids else d.deferEvents ids

/-- `end_tick`. -/
def endTick : AgentScheduler :=
  { d.restatus (fun queued => decide (queued.status = .eligible)) .expired with activationsThisTick := [] }

section Events

variable {d} {chosen : QueuedEvent → Bool} {status status' : EventStatus} {event : WakeupEvent} {tick : ℕ}
  {states : String → Option AgentState} {urgency : String → Urgency} {candidate : ReadyCandidate}

/-- A chosen event changes its status. -/
theorem mem_restatus_of_chosen (h : ⟨event, status⟩ ∈ d.events) (hchosen : chosen ⟨event, status⟩ = true) :
    ⟨event, status'⟩ ∈ (d.restatus chosen status').events :=
  List.mem_map.mpr ⟨⟨event, status⟩, h, by simp [hchosen]⟩

/-- The other events keep their status. -/
theorem mem_restatus_of_not (h : ⟨event, status⟩ ∈ d.events) (hchosen : chosen ⟨event, status⟩ = false) :
    ⟨event, status⟩ ∈ (d.restatus chosen status').events :=
  List.mem_map.mpr ⟨⟨event, status⟩, h, by simp [hchosen]⟩

/-- No event is added or dropped by changing statuses. -/
@[simp] theorem restatus_events :
    (d.restatus chosen status).events.map QueuedEvent.event = d.events.map QueuedEvent.event := by
  simp only [restatus, List.map_map]
  refine List.map_congr_left fun queued _ => ?_
  simp only [Function.comp_apply]
  split <;> rfl

/-- The candidates are the agents of the events that match, with these events. -/
theorem mem_candidates : candidate ∈ d.candidates tick states urgency ↔
    (∃ queued ∈ d.events, d.ready tick states queued = true ∧ queued.event.targetAgentId = candidate.agentId) ∧
      candidate.events = ((d.events.filter (d.ready tick states)).map QueuedEvent.event).filter fun event =>
        event.targetAgentId == candidate.agentId := by
  obtain ⟨agent, events⟩ := candidate
  simp only [candidates, List.mem_map, List.mem_mergeSort, List.mem_dedup, List.mem_filter, ReadyCandidate.mk.injEq]
  constructor
  · rintro ⟨_, ⟨_, ⟨queued, hqueued, rfl⟩, rfl⟩, rfl, rfl⟩
    exact ⟨⟨queued, hqueued.1, hqueued.2, rfl⟩, rfl⟩
  · rintro ⟨⟨queued, hqueued, hready, htarget⟩, rfl⟩
    exact ⟨agent, ⟨queued.event, ⟨queued, ⟨hqueued, hready⟩, rfl⟩, htarget⟩, rfl, rfl⟩

/-- Each agent is a candidate at most once. -/
theorem nodup_candidates (d : AgentScheduler) (tick : ℕ) (states : String → Option AgentState)
    (urgency : String → Urgency) : ((d.candidates tick states urgency).map ReadyCandidate.agentId).Nodup := by
  simp only [candidates, List.map_map, Function.comp_def, List.map_id']
  exact (List.mergeSort_perm _ _).nodup_iff.mpr (List.nodup_dedup _)

/-- The events of a candidate are eligible, match, and are for its agent. -/
theorem mem_candidate_events (h : candidate ∈ d.candidates tick states urgency) (hevent : event ∈ candidate.events) :
    ⟨event, .eligible⟩ ∈ d.events ∧ d.ready tick states ⟨event, .eligible⟩ = true ∧
      event.targetAgentId = candidate.agentId := by
  rw [(mem_candidates.mp h).2, List.mem_filter, List.mem_map] at hevent
  obtain ⟨⟨⟨e, status⟩, hqueued, rfl⟩, htarget⟩ := hevent
  obtain ⟨hmem, hready⟩ := List.mem_filter.mp hqueued
  have hstatus : status = .eligible := by
    simp only [ready, Bool.and_eq_true, decide_eq_true_eq] at hready
    exact hready.1
  subst hstatus
  exact ⟨hmem, hready, by simpa using htarget⟩

/-- An event that matches belongs to a candidate. -/
theorem exists_candidate (h : ⟨event, .eligible⟩ ∈ d.events) (hready : d.ready tick states ⟨event, .eligible⟩ = true) :
    ∃ candidate ∈ d.candidates tick states urgency, candidate.agentId = event.targetAgentId ∧
      event ∈ candidate.events := by
  let events := ((d.events.filter (d.ready tick states)).map QueuedEvent.event).filter fun other =>
    other.targetAgentId == event.targetAgentId
  refine ⟨⟨event.targetAgentId, events⟩, mem_candidates.mpr ⟨⟨_, h, hready, rfl⟩, rfl⟩, rfl, ?_⟩
  exact List.mem_filter.mpr ⟨List.mem_map.mpr ⟨_, List.mem_filter.mpr ⟨h, hready⟩, rfl⟩, beq_self_eq_true _⟩

end Events

end AgentScheduler

end MyTeam.Legacy
