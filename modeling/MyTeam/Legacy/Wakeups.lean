import MyTeam.Legacy.Fencing
import MyTeam.Legacy.Waiting

/-!
# No wake-up is lost

Whatever is written into the continuation of an agent comes with a wake event. The next Schedule
puts the event into an activation of the agent or keeps it queued, a rollback queues the events of
its activations again, and after a committed activation without a new wait the agent is idle.

This fails for the tools of outside platforms: their results wake with a type of event that no
agent is registered for, and an agent that waits for one is in a lifecycle state from which an
activation does not resume it. It also fails after a tick that ended with an exception, whose
activations stay in the scheduler. `misses` singles out the moves in question.
-/

namespace MyTeam.Legacy

open MyTeam.Py MyTeam.Async

/-- The states in which an agent can be activated but `begin_activation` leaves it as it is. -/
def AgentState.unresumed : List AgentState :=
  [.waiting, .waitingForExternal, .blocked]

/-- An agent that can be activated is processing then, unless its state is not resumed. -/
theorem AgentState.beginActivation_processing {state : AgentState} (schedulable : state ∉ unschedulable)
    (resumed : state ∉ unresumed) : state.beginActivation = .processing := by
  cases state <;> simp_all [unschedulable, unresumed, beginActivation]

namespace AgentScheduler

/-- The ids of the events. -/
def ids (d : AgentScheduler) : List ℕ :=
  d.events.map fun queued => queued.event.eventId

/-- The activations of the tick are those of the ready agents, and have claimed their events. -/
structure Active (d : AgentScheduler) (ready : List ReadyCandidate) : Prop where
  activations : d.activationsThisTick = ready
  nodup : (ready.map ReadyCandidate.agentId).Nodup
  claimed : ∀ candidate ∈ ready, ∀ event ∈ candidate.events, ⟨event, .claimed⟩ ∈ d.events

end AgentScheduler

/-- What the stage of a tick says about the activations and the lifecycle states of their agents. -/
def Stage.Poised (d : AgentScheduler) (ready : List ReadyCandidate) (waits : List String) (rolledBack : Bool)
    (states : String → Option AgentState) : Stage → Prop
  | .decide _ _ => d.Active ready ∧ ∀ candidate ∈ ready, states candidate.agentId = some .processing
  | .act _ | .commit | .publish => d.Active ready ∧ ∀ candidate ∈ ready, candidate.agentId ∉ waits →
      states candidate.agentId = some .processing
  | .conclude rest => d.activationsThisTick = ready ∧ (ready.map ReadyCandidate.agentId).Nodup ∧ rest ⊆ ready ∧
      (rolledBack = true → ∀ candidate ∈ ready, ∀ event ∈ candidate.events,
        ⟨event, .claimed⟩ ∈ d.events ∨ ⟨event, .eligible⟩ ∈ d.events) ∧
      ∀ candidate ∈ ready, candidate.agentId ∉ waits →
        candidate ∈ rest ∧ states candidate.agentId = some .processing ∨ states candidate.agentId = some .idle
  | .finish => d.activationsThisTick = ready ∧ (ready.map ReadyCandidate.agentId).Nodup ∧
      (rolledBack = true → ∀ candidate ∈ ready, ∀ event ∈ candidate.events,
        ⟨event, .claimed⟩ ∈ d.events ∨ ⟨event, .eligible⟩ ∈ d.events) ∧
      ∀ candidate ∈ ready, candidate.agentId ∉ waits → states candidate.agentId = some .idle
  | _ => d.activationsThisTick = []

namespace Simulation

/-- An operation at an outside platform. -/
def external (s : Simulation) (id : ℕ) : Bool :=
  decide ((s.registry.op id).opType = .toolRequest) && (s.registry.op id).externalTool

/-- The moves that lose a wake-up or leave an agent in a state of waiting. -/
def misses (s : Simulation) : Move → Bool
  | .cancel id => s.external id &&
      decide (id ∈ s.registry.operations ∧ (s.registry.op id).status.InFlight ∧ s.Awaits id)
  | .ingest => match s.stage with
    | .expired (id :: _) | .failed (id :: _) | .receipted (id :: _) => s.external id && decide (s.Awaits id)
    | .completed (id :: _) =>
      s.external id && decide (s.Awaits id) && decide ((s.registry.op id).stateEpoch = s.stateEpoch)
    | _ => false
  | .schedule urgency => (s.scheduler.computeReadySet s.tick s.agentStates urgency).2.any fun candidate =>
      (s.agentStates candidate.agentId).any fun state => decide (state ∈ AgentState.unresumed)
  | .crash => true
  | _ => false

variable {s t : Simulation} {move : Move} {id : ℕ}

/-- What a move that misses nothing writes is not from an outside platform. -/
theorem Delivers.internal (h : s.Delivers id move) (keeps : s.misses move = false) : s.external id = false := by
  cases move with
  | cancel cancelled =>
    obtain ⟨rfl, hmem, hflight, hawaits⟩ := h
    simpa [misses, hmem, hflight, hawaits] using keeps
  | ingest =>
    obtain ⟨hawaits, hstage⟩ := h
    split at hstage
    next hat => subst hstage; simpa [misses, hat, hawaits] using keeps
    next hat => subst hstage; simpa [misses, hat, hawaits] using keeps
    next hat => obtain ⟨rfl, hepoch⟩ := hstage; simpa [misses, hat, hawaits, hepoch] using keeps
    next hat => subst hstage; simpa [misses, hat, hawaits] using keeps
    next => exact hstage.elim
  | _ => exact h.elim

/-- The agents are registered for results, results wait in the queue, and the stage is as it should be. -/
structure Alert (s : Simulation) : Prop where
  known : ∀ {agent state}, s.agentStates agent = some state → ∃ eventTypes,
    s.scheduler.wakeConditions agent = some { eventTypes := eventTypes } ∧ .toolResult ∈ eventTypes
  nodup : s.scheduler.ids.Nodup
  below : ∀ id ∈ s.scheduler.ids, id < s.nextEventId
  noticed : ∀ event ∈ s.notices, ⟨event, .queued⟩ ∈ s.scheduler.events ∧ event.eventType = .toolResult ∧
    event.visibleAtTick ≤ s.tick
  poised : s.stage.Poised s.scheduler s.ready s.waits s.lastTickRolledBack s.agentStates

/-- A move that leaves the scheduler and the lifecycle states alone. -/
theorem Alert.still (h : s.Alert) (scheduler : t.scheduler = s.scheduler) (states : t.agentStates = s.agentStates)
    (nextEventId : t.nextEventId = s.nextEventId) (notices : t.notices = s.notices) (tick : t.tick = s.tick)
    (poised : t.stage.Poised s.scheduler t.ready t.waits t.lastTickRolledBack s.agentStates) : t.Alert where
  known hstate := by
    rw [states] at hstate
    rw [scheduler]
    exact h.known hstate
  nodup := scheduler ▸ h.nodup
  below := by
    rw [scheduler, nextEventId]
    exact h.below
  noticed := by
    rw [notices, scheduler, tick]
    exact h.noticed
  poised := by
    rw [scheduler, states]
    exact poised

/-- A queued event does not disturb a tick. -/
theorem Poised.enqueue {stage : Stage} {d : AgentScheduler} {ready : List ReadyCandidate} {waits : List String}
    {rolledBack : Bool} {states : String → Option AgentState} (h : stage.Poised d ready waits rolledBack states)
    (event : WakeupEvent) : stage.Poised (d.enqueueEvent event) ready waits rolledBack states := by
  have hkept {queued : QueuedEvent} (hq : queued ∈ d.events) : queued ∈ (d.enqueueEvent event).events :=
    List.mem_append_left _ hq
  have hactive (ha : d.Active ready) : (d.enqueueEvent event).Active ready :=
    ⟨ha.activations, ha.nodup, fun candidate hc e he => hkept (ha.claimed candidate hc e he)⟩
  cases stage with
  | decide rest plans => exact ⟨hactive h.1, h.2⟩
  | act rest => exact ⟨hactive h.1, h.2⟩
  | commit => exact ⟨hactive h.1, h.2⟩
  | publish => exact ⟨hactive h.1, h.2⟩
  | conclude rest =>
    obtain ⟨hactivations, hnodup, hrest, hevents, hstates⟩ := h
    exact ⟨hactivations, hnodup, hrest, fun hback candidate hc e he =>
      (hevents hback candidate hc e he).imp hkept hkept, hstates⟩
  | finish =>
    obtain ⟨hactivations, hnodup, hevents, hstates⟩ := h
    exact ⟨hactivations, hnodup, fun hback candidate hc e he =>
      (hevents hback candidate hc e he).imp hkept hkept, hstates⟩
  | _ => exact h

/-- An event is queued; it may be the wake event of something that was written. -/
theorem Alert.enqueue (h : s.Alert) {event : WakeupEvent} (fresh : event.eventId = s.nextEventId)
    (scheduler : t.scheduler = s.scheduler.enqueueEvent event) (states : t.agentStates = s.agentStates)
    (nextEventId : t.nextEventId = s.nextEventId + 1) (tick : t.tick = s.tick)
    (notices : t.notices = s.notices ∨ t.notices = s.notices ++ [event] ∧ event.eventType = .toolResult ∧
      event.visibleAtTick ≤ s.tick)
    (poised : t.stage.Poised s.scheduler t.ready t.waits t.lastTickRolledBack t.agentStates) : t.Alert := by
  have hids : t.scheduler.ids = s.scheduler.ids ++ [s.nextEventId] := by
    simp [scheduler, AgentScheduler.ids, AgentScheduler.enqueueEvent, fresh]
  constructor
  case known =>
    intro agent state hstate
    rw [states] at hstate
    rw [scheduler]
    exact h.known hstate
  case nodup =>
    rw [hids]
    refine List.nodup_append.mpr ⟨h.nodup, List.nodup_singleton _, fun a ha b hb => ?_⟩
    have hlt := h.below a ha
    rw [List.mem_singleton] at hb
    omega
  case below =>
    intro id hid
    rw [hids, List.mem_append, List.mem_singleton] at hid
    rw [nextEventId]
    rcases hid with hold | hnew
    · exact Nat.lt_succ_of_lt (h.below id hold)
    · omega
  case noticed =>
    intro e he
    rw [tick, scheduler]
    have hold (he : e ∈ s.notices) : ⟨e, .queued⟩ ∈ (s.scheduler.enqueueEvent event).events ∧
        e.eventType = .toolResult ∧ e.visibleAtTick ≤ s.tick := by
      obtain ⟨hqueued, htype, hvisible⟩ := h.noticed e he
      exact ⟨List.mem_append_left _ hqueued, htype, hvisible⟩
    rcases notices with hsame | ⟨hnew, htype, hvisible⟩
    · exact hold (hsame ▸ he)
    · rw [hnew, List.mem_append, List.mem_singleton] at he
      rcases he with he | rfl
      · exact hold he
      · exact ⟨List.mem_append_right _ (List.mem_singleton_self _), htype, hvisible⟩
  case poised =>
    rw [scheduler]
    exact Poised.enqueue poised event

/-- Changing a continuation leaves the lifecycle states alone. -/
theorem agentStates_resume {agent : String} {f : AgentContinuation → AgentContinuation} :
    (s.resume agent f).agentStates = s.agentStates := by
  funext other
  by_cases hother : other = agent
  · subst hother
    cases hruntime : s.runtimes other <;> simp [agentStates, resume, hruntime]
  · simp [agentStates, resume, hother]

/-- The results of other operations wake with a type of event the agents are registered for. -/
theorem resultWake_internal (internal : s.external id = false) : (s.resultWake id).eventType = .toolResult := by
  unfold external at internal
  unfold resultWake
  dsimp only
  split
  · rfl
  next hop => simp_all

/-- Something is written about an operation. -/
theorem Alert.deliver (h : s.Alert) {result : List (String × Value)} (internal : s.external id = false)
    (scheduler : t.scheduler = (s.deliver id result).scheduler) (runtimes : t.runtimes = (s.deliver id result).runtimes)
    (nextEventId : t.nextEventId = s.nextEventId + 1) (tick : t.tick = s.tick)
    (notices : t.notices = s.notices ++ [s.resultWake id])
    (poised : t.stage.Poised s.scheduler t.ready t.waits t.lastTickRolledBack s.agentStates) : t.Alert := by
  have hstates : t.agentStates = s.agentStates := by
    have hsame : t.agentStates = (s.receive id result).agentStates := by
      funext agent
      rw [agentStates, agentStates, runtimes]
      rfl
    rw [hsame, receive, agentStates_resume]
  refine h.enqueue rfl scheduler hstates nextEventId tick (Or.inr ⟨notices, resultWake_internal internal, le_rfl⟩) ?_
  rw [hstates]
  exact poised

/-- A notice about an operation, which then leaves the registry. -/
theorem Alert.notify (h : s.Alert) {notice : List (String × Value)} (internal : s.Awaits id → s.external id = false)
    (stage : Stage) (poised : stage.Poised s.scheduler s.ready s.waits s.lastTickRolledBack s.agentStates) :
    Alert { (s.notify id notice).drop id with stage := stage } := by
  unfold Simulation.notify
  split_ifs with hawaits
  · exact h.deliver (internal hawaits) rfl rfl rfl rfl rfl poised
  · exact h.still rfl rfl rfl rfl rfl poised

/-- The next step of Ingest. -/
theorem Alert.ingest (h : s.Alert) (keeps : s.misses .ingest = false) (moves : s.ingest = some t) : t.Alert := by
  have hinternal (id : ℕ) (hid : s.Delivers id .ingest) : s.external id = false := hid.internal keeps
  have hpoised := h.poised
  unfold Simulation.ingest at moves
  split at moves <;> cases moves
  next hstage => rw [hstage] at hpoised; exact h.still rfl rfl rfl rfl rfl hpoised
  next id rest hstage =>
    rw [hstage] at hpoised
    exact h.notify (fun hawaits => hinternal id ⟨hawaits, by rw [hstage]⟩) _ hpoised
  next hstage => rw [hstage] at hpoised; exact h.still rfl rfl rfl rfl rfl hpoised
  next id rest hstage =>
    rw [hstage] at hpoised
    exact h.notify (fun hawaits => hinternal id ⟨hawaits, by rw [hstage]⟩) _ hpoised
  next hstage => rw [hstage] at hpoised; exact h.still rfl rfl rfl rfl rfl hpoised
  next id rest hstage =>
    rw [hstage] at hpoised
    unfold completeOperation
    split_ifs with hepoch hawaits
    · exact h.still rfl rfl rfl rfl rfl hpoised
    · exact h.deliver (hinternal id ⟨hawaits, by rw [hstage]; exact ⟨rfl, not_not.mp hepoch⟩⟩) rfl rfl rfl rfl rfl
        hpoised
    · exact h.still rfl rfl rfl rfl rfl hpoised
  next hstage => rw [hstage] at hpoised; exact h.still rfl rfl rfl rfl rfl hpoised
  next hstage => rw [hstage] at hpoised; exact h.still rfl rfl rfl rfl rfl hpoised
  next id rest hstage =>
    rw [hstage] at hpoised
    unfold receiptOperation
    split_ifs with hawaits
    · exact h.deliver (hinternal id ⟨hawaits, by rw [hstage]⟩) rfl rfl rfl rfl rfl hpoised
    · exact h.still rfl rfl rfl rfl rfl hpoised

/-- Cancelling an operation. -/
theorem Alert.cancel (h : s.Alert) (keeps : s.misses (.cancel id) = false) : (s.cancelOperation id).Alert := by
  unfold cancelOperation PendingOperationRegistry.cancel
  split_ifs with hflight
  · dsimp only
    have hedited : Alert { s with registry := s.registry.edit id fun op => { op with status := .cancelled } } :=
      h.still rfl rfl rfl rfl rfl h.poised
    unfold Simulation.notify
    split_ifs with hawaits
    · refine hedited.deliver ?_ rfl rfl rfl rfl rfl h.poised
      have hold : s.Awaits id := (awaits_settled (PendingOperationRegistry.edit_settles rfl)).mp hawaits
      have hdelivers : s.Delivers id (.cancel id) := ⟨rfl, hflight.1, hflight.2, hold⟩
      have hinternal : s.external id = false := hdelivers.internal keeps
      simpa [external, PendingOperationRegistry.edit] using hinternal
    · exact hedited.still rfl rfl rfl rfl rfl h.poised
  · exact h

/-- An agent waits in Act: its lifecycle state changes, and nobody else's. -/
theorem Alert.wait (h : s.Alert) {rest rest' : List Plan} {agent : String} {runtime runtime' : AgentRuntimeState}
    (hstage : s.stage = .act rest) (known : s.runtimes agent = some runtime) (stage : t.stage = .act rest')
    (scheduler : t.scheduler = s.scheduler) (runtimes : t.runtimes = Function.update s.runtimes agent (some runtime'))
    (ready : t.ready = s.ready) (waits : t.waits = agent :: s.waits) (nextEventId : t.nextEventId = s.nextEventId)
    (notices : t.notices = s.notices) (tick : t.tick = s.tick) : t.Alert := by
  have hothers {other : String} (hother : other ≠ agent) : t.agentStates other = s.agentStates other := by
    simp [agentStates, runtimes, hother]
  have hpoised := h.poised
  rw [hstage] at hpoised
  constructor
  case known =>
    intro other state hstate
    rw [scheduler]
    by_cases hother : other = agent
    · subst hother
      exact h.known (by rw [agentStates, known]; rfl)
    · rw [hothers hother] at hstate
      exact h.known hstate
  case nodup => exact scheduler ▸ h.nodup
  case below =>
    rw [scheduler, nextEventId]
    exact h.below
  case noticed =>
    rw [notices, scheduler, tick]
    exact h.noticed
  case poised =>
    rw [stage, scheduler, ready, waits]
    refine ⟨hpoised.1, fun candidate hcandidate hnot => ?_⟩
    rw [List.mem_cons, not_or] at hnot
    rw [hothers hnot.1]
    exact hpoised.2 candidate hcandidate hnot.2

/-- A submission in Act. -/
theorem Alert.submit (h : s.Alert) {rest : List Plan} {agent : String} {op : PendingOperation} {r : String → ℕ}
    {advance : AgentContinuation → ℕ → AgentContinuation} {target : AgentState} (hstage : s.stage = .act rest)
    (moves : submitOperation { s with submittedLlm := r } agent op advance target = some t)
    (rest' : List Plan) : Alert { t with stage := .act rest' } := by
  have hpoised := h.poised
  rw [hstage] at hpoised
  unfold submitOperation at moves
  dsimp only at moves
  split at moves
  next hruntime =>
    cases moves
    exact h.still rfl rfl rfl rfl rfl hpoised
  next state c hruntime =>
    obtain ⟨state', -, moves⟩ := Option.bind_eq_some_iff.mp moves
    cases moves
    exact h.wait hstage hruntime rfl rfl rfl rfl rfl rfl rfl rfl

/-- The next step of Act. -/
theorem Alert.act (h : s.Alert) {written : Bool} (moves : s.act written = some t) : t.Alert := by
  have hpoised := h.poised
  unfold Simulation.act at moves
  split at moves
  next hstage => cases moves; rw [hstage] at hpoised; exact h.still rfl rfl rfl rfl rfl hpoised
  next hstage => cases moves; rw [hstage] at hpoised; exact h.still rfl rfl rfl rfl rfl hpoised
  next agent intent valid intents rest hstage =>
    obtain ⟨u, hu, rfl⟩ := Option.map_eq_some_iff.mp moves
    rw [hstage] at hpoised
    split at hu
    · replace hu := (perform_eq_some.mp hu).2
      cases intent with
      | submitLlmRequest chosenId taskId timeoutTicks =>
        rw [actIntent] at hu
        split at hu
        · cases hu
          exact h.still rfl rfl rfl rfl rfl hpoised
        · exact h.submit hstage hu _
      | submitToolRequest chosenId taskId toolName timeoutTicks arguments =>
        rw [actIntent] at hu
        dsimp only at hu
        split at hu
        · cases hu
          exact h.still rfl rfl rfl rfl rfl hpoised
        · exact h.submit (r := s.submittedLlm) hstage hu _
        · exact h.submit (r := s.submittedLlm) hstage hu _
      | waitForEvent waitingState =>
        rw [actIntent] at hu
        split at hu
        · cases hu
          exact h.still rfl rfl rfl rfl rfl hpoised
        next runtime hruntime =>
          obtain ⟨_, -, hu⟩ := Option.bind_eq_some_iff.mp hu
          obtain ⟨_, -, hu⟩ := Option.bind_eq_some_iff.mp hu
          cases hu
          exact h.wait hstage hruntime rfl rfl rfl rfl rfl rfl rfl rfl
      | memoryConsolidate action structuredSummary =>
        rw [actIntent] at hu
        split_ifs at hu <;> cases hu
        · exact h.still rfl agentStates_resume rfl rfl rfl hpoised
        · exact h.still rfl rfl rfl rfl rfl hpoised
        · exact h.still rfl agentStates_resume rfl rfl rfl hpoised
        · exact h.still rfl rfl rfl rfl rfl hpoised
      | stage data =>
        cases hu
        exact h.still rfl rfl rfl rfl rfl hpoised
    · cases hu
      exact h.still rfl rfl rfl rfl rfl hpoised
  next => cases moves

/-- What the activations of candidates do. -/
structure Activated (s : Simulation) (candidates : List ReadyCandidate) (t : Simulation) : Prop where
  activations : t.scheduler.activationsThisTick = s.scheduler.activationsThisTick ++ candidates
  claimed : ∀ candidate ∈ candidates, ∀ event ∈ candidate.events, ⟨event, .claimed⟩ ∈ t.scheduler.events
  kept : ∀ {event status}, status ≠ .eligible → ⟨event, status⟩ ∈ s.scheduler.events →
    ⟨event, status⟩ ∈ t.scheduler.events
  eligible : ∀ {event}, ⟨event, .eligible⟩ ∈ s.scheduler.events →
    ⟨event, .eligible⟩ ∈ t.scheduler.events ∨ ⟨event, .claimed⟩ ∈ t.scheduler.events
  ids : t.scheduler.ids = s.scheduler.ids
  wakeConditions : t.scheduler.wakeConditions = s.scheduler.wakeConditions
  states : ∀ agent, t.agentStates agent =
    if agent ∈ candidates.map ReadyCandidate.agentId then (s.agentStates agent).map AgentState.beginActivation
    else s.agentStates agent
  rest : t.ready = s.ready ∧ t.notices = s.notices ∧ t.waits = s.waits ∧ t.tick = s.tick ∧
    t.nextEventId = s.nextEventId ∧ t.lastTickRolledBack = s.lastTickRolledBack

/-- The events keep their ids when their statuses change. -/
theorem ids_restatus {d : AgentScheduler} {chosen : QueuedEvent → Bool} {status : EventStatus} :
    (d.restatus chosen status).ids = d.ids := by
  have hids (e : AgentScheduler) : e.ids = (e.events.map QueuedEvent.event).map WakeupEvent.eventId := by
    simp [AgentScheduler.ids]
  rw [hids, hids, AgentScheduler.restatus_events]

/-- The activation of one candidate, whose agent has none yet. -/
theorem activate_activated {candidate : ReadyCandidate}
    (fresh : candidate.agentId ∉ s.scheduler.activationsThisTick.map ReadyCandidate.agentId)
    (eligible : ∀ event ∈ candidate.events,
      ⟨event, .eligible⟩ ∈ s.scheduler.events ∨ ⟨event, .claimed⟩ ∈ s.scheduler.events) :
    ∃ t, s.activate candidate = some t ∧ s.Activated [candidate] t := by
  refine ⟨_, by rw [activate, AgentScheduler.beginActivation, if_neg fresh]; rfl, ?_⟩
  constructor
  case activations => rfl
  case claimed =>
    intro other hother event hevent
    rw [List.mem_singleton] at hother
    subst hother
    rcases eligible event hevent with heligible | hclaimed
    · refine AgentScheduler.mem_restatus_of_chosen heligible ?_
      simpa using ⟨event, hevent, rfl⟩
    · exact AgentScheduler.mem_restatus_of_not hclaimed (by simp)
  case kept =>
    intro event status hstatus hmem
    exact AgentScheduler.mem_restatus_of_not hmem (by simp [hstatus])
  case eligible =>
    intro event hmem
    by_cases hid : event.eventId ∈ candidate.events.map WakeupEvent.eventId
    · exact Or.inr (AgentScheduler.mem_restatus_of_chosen hmem (by simpa using hid))
    · exact Or.inl (AgentScheduler.mem_restatus_of_not hmem (by simpa using hid))
  case ids => exact ids_restatus
  case wakeConditions => rfl
  case states =>
    intro agent
    by_cases hagent : agent = candidate.agentId
    · subst hagent
      cases hruntime : s.runtimes candidate.agentId <;> simp [agentStates, hruntime]
    · simp [agentStates, hagent]
  case rest => exact ⟨rfl, rfl, rfl, rfl, rfl, rfl⟩

/-- Activations one after the other. -/
theorem Activated.trans {u : Simulation} {candidate : ReadyCandidate} {rest : List ReadyCandidate}
    (h : s.Activated [candidate] t) (h' : t.Activated rest u)
    (fresh : candidate.agentId ∉ rest.map ReadyCandidate.agentId) : s.Activated (candidate :: rest) u where
  activations := by rw [h'.activations, h.activations, List.append_assoc, List.singleton_append]
  claimed other hother event hevent := by
    rcases List.mem_cons.mp hother with rfl | hother
    · exact h'.kept (by simp) (h.claimed other (List.mem_singleton_self _) event hevent)
    · exact h'.claimed other hother event hevent
  kept hstatus hmem := h'.kept hstatus (h.kept hstatus hmem)
  eligible hmem := (h.eligible hmem).elim h'.eligible fun hclaimed => Or.inr (h'.kept (by simp) hclaimed)
  ids := h'.ids.trans h.ids
  wakeConditions := h'.wakeConditions.trans h.wakeConditions
  states agent := by
    rw [h'.states, h.states]
    by_cases hagent : agent = candidate.agentId
    · subst hagent
      simp [fresh]
    · simp [hagent]
  rest := by
    obtain ⟨h1, h2, h3, h4, h5, h6⟩ := h.rest
    obtain ⟨h1', h2', h3', h4', h5', h6'⟩ := h'.rest
    exact ⟨h1'.trans h1, h2'.trans h2, h3'.trans h3, h4'.trans h4, h5'.trans h5, h6'.trans h6⟩

/-- The activations of distinct agents that have none yet all begin. -/
theorem activateAll_activated {candidates : List ReadyCandidate}
    (nodup : (candidates.map ReadyCandidate.agentId).Nodup)
    (fresh : ∀ candidate ∈ candidates,
      candidate.agentId ∉ s.scheduler.activationsThisTick.map ReadyCandidate.agentId)
    (eligible : ∀ candidate ∈ candidates, ∀ event ∈ candidate.events,
      ⟨event, .eligible⟩ ∈ s.scheduler.events ∨ ⟨event, .claimed⟩ ∈ s.scheduler.events) :
    (s.activateAll candidates).2 = true ∧ s.Activated candidates (s.activateAll candidates).1 := by
  induction candidates generalizing s with
  | nil =>
    refine ⟨rfl, ⟨by simp [activateAll], nofun, fun _ hmem => hmem, Or.inl, rfl, rfl, fun agent => ?_, ?_⟩⟩
    · simp [activateAll]
    · exact ⟨rfl, rfl, rfl, rfl, rfl, rfl⟩
  | cons candidate rest ih =>
    rw [List.map_cons, List.nodup_cons] at nodup
    obtain ⟨t, hactivate, hone⟩ := activate_activated (fresh candidate List.mem_cons_self)
      (eligible candidate List.mem_cons_self)
    have hrest : (t.activateAll rest).2 = true ∧ t.Activated rest (t.activateAll rest).1 := by
      refine ih nodup.2 (fun other hother => ?_) (fun other hother event hevent => ?_)
      · rw [hone.activations, List.map_append, List.mem_append, not_or]
        refine ⟨fresh other (List.mem_cons_of_mem _ hother), ?_⟩
        rw [List.map_singleton, List.mem_singleton]
        rintro heq
        exact nodup.1 (heq ▸ List.mem_map_of_mem hother)
      · rcases eligible other (List.mem_cons_of_mem _ hother) event hevent with heligible | hclaimed
        · exact hone.eligible heligible
        · exact Or.inr (hone.kept (by simp) hclaimed)
    rw [activateAll, hactivate]
    exact ⟨hrest.1, hone.trans hrest.2 nodup.1⟩

/-- The events of agents within capacity stay eligible, those of the others go back to the queue. -/
theorem computeReadySet_events {d : AgentScheduler} {tick : ℕ} {states : String → Option AgentState}
    {urgency : String → Urgency} (nodup : d.ids.Nodup) {candidate : ReadyCandidate} {event : WakeupEvent}
    (hmem : candidate ∈ d.markEligible.candidates tick states urgency) (hevent : event ∈ candidate.events) :
    (candidate ∈ (d.computeReadySet tick states urgency).2 →
      ⟨event, .eligible⟩ ∈ (d.computeReadySet tick states urgency).1.events) ∧
    (candidate ∉ (d.computeReadySet tick states urgency).2 →
      ⟨event, .queued⟩ ∈ (d.computeReadySet tick states urgency).1.events) := by
  have hmarked : d.markEligible.ids.Nodup := by
    rw [AgentScheduler.markEligible, ids_restatus]
    exact nodup
  have hsplit := List.take_append_drop d.maxActiveAgentsPerTick (d.markEligible.candidates tick states urgency)
  obtain ⟨heligible, -, htarget⟩ := AgentScheduler.mem_candidate_events hmem hevent
  simp only [AgentScheduler.computeReadySet]
  constructor
  · intro hwithin
    refine AgentScheduler.mem_restatus_of_not heligible ?_
    simp only [decide_true, Bool.or_true, Bool.true_and, List.contains_eq_mem, decide_eq_false_iff_not]
    intro hid
    -- An event with this id is this event, so its candidate would be for the same agent.
    obtain ⟨other, hother, hids⟩ := List.mem_flatMap.mp hid
    obtain ⟨event', hevent', heq⟩ := List.mem_map.mp hids
    have hother' := List.mem_of_mem_drop hother
    obtain ⟨heligible', -, htarget'⟩ := AgentScheduler.mem_candidate_events hother' hevent'
    have hsame : (⟨event', .eligible⟩ : QueuedEvent) = ⟨event, .eligible⟩ :=
      List.inj_on_of_nodup_map hmarked heligible' heligible heq
    have hagent : other.agentId = candidate.agentId := by
      rw [← htarget, ← htarget', (QueuedEvent.mk.inj hsame).1]
    have hall := d.markEligible.nodup_candidates tick states urgency
    rw [← hsplit, List.map_append, List.nodup_append] at hall
    exact hall.2.2 _ (List.mem_map_of_mem hwithin) _ (List.mem_map_of_mem hother) hagent.symm
  · intro hbeyond
    refine AgentScheduler.mem_restatus_of_chosen heligible ?_
    have hdropped : candidate ∈ (d.markEligible.candidates tick states urgency).drop d.maxActiveAgentsPerTick := by
      rw [← hsplit, List.mem_append] at hmem
      exact hmem.resolve_left hbeyond
    simp only [decide_true, Bool.or_true, Bool.true_and, List.contains_eq_mem, decide_eq_true_eq]
    exact List.mem_flatMap.mpr ⟨candidate, hdropped, List.mem_map_of_mem hevent⟩

/-- The simulation of Schedule once the candidates are found. -/
def computed (s : Simulation) (urgency : String → Urgency) : Simulation :=
  { s with
    scheduler := (s.scheduler.computeReadySet s.tick s.agentStates urgency).1
    ready := (s.scheduler.computeReadySet s.tick s.agentStates urgency).2
    notices := [] }

/-- Schedule activates all candidates within capacity. -/
theorem Alert.schedule_activated (h : s.Alert) (hstage : s.stage = .schedule) (urgency : String → Urgency) :
    (s.schedule urgency).2 = true ∧
      (s.computed urgency).Activated (s.computed urgency).ready (s.schedule urgency).1 := by
  have hpoised := h.poised
  rw [hstage] at hpoised
  have hnone : (s.computed urgency).scheduler.activationsThisTick = [] := hpoised
  refine activateAll_activated (s := s.computed urgency) ?_ (fun candidate _ => ?_)
    (fun candidate hwithin event hevent => ?_)
  · exact (s.scheduler.markEligible.nodup_candidates s.tick s.agentStates urgency).sublist
      ((List.take_sublist _ _).map _)
  · rw [hnone]
    exact List.not_mem_nil
  · exact Or.inl ((computeReadySet_events h.nodup (List.mem_of_mem_take hwithin) hevent).1 hwithin)

/-- The lifecycle state of a candidate lets it be scheduled. -/
theorem candidate_schedulable {d : AgentScheduler} {tick : ℕ} {states : String → Option AgentState}
    {urgency : String → Urgency} {candidate : ReadyCandidate} (h : candidate ∈ d.candidates tick states urgency) :
    ∃ state, states candidate.agentId = some state ∧ state ∉ AgentState.unschedulable := by
  obtain ⟨⟨queued, -, hready, htarget⟩, -⟩ := AgentScheduler.mem_candidates.mp h
  unfold AgentScheduler.ready at hready
  rw [htarget] at hready
  cases hstate : states candidate.agentId with
  | none => simp [hstate] at hready
  | some state =>
    refine ⟨state, rfl, ?_⟩
    simp only [hstate, Bool.and_eq_true, decide_eq_true_eq] at hready
    exact hready.2.1

/-- A notice whose agent can be scheduled makes it a candidate. -/
theorem Alert.notice_candidate (h : s.Alert) {event : WakeupEvent} {state : AgentState} (urgency : String → Urgency)
    (hevent : event ∈ s.notices) (hstate : s.agentStates event.targetAgentId = some state)
    (schedulable : state ∉ AgentState.unschedulable) :
    ∃ candidate ∈ s.scheduler.markEligible.candidates s.tick s.agentStates urgency,
      candidate.agentId = event.targetAgentId ∧ event ∈ candidate.events := by
  obtain ⟨hqueued, htype, hvisible⟩ := h.noticed event hevent
  obtain ⟨eventTypes, hcondition, hregistered⟩ := h.known hstate
  refine AgentScheduler.exists_candidate (AgentScheduler.mem_restatus_of_chosen hqueued (by simp)) ?_
  have hcondition' : s.scheduler.markEligible.wakeConditions event.targetAgentId =
      some { eventTypes := eventTypes } := hcondition
  simp [AgentScheduler.ready, hstate, schedulable, hcondition', WakeCondition.matches, WakeCondition.allows, hvisible,
    htype, hregistered]

/-- Schedule. -/
theorem Alert.schedule (h : s.Alert) {urgency : String → Urgency} (hstage : s.stage = .schedule)
    (keeps : s.misses (.schedule urgency) = false) (stage : Stage)
    (hdecide : ∃ rest plans, stage = .decide rest plans) :
    Alert { (s.schedule urgency).1 with stage := stage } := by
  obtain ⟨-, hactivated⟩ := h.schedule_activated hstage urgency
  obtain ⟨hready, hnotices, hwaits, htick, hnext, hback⟩ := hactivated.rest
  have hpoised := h.poised
  rw [hstage] at hpoised
  have hids : (s.schedule urgency).1.scheduler.ids = s.scheduler.ids := by
    rw [hactivated.ids]
    change ((s.scheduler.markEligible).requeueEvents _).ids = _
    rw [AgentScheduler.requeueEvents, ids_restatus, AgentScheduler.markEligible, ids_restatus]
  have hprocessing (candidate : ReadyCandidate) (hwithin : candidate ∈ (s.computed urgency).ready) :
      (s.schedule urgency).1.agentStates candidate.agentId = some .processing := by
    obtain ⟨state, hstate, hschedulable⟩ := candidate_schedulable (List.mem_of_mem_take hwithin)
    rw [hactivated.states, if_pos (List.mem_map_of_mem hwithin)]
    have hsame : (s.computed urgency).agentStates candidate.agentId = some state := hstate
    rw [hsame, Option.map_some, AgentState.beginActivation_processing hschedulable]
    intro hunresumed
    simp only [misses, List.any_eq_false] at keeps
    exact keeps candidate hwithin (by simp [hstate, hunresumed])
  constructor
  case known =>
    intro agent state hstate
    have hold : ∃ state, s.agentStates agent = some state := by
      have hsome : (s.schedule urgency).1.agentStates agent = some state := hstate
      rw [hactivated.states] at hsome
      split at hsome
      · obtain ⟨old, hold, -⟩ := Option.map_eq_some_iff.mp hsome
        exact ⟨old, hold⟩
      · exact ⟨state, hsome⟩
    obtain ⟨old, hold⟩ := hold
    obtain ⟨eventTypes, hcondition, hregistered⟩ := h.known hold
    refine ⟨eventTypes, ?_, hregistered⟩
    change (s.schedule urgency).1.scheduler.wakeConditions agent = _
    rw [hactivated.wakeConditions]
    exact hcondition
  case nodup =>
    change (s.schedule urgency).1.scheduler.ids.Nodup
    rw [hids]
    exact h.nodup
  case below =>
    change ∀ id ∈ (s.schedule urgency).1.scheduler.ids, id < (s.schedule urgency).1.nextEventId
    rw [hids, hnext]
    exact h.below
  case noticed =>
    change ∀ event ∈ (s.schedule urgency).1.notices, _
    rw [hnotices]
    nofun
  case poised =>
    obtain ⟨rest, plans, rfl⟩ := hdecide
    change (s.schedule urgency).1.scheduler.Active (s.schedule urgency).1.ready ∧
      ∀ candidate ∈ (s.schedule urgency).1.ready, (s.schedule urgency).1.agentStates candidate.agentId = _
    rw [hready]
    have hnone : (s.computed urgency).scheduler.activationsThisTick = [] := hpoised
    refine ⟨⟨?_, ?_, hactivated.claimed⟩, hprocessing⟩
    · rw [hactivated.activations, hnone, List.nil_append]
    · exact (s.scheduler.markEligible.nodup_candidates s.tick s.agentStates urgency).sublist
        ((List.take_sublist _ _).map _)

/-- The activation of a ready agent is its candidate. -/
theorem activation_eq {candidate : ReadyCandidate} (activations : s.scheduler.activationsThisTick = s.ready)
    (nodup : (s.ready.map ReadyCandidate.agentId).Nodup) (hmem : candidate ∈ s.ready) :
    s.activation candidate.agentId = some candidate := by
  unfold activation
  rw [activations]
  cases hfind : s.ready.find? fun activation => activation.agentId == candidate.agentId with
  | none => exact absurd (List.find?_eq_none.mp hfind candidate hmem) (by simp)
  | some found =>
    have hagent : found.agentId = candidate.agentId := by simpa using List.find?_some hfind
    rw [List.inj_on_of_nodup_map nodup (List.mem_of_find?_eq_some hfind) hmem hagent]

/-- The end of an activation. -/
theorem Alert.conclude (h : s.Alert) {candidate : ReadyCandidate} {rest : List ReadyCandidate}
    (hstage : s.stage = .conclude (candidate :: rest)) :
    Alert { s.concludeActivation candidate with stage := .conclude rest } := by
  have hpoised := h.poised
  rw [hstage] at hpoised
  obtain ⟨hactivations, hnodup, hsubset, hevents, hstates⟩ := hpoised
  have hmem : candidate ∈ s.ready := hsubset List.mem_cons_self
  have hids : (s.scheduler.completeActivation candidate !s.lastTickRolledBack).ids = s.scheduler.ids := by
    unfold AgentScheduler.completeActivation
    dsimp only
    split <;> exact ids_restatus
  have hkept {event : WakeupEvent} {status : EventStatus} (hstatus : status ≠ .claimed)
      (hevent : ⟨event, status⟩ ∈ s.scheduler.events) :
      ⟨event, status⟩ ∈ (s.scheduler.completeActivation candidate !s.lastTickRolledBack).events := by
    unfold AgentScheduler.completeActivation
    dsimp only
    split <;> exact AgentScheduler.mem_restatus_of_not hevent (by simp [hstatus])
  have hconcluded (agent : String) : (s.concludeActivation candidate).agentStates agent =
      if agent = candidate.agentId then (s.agentStates agent).map AgentState.completeActivation
      else s.agentStates agent := by
    unfold concludeActivation
    rw [activation_eq hactivations hnodup hmem]
    by_cases hagent : agent = candidate.agentId
    · subst hagent
      cases hruntime : s.runtimes candidate.agentId <;> simp [agentStates, hruntime]
    · simp [agentStates, hagent]
  have hscheduler : (s.concludeActivation candidate).scheduler =
      s.scheduler.completeActivation candidate !s.lastTickRolledBack := by
    unfold concludeActivation
    rw [activation_eq hactivations hnodup hmem]
  have hrest : (s.concludeActivation candidate).nextEventId = s.nextEventId ∧
      (s.concludeActivation candidate).notices = s.notices ∧ (s.concludeActivation candidate).tick = s.tick ∧
      (s.concludeActivation candidate).ready = s.ready ∧ (s.concludeActivation candidate).waits = s.waits ∧
      (s.concludeActivation candidate).lastTickRolledBack = s.lastTickRolledBack := by
    unfold concludeActivation
    split <;> exact ⟨rfl, rfl, rfl, rfl, rfl, rfl⟩
  obtain ⟨hnext, hnotices, htick, hready, hwaits, hback⟩ := hrest
  constructor
  case known =>
    intro agent state hstate
    have hold : ∃ state, s.agentStates agent = some state := by
      have hsome : (s.concludeActivation candidate).agentStates agent = some state := hstate
      rw [hconcluded] at hsome
      split at hsome
      · obtain ⟨old, hold, -⟩ := Option.map_eq_some_iff.mp hsome
        exact ⟨old, hold⟩
      · exact ⟨state, hsome⟩
    obtain ⟨old, hold⟩ := hold
    obtain ⟨eventTypes, hcondition, hregistered⟩ := h.known hold
    refine ⟨eventTypes, ?_, hregistered⟩
    dsimp only
    rw [hscheduler]
    unfold AgentScheduler.completeActivation
    dsimp only
    split <;> exact hcondition
  case nodup =>
    dsimp only
    rw [hscheduler, hids]
    exact h.nodup
  case below =>
    dsimp only
    rw [hscheduler, hids, hnext]
    exact h.below
  case noticed =>
    intro event hevent
    dsimp only at hevent ⊢
    rw [hnotices] at hevent
    rw [hscheduler, htick]
    obtain ⟨hqueued, hrest⟩ := h.noticed event hevent
    exact ⟨hkept (by simp) hqueued, hrest⟩
  case poised =>
    dsimp only
    rw [hscheduler, hready, hwaits, hback]
    refine ⟨?_, hnodup, fun other hother => hsubset (List.mem_cons_of_mem _ hother), ?_, ?_⟩
    · unfold AgentScheduler.completeActivation
      dsimp only
      split <;> exact hactivations
    · intro hrolled other hother event hevent
      rcases hevents hrolled other hother event hevent with hclaimed | heligible
      · rw [hrolled]
        by_cases hid : event.eventId ∈ candidate.events.map WakeupEvent.eventId
        · exact Or.inr (AgentScheduler.mem_restatus_of_chosen hclaimed (by simpa using hid))
        · exact Or.inl (AgentScheduler.mem_restatus_of_not hclaimed (by simpa using hid))
      · exact Or.inr (hkept (by simp) heligible)
    · intro other hother hnot
      change _ ∧ (s.concludeActivation candidate).agentStates _ = _ ∨ (s.concludeActivation candidate).agentStates _ = _
      rw [hconcluded]
      by_cases hagent : other.agentId = candidate.agentId
      · rw [if_pos hagent]
        rcases hstates other hother hnot with ⟨-, hstate⟩ | hstate
        · exact Or.inr (by rw [hstate]; rfl)
        · exact Or.inr (by rw [hstate]; rfl)
      · rw [if_neg hagent]
        refine (hstates other hother hnot).imp_left fun ⟨hin, hstate⟩ => ⟨?_, hstate⟩
        refine (List.mem_cons.mp hin).resolve_left ?_
        rintro rfl
        exact hagent rfl

/-- After a rollback, the events of the tick's activations are queued again. -/
theorem Alert.requeued (h : s.Alert) (hstage : s.stage = .finish) (rolledBack : s.lastTickRolledBack = true)
    {candidate : ReadyCandidate} (hmem : candidate ∈ s.ready) {event : WakeupEvent}
    (hevent : event ∈ candidate.events) :
    ⟨event, .queued⟩ ∈ s.finishTick.scheduler.events := by
  have hpoised := h.poised
  rw [hstage] at hpoised
  obtain ⟨hactivations, hnodup, hevents, -⟩ := hpoised
  unfold finishTick
  dsimp only
  rw [if_pos rolledBack]
  refine AgentScheduler.mem_restatus_of_not ?_ (by simp)
  have hid : event.eventId ∈ AgentScheduler.eventIds (s.ready.filterMap fun candidate =>
      s.activation candidate.agentId) := by
    refine List.mem_flatMap.mpr ⟨candidate, List.mem_filterMap.mpr ⟨candidate, hmem, ?_⟩, List.mem_map_of_mem hevent⟩
    exact activation_eq hactivations hnodup hmem
  rcases hevents rolledBack candidate hmem event hevent with hclaimed | heligible
  · exact AgentScheduler.mem_restatus_of_chosen hclaimed (by simpa using hid)
  · exact AgentScheduler.mem_restatus_of_chosen heligible (by simpa using hid)

/-- The end of a tick. -/
theorem Alert.finish (h : s.Alert) : s.finishTick.Alert := by
  have hids : s.finishTick.scheduler.ids = s.scheduler.ids := by
    unfold finishTick
    dsimp only
    change (AgentScheduler.restatus _ _ _).ids = _
    rw [ids_restatus]
    split
    · exact ids_restatus
    · rfl
  have hkept {event : WakeupEvent} (hevent : ⟨event, .queued⟩ ∈ s.scheduler.events) :
      ⟨event, .queued⟩ ∈ s.finishTick.scheduler.events := by
    unfold finishTick
    dsimp only
    refine AgentScheduler.mem_restatus_of_not ?_ (by simp)
    split
    · exact AgentScheduler.mem_restatus_of_not hevent (by simp)
    · exact hevent
  constructor
  case known =>
    intro agent state hstate
    obtain ⟨eventTypes, hcondition, hregistered⟩ := h.known hstate
    refine ⟨eventTypes, ?_, hregistered⟩
    unfold finishTick
    dsimp only
    split <;> exact hcondition
  case nodup =>
    rw [hids]
    exact h.nodup
  case below =>
    rw [hids]
    exact h.below
  case noticed =>
    intro event hevent
    obtain ⟨hqueued, htype, hvisible⟩ := h.noticed event hevent
    refine ⟨hkept hqueued, htype, hvisible.trans ?_⟩
    unfold finishTick
    dsimp only
    split
    · exact le_rfl
    · exact Nat.le_succ _
  case poised => rfl

/-- A move that misses nothing keeps the queue and the activations in order. -/
theorem Alert.step (h : s.Alert) (keeps : s.misses move = false) (moves : s.step move = some t) : t.Alert := by
  have hpoised := h.poised
  cases move with
  | complete id result => cases moves; exact h.still rfl rfl rfl rfl rfl hpoised
  | fail id error => cases moves; exact h.still rfl rfl rfl rfl rfl hpoised
  | claim id => cases moves; exact h.still rfl rfl rfl rfl rfl hpoised
  | cancel id => cases moves; exact h.cancel keeps
  | wake event => cases moves; exact h.enqueue rfl rfl rfl rfl rfl (Or.inl rfl) hpoised
  | route => cases moves; exact h.still rfl rfl rfl rfl rfl hpoised
  | pause => cases moves; exact h.still rfl rfl rfl rfl rfl hpoised
  | resume => cases moves; exact h.still rfl rfl rfl rfl rfl hpoised
  | start =>
    obtain ⟨hstage, hstep⟩ := Option.ite_none_right_eq_some.mp moves
    cases hstep
    rw [hstage.1] at hpoised
    exact h.still rfl rfl rfl rfl rfl hpoised
  | ingest => exact h.ingest keeps moves
  | receipt id result =>
    obtain ⟨-, hstep⟩ := Option.ite_none_right_eq_some.mp moves
    cases hstep
    unfold receipt
    split <;> exact h.still rfl rfl rfl rfl rfl hpoised
  | schedule urgency =>
    obtain ⟨hstage, hstep⟩ := Option.ite_none_right_eq_some.mp moves
    cases hstep
    refine h.schedule hstage keeps _ ?_
    rw [if_pos (h.schedule_activated hstage urgency).1]
    exact ⟨_, _, rfl⟩
  | decide gate intents =>
    unfold Simulation.step at moves
    dsimp only at moves
    split at moves <;> cases moves
    next hstage =>
      rw [hstage] at hpoised
      exact h.still rfl rfl rfl rfl rfl ⟨hpoised.1, fun candidate hmem _ => hpoised.2 candidate hmem⟩
    next agent rest plans hstage =>
      rw [hstage] at hpoised
      have hstates : (s.decideIntents agent gate).agentStates = s.agentStates := agentStates_resume
      exact h.still rfl hstates rfl rfl rfl hpoised
  | act written => exact h.act moves
  | commit rolledBack =>
    obtain ⟨hstage, hstep⟩ := Option.ite_none_right_eq_some.mp moves
    rw [hstage] at hpoised
    cases rolledBack with
    | true =>
      cases hstep
      refine h.still rfl ?_ rfl rfl rfl hpoised
      funext agent
      unfold agentStates rollback
      dsimp only
      split
      · rfl
      · rw [Option.map_map]
        rfl
    | false =>
      cases hstep
      exact h.still rfl rfl rfl rfl rfl hpoised
  | publish =>
    obtain ⟨hstage, hstep⟩ := Option.ite_none_right_eq_some.mp moves
    cases hstep
    rw [hstage] at hpoised
    obtain ⟨hactive, hstates⟩ := hpoised
    refine h.still rfl rfl rfl rfl rfl ⟨hactive.activations, hactive.nodup, List.Subset.refl _, ?_, ?_⟩
    · exact fun _ candidate hmem event hevent => Or.inl (hactive.claimed candidate hmem event hevent)
    · exact fun candidate hmem hnot => Or.inl ⟨hmem, hstates candidate hmem hnot⟩
  | conclude =>
    unfold Simulation.step at moves
    dsimp only at moves
    split at moves <;> cases moves
    next hstage =>
      rw [hstage] at hpoised
      obtain ⟨hactivations, hnodup, -, hevents, hstates⟩ := hpoised
      refine h.still rfl rfl rfl rfl rfl ⟨hactivations, hnodup, hevents, fun candidate hmem hnot => ?_⟩
      exact (hstates candidate hmem hnot).resolve_left fun hin => List.not_mem_nil hin.1
    next hstage => exact h.conclude hstage
    next => exact h.finish
  | crash => simp [misses] at keeps

/-- What is owed to the agents in a move: whatever is written is from an operation, with a new wake event; the event
has its place in the next Schedule; it returns after a rollback; and waiting ends. -/
structure Woken (s : Simulation) (move : Move) (t : Simulation) : Prop where
  silent : (∀ id, ¬s.Delivers id move) → ∀ agent c c', s.continuation agent = some c → t.continuation agent = some c' →
    c.Keeps c'
  written : ∀ id, s.Delivers id move → ∃ event ∈ t.notices, event.eventId = s.nextEventId ∧
    event.targetAgentId = (s.registry.op id).agentId ∧ ⟨event, .queued⟩ ∈ t.scheduler.events
  scheduled : ∀ urgency, move = .schedule urgency → ∀ event ∈ s.notices, ∀ state,
    s.agentStates event.targetAgentId = some state → state ∉ AgentState.unschedulable →
      (∃ activation ∈ t.scheduler.activationsThisTick, activation.agentId = event.targetAgentId ∧
        event ∈ activation.events) ∨ ⟨event, .queued⟩ ∈ t.scheduler.events
  requeued : s.stage = .finish → move = .conclude → s.lastTickRolledBack = true →
    ∀ activation ∈ s.scheduler.activationsThisTick, ∀ event ∈ activation.events, ⟨event, .queued⟩ ∈ t.scheduler.events
  idle : s.stage = .finish → move = .conclude → s.lastTickRolledBack = false →
    ∀ activation ∈ s.scheduler.activationsThisTick, activation.agentId ∉ s.waits →
      t.agentStates activation.agentId = some .idle

/-- Nothing is written but about an operation. -/
theorem Turn.silent (h : Turn s move t) (quiet : ∀ id, ¬s.Delivers id move) {agent : String} {c c' : AgentContinuation}
    (before : s.continuation agent = some c) (after : t.continuation agent = some c') : c.Keeps c' := by
  have hsame (hcontinuation : t.continuation = s.continuation) : c.Keeps c' := by
    rw [hcontinuation, before] at after
    cases after
    exact AgentContinuation.Keeps.refl c
  cases h with
  | settle _ hcontinuation => exact hsame hcontinuation
  | leave id _ hcontinuation =>
    rcases hcontinuation with ⟨hdelivers, -⟩ | ⟨-, hcontinuation⟩
    · exact absurd hdelivers (quiet id)
    · exact hsame hcontinuation
  | submit other op d d' known _ _ _ results hcontinuation =>
    rw [hcontinuation] at after
    by_cases hagent : agent = other
    · subst hagent
      rw [known] at before
      rw [Function.update_self] at after
      cases before
      cases after
      exact results
    · rw [Function.update_of_ne hagent, before] at after
      cases after
      exact AgentContinuation.Keeps.refl c
  | orphan _ _ hcontinuation => exact hsame hcontinuation
  | think other f _ results _ _ hcontinuation =>
    rw [hcontinuation] at after
    by_cases hagent : agent = other
    · subst hagent
      rw [Function.update_self, before] at after
      cases after
      exact results c
    · rw [Function.update_of_ne hagent, before] at after
      cases after
      exact AgentContinuation.Keeps.refl c
  | rollback _ back =>
    subst back
    obtain ⟨runtime, hruntime, rfl⟩ := Option.map_eq_some_iff.mp before
    have hafter : (s.rollback.runtimes agent).map AgentRuntimeState.continuation = some c' := after
    unfold Simulation.rollback at hafter
    dsimp only at hafter
    rw [hruntime] at hafter
    split at hafter
    · cases hafter
      exact AgentContinuation.Keeps.refl _
    · cases hafter
      exact ⟨Or.inl rfl, Or.inl rfl⟩

/-- What is written comes with a new wake event in the queue. -/
theorem Delivers.event (h : s.Delivers id move) (moves : s.step move = some t) : ∃ event ∈ t.notices,
    event.eventId = s.nextEventId ∧ event.targetAgentId = (s.registry.op id).agentId ∧
      ⟨event, .queued⟩ ∈ t.scheduler.events := by
  have hawaits := h.awaits
  have hevent (u : Simulation) (hnext : u.nextEventId = s.nextEventId)
      (hagent : (u.registry.op id).agentId = (s.registry.op id).agentId)
      (hnotices : t.notices = u.notices ++ [u.resultWake id])
      (hscheduler : t.scheduler = u.scheduler.enqueueEvent (u.resultWake id)) : ∃ event ∈ t.notices,
      event.eventId = s.nextEventId ∧ event.targetAgentId = (s.registry.op id).agentId ∧
        ⟨event, .queued⟩ ∈ t.scheduler.events := by
    refine ⟨u.resultWake id, ?_, hnext, hagent, ?_⟩
    · rw [hnotices]
      exact List.mem_append_right _ (List.mem_singleton_self _)
    · rw [hscheduler]
      exact List.mem_append_right _ (List.mem_singleton_self _)
  cases move with
  | cancel cancelled =>
    obtain ⟨rfl, hmem, hflight, -⟩ := h
    cases moves
    have hsettles : s.registry.Settles (s.registry.edit cancelled fun op => { op with status := .cancelled }) :=
      PendingOperationRegistry.edit_settles rfl
    have hedited : Awaits { s with
        registry := s.registry.edit cancelled fun op => { op with status := .cancelled } } cancelled :=
      (awaits_settled hsettles).mpr hawaits
    refine hevent { s with registry := s.registry.edit cancelled fun op => { op with status := .cancelled } } rfl
      (hsettles.agentId cancelled) ?_ ?_
    · simp only [cancelOperation, PendingOperationRegistry.cancel, hmem, hflight, and_self, if_true, notify, hedited]
      rfl
    · simp only [cancelOperation, PendingOperationRegistry.cancel, hmem, hflight, and_self, if_true, notify, hedited]
      rfl
  | ingest =>
    obtain ⟨-, hstage⟩ := h
    simp only [step, ingest] at moves
    split at hstage
    next hat =>
      subst hstage
      rw [hat] at moves
      cases moves
      refine hevent s rfl rfl ?_ ?_ <;> simp only [expireOperation, notify, hawaits, if_true] <;> rfl
    next hat =>
      subst hstage
      rw [hat] at moves
      cases moves
      refine hevent s rfl rfl ?_ ?_ <;> simp only [failOperation, notify, hawaits, if_true] <;> rfl
    next hat =>
      obtain ⟨rfl, hepoch⟩ := hstage
      rw [hat] at moves
      cases moves
      refine hevent s rfl rfl ?_ ?_ <;> simp [completeOperation, hepoch, hawaits] <;> rfl
    next hat =>
      subst hstage
      rw [hat] at moves
      cases moves
      refine hevent s rfl rfl ?_ ?_ <;> simp only [receiptOperation, hawaits, if_true] <;> rfl
    next => exact hstage.elim
  | _ => exact h.elim

/-- Schedule activates the agent of a notice with it, or keeps it queued. -/
theorem Alert.scheduled (h : s.Alert) {urgency : String → Urgency} (hstage : s.stage = .schedule)
    {event : WakeupEvent} {state : AgentState} (hevent : event ∈ s.notices)
    (hstate : s.agentStates event.targetAgentId = some state) (schedulable : state ∉ AgentState.unschedulable) :
    (∃ activation ∈ (s.schedule urgency).1.scheduler.activationsThisTick,
      activation.agentId = event.targetAgentId ∧ event ∈ activation.events) ∨
        ⟨event, .queued⟩ ∈ (s.schedule urgency).1.scheduler.events := by
  obtain ⟨candidate, hcandidate, hagent, hmem⟩ := h.notice_candidate urgency hevent hstate schedulable
  obtain ⟨-, hactivated⟩ := h.schedule_activated hstage urgency
  obtain ⟨-, hbeyond⟩ := computeReadySet_events h.nodup hcandidate hmem
  by_cases hwithin : candidate ∈ (s.computed urgency).ready
  · refine Or.inl ⟨candidate, ?_, hagent, hmem⟩
    rw [hactivated.activations]
    exact List.mem_append_right _ hwithin
  · exact Or.inr (hactivated.kept (by simp) (hbeyond hwithin))

/-- A move that misses nothing gives the agents what is owed to them. -/
theorem Alert.woken (h : s.Alert) (moves : s.step move = some t) : Woken s move t := by
  have hpoised := h.poised
  constructor
  case silent => exact fun quiet agent c c' before after => (step_turn moves).silent quiet before after
  case written => exact fun id hdelivers => hdelivers.event moves
  case scheduled =>
    rintro urgency rfl event hevent state hstate hschedulable
    obtain ⟨hstage, hstep⟩ := Option.ite_none_right_eq_some.mp moves
    cases hstep
    exact h.scheduled hstage hevent hstate hschedulable
  case requeued =>
    rintro hstage rfl hrolled activation hactivation event hevent
    rw [hstage] at hpoised
    simp only [Simulation.step, hstage] at moves
    cases moves
    rw [hpoised.1] at hactivation
    exact h.requeued hstage hrolled hactivation hevent
  case idle =>
    rintro hstage rfl - activation hactivation hwaits
    rw [hstage] at hpoised
    simp only [Simulation.step, hstage] at moves
    cases moves
    obtain ⟨hactivations, -, -, hstates⟩ := hpoised
    rw [hactivations] at hactivation
    exact hstates activation hactivation hwaits

variable {agents : List String} {bootstrap human : String → Bool} {route : String → Route}
  {maxConcurrentLlmRequests maxActiveAgentsPerTick : ℕ}

/-- A simulation that was just set up is in order. -/
theorem alert_initial :
    (initial agents bootstrap human route maxConcurrentLlmRequests maxActiveAgentsPerTick).Alert where
  known {agent state} hstate := by
    have hmem : agent ∈ agents := by
      by_contra hnot
      simp [initial, agentStates, hnot] at hstate
    exact ⟨_, if_pos hmem, by simp⟩
  nodup := List.nodup_nil
  below := nofun
  noticed := nofun
  poised := rfl

/-- No wake-up is lost in a run without a move that misses one. -/
theorem wakeups_kept {agents : List String} {bootstrap human : String → Bool} {route : String → Route}
    {maxConcurrentLlmRequests maxActiveAgentsPerTick : ℕ} {s t : Simulation} {move : Move}
    (reached : Reaches step (fun s move => s.misses move = false)
      (initial agents bootstrap human route maxConcurrentLlmRequests maxActiveAgentsPerTick) s)
    (moves : s.step move = some t) : Woken s move t := by
  have halert : s.Alert := reached.invariant alert_initial fun h keeps moves => h.step keeps moves
  exact halert.woken moves

/-- The answer of the model wakes the agent that asked: Schedule activates it with the event of the answer. -/
theorem wakeups_kept_answer : ∃ s t, Reaches step (fun s move => s.misses move = false) twoWorkers s ∧
    s.step (.schedule fun _ => ⟨-1, none⟩) = some t ∧
    s.notices.map WakeupEvent.targetAgentId = ["a"] ∧ Woken s (.schedule fun _ => ⟨-1, none⟩) t := by
  have hrun : (follow (within step fun s move => s.misses move = false) twoWorkers
      (asked ++ .complete 0 [] :: Move.opening ++ [.ingest])).map (fun s =>
        (s.notices.map WakeupEvent.targetAgentId, (s.step (.schedule fun _ => ⟨-1, none⟩)).isSome)) =
          some (["a"], true) := by
    decide +kernel
  obtain ⟨s, hs, hend⟩ := Option.map_eq_some_iff.mp hrun
  obtain ⟨hnotices, hsome⟩ := Prod.mk.inj hend
  obtain ⟨t, ht⟩ := Option.isSome_iff_exists.mp hsome
  exact ⟨s, t, .of_follow hs, ht, hnotices, wakeups_kept (.of_follow hs) ht⟩

/-- The receipt of an outside platform wakes nobody: no agent is registered for such an event. -/
theorem receipt_wakes_nobody : ¬∀ (agents : List String) (bootstrap human : String → Bool) (route : String → Route)
    (requests active : ℕ) (s t : Simulation) (move : Move),
    Reaches step (fun _ _ => True) (initial agents bootstrap human route requests active) s →
      s.step move = some t → Woken s move t := by
  intro h
  have hrun : (follow (within step fun _ _ => True) twoAgents (requested ++ receiptArrives ++ [.ingest])).map (fun s =>
      (s.notices.map fun event => (event.targetAgentId, s.agentStates event.targetAgentId),
        (s.step (.schedule fun _ => ⟨-1, none⟩)).map fun t =>
          (t.scheduler.activationsThisTick, t.scheduler.events.map QueuedEvent.status))) =
        some ([("a", some .waitingForExternal)], some ([], [.consumed, .eligible])) := by
    decide +kernel
  obtain ⟨s, hs, hend⟩ := Option.map_eq_some_iff.mp hrun
  obtain ⟨hnotices, ht⟩ := Prod.mk.inj hend
  obtain ⟨t, ht, hevents⟩ := Option.map_eq_some_iff.mp ht
  obtain ⟨hactivations, hstatus⟩ := Prod.mk.inj hevents
  obtain ⟨event, hevent, hagent⟩ := List.map_eq_singleton_iff.mp hnotices
  have hmem : event ∈ s.notices := hevent ▸ List.mem_singleton_self event
  rcases (h _ _ _ _ _ _ s t _ (.of_follow hs) ht).scheduled _ rfl event hmem .waitingForExternal
    ((Prod.mk.inj hagent).1 ▸ (Prod.mk.inj hagent).2) (by decide) with ⟨activation, hactivation, -⟩ | hqueued
  · rw [hactivations] at hactivation
    cases hactivation
  · have hlisted : EventStatus.queued ∈ t.scheduler.events.map QueuedEvent.status := List.mem_map_of_mem hqueued
    rw [hstatus] at hlisted
    exact absurd hlisted (by decide)

end Simulation

end MyTeam.Legacy
