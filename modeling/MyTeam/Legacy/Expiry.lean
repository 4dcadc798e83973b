import MyTeam.Async.Course
import MyTeam.Legacy.Scheduler

/-!
# The lives of wake events

Each tick, all queued events become eligible, also those that are not visible yet, and what is still
eligible at the end of the tick expires. An event is not lost before its time when nothing invisible
is in the queue as the candidates are computed. An event that is consumed stays so, and only the
activation of its agent consumes it.
-/

namespace MyTeam.Legacy

open MyTeam.Async

/-- An event as `enqueue_event` takes it, which sets the tick from which it is visible if that is negative. -/
def WakeupEvent.visibleAt (event : WakeupEvent) (visibleAtTick : ℤ) : WakeupEvent :=
  { event with visibleAtTick := if visibleAtTick < 0 then event.tick + 1 else visibleAtTick.toNat }

/-- A scheduler in use: the tick of the last candidates, the events cut by capacity since the last tick ended, and the
events consumed so far, each with the agent whose activation consumed it. -/
structure Agenda where
  scheduler : AgentScheduler
  tick : ℕ := 0
  cut : List WakeupEvent := []
  consumptions : List (WakeupEvent × String) := []

/-- A call of the scheduler. The activation that is completed is given by its agent. -/
inductive SchedulerCall
  | enqueueEvent (event : WakeupEvent) (visibleAtTick : ℤ)
  | computeReadySet (tick : ℕ) (states : String → Option AgentState) (urgency : String → Urgency)
  | beginActivation (candidate : ReadyCandidate)
  | completeActivation (agent : String) (success : Bool)
  | requeueEvents (ids : List ℕ)
  | endTick

namespace AgentScheduler

/-- The candidates over capacity. -/
def overflow (d : AgentScheduler) (tick : ℕ) (states : String → Option AgentState) (urgency : String → Urgency) :
    List ReadyCandidate :=
  (d.markEligible.candidates tick states urgency).drop d.maxActiveAgentsPerTick

/-- The events that an activation consumes when it succeeds. -/
def consumed (d : AgentScheduler) (activation : ReadyCandidate) : List WakeupEvent :=
  (d.events.filter fun queued => decide (queued.status = .claimed) &&
    (activation.events.map WakeupEvent.eventId).contains queued.event.eventId).map QueuedEvent.event

end AgentScheduler

namespace Agenda

/-- The agenda after a call. A call that raises changes nothing. -/
def step (agenda : Agenda) : SchedulerCall → Agenda
  | .enqueueEvent event visibleAtTick =>
    { agenda with scheduler := agenda.scheduler.enqueueEvent (event.visibleAt visibleAtTick) }
  | .computeReadySet tick states urgency =>
    { agenda with
      scheduler := (agenda.scheduler.computeReadySet tick states urgency).1
      tick := tick
      cut := agenda.cut ++ (agenda.scheduler.overflow tick states urgency).flatMap ReadyCandidate.events }
  | .beginActivation candidate =>
    match agenda.scheduler.beginActivation candidate with
    | some scheduler => { agenda with scheduler := scheduler }
    | none => agenda
  | .completeActivation agent success =>
    match agenda.scheduler.activationsThisTick.find? fun activation => activation.agentId = agent with
    | none => agenda
    | some activation =>
      { agenda with
        scheduler := agenda.scheduler.completeActivation activation success
        consumptions := agenda.consumptions ++
          if success then (agenda.scheduler.consumed activation).map fun event => (event, activation.agentId) else [] }
  | .requeueEvents ids => { agenda with scheduler := agenda.scheduler.requeueEvents ids }
  | .endTick => { agenda with scheduler := agenda.scheduler.endTick, cut := [] }

/-- No agent has two activations in the tick, and every event was consumed once, by the activation of its agent. -/
structure Sound (agenda : Agenda) : Prop where
  activations : (agenda.scheduler.activationsThisTick.map ReadyCandidate.agentId).Nodup
  once : (agenda.consumptions.map fun consumption => consumption.1.eventId).Nodup
  owned : ∀ consumption ∈ agenda.consumptions, consumption.2 = consumption.1.targetAgentId

/-- An event expires in no tick before it is visible, and what was cut by capacity is queued after the end of a tick. -/
def Timely (agenda : Agenda) (call : SchedulerCall) : Prop :=
  (∀ event, ⟨event, .expired⟩ ∈ (agenda.step call).scheduler.events → ⟨event, .expired⟩ ∉ agenda.scheduler.events →
    event.visibleAtTick ≤ agenda.tick) ∧
    (call = .endTick → ∀ event ∈ agenda.cut, ⟨event, .queued⟩ ∈ (agenda.step call).scheduler.events)

/-- A call as it should be: the ids of events do not repeat, ticks do not go back, an activation is begun with events
that were enqueued for its agent; and when candidates are computed, everything in the queue is visible, and nothing has
been cut in the tick. -/
def Regular (agenda : Agenda) : SchedulerCall → Prop
  | .enqueueEvent event _ => event.eventId ∉ agenda.scheduler.events.map fun queued => queued.event.eventId
  | .computeReadySet tick _ _ => agenda.tick ≤ tick ∧ agenda.cut = [] ∧
      ∀ queued ∈ agenda.scheduler.events, queued.status = .queued → queued.event.visibleAtTick ≤ tick
  | .beginActivation candidate => ∀ event ∈ candidate.events,
      event ∈ agenda.scheduler.events.map QueuedEvent.event ∧ event.targetAgentId = candidate.agentId
  | _ => True

/-- What holds in every state of a regular course. -/
structure Kept (agenda : Agenda) : Prop extends agenda.Sound where
  ids : (agenda.scheduler.events.map fun queued => queued.event.eventId).Nodup
  visible : ∀ queued ∈ agenda.scheduler.events, queued.status = .eligible ∨ queued.status = .claimed →
    queued.event.visibleAtTick ≤ agenda.tick
  queued : ∀ event ∈ agenda.cut, ⟨event, .queued⟩ ∈ agenda.scheduler.events
  begun : ∀ activation ∈ agenda.scheduler.activationsThisTick, ∀ event ∈ activation.events,
    event ∈ agenda.scheduler.events.map QueuedEvent.event ∧ event.targetAgentId = activation.agentId
  final : ∀ consumption ∈ agenda.consumptions, ⟨consumption.1, .consumed⟩ ∈ agenda.scheduler.events

end Agenda

namespace AgentScheduler

variable {d : AgentScheduler} {chosen : QueuedEvent → Bool} {status : EventStatus} {event : WakeupEvent}

/-- An event after statuses were changed: it was chosen, or its status is that before. -/
theorem mem_restatus {queued : QueuedEvent} (hmem : queued ∈ (d.restatus chosen status).events) :
    (∃ before ∈ d.events, chosen before = true ∧ queued = { before with status := status }) ∨
      queued ∈ d.events ∧ chosen queued = false := by
  obtain ⟨before, hbefore, rfl⟩ := List.mem_map.mp hmem
  by_cases hchosen : chosen before = true
  · rw [if_pos hchosen]
    exact Or.inl ⟨before, hbefore, hchosen, rfl⟩
  · rw [if_neg hchosen]
    exact Or.inr ⟨hbefore, by simpa using hchosen⟩

/-- Changing statuses changes no ids. -/
theorem eventIds_restatus : ((d.restatus chosen status).events.map fun queued => queued.event.eventId) =
    d.events.map fun queued => queued.event.eventId := by
  have hids (e : AgentScheduler) : (e.events.map fun queued => queued.event.eventId) =
      (e.events.map QueuedEvent.event).map WakeupEvent.eventId := by
    rw [List.map_map]
    rfl
  rw [hids, hids, restatus_events]

/-- An event has one status when ids do not repeat. -/
theorem status_unique (ids : (d.events.map fun queued => queued.event.eventId).Nodup) {first second : QueuedEvent}
    (hfirst : first ∈ d.events) (hsecond : second ∈ d.events) (same : first.event.eventId = second.event.eventId) :
    first = second :=
  List.inj_on_of_nodup_map ids hfirst hsecond same

/-- No event expires by a change to another status. -/
theorem expired_of_restatus (other : status ≠ .expired) (hmem : ⟨event, .expired⟩ ∈ (d.restatus chosen status).events) :
    ⟨event, .expired⟩ ∈ d.events := by
  rcases mem_restatus hmem with ⟨before, -, -, hsame⟩ | ⟨hold, -⟩
  · exact absurd (congrArg QueuedEvent.status hsame).symm other
  · exact hold

end AgentScheduler

namespace Agenda

open AgentScheduler

variable {agenda : Agenda} {call : SchedulerCall}

/-- A change of eligible and claimed events is kept. -/
theorem Kept.restatus (kept : agenda.Kept) {chosen : QueuedEvent → Bool} {status : EventStatus}
    (active : ∀ queued, chosen queued = true → queued.status = .eligible ∨ queued.status = .claimed) :
    Kept { agenda with scheduler := agenda.scheduler.restatus chosen status } := by
  have hother {event : WakeupEvent} {other : EventStatus} (hevent : ⟨event, other⟩ ∈ agenda.scheduler.events)
      (hother : other ≠ .eligible ∧ other ≠ .claimed) :
      ⟨event, other⟩ ∈ (agenda.scheduler.restatus chosen status).events := by
    refine mem_restatus_of_not hevent (Bool.eq_false_iff.mpr fun hchosen => ?_)
    rcases active _ hchosen with h | h
    · exact hother.1 h
    · exact hother.2 h
  constructor
  case toSound => exact ⟨kept.activations, kept.once, kept.owned⟩
  case ids =>
    dsimp only
    rw [eventIds_restatus]
    exact kept.ids
  case visible =>
    intro queued hmem hstatus
    rcases mem_restatus hmem with ⟨before, hbefore, hchosen, rfl⟩ | ⟨hold, -⟩
    · exact kept.visible before hbefore (active before hchosen)
    · exact kept.visible queued hold hstatus
  case queued => exact fun event hevent => hother (kept.queued event hevent) ⟨by simp, by simp⟩
  case begun =>
    dsimp only
    rw [restatus_events]
    exact kept.begun
  case final => exact fun consumption hmem => hother (kept.final consumption hmem) ⟨by simp, by simp⟩

/-- A new event is kept. -/
theorem Kept.enqueueEvent (kept : agenda.Kept) {event : WakeupEvent} {visibleAtTick : ℤ}
    (regular : agenda.Regular (.enqueueEvent event visibleAtTick)) :
    (agenda.step (.enqueueEvent event visibleAtTick)).Kept := by
  constructor
  case toSound => exact ⟨kept.activations, kept.once, kept.owned⟩
  case ids =>
    have hids : ((agenda.step (.enqueueEvent event visibleAtTick)).scheduler.events.map fun queued =>
      queued.event.eventId) =
        (agenda.scheduler.events.map fun queued => queued.event.eventId) ++ [event.eventId] := by
      simp [step, AgentScheduler.enqueueEvent, WakeupEvent.visibleAt]
    rw [hids, List.nodup_append]
    refine ⟨kept.ids, by simp, fun id hid other hother => ?_⟩
    rw [List.mem_singleton.mp hother]
    exact fun hsame => regular (hsame ▸ hid)
  case visible =>
    intro queued hmem hstatus
    rcases List.mem_append.mp hmem with hold | hnew
    · exact kept.visible queued hold hstatus
    · rw [List.mem_singleton.mp hnew] at hstatus
      simp at hstatus
  case queued => exact fun cut hcut => List.mem_append_left _ (kept.queued cut hcut)
  case begun =>
    intro activation hactivation wake hwake
    obtain ⟨hmem, htarget⟩ := kept.begun activation hactivation wake hwake
    refine ⟨?_, htarget⟩
    change wake ∈ (agenda.scheduler.events ++ _).map QueuedEvent.event
    rw [List.map_append]
    exact List.mem_append_left _ hmem
  case final => exact fun consumption hmem => List.mem_append_left _ (kept.final consumption hmem)

/-- Candidates are computed, and what is over capacity goes back into the queue. -/
theorem Kept.computeReadySet (kept : agenda.Kept) {tick : ℕ} {states : String → Option AgentState}
    {urgency : String → Urgency} (regular : agenda.Regular (.computeReadySet tick states urgency)) :
    (agenda.step (.computeReadySet tick states urgency)).Kept := by
  obtain ⟨hticks, hcut, hvisible⟩ := regular
  -- First all queued events become eligible, which they may because they are visible.
  have hmarked : Kept { agenda with scheduler := agenda.scheduler.markEligible, tick := tick } := by
    have hother {event : WakeupEvent} {other : EventStatus} (hevent : ⟨event, other⟩ ∈ agenda.scheduler.events)
        (hother : other ≠ .queued) : ⟨event, other⟩ ∈ agenda.scheduler.markEligible.events :=
      mem_restatus_of_not hevent (by simpa using hother)
    constructor
    case toSound => exact ⟨kept.activations, kept.once, kept.owned⟩
    case ids =>
      dsimp only
      rw [markEligible, eventIds_restatus]
      exact kept.ids
    case visible =>
      intro queued hmem hstatus
      rcases mem_restatus hmem with ⟨before, hbefore, hchosen, rfl⟩ | ⟨hold, -⟩
      · exact hvisible before hbefore (by simpa using hchosen)
      · exact (kept.visible queued hold hstatus).trans hticks
    case queued =>
      rw [hcut]
      exact fun event hevent => nomatch hevent
    case begun =>
      dsimp only
      rw [markEligible, restatus_events]
      exact kept.begun
    case final => exact fun consumption hmem => hother (kept.final consumption hmem) (by simp)
  have hrequeued : Kept { agenda with
      scheduler := agenda.scheduler.markEligible.requeueEvents
        (eventIds (agenda.scheduler.overflow tick states urgency))
      tick := tick } :=
    hmarked.restatus fun queued hchosen => by
      simp only [Bool.and_eq_true, Bool.or_eq_true, decide_eq_true_eq] at hchosen
      exact hchosen.1.symm
  constructor
  case toSound => exact ⟨kept.activations, kept.once, kept.owned⟩
  case ids => exact hrequeued.ids
  case visible => exact hrequeued.visible
  case queued =>
    intro event hevent
    change event ∈ agenda.cut ++ _ at hevent
    rw [hcut, List.nil_append, List.mem_flatMap] at hevent
    obtain ⟨candidate, hcandidate, hmem⟩ := hevent
    obtain ⟨heligible, -, -⟩ := mem_candidate_events (List.mem_of_mem_drop hcandidate) hmem
    refine mem_restatus_of_chosen heligible ?_
    have hid : event.eventId ∈ eventIds (agenda.scheduler.overflow tick states urgency) :=
      List.mem_flatMap.mpr ⟨candidate, hcandidate, List.mem_map_of_mem hmem⟩
    simpa [AgentScheduler.overflow] using hid
  case begun => exact hrequeued.begun
  case final => exact hrequeued.final

/-- An activation is begun. -/
theorem Kept.beginActivation (kept : agenda.Kept) {candidate : ReadyCandidate}
    (regular : agenda.Regular (.beginActivation candidate)) : (agenda.step (.beginActivation candidate)).Kept := by
  rw [step, AgentScheduler.beginActivation]
  by_cases hbusy : candidate.agentId ∈ agenda.scheduler.activationsThisTick.map ReadyCandidate.agentId
  · rw [if_pos hbusy]
    exact kept
  · rw [if_neg hbusy]
    have hclaimed : Kept { agenda with
        scheduler := agenda.scheduler.claimEvents (candidate.events.map WakeupEvent.eventId) } :=
      kept.restatus fun queued hchosen => by
        simp only [Bool.and_eq_true, decide_eq_true_eq] at hchosen
        exact Or.inl hchosen.1
    constructor
    case toSound =>
      refine ⟨?_, kept.once, kept.owned⟩
      change (((agenda.scheduler.activationsThisTick) ++ [candidate]).map ReadyCandidate.agentId).Nodup
      rw [List.map_append, List.nodup_append]
      refine ⟨kept.activations, by simp, fun agent hagent other hother => ?_⟩
      rw [List.mem_singleton.mp hother]
      exact fun hsame => hbusy (hsame ▸ hagent)
    case ids => exact hclaimed.ids
    case visible => exact hclaimed.visible
    case queued => exact hclaimed.queued
    case begun =>
      intro activation hactivation event hevent
      rcases List.mem_append.mp hactivation with hold | hnew
      · exact hclaimed.begun activation hold event hevent
      · obtain rfl := List.mem_singleton.mp hnew
        obtain ⟨hmem, htarget⟩ := regular event hevent
        refine ⟨?_, htarget⟩
        change event ∈ (agenda.scheduler.claimEvents _).events.map QueuedEvent.event
        rwa [claimEvents, restatus_events]
    case final => exact hclaimed.final

/-- What an activation consumes is claimed, and is for its agent. -/
theorem Kept.mem_consumed (kept : agenda.Kept) {activation : ReadyCandidate}
    (hactivation : activation ∈ agenda.scheduler.activationsThisTick) {event : WakeupEvent}
    (hconsumed : event ∈ agenda.scheduler.consumed activation) :
    ⟨event, .claimed⟩ ∈ agenda.scheduler.events ∧ event.eventId ∈ activation.events.map WakeupEvent.eventId ∧
      event.targetAgentId = activation.agentId := by
  obtain ⟨queued, hqueued, rfl⟩ := List.mem_map.mp hconsumed
  obtain ⟨hmem, hchosen⟩ := List.mem_filter.mp hqueued
  simp only [Bool.and_eq_true, decide_eq_true_eq, List.contains_iff_mem] at hchosen
  obtain ⟨hclaimed, hid⟩ := hchosen
  obtain ⟨wake, hwake, hsame⟩ := List.mem_map.mp hid
  obtain ⟨hevent, htarget⟩ := kept.begun activation hactivation wake hwake
  obtain ⟨other, hother, rfl⟩ := List.mem_map.mp hevent
  obtain rfl := status_unique kept.ids hother hmem hsame
  refine ⟨?_, hid, htarget⟩
  rw [← hclaimed]
  exact hmem

/-- An activation is completed. -/
theorem Kept.completeActivation (kept : agenda.Kept) {agent : String} {success : Bool} :
    (agenda.step (.completeActivation agent success)).Kept := by
  rw [step]
  cases hfind : agenda.scheduler.activationsThisTick.find? fun activation => activation.agentId = agent with
  | none => exact kept
  | some activation =>
    have hactivation := List.mem_of_find?_eq_some hfind
    have hclaimed (queued : QueuedEvent) (ids : List ℕ)
        (hchosen : (decide (queued.status = .claimed) && ids.contains queued.event.eventId) = true) :
        queued.status = .eligible ∨ queued.status = .claimed := by
      simp only [Bool.and_eq_true, decide_eq_true_eq] at hchosen
      exact Or.inr hchosen.1
    cases success with
    | false =>
      have hdeferred : Kept { agenda with
          scheduler := agenda.scheduler.deferEvents (activation.events.map WakeupEvent.eventId) } :=
        kept.restatus fun queued => hclaimed queued _
      simpa [AgentScheduler.completeActivation] using hdeferred
    | true =>
      have hconsumed : Kept { agenda with
          scheduler := agenda.scheduler.consumeEvents (activation.events.map WakeupEvent.eventId) } :=
        kept.restatus fun queued => hclaimed queued _
      have hids : (((agenda.scheduler.consumed activation).map fun event => (event, activation.agentId)).map
          fun consumption => consumption.1.eventId) =
            (agenda.scheduler.consumed activation).map WakeupEvent.eventId := by
        rw [List.map_map]
        rfl
      constructor
      case toSound =>
        refine ⟨kept.activations, ?_, fun consumption hmem => ?_⟩
        · dsimp only
          rw [if_pos rfl, List.map_append, hids, List.nodup_append]
          refine ⟨kept.once, ?_, fun id hid other hother hsame => ?_⟩
          · rw [AgentScheduler.consumed, List.map_map]
            exact kept.ids.sublist (List.filter_sublist.map _)
          · -- What was consumed before is not claimed now.
            obtain ⟨consumption, hconsumption, rfl⟩ := List.mem_map.mp hid
            obtain ⟨event, hevent, rfl⟩ := List.mem_map.mp hother
            have hbefore := kept.final consumption hconsumption
            obtain ⟨hnow, -, -⟩ := kept.mem_consumed hactivation hevent
            cases status_unique kept.ids hbefore hnow hsame
        · dsimp only at hmem
          rw [if_pos rfl] at hmem
          rcases List.mem_append.mp hmem with hold | hnew
          · exact kept.owned consumption hold
          · obtain ⟨event, hevent, rfl⟩ := List.mem_map.mp hnew
            exact (kept.mem_consumed hactivation hevent).2.2.symm
      case ids => exact hconsumed.ids
      case visible => exact hconsumed.visible
      case queued => exact hconsumed.queued
      case begun => exact hconsumed.begun
      case final =>
        intro consumption hmem
        dsimp only at hmem
        rw [if_pos rfl] at hmem
        rcases List.mem_append.mp hmem with hold | hnew
        · exact hconsumed.final consumption hold
        · obtain ⟨event, hevent, rfl⟩ := List.mem_map.mp hnew
          obtain ⟨hnow, hid, -⟩ := kept.mem_consumed hactivation hevent
          exact mem_restatus_of_chosen hnow (by simpa using hid)

/-- Events go back into the queue. -/
theorem Kept.requeueEvents (kept : agenda.Kept) {ids : List ℕ} : (agenda.step (.requeueEvents ids)).Kept :=
  kept.restatus fun queued hchosen => by
    simp only [Bool.and_eq_true, Bool.or_eq_true, decide_eq_true_eq] at hchosen
    exact hchosen.1.symm

/-- The tick ends. -/
theorem Kept.endTick (kept : agenda.Kept) : (agenda.step .endTick).Kept := by
  have hexpired : Kept { agenda with
      scheduler := agenda.scheduler.restatus (fun queued => decide (queued.status = .eligible)) .expired } :=
    kept.restatus fun queued hchosen => Or.inl (by simpa using hchosen)
  constructor
  case toSound => exact ⟨List.nodup_nil, kept.once, kept.owned⟩
  case ids => exact hexpired.ids
  case visible => exact hexpired.visible
  case queued => exact fun event hevent => nomatch hevent
  case begun => exact fun activation hactivation => nomatch hactivation
  case final => exact hexpired.final

/-- Only the end of a tick lets events expire. -/
theorem expired_of_step (other : call ≠ .endTick) {event : WakeupEvent}
    (hmem : ⟨event, .expired⟩ ∈ (agenda.step call).scheduler.events) : ⟨event, .expired⟩ ∈ agenda.scheduler.events := by
  cases call with
  | enqueueEvent new visibleAtTick =>
    rcases List.mem_append.mp hmem with hold | hnew
    · exact hold
    · simp at hnew
  | computeReadySet tick states urgency =>
    exact expired_of_restatus (by simp) (expired_of_restatus (by simp) hmem)
  | beginActivation candidate =>
    rw [step, AgentScheduler.beginActivation] at hmem
    split at hmem
    next hsome =>
      rw [Option.ite_none_left_eq_some] at hsome
      obtain ⟨-, hclaimed⟩ := hsome
      cases Option.some.inj hclaimed
      exact expired_of_restatus (by simp) hmem
    next => exact hmem
  | completeActivation agent success =>
    rw [step] at hmem
    split at hmem
    next => exact hmem
    next =>
      dsimp only [AgentScheduler.completeActivation] at hmem
      split at hmem <;> exact expired_of_restatus (by simp) hmem
  | requeueEvents ids => exact expired_of_restatus (by simp) hmem
  | endTick => exact absurd rfl other

/-- Every call is timely where the events are kept. -/
theorem Kept.timely (kept : agenda.Kept) : agenda.Timely call := by
  by_cases hend : call = .endTick
  · subst hend
    refine ⟨fun event hmem hnew => ?_, fun _ event hevent => ?_⟩
    · rcases mem_restatus hmem with ⟨before, hbefore, hchosen, hsame⟩ | ⟨hold, -⟩
      · have hevent : before.event = event := (congrArg QueuedEvent.event hsame).symm
        rw [← hevent]
        exact kept.visible before hbefore (Or.inl (by simpa using hchosen))
      · exact absurd hold hnew
    · exact mem_restatus_of_not (kept.queued event hevent) (by simp)
  · exact ⟨fun event hmem hnew => absurd (expired_of_step hend hmem) hnew, fun h => absurd h hend⟩

/-- A regular call is kept. -/
theorem Kept.step (kept : agenda.Kept) (regular : agenda.Regular call) : (agenda.step call).Kept := by
  cases call with
  | enqueueEvent event visibleAtTick => exact kept.enqueueEvent regular
  | computeReadySet tick states urgency => exact kept.computeReadySet regular
  | beginActivation candidate => exact kept.beginActivation regular
  | completeActivation agent success => exact kept.completeActivation
  | requeueEvents ids => exact kept.requeueEvents
  | endTick => exact kept.endTick

/-- A new scheduler. -/
def opened (capacity : ℕ) (conditions : String → Option WakeCondition) : Agenda :=
  { scheduler := { maxActiveAgentsPerTick := capacity, wakeConditions := conditions } }

/-- A new scheduler has no events. -/
theorem kept_opened {capacity : ℕ} {conditions : String → Option WakeCondition} :
    (opened capacity conditions).Kept := by
  constructor
  case toSound => exact ⟨List.nodup_nil, List.nodup_nil, fun consumption hmem => nomatch hmem⟩
  case ids => exact List.nodup_nil
  case visible => exact fun queued hmem => nomatch hmem
  case queued => exact fun event hmem => nomatch hmem
  case begun => exact fun activation hmem => nomatch hmem
  case final => exact fun consumption hmem => nomatch hmem

/-- Whatever the capacity and the wake conditions, in a regular course of calls no event expires before it is visible,
what is cut by capacity is queued after the tick, every event is consumed at most once and by the activation of its
agent, and no agent is activated twice in a tick. -/
theorem events_kept_of_regular (capacity : ℕ) (conditions : String → Option WakeCondition) (calls : List SchedulerCall)
    (regular : Each Agenda.step Regular (opened capacity conditions) calls) :
    Throughout Agenda.step Sound Timely (opened capacity conditions) calls :=
  .of_each kept_opened Kept.toSound (fun kept hregular => ⟨kept.step hregular, kept.timely⟩) regular

/-- Mail for an agent that waits for mail. -/
def mail (tick visibleAtTick : ℕ) : WakeupEvent where
  eventId := 0
  eventType := .newEmail
  targetAgentId := "root"
  tick := tick
  visibleAtTick := visibleAtTick

/-- A scheduler with an agent that waits for mail. -/
def office : Agenda :=
  opened 8 fun agent => if agent = "root" then some { eventTypes := [.newEmail] } else none

/-- A tick in which mail is read that was there before. -/
def reading : List SchedulerCall :=
  [.enqueueEvent (mail 0 0) 0, .computeReadySet 1 (fun _ => some .idle) fun _ => ⟨0, none⟩,
    .beginActivation ⟨"root", [mail 0 0]⟩, .completeActivation "root" true, .endTick]

/-- The mail is consumed by the activation of its agent. -/
theorem reading_kept : Each Agenda.step Regular office reading ∧
    Throughout Agenda.step Sound Timely office reading := by
  have hregular : Each Agenda.step Regular office reading := by
    refine ⟨List.not_mem_nil, ⟨by decide, rfl, by decide +kernel⟩, ?_, trivial, trivial, trivial⟩
    intro event hevent
    obtain rfl := List.mem_singleton.mp hevent
    exact ⟨by decide +kernel, rfl⟩
  exact ⟨hregular, events_kept_of_regular 8 _ reading hregular⟩

/-- Mail of this tick, which is visible from the next on, expires at the end of this one. -/
theorem mail_expires_unseen : ¬Throughout Agenda.step Sound Timely office
    [.enqueueEvent (mail 3 0) (-1), .computeReadySet 3 (fun _ => some .idle) fun _ => ⟨0, none⟩, .endTick] := by
  rintro ⟨-, -, -, -, -, htimely, -⟩
  have hvisible := htimely.1 (mail 3 4) (by decide +kernel) (by decide +kernel)
  exact absurd hvisible (by decide)

end Agenda

end MyTeam.Legacy
