import MyTeam.Legacy.Budget
import MyTeam.Legacy.Tick

/-!
# The model requests in flight

Before a tick acts on the plans of its agents, Validate holds the model requests of each plan
against the budget, whose caps on concurrency count the requests in flight. Every plan is judged by
the registry as it stood before any plan of the tick was acted on, and by one of the tasks that
its requests name. A cap on the requests of an agent is kept, as an agent has one plan in a tick;
the caps on all requests and on those of a task are kept when the plans fit together.
-/

namespace MyTeam.Legacy

open MyTeam.Py MyTeam.Async

namespace PendingOperationRegistry

/-- A model request in flight. -/
def llmInFlight (r : PendingOperationRegistry) (id : ℕ) : Bool :=
  decide ((r.op id).opType = .llmRequest) && decide (r.op id).status.InFlight

/-- The model requests in flight whose agent and task are counted. -/
def countLlm (r : PendingOperationRegistry) (counted : String → String → Bool) : ℕ :=
  r.operations.countP fun id => r.llmInFlight id && counted (r.op id).agentId (r.op id).taskId

/-- `_llm_in_flight_counts`. -/
def llmInFlightCounts (r : PendingOperationRegistry) (agentId taskId : String) : InFlightCounts where
  agent := r.countLlm fun agent _ => agent == agentId
  task := if taskId = "" then 0 else r.countLlm fun _ task => task == taskId
  simulation := r.countLlm fun _ _ => true

end PendingOperationRegistry

/-- The task and the timeout of a model request. -/
def Intent.llmRequest : Intent → Option (String × ℕ)
  | .submitLlmRequest _ taskId timeoutTicks => some (taskId, timeoutTicks)
  | _ => none

namespace Plan

variable (plan : Plan)

/-- The model requests of a plan, in order. -/
def llmRequests : List (String × ℕ) :=
  plan.intents.filterMap fun entry => entry.1.llmRequest

/-- The tasks of the model requests that passed Validate. -/
def passing : List String :=
  (plan.intents.filter Prod.snd).filterMap fun entry => entry.1.llmRequest.map Prod.fst

/-- The plan, all of whose intents fail Validate. -/
def reject : Plan :=
  { plan with intents := plan.intents.map fun entry => (entry.1, false) }

end Plan

/-- The model requests that plans are about to submit, of the agents and tasks that are counted. -/
def planned (plans : List Plan) (counted : String → String → Bool) : ℕ :=
  (plans.flatMap fun plan => plan.passing.map fun taskId => (plan.agentId, taskId)).countP fun request =>
    counted request.1 request.2

/-- The model requests that Act is about to submit. -/
def Stage.planned : Stage → (String → String → Bool) → ℕ
  | .act rest => Legacy.planned rest
  | _ => fun _ => 0

/-- The agents that have decided in this tick, and those that have yet to. -/
def Stage.scheduled : Stage → List String
  | .decide rest plans => plans.map Plan.agentId ++ rest
  | _ => []

/-- A simulation with its budget. -/
structure BudgetedSimulation where
  sim : Simulation
  limits : BudgetConfig := {}
  tickDurationSeconds : ℚ := 10
  budget : BudgetTracker := {}

/-- The moves of a simulation, where Validate applies the budget, and the charges that Ingest makes. -/
inductive BudgetedMove
  | move (move : Move)
  | validate (details : String → ℕ → RequestDetail)
  | charge (agentId taskId model : String) (inputTokens outputTokens : ℤ) (wallTimeSeconds : ℚ)

namespace BudgetedSimulation

variable (b : BudgetedSimulation)

/-- `_budget_rejection` of the model requests of a plan, the rest of which `details` tells by their order. -/
def budgetRejection (agentId : String) (llmIntents : List (String × ℕ)) (details : ℕ → RequestDetail) :
    Option BudgetCheckResult :=
  let taskId := ((llmIntents.map Prod.fst).find? (· ≠ "")).getD ""
  let estimate := llmIntents.zipIdx.foldl (fun estimate request =>
    estimate.add (estimateLlmUsage (details request.2) request.1.2 b.tickDurationSeconds b.limits.pricing)) {}
  b.budget.check agentId taskId estimate (b.sim.registry.llmInFlightCounts agentId taskId)
    (some b.sim.maxConcurrentLlmRequests) b.limits

/-- The budget pre-scan of `_phase_validate`: a plan over budget fails as a whole. -/
def preScan (details : String → ℕ → RequestDetail) (plan : Plan) : Plan :=
  if plan.llmRequests ≠ [] ∧ (b.budgetRejection plan.agentId plan.llmRequests (details plan.agentId)).isSome then
    plan.reject
  else plan

/-- A move of the simulation with its budget. Act begins with the plans as Validate leaves them. -/
def step : BudgetedMove → Option BudgetedSimulation
  | .move move =>
    match b.sim.stage, move with
    | .decide [] _, .decide _ _ => none
    | _, _ => (b.sim.step move).map fun sim => { b with sim := sim }
  | .validate details =>
    match b.sim.stage with
    | .decide [] plans =>
      (Simulation.step { b.sim with stage := .decide [] (plans.map (b.preScan details)) } (.decide false [])).map
        fun sim => { b with sim := sim }
    | _ => none
  | .charge agentId taskId model inputTokens outputTokens wallTimeSeconds => some { b with
      budget := b.budget.recordLlm agentId taskId model inputTokens outputTokens none wallTimeSeconds b.limits.pricing }

/-- The caps on the model requests in flight: on all, on those of a task, and on those of an agent. -/
structure Capped : Prop where
  simulation : 0 < b.limits.simulation.concurrency →
    b.sim.registry.countLlm (fun _ _ => true) ≤ b.limits.simulation.concurrency
  task : 0 < b.limits.task.concurrency → ∀ taskId ≠ "",
    b.sim.registry.countLlm (fun _ task => task == taskId) ≤ b.limits.task.concurrency
  agent : ∀ agentId, b.sim.registry.countLlm (fun agent _ => agent == agentId) ≤
    BudgetTracker.agentConcurrency b.limits (some b.sim.maxConcurrentLlmRequests)

/-- Plans whose model requests, together with those in flight, are within the caps of the simulation and of the
tasks they name. -/
def Fit (plans : List Plan) : Prop :=
  (0 < b.limits.simulation.concurrency →
    b.sim.registry.countLlm (fun _ _ => true) + planned plans (fun _ _ => true) ≤ b.limits.simulation.concurrency) ∧
  (0 < b.limits.task.concurrency → ∀ plan ∈ plans, ∀ taskId ∈ plan.passing, taskId ≠ "" →
    b.sim.registry.countLlm (fun _ task => task == taskId) + planned plans (fun _ task => task == taskId) ≤
      b.limits.task.concurrency)

instance (plans : List Plan) : Decidable (b.Fit plans) := by
  unfold Fit
  infer_instance

/-- The plans that pass Validate fit together. -/
def fitsTogether : BudgetedMove → Prop
  | .validate details =>
    match b.sim.stage with
    | .decide [] plans => b.Fit (plans.map (b.preScan details))
    | _ => True
  | _ => True

instance (move : BudgetedMove) : Decidable (b.fitsTogether move) := by
  unfold fitsTogether
  split
  · split <;> infer_instance
  · infer_instance

end BudgetedSimulation

/-- Operations leave the registry or are settled, and those that stay in flight stay what they are. -/
structure PendingOperationRegistry.Eases (r r' : PendingOperationRegistry) : Prop where
  operations : r'.operations.Sublist r.operations
  nextId : r'.nextId = r.nextId
  op : ∀ id, (r'.op id).status.InFlight → (r.op id).status.InFlight ∧ (r'.op id).opType = (r.op id).opType ∧
    (r'.op id).agentId = (r.op id).agentId ∧ (r'.op id).taskId = (r.op id).taskId

namespace PendingOperationRegistry

variable {r r' r'' : PendingOperationRegistry} {id : ℕ} {counted : String → String → Bool}

/-- Nothing changes. -/
theorem Eases.refl (r : PendingOperationRegistry) : r.Eases r :=
  ⟨List.Sublist.refl _, rfl, fun _ h => ⟨h, rfl, rfl, rfl⟩⟩

/-- One change after the other. -/
theorem Eases.trans (h : r.Eases r') (h' : r'.Eases r'') : r.Eases r'' := by
  refine ⟨h'.operations.trans h.operations, h'.nextId.trans h.nextId, fun id hflight => ?_⟩
  obtain ⟨hflight', htype', hagent', htask'⟩ := h'.op id hflight
  obtain ⟨hflight'', htype, hagent, htask⟩ := h.op id hflight'
  exact ⟨hflight'', htype'.trans htype, hagent'.trans hagent, htask'.trans htask⟩

/-- Fewer model requests are in flight. -/
theorem Eases.countLlm_le (h : r.Eases r') (counted : String → String → Bool) :
    r'.countLlm counted ≤ r.countLlm counted := by
  refine le_trans (List.countP_mono_left fun id _ hcounted => ?_) (h.operations.countP_le)
  simp only [llmInFlight, Bool.and_eq_true, decide_eq_true_eq] at hcounted ⊢
  obtain ⟨⟨htype, hflight⟩, hcounted⟩ := hcounted
  obtain ⟨hflight', htype', hagent, htask⟩ := h.op id hflight
  exact ⟨⟨htype' ▸ htype, hflight'⟩, by rw [← hagent, ← htask]; exact hcounted⟩

/-- A record changes its status, if it was in flight or is not any more, and its result or error. -/
theorem edit_eases {f : PendingOperation → PendingOperation}
    (flight : (f (r.op id)).status.InFlight → (r.op id).status.InFlight)
    (kept : (f (r.op id)).opType = (r.op id).opType ∧ (f (r.op id)).agentId = (r.op id).agentId ∧
      (f (r.op id)).taskId = (r.op id).taskId) : r.Eases (r.edit id f) := by
  refine ⟨List.Sublist.refl _, rfl, fun other hflight => ?_⟩
  by_cases hother : other = id
  · subst hother
    simp only [edit, Function.update_self] at hflight ⊢
    exact ⟨flight hflight, kept⟩
  · have hsame : (r.edit id f).op other = r.op other := Function.update_of_ne hother _ _
    rw [hsame] at hflight ⊢
    exact ⟨hflight, rfl, rfl, rfl⟩

/-- Completing an operation. -/
theorem complete_eases {result : List (String × Value)} : r.Eases (r.complete id result) := by
  unfold complete
  split
  · exact edit_eases (by simp [OpStatus.InFlight]) ⟨rfl, rfl, rfl⟩
  · exact .refl r

/-- Failing an operation. -/
theorem fail_eases {error : String} : r.Eases (r.fail id error) := by
  unfold fail
  split
  · exact edit_eases (by simp [OpStatus.InFlight]) ⟨rfl, rfl, rfl⟩
  · exact .refl r

/-- Claiming an operation. -/
theorem claim_eases : r.Eases (r.claim id) := by
  unfold claim
  split
  next h => exact edit_eases (fun _ => Or.inl h.2) ⟨rfl, rfl, rfl⟩
  next => exact .refl r

/-- Cancelling an operation. -/
theorem cancel_eases (h : r.cancel id = some r') : r.Eases r' := by
  obtain ⟨-, h⟩ := Option.ite_none_right_eq_some.mp h
  cases h
  exact edit_eases (by simp [OpStatus.InFlight]) ⟨rfl, rfl, rfl⟩

/-- Operations time out. -/
theorem timeOut_eases {tick : ℕ} : r.Eases (r.timeOut tick) := by
  refine ⟨List.Sublist.refl _, rfl, fun id hflight => ?_⟩
  unfold timeOut at hflight ⊢
  dsimp only at hflight ⊢
  split at hflight
  next => simp [OpStatus.InFlight] at hflight
  next h => simp [h, hflight]

/-- An operation leaves the registry. -/
theorem remove_eases : r.Eases (r.remove id) :=
  ⟨List.erase_sublist, rfl, fun _ h => ⟨h, rfl, rfl, rfl⟩⟩

/-- A rollback takes operations out of the registry. -/
theorem foldl_removeForRollback_eases (submitted : List (String × ℕ)) :
    r.Eases (submitted.foldl (fun r entry => r.removeForRollback entry.2) r) := by
  induction submitted generalizing r with
  | nil => exact .refl r
  | cons entry rest ih =>
    have hone : r.Eases (r.removeForRollback entry.2) := by
      unfold removeForRollback
      split
      · exact ⟨List.erase_sublist, rfl, fun _ h => ⟨h, rfl, rfl, rfl⟩⟩
      · exact .refl r
    exact hone.trans ih

/-- A submission adds one request, if it is one of the model that is counted. -/
theorem countLlm_submit (below : ∀ id ∈ r.operations, id < r.nextId) (op : PendingOperation) :
    (r.submit op).countLlm counted ≤
      r.countLlm counted + if op.opType = .llmRequest ∧ counted op.agentId op.taskId = true then 1 else 0 := by
  have hold : ∀ id ∈ r.operations, (r.submit op).op id = r.op id := fun id hid =>
    Function.update_of_ne (Nat.ne_of_lt (below id hid)) _ _
  unfold countLlm
  have hops : (r.submit op).operations = r.operations ++ [r.nextId] := rfl
  rw [hops, List.countP_append]
  refine Nat.add_le_add (le_of_eq (List.countP_congr fun id hid => ?_)) ?_
  · simp [llmInFlight, hold id hid]
  · have hnew : (r.submit op).op r.nextId = op := Function.update_self _ _ _
    simp only [List.countP_singleton, llmInFlight, hnew]
    split_ifs with hcounted hsubmitted
    · exact le_rfl
    · simp only [Bool.and_eq_true, decide_eq_true_eq] at hcounted
      exact absurd ⟨hcounted.1.1, hcounted.2⟩ hsubmitted
    all_goals exact Nat.zero_le _

end PendingOperationRegistry

/-- A plan is about to submit one more model request, if its next intent is one that passed Validate. -/
theorem planned_cons (agent : String) (intent : Intent) (valid : Bool) (intents : List (Intent × Bool))
    (rest : List Plan)
    (counted : String → String → Bool) : planned (⟨agent, (intent, valid) :: intents⟩ :: rest) counted =
      planned (⟨agent, intents⟩ :: rest) counted +
        if valid = true ∧ intent.llmRequest.any (fun request => counted agent request.1) = true then 1 else 0 := by
  cases valid <;> cases intent <;> simp [planned, Plan.passing, Intent.llmRequest, List.countP_cons]

namespace Simulation

variable {s t : Simulation} {move : Move} {id : ℕ} {agent : String}

/-- What a move does to the model requests in flight and to those that Act is about to submit. The agents and the
cap stay, and every agent decides at most once in a tick. -/
structure Handles (s t : Simulation) : Prop where
  agents : t.agents = s.agents
  cap : t.maxConcurrentLlmRequests = s.maxConcurrentLlmRequests
  scheduled : s.agents.Nodup → s.stage.scheduled.Nodup → t.stage.scheduled.Nodup
  operations :
    s.registry.Eases t.registry ∧ (∀ counted, t.stage.planned counted ≤ s.stage.planned counted) ∨
      ∃ op, t.registry = s.registry.submit op ∧ ∀ counted, t.stage.planned counted +
        (if op.opType = .llmRequest ∧ counted op.agentId op.taskId = true then 1 else 0) ≤ s.stage.planned counted

/-- Operations are settled, and the tick stands where it stood. -/
theorem Handles.settle (registry : s.registry.Eases t.registry) (agents : t.agents = s.agents)
    (cap : t.maxConcurrentLlmRequests = s.maxConcurrentLlmRequests) (stage : t.stage = s.stage) : Handles s t where
  agents := agents
  cap := cap
  scheduled := fun _ scheduled => stage ▸ scheduled
  operations := Or.inl ⟨registry, fun _ => stage ▸ le_rfl⟩

/-- Operations are settled, and the tick goes on, outside of Decide and Act. -/
theorem Handles.proceed (registry : s.registry.Eases t.registry) (agents : t.agents = s.agents)
    (cap : t.maxConcurrentLlmRequests = s.maxConcurrentLlmRequests) (scheduled : t.stage.scheduled = [])
    (planned : ∀ counted, t.stage.planned counted = 0) : Handles s t where
  agents := agents
  cap := cap
  scheduled := fun _ _ => scheduled ▸ List.nodup_nil
  operations := Or.inl ⟨registry, fun counted => planned counted ▸ Nat.zero_le _⟩

/-- A notice leaves the operations, the agents, the cap and the stage alone. -/
theorem notify_fixed (s : Simulation) (id : ℕ) (notice : List (String × Value)) :
    (s.notify id notice).registry = s.registry ∧ (s.notify id notice).agents = s.agents ∧
      (s.notify id notice).maxConcurrentLlmRequests = s.maxConcurrentLlmRequests ∧
        (s.notify id notice).stage = s.stage := by
  unfold notify
  split <;> exact ⟨rfl, rfl, rfl, rfl⟩

/-- An operation leaves the registry after a notice, at a stage outside of Decide and Act. -/
theorem handles_notify {notice : List (String × Value)} (stage : Stage) (scheduled : stage.scheduled = [])
    (planned : ∀ counted, stage.planned counted = 0) :
    Handles s { (s.notify id notice).drop id with stage := stage } := by
  obtain ⟨hregistry, hagents, hcap, -⟩ := s.notify_fixed id notice
  refine .proceed ?_ hagents hcap scheduled planned
  have hdrop : ((s.notify id notice).drop id).registry = (s.notify id notice).registry.remove id := rfl
  rw [hdrop, hregistry]
  exact PendingOperationRegistry.remove_eases

/-- The next step of Ingest. -/
theorem handles_ingest (h : s.ingest = some t) : Handles s t := by
  unfold ingest at h
  split at h <;> cases h
  next => exact .proceed (.refl _) rfl rfl rfl fun _ => rfl
  next => exact handles_notify _ rfl fun _ => rfl
  next => exact .proceed (.refl _) rfl rfl rfl fun _ => rfl
  next => exact handles_notify _ rfl fun _ => rfl
  next => exact .proceed (.refl _) rfl rfl rfl fun _ => rfl
  next =>
    unfold completeOperation
    split_ifs <;> exact .proceed PendingOperationRegistry.remove_eases rfl rfl rfl fun _ => rfl
  next => exact .proceed (.refl _) rfl rfl rfl fun _ => rfl
  next => exact .proceed (.refl _) rfl rfl rfl fun _ => rfl
  next =>
    unfold receiptOperation
    split_ifs
    · exact .proceed PendingOperationRegistry.remove_eases rfl rfl rfl fun _ => rfl
    · exact .proceed (.refl _) rfl rfl rfl fun _ => rfl

/-- What acting on an intent does: it submits an operation, of the model if it asks for that, or none. -/
structure Acts (s : Simulation) (agent : String) (intent : Intent) (t : Simulation) : Prop where
  agents : t.agents = s.agents
  cap : t.maxConcurrentLlmRequests = s.maxConcurrentLlmRequests
  registry : t.registry = s.registry ∨ ∃ op, t.registry = s.registry.submit op ∧
    (op.opType = .llmRequest → op.agentId = agent ∧ intent.llmRequest.map Prod.fst = some op.taskId)

/-- A submission; `requests` is how the agents' counts of requests stand by then. -/
theorem acts_submit {op : PendingOperation} {advance : AgentContinuation → ℕ → AgentContinuation}
    {target : AgentState} {intent : Intent} (requests : String → ℕ)
    (h : submitOperation { s with submittedLlm := requests } agent op advance target = some t)
    (hop : op.opType = .llmRequest → op.agentId = agent ∧ intent.llmRequest.map Prod.fst = some op.taskId) :
    Acts s agent intent t := by
  unfold submitOperation at h
  dsimp only at h
  split at h
  next =>
    cases h
    exact ⟨rfl, rfl, Or.inr ⟨op, rfl, hop⟩⟩
  next =>
    obtain ⟨_, -, h⟩ := Option.bind_eq_some_iff.mp h
    cases h
    exact ⟨rfl, rfl, Or.inr ⟨op, rfl, hop⟩⟩

/-- Acting on a validated intent. -/
theorem actIntent_acts {written : Bool} {intent : Intent} (h : s.actIntent agent written intent = some t) :
    Acts s agent intent t := by
  cases intent with
  | submitLlmRequest chosenId taskId timeoutTicks =>
    rw [actIntent] at h
    split at h
    · cases h
      exact ⟨rfl, rfl, Or.inl rfl⟩
    · exact acts_submit _ h fun _ => ⟨rfl, rfl⟩
  | submitToolRequest chosenId taskId toolName timeoutTicks arguments =>
    rw [actIntent] at h
    dsimp only at h
    split at h
    · cases h
      exact ⟨rfl, rfl, Or.inl rfl⟩
    · exact acts_submit s.submittedLlm h (by simp)
    · exact acts_submit s.submittedLlm h (by simp)
  | waitForEvent waitingState =>
    rw [actIntent] at h
    split at h
    · cases h
      exact ⟨rfl, rfl, Or.inl rfl⟩
    next =>
      obtain ⟨_, -, h⟩ := Option.bind_eq_some_iff.mp h
      obtain ⟨_, -, h⟩ := Option.bind_eq_some_iff.mp h
      cases h
      exact ⟨rfl, rfl, Or.inl rfl⟩
  | memoryConsolidate action structuredSummary =>
    rw [actIntent] at h
    split_ifs at h <;> cases h <;> exact ⟨rfl, rfl, Or.inl rfl⟩
  | stage data =>
    cases h
    exact ⟨rfl, rfl, Or.inl rfl⟩

/-- The next step of Act. -/
theorem handles_act {written : Bool} (h : s.act written = some t) : Handles s t := by
  unfold act at h
  split at h
  next => cases h; exact .proceed (.refl _) rfl rfl rfl fun _ => rfl
  next hstage =>
    cases h
    refine ⟨rfl, rfl, fun _ _ => List.nodup_nil, Or.inl ⟨.refl _, fun counted => ?_⟩⟩
    simp [hstage, Stage.planned, planned, Plan.passing]
  next agent intent valid intents rest hstage =>
    obtain ⟨u, hu, rfl⟩ := Option.map_eq_some_iff.mp h
    have hplanned (counted : String → String → Bool) : s.stage.planned counted =
        planned (⟨agent, intents⟩ :: rest) counted +
          if valid = true ∧ intent.llmRequest.any (fun request => counted agent request.1) = true then 1 else 0 := by
      rw [hstage, ← planned_cons]
      rfl
    have hless (counted : String → String → Bool) :
        planned (⟨agent, intents⟩ :: rest) counted ≤ s.stage.planned counted := by
      rw [hplanned]
      exact Nat.le_add_right _ _
    cases valid with
    | false =>
      cases hu
      exact ⟨rfl, rfl, fun _ _ => List.nodup_nil, Or.inl ⟨.refl _, hless⟩⟩
    | true =>
      have hacts := actIntent_acts (perform_eq_some.mp hu).2
      refine ⟨hacts.agents, hacts.cap, fun _ _ => List.nodup_nil, ?_⟩
      obtain hsame | ⟨op, hsubmit, hop⟩ := hacts.registry
      · exact Or.inl ⟨hsame ▸ .refl _, hless⟩
      · refine Or.inr ⟨op, hsubmit, fun counted => ?_⟩
        rw [hplanned counted]
        refine Nat.add_le_add_left ?_ _
        split_ifs with hcounted hpassed
        · exact le_rfl
        · obtain ⟨rfl, hrequest⟩ := hop hcounted.1
          obtain ⟨request, hintent, htask⟩ := Option.map_eq_some_iff.mp hrequest
          refine absurd ⟨rfl, ?_⟩ hpassed
          rw [hintent, Option.any_some, htask]
          exact hcounted.2
        all_goals exact Nat.zero_le _
  next => cases h

/-- The activations leave the operations, the agents and the cap alone. -/
theorem activateAll_fixed (s : Simulation) (candidates : List ReadyCandidate) :
    (s.activateAll candidates).1.registry = s.registry ∧ (s.activateAll candidates).1.agents = s.agents ∧
      (s.activateAll candidates).1.maxConcurrentLlmRequests = s.maxConcurrentLlmRequests := by
  induction candidates generalizing s with
  | nil => exact ⟨rfl, rfl, rfl⟩
  | cons candidate rest ih =>
    rw [activateAll]
    split
    · exact ⟨rfl, rfl, rfl⟩
    next u hactivate =>
      obtain ⟨_, -, hu⟩ := Option.bind_eq_some_iff.mp hactivate
      cases hu
      exact ih _

/-- Schedule. -/
theorem handles_schedule {urgency : String → Urgency} (h : s.step (.schedule urgency) = some t) : Handles s t := by
  obtain ⟨-, hstep⟩ := Option.ite_none_right_eq_some.mp h
  cases hstep
  obtain ⟨hregistry, hagents, hcap⟩ := activateAll_fixed
    { s with scheduler := (s.scheduler.computeReadySet s.tick s.agentStates urgency).1,
             ready := (s.scheduler.computeReadySet s.tick s.agentStates urgency).2, notices := [] }
    (s.scheduler.computeReadySet s.tick s.agentStates urgency).2
  refine ⟨hagents, hcap, fun nodup _ => ?_, Or.inl ⟨?_, fun _ => ?_⟩⟩
  · dsimp only
    split
    · exact nodup.filter _
    · exact List.nodup_nil
  · exact (congrArg s.registry.Eases hregistry).mpr (.refl _)
  · dsimp only
    split <;> exact Nat.zero_le _

/-- All ids of operations stay below the next one. -/
theorem Handles.below (h : Handles s t) (below : ∀ id ∈ s.registry.operations, id < s.registry.nextId) :
    ∀ id ∈ t.registry.operations, id < t.registry.nextId := by
  intro id hid
  obtain ⟨heases, -⟩ | ⟨op, hsubmit, -⟩ := h.operations
  · rw [heases.nextId]
    exact below id (heases.operations.subset hid)
  · rw [hsubmit] at hid ⊢
    obtain hold | hnew := List.mem_append.mp hid
    · exact Nat.lt_succ_of_lt (below id hold)
    · exact List.mem_singleton.mp hnew ▸ Nat.lt_succ_self _

/-- Cancelling an operation. -/
theorem handles_cancel : Handles s (s.cancelOperation id) := by
  unfold cancelOperation
  split
  · exact .settle (.refl _) rfl rfl rfl
  next registry hcancel =>
    obtain ⟨hregistry, hagents, hcap, hstage⟩ := notify_fixed { s with registry := registry } id
      [("error", .str s!"Operation cancelled (request {id})"), ("cancelled", .bool true),
        ("request_id", .str (toString id))]
    refine .settle ?_ hagents hcap hstage
    exact (PendingOperationRegistry.cancel_eases hcancel).trans
      ((congrArg (fun r => registry.Eases (r.remove id)) hregistry).mpr PendingOperationRegistry.remove_eases)

/-- Every move, but that from Decide to Act. -/
theorem step_handles (h : s.step move = some t) (before : ∀ plans, s.stage = .decide [] plans → ∀ gate intents,
    move ≠ .decide gate intents) : Handles s t := by
  cases move with
  | complete id result => cases h; exact .settle PendingOperationRegistry.complete_eases rfl rfl rfl
  | fail id error => cases h; exact .settle PendingOperationRegistry.fail_eases rfl rfl rfl
  | claim id => cases h; exact .settle PendingOperationRegistry.claim_eases rfl rfl rfl
  | cancel id => cases h; exact handles_cancel
  | wake event => cases h; exact .settle (.refl _) rfl rfl rfl
  | route => cases h; exact .settle (.refl _) rfl rfl rfl
  | pause => cases h; exact .settle (.refl _) rfl rfl rfl
  | resume => cases h; exact .settle (.refl _) rfl rfl rfl
  | start =>
    obtain ⟨-, hstep⟩ := Option.ite_none_right_eq_some.mp h
    cases hstep
    exact .proceed PendingOperationRegistry.timeOut_eases rfl rfl rfl fun _ => rfl
  | ingest => exact handles_ingest h
  | receipt id result =>
    obtain ⟨-, hstep⟩ := Option.ite_none_right_eq_some.mp h
    cases hstep
    unfold receipt
    split
    · exact .settle PendingOperationRegistry.complete_eases rfl rfl rfl
    · exact .settle (.refl _) rfl rfl rfl
  | schedule urgency => exact handles_schedule h
  | decide gate intents =>
    unfold step at h
    dsimp only at h
    split at h <;> cases h
    next hstage => exact absurd rfl (before _ hstage gate intents)
    next agent rest plans hstage =>
      refine ⟨rfl, rfl, fun _ scheduled => ?_, Or.inl ⟨.refl _, fun _ => Nat.zero_le _⟩⟩
      rw [hstage] at scheduled
      simpa [Stage.scheduled] using scheduled
  | act written => exact handles_act h
  | commit rolledBack =>
    obtain ⟨-, hstep⟩ := Option.ite_none_right_eq_some.mp h
    cases rolledBack with
    | true =>
      cases hstep
      exact .proceed (PendingOperationRegistry.foldl_removeForRollback_eases _) rfl rfl rfl fun _ => rfl
    | false =>
      cases hstep
      exact .proceed (.refl _) rfl rfl rfl fun _ => rfl
  | publish =>
    obtain ⟨-, hstep⟩ := Option.ite_none_right_eq_some.mp h
    cases hstep
    exact .proceed (.refl _) rfl rfl rfl fun _ => rfl
  | conclude =>
    unfold step at h
    dsimp only at h
    split at h <;> cases h
    · exact .proceed (.refl _) rfl rfl rfl fun _ => rfl
    next =>
      unfold concludeActivation
      split <;> exact .proceed (.refl _) rfl rfl rfl fun _ => rfl
    · exact .proceed (.refl _) rfl rfl rfl fun _ => rfl
  | crash =>
    obtain ⟨-, hstep⟩ := Option.ite_none_left_eq_some.mp h
    cases hstep
    exact .proceed (.refl _) rfl rfl rfl fun _ => rfl

end Simulation

namespace Plan

variable {plan : Plan}

/-- A plan that was rejected submits nothing. -/
theorem reject_passing : plan.reject.passing = [] := by
  have hfilter : plan.reject.intents.filter Prod.snd = [] := by simp [reject, List.filter_eq_nil_iff]
  rw [passing, hfilter, List.filterMap_nil]

/-- At most the model requests of a plan pass. -/
theorem passing_length_le : plan.passing.length ≤ plan.llmRequests.length := by
  have hpassing : plan.passing =
      ((plan.intents.filter Prod.snd).filterMap fun entry => entry.1.llmRequest).map Prod.fst := by
    rw [passing, List.map_filterMap]
  rw [hpassing, List.length_map]
  exact (List.filter_sublist.filterMap _).length_le

end Plan

/-- If each plan of an agent is within a bound, and agents have one plan, then so are all plans. -/
theorem planned_agent_le {plans : List Plan} {agent : String} {inFlight cap : ℕ}
    (nodup : (plans.map Plan.agentId).Nodup) (within : inFlight ≤ cap)
    (each : ∀ plan ∈ plans, plan.agentId = agent → inFlight + plan.passing.length ≤ cap) :
    inFlight + planned plans (fun other _ => other == agent) ≤ cap := by
  induction plans with
  | nil => exact within
  | cons plan plans ih =>
    obtain ⟨hfresh, hnodup⟩ := List.nodup_cons.mp nodup
    have hrest := ih hnodup fun other hother => each other (List.mem_cons_of_mem _ hother)
    have hcons : planned (plan :: plans) (fun other _ => other == agent) =
        plan.passing.countP (fun _ => plan.agentId == agent) + planned plans fun other _ => other == agent := by
      rw [planned, List.flatMap_cons, List.countP_append, List.countP_map]
      rfl
    rw [hcons]
    by_cases hagent : plan.agentId = agent
    · have hnone : planned plans (fun other _ => other == agent) = 0 := by
        refine List.countP_eq_zero.mpr fun request hrequest heq => ?_
        obtain ⟨other, hother, htask⟩ := List.mem_flatMap.mp hrequest
        obtain ⟨taskId, -, rfl⟩ := List.mem_map.mp htask
        exact hfresh (hagent ▸ beq_iff_eq.mp heq ▸ List.mem_map_of_mem hother)
      rw [hnone, Nat.add_zero]
      exact (Nat.add_le_add_left List.countP_le_length _).trans (each plan List.mem_cons_self hagent)
    · have hnone : plan.passing.countP (fun _ => plan.agentId == agent) = 0 := by simp [hagent]
      rw [hnone, Nat.zero_add]
      exact hrest

/-- Plans that name no request of a task submit none for it. -/
theorem planned_task_eq_zero {plans : List Plan} {taskId : String} (unnamed : ∀ plan ∈ plans, taskId ∉ plan.passing) :
    planned plans (fun _ task => task == taskId) = 0 := by
  refine List.countP_eq_zero.mpr fun request hrequest heq => ?_
  obtain ⟨plan, hplan, htask⟩ := List.mem_flatMap.mp hrequest
  obtain ⟨task, hpassing, rfl⟩ := List.mem_map.mp htask
  exact unnamed plan hplan (beq_iff_eq.mp heq ▸ hpassing)

/-- A round that is within budget is within the cap on the requests of its agent. -/
theorem BudgetTracker.agent_of_check {budget : BudgetTracker} {agentId taskId : String} {estimate : BudgetUsage}
    {inFlight : InFlightCounts} {cap : ℕ} {limits : BudgetConfig}
    (h : budget.check agentId taskId estimate inFlight (some cap) limits = none) :
    inFlight.agent + estimate.requestCount.toNat ≤ agentConcurrency limits (some cap) := by
  have hagent := (Option.or_eq_none_iff.mp h).1
  unfold checkConcurrency at hagent
  split at hagent
  · cases hagent
  next hfits => simpa using hfits

namespace BudgetedSimulation

variable {b c : BudgetedSimulation} {move : BudgetedMove}

/-- The model requests in flight and those that Act is about to submit. -/
def demand (b : BudgetedSimulation) (counted : String → String → Bool) : ℕ :=
  b.sim.registry.countLlm counted + b.sim.stage.planned counted

/-- The caps leave room for what is in flight and for what Act is about to submit. -/
structure Held (b : BudgetedSimulation) : Prop where
  below : ∀ id ∈ b.sim.registry.operations, id < b.sim.registry.nextId
  nodup : b.sim.agents.Nodup
  scheduled : b.sim.stage.scheduled.Nodup
  simulation : 0 < b.limits.simulation.concurrency → b.demand (fun _ _ => true) ≤ b.limits.simulation.concurrency
  task : 0 < b.limits.task.concurrency → ∀ taskId ≠ "",
    b.demand (fun _ task => task == taskId) ≤ b.limits.task.concurrency
  agent : ∀ agentId, b.demand (fun agent _ => agent == agentId) ≤
    BudgetTracker.agentConcurrency b.limits (some b.sim.maxConcurrentLlmRequests)

/-- What is in flight is within the caps. -/
theorem Held.capped (h : b.Held) : b.Capped where
  simulation cap := (Nat.le_add_right _ _).trans (h.simulation cap)
  task cap taskId hne := (Nat.le_add_right _ _).trans (h.task cap taskId hne)
  agent agentId := (Nat.le_add_right _ _).trans (h.agent agentId)

/-- No move, but Validate, makes room for less. -/
theorem Held.handles (h : b.Held) {sim : Simulation} (handles : Simulation.Handles b.sim sim) :
    Held { b with sim := sim } := by
  have hdemand (counted : String → String → Bool) : demand { b with sim := sim } counted ≤ b.demand counted := by
    obtain ⟨heases, hplanned⟩ | ⟨op, hsubmit, hplanned⟩ := handles.operations
    · exact Nat.add_le_add (heases.countLlm_le counted) (hplanned counted)
    · have hcount := @PendingOperationRegistry.countLlm_submit _ counted h.below op
      have hplan := hplanned counted
      simp only [demand, hsubmit]
      omega
  constructor
  case below => exact handles.below h.below
  case nodup => exact handles.agents ▸ h.nodup
  case scheduled => exact handles.scheduled h.nodup h.scheduled
  case simulation => exact fun cap => (hdemand _).trans (h.simulation cap)
  case task => exact fun cap taskId hne => (hdemand _).trans (h.task cap taskId hne)
  case agent =>
    intro agentId
    dsimp only
    rw [handles.cap]
    exact (hdemand _).trans (h.agent agentId)

/-- The estimate of a round counts its requests. -/
theorem estimate_requestCount (estimateOf : (String × ℕ) × ℕ → BudgetUsage)
    (one : ∀ request, (estimateOf request).requestCount = 1)
    (requests : List ((String × ℕ) × ℕ)) (start : BudgetUsage) :
    (requests.foldl (fun estimate request => estimate.add (estimateOf request)) start).requestCount =
      start.requestCount + requests.length := by
  induction requests generalizing start with
  | nil => simp
  | cons request rest ih =>
    rw [List.foldl_cons, ih, List.length_cons]
    simp only [BudgetUsage.add, one]
    omega

/-- What passes of a plan is within the cap on the requests of its agent. -/
theorem preScan_agent {details : String → ℕ → RequestDetail} {plan : Plan}
    (within : b.sim.registry.countLlm (fun agent _ => agent == plan.agentId) ≤
      BudgetTracker.agentConcurrency b.limits (some b.sim.maxConcurrentLlmRequests)) :
    b.sim.registry.countLlm (fun agent _ => agent == plan.agentId) + (b.preScan details plan).passing.length ≤
      BudgetTracker.agentConcurrency b.limits (some b.sim.maxConcurrentLlmRequests) := by
  unfold preScan
  split
  next => rwa [Plan.reject_passing]
  next h =>
    by_cases hnone : plan.llmRequests = []
    · have hlength := @Plan.passing_length_le plan
      rw [hnone, List.length_nil, Nat.le_zero] at hlength
      rwa [hlength]
    · have hcheck : b.budgetRejection plan.agentId plan.llmRequests (details plan.agentId) = none := by
        simpa [hnone] using h
      have hagent := BudgetTracker.agent_of_check hcheck
      rw [estimate_requestCount _ (fun _ => rfl), List.length_zipIdx] at hagent
      have hcount : ((0 : ℤ) + plan.llmRequests.length).toNat = plan.llmRequests.length := by omega
      rw [hcount] at hagent
      exact (Nat.add_le_add_left Plan.passing_length_le _).trans hagent

/-- The pre-scan keeps the agent of a plan. -/
theorem preScan_agentId {details : String → ℕ → RequestDetail} {plan : Plan} :
    (b.preScan details plan).agentId = plan.agentId := by
  unfold preScan
  split <;> rfl

/-- Plans that fit together leave the caps in place. -/
theorem Held.validate (h : b.Held) {details : String → ℕ → RequestDetail} {plans : List Plan}
    (hstage : b.sim.stage = .decide [] plans) (fits : b.Fit (plans.map (b.preScan details))) {sim : Simulation}
    (hregistry : sim.registry = b.sim.registry) (hagents : sim.agents = b.sim.agents)
    (hcap : sim.maxConcurrentLlmRequests = b.sim.maxConcurrentLlmRequests)
    (hact : sim.stage = .act (plans.map (b.preScan details))) : Held { b with sim := sim } := by
  have hcapped := h.capped
  have hdemand (counted : String → String → Bool) : demand { b with sim := sim } counted =
      b.sim.registry.countLlm counted + planned (plans.map (b.preScan details)) counted := by
    simp only [demand, hregistry, hact, Stage.planned]
  constructor
  case below => exact hregistry ▸ h.below
  case nodup => exact hagents ▸ h.nodup
  case scheduled =>
    dsimp only
    rw [hact]
    exact List.nodup_nil
  case simulation => exact fun cap => hdemand _ ▸ fits.1 cap
  case task =>
    intro cap taskId hne
    rw [hdemand]
    by_cases hnamed : ∃ plan ∈ plans.map (b.preScan details), taskId ∈ plan.passing
    · obtain ⟨plan, hplan, htask⟩ := hnamed
      exact fits.2 cap plan hplan taskId htask hne
    · rw [planned_task_eq_zero fun plan hplan htask => hnamed ⟨plan, hplan, htask⟩]
      exact hcapped.task cap taskId hne
  case agent =>
    intro agentId
    rw [hdemand]
    dsimp only
    rw [hcap]
    refine planned_agent_le ?_ (hcapped.agent agentId) fun plan hplan hagent => ?_
    · have hscheduled := h.scheduled
      rw [hstage, Stage.scheduled, List.append_nil] at hscheduled
      have hagents : (plans.map (b.preScan details)).map Plan.agentId = plans.map Plan.agentId := by
        rw [List.map_map]
        exact List.map_congr_left fun plan _ => preScan_agentId
      rwa [hagents]
    · obtain ⟨original, -, rfl⟩ := List.mem_map.mp hplan
      rw [preScan_agentId] at hagent
      exact hagent ▸ preScan_agent (hcapped.agent original.agentId)

/-- A move under which plans fit together keeps the caps in place. -/
theorem Held.step (h : b.Held) (fits : b.fitsTogether move) (moves : b.step move = some c) : c.Held := by
  cases move with
  | move move =>
    unfold BudgetedSimulation.step at moves
    dsimp only at moves
    split at moves
    next => cases moves
    next hbefore =>
      obtain ⟨sim, hsim, rfl⟩ := Option.map_eq_some_iff.mp moves
      exact h.handles (Simulation.step_handles hsim fun plans hstage gate intents hmove =>
        hbefore plans gate intents hstage hmove)
  | validate details =>
    unfold BudgetedSimulation.step at moves
    unfold fitsTogether at fits
    dsimp only at moves fits
    split at moves
    next plans hstage =>
      obtain ⟨sim, hsim, rfl⟩ := Option.map_eq_some_iff.mp moves
      rw [hstage] at fits
      cases hsim
      exact h.validate hstage fits rfl rfl rfl rfl
    next => cases moves
  | charge agentId taskId model inputTokens outputTokens wallTimeSeconds =>
    cases moves
    exact ⟨h.below, h.nodup, h.scheduled, h.simulation, h.task, h.agent⟩

/-- A simulation with its budget, as `_initialize` leaves it. -/
def initial (agents : List String) (bootstrap human : String → Bool) (route : String → Route)
    (maxConcurrentLlmRequests maxActiveAgentsPerTick : ℕ) (limits : BudgetConfig) (tickDurationSeconds : ℚ) :
    BudgetedSimulation where
  sim := Simulation.initial agents bootstrap human route maxConcurrentLlmRequests maxActiveAgentsPerTick
  limits := limits
  tickDurationSeconds := tickDurationSeconds

/-- In every run in which the plans that pass Validate fit together, the caps hold in every state. -/
theorem capped_of_fitting {agents : List String} {bootstrap human : String → Bool} {route : String → Route}
    {requests active : ℕ} {limits : BudgetConfig} {tickDurationSeconds : ℚ} (nodup : agents.Nodup)
    (h : Reaches step fitsTogether (initial agents bootstrap human route requests active limits tickDurationSeconds)
      b) :
    b.Capped := by
  refine Held.capped (h.invariant (I := Held) ?_ fun held fits moves => held.step fits moves)
  constructor
  case below => exact fun _ hmem => absurd hmem List.not_mem_nil
  case nodup => exact nodup
  case scheduled => exact List.nodup_nil
  case simulation => exact fun _ => Nat.zero_le _
  case task => exact fun _ _ _ => Nat.zero_le _
  case agent => exact fun _ => Nat.zero_le _

/-- An agent that starts alone, under a cap on the model requests in flight. -/
def oneStarter : BudgetedSimulation :=
  initial ["a"] (fun _ => true) (fun _ => false) (fun _ => .remote) 4 8 { simulation := { concurrency := 1 } } 10

/-- A request of one agent is within a cap of one. -/
theorem capped_of_fitting_one : ∃ b, Reaches step fitsTogether oneStarter b ∧
    b.sim.registry.countLlm (fun _ _ => true) = 1 ∧ b.Capped := by
  have hrun : (follow (within step fitsTogether) oneStarter ((Move.opening ++ Move.waking .bootstrap "a" 0 ++
      [Move.decide false [(.submitLlmRequest "r" "" 5, true)]]).map .move ++
        [.validate fun _ _ => {}, .move (.act true), .move (.act true)])).map (fun b =>
      b.sim.registry.countLlm fun _ _ => true) = some 1 := by
    decide +kernel
  obtain ⟨b, hb, hcount⟩ := Option.map_eq_some_iff.mp hrun
  exact ⟨b, .of_follow hb, hcount, capped_of_fitting (by decide) (.of_follow hb)⟩

/-- Two agents that start together, under a cap of one model request in flight. -/
def twoStarters : BudgetedSimulation :=
  initial ["a", "b"] (fun _ => true) (fun _ => false) (fun _ => .remote) 4 8 { simulation := { concurrency := 1 } } 10

/-- A wake event for each of the two. -/
def bootstraps : List WakeupEvent :=
  [{ eventId := 0, eventType := .bootstrap, targetAgentId := "a", tick := 0, visibleAtTick := 0 },
    { eventId := 1, eventType := .bootstrap, targetAgentId := "b", tick := 0, visibleAtTick := 0 }]

/-- The candidates of the two starters. -/
def starting : List ReadyCandidate :=
  bootstraps.map fun event => ⟨event.targetAgentId, [event]⟩

/-- The two starters before Schedule. -/
def twoWoken : BudgetedSimulation :=
  { twoStarters with
    sim := { twoStarters.sim with
      scheduler := { twoStarters.sim.scheduler with events := bootstraps.map fun event => { event := event } }
      nextEventId := 2
      stage := .schedule } }

/-- The two starters after Schedule. -/
def twoActive : BudgetedSimulation :=
  { twoWoken with
    sim := { (Simulation.activateAll { twoWoken.sim with
        scheduler := (twoWoken.sim.scheduler.markEligible).requeueEvents [], ready := starting } starting).1 with
      stage := .decide ["a", "b"] [] } }

/-- Both of them are scheduled. -/
theorem schedule_twoWoken : twoWoken.step (.move (.schedule fun _ => ⟨-1, none⟩)) = some twoActive := by
  have hsorted : (["a", "b"].mergeSort (Urgency.le fun _ => ⟨-1, none⟩)) = ["a", "b"] :=
    List.mergeSort_of_pairwise (by decide +kernel)
  have hcandidates : twoWoken.sim.scheduler.markEligible.candidates 0 twoWoken.sim.agentStates
      (fun _ => ⟨-1, none⟩) = starting :=
    congrArg (List.map _) hsorted
  have hcomputed : twoWoken.sim.scheduler.computeReadySet 0 twoWoken.sim.agentStates (fun _ => ⟨-1, none⟩) =
      ((twoWoken.sim.scheduler.markEligible).requeueEvents [], starting) := by
    unfold AgentScheduler.computeReadySet
    dsimp only
    rw [hcandidates]
    rfl
  have hscheduled : twoWoken.sim.schedule (fun _ => ⟨-1, none⟩) = Simulation.activateAll { twoWoken.sim with
      scheduler := (twoWoken.sim.scheduler.markEligible).requeueEvents [], ready := starting } starting :=
    congrArg (fun computed : AgentScheduler × List ReadyCandidate => Simulation.activateAll
      { twoWoken.sim with scheduler := computed.1, ready := computed.2, notices := [] } computed.2) hcomputed
  exact congrArg (fun scheduled : Simulation × Bool => some { twoWoken with sim := { scheduled.1 with
    stage := if scheduled.2 then .decide (["a", "b"].filter fun agent => scheduled.1.ready.any fun candidate =>
      candidate.agentId == agent) [] else .boundary } }) hscheduled

/-- Two agents, each of which is alone within a cap of one, ask the model in one tick: two requests are in flight. -/
theorem capped_exceeded : ¬∀ (agents : List String) (bootstrap human : String → Bool) (route : String → Route)
    (requests active : ℕ) (limits : BudgetConfig) (tickDurationSeconds : ℚ) (b : BudgetedSimulation), agents.Nodup →
      Reaches step (fun _ _ => True)
        (initial agents bootstrap human route requests active limits tickDurationSeconds) b → b.Capped := by
  intro h
  have hwoken : follow (within step fun _ _ => True) twoStarters
      ((Move.opening ++ bootstraps.map Move.wake).map .move) = some twoWoken := rfl
  have hrun : (follow (within step fun _ _ => True) twoActive
      (["r", "q"].map (fun id => .move (.decide false [(.submitLlmRequest id "" 5, true)])) ++
        .validate (fun _ _ => {}) :: List.replicate 4 (.move (.act true)))).map (fun b =>
      (b.sim.registry.countLlm (fun _ _ => true), b.limits.simulation.concurrency)) = some (2, 1) := by
    decide +kernel
  obtain ⟨b, hb, hend⟩ := Option.map_eq_some_iff.mp hrun
  obtain ⟨hcount, hcap⟩ := Prod.mk.inj hend
  have hreaches := ((Reaches.of_follow hwoken).trans (.move _ .refl trivial schedule_twoWoken)).trans (.of_follow hb)
  have hcapped := (h _ _ _ _ _ _ _ _ b (by decide) hreaches).simulation (hcap ▸ Nat.one_pos)
  rw [hcount, hcap] at hcapped
  exact absurd hcapped (by decide)

end BudgetedSimulation

end MyTeam.Legacy
