import MyTeam.Legacy.Concurrency

/-!
# Rounds of model requests

Validate judges the model requests of a plan as a whole, and rejects all of the plan or nothing. Act
counts again before each request, and counts what it has submitted in this tick twice: the registry holds
it, and it is added once more. So Act turns down requests of a plan that has passed, unless the plan is
small enough for its requests to be counted twice.
-/

namespace MyTeam.Legacy

open MyTeam.Py MyTeam.Async

/-- The chosen id and the task of a model request. -/
def Intent.request : Intent → Option (String × String)
  | .submitLlmRequest chosenId taskId _ => some (chosenId, taskId)
  | _ => none

namespace PendingOperationRegistry

variable {r : PendingOperationRegistry} {op : PendingOperation} {first : ℕ} {agent : String}

/-- All ids are below the next one. -/
theorem below_submit (below : ∀ id ∈ r.operations, id < r.nextId) :
    ∀ id ∈ (r.submit op).operations, id < (r.submit op).nextId := by
  intro id hid
  rcases List.mem_append.mp hid with hold | hnew
  · exact Nat.lt_succ_of_lt (below id hold)
  · rw [List.mem_singleton.mp hnew]
    exact Nat.lt_succ_self _

end PendingOperationRegistry

namespace Simulation

/-- The state of an agent after an intent whose request is submitted; `none` where Act raises. -/
def settles (s : Simulation) (intent : Intent) (state : AgentState) : Option AgentState :=
  match intent with
  | .submitLlmRequest .. => state.transitionToWaiting .waitingForLlm
  | .submitToolRequest _ _ toolName _ _ =>
    match s.route toolName with
    | .kernel => some state
    | .remote => state.transitionToWaiting .waitingForTool
    | .integration => state.transitionToWaiting .waitingForExternal
  | .waitForEvent waitingState => (AgentState.ofValue waitingState).bind state.transitionToWaiting
  | .memoryConsolidate .. | .stage _ => some state

/-- Every event that the intents wait for names a state that the agent can go to. -/
def Settles (s : Simulation) : Option AgentState → List (Intent × Bool) → Prop
  | none, _ => True
  | some _, [] => True
  | some state, (intent, _) :: rest => ∃ next, s.settles intent state = some next ∧ Settles s (some next) rest

/-- The model requests of an agent as Act counts them. -/
def counted (s : Simulation) (agent : String) : ℕ :=
  s.registry.countInFlight agent .llmRequest + s.submittedLlm agent

end Simulation

namespace BudgetedSimulation

end BudgetedSimulation

namespace Simulation

variable {s t : Simulation} {agent : String} {written : Bool} {intent : Intent} {first : ℕ}

/-- What an intent leaves alone. -/
structure Steady (s t : Simulation) : Prop where
  cap : t.maxConcurrentLlmRequests = s.maxConcurrentLlmRequests
  route : t.route = s.route
  raises : t.raises = s.raises

/-- All ids of operations are below the next one. -/
def Below (s : Simulation) : Prop := ∀ id ∈ s.registry.operations, id < s.registry.nextId

/-- Act on plans stands at one of them, and has submitted nothing for the agents of those to come. -/
def StandsIn (s : Simulation) (plans : List Plan) : Prop :=
  ∀ agent intents rest, s.stage = .act (⟨agent, intents⟩ :: rest) → ∃ before begun,
    plans = before ++ ⟨agent, begun ++ intents⟩ :: rest ∧ (begun = [] → s.submittedLlm agent = 0) ∧
      ∀ plan ∈ rest, s.submittedLlm plan.agentId = 0

/-- An intent of an agent is not counted for another. -/
theorem actIntent_submittedLlm {other : String} (h : s.actIntent agent written intent = some t)
    (hother : other ≠ agent) :
    t.submittedLlm other = s.submittedLlm other := by
  have hsubmit {u : Simulation} {op : PendingOperation} {advance : AgentContinuation → ℕ → AgentContinuation}
      {target : AgentState} (h : u.submitOperation agent op advance target = some t) :
      t.submittedLlm = u.submittedLlm := by
    unfold submitOperation at h
    dsimp only at h
    split at h
    next => cases h; rfl
    next =>
      obtain ⟨_, -, h⟩ := Option.bind_eq_some_iff.mp h
      cases h
      rfl
  cases intent with
  | submitLlmRequest chosenId taskId timeoutTicks =>
    rw [actIntent] at h
    split at h
    · cases h; rfl
    · rw [hsubmit h]
      exact Function.update_of_ne hother _ _
  | submitToolRequest chosenId taskId toolName timeoutTicks arguments =>
    rw [actIntent] at h
    dsimp only at h
    split at h
    · cases h; rfl
    · rw [hsubmit h]
    · rw [hsubmit h]
  | waitForEvent waitingState =>
    rw [actIntent] at h
    split at h
    · cases h; rfl
    next =>
      obtain ⟨_, -, h⟩ := Option.bind_eq_some_iff.mp h
      obtain ⟨_, -, h⟩ := Option.bind_eq_some_iff.mp h
      cases h
      rfl
  | memoryConsolidate action structuredSummary =>
    rw [actIntent] at h
    split_ifs at h <;> cases h <;> rfl
  | stage data => cases h; rfl

/-- A move of Act goes on through the plans. -/
theorem StandsIn.act {plans : List Plan} (stands : s.StandsIn plans) (nodup : (plans.map Plan.agentId).Nodup)
    (h : s.act written = some t) : t.StandsIn plans := by
  unfold Simulation.act at h
  split at h
  next =>
    cases h
    exact fun _ _ _ hstage => by cases hstage
  next agent rest hstage =>
    cases h
    intro next intents later hlater
    obtain ⟨before, begun, hplans, -, hrest⟩ := stands _ _ _ hstage
    obtain rfl : rest = ⟨next, intents⟩ :: later := Stage.act.inj hlater
    obtain ⟨hnext, hafter⟩ := List.forall_mem_cons.mp hrest
    exact ⟨before ++ [⟨agent, begun ++ []⟩], [], by simp [hplans], fun _ => hnext, hafter⟩
  next agent intent valid intents rest hstage =>
    obtain ⟨u, hu, rfl⟩ := Option.map_eq_some_iff.mp h
    intro same left rest' hleft
    obtain ⟨before, begun, hplans, -, hrest⟩ := stands _ _ _ hstage
    obtain ⟨hplan, hrest'⟩ := List.cons.inj (Stage.act.inj hleft)
    cases hplan
    cases hrest'
    refine ⟨before, begun ++ [(intent, valid)], by simp [hplans], fun h => by simp at h, fun plan hplan => ?_⟩
    have hother : plan.agentId ≠ agent := by
      rw [hplans, List.map_append, List.map_cons] at nodup
      have hmem := List.mem_map_of_mem (f := Plan.agentId) hplan
      intro hsame
      rw [hsame] at hmem
      exact (List.nodup_cons.mp (List.nodup_append.mp nodup).2.1).1 hmem
    cases valid with
    | false =>
      cases hu
      exact hrest plan hplan
    | true => exact (actIntent_submittedLlm (perform_eq_some.mp hu).2 hother).trans (hrest plan hplan)
  next => cases h

/-- Where Act comes to a plan, it has counted no request of its agent. -/
theorem StandsIn.fresh {plans before after : List Plan} {plan : Plan} (stands : s.StandsIn plans)
    (hplans : plans = before ++ plan :: after) (hstage : s.stage = .act (plan :: after)) :
    s.submittedLlm plan.agentId = 0 := by
  obtain ⟨earlier, begun, hearlier, hfresh, -⟩ := stands plan.agentId plan.intents after hstage
  have hplan := (List.cons.inj (List.append_inj_right' (hplans.symm.trans hearlier) rfl)).1
  exact hfresh (List.append_left_eq_self.mp (congrArg Plan.intents hplan).symm)

end Simulation

namespace BudgetedSimulation

variable {b c : BudgetedSimulation} {move : BudgetedMove} {details : String → ℕ → RequestDetail} {s t : Simulation}

/-- Operations have ids below the next one, and agents decide once in a tick. -/
structure Orderly (b : BudgetedSimulation) : Prop where
  below : b.sim.Below
  nodup : b.sim.agents.Nodup
  scheduled : b.sim.stage.scheduled.Nodup

/-- Every move keeps operations and plans in order. -/
theorem Orderly.step (h : b.Orderly) (moves : b.step move = some c) : c.Orderly := by
  have hhandles {sim : Simulation} (handles : Simulation.Handles b.sim sim) : Orderly { b with sim := sim } :=
    ⟨handles.below h.below, handles.agents ▸ h.nodup, handles.scheduled h.nodup h.scheduled⟩
  cases move with
  | move move =>
    unfold BudgetedSimulation.step at moves
    dsimp only at moves
    split at moves
    next => cases moves
    next hbefore =>
      obtain ⟨sim, hsim, rfl⟩ := Option.map_eq_some_iff.mp moves
      exact hhandles (Simulation.step_handles hsim fun plans hstage gate intents hmove =>
        hbefore plans gate intents hstage hmove)
  | validate details =>
    unfold BudgetedSimulation.step at moves
    dsimp only at moves
    split at moves
    next plans hstage =>
      cases moves
      exact ⟨h.below, h.nodup, List.nodup_nil⟩
    next => cases moves
  | charge agentId taskId model inputTokens outputTokens wallTimeSeconds =>
    cases moves
    exact ⟨h.below, h.nodup, h.scheduled⟩

/-- A plan of model requests. -/
def asking (ids : List String) : Plan where
  agentId := "a"
  intents := ids.map fun id => (.submitLlmRequest id "" 5, true)

end BudgetedSimulation

end MyTeam.Legacy
