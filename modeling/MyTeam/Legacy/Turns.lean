import MyTeam.Legacy.Tick

/-!
# What a move does

The moves of a tick treat the operations and the continuations of the agents in a few ways: they
change the status of operations, take one out of the registry, with or without telling its agent,
submit one, take an agent into or out of consolidation, or roll a tick back. `Turn` lists these
ways once, with what each leaves alone.

Some moves lose sight of an agent that waits: the epoch fence drops an operation that is still
awaited, a rollback restores a wait for an operation that is gone, and leaving consolidation
resumes a wait that was answered in between. `strands` singles them out.
-/

namespace MyTeam.Legacy

open MyTeam.Py

/-- The operations that Ingest has collected and has yet to look at. -/
def Stage.remaining : Stage → List ℕ
  | .completed rest => rest
  | .receipted rest => rest
  | _ => []

/-- Leaving consolidation would resume a wait that nothing is pending for. -/
def AgentContinuation.resumesNothing (c : AgentContinuation) : Bool :=
  c.resumePhase.any (fun phase => decide phase.Awaiting) && c.pendingRequestId.isNone

/-- Nothing new is written into a continuation. -/
def AgentContinuation.Keeps (c c' : AgentContinuation) : Prop :=
  (c'.lastLlmResult = c.lastLlmResult ∨ c'.lastLlmResult = []) ∧
    (c'.lastToolResult = c.lastToolResult ∨ c'.lastToolResult = [])

/-- A continuation that stays keeps its results. -/
theorem AgentContinuation.Keeps.refl (c : AgentContinuation) : c.Keeps c :=
  ⟨Or.inl rfl, Or.inl rfl⟩

/-- Operations change their status, result and error, and nothing else. -/
structure PendingOperationRegistry.Settles (r r' : PendingOperationRegistry) : Prop where
  operations : r'.operations = r.operations
  nextId : r'.nextId = r.nextId
  agentId : ∀ id, (r'.op id).agentId = (r.op id).agentId

namespace PendingOperationRegistry

variable {r : PendingOperationRegistry} {id : ℕ}

/-- A change of a record that keeps its agent. -/
theorem edit_settles {f : PendingOperation → PendingOperation} (agentId : (f (r.op id)).agentId = (r.op id).agentId) :
    r.Settles (r.edit id f) := by
  refine ⟨rfl, rfl, fun other => ?_⟩
  by_cases hother : other = id
  · subst hother
    simp [edit, agentId]
  · simp [edit, hother]

/-- Completing an operation. -/
theorem complete_settles {result : List (String × Value)} : r.Settles (r.complete id result) := by
  unfold complete
  split
  · exact edit_settles rfl
  · exact ⟨rfl, rfl, fun _ => rfl⟩

/-- Failing an operation. -/
theorem fail_settles {error : String} : r.Settles (r.fail id error) := by
  unfold fail
  split
  · exact edit_settles rfl
  · exact ⟨rfl, rfl, fun _ => rfl⟩

/-- Claiming an operation. -/
theorem claim_settles : r.Settles (r.claim id) := by
  unfold claim
  split
  · exact edit_settles rfl
  · exact ⟨rfl, rfl, fun _ => rfl⟩

/-- Operations time out. -/
theorem timeOut_settles {tick : ℕ} : r.Settles (r.timeOut tick) := by
  refine ⟨rfl, rfl, fun other => ?_⟩
  unfold timeOut
  dsimp only
  split <;> rfl

/-- A rollback only takes operations out of the registry. -/
theorem foldl_removeForRollback (submitted : List (String × ℕ)) :
    (submitted.foldl (fun r entry => r.removeForRollback entry.2) r).operations.Sublist r.operations ∧
      (submitted.foldl (fun r entry => r.removeForRollback entry.2) r).nextId = r.nextId := by
  induction submitted generalizing r with
  | nil => exact ⟨List.Sublist.refl _, rfl⟩
  | cons entry rest ih =>
    have hone : (r.removeForRollback entry.2).operations.Sublist r.operations ∧
        (r.removeForRollback entry.2).nextId = r.nextId := by
      unfold removeForRollback
      split
      · exact ⟨List.erase_sublist, rfl⟩
      · exact ⟨List.Sublist.refl _, rfl⟩
    exact ⟨ih.1.trans hone.1, ih.2.trans hone.2⟩

end PendingOperationRegistry

namespace Simulation

open PendingOperationRegistry

/-- The continuation of an agent. -/
def continuation (s : Simulation) (agent : String) : Option AgentContinuation :=
  (s.runtimes agent).map AgentRuntimeState.continuation

/-- The write that Ingest makes of an operation. -/
def record (s : Simulation) (id : ℕ) : Write where
  requestId := id
  awaited := (s.runtimes (s.registry.op id).agentId).bind fun runtime => runtime.continuation.pendingRequestId
  opEpoch := (s.registry.op id).stateEpoch
  stateEpoch := s.stateEpoch

/-- The operation whose result the next step of Ingest writes. -/
def Writes (s : Simulation) (id : ℕ) : Prop :=
  s.Awaits id ∧ ((∃ rest, s.stage = .completed (id :: rest)) ∧ (s.registry.op id).stateEpoch = s.stateEpoch ∨
    ∃ rest, s.stage = .receipted (id :: rest))

/-- The operation about which a move writes something into the continuation of its agent. -/
def Delivers (s : Simulation) (id : ℕ) : Move → Prop
  | .cancel cancelled => cancelled = id ∧ id ∈ s.registry.operations ∧ (s.registry.op id).status.InFlight ∧ s.Awaits id
  | .ingest => s.Awaits id ∧ match s.stage with
    | .expired (next :: _) => next = id
    | .failed (next :: _) => next = id
    | .completed (next :: _) => next = id ∧ (s.registry.op id).stateEpoch = s.stateEpoch
    | .receipted (next :: _) => next = id
    | _ => False
  | _ => False

/-- The moves that leave an agent waiting for nothing. -/
def strands (s : Simulation) : Move → Bool
  | .ingest => match s.stage with
    | .completed (id :: _) => decide ((s.registry.op id).stateEpoch ≠ s.stateEpoch) && decide (s.Awaits id)
    | _ => false
  | .decide gate _ => match s.stage with
    | .decide (agent :: _) _ => (s.continuation agent).any fun c => gate && !c.pendingResult && c.resumesNothing
    | _ => false
  | .act written => match s.stage with
    | .act (⟨agent, (.memoryConsolidate "exit" structuredSummary, true) :: _⟩ :: _) =>
      (written || !structuredSummary) && (s.continuation agent).any AgentContinuation.resumesNothing
    | _ => false
  | .commit rolledBack => rolledBack && s.tickContinuations.any fun entry =>
      entry.2.2.1.any fun id => !s.registry.operations.contains id || (s.tickPendingOps.map Prod.snd).contains id
  | _ => false

/-- The ways a move treats the operations and the continuations. -/
inductive Turn (s : Simulation) (move : Move) (t : Simulation) : Prop
  | settle (registry : s.registry.Settles t.registry) (continuation : t.continuation = s.continuation)
      (writes : t.writes = s.writes)
      (remaining : t.stage.remaining.Sublist s.stage.remaining ∨
        ∃ chosen, t.stage.remaining = s.registry.operations.filter chosen)
      (submissions : t.tickPendingOps = s.tickPendingOps ∧ t.tickContinuations = s.tickContinuations ∨
        t.tickPendingOps = [] ∧ t.tickContinuations = [])
  | leave (id : ℕ) (registry : (s.registry.remove id).Settles t.registry)
      (continuation : s.Delivers id move ∧ (∃ c : AgentContinuation, c.phase = .processingResult ∧
          c.pendingRequestId = none ∧
          t.continuation = Function.update s.continuation (s.registry.op id).agentId (some c)) ∨
        (¬s.Awaits id ∨ s.strands move = true) ∧ t.continuation = s.continuation)
      (writes : t.writes = s.writes ∧ t.stage.remaining.Sublist s.stage.remaining ∨
        move = .ingest ∧ s.Writes id ∧ t.writes = s.writes ++ [s.record id] ∧
          s.stage.remaining = id :: t.stage.remaining)
      (submissions : t.tickPendingOps = s.tickPendingOps ∧ t.tickContinuations = s.tickContinuations)
  | submit (agent : String) (op : PendingOperation) (c c' : AgentContinuation)
      (known : s.continuation agent = some c) (registry : t.registry = s.registry.submit op)
      (agentId : op.agentId = agent) (pending : c'.pendingRequestId = some s.registry.nextId) (results : c.Keeps c')
      (continuation : t.continuation = Function.update s.continuation agent (some c'))
      (writes : t.writes = s.writes) (remaining : t.stage.remaining.Sublist s.stage.remaining)
      (tickPendingOps : t.tickPendingOps = s.tickPendingOps ++ [(agent, s.registry.nextId)])
      (tickContinuations : t.tickContinuations =
        assign agent (c.phase, c.pendingRequestId, c.pendingRequestType) s.tickContinuations)
  | orphan (op : PendingOperation) (registry : t.registry = s.registry.submit op)
      (continuation : t.continuation = s.continuation) (writes : t.writes = s.writes)
      (remaining : t.stage.remaining.Sublist s.stage.remaining) (agent : String)
      (unknown : s.continuation agent = none)
      (tickPendingOps : t.tickPendingOps = s.tickPendingOps ++ [(agent, s.registry.nextId)])
      (tickContinuations : t.tickContinuations = s.tickContinuations)
  | think (agent : String) (f : AgentContinuation → AgentContinuation)
      (pending : ∀ c, (f c).pendingRequestId = c.pendingRequestId) (results : ∀ c : AgentContinuation, c.Keeps (f c))
      (phase : ∀ c, s.continuation agent = some c → (f c).phase.Awaiting →
        c.phase.Awaiting ∨ c.pendingRequestId ≠ none ∨ s.strands move = true)
      (registry : t.registry = s.registry)
      (continuation : t.continuation = Function.update s.continuation agent ((s.continuation agent).map f))
      (writes : t.writes = s.writes) (remaining : t.stage.remaining.Sublist s.stage.remaining)
      (submissions : t.tickPendingOps = s.tickPendingOps ∧ t.tickContinuations = s.tickContinuations)
  | rollback (allowed : move = .commit true) (back : t = { s.rollback with stage := .publish })

variable {s t : Simulation} {move : Move} {id : ℕ} {agent : String}

/-- What is written was awaited. -/
theorem Delivers.awaits (h : s.Delivers id move) : s.Awaits id := by
  cases move with
  | cancel cancelled => exact h.2.2.2
  | ingest => exact h.1
  | _ => exact h.elim

/-- An operation is awaited through the continuation of its agent. -/
theorem awaits_iff : s.Awaits id ↔
    ∃ c, s.continuation (s.registry.op id).agentId = some c ∧ c.pendingRequestId = some id := by
  simp only [Awaits, continuation, Option.map_eq_some_iff]
  constructor
  · rintro ⟨runtime, hruntime, hpending⟩
    exact ⟨_, ⟨runtime, hruntime, rfl⟩, hpending⟩
  · rintro ⟨_, ⟨runtime, hruntime, rfl⟩, hpending⟩
    exact ⟨runtime, hruntime, hpending⟩

/-- What is awaited does not depend on the status of operations. -/
theorem awaits_settled {registry : PendingOperationRegistry} (h : s.registry.Settles registry) :
    Awaits { s with registry := registry } id ↔ s.Awaits id := by
  rw [awaits_iff, awaits_iff, ← h.agentId id]
  rfl

/-- Changing the continuation of an agent. -/
theorem resume_continuation {f : AgentContinuation → AgentContinuation} : (s.resume agent f).continuation =
    Function.update s.continuation agent ((s.continuation agent).map f) := by
  funext other
  by_cases hother : other = agent
  · subst hother
    cases hruntime : s.runtimes other <;> simp [continuation, resume, hruntime]
  · simp [continuation, resume, hother]

/-- Changing the lifecycle state of an agent leaves its continuation alone. -/
theorem continuation_lifecycle {f : AgentState → AgentState} (h : t.runtimes = Function.update s.runtimes agent
    ((s.runtimes agent).map fun runtime => { runtime with state := f runtime.state })) :
    t.continuation = s.continuation := by
  funext other
  by_cases hother : other = agent
  · subst hother
    cases hruntime : s.runtimes other <;> simp [continuation, h, hruntime]
  · simp [continuation, h, hother]

/-- A delivered result leaves the agent of the operation with a result to process. -/
theorem deliver_continuation {result : List (String × Value)} (h : s.Awaits id) :
    ∃ c : AgentContinuation, c.phase = .processingResult ∧ c.pendingRequestId = none ∧
      (s.deliver id result).continuation = Function.update s.continuation (s.registry.op id).agentId (some c) := by
  obtain ⟨c, hc, -⟩ := awaits_iff.mp h
  have hreceive : (s.deliver id result).continuation = (s.receive id result).continuation := rfl
  rw [hreceive, receive, resume_continuation, hc]
  cases (s.registry.op id).opType with
  | llmRequest => exact ⟨c.receiveLlmResult result, rfl, rfl, rfl⟩
  | toolRequest => exact ⟨c.receiveToolResult result, rfl, rfl, rfl⟩

/-- Nothing changes but what a move of another kind touches. -/
theorem Turn.still (registry : t.registry = s.registry) (continuation : t.continuation = s.continuation)
    (writes : t.writes = s.writes) (remaining : t.stage.remaining.Sublist s.stage.remaining)
    (tickPendingOps : t.tickPendingOps = s.tickPendingOps)
    (tickContinuations : t.tickContinuations = s.tickContinuations) :
    Turn s move t :=
  .settle (by rw [registry]; exact ⟨rfl, rfl, fun _ => rfl⟩) continuation writes (Or.inl remaining)
    (Or.inl ⟨tickPendingOps, tickContinuations⟩)

/-- A notice about an operation, which then leaves the registry. -/
theorem turn_notify {notice : List (String × Value)} (stage : Stage) (delivers : s.Awaits id → s.Delivers id move)
    (hstage : stage.remaining.Sublist s.stage.remaining) :
    Turn s move { (s.notify id notice).drop id with stage := stage } := by
  unfold notify
  split_ifs with hawaits
  · exact .leave id ⟨rfl, rfl, fun _ => rfl⟩ (Or.inl ⟨delivers hawaits, deliver_continuation hawaits⟩)
      (Or.inl ⟨rfl, hstage⟩) ⟨rfl, rfl⟩
  · exact .leave id ⟨rfl, rfl, fun _ => rfl⟩ (Or.inr ⟨Or.inl hawaits, rfl⟩) (Or.inl ⟨rfl, hstage⟩) ⟨rfl, rfl⟩

/-- The next step of Ingest. -/
theorem turn_ingest (h : s.ingest = some t) : Turn s .ingest t := by
  unfold ingest at h
  have hnil (stage : Stage) (hstage : stage.remaining = []) :
      stage.remaining.Sublist s.stage.remaining := hstage ▸ List.nil_sublist _
  split at h <;> cases h
  next => exact .still rfl rfl rfl (hnil _ rfl) rfl rfl
  next hstage => exact turn_notify _ (fun hawaits => ⟨hawaits, by rw [hstage]⟩) (hnil _ rfl)
  next => exact .settle ⟨rfl, rfl, fun _ => rfl⟩ rfl rfl (Or.inr ⟨_, rfl⟩) (Or.inl ⟨rfl, rfl⟩)
  next hstage => exact turn_notify _ (fun hawaits => ⟨hawaits, by rw [hstage]⟩) (hnil _ rfl)
  next => exact .still rfl rfl rfl (hnil _ rfl) rfl rfl
  next id rest hstage =>
    have hrest : (Stage.completed rest).remaining.Sublist s.stage.remaining := by
      rw [hstage]
      exact List.sublist_cons_self id rest
    unfold completeOperation
    split_ifs with hepoch hawaits
    · refine .leave id ⟨rfl, rfl, fun _ => rfl⟩ (Or.inr ⟨?_, rfl⟩) (Or.inl ⟨rfl, hrest⟩) ⟨rfl, rfl⟩
      by_cases hawaits : s.Awaits id
      · exact Or.inr (by simp [strands, hstage, hepoch, hawaits])
      · exact Or.inl hawaits
    · have hdelivers : s.Delivers id .ingest := ⟨hawaits, by rw [hstage]; exact ⟨rfl, not_not.mp hepoch⟩⟩
      exact .leave id ⟨rfl, rfl, fun _ => rfl⟩ (Or.inl ⟨hdelivers, deliver_continuation hawaits⟩)
        (Or.inr ⟨rfl, ⟨hawaits, Or.inl ⟨⟨rest, hstage⟩, not_not.mp hepoch⟩⟩, rfl, by rw [hstage]; rfl⟩) ⟨rfl, rfl⟩
    · exact .leave id ⟨rfl, rfl, fun _ => rfl⟩ (Or.inr ⟨Or.inl hawaits, rfl⟩) (Or.inl ⟨rfl, hrest⟩) ⟨rfl, rfl⟩
  next => exact .settle ⟨rfl, rfl, fun _ => rfl⟩ rfl rfl (Or.inr ⟨_, rfl⟩) (Or.inl ⟨rfl, rfl⟩)
  next => exact .still rfl rfl rfl (hnil _ rfl) rfl rfl
  next id rest hstage =>
    unfold receiptOperation
    split_ifs with hawaits
    · exact .leave id ⟨rfl, rfl, fun _ => rfl⟩ (Or.inl ⟨⟨hawaits, by rw [hstage]⟩, deliver_continuation hawaits⟩)
        (Or.inr ⟨rfl, ⟨hawaits, Or.inr ⟨rest, hstage⟩⟩, rfl, by rw [hstage]; rfl⟩) ⟨rfl, rfl⟩
    · refine .still rfl rfl rfl ?_ rfl rfl
      rw [hstage]
      exact List.sublist_cons_self id rest

/-- A submission; `requests` is how the agents' counts of requests stand by then. -/
theorem turn_submit {op : PendingOperation} {advance : AgentContinuation → ℕ → AgentContinuation} {target : AgentState}
    {stage : Stage} (requests : String → ℕ)
    (h : submitOperation { s with submittedLlm := requests } agent op advance target = some t)
    (agentId : op.agentId = agent) (pending : ∀ c id, (advance c id).pendingRequestId = some id)
    (results : ∀ (c : AgentContinuation) (id : ℕ), c.Keeps (advance c id))
    (hstage : stage.remaining.Sublist s.stage.remaining) :
    Turn s move { t with stage := stage } := by
  unfold submitOperation at h
  dsimp only at h
  split at h
  next hruntime =>
    cases h
    exact .orphan op rfl rfl rfl hstage agent (by simp [continuation, hruntime]) rfl rfl
  next state c hruntime =>
    obtain ⟨state', -, h⟩ := Option.bind_eq_some_iff.mp h
    cases h
    refine .submit agent op c (advance c s.registry.nextId) (by simp [continuation, hruntime]) rfl agentId
      (pending c _) (results c _) ?_ rfl hstage rfl rfl
    funext other
    by_cases hother : other = agent
    · subst hother
      simp [continuation]
    · simp [continuation, hother]

/-- Leaving consolidation keeps what is pending, and resumes no wait for nothing unless that strands the agent. -/
theorem exit_phase {c : AgentContinuation} (h : c.exitConsolidating.phase.Awaiting) :
    c.phase.Awaiting ∨ c.pendingRequestId ≠ none ∨ c.resumesNothing = true := by
  unfold AgentContinuation.exitConsolidating at h
  split at h
  next => exact Or.inl h
  next phase hresume =>
    cases hpending : c.pendingRequestId with
    | none => exact Or.inr (Or.inr (by simp [AgentContinuation.resumesNothing, hresume, hpending, h]))
    | some id => exact Or.inr (Or.inl (Option.some_ne_none id))

/-- Leaving consolidation keeps what is pending. -/
theorem exit_pending {c : AgentContinuation} : c.exitConsolidating.pendingRequestId = c.pendingRequestId := by
  unfold AgentContinuation.exitConsolidating
  split <;> rfl

/-- Entering consolidation keeps what is pending. -/
theorem enter_pending {c : AgentContinuation} : c.enterConsolidating.pendingRequestId = c.pendingRequestId := by
  unfold AgentContinuation.enterConsolidating
  split <;> rfl

/-- Entering consolidation writes nothing. -/
theorem enter_keeps {c : AgentContinuation} : c.Keeps c.enterConsolidating := by
  unfold AgentContinuation.enterConsolidating
  split <;> exact ⟨Or.inl rfl, Or.inl rfl⟩

/-- Leaving consolidation writes nothing. -/
theorem exit_keeps {c : AgentContinuation} : c.Keeps c.exitConsolidating := by
  unfold AgentContinuation.exitConsolidating
  split <;> exact ⟨Or.inl rfl, Or.inl rfl⟩

/-- Processing a result writes nothing. -/
theorem finalize_keeps {c c' : AgentContinuation} (h : c.Keeps c') :
    c.Keeps c'.finalizeResultProcessing := by
  unfold AgentContinuation.finalizeResultProcessing
  split
  · exact ⟨Or.inr rfl, Or.inr rfl⟩
  · exact h

/-- Processing a result keeps what is pending. -/
theorem finalize_pending {c : AgentContinuation} :
    c.finalizeResultProcessing.pendingRequestId = c.pendingRequestId := by
  unfold AgentContinuation.finalizeResultProcessing
  split <;> rfl

/-- Processing a result begins no wait. -/
theorem finalize_phase {c : AgentContinuation} (h : c.finalizeResultProcessing.phase.Awaiting) : c.phase.Awaiting := by
  unfold AgentContinuation.finalizeResultProcessing at h
  split at h
  · simp [ContinuationPhase.Awaiting] at h
  · exact h

/-- Entering consolidation ends a wait, or changes nothing. -/
theorem enter_phase {c : AgentContinuation} (h : c.enterConsolidating.phase.Awaiting) : c.phase.Awaiting := by
  unfold AgentContinuation.enterConsolidating at h
  split at h
  · exact h
  · simp [ContinuationPhase.Awaiting] at h

/-- An agent is taken into or out of consolidation, or a result is processed. -/
theorem turn_resume {f : AgentContinuation → AgentContinuation} {stage : Stage}
    (pending : ∀ c, (f c).pendingRequestId = c.pendingRequestId) (results : ∀ c : AgentContinuation, c.Keeps (f c))
    (phase : ∀ c, s.continuation agent = some c → (f c).phase.Awaiting →
      c.phase.Awaiting ∨ c.pendingRequestId ≠ none ∨ s.strands move = true)
    (hstage : stage.remaining.Sublist s.stage.remaining) :
    Turn s move { s.resume agent f with stage := stage } :=
  .think agent f pending results phase rfl resume_continuation rfl hstage ⟨rfl, rfl⟩

/-- The next step of Act. -/
theorem turn_act {written : Bool} (h : s.act written = some t) : Turn s (.act written) t := by
  have hnil (stage : Stage) (hstage : stage.remaining = []) :
      stage.remaining.Sublist s.stage.remaining := hstage ▸ List.nil_sublist _
  unfold act at h
  split at h
  next => cases h; exact .still rfl rfl rfl (hnil _ rfl) rfl rfl
  next => cases h; exact .still rfl rfl rfl (hnil _ rfl) rfl rfl
  next agent intent valid intents rest hstage =>
    obtain ⟨u, hu, rfl⟩ := Option.map_eq_some_iff.mp h
    cases valid with
    | false =>
      cases hu
      exact .still rfl rfl rfl (hnil _ rfl) rfl rfl
    | true =>
      rw [if_pos rfl] at hu
      replace hu := (perform_eq_some.mp hu).2
      cases intent with
      | submitLlmRequest chosenId taskId timeoutTicks =>
        rw [actIntent] at hu
        split at hu
        · cases hu
          exact .still rfl rfl rfl (hnil _ rfl) rfl rfl
        · exact turn_submit _ hu rfl (fun _ _ => rfl) (fun _ _ => ⟨Or.inl rfl, Or.inl rfl⟩) (hnil _ rfl)
      | submitToolRequest chosenId taskId toolName timeoutTicks arguments =>
        rw [actIntent] at hu
        dsimp only at hu
        split at hu
        · cases hu
          exact .still rfl rfl rfl (hnil _ rfl) rfl rfl
        · exact turn_submit s.submittedLlm hu rfl (fun _ _ => rfl) (fun _ _ => ⟨Or.inl rfl, Or.inl rfl⟩) (hnil _ rfl)
        · exact turn_submit s.submittedLlm hu rfl (fun _ _ => rfl) (fun _ _ => ⟨Or.inl rfl, Or.inl rfl⟩) (hnil _ rfl)
      | waitForEvent waitingState =>
        rw [actIntent] at hu
        split at hu
        · cases hu
          exact .still rfl rfl rfl (hnil _ rfl) rfl rfl
        next runtime hruntime =>
          obtain ⟨_, -, hu⟩ := Option.bind_eq_some_iff.mp hu
          obtain ⟨_, -, hu⟩ := Option.bind_eq_some_iff.mp hu
          cases hu
          refine .still rfl ?_ rfl (hnil _ rfl) rfl rfl
          funext other
          by_cases hother : other = agent
          · subst hother
            simp [continuation, hruntime]
          · simp [continuation, hother]
      | memoryConsolidate action structuredSummary =>
        rw [actIntent] at hu
        split_ifs at hu with henter hexit hsummary
        · cases hu
          exact turn_resume (fun _ => enter_pending) (fun _ => enter_keeps)
            (fun c _ hphase => Or.inl (enter_phase hphase))
            (hnil _ rfl)
        · cases hu
          exact .still rfl rfl rfl (hnil _ rfl) rfl rfl
        · cases hu
          refine turn_resume (fun _ => exit_pending) (fun _ => exit_keeps) (fun c hc hphase => ?_) (hnil _ rfl)
          refine (exit_phase hphase).imp_right (Or.imp_right fun hnothing => ?_)
          have hwritten : (written || !structuredSummary) = true := by
            cases written <;> cases structuredSummary <;> simp_all
          simp [strands, hstage, hexit, hc, hnothing, hwritten]
        · cases hu
          exact .still rfl rfl rfl (hnil _ rfl) rfl rfl
      | stage data =>
        cases hu
        exact .still rfl rfl rfl (hnil _ rfl) rfl rfl
  next => cases h

/-- What every activation preserves holds after them. -/
theorem activateAll_invariant {P : Simulation → Prop} {candidates : List ReadyCandidate} (start : P s)
    (preserved : ∀ {u v candidate}, candidate ∈ candidates → P u → u.activate candidate = some v → P v) :
    P (s.activateAll candidates).1 := by
  induction candidates generalizing s with
  | nil => exact start
  | cons candidate rest ih =>
    rw [activateAll]
    split
    · exact start
    next t hactivate =>
      exact ih (preserved List.mem_cons_self start hactivate) fun hmem => preserved (List.mem_cons_of_mem _ hmem)

/-- Schedule leaves the operations and the continuations alone. -/
theorem schedule_continuation (s : Simulation) (urgency : String → Urgency) :
    (s.schedule urgency).1.registry = s.registry ∧ (s.schedule urgency).1.continuation = s.continuation ∧
      (s.schedule urgency).1.writes = s.writes ∧ (s.schedule urgency).1.tickPendingOps = s.tickPendingOps ∧
      (s.schedule urgency).1.tickContinuations = s.tickContinuations := by
  refine activateAll_invariant (P := fun u => u.registry = s.registry ∧ u.continuation = s.continuation ∧
    u.writes = s.writes ∧ u.tickPendingOps = s.tickPendingOps ∧ u.tickContinuations = s.tickContinuations)
    ⟨rfl, rfl, rfl, rfl, rfl⟩ ?_
  rintro u v candidate - ⟨hregistry, hcontinuation, hwrites, hops, hconts⟩ hv
  obtain ⟨_, -, hv⟩ := Option.bind_eq_some_iff.mp hv
  cases hv
  refine ⟨hregistry, ?_, hwrites, hops, hconts⟩
  rw [← hcontinuation]
  exact continuation_lifecycle rfl

/-- The end of an activation leaves the operations and the continuations alone. -/
theorem turn_conclude {candidate : ReadyCandidate} {stage : Stage} (hstage : stage.remaining = []) :
    Turn s move { s.concludeActivation candidate with stage := stage } := by
  have hnil : stage.remaining.Sublist s.stage.remaining := hstage ▸ List.nil_sublist _
  unfold concludeActivation
  split
  · exact .still rfl rfl rfl hnil rfl rfl
  · exact .still rfl (continuation_lifecycle rfl) rfl hnil rfl rfl

/-- Cancelling an operation. -/
theorem turn_cancel : Turn s (.cancel id) (s.cancelOperation id) := by
  unfold cancelOperation PendingOperationRegistry.cancel
  split_ifs with hflight
  · dsimp only
    generalize hedited : (s.registry.edit id fun op => { op with status := .cancelled }) = edited
    have hsettles : s.registry.Settles edited := hedited ▸ edit_settles rfl
    have hremoved : (s.registry.remove id).Settles (edited.remove id) :=
      ⟨congrArg (List.erase · id) hsettles.operations, hsettles.nextId, hsettles.agentId⟩
    have hawaits : Awaits { s with registry := edited } id ↔ s.Awaits id := awaits_settled hsettles
    unfold notify
    split_ifs with hcancelled
    · obtain ⟨c, hphase, hpending, hcontinuation⟩ := deliver_continuation hcancelled
      have hdelivers : s.Delivers id (.cancel id) := ⟨rfl, hflight.1, hflight.2, hawaits.mp hcancelled⟩
      refine .leave id hremoved (Or.inl ⟨hdelivers, c, hphase, hpending, ?_⟩) (Or.inl ⟨rfl, List.Sublist.refl _⟩)
        ⟨rfl, rfl⟩
      rw [← hsettles.agentId id]
      exact hcontinuation
    · exact .leave id hremoved (Or.inr ⟨Or.inl fun h => hcancelled (hawaits.mpr h), rfl⟩)
        (Or.inl ⟨rfl, List.Sublist.refl _⟩) ⟨rfl, rfl⟩
  · exact .still rfl rfl rfl (List.Sublist.refl _) rfl rfl

/-- Every move is a turn. -/
theorem step_turn (h : s.step move = some t) : Turn s move t := by
  have hnil (stage : Stage) (hstage : stage.remaining = []) :
      stage.remaining.Sublist s.stage.remaining := hstage ▸ List.nil_sublist _
  have hsame : s.stage.remaining.Sublist s.stage.remaining := List.Sublist.refl _
  cases move with
  | complete id result =>
    cases h
    exact .settle complete_settles rfl rfl (Or.inl hsame) (Or.inl ⟨rfl, rfl⟩)
  | fail id error =>
    cases h
    exact .settle fail_settles rfl rfl (Or.inl hsame) (Or.inl ⟨rfl, rfl⟩)
  | claim id =>
    cases h
    exact .settle claim_settles rfl rfl (Or.inl hsame) (Or.inl ⟨rfl, rfl⟩)
  | cancel id =>
    cases h
    exact turn_cancel
  | wake event => cases h; exact .still rfl rfl rfl hsame rfl rfl
  | route => cases h; exact .still rfl rfl rfl hsame rfl rfl
  | pause => cases h; exact .still rfl rfl rfl hsame rfl rfl
  | resume => cases h; exact .still rfl rfl rfl hsame rfl rfl
  | start =>
    obtain ⟨-, hstep⟩ := Option.ite_none_right_eq_some.mp h
    cases hstep
    exact .settle timeOut_settles rfl rfl (Or.inl (hnil _ rfl)) (Or.inl ⟨rfl, rfl⟩)
  | ingest => exact turn_ingest h
  | receipt id result =>
    obtain ⟨-, hstep⟩ := Option.ite_none_right_eq_some.mp h
    cases hstep
    unfold receipt
    split
    · exact .settle complete_settles rfl rfl (Or.inl hsame) (Or.inl ⟨rfl, rfl⟩)
    · exact .still rfl rfl rfl hsame rfl rfl
  | schedule urgency =>
    obtain ⟨-, hstep⟩ := Option.ite_none_right_eq_some.mp h
    cases hstep
    obtain ⟨hregistry, hcontinuation, hwrites, hops, hconts⟩ := s.schedule_continuation urgency
    refine .still hregistry hcontinuation hwrites (hnil _ ?_) hops hconts
    dsimp only
    split <;> rfl
  | decide gate intents =>
    unfold step at h
    dsimp only at h
    split at h <;> cases h
    next => exact .settle ⟨rfl, rfl, fun _ => rfl⟩ rfl rfl (Or.inl (hnil _ rfl)) (Or.inr ⟨rfl, rfl⟩)
    next agent rest plans hstage =>
      refine turn_resume (fun c => ?_) (fun c => ?_) (fun c hc hphase => ?_) (hnil _ rfl)
      · rw [finalize_pending]
        split_ifs
        · exact enter_pending
        · exact exit_pending
        · rfl
      · refine finalize_keeps ?_
        split_ifs
        · exact enter_keeps
        · exact exit_keeps
        · exact ⟨Or.inl rfl, Or.inl rfl⟩
      · have hgated := finalize_phase hphase
        split_ifs at hgated with hgate hresume
        · exact Or.inl (enter_phase hgated)
        · refine (exit_phase hgated).imp_right (Or.imp_right fun hnothing => ?_)
          simp only [Bool.and_eq_true, Bool.not_eq_true'] at hgate
          simp [strands, hstage, hc, hnothing, hgate]
        · exact Or.inl hgated
  | act written => exact turn_act h
  | commit rolledBack =>
    obtain ⟨-, hstep⟩ := Option.ite_none_right_eq_some.mp h
    cases rolledBack with
    | true =>
      cases hstep
      exact .rollback rfl rfl
    | false =>
      cases hstep
      exact .still rfl rfl rfl (hnil _ rfl) rfl rfl
  | publish =>
    obtain ⟨-, hstep⟩ := Option.ite_none_right_eq_some.mp h
    cases hstep
    exact .still rfl rfl rfl (hnil _ rfl) rfl rfl
  | conclude =>
    unfold step at h
    dsimp only at h
    split at h <;> cases h
    · exact .still rfl rfl rfl (hnil _ rfl) rfl rfl
    · exact turn_conclude rfl
    · exact .still rfl rfl rfl (hnil _ rfl) rfl rfl
  | crash =>
    obtain ⟨-, hstep⟩ := Option.ite_none_left_eq_some.mp h
    cases hstep
    exact .still rfl rfl rfl (hnil _ rfl) rfl rfl

end Simulation

end MyTeam.Legacy
