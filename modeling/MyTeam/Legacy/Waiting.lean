import MyTeam.Legacy.Turns
import MyTeam.Py.Dict

/-!
# No agent waits for nothing

The waiting of an agent and the operation it waits for are kept in two places. In every run
without a move that strands an agent, a continuation that awaits a result names an operation of
the agent that is still in the registry: what is pending for an agent is registered, and a phase
of waiting is never without something pending. For a rollback, the same is kept of the
continuations it will restore.
-/

namespace MyTeam.Legacy

open MyTeam.Py MyTeam.Async

namespace Simulation

/-- What agents wait for is there. -/
structure Attended (s : Simulation) : Prop where
  below : ∀ id ∈ s.registry.operations, id < s.registry.nextId
  served : ∀ {agent c id}, s.continuation agent = some c → c.pendingRequestId = some id →
    id ∈ s.registry.operations ∧ (s.registry.op id).agentId = agent
  asking : ∀ {agent c}, s.continuation agent = some c → c.phase.Awaiting → c.pendingRequestId ≠ none
  remembered : ∀ {agent phase requestId requestType}, (agent, phase, requestId, requestType) ∈ s.tickContinuations →
    (phase.Awaiting → requestId ≠ none) ∧
      ∀ id ∈ requestId, id < s.registry.nextId ∧ (s.registry.op id).agentId = agent
  noted : ∀ {agent c id}, s.continuation agent = some c → c.pendingRequestId = some id →
    id ∈ s.tickPendingOps.map Prod.snd → agent ∈ s.tickContinuations.map Prod.fst

variable {s t : Simulation} {move : Move} {id : ℕ}

/-- An agent with something pending awaits it. -/
theorem Attended.awaits (h : s.Attended) {agent : String} {c : AgentContinuation}
    (hc : s.continuation agent = some c) (hpending : c.pendingRequestId = some id) : s.Awaits id := by
  rw [awaits_iff, (h.served hc hpending).2]
  exact ⟨c, hc, hpending⟩

/-- Only the status of operations changes. -/
theorem Attended.settle (h : s.Attended) (registry : s.registry.Settles t.registry)
    (continuation : t.continuation = s.continuation)
    (submissions : t.tickPendingOps = s.tickPendingOps ∧ t.tickContinuations = s.tickContinuations ∨
      t.tickPendingOps = [] ∧ t.tickContinuations = []) : t.Attended where
  below id hid := by
    rw [registry.operations] at hid
    rw [registry.nextId]
    exact h.below id hid
  served hc hpending := by
    rw [continuation] at hc
    rw [registry.operations, registry.agentId]
    exact h.served hc hpending
  asking hc := by
    rw [continuation] at hc
    exact h.asking hc
  remembered hentry := by
    simp only [registry.nextId, registry.agentId]
    rcases submissions with ⟨-, hconts⟩ | ⟨-, hconts⟩
    · rw [hconts] at hentry
      exact h.remembered hentry
    · rw [hconts] at hentry
      cases hentry
  noted hc hpending hmem := by
    rw [continuation] at hc
    rcases submissions with ⟨hops, hconts⟩ | ⟨hops, -⟩
    · rw [hops] at hmem
      rw [hconts]
      exact h.noted hc hpending hmem
    · rw [hops] at hmem
      cases hmem

/-- An operation leaves the registry: its agent was told, or did not await it. -/
theorem Attended.leave (h : s.Attended) (registry : (s.registry.remove id).Settles t.registry)
    (continuation : s.Awaits id ∧ (∃ c : AgentContinuation, c.phase = .processingResult ∧ c.pendingRequestId = none ∧
        t.continuation = Function.update s.continuation (s.registry.op id).agentId (some c)) ∨
      ¬s.Awaits id ∧ t.continuation = s.continuation)
    (submissions : t.tickPendingOps = s.tickPendingOps ∧ t.tickContinuations = s.tickContinuations) : t.Attended := by
  obtain ⟨hops, hconts⟩ := submissions
  -- A continuation after the move has nothing pending, or is as before and waits for another operation.
  have hkept {agent : String} {c : AgentContinuation} (hc : t.continuation agent = some c) :
      c.phase = .processingResult ∧ c.pendingRequestId = none ∨
        s.continuation agent = some c ∧ c.pendingRequestId ≠ some id := by
    rcases continuation with ⟨-, told, hphase, hnone, hupdate⟩ | ⟨hawaits, hsame⟩
    · rw [hupdate] at hc
      by_cases hagent : agent = (s.registry.op id).agentId
      · rw [hagent, Function.update_self] at hc
        cases hc
        exact Or.inl ⟨hphase, hnone⟩
      · rw [Function.update_of_ne hagent] at hc
        exact Or.inr ⟨hc, fun hpending => hagent (h.served hc hpending).2.symm⟩
    · rw [hsame] at hc
      exact Or.inr ⟨hc, fun hpending => hawaits (h.awaits hc hpending)⟩
  constructor
  case below =>
    intro other hother
    rw [registry.operations] at hother
    rw [registry.nextId]
    exact h.below other (List.mem_of_mem_erase hother)
  case served =>
    intro agent c other hc hpending
    rcases hkept hc with ⟨-, hnone⟩ | ⟨hold, hother⟩
    · rw [hnone] at hpending
      cases hpending
    · rw [registry.operations, registry.agentId]
      obtain ⟨hmem, hown⟩ := h.served hold hpending
      have hne : other ≠ id := by
        rintro rfl
        exact hother hpending
      exact ⟨(List.mem_erase_of_ne hne).mpr hmem, hown⟩
  case asking =>
    intro agent c hc hphase
    rcases hkept hc with ⟨hprocessing, -⟩ | ⟨hold, -⟩
    · rw [hprocessing] at hphase
      simp [ContinuationPhase.Awaiting] at hphase
    · exact h.asking hold hphase
  case remembered =>
    intro agent phase requestId requestType hentry
    rw [hconts] at hentry
    simp only [registry.nextId, registry.agentId]
    exact h.remembered hentry
  case noted =>
    intro agent c other hc hpending hmem
    rw [hops] at hmem
    rw [hconts]
    rcases hkept hc with ⟨-, hnone⟩ | ⟨hold, -⟩
    · rw [hnone] at hpending
      cases hpending
    · exact h.noted hold hpending hmem

/-- The record of an older operation after a submission. -/
theorem submit_op {r : PendingOperationRegistry} {op : PendingOperation} (hid : id < r.nextId) :
    (r.submit op).op id = r.op id :=
  Function.update_of_ne (Nat.ne_of_lt hid) _ _

/-- What an agent has pending is older than the next operation. -/
theorem Attended.older (h : s.Attended) {agent : String} {c : AgentContinuation}
    (hc : s.continuation agent = some c) (hpending : c.pendingRequestId = some id) : id < s.registry.nextId :=
  h.below id (h.served hc hpending).1

/-- What agents had pending stays registered when an operation is submitted. -/
theorem Attended.served_submit (h : s.Attended) {op : PendingOperation} {agent : String} {c : AgentContinuation}
    (hc : s.continuation agent = some c) (hpending : c.pendingRequestId = some id) :
    id ∈ (s.registry.submit op).operations ∧ ((s.registry.submit op).op id).agentId = agent := by
  obtain ⟨hmem, hown⟩ := h.served hc hpending
  rw [submit_op (h.older hc hpending)]
  exact ⟨List.mem_append_left _ hmem, hown⟩

/-- The ids after a submission. -/
theorem Attended.below_submit (h : s.Attended) {op : PendingOperation} :
    ∀ id ∈ (s.registry.submit op).operations, id < (s.registry.submit op).nextId := by
  intro id hid
  rcases List.mem_append.mp hid with hold | hnew
  · exact Nat.lt_succ_of_lt (h.below id hold)
  · rw [List.mem_singleton.mp hnew]
    exact Nat.lt_succ_self _

/-- What a rollback will restore stays as it is when an operation is submitted. -/
theorem Attended.remembered_submit (h : s.Attended) {op : PendingOperation} {agent : String}
    {phase : ContinuationPhase} {requestId : Option ℕ} {requestType : Option RequestType}
    (hentry : (agent, phase, requestId, requestType) ∈ s.tickContinuations) :
    (phase.Awaiting → requestId ≠ none) ∧ ∀ id ∈ requestId,
      id < (s.registry.submit op).nextId ∧ ((s.registry.submit op).op id).agentId = agent := by
  obtain ⟨hphase, hrequest⟩ := h.remembered hentry
  refine ⟨hphase, fun id hid => ?_⟩
  obtain ⟨hlt, hown⟩ := hrequest id hid
  rw [submit_op hlt]
  exact ⟨Nat.lt_succ_of_lt hlt, hown⟩

/-- An agent submits an operation and waits for it. -/
theorem Attended.submit (h : s.Attended) {agent : String} {op : PendingOperation} {c c' : AgentContinuation}
    (known : s.continuation agent = some c) (registry : t.registry = s.registry.submit op)
    (agentId : op.agentId = agent) (pending : c'.pendingRequestId = some s.registry.nextId)
    (continuation : t.continuation = Function.update s.continuation agent (some c'))
    (tickPendingOps : t.tickPendingOps = s.tickPendingOps ++ [(agent, s.registry.nextId)])
    (tickContinuations : t.tickContinuations =
      assign agent (c.phase, c.pendingRequestId, c.pendingRequestType) s.tickContinuations) : t.Attended := by
  constructor
  case below =>
    rw [registry]
    exact h.below_submit
  case served =>
    intro other d id hd hid
    rw [continuation] at hd
    rw [registry]
    by_cases hother : other = agent
    · rw [hother, Function.update_self] at hd
      cases hd
      rw [pending] at hid
      cases hid
      refine ⟨List.mem_append_right _ (List.mem_singleton_self _), ?_⟩
      simp [PendingOperationRegistry.submit, hother, agentId]
    · rw [Function.update_of_ne hother] at hd
      exact h.served_submit hd hid
  case asking =>
    intro other d hd hphase
    rw [continuation] at hd
    by_cases hother : other = agent
    · rw [hother, Function.update_self] at hd
      cases hd
      rw [pending]
      exact Option.some_ne_none _
    · rw [Function.update_of_ne hother] at hd
      exact h.asking hd hphase
  case remembered =>
    intro other phase requestId requestType hentry
    rw [tickContinuations] at hentry
    rw [registry]
    rcases mem_items_assign hentry with heq | hold
    · cases heq
      refine ⟨h.asking known, fun id hid => ?_⟩
      obtain ⟨hmem, hown⟩ := h.served known hid
      rw [submit_op (h.below id hmem)]
      exact ⟨Nat.lt_succ_of_lt (h.below id hmem), hown⟩
    · exact h.remembered_submit hold
  case noted =>
    intro other d id hd hid hmem
    rw [continuation] at hd
    rw [tickContinuations, mem_keys_assign]
    by_cases hother : other = agent
    · exact Or.inl hother
    · rw [Function.update_of_ne hother] at hd
      rw [tickPendingOps, List.map_append, List.mem_append] at hmem
      rcases hmem with hold | hnew
      · exact Or.inr (h.noted hd hid hold)
      · rw [List.map_singleton, List.mem_singleton] at hnew
        exact absurd hnew (Nat.ne_of_lt (h.older hd hid))

/-- An operation is submitted for an agent that is not known. -/
theorem Attended.orphan (h : s.Attended) {agent : String} {op : PendingOperation}
    (registry : t.registry = s.registry.submit op) (continuation : t.continuation = s.continuation)
    (tickPendingOps : t.tickPendingOps = s.tickPendingOps ++ [(agent, s.registry.nextId)])
    (tickContinuations : t.tickContinuations = s.tickContinuations) : t.Attended := by
  constructor
  case below =>
    rw [registry]
    exact h.below_submit
  case served =>
    intro other d id hd hid
    rw [continuation] at hd
    rw [registry]
    exact h.served_submit hd hid
  case asking =>
    intro other d hd
    rw [continuation] at hd
    exact h.asking hd
  case remembered =>
    intro other phase requestId requestType hentry
    rw [tickContinuations] at hentry
    rw [registry]
    exact h.remembered_submit hentry
  case noted =>
    intro other d id hd hid hmem
    rw [continuation] at hd
    rw [tickContinuations]
    rw [tickPendingOps, List.map_append, List.mem_append] at hmem
    rcases hmem with hold | hnew
    · exact h.noted hd hid hold
    · rw [List.map_singleton, List.mem_singleton] at hnew
      exact absurd hnew (Nat.ne_of_lt (h.older hd hid))

/-- An agent is taken into or out of consolidation, or has processed a result. -/
theorem Attended.think (h : s.Attended) {agent : String} {f : AgentContinuation → AgentContinuation}
    (pending : ∀ c, (f c).pendingRequestId = c.pendingRequestId)
    (phase : ∀ c, s.continuation agent = some c → (f c).phase.Awaiting →
      c.phase.Awaiting ∨ c.pendingRequestId ≠ none)
    (registry : t.registry = s.registry)
    (continuation : t.continuation = Function.update s.continuation agent ((s.continuation agent).map f))
    (submissions : t.tickPendingOps = s.tickPendingOps ∧ t.tickContinuations = s.tickContinuations) : t.Attended := by
  obtain ⟨hops, hconts⟩ := submissions
  -- A continuation after the move has the same pending operation as before.
  have hsame {other : String} {d : AgentContinuation} (hd : t.continuation other = some d) :
      ∃ c, s.continuation other = some c ∧ d.pendingRequestId = c.pendingRequestId ∧
        (d.phase.Awaiting → c.phase.Awaiting ∨ c.pendingRequestId ≠ none) := by
    rw [continuation] at hd
    by_cases hother : other = agent
    · rw [hother, Function.update_self, Option.map_eq_some_iff] at hd
      obtain ⟨c, hc, rfl⟩ := hd
      exact ⟨c, hother ▸ hc, pending c, phase c hc⟩
    · rw [Function.update_of_ne hother] at hd
      exact ⟨d, hd, rfl, Or.inl⟩
  constructor
  case below =>
    rw [registry]
    exact h.below
  case served =>
    intro other d id hd hid
    obtain ⟨c, hc, hpending, -⟩ := hsame hd
    rw [registry]
    exact h.served hc (hpending ▸ hid)
  case asking =>
    intro other d hd hphase
    obtain ⟨c, hc, hpending, hawaiting⟩ := hsame hd
    rw [hpending]
    exact (hawaiting hphase).elim (h.asking hc) id
  case remembered =>
    intro other phase requestId requestType hentry
    rw [hconts] at hentry
    rw [registry]
    exact h.remembered hentry
  case noted =>
    intro other d id hd hid hmem
    obtain ⟨c, hc, hpending, -⟩ := hsame hd
    rw [hops] at hmem
    rw [hconts]
    exact h.noted hc (hpending ▸ hid) hmem

/-- A rollback takes the operations of the tick out of the registry, and no others. -/
theorem mem_rollback {r : PendingOperationRegistry} {submitted : List (String × ℕ)} (hid : id ∈ r.operations)
    (hold : id ∉ submitted.map Prod.snd) :
    id ∈ (submitted.foldl (fun r entry => r.removeForRollback entry.2) r).operations := by
  induction submitted generalizing r with
  | nil => exact hid
  | cons entry rest ih =>
    rw [List.map_cons, List.mem_cons, not_or] at hold
    refine ih ?_ hold.2
    unfold PendingOperationRegistry.removeForRollback
    dsimp only
    split
    · exact (List.mem_erase_of_ne hold.1).mpr hid
    · exact hid

/-- A rollback leaves the records alone. -/
theorem rollback_op {r : PendingOperationRegistry} {submitted : List (String × ℕ)} :
    (submitted.foldl (fun r entry => r.removeForRollback entry.2) r).op = r.op := by
  induction submitted generalizing r with
  | nil => rfl
  | cons entry rest ih =>
    rw [List.foldl_cons, ih]
    unfold PendingOperationRegistry.removeForRollback
    split <;> rfl

/-- The continuation of an agent after a rollback: as remembered, or as it was. -/
theorem rollback_continuation {agent : String} {c : AgentContinuation}
    (h : s.rollback.continuation agent = some c) :
    (s.tickContinuations.lookup agent = none ∧ s.continuation agent = some c) ∨
      ∃ requestType, (agent, c.phase, c.pendingRequestId, requestType) ∈ s.tickContinuations := by
  unfold continuation rollback at h
  dsimp only at h
  split at h
  next hlookup => exact Or.inl ⟨hlookup, h⟩
  next phase requestId requestType hlookup =>
    rw [Option.map_map, Option.map_eq_some_iff] at h
    obtain ⟨runtime, -, rfl⟩ := h
    exact Or.inr ⟨requestType, mem_of_lookup hlookup⟩

/-- A tick is rolled back whose remembered requests are all still registered, and not its own. -/
theorem Attended.rollback (h : s.Attended) (kept : s.strands (.commit true) = false) : s.rollback.Attended := by
  have hkept {agent : String} {phase : ContinuationPhase} {requestId : Option ℕ} {requestType : Option RequestType}
      (hentry : (agent, phase, requestId, requestType) ∈ s.tickContinuations) {id : ℕ} (hid : requestId = some id) :
      id ∈ s.registry.operations ∧ id ∉ s.tickPendingOps.map Prod.snd := by
    simp only [strands, Bool.true_and, List.any_eq_false] at kept
    have hone := kept _ hentry
    simp only [hid, Option.any_some, Bool.or_eq_true, Bool.not_eq_true', List.contains_eq_mem, decide_eq_false_iff_not,
      decide_eq_true_eq, not_or, not_not] at hone
    exact hone
  have hnext : s.rollback.registry.nextId = s.registry.nextId :=
    (PendingOperationRegistry.foldl_removeForRollback s.tickPendingOps).2
  have hop : s.rollback.registry.op = s.registry.op := rollback_op
  constructor
  case below =>
    intro id hid
    rw [hnext]
    exact h.below id ((PendingOperationRegistry.foldl_removeForRollback s.tickPendingOps).1.subset hid)
  case served =>
    intro agent c id hc hid
    rw [hop]
    rcases rollback_continuation hc with ⟨hlookup, hold⟩ | ⟨requestType, hentry⟩
    · obtain ⟨hmem, hown⟩ := h.served hold hid
      refine ⟨mem_rollback hmem fun hnew => ?_, hown⟩
      exact lookup_eq_none_iff_keys.mp hlookup (h.noted hold hid hnew)
    · obtain ⟨hmem, hother⟩ := hkept hentry hid
      exact ⟨mem_rollback hmem hother, ((h.remembered hentry).2 id hid).2⟩
  case asking =>
    intro agent c hc hphase
    rcases rollback_continuation hc with ⟨-, hold⟩ | ⟨requestType, hentry⟩
    · exact h.asking hold hphase
    · exact (h.remembered hentry).1 hphase
  case remembered =>
    intro agent phase requestId requestType hentry
    rw [hnext, hop]
    exact h.remembered hentry
  case noted =>
    intro agent c id hc hid hmem
    rcases rollback_continuation hc with ⟨-, hold⟩ | ⟨requestType, hentry⟩
    · exact h.noted hold hid hmem
    · exact absurd hmem (hkept hentry hid).2

/-- A move that strands no agent. -/
theorem Attended.step (h : s.Attended) (keeps : s.strands move = false) (moves : s.step move = some t) :
    t.Attended := by
  cases step_turn moves with
  | settle registry continuation writes remaining submissions => exact h.settle registry continuation submissions
  | leave id registry continuation writes submissions =>
    refine h.leave registry ?_ submissions
    refine continuation.imp (fun ⟨hdelivers, htold⟩ => ⟨hdelivers.awaits, htold⟩) fun ⟨hawaits, hsame⟩ => ⟨?_, hsame⟩
    exact hawaits.resolve_right (by simp [keeps])
  | submit agent op c c' known registry agentId pending results continuation writes remaining tickPendingOps
      tickContinuations =>
    exact h.submit known registry agentId pending continuation tickPendingOps tickContinuations
  | orphan op registry continuation writes remaining agent unknown tickPendingOps tickContinuations =>
    exact h.orphan registry continuation tickPendingOps tickContinuations
  | think agent f pending results phase registry continuation writes remaining submissions =>
    refine h.think pending (fun c hc hphase => ?_) registry continuation submissions
    exact (phase c hc hphase).imp_right fun hor => hor.resolve_right (by simp [keeps])
  | rollback allowed back =>
    subst allowed back
    have hback := h.rollback keeps
    exact ⟨hback.below, hback.served, hback.asking, hback.remembered, hback.noted⟩

/-- No agent waits before the first move. -/
theorem attended_initial {agents : List String} {bootstrap human : String → Bool} {route : String → Route}
    {requests active : ℕ} : (initial agents bootstrap human route requests active).Attended := by
  have hinitial {agent : String} {c : AgentContinuation}
      (hc : (initial agents bootstrap human route requests active).continuation agent = some c) : c = {} := by
    unfold continuation initial at hc
    dsimp only at hc
    split at hc <;> cases hc
    rfl
  constructor
  case below => exact fun _ hmem => absurd hmem List.not_mem_nil
  case served =>
    intro agent c id hc hid
    cases hinitial hc
    cases hid
  case asking =>
    intro agent c hc hphase
    cases hinitial hc
    simp [ContinuationPhase.Awaiting] at hphase
  case remembered => exact fun hmem => absurd hmem List.not_mem_nil
  case noted => exact fun _ _ hmem => absurd hmem List.not_mem_nil

/-- No agent waits for nothing, in every run without a move that strands one. -/
theorem waits_for_registered {agents : List String} {bootstrap human : String → Bool} {route : String → Route}
    {requests active : ℕ} {agent : String} {runtime : AgentRuntimeState}
    (h : Reaches step (fun s move => s.strands move = false) (initial agents bootstrap human route requests active) s)
    (_boundary : s.stage = .boundary) (known : s.runtimes agent = some runtime)
    (waiting : runtime.continuation.phase.Awaiting) :
    ∃ id, runtime.continuation.pendingRequestId = some id ∧ id ∈ s.registry.operations ∧
      (s.registry.op id).agentId = agent := by
  have hattended : s.Attended := h.invariant attended_initial fun ht keeps moves => ht.step keeps moves
  have hc : s.continuation agent = some runtime.continuation := by simp [continuation, known]
  obtain ⟨id, hid⟩ := Option.ne_none_iff_exists'.mp (hattended.asking hc waiting)
  exact ⟨id, hid, hattended.served hc hid⟩

/-- One of two agents asks the model, in the first tick. -/
def asked : List Move :=
  Move.opening ++ Move.waking .bootstrap "a" 0 ++ Move.deciding (.submitLlmRequest "r" "" 5) false

/-- Two agents, the first of which starts; tools run at executors. -/
def twoWorkers : Simulation :=
  initial ["a", "b"] (· == "a") (fun _ => false) (fun _ => .remote) 4 8

/-- After its request, an agent waits for the operation that was registered for it. -/
theorem waits_for_registered_asked : ∃ s runtime, Reaches step (fun s move => s.strands move = false) twoWorkers s ∧
    s.stage = .boundary ∧ s.runtimes "a" = some runtime ∧ runtime.continuation.phase.Awaiting ∧
    ∃ id, runtime.continuation.pendingRequestId = some id ∧ id ∈ s.registry.operations ∧
      (s.registry.op id).agentId = "a" := by
  have hrun : (follow (within step fun s move => s.strands move = false) twoWorkers asked).map (fun s =>
      (s.stage, (s.runtimes "a").map fun runtime => runtime.continuation.phase)) =
        some (.boundary, some .waitingForLlm) := by
    decide +kernel
  obtain ⟨s, hs, hend⟩ := Option.map_eq_some_iff.mp hrun
  obtain ⟨hboundary, hruntime⟩ := Prod.mk.inj hend
  obtain ⟨runtime, hruntime, hphase⟩ := Option.map_eq_some_iff.mp hruntime
  have hwaiting : runtime.continuation.phase.Awaiting := by simp [ContinuationPhase.Awaiting, hphase]
  exact ⟨s, runtime, .of_follow hs, hboundary, hruntime, hwaiting,
    waits_for_registered (.of_follow hs) hboundary hruntime hwaiting⟩

/-- The other agent's tick is rolled back, and the answer comes: it is dropped, and the agent waits on. -/
theorem waits_for_dropped : ¬∀ (agents : List String) (bootstrap human : String → Bool) (route : String → Route)
    (requests active : ℕ) (s : Simulation) (agent : String) (runtime : AgentRuntimeState),
    Reaches step (fun _ _ => True) (initial agents bootstrap human route requests active) s → s.stage = .boundary →
      s.runtimes agent = some runtime → runtime.continuation.phase.Awaiting →
        ∃ id, runtime.continuation.pendingRequestId = some id ∧ id ∈ s.registry.operations ∧
          (s.registry.op id).agentId = agent := by
  intro h
  have hrun : (follow (within step fun _ _ => True) twoWorkers (asked ++
      (Move.opening ++ Move.waking .newEmail "b" 1 ++ Move.deciding (.stage "") true) ++
      (.complete 0 [] :: Move.opening ++ [.ingest, .schedule fun _ => ⟨-1, none⟩] ++
        Move.deciding (.stage "") false))).map (fun s =>
      (s.stage, s.registry.operations, (s.runtimes "a").map fun runtime => runtime.continuation.phase)) =
        some (.boundary, [], some .waitingForLlm) := by
    decide +kernel
  obtain ⟨s, hs, hend⟩ := Option.map_eq_some_iff.mp hrun
  obtain ⟨hboundary, hend⟩ := Prod.mk.inj hend
  obtain ⟨hops, hruntime⟩ := Prod.mk.inj hend
  obtain ⟨runtime, hruntime, hphase⟩ := Option.map_eq_some_iff.mp hruntime
  obtain ⟨id, -, hid, -⟩ := h _ _ _ _ _ _ s "a" runtime (.of_follow hs) hboundary hruntime
    (by simp [ContinuationPhase.Awaiting, hphase])
  rw [hops] at hid
  cases hid

end Simulation

end MyTeam.Legacy
