import MyTeam.Legacy.Finality

/-!
# Request ids that have been seen

An agent must not submit a request id twice, also not after a restart, so the ids are remembered.
They are remembered in one table for all agents, under the id alone: another agent with the same
id takes the place of the first, and when its submission is rolled back, the id is forgotten.
-/

namespace MyTeam.Legacy

open MyTeam.Py MyTeam.Async

/-- `is_seen`. -/
def PendingOperationRegistry.isSeen (r : PendingOperationRegistry) (agentId requestId : String) : Bool :=
  r.seenRequests requestId = some agentId

/-- A submission that has not been rolled back. -/
structure Submission where
  id : ℕ
  agentId : String
  requestId : String
deriving DecidableEq

/-- `seen_requests_snapshot`, with the submissions that stood when it was taken. -/
structure SeenSnapshot where
  seenRequests : String → Option String
  standing : List Submission

/-- A registry in use, with the submissions that stand and the snapshots of the history of ids. -/
structure Correspondence where
  log : OperationLog
  standing : List Submission := []
  snapshots : List SeenSnapshot := []

/-- A call of the registry, or one that saves or restores the history of ids. -/
inductive CorrespondenceCall
  | operate (call : OperationCall)
  | seenRequestsSnapshot
  | restoreSeenRequests (snapshot : ℕ)

namespace Correspondence

/-- The submissions that stand after a call of the registry. -/
def standingAfter (c : Correspondence) : OperationCall → List Submission
  | .submit op => ⟨c.log.registry.nextId, op.agentId, op.chosenId⟩ :: c.standing
  | .removeForRollback id =>
    if id ∈ c.log.registry.operations then c.standing.filter fun submission => submission.id ≠ id else c.standing
  | _ => c.standing

/-- The state after a call. -/
def step (c : Correspondence) : CorrespondenceCall → Correspondence
  | .operate call => { c with log := c.log.step call, standing := c.standingAfter call }
  | .seenRequestsSnapshot =>
    { c with snapshots := c.snapshots ++ [⟨c.log.registry.seenRequests, c.standing⟩] }
  | .restoreSeenRequests index =>
    match c.snapshots[index]? with
    | none => c
    | some snapshot =>
      { c with log := { c.log with registry := { c.log.registry with seenRequests := snapshot.seenRequests } } }

/-- Every id of a submission that stands is seen for its agent. -/
def Remembers (c : Correspondence) : Prop :=
  ∀ submission ∈ c.standing, submission.requestId ≠ "" →
    c.log.registry.isSeen submission.agentId submission.requestId = true

/-- A call that does not make an id forgotten: no other agent has a submission of the same id that stands, no submission
but the one that is rolled back has its id, and no submission that stands is new since the snapshot that is restored. -/
def Separate (c : Correspondence) : CorrespondenceCall → Prop
  | .operate (.submit op) => op.chosenId ≠ "" →
      ∀ submission ∈ c.standing, submission.requestId = op.chosenId → submission.agentId = op.agentId
  | .operate (.removeForRollback id) => id ∈ c.log.registry.operations → (c.log.registry.op id).chosenId ≠ "" →
      ∀ submission ∈ c.standing, submission.requestId = (c.log.registry.op id).chosenId → submission.id = id
  | .restoreSeenRequests index => ∀ snapshot, c.snapshots[index]? = some snapshot →
      ∀ submission ∈ c.standing, submission.requestId ≠ "" → ∃ earlier ∈ snapshot.standing,
        earlier.agentId = submission.agentId ∧ earlier.requestId = submission.requestId
  | _ => True

/-- What holds in every state of a course of separate calls: the ids are seen, and those of a snapshot are in it. -/
structure Kept (c : Correspondence) : Prop where
  remembers : c.Remembers
  saved : ∀ snapshot ∈ c.snapshots, ∀ submission ∈ snapshot.standing, submission.requestId ≠ "" →
    snapshot.seenRequests submission.requestId = some submission.agentId

variable {c : Correspondence} {call : CorrespondenceCall}

/-- What `submit` makes of the history. -/
theorem seenRequests_submit {registry : PendingOperationRegistry} {op : PendingOperation} (requestId : String) :
    (registry.submit op).seenRequests requestId =
      if op.chosenId ≠ "" ∧ requestId = op.chosenId then some op.agentId else registry.seenRequests requestId := by
  rw [PendingOperationRegistry.submit]
  by_cases hempty : op.chosenId = ""
  · simp [hempty]
  · by_cases hsame : requestId = op.chosenId
    · simp [hempty, hsame]
    · simp [hempty, hsame]

/-- A submission whose id no other agent has keeps every id seen. -/
theorem Kept.remembers_submit (kept : c.Kept) {op : PendingOperation}
    (separate : c.Separate (.operate (.submit op))) : (c.step (.operate (.submit op))).Remembers := by
  intro submission hmem hrequest
  rw [PendingOperationRegistry.isSeen, decide_eq_true_eq, step, OperationLog.step, seenRequests_submit]
  rcases List.mem_cons.mp hmem with rfl | hold
  · exact if_pos ⟨hrequest, rfl⟩
  · by_cases hsame : op.chosenId ≠ "" ∧ submission.requestId = op.chosenId
    · rw [if_pos hsame, separate hsame.1 submission hold hsame.2]
    · rw [if_neg hsame]
      exact of_decide_eq_true (kept.remembers submission hold hrequest)

/-- A rollback of the only submission of an id keeps every other id seen. -/
theorem Kept.remembers_removeForRollback (kept : c.Kept) {id : ℕ}
    (separate : c.Separate (.operate (.removeForRollback id))) :
    (c.step (.operate (.removeForRollback id))).Remembers := by
  intro submission hmem hrequest
  rw [step, standingAfter] at hmem
  rw [PendingOperationRegistry.isSeen, decide_eq_true_eq, step, OperationLog.step,
    PendingOperationRegistry.removeForRollback]
  by_cases hid : id ∈ c.log.registry.operations
  · rw [if_pos hid] at hmem
    obtain ⟨hstanding, hother⟩ := List.mem_filter.mp hmem
    have hseen := of_decide_eq_true (kept.remembers submission hstanding hrequest)
    simp only [if_pos hid]
    split
    next => exact hseen
    next hchosen =>
      have hdifferent : submission.requestId ≠ (c.log.registry.op id).chosenId := by
        intro hsame
        exact absurd (separate hid hchosen submission hstanding hsame) (of_decide_eq_true hother)
      rwa [Function.update_of_ne hdifferent]
  · rw [if_neg hid] at hmem
    simp only [if_neg hid]
    exact of_decide_eq_true (kept.remembers submission hmem hrequest)

/-- A completion forgets nothing. -/
theorem seenRequests_completed {log : OperationLog} {id : ℕ} {result : List (String × Value)} :
    (log.completed id result).registry.seenRequests = log.registry.seenRequests := by
  rw [OperationLog.completed, PendingOperationRegistry.complete]
  dsimp only
  split <;> rfl

/-- A call of the registry that neither submits nor rolls back leaves the history and the submissions as they are. -/
theorem seenRequests_step {call : OperationCall} (hsubmit : ∀ op, call ≠ .submit op)
    (hrollback : ∀ id, call ≠ .removeForRollback id) :
    (c.log.step call).registry.seenRequests = c.log.registry.seenRequests ∧ c.standingAfter call = c.standing := by
  cases call with
  | submit op => exact absurd rfl (hsubmit op)
  | removeForRollback id => exact absurd rfl (hrollback id)
  | complete id result => exact ⟨seenRequests_completed, rfl⟩
  | completeTool id resultId data =>
    refine ⟨?_, rfl⟩
    rw [OperationLog.step]
    split
    · exact seenRequests_completed
    · rfl
  | receipt id result =>
    refine ⟨?_, rfl⟩
    rw [OperationLog.step]
    split
    · exact seenRequests_completed
    · rfl
  | claim id =>
    refine ⟨?_, rfl⟩
    rw [OperationLog.step, PendingOperationRegistry.claim]
    dsimp only
    split <;> rfl
  | fail id error =>
    refine ⟨?_, rfl⟩
    rw [OperationLog.step, PendingOperationRegistry.fail]
    dsimp only
    split <;> rfl
  | cancel id =>
    refine ⟨?_, rfl⟩
    rw [OperationLog.step, PendingOperationRegistry.cancel]
    dsimp only
    split <;> rfl
  | timeoutExpired tick => exact ⟨rfl, rfl⟩
  | remove id => exact ⟨rfl, rfl⟩

/-- A separate call of the registry keeps every id seen. -/
theorem Kept.remembers_operate (kept : c.Kept) {call : OperationCall} (separate : c.Separate (.operate call)) :
    (c.step (.operate call)).Remembers := by
  by_cases hsubmit : ∃ op, call = .submit op
  · obtain ⟨op, rfl⟩ := hsubmit
    exact kept.remembers_submit separate
  by_cases hrollback : ∃ id, call = .removeForRollback id
  · obtain ⟨id, rfl⟩ := hrollback
    exact kept.remembers_removeForRollback separate
  · obtain ⟨hseen, hstanding⟩ := seenRequests_step (not_exists.mp hsubmit) (not_exists.mp hrollback)
    intro submission hmem hrequest
    rw [step, hstanding] at hmem
    rw [PendingOperationRegistry.isSeen, decide_eq_true_eq, step, hseen]
    exact of_decide_eq_true (kept.remembers submission hmem hrequest)

/-- A separate call is kept. -/
theorem Kept.step (kept : c.Kept) (separate : c.Separate call) : (c.step call).Kept := by
  cases call with
  | operate call => exact ⟨kept.remembers_operate separate, kept.saved⟩
  | seenRequestsSnapshot =>
    refine ⟨kept.remembers, fun snapshot hmem => ?_⟩
    rcases List.mem_append.mp hmem with hold | hnew
    · exact kept.saved snapshot hold
    · rw [List.mem_singleton.mp hnew]
      exact fun submission hstanding hrequest => of_decide_eq_true (kept.remembers submission hstanding hrequest)
  | restoreSeenRequests index =>
    rw [Correspondence.step]
    split
    next => exact kept
    next snapshot hsnapshot =>
      refine ⟨fun submission hstanding hrequest => ?_, kept.saved⟩
      obtain ⟨earlier, hearlier, hagent, hid⟩ := separate snapshot hsnapshot submission hstanding hrequest
      have hsaved := kept.saved snapshot (List.mem_of_getElem? hsnapshot) earlier hearlier (hid ▸ hrequest)
      rw [hagent, hid] at hsaved
      exact decide_eq_true hsaved

/-- A new registry. -/
def opened (op : ℕ → PendingOperation) : Correspondence :=
  ⟨OperationLog.opened op, [], []⟩

/-- Nothing has been submitted to a new registry. -/
theorem kept_opened {op : ℕ → PendingOperation} : (opened op).Kept :=
  ⟨fun _ hmem => (nomatch hmem), fun _ hmem => (nomatch hmem)⟩

/-- Throughout a course of calls, in which no agent submits an id under which a submission of another one stands, no
submission is rolled back while another one of its id stands, and no snapshot is restored that is older than a
submission that stands, every id is seen for the agent that submitted it until the submission is rolled back. -/
theorem seen_of_separate (op : ℕ → PendingOperation) (calls : List CorrespondenceCall)
    (separate : Each step Separate (opened op) calls) :
    Throughout step Remembers (fun _ _ => True) (opened op) calls :=
  .of_each kept_opened Kept.remembers (fun kept separate => ⟨kept.step separate, trivial⟩) separate

/-- An id is seen after its operation has left the registry and the history has been restored. -/
theorem question_seen : Throughout step Remembers (fun _ _ => True) (opened fun _ => OperationLog.question)
    [.operate (.submit OperationLog.question), .seenRequestsSnapshot, .operate (.complete 0 []), .operate (.remove 0),
      .restoreSeenRequests 0] := by
  refine seen_of_separate _ _ ⟨fun _ _ hmem => (nomatch hmem), trivial, trivial, trivial, ?_, trivial⟩
  intro snapshot hsnapshot submission hmem hrequest
  obtain rfl := Option.some.inj hsnapshot
  exact ⟨submission, hmem, rfl, rfl⟩

/-- The question of `root`, asked by another agent. -/
def otherQuestion : PendingOperation :=
  { OperationLog.question with agentId := "other" }

/-- When another agent submits the same id, the first one's is not seen any more. -/
theorem question_forgotten : ¬Throughout step Remembers (fun _ _ => True) (opened fun _ => OperationLog.question)
    [.operate (.submit OperationLog.question), .operate (.submit otherQuestion)] := by
  rintro ⟨-, -, -, -, hremembers⟩
  exact absurd (hremembers ⟨0, "root", "question"⟩ (by decide +kernel) (by decide)) (by decide +kernel)

end Correspondence

end MyTeam.Legacy
