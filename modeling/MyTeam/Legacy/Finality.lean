import MyTeam.Async.Course
import MyTeam.Legacy.PendingOps

/-!
# The end of an operation

An operation is submitted, perhaps dispatched, and ends once. Every way to end it looks at the
status first, but not at all of it: a second completion replaces the result of the first, and a
failure is recorded whatever happened before.
-/

namespace MyTeam.Legacy

open MyTeam.Py MyTeam.Async

/-- The ways a status may move: from submitted to any other, and from pending to a terminal one. -/
def OpStatus.Moves (before after : OpStatus) : Prop :=
  after = before ∨ before = .submitted ∨ before = .pending ∧ ¬after.InFlight

/-- A registry in use, with how often the result and the error of each operation have been written. -/
structure OperationLog where
  registry : PendingOperationRegistry
  resultWrites : ℕ → ℕ := fun _ => 0
  errorWrites : ℕ → ℕ := fun _ => 0

/-- A call of the registry, the dispatch of an operation to its executor, or a receipt from outside. -/
inductive OperationCall
  | submit (op : PendingOperation)
  | claim (id : ℕ)
  | complete (id : ℕ) (result : List (String × Value))
  | completeTool (id resultId : ℕ) (data : List (String × Value))
  | receipt (id : ℕ) (result : List (String × Value))
  | fail (id : ℕ) (error : String)
  | cancel (id : ℕ)
  | timeoutExpired (tick : ℕ)
  | remove (id : ℕ)
  | removeForRollback (id : ℕ)

namespace OperationLog

/-- The log after `complete`. -/
def completed (log : OperationLog) (id : ℕ) (result : List (String × Value)) : OperationLog :=
  { log with
    registry := log.registry.complete id result
    resultWrites := if id ∈ log.registry.operations ∧ ¬(log.registry.op id).status.Dead then
        Function.update log.resultWrites id (log.resultWrites id + 1)
      else log.resultWrites }

/-- The log after a call. `complete_tool` ignores a result for another operation, and a receipt completes an operation
in flight only. -/
def step (log : OperationLog) : OperationCall → OperationLog
  | .submit op =>
    { log with registry := log.registry.submit { op with status := .submitted, result := [], error := "" } }
  | .claim id => { log with registry := log.registry.claim id }
  | .complete id result => log.completed id result
  | .completeTool id resultId data => if resultId = id then log.completed id data else log
  | .receipt id result =>
    if id ∈ log.registry.operations ∧ (log.registry.op id).status.InFlight then log.completed id result else log
  | .fail id error =>
    { log with
      registry := log.registry.fail id error
      errorWrites := if id ∈ log.registry.operations then
          Function.update log.errorWrites id (log.errorWrites id + 1)
        else log.errorWrites }
  | .cancel id => { log with registry := (log.registry.cancel id).getD log.registry }
  | .timeoutExpired tick => { log with registry := log.registry.timeOut tick }
  | .remove id => { log with registry := log.registry.remove id }
  | .removeForRollback id => { log with registry := log.registry.removeForRollback id }

/-- Results and errors are written at most once. -/
def WrittenOnce (log : OperationLog) : Prop :=
  ∀ id, log.resultWrites id ≤ 1 ∧ log.errorWrites id ≤ 1

/-- The status of every submitted operation moves as it may. -/
def Forward (log : OperationLog) (call : OperationCall) : Prop :=
  ∀ id < log.registry.nextId, (log.registry.op id).status.Moves ((log.step call).registry.op id).status

/-- A call that does not come after the end: nothing is completed again, and only operations in flight fail. -/
def InTime (log : OperationLog) : OperationCall → Prop
  | .complete id _ => id ∈ log.registry.operations → (log.registry.op id).status ≠ .completed
  | .completeTool id resultId _ =>
    resultId = id → id ∈ log.registry.operations → (log.registry.op id).status ≠ .completed
  | .fail id _ => id ∈ log.registry.operations → (log.registry.op id).status.InFlight
  | _ => True

/-- What holds in every state of a course in time: what was written of a submitted operation is what its status says. -/
structure Kept (log : OperationLog) : Prop where
  submitted : ∀ id ∈ log.registry.operations, id < log.registry.nextId
  unwritten : ∀ id, log.registry.nextId ≤ id → log.resultWrites id = 0 ∧ log.errorWrites id = 0
  result : ∀ id < log.registry.nextId,
    log.resultWrites id = if (log.registry.op id).status = .completed then 1 else 0
  error : ∀ id < log.registry.nextId, log.errorWrites id = if (log.registry.op id).status = .failed then 1 else 0

variable {log : OperationLog} {call : OperationCall} {id : ℕ}

/-- Nothing has been written twice. -/
theorem Kept.writtenOnce (kept : log.Kept) : log.WrittenOnce := by
  intro id
  by_cases hid : id < log.registry.nextId
  · rw [kept.result id hid, kept.error id hid]
    constructor <;> split <;> omega
  · obtain ⟨hresult, herror⟩ := kept.unwritten id (Nat.le_of_not_lt hid)
    omega

/-- A change of statuses that ends nothing in success or failure, of operations that are neither. -/
theorem Kept.restatus (kept : log.Kept) {registry : PendingOperationRegistry}
    (operations : registry.operations ⊆ log.registry.operations) (nextId : registry.nextId = log.registry.nextId)
    (completed : ∀ id, (registry.op id).status = .completed ↔ (log.registry.op id).status = .completed)
    (failed : ∀ id, (registry.op id).status = .failed ↔ (log.registry.op id).status = .failed) :
    Kept { log with registry := registry } := by
  constructor
  case submitted => exact fun id hid => nextId ▸ kept.submitted id (operations hid)
  case unwritten => exact fun id hid => kept.unwritten id (nextId ▸ hid)
  case result =>
    intro id hid
    simp only [completed]
    exact kept.result id (nextId ▸ hid)
  case error =>
    intro id hid
    simp only [failed]
    exact kept.error id (nextId ▸ hid)

/-- A status that is replaced in flight by one that is neither success nor failure. -/
theorem status_edit_iff {registry : PendingOperationRegistry} {status other : OpStatus}
    (inFlight : (registry.op id).status.InFlight) (hstatus : status ≠ other) (hother : ¬other.InFlight) (another : ℕ) :
    ((registry.edit id fun op => { op with status := status }).op another).status = other ↔
      (registry.op another).status = other := by
  by_cases hsame : another = id
  · subst hsame
    simp only [PendingOperationRegistry.edit, Function.update_self]
    exact iff_of_false hstatus fun h => hother (h ▸ inFlight)
  · simp [PendingOperationRegistry.edit, Function.update_of_ne hsame]

/-- The end of an operation that has neither completed nor failed, with what is written of it, is kept. -/
theorem Kept.close (kept : log.Kept) {f : PendingOperation → PendingOperation} {resultWrites errorWrites : ℕ → ℕ}
    (hmem : id ∈ log.registry.operations) (hcompleted : (log.registry.op id).status ≠ .completed)
    (hfailed : (log.registry.op id).status ≠ .failed)
    (hresult : ∀ other, resultWrites other =
      log.resultWrites other + if other = id ∧ (f (log.registry.op id)).status = .completed then 1 else 0)
    (herror : ∀ other, errorWrites other =
      log.errorWrites other + if other = id ∧ (f (log.registry.op id)).status = .failed then 1 else 0) :
    Kept ⟨log.registry.edit id f, resultWrites, errorWrites⟩ := by
  have hid := kept.submitted id hmem
  constructor
  case submitted => exact kept.submitted
  case unwritten =>
    intro other hother
    have hne : other ≠ id := fun h => absurd hid (Nat.not_lt.mpr (h ▸ hother))
    obtain ⟨hnoResult, hnoError⟩ := kept.unwritten other hother
    simp [hresult, herror, hne, hnoResult, hnoError]
  case result =>
    intro other hother
    dsimp only
    rw [hresult, kept.result other hother]
    by_cases hsame : other = id
    · subst hsame
      simp [PendingOperationRegistry.edit, hcompleted]
    · simp [PendingOperationRegistry.edit, hsame]
  case error =>
    intro other hother
    dsimp only
    rw [herror, kept.error other hother]
    by_cases hsame : other = id
    · subst hsame
      simp [PendingOperationRegistry.edit, hfailed]
    · simp [PendingOperationRegistry.edit, hsame]

/-- One more write at one place. -/
theorem update_add_one {writes : ℕ → ℕ} (other : ℕ) :
    Function.update writes id (writes id + 1) other = writes other + if other = id then 1 else 0 := by
  by_cases hsame : other = id
  · subst hsame
    simp
  · simp [hsame]

/-- A completion of an operation in flight is kept. -/
theorem Kept.completed (kept : log.Kept) {result : List (String × Value)}
    (inTime : id ∈ log.registry.operations → (log.registry.op id).status ≠ .completed) :
    (log.completed id result).Kept := by
  unfold OperationLog.completed PendingOperationRegistry.complete
  by_cases hopen : id ∈ log.registry.operations ∧ ¬(log.registry.op id).status.Dead
  · simp only [if_pos hopen]
    have hfailed : (log.registry.op id).status ≠ .failed := fun h => hopen.2 (Or.inr (Or.inr h))
    refine kept.close hopen.1 (inTime hopen.1) hfailed (fun other => ?_) fun other => ?_
    · simp [update_add_one]
    · simp
  · simp only [if_neg hopen]
    exact kept

/-- A failure of an operation in flight is kept. -/
theorem Kept.fail (kept : log.Kept) {error : String}
    (inTime : id ∈ log.registry.operations → (log.registry.op id).status.InFlight) :
    (log.step (.fail id error)).Kept := by
  unfold step PendingOperationRegistry.fail
  by_cases hopen : id ∈ log.registry.operations
  · simp only [if_pos hopen]
    have hflight := inTime hopen
    refine kept.close hopen ?_ ?_ (fun other => ?_) fun other => ?_
    · exact fun h => by simp [OpStatus.InFlight, h] at hflight
    · exact fun h => by simp [OpStatus.InFlight, h] at hflight
    · simp
    · simp [update_add_one]
  · simp only [if_neg hopen]
    exact kept

/-- A new operation is kept. -/
theorem Kept.submit (kept : log.Kept) {op : PendingOperation} : (log.step (.submit op)).Kept := by
  constructor
  case submitted =>
    intro id hid
    rcases List.mem_append.mp hid with hold | hnew
    · exact Nat.lt_succ_of_lt (kept.submitted id hold)
    · rw [List.mem_singleton.mp hnew]
      exact Nat.lt_succ_self _
  case unwritten => exact fun id hid => kept.unwritten id ((Nat.le_succ _).trans hid)
  case result | error =>
    intro id hid
    change id < log.registry.nextId + 1 at hid
    rcases Nat.lt_succ_iff_lt_or_eq.mp hid with hold | rfl
    · simp [step, PendingOperationRegistry.submit, Function.update_of_ne hold.ne, kept.result id hold,
        kept.error id hold]
    · have hunwritten := kept.unwritten log.registry.nextId le_rfl
      simp [step, PendingOperationRegistry.submit, hunwritten]

/-- A call in time is kept. -/
theorem Kept.step (kept : log.Kept) (inTime : log.InTime call) : (log.step call).Kept := by
  cases call with
  | submit op => exact kept.submit
  | claim id =>
    rw [OperationLog.step, PendingOperationRegistry.claim]
    split
    next hopen =>
      have hflight : (log.registry.op id).status.InFlight := Or.inl hopen.2
      exact kept.restatus (fun _ h => h) rfl (status_edit_iff hflight (by decide) (by decide))
        (status_edit_iff hflight (by decide) (by decide))
    next => exact kept
  | complete id result => exact kept.completed inTime
  | completeTool id resultId data =>
    rw [OperationLog.step]
    split
    next hsame => exact kept.completed (inTime hsame)
    next => exact kept
  | receipt id result =>
    rw [OperationLog.step]
    split
    next hflight => exact kept.completed fun _ hcompleted => by simp [OpStatus.InFlight, hcompleted] at hflight
    next => exact kept
  | fail id error => exact kept.fail inTime
  | cancel id =>
    rw [OperationLog.step, PendingOperationRegistry.cancel]
    split
    next hopen =>
      exact kept.restatus (fun _ h => h) rfl (status_edit_iff hopen.2 (by decide) (by decide))
        (status_edit_iff hopen.2 (by decide) (by decide))
    next => exact kept
  | timeoutExpired tick =>
    have hexpired (id : ℕ) (other : OpStatus) (hother : ¬other.InFlight) (htimedOut : other ≠ .timedOut) :
        ((log.registry.timeOut tick).op id).status = other ↔ (log.registry.op id).status = other := by
      rw [PendingOperationRegistry.timeOut]
      dsimp only
      split
      next hid =>
        have hflight : (log.registry.op id).status.InFlight := by
          have hchosen := (List.mem_filter.mp hid).2
          simp only [Bool.and_eq_true, decide_eq_true_eq] at hchosen
          exact hchosen.1
        exact iff_of_false (Ne.symm htimedOut) fun h => hother (h ▸ hflight)
      next => exact Iff.rfl
    exact kept.restatus (fun _ h => h) rfl (fun id => hexpired id _ (by decide) (by decide))
      fun id => hexpired id _ (by decide) (by decide)
  | remove id => exact kept.restatus List.erase_subset rfl (fun _ => Iff.rfl) fun _ => Iff.rfl
  | removeForRollback id =>
    rw [OperationLog.step, PendingOperationRegistry.removeForRollback]
    split
    · exact kept.restatus List.erase_subset rfl (fun _ => Iff.rfl) fun _ => Iff.rfl
    · exact kept

/-- The edit of an operation that may move. -/
theorem moves_edit {registry : PendingOperationRegistry} {f : PendingOperation → PendingOperation} (status : OpStatus)
    (changed : ∀ op, (f op).status = status) (moves : (registry.op id).status.Moves status) (other : ℕ) :
    (registry.op other).status.Moves ((registry.edit id f).op other).status := by
  by_cases hsame : other = id
  · subst hsame
    simpa [PendingOperationRegistry.edit, changed] using moves
  · exact Or.inl (by simp [PendingOperationRegistry.edit, Function.update_of_ne hsame])

/-- From flight to the end. -/
theorem moves_of_inFlight {before after : OpStatus} (inFlight : before.InFlight) (ended : ¬after.InFlight) :
    before.Moves after :=
  inFlight.elim (fun h => Or.inr (Or.inl h)) fun h => Or.inr (Or.inr ⟨h, ended⟩)

/-- A completion moves a status forward when nothing is completed again. -/
theorem moves_completed {result : List (String × Value)}
    (inTime : id ∈ log.registry.operations → (log.registry.op id).status ≠ .completed) (other : ℕ) :
    (log.registry.op other).status.Moves ((log.completed id result).registry.op other).status := by
  rw [completed, PendingOperationRegistry.complete]
  dsimp only
  split
  next hopen =>
    refine moves_edit .completed (fun _ => rfl) (moves_of_inFlight ?_ (by decide)) other
    have hcompleted := inTime hopen.1
    have hdead := hopen.2
    cases hstatus : (log.registry.op id).status <;> simp_all [OpStatus.Dead, OpStatus.InFlight]
  next => exact Or.inl rfl

/-- A call in time moves statuses forward. -/
theorem forward_of_inTime (inTime : log.InTime call) : log.Forward call := by
  intro other hother
  cases call with
  | submit op =>
    refine Or.inl ?_
    simp [step, PendingOperationRegistry.submit, Function.update_of_ne hother.ne]
  | claim id =>
    rw [step, PendingOperationRegistry.claim]
    dsimp only
    split
    next hopen =>
      exact moves_edit .pending (fun _ => rfl) (Or.inr (Or.inl hopen.2)) other
    next => exact Or.inl rfl
  | complete id result => exact moves_completed inTime other
  | completeTool id resultId data =>
    rw [step]
    split
    next hsame => exact moves_completed (inTime hsame) other
    next => exact Or.inl rfl
  | receipt id result =>
    rw [step]
    split
    next hflight => exact moves_completed (fun _ hcompleted => by simp [OpStatus.InFlight, hcompleted] at hflight) other
    next => exact Or.inl rfl
  | fail id error =>
    rw [step, PendingOperationRegistry.fail]
    dsimp only
    split
    next hopen =>
      exact moves_edit .failed (fun _ => rfl) (moves_of_inFlight (inTime hopen) (by decide)) other
    next => exact Or.inl rfl
  | cancel id =>
    rw [step, PendingOperationRegistry.cancel]
    dsimp only
    split
    next hopen =>
      rw [Option.getD_some]
      exact moves_edit .cancelled (fun _ => rfl) (moves_of_inFlight hopen.2 (by decide)) other
    next => exact Or.inl rfl
  | timeoutExpired tick =>
    rw [step, PendingOperationRegistry.timeOut]
    dsimp only
    split
    next hid =>
      have hchosen := (List.mem_filter.mp hid).2
      simp only [Bool.and_eq_true, decide_eq_true_eq] at hchosen
      exact @moves_of_inFlight _ .timedOut hchosen.1 (by decide)
    next => exact Or.inl rfl
  | remove id => exact Or.inl rfl
  | removeForRollback id =>
    rw [step, PendingOperationRegistry.removeForRollback]
    split <;> exact Or.inl rfl

/-- A second completion writes a result twice. -/
theorem Kept.not_writtenOnce_completed (kept : log.Kept) {result : List (String × Value)}
    (hmem : id ∈ log.registry.operations) (hcompleted : (log.registry.op id).status = .completed) :
    ¬(log.completed id result).WrittenOnce := by
  intro honce
  have hwritten := (honce id).1
  have hopen : id ∈ log.registry.operations ∧ ¬(log.registry.op id).status.Dead := by
    simp [hmem, hcompleted, OpStatus.Dead]
  rw [OperationLog.completed, if_pos hopen] at hwritten
  dsimp only at hwritten
  rw [Function.update_self, kept.result id (kept.submitted id hmem), if_pos hcompleted] at hwritten
  omega

/-- A call that moves statuses forward and writes nothing twice is in time. -/
theorem Kept.inTime (kept : log.Kept) (forward : log.Forward call) (once : (log.step call).WrittenOnce) :
    log.InTime call := by
  cases call with
  | complete id result => exact fun hmem hcompleted => kept.not_writtenOnce_completed hmem hcompleted once
  | completeTool id resultId data =>
    intro hsame hmem hcompleted
    rw [OperationLog.step, if_pos hsame] at once
    exact kept.not_writtenOnce_completed hmem hcompleted once
  | fail id error =>
    intro hmem
    have hid := kept.submitted id hmem
    have hmoves := forward id hid
    have hwritten := (once id).2
    rw [OperationLog.step, if_pos hmem] at hwritten
    rw [OperationLog.step, PendingOperationRegistry.fail, if_pos hmem] at hmoves
    simp only [PendingOperationRegistry.edit, Function.update_self] at hmoves hwritten
    rw [kept.error id hid] at hwritten
    rcases hmoves with hfailed | hsubmitted | hpending
    · rw [if_pos hfailed.symm] at hwritten
      omega
    · exact Or.inl hsubmitted
    · exact Or.inr hpending.1
  | _ => trivial

/-- A new registry. -/
def opened (op : ℕ → PendingOperation) : OperationLog :=
  ⟨{ op := op }, fun _ => 0, fun _ => 0⟩

/-- Nothing has been submitted to a new registry. -/
theorem kept_opened {op : ℕ → PendingOperation} : (opened op).Kept := by
  constructor
  case submitted => exact fun id hid => nomatch hid
  case unwritten => exact fun id _ => ⟨rfl, rfl⟩
  case result | error => exact fun id hid => nomatch hid

/-- In a course of calls the status of every operation moves from submitted or pending to its end and no further, and
its result and its error are written at most once, if and only if no completion comes for a completed operation and no
failure for one that has ended. -/
theorem final_iff_inTime (op : ℕ → PendingOperation) (calls : List OperationCall) :
    Throughout step WrittenOnce Forward (opened op) calls ↔ Each step InTime (opened op) calls :=
  throughout_iff_each kept_opened Kept.writtenOnce (fun kept inTime => ⟨kept.step inTime, forward_of_inTime inTime⟩)
    Kept.inTime

/-- An operation of an agent, as it is submitted. -/
def question : PendingOperation where
  opType := .llmRequest
  agentId := "root"
  taskId := ""
  createdTick := 0
  eligibleTick := 1
  deadlineTick := none
  stateEpoch := 0
  chosenId := "question"

/-- An operation that is cancelled and then fails is failed. -/
theorem failure_after_cancellation : ¬Throughout step WrittenOnce Forward (opened fun _ => question)
    [.submit question, .cancel 0, .fail 0 "connection lost"] := by
  rintro ⟨-, -, -, -, -, hforward, -⟩
  rcases hforward 0 (by decide) with hsame | hsubmitted | ⟨hpending, -⟩
  · exact absurd hsame (by decide +kernel)
  · exact absurd hsubmitted (by decide +kernel)
  · exact absurd hpending (by decide +kernel)

end OperationLog

end MyTeam.Legacy
