import MyTeam.Bash.Results

/-!
# The states of a job

The state of a job moves one way: from the queue to running, and from there to one of the three
terminal states. A job that is kept as completed is in a terminal state, provided that its
subprocess could be started and its output read: the driver reports these two failures and leaves
the state as it is. A request to kill a job that is running but has no subprocess yet marks the
job as killed and then raises an exception.
-/

namespace MyTeam.Bash

open MyTeam.Py

/-- `done`, `killed` or `expired`. -/
def JobState.Terminal (state : JobState) : Prop := state ≠ .queued ∧ state ≠ .running

instance (state : JobState) : Decidable state.Terminal := inferInstanceAs (Decidable (_ ∧ _))

/-- How the state of a job may move. -/
inductive JobState.Advance : JobState → JobState → Prop where
  | stay {state : JobState} : Advance state state
  | start : Advance .queued .running
  | finish : Advance .running .done
  | kill : Advance .running .killed
  | expire : Advance .running .expired
  | lapse : Advance .queued .expired

/-- A terminal state is final. -/
theorem JobState.Advance.eq_of_terminal {state state' : JobState} (h : Advance state state')
    (hterminal : state.Terminal) : state' = state := by
  cases h with
  | stay => rfl
  | start => exact absurd rfl hterminal.1
  | finish => exact absurd rfl hterminal.2
  | kill => exact absurd rfl hterminal.2
  | expire => exact absurd rfl hterminal.2
  | lapse => exact absurd rfl hterminal.1

/-- A request to kill a job or to extend its deadline. -/
def Request.isControl : Request → Bool
  | .kill _ | .extend _ _ => true
  | _ => false

/-- A driver that has seen the end of the output, or has returned, leaves a terminal state. -/
def Life.Settled (v : Life) : Prop :=
  v.driver = .window .waiting ∨ v.driver = .background .waiting ∨ v.driver = .returned → v.state.Terminal

namespace BashDevice

/-- `_on_kill` raises an exception: the job is running and has no subprocess yet. -/
def KillRaises (d : BashDevice) (source : String) (job : Option ℕ) : Prop :=
  ∃ id ∈ d.findOwned source job, (d.table id).state = .running ∧ (d.table id).proc = none

instance (d : BashDevice) (source : String) (job : Option ℕ) : Decidable (d.KillRaises source job) :=
  inferInstanceAs (Decidable (∃ id ∈ d.findOwned source job, _ ∧ _))

/-- A request is answered with an error, or raises an exception. -/
def Fails (d : BashDevice) (source : String) (request : Request) : Prop :=
  (∃ refusal, (d.respond source request).sent = d.sent ++ [.error source refusal]) ∨
  ∃ job, request = .kill job ∧ d.KillRaises source job

/-- A running job does not lose its driver to a failure, and is not killed before its subprocess
was started. -/
def Clean (d : BashDevice) : Move → Prop
  | .request source (.kill job) => ¬ d.KillRaises source job
  | .launchFails id _ | .readRaises id _ => (d.table id).state ≠ .running
  | _ => True

instance (d : BashDevice) : ∀ move, Decidable (d.Clean move)
  | .request source (.kill job) => inferInstanceAs (Decidable (¬ d.KillRaises source job))
  | .launchFails id _ | .readRaises id _ => inferInstanceAs (Decidable ((d.table id).state ≠ .running))
  | .request _ (.run _ _ _ _ _) | .request _ (.status _ _) | .request _ (.extend _ _) | .request _ (.unknown _)
  | .advance _ | .watch _ | .start _ | .launch _ | .launchRaises _ | .output _ _ | .eof _ | .timeout _
  | .exit _ _ | .reap _ | .resume _ => inferInstanceAs (Decidable True)

/-- The states of jobs are a one-way machine, as far as the moves obey a rule. -/
structure OneWay (rule : BashDevice → Move → Prop) (d : BashDevice) : Prop where
  completed : ∀ id ∈ d.completed, (d.table id).state.Terminal
  advances : ∀ move d', rule d move → d.step move = some d' →
    ∀ id < d.seq, JobState.Advance (d.table id).state (d'.table id).state
  final : ∀ move d', rule d move → d.step move = some d' →
    ∀ id < d.seq, (d.table id).state.Terminal → (d'.table id).state = (d.table id).state
  unchanged : ∀ source request, rule d (.request source request) → request.isControl = true →
    d.Fails source request → (d.respond source request).table = d.table

variable {d d' : BashDevice} {id : ℕ}

/-- Every turn advances the state of the job. -/
theorem Turn.advance {move : Move} {v : Life} (h : Turn d id move v) (hid : id < d.seq) :
    JobState.Advance (d.table id).state v.state := by
  have heof : JobState.Advance (d.table id).state
      (if (d.table id).state = .running then .done else (d.table id).state) := by
    split
    next hrunning =>
      rw [hrunning]
      exact .finish
    next => exact .stay
  cases h with
  | enqueue fresh => exact absurd hid (by simp [fresh])
  | begin fresh => exact absurd hid (by simp [fresh])
  | kill running =>
    rw [running]
    exact .kill
  | wake lt queued =>
    rw [queued]
    exact .start
  | eofWindow reading => exact heof
  | eofBackground reading => exact heof
  | expireRunning due running started =>
    rw [running]
    exact .expire
  | expireQueued lt due queued =>
    rw [queued]
    exact .lapse
  | _ => exact .stay

/-- A job with a driver is not queued. -/
theorem Sound.not_queued (h : d.Sound) (hid : (d.drivers id).phase ≠ .absent) : (d.table id).state ≠ .queued := by
  intro hq
  by_cases hlt : id < d.seq
  · exact hid (h.queued id hlt hq).1
  · exact hid (h.fresh id (not_lt.mp hlt))

/-- Every clean turn leaves a terminal state behind a driver that has seen the end. -/
theorem Turn.settled {move : Move} {v : Life} (hsound : d.Sound) (hmove : d.Clean move)
    (h : (d.life id).Settled) (hturn : Turn d id move v) : v.Settled := by
  have hterminal (hphase : (d.drivers id).phase ≠ .absent) (hstate : (d.table id).state ≠ .running) :
      (d.table id).state.Terminal := ⟨hsound.not_queued hphase, hstate⟩
  have heof (hphase : (d.drivers id).phase ≠ .absent) :
      (if (d.table id).state = .running then .done else (d.table id).state : JobState).Terminal := by
    split
    · decide
    next hstate => exact hterminal hphase hstate
  intro hend
  cases hturn with
  | still => exact h hend
  | enqueue fresh =>
    have hfresh : (d.drivers id).phase = .absent := hsound.fresh id fresh.ge
    rcases hend with hend | hend | hend <;> simp [show d.drivers id = _ from hend, Driver.phase] at hfresh
  | begin fresh => simp at hend
  | kill running => exact ⟨by simp, by simp⟩
  | wake lt queued => simp at hend
  | start ready => simp at hend
  | launchWindow launching => simp at hend
  | launchBackground launching => simp at hend
  | launchFails launching => exact hterminal (by simp [launching, Driver.phase]) hmove
  | launchRaises launching => simp at hend
  | eofWindow reading => exact heof (by simp [reading, Driver.phase])
  | eofBackground reading => exact heof (by simp [reading, Driver.phase])
  | readRaises reading =>
    refine hterminal ?_ hmove
    rcases reading with hreading | hreading <;> simp [hreading, Driver.phase]
  | @timeout drain draining =>
    cases drain with
    | reading => simp at hend
    | waiting => exact h (Or.inl draining)
  | exit proc alive => exact h hend
  | reap proc dead => exact h hend
  | resumeWindow waiting reaped => exact h (Or.inl waiting)
  | resumeBackground waiting reaped => exact h (Or.inr (Or.inl waiting))
  | expireRunning due running started => exact ⟨by simp, by simp⟩
  | expireQueued lt due queued => exact ⟨by simp, by simp⟩
  | giveUp due queued idle => exact h hend
  | sleep => exact h hend

/-- A driver that has returned does not come back. -/
theorem Turn.returned {move : Move} {v : Life} (hsound : d.Sound) (hturn : Turn d id move v)
    (h : d.drivers id = .returned) : v.driver = .returned := by
  have hphase : (d.drivers id).phase ≠ .absent := by simp [h, Driver.phase]
  cases hturn with
  | begin fresh => exact absurd (hsound.fresh id fresh.ge) hphase
  | wake lt queued => exact absurd queued (hsound.not_queued hphase)
  | start ready => cases h.symm.trans ready
  | launchWindow launching => cases h.symm.trans launching
  | launchBackground launching => cases h.symm.trans launching
  | launchFails launching => rfl
  | launchRaises launching => cases h.symm.trans launching
  | eofWindow reading => cases h.symm.trans reading
  | eofBackground reading => cases h.symm.trans reading
  | readRaises reading => rfl
  | timeout draining => cases h.symm.trans draining
  | resumeWindow waiting reaped => rfl
  | resumeBackground waiting reaped => rfl
  | _ => exact h

/-- A request leaves the completed jobs alone. -/
theorem respond_completed {source : String} {request : Request} :
    (d.respond source request).completed = d.completed := by
  cases request with
  | run cmd cwd toolCallId timeout deadline =>
    simp only [BashDevice.respond, BashDevice.onRun, BashDevice.accept]
    repeat' split
    all_goals rfl
  | status job offset =>
    simp only [BashDevice.respond, BashDevice.onStatus]
    repeat' split
    all_goals rfl
  | kill job =>
    simp only [BashDevice.respond, BashDevice.onKill]
    repeat' split
    all_goals rfl
  | extend job seconds =>
    simp only [BashDevice.respond, BashDevice.onExtend]
    repeat' split
    all_goals rfl
  | unknown command => rfl

/-- Handing a source over leaves the completed jobs alone. -/
theorem wakeSource_completed (source : String) : (d.wakeSource source).completed = d.completed := by
  unfold BashDevice.wakeSource
  split <;> rfl

/-- A driver that concludes adds its job to the completed ones. -/
theorem completed_conclude {send : BashDevice → Sent → BashDevice} {answer : Window → Window}
    (hsend : Sends id send answer) {error : Option String} {other : ℕ}
    (h : other ∈ (d.conclude id send error).completed) : other ∈ d.completed ∨ other = id := by
  have hcompleted : (d.conclude id send error).completed = (d.finish id).completed := by
    change (BashDevice.wakeSource _ _).completed = _
    rw [wakeSource_completed, hsend]
  rw [hcompleted] at h
  simpa using List.mem_of_mem_drop h

/-- A job is completed when its driver returns. -/
theorem completed_step {move : Move} (moved : d.step move = some d') {other : ℕ} (h : other ∈ d'.completed) :
    other ∈ d.completed ∨ d'.drivers other = .returned := by
  have hconcluded {id : ℕ} {send : BashDevice → Sent → BashDevice} {answer : Window → Window}
      {error : Option String} (hsend : Sends id send answer) (hd : d.conclude id send error = d') :
      other ∈ d.completed ∨ d'.drivers other = .returned := by
    subst hd
    rcases completed_conclude hsend h with hmem | rfl
    · exact Or.inl hmem
    · exact Or.inr (by simp [BashDevice.conclude, BashDevice.drive])
  cases move with
  | request source request =>
    cases moved
    rw [respond_completed] at h
    exact Or.inl h
  | advance now =>
    simp only [BashDevice.step] at moved
    split at moved
    · cases moved
      exact Or.inl h
    · cases moved
  | watch id =>
    have hround (hd : d.watchRound id = d') : d'.completed = d.completed := by
      rw [← hd]
      unfold BashDevice.watchRound
      dsimp only
      repeat' split
      all_goals rfl
    simp only [BashDevice.step] at moved
    split at moved
    · exact Or.inl (hround (Option.some.inj moved) ▸ h)
    · split at moved
      · cases moved
      · exact Or.inl (hround (Option.some.inj moved) ▸ h)
    · cases moved
  | start id =>
    simp only [BashDevice.step] at moved
    split at moved
    · cases moved
      exact Or.inl h
    · cases moved
  | launch id =>
    simp only [BashDevice.step] at moved
    split at moved
    · cases moved
      unfold BashDevice.launch at h
      dsimp only at h
      split at h
      · exact Or.inl h
      · have hsends : ∀ e event, BashDevice.deliver e id event = _ := sends_deliver id
        rw [hsends] at h
        exact Or.inl h
    · cases moved
  | launchFails id message =>
    simp only [BashDevice.step] at moved
    split at moved
    · exact hconcluded (sends_deliver id) (Option.some.inj moved)
    · cases moved
  | launchRaises id =>
    simp only [BashDevice.step] at moved
    split at moved
    · cases moved
      exact Or.inl h
    · cases moved
  | output id chunk =>
    simp only [BashDevice.step] at moved
    split at moved
    · split at moved
      · cases moved
      · cases moved
        exact Or.inl h
    · split at moved
      · cases moved
      · cases moved
        exact Or.inl h
    · cases moved
  | eof id =>
    simp only [BashDevice.step] at moved
    split at moved
    · cases moved
      exact Or.inl h
    · cases moved
      exact Or.inl h
    · cases moved
  | readRaises id message =>
    have hfails (hd : d.readFails id message = d') : other ∈ d.completed ∨ d'.drivers other = .returned := by
      have hsame : d'.completed = (d.conclude id BashDevice.emit (some message)).completed ∧
          d'.drivers = (d.conclude id BashDevice.emit (some message)).drivers := by
        rw [← hd]
        unfold BashDevice.readFails
        dsimp only
        split <;> exact ⟨rfl, rfl⟩
      rw [hsame.1] at h
      rcases completed_conclude (sends_emit id) h with hmem | rfl
      · exact Or.inl hmem
      · exact Or.inr (by simp [hsame.2, BashDevice.conclude, BashDevice.drive])
    simp only [BashDevice.step] at moved
    split at moved
    · exact hfails (Option.some.inj moved)
    · exact hfails (Option.some.inj moved)
    · cases moved
  | timeout id =>
    simp only [BashDevice.step] at moved
    split at moved
    · cases moved
      have hsends : d.deliver id _ = _ := sends_deliver id d (.backgrounded id)
      rw [hsends] at h
      exact Or.inl h
    · cases moved
  | exit id code =>
    simp only [BashDevice.step] at moved
    split at moved
    · split at moved
      · cases moved
        exact Or.inl h
      · cases moved
    · cases moved
  | reap id =>
    simp only [BashDevice.step] at moved
    split at moved
    · split at moved
      · cases moved
      · cases moved
        exact Or.inl h
    · cases moved
  | resume id =>
    simp only [BashDevice.step] at moved
    split at moved
    · cases moved
    split at moved
    · exact hconcluded (sends_deliver id) (Option.some.inj moved)
    · exact hconcluded (sends_emit id) (Option.some.inj moved)
    · cases moved

/-- The driver of a completed job has returned. -/
theorem Reachable.returned {rule : BashDevice → Move → Prop} (h : Reachable rule d) :
    ∀ id ∈ d.completed, d.drivers id = .returned := by
  induction h with
  | new made =>
    unfold BashDevice.new at made
    split at made
    · cases made
      simp
    · cases made
  | step reached allowed moved ih =>
    intro id hid
    rcases completed_step moved hid with hmem | hreturned
    · exact (reached.sound.turn moved id).returned reached.sound (ih id hmem)
    · exact hreturned

/-- A request that is answered with an error changes no job. -/
theorem table_of_refused {source : String} {request : Request} (hcontrol : request.isControl = true)
    {refusal : Refusal} (h : (d.respond source request).sent = d.sent ++ [.error source refusal]) :
    (d.respond source request).table = d.table := by
  have hsilent {f : Job → Job} {id : ℕ} (h : (d.edit id f).sent = d.sent ++ [.error source refusal]) :
      False := by
    simp [BashDevice.edit] at h
  revert h
  cases request with
  | kill job =>
    simp only [BashDevice.respond]
    unfold BashDevice.onKill
    split
    · exact fun _ => rfl
    split
    · exact fun _ => rfl
    · exact fun h => (hsilent h).elim
  | extend job seconds =>
    simp only [BashDevice.respond]
    unfold BashDevice.onExtend
    split
    · exact fun _ => rfl
    dsimp only
    split
    · exact fun _ => rfl
    split
    · split
      · exact fun _ => rfl
      split
      · exact fun _ => rfl
      · exact fun h => (hsilent h).elim
    · exact fun _ => rfl
  | run cmd cwd toolCallId timeout deadline => cases hcontrol
  | status job offset => cases hcontrol
  | unknown command => cases hcontrol

/-- In every clean run the states of jobs are a one-way machine. -/
theorem Reachable.oneWay (h : Reachable Clean d) : d.OneWay Clean := by
  have hsound := h.sound
  have hsettled := h.lives (I := Life.Settled) (fun hend => by simp at hend)
    fun _ _ _ _ hsound hmove hlife hturn => hturn.settled hsound hmove hlife
  refine ⟨fun id hid => hsettled id (Or.inr (Or.inr (h.returned id hid))),
    fun move d' _ moved id hid => (hsound.turn moved id).advance hid,
    fun move d' _ moved id hid hterminal => ((hsound.turn moved id).advance hid).eq_of_terminal hterminal,
    fun source request hclean hcontrol hfails => ?_⟩
  rcases hfails with ⟨refusal, hrefused⟩ | ⟨job, rfl, hraises⟩
  · exact table_of_refused hcontrol hrefused
  · exact absurd hraises hclean

/-- A job is killed after its subprocess was started: the run is clean, the job is completed as
killed, and a second request to kill it is refused. -/
theorem oneWay_killed : ∃ d, Reachable Clean d ∧ (d.completed = [0] ∧ (d.table 0).state = .killed ∧
    d.Clean (.request "a" (.kill (some 0)))) ∧ d.OneWay Clean := by
  have hrun : (defaultDevice.bind (·.run Clean [.request "a" (bashRun "sleep 100"), .start 0, .launch 0,
      .request "a" (.kill (some 0)), .eof 0, .exit 0 (-9), .reap 0, .resume 0])).any
        (fun d => d.completed = [0] ∧ (d.table 0).state = .killed ∧
          d.Clean (.request "a" (.kill (some 0)))) = true := by
    decide +kernel
  obtain ⟨d, h, hend⟩ := Reachable.of_run _ _ hrun
  exact ⟨d, h, hend, h.oneWay⟩

/-- The subprocess cannot be started: the job is completed and still marked as running; a request
to kill it marks it as killed and raises an exception. -/
theorem completed_running : ∃ d, Reachable (fun _ _ => True) d ∧
    (d.completed = [0] ∧ (d.table 0).state = .running ∧ d.KillRaises "a" (some 0) ∧
      ((d.respond "a" (.kill (some 0))).table 0).state = .killed) ∧ ¬ d.OneWay fun _ _ => True := by
  have hrun : (defaultDevice.bind (·.run (fun _ _ => True) [.request "a" (.run (some "ls") (.str "/missing") .none
      .missing .missing), .start 0, .launchFails 0 "No such file or directory"])).any
        (fun d => d.completed = [0] ∧ (d.table 0).state = .running ∧ d.KillRaises "a" (some 0) ∧
          ((d.respond "a" (.kill (some 0))).table 0).state = .killed) = true := by
    decide +kernel
  obtain ⟨d, h, hend⟩ := Reachable.of_run _ _ hrun
  refine ⟨d, h, hend, fun honeWay => ?_⟩
  exact (honeWay.completed 0 (by simp [hend.1])).2 hend.2.1

end BashDevice

end MyTeam.Bash
