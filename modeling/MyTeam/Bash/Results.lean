import MyTeam.Bash.Life

/-!
# One result for every job

A job has at most one result. When its tasks have ended it has exactly one, its window is
answered and its slot and its source are free for others: provided that starting a subprocess
raises nothing but an `OSError`, and that reading raises nothing while the window is open. Any
other exception ends the driver before it has cleaned up, or after it has sent the result to the
bus and left the window open.
-/

namespace MyTeam.Bash

open MyTeam.Py

/-- The task has ended, or there was none. -/
def Driver.over : Driver → Bool
  | .absent | .returned | .raised => true
  | _ => false

/-- No driver raised an exception, and an open window has a driver that will answer it. -/
structure Life.Answering (v : Life) : Prop where
  raised : v.driver ≠ .raised
  window : v.window = .pending → v.driver.over = false ∧ ∀ drain, v.driver ≠ .background drain

namespace BashDevice

/-- The tasks of a job have ended. -/
def Ended (d : BashDevice) (id : ℕ) : Prop :=
  (d.drivers id).over = true ∧ d.watches id = .returned

instance (d : BashDevice) (id : ℕ) : Decidable (d.Ended id) := inferInstanceAs (Decidable (_ ∧ _))

/-- The source of a job is released, or another job of it is under way. -/
def HandedOver (d : BashDevice) (id : ℕ) : Prop :=
  d.sourceBusy (d.table id).source = false ∧ d.pending (d.table id).source = [] ∨
  ∃ other ∈ d.jobs, other ≠ id ∧ (d.table other).source = (d.table id).source ∧
    (d.drivers other).over = false

/-- What should be done when the tasks of a job have ended. -/
structure Concluded (d : BashDevice) (id : ℕ) : Prop where
  result : d.results id = 1
  window : d.windows id ≠ .pending
  slot : id ∉ d.jobs
  source : d.HandedOver id

/-- Every accepted job has at most one result, and is concluded when its tasks have ended. -/
def SingleResults (d : BashDevice) : Prop :=
  ∀ id < d.seq, d.results id ≤ 1 ∧ (d.Ended id → d.Concluded id)

/-- Starting a subprocess raises nothing but an `OSError`, and reading raises nothing while the
window of the job is open. -/
def Orderly (d : BashDevice) : Move → Prop
  | .launchRaises _ => False
  | .readRaises id _ => d.windows id ≠ .pending
  | _ => True

instance (d : BashDevice) : ∀ move, Decidable (d.Orderly move)
  | .launchRaises _ => inferInstanceAs (Decidable False)
  | .readRaises id _ => inferInstanceAs (Decidable (d.windows id ≠ .pending))
  | .request _ _ | .advance _ | .watch _ | .start _ | .launch _ | .launchFails _ _ | .output _ _ | .eof _
  | .timeout _ | .exit _ _ | .reap _ | .resume _ => inferInstanceAs (Decidable True)

variable {d : BashDevice} {id : ℕ}

/-- An orderly turn leaves no window open. -/
theorem Turn.answering {move : Move} {v : Life} (hmove : d.Orderly move) (h : (d.life id).Answering)
    (hturn : Turn d id move v) : v.Answering := by
  obtain ⟨hraised, hwindow⟩ := h
  cases hturn with
  | still => exact ⟨hraised, hwindow⟩
  | enqueue fresh => exact ⟨hraised, hwindow⟩
  | begin fresh => exact ⟨nofun, fun _ => ⟨rfl, nofun⟩⟩
  | kill running => exact ⟨hraised, hwindow⟩
  | wake lt queued => exact ⟨nofun, fun _ => ⟨rfl, nofun⟩⟩
  | start ready => exact ⟨nofun, fun _ => ⟨rfl, nofun⟩⟩
  | launchWindow launching => exact ⟨nofun, fun _ => ⟨rfl, nofun⟩⟩
  | launchBackground launching => exact ⟨nofun, fun hopen => absurd hopen (Window.answer_ne_pending _)⟩
  | launchFails launching => exact ⟨nofun, fun hopen => absurd hopen (Window.answer_ne_pending _)⟩
  | launchRaises launching => exact hmove.elim
  | eofWindow reading => exact ⟨nofun, fun _ => ⟨rfl, nofun⟩⟩
  | eofBackground reading =>
    exact ⟨nofun, fun hopen => absurd reading ((hwindow hopen).2 _)⟩
  | readRaises reading => exact ⟨nofun, fun hopen => absurd hopen hmove⟩
  | timeout draining => exact ⟨nofun, fun hopen => absurd hopen (Window.answer_ne_pending _)⟩
  | exit proc alive => exact ⟨hraised, hwindow⟩
  | reap proc dead => exact ⟨hraised, hwindow⟩
  | resumeWindow waiting reaped =>
    exact ⟨nofun, fun hopen => absurd hopen (Window.answer_ne_pending _)⟩
  | resumeBackground waiting reaped =>
    exact ⟨nofun, fun hopen => absurd waiting ((hwindow hopen).2 _)⟩
  | expireRunning due running started => exact ⟨hraised, hwindow⟩
  | expireQueued lt due queued => exact ⟨hraised, hwindow⟩
  | giveUp due queued idle => exact ⟨hraised, hwindow⟩
  | sleep => exact ⟨hraised, hwindow⟩

/-- In an orderly run every open window will be answered. -/
theorem Reachable.answering (h : Reachable Orderly d) (id : ℕ) : (d.life id).Answering :=
  h.lives (I := Life.Answering) ⟨nofun, nofun⟩ (fun _ _ _ _ _ hmove hlife hturn => hturn.answering hmove hlife) id

/-- No job has two results. -/
theorem Sound.results_le_one (h : d.Sound) (id : ℕ) : d.results id ≤ 1 := by
  rw [h.tally, expected]
  split
  · split <;> decide
  · decide
  · exact le_rfl

/-- A job whose tasks have ended has its result, unless its driver raised an exception. -/
theorem Sound.results_of_ended (h : d.Sound) (hid : id < d.seq) (hended : d.Ended id)
    (hraised : d.drivers id ≠ .raised) : d.results id = 1 := by
  obtain ⟨hover, hwatch⟩ := hended
  rw [h.tally, expected]
  cases hdriver : d.drivers id with
  | absent =>
    have habsent : (d.drivers id).phase = .absent := by rw [hdriver]; rfl
    have hexpired : (d.table id).state = .expired := by
      rcases h.undriven id hid habsent with hq | hexpired
      · exact absurd hwatch (h.queued id hid hq).2
      · exact hexpired
    simp [Driver.phase, hid, hexpired]
  | returned => rfl
  | raised => exact absurd hdriver hraised
  | _ => simp [hdriver, Driver.over] at hover

/-- A driver that has ended has no slot, unless it raised an exception. -/
theorem phase_of_over {driver : Driver} (hover : driver.over = true) (hraised : driver ≠ .raised) :
    driver.phase ≠ .holding := by
  cases driver <;> simp_all [Driver.over, Driver.phase]

/-- In an orderly run every job has one result and is concluded when its tasks have ended. -/
theorem Reachable.singleResults (h : Reachable Orderly d) : d.SingleResults := by
  intro id hid
  have hsound := h.sound
  refine ⟨hsound.results_le_one id, fun hended => ?_⟩
  have hphase := phase_of_over hended.1 (h.answering id).raised
  refine ⟨hsound.results_of_ended hid hended (h.answering id).raised, fun hopen => ?_, fun hmem => ?_, ?_⟩
  · have hover : (d.drivers id).over = false := ((h.answering id).window hopen).1
    simp [hended.1] at hover
  · exact hphase ((hsound.slots id).mp hmem)
  · cases hbusy : d.sourceBusy (d.table id).source with
    | false =>
      refine Or.inl ⟨hbusy, ?_⟩
      by_contra hwaiting
      simp [hsound.waiting _ hwaiting] at hbusy
    | true =>
      obtain ⟨other, hother, hsource⟩ := (hsound.busy _).mp hbusy
      refine Or.inr ⟨other, (hsound.slots other).mpr hother, fun heq => hphase (heq ▸ hother), hsource, ?_⟩
      by_contra hover
      exact phase_of_over (Bool.not_eq_false _ ▸ hover) (h.answering other).raised hother

/-- A device with the default options. -/
def defaultDevice : Option BashDevice :=
  new 8 (.finite 30) (.finite 60) (.finite 300) 65536 64 .none 0

/-- A `bash_run` request with no options. -/
def bashRun (cmd : String) : Request := .run (some cmd) .none .none .missing .missing

/-- A job runs and exits, and its deadline passes: the run is orderly, and the job is concluded
with one result. -/
theorem singleResults_echo : ∃ d, Reachable Orderly d ∧
    (0 < d.seq ∧ d.Ended 0 ∧ d.results 0 = 1 ∧ d.windows 0 = .answered) ∧ d.SingleResults := by
  have hrun : (defaultDevice.bind (·.run Orderly [.request "a" (bashRun "echo"), .start 0, .launch 0,
      .output 0 [10], .eof 0, .exit 0 0, .reap 0, .resume 0, .advance 60, .watch 0])).any
        (fun d => 0 < d.seq ∧ d.Ended 0 ∧ d.results 0 = 1 ∧ d.windows 0 = .answered) = true := by
    decide +kernel
  obtain ⟨d, h, hend⟩ := Reachable.of_run _ _ hrun
  exact ⟨d, h, hend, h.singleResults⟩

/-- Starting the subprocess raises a `ValueError`: the tasks of the job end without a result, the
request is never answered, and the slot is lost. -/
theorem launchRaises_no_result : ∃ d, Reachable (fun _ _ => True) d ∧
    (0 < d.seq ∧ d.Ended 0 ∧ d.results 0 = 0 ∧ d.windows 0 = .pending ∧ 0 ∈ d.jobs) ∧
    ¬ d.SingleResults := by
  have hrun : (defaultDevice.bind (·.run (fun _ _ => True) [.request "a" (bashRun "echo\x00"), .start 0,
      .launchRaises 0, .advance 60, .watch 0])).any
        (fun d => 0 < d.seq ∧ d.Ended 0 ∧ d.results 0 = 0 ∧ d.windows 0 = .pending ∧ 0 ∈ d.jobs) = true := by
    decide +kernel
  obtain ⟨d, h, hend⟩ := Reachable.of_run _ _ hrun
  refine ⟨d, h, hend, fun hsingle => ?_⟩
  have hresult := ((hsingle 0 hend.1).2 hend.2.1).result
  rw [hend.2.2.1] at hresult
  cases hresult

end BashDevice

end MyTeam.Bash
