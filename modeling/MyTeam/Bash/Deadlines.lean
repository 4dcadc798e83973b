import MyTeam.Bash.Results

/-!
# The deadline guard

A subprocess that is alive and was not killed has a deadline watch that has not returned:
provided that the watch, when it finds the deadline passed, finds a job that is queued or over,
or one whose subprocess was started and which is still marked as running, unless the subprocess
is gone. The watch gives up on a job that is between the queue and its subprocess, or that is
marked as done or killed while its subprocess is alive.
-/

namespace MyTeam.Bash

open MyTeam.Py

/-- The subprocess has exited, or was killed. -/
def Proc.Stopped (p : Proc) : Prop := p.alive = false ∨ p.signalled = true

instance (p : Proc) : Decidable p.Stopped := inferInstanceAs (Decidable (_ ∨ _))

/-- A group that was sent SIGKILL is stopped. -/
theorem Proc.killpg_stopped (p : Proc) : p.killpg.Stopped := by
  cases halive : p.alive with
  | false => exact Or.inl halive
  | true => exact Or.inr (by simp [killpg, halive])

/-- A group that is stopped stays so when it is sent SIGKILL again. -/
theorem Proc.Stopped.of_map {proc : Option Proc} {p : Proc} (h : proc.map Proc.killpg = some p) : p.Stopped := by
  obtain ⟨p', -, rfl⟩ := Option.map_eq_some_iff.mp h
  exact p'.killpg_stopped

/-- What the watch relies on: asyncio learns of an exit that has happened, a subprocess has a
driver that waits for it, and no watch has returned before the subprocess is stopped. -/
structure Life.Guarded (v : Life) : Prop where
  reaped : ∀ p, v.proc = some p → p.returncode ≠ none → p.alive = false
  unstarted : v.driver = .absent ∨ v.driver = .ready ∨ v.driver = .launching → v.proc = none
  ended : v.driver.over = true → ∀ p, v.proc = some p → p.Stopped
  watch : v.watch = .returned → v.driver ≠ .ready ∧ v.driver ≠ .launching ∧
    ∀ p, v.proc = some p → p.Stopped

namespace BashDevice

/-- No subprocess outlives its watch. -/
def Guards (d : BashDevice) : Prop :=
  ∀ id p, (d.table id).proc = some p → ¬ p.Stopped → d.watches id ≠ .returned

/-- The watch of a job, if it takes its turn after the deadline, kills the subprocess. -/
def Kills (d : BashDevice) (id : ℕ) : Prop :=
  ∀ p d', (d.table id).proc = some p → ¬ p.Stopped → d.Due id → d.step (.watch id) = some d' →
    (d'.table id).proc = some p.killpg

/-- When the watch of a job finds that the deadline has passed, the job is queued or its driver
has ended, or its subprocess was started and is stopped or marked as running. -/
def OnTime (d : BashDevice) : Move → Prop
  | .watch id => d.Due id → (d.table id).state = .queued ∨ (d.drivers id).over = true ∨
      ∃ p ∈ (d.table id).proc, (d.table id).state = .running ∨ p.Stopped
  | _ => True

instance (d : BashDevice) (id : ℕ) : Decidable (d.Due id) := inferInstanceAs (Decidable (_ = true))

instance (d : BashDevice) : ∀ move, Decidable (d.OnTime move)
  | .watch id => inferInstanceAs (Decidable (d.Due id → (d.table id).state = .queued ∨
      (d.drivers id).over = true ∨ ∃ p ∈ (d.table id).proc, (d.table id).state = .running ∨ p.Stopped))
  | .request _ _ | .advance _ | .start _ | .launch _ | .launchFails _ _ | .launchRaises _ | .output _ _
  | .eof _ | .readRaises _ _ | .timeout _ | .exit _ _ | .reap _ | .resume _ => inferInstanceAs (Decidable True)

variable {d : BashDevice} {id : ℕ}

/-- A job that is queued has no driver. -/
theorem Sound.driver_queued (h : d.Sound) (hid : id < d.seq) (hq : (d.table id).state = .queued) :
    d.drivers id = .absent := by
  have hphase := (h.queued id hid hq).1
  cases hdriver : d.drivers id <;> simp_all [Driver.phase]

/-- A job whose subprocess was reaped. -/
theorem stopped_of_reaped (h : (d.life id).Guarded) (hcode : (d.table id).returncode ≠ none) {p : Proc}
    (hp : (d.table id).proc = some p) : p.Stopped :=
  Or.inl (h.reaped p hp (by simpa [Job.returncode, hp] using hcode))

/-- Every turn keeps the guard, if the watch is on time. -/
theorem Turn.guarded {move : Move} {v : Life} (hsound : d.Sound) (hmove : d.OnTime move)
    (h : (d.life id).Guarded) (hturn : Turn d id move v) : v.Guarded := by
  have hstopped {p : Proc} := stopped_of_reaped h (p := p)
  obtain ⟨hreaped, hunstarted, hover, hwatch⟩ := h
  cases hturn with
  | still => exact ⟨hreaped, hunstarted, hover, hwatch⟩
  | enqueue fresh => exact ⟨nofun, fun _ => rfl, fun _ => nofun, nofun⟩
  | begin fresh => exact ⟨nofun, fun _ => rfl, fun _ => nofun, nofun⟩
  | kill running =>
    refine ⟨fun p hp hcode => ?_, fun hdriver => ?_, fun _ p hp => .of_map hp, fun hreturned => ?_⟩
    · obtain ⟨p', hp', rfl⟩ := Option.map_eq_some_iff.mp hp
      exact hreaped p' hp' hcode
    · exact Option.map_eq_none_iff.mpr (hunstarted hdriver)
    · exact ⟨(hwatch hreturned).1, (hwatch hreturned).2.1, fun p hp => .of_map hp⟩
  | wake lt queued =>
    obtain ⟨-, hwaits⟩ := hsound.queued id lt queued
    exact ⟨hreaped, fun _ => hunstarted (Or.inl (hsound.driver_queued lt queued)), nofun,
      fun hreturned => absurd hreturned hwaits⟩
  | start ready =>
    exact ⟨hreaped, fun _ => hunstarted (Or.inr (Or.inl ready)), nofun,
      fun hreturned => absurd ready (hwatch hreturned).1⟩
  | launchWindow launching =>
    refine ⟨fun p hp hcode => ?_, nofun, nofun, fun hreturned => absurd launching (hwatch hreturned).2.1⟩
    cases hp
    exact absurd rfl hcode
  | launchBackground launching =>
    refine ⟨fun p hp hcode => ?_, nofun, nofun, fun hreturned => absurd launching (hwatch hreturned).2.1⟩
    cases hp
    exact absurd rfl hcode
  | launchFails launching =>
    have hnone : (d.table id).proc = none := hunstarted (Or.inr (Or.inr launching))
    exact ⟨hreaped, nofun, fun _ p hp => absurd (hnone ▸ hp : none = some p) nofun,
      fun hreturned => absurd launching (hwatch hreturned).2.1⟩
  | launchRaises launching =>
    have hnone : (d.table id).proc = none := hunstarted (Or.inr (Or.inr launching))
    exact ⟨hreaped, nofun, fun _ p hp => absurd (hnone ▸ hp : none = some p) nofun,
      fun hreturned => absurd launching (hwatch hreturned).2.1⟩
  | eofWindow reading =>
    exact ⟨hreaped, nofun, nofun, fun hreturned => ⟨nofun, nofun, (hwatch hreturned).2.2⟩⟩
  | eofBackground reading =>
    exact ⟨hreaped, nofun, nofun, fun hreturned => ⟨nofun, nofun, (hwatch hreturned).2.2⟩⟩
  | readRaises reading =>
    have hkilled (p : Proc) (hp : (if (d.table id).returncode = none then (d.table id).proc.map Proc.killpg
        else (d.table id).proc) = some p) : p.Stopped := by
      split at hp
      · exact .of_map hp
      next hcode => exact hstopped hcode hp
    refine ⟨fun p hp hcode => ?_, nofun, fun _ => hkilled, fun _ => ⟨nofun, nofun, hkilled⟩⟩
    dsimp only at hp
    split at hp
    · obtain ⟨p', hp', rfl⟩ := Option.map_eq_some_iff.mp hp
      exact hreaped p' hp' hcode
    · exact hreaped p hp hcode
  | timeout draining =>
    exact ⟨hreaped, nofun, nofun, fun hreturned => ⟨nofun, nofun, (hwatch hreturned).2.2⟩⟩
  | @exit code p proc alive =>
    have hexited : ∀ q, some { p with exited := some code } = some q → q.alive = false := by
      rintro q ⟨⟩
      rfl
    exact ⟨fun q hq _ => hexited q hq, fun hdriver => absurd (proc.symm.trans (hunstarted hdriver)) nofun,
      fun _ q hq => Or.inl (hexited q hq),
      fun hreturned => ⟨(hwatch hreturned).1, (hwatch hreturned).2.1, fun q hq => Or.inl (hexited q hq)⟩⟩
  | @reap p proc dead =>
    have hexited : ∀ q, some { p with returncode := p.exited } = some q → q.alive = false := by
      rintro q ⟨⟩
      exact dead
    exact ⟨fun q hq _ => hexited q hq, fun hdriver => absurd (proc.symm.trans (hunstarted hdriver)) nofun,
      fun _ q hq => Or.inl (hexited q hq),
      fun hreturned => ⟨(hwatch hreturned).1, (hwatch hreturned).2.1, fun q hq => Or.inl (hexited q hq)⟩⟩
  | resumeWindow waiting reaped =>
    exact ⟨hreaped, nofun, fun _ p hp => hstopped reaped hp,
      fun _ => ⟨nofun, nofun, fun p hp => hstopped reaped hp⟩⟩
  | resumeBackground waiting reaped =>
    exact ⟨hreaped, nofun, fun _ p hp => hstopped reaped hp,
      fun _ => ⟨nofun, nofun, fun p hp => hstopped reaped hp⟩⟩
  | expireRunning due running started =>
    obtain ⟨q, hq⟩ := Option.isSome_iff_exists.mp started
    have hstarted (hdriver : d.drivers id = .absent ∨ d.drivers id = .ready ∨ d.drivers id = .launching) :
        False := absurd (hq.symm.trans (hunstarted hdriver)) nofun
    refine ⟨fun p hp hcode => ?_, fun hdriver => (hstarted hdriver).elim, fun _ p hp => .of_map hp,
      fun _ => ⟨fun hdriver => hstarted (Or.inr (Or.inl hdriver)),
        fun hdriver => hstarted (Or.inr (Or.inr hdriver)), fun p hp => .of_map hp⟩⟩
    obtain ⟨p', hp', rfl⟩ := Option.map_eq_some_iff.mp hp
    exact hreaped p' hp' hcode
  | expireQueued lt due queued =>
    have habsent := hsound.driver_queued lt queued
    refine ⟨hreaped, hunstarted, hover, fun _ => ⟨?_, ?_, hover ?_⟩⟩ <;> simp [life, habsent, Driver.over]
  | giveUp due queued idle =>
    refine ⟨hreaped, hunstarted, hover, fun _ => ?_⟩
    rcases hmove due with hq | hended | ⟨p, hp, hp'⟩
    · exact absurd hq queued
    · refine ⟨fun hdriver => ?_, fun hdriver => ?_, hover hended⟩ <;>
        simp [show d.drivers id = _ from hdriver, Driver.over] at hended
    · have hstarted (hdriver : d.drivers id = .absent ∨ d.drivers id = .ready ∨ d.drivers id = .launching) :
          False := absurd ((Option.mem_def.mp hp).symm.trans (hunstarted hdriver)) nofun
      refine ⟨fun hdriver => hstarted (Or.inr (Or.inl hdriver)),
        fun hdriver => hstarted (Or.inr (Or.inr hdriver)), fun q hq => ?_⟩
      obtain rfl : p = q := Option.some.inj ((Option.mem_def.mp hp).symm.trans hq)
      rcases hp' with hrunning | hdead
      · exact hstopped (fun hcode => idle ⟨hrunning, by simp [Option.mem_def.mp hp], hcode⟩) hq
      · exact hdead
  | sleep => exact ⟨hreaped, hunstarted, hover, by simp⟩

/-- The guard of every job, in every run in which the watches are on time. -/
theorem Reachable.guarded (h : Reachable OnTime d) (id : ℕ) : (d.life id).Guarded :=
  h.lives (I := Life.Guarded) ⟨nofun, fun _ => rfl, fun _ => nofun, nofun⟩
    (fun _ _ _ _ hsound hmove hlife hturn => hturn.guarded hsound hmove hlife) id

/-- A watch that is on time kills the subprocess when the deadline has passed. -/
theorem Sound.kills (hsound : d.Sound) (h : (d.life id).Guarded) (hmove : d.OnTime (.watch id)) :
    d.Kills id := by
  intro p d' hp hlive hdue moved
  have hround : d' = d.watchRound id ∧ d.watches id ≠ .absent := by
    simp only [BashDevice.step] at moved
    split at moved
    next hwatch => exact ⟨(Option.some.inj moved).symm, by simp [hwatch]⟩
    next hwatch =>
      split at moved
      · cases moved
      · exact ⟨(Option.some.inj moved).symm, by simp [hwatch]⟩
    next => cases moved
  obtain ⟨rfl, hwatch⟩ := hround
  have hlt : id < d.seq := not_le.mp ((hsound.watched id).not.mp hwatch)
  have hrunning : (d.table id).state = .running := by
    rcases hmove hdue with hq | hended | ⟨q, hq, hrunning | hstopped⟩
    · exact absurd (hp.symm.trans (h.unstarted (Or.inl (hsound.driver_queued hlt hq)))) (Option.some_ne_none p)
    · exact absurd (h.ended hended p hp) hlive
    · exact hrunning
    · exact absurd (Option.some.inj (hp.symm.trans hq) ▸ hstopped) hlive
  have hcode : (d.table id).returncode = none := by
    by_contra hcode
    exact hlive (stopped_of_reaped h hcode hp)
  have hwait : ((d.table id).deadlineAt.sub (.finite d.now)).le (.finite 0) = true := hdue
  simp [BashDevice.watchRound, hwait, hrunning, hcode, hp, BashDevice.watch, BashDevice.edit, Job.killpg]

/-- No subprocess outlives its deadline guard, in every run in which the watches are on time. -/
theorem Reachable.guards (h : Reachable OnTime d) :
    d.Guards ∧ ∀ id, d.OnTime (.watch id) → d.Kills id := by
  refine ⟨fun id p hp hlive hreturned => ?_, fun id hmove => h.sound.kills (h.guarded id) hmove⟩
  exact hlive (((h.guarded id).watch hreturned).2.2 p hp)

/-- The subprocess of a job that is started and is alive when its deadline has passed: the run is
on time, and the watch kills it. -/
theorem guards_sleep : ∃ d, Reachable OnTime d ∧
    ((d.table 0).proc.any (fun p => ¬ p.Stopped) ∧ d.Due 0 ∧ d.OnTime (.watch 0)) ∧
    d.Guards ∧ d.Kills 0 := by
  have hrun : (defaultDevice.bind (·.run OnTime [.request "a" (bashRun "sleep 100"), .start 0, .watch 0,
      .launch 0, .advance 60])).any (fun d => (d.table 0).proc.any (fun p => ¬ p.Stopped) ∧ d.Due 0 ∧
        d.OnTime (.watch 0)) = true := by
    decide +kernel
  obtain ⟨d, h, hend⟩ := Reachable.of_run _ _ hrun
  exact ⟨d, h, hend, h.guards.1, h.guards.2 0 hend.2.2⟩

/-- A subprocess closes its output and goes on: the job is marked as done, and when the deadline
passes the watch returns and leaves the subprocess alive. -/
theorem eof_outlives_deadline : ∃ d, Reachable (fun _ _ => True) d ∧
    ((d.table 0).proc.any (fun p => ¬ p.Stopped) ∧ d.watches 0 = .returned) ∧ ¬ d.Guards := by
  have hrun : (defaultDevice.bind (·.run (fun _ _ => True) [.request "a" (bashRun "exec >&- 2>&-; sleep 100"),
      .start 0, .launch 0, .eof 0, .advance 60, .watch 0])).any
        (fun d => (d.table 0).proc.any (fun p => ¬ p.Stopped) ∧ d.watches 0 = .returned) = true := by
    decide +kernel
  obtain ⟨d, h, hend⟩ := Reachable.of_run _ _ hrun
  refine ⟨d, h, hend, fun hguards => ?_⟩
  obtain ⟨p, hp, hlive⟩ := (Option.any_eq_true _ _).mp hend.1
  exact hguards 0 p hp (of_decide_eq_true hlive) hend.2

end BashDevice

end MyTeam.Bash
