import MyTeam.Kernel.Runs

/-!
# The homes of running devices

A process that maintains a device is meant to write in the device's home. The
maintenance session checks that the device is not running, once, when it starts. Installing
a device does not look for sessions, so the home of a running device stays private only if
no device is installed while somebody maintains it.
-/

namespace MyTeam.Kernel

open MyTeam.Py MyTeam.Async Coroutine Relation

namespace AgentOS

/-- No live process but its own maintains a registered device. -/
def Private (os : AgentOS) : Prop :=
  ∀ device entity pid, os.entities device = some entity → (os.procs pid).alive = true →
    (os.procs pid).spec.maintenanceDevice = some device → entity = .process (os.procs pid).handle

/-- A live process maintains the device. -/
def Maintained (os : AgentOS) (device : String) : Prop :=
  ∃ pid, (os.procs pid).alive = true ∧ (os.procs pid).spec.maintenanceDevice = some device

/-- Only devices that are not registered are maintained. -/
def Unloaded (os : AgentOS) : Prop := ∀ device, os.Maintained device → os.entities device = none

/-- The installation of a device waits until nobody maintains it. -/
def awaitsMaintainers (entry : AgentOS) (item : Producer × Value) : Prop :=
  ∀ device, Installs entry item.2 device → ¬ entry.Maintained device

/-- Nothing that is registered is maintained. -/
theorem Unloaded.private {os : AgentOS} (h : os.Unloaded) : os.Private := by
  intro device entity pid hentity halive hmaintains
  have hfree := h device ⟨pid, halive, hmaintains⟩
  exact absurd (hentity.symm.trans hfree) (by simp)

/-- Whoever maintains a device now has done so since. -/
theorem Maintained.of_liveSince {os os' : AgentOS} {device : String} (h : os'.Maintained device)
    (hlive : LiveSince os os') : os.Maintained device := by
  obtain ⟨pid, halive, hmaintains⟩ := h
  obtain ⟨hold, hspec⟩ := hlive pid halive
  exact ⟨pid, hold, hspec ▸ hmaintains⟩

/-- Nobody begins maintaining in a steady change. -/
theorem Unloaded.steady {os os' : AgentOS} (h : os.Unloaded) (hs : Steady os os') : os'.Unloaded := by
  intro device hmaintained
  rw [hs.entities]
  exact h device (hmaintained.of_liveSince fun pid halive =>
    ⟨(hs.procs pid).2.2 halive, (hs.procs pid).2.1⟩)

/-- A new process leaves the maintained devices unregistered, if nobody maintains the one that
is registered with it. -/
theorem Unloaded.spawned {os : AgentOS} {identity : String} {spawn : Spawn} {spec : Spec}
    {agent : Bool} (h : os.Unloaded) (call : spawn.call = .ok spec)
    (hfree : ¬ os.Maintained identity)
    (htarget : ∀ target, spawn = .maintenance identity target →
      target ≠ identity ∧ os.entities target = none)
    (named : spawn.identity = identity) : (os.spawned identity spawn spec agent).Unloaded := by
  rintro device ⟨pid, halive, hmaintains⟩
  by_cases hpid : pid = os.nextPid
  · subst hpid
    obtain ⟨-, -, -, hspec⟩ := spec_of_call call
    have hnew : spec.maintenanceDevice = some device := by simpa [Proc.started] using hmaintains
    rw [hnew] at hspec
    cases spawn with
    | maintenance actor target =>
      obtain rfl : actor = identity := named
      obtain rfl := Option.some.inj hspec
      obtain ⟨hne, hentity⟩ := htarget device rfl
      simpa [hne] using hentity
    | _ => simp at hspec
  · have hold : os.Maintained device := ⟨pid, by simpa [hpid] using halive, by simpa [hpid] using hmaintains⟩
    have hne : device ≠ identity := by
      rintro rfl
      exact hfree hold
    simpa [hne] using h device hold

/-- Acts leave the maintained devices unregistered, if installations wait. -/
theorem Unloaded.act {entry os os' : AgentOS} {item : Producer × Value} (h : os.Unloaded)
    (hentry : entry.Unloaded) (hwait : awaitsMaintainers entry item)
    (ha : Act (.item entry item.1 item.2) os os') : os'.Unloaded := by
  rcases ha.still with hs | ⟨identity, spawn, rfl⟩ |
    ⟨identity, spawn, spec, agent, call, named, ⟨-, -, hlive, hallowed⟩, rfl⟩ |
    ⟨identity, handle, -, -, -, rfl⟩ | ⟨handle, pid, -, -, -, -, rfl⟩
  · exact h.steady hs.toSteady
  · exact h
  · refine h.spawned call (fun hmaintained => ?_) (fun target hspawn => ?_) named
    · have hold := hmaintained.of_liveSince hlive
      rcases hallowed with ⟨options, -, hinstalls⟩ | ⟨target, -, -, -, hmaintains⟩
      · exact hwait identity hinstalls hold
      · obtain ⟨handle, position, hchecked⟩ := hmaintains.checked
        exact absurd (hchecked.entity.symm.trans (hentry identity hold)) (by simp)
    · rcases hallowed with ⟨options, rfl, -⟩ | ⟨other, rfl, hne, hentity, -⟩
      · simp at hspawn
      · obtain ⟨-, rfl⟩ := Spawn.maintenance.inj hspawn
        exact ⟨hne, hentity⟩
  · intro device hmaintained
    by_cases hdevice : device = identity
    · simp [AgentOS.remove, hdevice]
    · simpa [AgentOS.remove, hdevice] using h device hmaintained
  · exact h

/-- `setup` starts no maintenance. -/
theorem unloaded_of_boots {config : Value} {os : AgentOS} (h : Boots config os) : os.Unloaded := by
  have hnone : ∀ pid, (os.procs pid).spec.maintenanceDevice = none := by
    refine h.invariant (P := fun os => ∀ pid, (os.procs pid).spec.maintenanceDevice = none)
      (fun _ _ _ _ _ => rfl) fun {os os'} _ hnone ha pid => ?_
    rcases ha.still with hs | ⟨identity, spawn, rfl⟩ |
      ⟨identity, spawn, spec, agent, call, named, hallowed, rfl⟩ |
      ⟨identity, handle, -, -, -, rfl⟩ | ⟨handle, pid, -, -, -, -, rfl⟩
    · rw [(hs.procs pid).2.1]
      exact hnone pid
    · exact hnone pid
    · by_cases hpid : pid = os.nextPid
      · subst hpid
        obtain ⟨-, -, -, hspec⟩ := spec_of_call call
        cases spawn with
        | maintenance actor target => rcases hallowed with ⟨_, h⟩ | ⟨_, h⟩ <;> cases h
        | _ => simpa [Proc.started] using hspec
      · simpa [hpid] using hnone pid
    · exact hnone pid
    · exact hnone _
  rintro device ⟨pid, -, hmaintains⟩
  exact absurd ((hnone pid).symm.trans hmaintains) (by simp)

/-- In every run in which installations wait for the maintainers of the device, the homes of
registered devices are private in every state. -/
theorem homes_private {config : Value} {l : LoopState AgentOS (Producer × Value) Exc}
    (h : Reachable config (.taking awaitsMaintainers) l) : l.state.Private := by
  let J (entry : AgentOS) (item : Producer × Value) (os : AgentOS) : Prop :=
    os.Unloaded ∧ entry.Unloaded ∧ awaitsMaintainers entry item
  have hthroughout : Throughout Unloaded J l := by
    refine h.stepwise (fun os => unloaded_of_boots) (fun hw hI hb => hI.steady (hb.calm hw).steady)
      (fun _ _ hI _ htake => ⟨hI, hI, htake⟩)
      (fun _ hJ ha => ⟨hJ.1.act hJ.2.1 hJ.2.2 ha, hJ.2⟩)
      (fun hw hJ hb => ⟨hJ.1.steady (hb.calm hw).steady, hJ.2⟩) fun _ _ hJ => hJ.1
  unfold Throughout at hthroughout
  split at hthroughout
  · exact hthroughout.2.2.private
  · exact hthroughout.2.1.private

section Scenario

/-- Two agents at the root. -/
def maintenanceConfig : Value :=
  .dict [("agents", .list [agentSpec "m" "root", agentSpec "b" "root"])]

/-- The device `d` has a home and a source. -/
def deviceDisk : Disk :=
  ⟨fun identity => identity = "d", fun _ => .exports none none, fun _ => .missing⟩

/-- `m` begins to maintain `d`; its first process is killed and replaced. -/
def maintainD : List (EventLoop.Move Ambient) :=
  sends 0 (applicationEvent (.str "kernel") [("command", .str "maintenance_session"),
    ("target_device", .str "d")]) ++ [.take, .resume, .act (.exit 0), .resume, .settle]

/-- `b` installs `d`. -/
def installD : List (EventLoop.Move Ambient) :=
  sends 1 (applicationEvent (.str "kernel") [("command", .str "install_device"),
    ("identity", .str "d"), ("grants", .list [.str "root"])]) ++ [.take]

/-- While `d` is maintained and not installed, homes are private. -/
theorem homes_private_maintaining : ∃ l, scenario maintenanceConfig deviceDisk maintainD = some l ∧
    l.state.Maintained "d" ∧ l.state.Private := by
  have hplays : (scenario maintenanceConfig deviceDisk maintainD).any fun l =>
      (l.state.procs 2).alive = true ∧ (l.state.procs 2).spec.maintenanceDevice = some "d" := by
    decide +kernel
  have hcommands : (scenarioTaken maintenanceConfig deviceDisk maintainD).all fun taken =>
      commandOf taken.2.2 = some .maintenanceSession := by decide +kernel
  have hallowed : ∀ taken ∈ scenarioTaken maintenanceConfig deviceDisk maintainD,
      awaitsMaintainers taken.1 taken.2 := by
    intro taken htaken device hinstalls
    have hcommand := of_decide_eq_true (List.all_eq_true.mp hcommands taken htaken)
    exact absurd (hcommand.symm.trans hinstalls.carries) (by simp)
  obtain ⟨l, hplayed, hends⟩ := (Option.any_eq_true _ _).mp hplays
  exact ⟨l, hplayed, ⟨2, of_decide_eq_true hends⟩,
    homes_private (reachable_of_scenario hplayed hallowed)⟩

/-- The home of a device that is installed while it is maintained is not private. -/
theorem home_shared_after_install : ∃ l, Reachable maintenanceConfig .free l ∧ ¬ l.state.Private := by
  have hplays : (scenario maintenanceConfig deviceDisk (maintainD ++ installD)).any fun l =>
      l.state.entities "d" = some (.process 3) ∧ (l.state.procs 2).alive = true ∧
        (l.state.procs 2).spec.maintenanceDevice = some "d" ∧ (l.state.procs 2).handle = 2 := by
    decide +kernel
  obtain ⟨l, hplayed, hends⟩ := (Option.any_eq_true _ _).mp hplays
  obtain ⟨hentity, halive, hmaintains, hhandle⟩ := of_decide_eq_true hends
  refine ⟨l, reachable_free_of_scenario hplayed, fun hprivate => ?_⟩
  have hown := hprivate "d" (.process 3) 2 hentity halive hmaintains
  rw [hhandle] at hown
  simp at hown

end Scenario

end AgentOS

end MyTeam.Kernel
