import MyTeam.Kernel.Environment
import MyTeam.Kernel.Plans

/-!
# What the kernel does in one segment

Between two points where the event loop gives up control, the kernel performs a sequence of
acts. `Act` lists them with their guards: who asked for a stop, a new process or a change of
the tables, and what was checked before. The guards speak of the event and of the state in
which its processing began. Every method of the kernel performs acts only, so properties of
all runs are proved act by act.
-/

namespace MyTeam.Kernel

open MyTeam.Py MyTeam.Async Coroutine Relation

/-- The command an event carries. -/
def commandOf (event : Value) : Option AgentOS.Command :=
  AgentOS.Command.ofValue ((event.field "payload").field "command")

/-- The event installs a device: its checks pass and the module loads. -/
structure Installs (entry : AgentOS) (event : Value) (device : String) : Prop where
  carries : commandOf event = some .installDevice
  checked : ∃ grants, AgentOS.InstallChecked entry event (event.field "payload") device grants
  loaded : ∃ tools scopes, AgentOS.loadModule (entry.sourceFile device) (entry.disk.module device) =
    .ok (tools, scopes)

/-- The event uninstalls a device: its checks pass. -/
structure Uninstalls (entry : AgentOS) (event : Value) (device : String) : Prop where
  carries : commandOf event = some .uninstallDevice
  checked : ∃ handle, AgentOS.UninstallChecked entry event (event.field "payload") device handle

/-- The event starts a maintenance session of an agent on a device: its checks pass. -/
structure Maintains (entry : AgentOS) (event : Value) (actor device : String) : Prop where
  carries : commandOf event = some .maintenanceSession
  checked : ∃ handle position,
    AgentOS.MaintenanceChecked entry event (event.field "payload") device actor handle position

/-- The event grants or revokes a scope of this device: its checks pass. -/
structure Rescopes (entry : AgentOS) (event : Value) (device : String) : Prop where
  carries : commandOf event = some .grantScope ∨ commandOf event = some .revokeScope
  checked : ∃ position token,
    AgentOS.ScopeChecked entry event (event.field "payload") position device token

/-- The identity that the process of a closure will have. -/
def Spawn.identity : Spawn → String
  | .agent identity _ | .device identity _ _ | .maintenance identity _ => identity

/-- On whose behalf the kernel acts: its configuration, or an event it has begun to process
in the state `entry`. -/
inductive Warrant where
  | setup
  | item (entry : AgentOS) (producer : Producer) (event : Value)

namespace Warrant

/-- A running process may be stopped. -/
def Stops : Warrant → Prop
  | .setup => False
  | .item entry _ event => (∃ device, Installs entry event device) ∨
      (∃ device, Uninstalls entry event device) ∨ ∃ actor device, Maintains entry event actor device

/-- The wiring of a device may be dropped. -/
def Withdraws (device : String) : Warrant → Prop
  | .setup => False
  | .item entry _ event => Installs entry event device ∨ Uninstalls entry event device

/-- Grants on a device may be added or dropped. -/
def Grants (device : String) : Warrant → Prop
  | .setup => True
  | .item entry _ event =>
    Installs entry event device ∨ Uninstalls entry event device ∨ Rescopes entry event device

end Warrant

namespace AgentOS

/-- Every process that is alive now was alive then, and is the same. -/
def LiveSince (os os' : AgentOS) : Prop :=
  ∀ pid, (os'.procs pid).alive = true →
    (os.procs pid).alive = true ∧ (os'.procs pid).spec = (os.procs pid).spec

/-- A process may be started for an identity: by `setup` without further checks, otherwise
only under a free name and with no retired process still running. A device is loaded from its
home. -/
def Spawns (os : AgentOS) (identity : String) (spawn : Spawn) : Warrant → Prop
  | .setup => (∃ options, spawn = .agent identity options) ∨
      ∃ options, spawn = .device identity (os.sourceFile identity) options
  | .item entry _ event => os.entities identity = none ∧ os.retiring = none ∧ LiveSince entry os ∧
      ((∃ options, spawn = .device identity (os.sourceFile identity) options ∧
        Installs entry event identity) ∨
      ∃ target, spawn = .maintenance identity target ∧ target ≠ identity ∧
        os.entities target = none ∧ Maintains entry event identity target)

/-- Create a handle with a running process, and register it. -/
def spawned (os : AgentOS) (identity : String) (spawn : Spawn) (spec : Spec) (agent : Bool) : AgentOS :=
  ((os.addHandle identity spawn).launch os.nextHandle spec).enter identity os.nextHandle agent

/-- One act of the kernel. -/
inductive Act (w : Warrant) (os : AgentOS) : AgentOS → Prop where
  | route {producer : Producer} {event : Value} {r : Except Exc Unit} {os' : AgentOS}
      (warrant : w = .item os producer event) (processed : Processed producer event os r os') :
      Act w os os'
  | accept {producer : Producer} {event : Value} {source : String}
      (warrant : w = .item os producer event) (valid : os.validate event = .accepted)
      (accepted : Accepted os.registered event source "kernel") :
      Act w os (os.observe producer event event)
  | emit {source : String} {target : Value} {payload : List (String × Value)} {r : Except Exc Unit}
      {os' : AgentOS} (known : source = "kernel" ∨ source = "authority") (spoken : Spoken target payload)
      (emitted : Emitted source (emission source target payload) os r os') : Act w os os'
  | disk (disk : Disk) : Act w os { os with disk }
  | injected {agent reply : Value} {authority : Authority}
      (built : os.authority.buildInject agent = .ok (authority, reply)) : Act w os { os with authority }
  | enroll (identity : String) (info : Info) :
      Act w os { os with authority := os.authority.enroll identity info }
  | withdraw {identity : String} (allowed : w.Withdraws identity) :
      Act w os { os with authority := os.authority.withdraw identity }
  | addGrant {position : Key} {device token : String} (allowed : w.Grants device) :
      Act w os { os with authority := os.authority.addGrant ⟨position, .str device, .str token⟩ }
  | dropGrant {position token : Key} {device : String} (allowed : w.Grants device) :
      Act w os { os with authority := os.authority.dropGrant ⟨position, .str device, token⟩ }
  | orphan (identity : String) (spawn : Spawn) : Act w os (os.addHandle identity spawn)
  | spawn {identity : String} {spawn : Spawn} {spec : Spec} {agent : Bool}
      (legal : illegal identity = false) (call : spawn.call = .ok spec) (named : spawn.identity = identity)
      (allowed : os.Spawns identity spawn w) : Act w os (os.spawned identity spawn spec agent)
  | remove {identity : String} {handle : ℕ} (entity : os.entities identity = some (.process handle))
      (vacant : os.retiring = none) (allowed : w.Stops) : Act w os (os.remove identity handle)
  | signal {handle pid : ℕ} (retiring : os.retiring = some handle)
      (process : (os.handles handle).process = some pid) (allowed : w.Stops) :
      Act w os (os.push pid (terminateEvent (os.handles handle).identity))
  | kill {handle pid : ℕ} (retiring : os.retiring = some handle)
      (process : (os.handles handle).process = some pid) (allowed : w.Stops) : Act w os (os.kill pid)
  | forget {handle pid : ℕ} (retiring : os.retiring = some handle)
      (process : (os.handles handle).process = some pid) (dead : (os.procs pid).alive = false)
      (removed : os.entities (os.handles handle).identity = none) : Act w os (os.forget handle)

/-- A legal name passes the check of the process. -/
theorem validateIdentity_ok {identity : String} (hne : identity ≠ "") (legal : illegal identity = false)
    (other : identity ≠ "kernel") : validateIdentity identity = .ok () := by
  simp only [illegal, decide_eq_false_iff_not, not_or] at legal
  obtain ⟨hslash, hdots, hdot, -⟩ := legal
  exact if_neg (by simp [hne, hslash, hdots, hdot, other])

/-- The processes that a closure can make have a name of their own. -/
theorem spec_of_call {spawn : Spawn} {spec : Spec} (h : spawn.call = .ok spec) :
    spec.identity = spawn.identity ∧ spec.identity ≠ "" ∧ spec.identity ≠ "kernel" ∧
      spec.maintenanceDevice = match spawn with
        | .maintenance _ target => some target
        | _ => none := by
  have hname {identity : String} (hv : validateIdentity identity = .ok ()) :
      identity ≠ "" ∧ identity ≠ "kernel" := by
    unfold validateIdentity at hv
    split at hv
    · simp at hv
    next hlegal => exact ⟨fun h => hlegal (Or.inl h), fun h => hlegal (by simp [h])⟩
  cases spawn with
  | agent identity options =>
    cases options with
    | dict kvs =>
      simp only [Spawn.call] at h
      split at h
      · simp at h
      obtain ⟨⟨⟩, hv, h⟩ := bind_eq_ok.mp h
      obtain rfl := Except.ok.inj h
      exact ⟨rfl, (hname hv).1, (hname hv).2, rfl⟩
    | _ => simp [Spawn.call] at h
  | device identity path options =>
    obtain ⟨limit, -, h⟩ := bind_eq_ok.mp h
    obtain ⟨⟨⟩, hv, h⟩ := bind_eq_ok.mp h
    obtain rfl := Except.ok.inj h
    exact ⟨rfl, (hname hv).1, (hname hv).2, rfl⟩
  | maintenance actor target =>
    obtain ⟨⟨⟩, hv, h⟩ := bind_eq_ok.mp h
    obtain rfl := Except.ok.inj h
    exact ⟨rfl, (hname hv).1, (hname hv).2, rfl⟩

/-- Most acts register, retire and start nothing. -/
theorem Act.still {w : Warrant} {os os' : AgentOS} (h : Act w os os') :
    Still os os' ∨ (∃ identity spawn, os' = os.addHandle identity spawn) ∨
      (∃ identity spawn spec agent, spawn.call = .ok spec ∧ spawn.identity = identity ∧
        os.Spawns identity spawn w ∧ os' = os.spawned identity spawn spec agent) ∨
      (∃ identity handle, os.entities identity = some (.process handle) ∧ os.retiring = none ∧
        w.Stops ∧ os' = os.remove identity handle) ∨
      ∃ handle pid, os.retiring = some handle ∧ (os.handles handle).process = some pid ∧
        (os.procs pid).alive = false ∧ os.entities (os.handles handle).identity = none ∧
        os' = os.forget handle := by
  cases h with
  | route warrant processed => exact Or.inl processed.still
  | emit known spoken emitted => exact Or.inl emitted.still
  | signal retiring process allowed => exact Or.inl (.push _ _ _)
  | kill retiring process allowed => exact Or.inl (.kill _ _)
  | orphan identity spawn => exact Or.inr (Or.inl ⟨identity, spawn, rfl⟩)
  | spawn legal call named allowed =>
    exact Or.inr (Or.inr (Or.inl ⟨_, _, _, _, call, named, allowed, rfl⟩))
  | remove entity vacant allowed =>
    exact Or.inr (Or.inr (Or.inr (Or.inl ⟨_, _, entity, vacant, allowed, rfl⟩)))
  | forget retiring process dead removed =>
    exact Or.inr (Or.inr (Or.inr (Or.inr ⟨_, _, retiring, process, dead, removed, rfl⟩)))
  | _ => exact Or.inl (.of_eq rfl rfl rfl rfl rfl rfl rfl rfl)

/-- A new handle is wired to nothing. -/
theorem Wired.addHandle {os : AgentOS} (hw : os.Wired) (identity : String) (spawn : Spawn) :
    (os.addHandle identity spawn).Wired where
  kernel := hw.kernel
  kernel_only := hw.kernel_only
  kernelMode := hw.kernelMode
  registered := by
    intro name handle entity
    obtain ⟨hlt, hidentity, hprocess⟩ := hw.registered entity
    have hne : handle ≠ os.nextHandle := hlt.ne
    refine ⟨Nat.lt_succ_of_lt hlt, ?_⟩
    simpa [AgentOS.addHandle, hne] using ⟨hidentity, hprocess⟩
  process := by
    intro handle pid process
    by_cases hne : handle = os.nextHandle
    · subst hne
      simp [AgentOS.addHandle] at process
    · exact hw.process (by simpa [AgentOS.addHandle, hne] using process)
  spec := by
    intro pid hpid
    obtain ⟨hlt, hspec⟩ := hw.spec hpid
    have hne : (os.procs pid).handle ≠ os.nextHandle := hlt.ne
    refine ⟨Nat.lt_succ_of_lt hlt, ?_⟩
    simpa [AgentOS.addHandle, hne] using hspec
  fresh := hw.fresh

section Spawned

variable (os : AgentOS) (identity : String) (spawn : Spawn) (spec : Spec) (agent : Bool)

@[simp] theorem spawned_entities : (os.spawned identity spawn spec agent).entities =
    Function.update os.entities identity (some (.process os.nextHandle)) := rfl

@[simp] theorem spawned_nextHandle :
    (os.spawned identity spawn spec agent).nextHandle = os.nextHandle + 1 := rfl

@[simp] theorem spawned_nextPid :
    (os.spawned identity spawn spec agent).nextPid = os.nextPid + 1 := rfl

@[simp] theorem spawned_procs : (os.spawned identity spawn spec agent).procs =
    Function.update os.procs os.nextPid (.started os.nextHandle spec) := rfl

@[simp] theorem spawned_handles : (os.spawned identity spawn spec agent).handles =
    Function.update os.handles os.nextHandle ⟨identity, spawn, some os.nextPid⟩ := by
  simp [spawned, enter, launch, addHandle]

@[simp] theorem spawned_retiring :
    (os.spawned identity spawn spec agent).retiring = os.retiring := rfl

end Spawned

/-- A new process is wired to its handle and its name. -/
theorem Wired.spawned {os : AgentOS} (hw : os.Wired) {identity : String} {spawn : Spawn} {spec : Spec}
    (agent : Bool) (call : spawn.call = .ok spec) (named : spawn.identity = identity) :
    (os.spawned identity spawn spec agent).Wired := by
  obtain ⟨hidentity, hempty, hkernel, -⟩ := spec_of_call call
  rw [named] at hidentity
  rw [hidentity] at hempty hkernel
  have hentity {name : String} {entity : Entity}
      (h : (os.spawned identity spawn spec agent).entities name = some entity) :
      name = identity ∧ entity = .process os.nextHandle ∨ os.entities name = some entity := by
    by_cases hname : name = identity
    · subst hname
      exact Or.inl ⟨rfl, by simpa [eq_comm] using h⟩
    · exact Or.inr (by simpa [hname] using h)
  refine ⟨by simpa [hkernel.symm] using hw.kernel, fun h => ?_, fun h => ?_,
    fun {name handle} h => ?_, fun {handle pid} h => ?_, fun {pid} h => ?_, fun {pid} h => ?_⟩
  · rcases hentity h with ⟨-, h⟩ | h
    · simp at h
    · exact hw.kernel_only h
  · rcases hentity h with ⟨-, h⟩ | h
    · simp at h
    · exact hw.kernelMode h
  · rcases hentity h with ⟨rfl, hnew⟩ | h
    · obtain rfl := Entity.process.inj hnew
      simp
    · obtain ⟨hlt, hname, hprocess⟩ := hw.registered h
      refine ⟨Nat.lt_succ_of_lt hlt, ?_⟩
      simpa [hlt.ne] using ⟨hname, hprocess⟩
  · by_cases hhandle : handle = os.nextHandle
    · subst hhandle
      obtain rfl : os.nextPid = pid := by simpa using h
      simp [Proc.started]
    · obtain ⟨hlt, hproc⟩ := hw.process (by simpa [hhandle] using h)
      refine ⟨Nat.lt_succ_of_lt hlt, ?_⟩
      simpa [hlt.ne] using hproc
  · by_cases hpid : pid = os.nextPid
    · subst hpid
      simp [Proc.started, hidentity, hempty]
    · have hlt : pid < os.nextPid := lt_of_le_of_ne (Nat.lt_succ_iff.mp h) hpid
      obtain ⟨hhandle, hspec⟩ := hw.spec hlt
      simp only [spawned_procs, spawned_nextHandle, Function.update_of_ne hpid]
      refine ⟨Nat.lt_succ_of_lt hhandle, ?_⟩
      simpa [hhandle.ne] using hspec
  · have hlt : os.nextPid < pid := h
    simpa [hlt.ne'] using hw.fresh hlt.le

/-- A name is taken from a process. -/
theorem Wired.remove {os : AgentOS} (hw : os.Wired) {identity : String} {handle : ℕ}
    (entity : os.entities identity = some (.process handle)) : (os.remove identity handle).Wired := by
  have hne := hw.ne_kernel entity (by simp)
  have hold {name : String} {entity : Entity}
      (h : (os.remove identity handle).entities name = some entity) :
      os.entities name = some entity := by
    by_cases hname : name = identity <;> simp_all [AgentOS.remove]
  exact ⟨by simpa [AgentOS.remove, hne.symm] using hw.kernel, fun h => hw.kernel_only (hold h),
    fun h => hw.kernelMode (hold h), fun h => hw.registered (hold h), hw.process, hw.spec, hw.fresh⟩

/-- A handle that is not registered loses its process. -/
theorem Wired.forget {os : AgentOS} (hw : os.Wired) {handle : ℕ}
    (removed : os.entities (os.handles handle).identity = none) : (os.forget handle).Wired := by
  refine ⟨hw.kernel, hw.kernel_only, hw.kernelMode, fun {name other} entity => ?_,
    fun {other p} hp => ?_, fun {p} hp => ?_, hw.fresh⟩
  · obtain ⟨hlt, hname, hprocess⟩ := hw.registered entity
    have hne : other ≠ handle := by
      rintro rfl
      rw [hname] at removed
      exact absurd (removed.symm.trans entity) (by simp)
    refine ⟨hlt, ?_⟩
    simpa [AgentOS.forget, hne] using ⟨hname, hprocess⟩
  · by_cases hne : other = handle
    · subst hne
      simp [AgentOS.forget] at hp
    · exact hw.process (by simpa [AgentOS.forget, hne] using hp)
  · obtain ⟨hlt, hspec⟩ := hw.spec hp
    refine ⟨hlt, ?_⟩
    by_cases hne : (os.procs p).handle = handle
    · subst hne
      simpa [AgentOS.forget] using hspec
    · simpa [AgentOS.forget, hne] using hspec

/-- Acts keep the wiring. -/
theorem Act.wired {w : Warrant} {os os' : AgentOS} (h : Act w os os') (hw : os.Wired) : os'.Wired := by
  rcases h.still with h | ⟨identity, spawn, rfl⟩ | ⟨identity, spawn, spec, agent, call, named, -, rfl⟩ |
    ⟨identity, handle, entity, -, -, rfl⟩ | ⟨handle, pid, -, process, -, removed, rfl⟩
  · exact h.wired hw
  · exact hw.addHandle identity spawn
  · exact hw.spawned agent call named
  · exact hw.remove entity
  · exact hw.forget removed

end AgentOS

end MyTeam.Kernel
