import MyTeam.Kernel.Runs

/-!
# The sandbox of user-mode processes

A process that was loaded from a device source, or that has a `workdir`, replaces itself by
`bwrap` before it serves; the mounts on its command line decide what it sees of the file
system. The intended matrix: its own home is writable, the implementation of a running device
is not, a maintenance session also writes the home of its target, and nothing else below
`runtime_root/home` can be seen.

No class of the repository sets `workdir`, so agents and maintenance sessions serve without a
sandbox; and a device mounts its home after its implementation, over it.
-/

namespace MyTeam.Kernel

open MyTeam.Py MyTeam.Async Coroutine Relation

/-- `hasattr(self, "workdir")`: no class sets the attribute. -/
def Spec.workdir (_ : Spec) : Option String := none

/-- The check of a maintenance target. -/
def illegalTarget (target : String) : Bool :=
  '/' ∈ target.toList ∨ ['.', '.'] <:+: target.toList ∨ target = "." ∨ target = "kernel" ∨
    '@' ∈ target.toList

/-- `_mount_anchors`: what a process may write, and what it may only read. -/
def Spec.mountAnchors (spec : Spec) : Except Exc (List String × List String) :=
  match spec.loadSpec with
  | some load => .ok ([Path.dirname load.path], [load.path])
  | none =>
    match spec.workdir with
    | none => .error (.attributeError "object has no attribute 'workdir'")
    | some workdir =>
      let ownHome := Path.join (Path.join workdir "data") spec.identity
      match spec.maintenanceDevice with
      | none | some "" => .ok ([ownHome], [])
      | some target =>
        if illegalTarget target then
          .error (.valueError ("维护目标 identity 非法: " ++ Value.reprStr target))
        else .ok ([ownHome, Path.join (Path.join workdir "data") target], [])

/-- `_bwrap_args`, without the program name in front and the command behind; `writable` is
never empty. -/
def bwrapOptions (writable readonly : List String) (needsNetwork : Bool) : List String :=
  let dataRoot := Path.dirname (writable.headD "")
  ["--ro-bind", "/", "/", "--dev", "/dev", "--proc", "/proc", "--tmpfs", "/tmp",
    "--tmpfs", dataRoot] ++
  (readonly.flatMap fun anchor => ["--ro-bind", anchor, anchor]) ++
  (writable.flatMap fun anchor => ["--bind", anchor, anchor]) ++
  ["--unshare-user", "--unshare-pid", "--unshare-ipc"] ++
  (if needsNetwork then [] else ["--unshare-net"]) ++ ["--die-with-parent"]

/-- `_needs_network`; `declared` is the attribute of an agent. -/
def Spec.needsNetwork (spec : Spec) (declared : Bool) : Except Exc Bool :=
  match spec.loadSpec with
  | some load => do
    let needed ← load.options.get "needs_network" (.bool false)
    return needed.truthy
  | none => .ok declared

/-- `run`, up to the point where the process serves: without a sandbox, or under `bwrap` with
these options. -/
def Spec.run (spec : Spec) (declared : Bool) : Except Exc (Option (List String)) :=
  if spec.loadSpec.isSome ∨ spec.workdir.isSome then do
    let (writable, readonly) ← spec.mountAnchors
    let needsNetwork ← spec.needsNetwork declared
    return some (bwrapOptions writable readonly needsNetwork)
  else .ok none

section Matrix

/-- What a process can do with a path. -/
inductive Mode where
  | readOnly
  | writable
  | hidden
  | special
deriving DecidableEq

/-- A mount: where, and what it makes of the paths there. -/
structure Mount where
  dest : String
  mode : Mode

/-- The mounts that `bwrap` makes of its options, in this order. A `tmpfs` is empty, so it
hides what the host has there. -/
def mounts : List String → List Mount
  | "--ro-bind" :: _ :: dest :: rest => ⟨dest, .readOnly⟩ :: mounts rest
  | "--bind" :: _ :: dest :: rest => ⟨dest, .writable⟩ :: mounts rest
  | "--tmpfs" :: dest :: rest => ⟨dest, .hidden⟩ :: mounts rest
  | "--dev" :: dest :: rest => ⟨dest, .special⟩ :: mounts rest
  | "--proc" :: dest :: rest => ⟨dest, .special⟩ :: mounts rest
  | _ :: rest => mounts rest
  | [] => []

/-- The last mount on a directory of the path decides. Where nothing is mounted, the process
sees the file system of the host, where its user owns the homes. -/
def modeOf (mounts : List Mount) (path : String) : Mode :=
  match (mounts.filter fun mount => Path.under mount.dest path).getLast? with
  | some mount => mount.mode
  | none => .writable

/-- The intended matrix for a process of a kernel. -/
structure Confined (os : AgentOS) (spec : Spec) (mounts : List Mount) : Prop where
  own : modeOf mounts (os.home spec.identity) = .writable
  implementation : ∀ load, spec.loadSpec = some load → modeOf mounts load.path = .readOnly
  target : ∀ target, spec.maintenanceDevice = some target → modeOf mounts (os.home target) = .writable
  others : ∀ path, Path.under (Path.join os.runtimeRoot "home") path →
    path ≠ Path.join os.runtimeRoot "home" → ¬ Path.under (os.home spec.identity) path →
    (∀ target, spec.maintenanceDevice = some target → ¬ Path.under (os.home target) path) →
    modeOf mounts path = .hidden

/-- A mount on a directory of the path hides those before it. -/
theorem modeOf_concat {before : List Mount} {mount : Mount} {path : String}
    (h : Path.under mount.dest path) : modeOf (before ++ [mount]) path = mount.mode := by
  simp [modeOf, List.filter_append, h]

/-- The mounts of read-only anchors. -/
theorem mounts_readonly (anchors rest : List String) :
    mounts ((anchors.flatMap fun anchor => ["--ro-bind", anchor, anchor]) ++ rest) =
      anchors.map (⟨·, .readOnly⟩) ++ mounts rest := by
  induction anchors with
  | nil => rfl
  | cons anchor anchors ih => simp [mounts, ih]

/-- The mounts of writable anchors. -/
theorem mounts_writable (anchors rest : List String) :
    mounts ((anchors.flatMap fun anchor => ["--bind", anchor, anchor]) ++ rest) =
      anchors.map (⟨·, .writable⟩) ++ mounts rest := by
  induction anchors with
  | nil => rfl
  | cons anchor anchors ih => simp [mounts, ih]

/-- The mounts of a sandbox. -/
theorem mounts_bwrapOptions (writable readonly : List String) (needsNetwork : Bool) :
    mounts (bwrapOptions writable readonly needsNetwork) =
      [⟨"/", .readOnly⟩, ⟨"/dev", .special⟩, ⟨"/proc", .special⟩, ⟨"/tmp", .hidden⟩,
        ⟨Path.dirname (writable.headD ""), .hidden⟩] ++
      readonly.map (⟨·, .readOnly⟩) ++ writable.map (⟨·, .writable⟩) := by
  have hrest : mounts ((if needsNetwork then [] else ["--unshare-net"]) ++ ["--die-with-parent"]) = [] := by
    cases needsNetwork <;> simp [mounts]
  simp only [bwrapOptions, List.append_assoc]
  simp [mounts, mounts_readonly, mounts_writable, hrest]

end Matrix

namespace AgentOS

variable {os os' : AgentOS} {config : Value} {rules : Rules AgentOS (Producer × Value)}
  {l : LoopState AgentOS (Producer × Value) Exc}

/-- The names in a process are names of files, and a device was loaded from a home. -/
structure Located (spec : Spec) : Prop where
  identity : '/' ∉ spec.identity.toList
  target : ∀ target, spec.maintenanceDevice = some target → '/' ∉ target.toList
  source : ∀ load, spec.loadSpec = some load → ∃ root identity options,
    Path.Component identity ∧ load.options = .dict options ∧
      load.path = Path.join (Path.join (Path.join root "home") identity) "device.py"

/-- A name that passes the check of identities is one component of a path. -/
theorem component_of_validateIdentity {identity : String} (h : validateIdentity identity = .ok ()) :
    Path.Component identity := by
  unfold validateIdentity at h
  split at h
  · simp at h
  next hlegal =>
    simp only [not_or] at hlegal
    exact ⟨fun hempty => hlegal.1 (String.toList_injective hempty), hlegal.2.1⟩

/-- A name that passes the check of the command handlers has no slash. -/
theorem flat_of_illegal {identity : String} (h : illegal identity = false) : '/' ∉ identity.toList := by
  intro hslash
  simp [illegal, hslash] at h

/-- A new process, if its closure names files and loads a device from its home. -/
theorem located_of_call (os : AgentOS) {spawn : Spawn} {spec : Spec} (call : spawn.call = .ok spec)
    (hpath : ∀ identity path options, spawn = .device identity path options →
      path = os.sourceFile identity)
    (htarget : ∀ actor target, spawn = .maintenance actor target → '/' ∉ target.toList) :
    Located spec := by
  cases spawn with
  | agent identity options =>
    cases options with
    | dict kvs =>
      simp only [Spawn.call] at call
      split at call
      · simp at call
      obtain ⟨⟨⟩, hvalid, call⟩ := bind_eq_ok.mp call
      obtain rfl := Except.ok.inj call
      exact ⟨(component_of_validateIdentity hvalid).flat, by simp, by simp⟩
    | _ => simp [Spawn.call] at call
  | device identity path options =>
    obtain ⟨limit, hget, call⟩ := bind_eq_ok.mp call
    obtain ⟨⟨⟩, hvalid, call⟩ := bind_eq_ok.mp call
    obtain rfl := Except.ok.inj call
    have hname := component_of_validateIdentity hvalid
    refine ⟨hname.flat, by simp, fun load hload => ?_⟩
    obtain rfl := Option.some.inj hload
    cases options with
    | dict kvs => exact ⟨os.runtimeRoot, identity, kvs, hname, rfl, hpath identity path _ rfl⟩
    | _ => simp [Value.get] at hget
  | maintenance actor target =>
    obtain ⟨⟨⟩, hvalid, call⟩ := bind_eq_ok.mp call
    obtain rfl := Except.ok.inj call
    refine ⟨(component_of_validateIdentity hvalid).flat, fun name hname => ?_, by simp⟩
    obtain rfl := Option.some.inj hname
    exact htarget actor target rfl

/-- All processes are located. -/
def Placed (os : AgentOS) : Prop := ∀ pid, Located (os.procs pid).spec

/-- A change that starts nobody leaves the processes where they are. -/
theorem Placed.steady (h : os.Placed) (hs : Steady os os') : os'.Placed := by
  intro pid
  rw [(hs.procs pid).2.1]
  exact h pid

/-- Acts load devices from their homes. -/
theorem Placed.act {w : Warrant} (h : os.Placed) (ha : Act w os os') : os'.Placed := by
  rcases ha.still with hs | ⟨identity, spawn, rfl⟩ |
    ⟨identity, spawn, spec, agent, call, -, allowed, rfl⟩ |
    ⟨identity, handle, -, -, -, rfl⟩ | ⟨handle, pid, -, -, -, -, rfl⟩
  · exact h.steady hs.toSteady
  · exact h
  · intro pid
    by_cases hpid : pid = os.nextPid
    · subst hpid
      rw [spawned_procs, Function.update_self]
      refine located_of_call os call (fun name path options hspawn => ?_)
        (fun actor target hspawn => ?_) <;> subst hspawn <;> cases w
      case refine_1.setup =>
        obtain ⟨_, ⟨⟩⟩ | ⟨_, ⟨⟩⟩ := allowed
        rfl
      case refine_1.item =>
        obtain ⟨-, -, -, ⟨_, ⟨⟩, -⟩ | ⟨_, ⟨⟩, -⟩⟩ := allowed
        rfl
      case refine_2.setup => obtain ⟨_, ⟨⟩⟩ | ⟨_, ⟨⟩⟩ := allowed
      case refine_2.item =>
        obtain ⟨-, -, -, ⟨_, ⟨⟩, -⟩ | ⟨_, ⟨⟩, -, -, hmaintains⟩⟩ := allowed
        obtain ⟨_, _, hchecked⟩ := hmaintains.checked
        exact flat_of_illegal hchecked.legal
    · rw [spawned_procs, Function.update_of_ne hpid]
      exact h pid
  · exact h
  · exact h

/-- The processes of every run are located. -/
theorem Reachable.placed (h : Reachable config rules l) : l.state.Placed := by
  have hnew (runtimeRoot : String) (disk : Disk) (clock : String) (limits : Limits) :
      (AgentOS.new runtimeRoot disk clock limits).Placed := by
    intro pid
    exact ⟨by simp [AgentOS.new, Proc.blank], by simp [AgentOS.new, Proc.blank],
      by simp [AgentOS.new, Proc.blank]⟩
  have hthroughout := h.throughout (I := Placed) (J := fun _ _ => Placed)
    (fun os hb => hb.invariant hnew fun _ h ha => h.act ha)
    (fun hw h hb => h.steady (hb.calm hw).steady) (fun _ _ h _ _ => h)
    (fun hw h hacts _ => acts_invariant hacts hw h fun _ h ha => h.act ha)
    (fun hw h hb => h.steady (hb.calm hw).steady) (fun _ _ h => h)
  unfold Throughout at hthroughout
  split at hthroughout
  · exact hthroughout.2.2
  · exact hthroughout.2

/-- A path component that is not one of two names. -/
theorem exists_component (first second : String) :
    ∃ name, Path.Component name ∧ first ≠ name ∧ second ≠ name := by
  obtain ⟨name, hname⟩ : ∃ name, name = String.ofList
      (List.replicate (first.length + second.length + 1) 'x') := ⟨_, rfl⟩
  have hlength : name.length = first.length + second.length + 1 := by simp [hname]
  refine ⟨name, ⟨by simp [hname], by simp [hname]⟩, fun heq => ?_, fun heq => ?_⟩ <;>
    have := congrArg String.length heq <;> omega

/-- A device binds its home over its implementation. -/
theorem implementation_writable {spec : Spec} {load : LoadSpec} (h : Located spec)
    (hload : spec.loadSpec = some load) (needsNetwork : Bool) :
    modeOf (mounts (bwrapOptions [Path.dirname load.path] [load.path] needsNetwork)) load.path =
      .writable := by
  obtain ⟨root, identity, options, hname, -, hpath⟩ := h.source load hload
  have hfile : Path.Component "device.py" := ⟨by decide, by decide⟩
  have hends : Path.Ends (Path.join (Path.join root "home") identity) := Path.ends_join hname
  have hunder : Path.under (Mount.mk (Path.dirname load.path) .writable).dest load.path := by
    rw [hpath, Path.dirname_join hfile hends]
    exact Path.under_join hfile.flat hends
  rw [mounts_bwrapOptions]
  exact modeOf_concat hunder

/-- The implementation of a running device is writable, and a process without a sandbox sees
the homes of the others: no process that the kernel starts is confined as intended. -/
theorem sandbox_never_confines (h : Reachable config rules l) (pid : ℕ) (declared : Bool) :
    ∃ options, (l.state.procs pid).spec.run declared = .ok options ∧
      ¬ Confined l.state (l.state.procs pid).spec (mounts (options.getD [])) := by
  have hlocated := h.placed pid
  cases hload : (l.state.procs pid).spec.loadSpec with
  | some load =>
    obtain ⟨-, -, options, -, hoptions, -⟩ := hlocated.source load hload
    refine ⟨some (bwrapOptions [Path.dirname load.path] [load.path]
      ((options.lookup "needs_network").getD (.bool false)).truthy), ?_, fun hconfined => ?_⟩
    · simp [Spec.run, Spec.mountAnchors, Spec.needsNetwork, hload, hoptions, Value.get]
    · have hread := hconfined.implementation load hload
      rw [Option.getD_some, implementation_writable hlocated hload] at hread
      cases hread
  | none =>
    refine ⟨none, by simp [Spec.run, hload, Spec.workdir], fun hconfined => ?_⟩
    have hhome : Path.Component "home" := ⟨by decide, by decide⟩
    have hends : Path.Ends (Path.join l.state.runtimeRoot "home") := Path.ends_join hhome
    obtain ⟨name, hname, hidentity, htarget⟩ := exists_component (l.state.procs pid).spec.identity
      ((l.state.procs pid).spec.maintenanceDevice.getD "")
    have hhidden := hconfined.others (l.state.home name) (Path.under_join hname.flat hends)
      (Path.join_ne hname.flat hends) (Path.not_under_join hlocated.identity hname.flat hidentity hends)
      fun target heq => ?_
    · simp [modeOf, mounts] at hhidden
    · rw [heq] at htarget
      exact Path.not_under_join (hlocated.target target heq) hname.flat htarget hends

section Scenario

/-- The kernel of one device. -/
def deviceConfig : Value := .dict [("devices", .list [.dict [("identity", .str "d"),
  ("source", .str "d.py")]])]

/-- The process of the device serves, and may write its own implementation. -/
def exposes (os : AgentOS) : Bool :=
  match (os.procs 0).spec.run false, (os.procs 0).spec.loadSpec with
  | .ok (some options), some load =>
    (os.procs 0).alive && decide (load.path = "/runtime/home/d/device.py") &&
      decide (modeOf (mounts options) load.path = .writable)
  | _, _ => false

/-- The kernel of one device boots, with a process that exposes its implementation. -/
theorem device_boots : ∃ os, Boots deviceConfig os ∧ os.exposes = true := by
  have hboots : (boot deviceConfig sourceDisk).any exposes := by decide +kernel
  obtain ⟨os, hboot, hexposes⟩ := (Option.any_eq_true _ _).mp hboots
  exact ⟨os, boots_of_boot hboot, hexposes⟩

/-- The device of this kernel is not confined. -/
theorem sandbox_never_confines_device : ∃ os options, Boots deviceConfig os ∧
    (os.procs 0).spec.run false = .ok options ∧
    ¬ Confined os (os.procs 0).spec (mounts (options.getD [])) := by
  obtain ⟨os, hboots, -⟩ := device_boots
  have hreachable : Reachable deviceConfig .free ⟨os, .idle⟩ := .init hboots
  obtain ⟨options, hrun, hconfined⟩ := sandbox_never_confines hreachable 0 false
  exact ⟨os, options, hboots, hrun, hconfined⟩

/-- A running device may rewrite the file it was loaded from. -/
theorem implementation_exposed : ∃ l load options, Reachable deviceConfig .free l ∧
    (l.state.procs 0).alive = true ∧ (l.state.procs 0).spec.loadSpec = some load ∧
    load.path = "/runtime/home/d/device.py" ∧ (l.state.procs 0).spec.run false = .ok (some options) ∧
    modeOf (mounts options) load.path = .writable ∧
    ¬ Confined l.state (l.state.procs 0).spec (mounts options) := by
  obtain ⟨os, hboots, hexposes⟩ := device_boots
  unfold exposes at hexposes
  split at hexposes
  next options load hrun hload =>
    simp only [Bool.and_eq_true, decide_eq_true_eq] at hexposes
    obtain ⟨⟨halive, hpath⟩, hmode⟩ := hexposes
    refine ⟨⟨os, .idle⟩, load, options, .init hboots, halive, hload, hpath, hrun, hmode,
      fun hconfined => ?_⟩
    have hread := hconfined.implementation load hload
    rw [hmode] at hread
    cases hread
  · simp at hexposes

end Scenario

end AgentOS

end MyTeam.Kernel
