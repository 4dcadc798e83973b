import MyTeam.Kernel.Runs
import Mathlib.Data.List.Nodup

/-!
# One instance per identity

A live process belongs to the handle that is registered under its identity, or to the one
handle that a command has just taken out and is terminating. Commands start a process only
under a free name, so they keep this. `setup` does not look whether a name is taken: it ends
with one instance per identity exactly when the configuration names no identity twice.
-/

namespace MyTeam.Kernel

open MyTeam.Py MyTeam.Async Coroutine Relation

namespace AgentOS

/-- Every live process belongs to the handle registered under its identity, or to the one that
is being terminated, and no two live processes share an identity. -/
structure SingleInstance (os : AgentOS) : Prop where
  owned : ∀ pid, (os.procs pid).alive = true →
    os.entities (os.procs pid).spec.identity = some (.process (os.procs pid).handle) ∨
      os.retiring = some (os.procs pid).handle
  unique : ∀ pid pid', (os.procs pid).alive = true → (os.procs pid').alive = true →
    (os.procs pid).spec.identity = (os.procs pid').spec.identity → pid = pid'

/-- A live process is the process of its handle, and the handle stands under its identity or
is being terminated while nothing stands there. -/
def Owned (os : AgentOS) : Prop :=
  ∀ pid, (os.procs pid).alive = true →
    (os.handles (os.procs pid).handle).process = some pid ∧
      (os.entities (os.procs pid).spec.identity = some (.process (os.procs pid).handle) ∨
        os.retiring = some (os.procs pid).handle ∧
          os.entities (os.procs pid).spec.identity = none)

/-- Ownership leaves no room for a second instance. -/
theorem Owned.singleInstance {os : AgentOS} (h : os.Owned) : os.SingleInstance where
  owned pid halive := (h pid halive).2.imp_right And.left
  unique pid pid' halive halive' hsame := by
    obtain ⟨hprocess, howned⟩ := h pid halive
    obtain ⟨hprocess', howned'⟩ := h pid' halive'
    rw [hsame] at howned
    have hhandle : (os.procs pid).handle = (os.procs pid').handle := by
      rcases howned with hentity | ⟨hretiring, hnone⟩ <;>
        rcases howned' with hentity' | ⟨hretiring', hnone'⟩
      · exact Entity.process.inj (Option.some.inj (hentity.symm.trans hentity'))
      · exact absurd (hentity.symm.trans hnone') (by simp)
      · exact absurd (hentity'.symm.trans hnone) (by simp)
      · exact Option.some.inj (hretiring.symm.trans hretiring')
    rw [hhandle, hprocess'] at hprocess
    exact (Option.some.inj hprocess).symm

section Commands

variable {os os' : AgentOS}

/-- Processes at most die in a steady change. -/
theorem Owned.steady (h : os.Owned) (hs : Steady os os') : os'.Owned := by
  intro pid halive
  obtain ⟨hhandle, hspec, hold⟩ := hs.procs pid
  rw [hhandle, hspec, hs.handles, hs.entities, hs.retiring]
  exact h pid (hold halive)

/-- A new handle belongs to nobody. -/
theorem Owned.addHandle (h : os.Owned) (hw : os.Wired) (identity : String) (spawn : Spawn) :
    (os.addHandle identity spawn).Owned := by
  intro pid halive
  have hne : (os.procs pid).handle ≠ os.nextHandle := (hw.spec (hw.lt_of_alive halive)).1.ne
  simpa [AgentOS.addHandle, hne] using h pid halive

/-- A process that is started under a name that no live process has is alone. -/
theorem Owned.spawned (h : os.Owned) (hw : os.Wired) {identity : String} {spawn : Spawn} {spec : Spec}
    (agent : Bool) (call : spawn.call = .ok spec) (named : spawn.identity = identity)
    (hfree : ∀ pid, (os.procs pid).alive = true → (os.procs pid).spec.identity ≠ identity) :
    (os.spawned identity spawn spec agent).Owned := by
  intro pid halive
  by_cases hpid : pid = os.nextPid
  · subst hpid
    obtain ⟨hidentity, -⟩ := spec_of_call call
    simp [Proc.started, hidentity, named]
  · have hold : (os.procs pid).alive = true := by simpa [hpid] using halive
    have hhandle : (os.procs pid).handle ≠ os.nextHandle := (hw.spec (hw.lt_of_alive hold)).1.ne
    simpa [hpid, hfree pid hold, hhandle] using h pid hold

/-- While nothing is being terminated, no live process has a free name. -/
theorem Owned.ne_of_free (h : os.Owned) {identity : String} (hfree : os.entities identity = none)
    (vacant : os.retiring = none) (pid : ℕ) (halive : (os.procs pid).alive = true) :
    (os.procs pid).spec.identity ≠ identity := by
  rintro rfl
  rcases (h pid halive).2 with hentity | ⟨hretiring, -⟩
  · exact absurd (hentity.symm.trans hfree) (by simp)
  · exact absurd (vacant.symm.trans hretiring) (by simp)

/-- The process whose handle is taken out is the one that is being terminated. -/
theorem Owned.remove (h : os.Owned) {identity : String} {handle : ℕ}
    (entity : os.entities identity = some (.process handle)) (vacant : os.retiring = none) :
    (os.remove identity handle).Owned := by
  intro pid halive
  obtain ⟨hprocess, howned⟩ := h pid halive
  have hentity : os.entities (os.procs pid).spec.identity = some (.process (os.procs pid).handle) := by
    rcases howned with hentity | ⟨hretiring, -⟩
    · exact hentity
    · exact absurd (vacant.symm.trans hretiring) (by simp)
  refine ⟨hprocess, ?_⟩
  by_cases hname : (os.procs pid).spec.identity = identity
  · rw [hname, entity] at hentity
    obtain rfl := Entity.process.inj (Option.some.inj hentity)
    exact Or.inr ⟨rfl, by simp [AgentOS.remove, hname]⟩
  · exact Or.inl (by simpa [AgentOS.remove, hname] using hentity)

/-- A handle is forgotten when its process is dead. -/
theorem Owned.forget (h : os.Owned) {handle pid : ℕ} (retiring : os.retiring = some handle)
    (process : (os.handles handle).process = some pid) (dead : (os.procs pid).alive = false) :
    (os.forget handle).Owned := by
  intro other halive
  have hold : (os.procs other).alive = true := halive
  obtain ⟨hprocess, howned⟩ := h other hold
  have hne : (os.procs other).handle ≠ handle := by
    rintro rfl
    rw [process] at hprocess
    obtain rfl := Option.some.inj hprocess
    exact absurd hold (by simp [dead])
  refine ⟨by simpa [AgentOS.forget, hne] using hprocess, Or.inl ?_⟩
  rcases howned with hentity | ⟨hretiring, -⟩
  · exact hentity
  · exact absurd (Option.some.inj (hretiring.symm.trans retiring)) hne

/-- Commands keep the ownership. -/
theorem Owned.act {entry : AgentOS} {producer : Producer} {event : Value} (h : os.Owned) (hw : os.Wired)
    (ha : Act (.item entry producer event) os os') : os'.Owned := by
  rcases ha.still with hs | ⟨identity, spawn, rfl⟩ |
    ⟨identity, spawn, spec, agent, call, named, ⟨hfree, vacant, -⟩, rfl⟩ |
    ⟨identity, handle, entity, vacant, -, rfl⟩ | ⟨handle, pid, retiring, process, dead, -, rfl⟩
  · exact h.steady hs.toSteady
  · exact h.addHandle hw identity spawn
  · exact h.spawned hw agent call named (h.ne_of_free hfree vacant)
  · exact h.remove entity vacant
  · exact h.forget retiring process dead

end Commands

section Setup

variable {c : Contract AgentOS} {start os base : AgentOS}

/-- Injecting into all agents disturbs nobody. -/
theorem still_injectAll {agents : List Value} (hw : base.Wired) (h : Still base os) :
    wp c (forEach agents inject) (fun _ _ os' => Still base os') start os := by
  refine wp_forEach h fun agent _ start os h => ?_
  simp only [inject, wp_bind, wp_askAuthority, Authority.respond_inject]
  cases hinject : os.authority.buildInject agent with
  | error error => exact h
  | ok answer =>
    obtain ⟨authority, reply⟩ := answer
    obtain ⟨⟨payload, rfl, -⟩, -⟩ := Authority.buildInject_cases hinject
    have hnext : Still base { os with authority } :=
      h.trans (.of_eq rfl rfl rfl rfl rfl rfl rfl rfl)
    simp only
    split
    · exact wp_kernelEmit (hnext.wired hw) fun r os' emitted => hnext.trans emitted.still
    · exact hnext

/-- Wiring a device disturbs nobody. -/
theorem still_wire {positions : List Value} {device : String} {scopes : List Value}
    (h : Still base os) :
    wp c (wire positions device scopes) (fun _ _ os' => Still base os') start os := by
  refine wp_forEach h fun position _ start os h => ?_
  refine wp_ofExcept_bind (fun _ _ => h) fun tokens _ => ?_
  refine wp_forEach h fun token _ start os h => ?_
  simp only [grant, wp_bind, wp_askAuthority, Authority.respond_grant]
  cases position.key with
  | error error => exact h
  | ok positionKey =>
    cases token.key with
    | error error => exact h
    | ok tokenKey => exact h.trans (.of_eq rfl rfl rfl rfl rfl rfl rfl rfl)

/-- The identities of the processes that were ever started, in order. -/
def launched (os : AgentOS) : List String :=
  (List.range os.nextPid).map fun pid => (os.procs pid).spec.identity

/-- The state of `setup` when it has started processes for these identities. -/
structure Launched (names : List String) (os : AgentOS) : Prop where
  wired : os.Wired
  names_eq : os.launched = names
  alive : ∀ pid, pid < os.nextPid → (os.procs pid).alive = true
  owned : names.Nodup → os.Owned

/-- A fresh kernel has started nothing. -/
theorem launched_new (runtimeRoot : String) (disk : Disk) (clock : String) (limits : Limits) :
    Launched [] (.new runtimeRoot disk clock limits) where
  wired := wired_new runtimeRoot disk clock limits
  names_eq := rfl
  alive := by simp [AgentOS.new]
  owned _ pid halive := by simp [AgentOS.new, Proc.blank] at halive

/-- What disturbs nobody does not matter. -/
theorem Launched.still {names : List String} {os os' : AgentOS} (h : Launched names os)
    (hu : Still os os') : Launched names os' where
  wired := hu.wired h.wired
  names_eq := by
    rw [← h.names_eq, launched, launched, hu.nextPid]
    exact List.map_congr_left fun pid _ => by rw [(hu.procs pid).2.1]
  alive pid hpid := by
    rw [hu.same pid]
    exact h.alive pid (hu.nextPid ▸ hpid)
  owned hnodup := (h.owned hnodup).steady hu.toSteady

/-- A process more. -/
theorem Launched.spawned {names : List String} {os : AgentOS} (h : Launched names os)
    {identity : String} {spawn : Spawn} {spec : Spec} (agent : Bool) (call : spawn.call = .ok spec)
    (named : spawn.identity = identity) :
    Launched (names ++ [identity]) (os.spawned identity spawn spec agent) where
  wired := h.wired.spawned agent call named
  names_eq := by
    obtain ⟨hidentity, -⟩ := spec_of_call call
    rw [← h.names_eq, launched, launched, spawned_nextPid, List.range_succ, List.map_append]
    congr 1
    · refine List.map_congr_left fun pid hpid => ?_
      simp [(List.mem_range.mp hpid).ne]
    · simp [Proc.started, hidentity, named]
  alive pid hpid := by
    by_cases hnew : pid = os.nextPid
    · simp [hnew, Proc.started]
    · have hlt : pid < os.nextPid := lt_of_le_of_ne (Nat.lt_succ_iff.mp hpid) hnew
      simpa [hnew] using h.alive pid hlt
  owned hnodup := by
    obtain ⟨hold, -, hdisjoint⟩ := List.nodup_append.mp hnodup
    refine (h.owned hold).spawned h.wired agent call named fun pid halive => ?_
    refine hdisjoint _ ?_ identity (List.mem_singleton_self _)
    rw [← h.names_eq]
    exact List.mem_map.mpr ⟨pid, List.mem_range.mpr (h.wired.lt_of_alive halive), rfl⟩

/-- The identity that an entry of the configuration names. -/
def specName (spec : Value) : Option String :=
  match spec.field "identity" with
  | .str identity => some identity
  | _ => none

/-- The identities that the configuration declares under a key. -/
def declaredNames (config : Value) (key : String) : List String :=
  match config.get key (.list []) with
  | .error _ => []
  | .ok specs =>
    match specs.iter with
    | .error _ => []
    | .ok specs => specs.filterMap specName

/-- The identities of a configuration. -/
def configIdentities (config : Value) : List String :=
  declaredNames config "agents" ++ declaredNames config "devices"

/-- What an entry is registered as. -/
theorem names_of_spec {spec identity : Value} {name : String}
    (hitem : spec.item "identity" = .ok identity) (hname : identityName identity = .ok name) :
    [spec].filterMap specName = [name] := by
  have hspec : specName spec = some name := by
    rw [specName, Value.field_of_item hitem]
    cases identity with
    | str s => rw [Except.ok.inj hname]
    | _ => simp [identityName] at hname
  simp [hspec]

variable {names : List String}

/-- Registering starts one process. -/
theorem launched_register {identity : String} {spawn : Spawn} {tools scopes : Value} {agent : Bool}
    {position : Value} (named : spawn.identity = identity) (h : Launched names os) :
    wp c (register identity spawn tools scopes agent position)
      (fun _ r os' => match r with
        | .ok _ => Launched (names ++ [identity]) os'
        | .error _ => True) start os := by
  refine wp_register (fun _ _ _ => trivial) (fun _ _ _ => trivial) fun spec _ call => ?_
  have henrolled : Still os (os.enrolled identity (registration tools scopes agent position)) :=
    .of_eq rfl rfl rfl rfl rfl rfl rfl rfl
  exact (h.still henrolled).spawned agent call named

/-- An agent of the configuration is one process. -/
theorem launched_setupAgent {spec : Value} (h : Launched names os) :
    wp c (setupAgent spec) (fun _ r os' => match r with
      | .ok _ => Launched (names ++ [spec].filterMap specName) os'
      | .error _ => True) start os := by
  refine wp_ofExcept_bind (fun _ _ => trivial) fun identity hitem => ?_
  refine wp_ofExcept_bind (fun _ _ => trivial) fun type _ => ?_
  split
  · trivial
  refine wp_ofExcept_bind (fun _ _ => trivial) fun options _ => ?_
  refine wp_ofExcept_bind (fun _ _ => trivial) fun position _ => ?_
  refine wp_ofExcept_bind (fun _ _ => trivial) fun name hname => ?_
  refine wp_seq (launched_register rfl h) (fun _ _ _ _ => trivial) fun start _ os' h' => ?_
  rw [names_of_spec hitem hname]
  exact h'.still (.of_eq rfl rfl rfl rfl rfl rfl rfl rfl)

/-- Installing a device of the configuration starts one process. -/
theorem launched_installFromConfig {identity : String} {grants : Value} (h : Launched names os) :
    wp c (installFromConfig identity grants) (fun _ r os' => match r with
      | .ok _ => Launched (names ++ [identity]) os'
      | .error _ => True) start os := by
  rw [installFromConfig, wp_bind, wp_get]
  refine wp_ofExcept_bind (fun _ _ => trivial) fun declared _ => ?_
  refine wp_seq (launched_register rfl h) (fun _ _ _ _ => trivial) fun start _ os' h' => ?_
  refine wp_ofExcept_bind (fun _ _ => trivial) fun positions _ => ?_
  have hsame : Still os' os' := .of_eq rfl rfl rfl rfl rfl rfl rfl rfl
  refine wp_seq (still_wire hsame) (fun _ _ _ _ => trivial) fun start _ os₁ h₁ => ?_
  rw [wp_bind, wp_agents]
  refine wp_imp (still_injectAll h'.wired h₁) fun start r os₂ h₂ => ?_
  cases r with
  | error error => trivial
  | ok _ => exact h'.still h₂

/-- A device of the configuration is one process. -/
theorem launched_setupDevice {spec : Value} (h : Launched names os) :
    wp c (setupDevice spec) (fun _ r os' => match r with
      | .ok _ => Launched (names ++ [spec].filterMap specName) os'
      | .error _ => True) start os := by
  refine wp_ofExcept_bind (fun _ _ => trivial) fun identity hitem => ?_
  refine wp_ofExcept_bind (fun _ _ => trivial) fun source _ => ?_
  refine wp_ofExcept_bind (fun _ _ => trivial) fun source _ => ?_
  refine wp_ofExcept_bind (fun _ _ => trivial) fun name hname => ?_
  rw [names_of_spec hitem hname, wp_bind, wp_modify, wp_bind, copySource, wp_bind, wp_get]
  simp only
  split
  · trivial
  · simp only [wp_modify]
    refine wp_ofExcept_bind (fun _ _ => trivial) fun grants _ => ?_
    exact launched_installFromConfig
      (h.still (.of_eq rfl rfl rfl rfl rfl rfl rfl rfl))

/-- `setup` starts one process for each entry of the configuration. -/
theorem launched_setup {config : Value} (h : Launched [] os) :
    wp c (setup config) (fun _ r os' => match r with
      | .ok _ => Launched (configIdentities config) os'
      | .error _ => True) start os := by
  refine wp_ofExcept_bind (fun _ _ => trivial) fun agents hagents => ?_
  refine wp_ofExcept_bind (fun _ _ => trivial) fun agentSpecs hagentSpecs => ?_
  have hagentNames : declaredNames config "agents" = agentSpecs.filterMap specName := by
    rw [declaredNames, hagents]
    simp only [hagentSpecs]
  let I (before : List String) (visited : List Value) (_ : AgentOS) (os : AgentOS) : Prop :=
    Launched (before ++ visited.filterMap specName) os
  have hbegin : I [] [] start os := by simpa [I] using h
  refine wp_seq (wp_forEach_visited hbegin fun visited spec start os h => ?_)
    (fun _ _ _ _ => trivial) fun start _ os' h' => ?_
  · refine wp_imp (launched_setupAgent h) fun start r os' h' => ?_
    cases r with
    | error error => trivial
    | ok _ => simpa [I, List.filterMap_append] using h'
  refine wp_ofExcept_bind (fun _ _ => trivial) fun devices hdevices => ?_
  refine wp_ofExcept_bind (fun _ _ => trivial) fun deviceSpecs hdeviceSpecs => ?_
  have hdeviceNames : declaredNames config "devices" = deviceSpecs.filterMap specName := by
    rw [declaredNames, hdevices]
    simp only [hdeviceSpecs]
  have hmiddle : I (declaredNames config "agents") [] start os' := by
    simpa [I, hagentNames] using h'
  refine wp_imp (wp_forEach_visited hmiddle fun visited spec start os h => ?_) fun start r os'' h'' => ?_
  · refine wp_imp (launched_setupDevice h) fun start r os' h' => ?_
    cases r with
    | error error => trivial
    | ok _ => simpa [I, List.filterMap_append] using h'
  · cases r with
    | error error => trivial
    | ok _ => simpa [I, configIdentities, hdeviceNames] using h''

/-- The processes with which a run begins. -/
theorem launched_of_boots {config : Value} (h : Boots config os) :
    Launched (configIdentities config) os := by
  obtain ⟨runtimeRoot, disk, clock, limits, hsetup⟩ := h
  have hwp : wp (contract .setup) (setup config) _ (.new runtimeRoot disk clock limits) _ :=
    launched_setup (launched_new runtimeRoot disk clock limits)
  unfold wp at hwp
  rw [hsetup] at hwp
  exact hwp

end Setup

/-- For every configuration that `setup` accepts: in every reachable state there is one
instance per identity, if and only if the configuration names no identity twice. -/
theorem single_instance_iff {config : Value} (haccepted : ∃ os, Boots config os) :
    (∀ l, Reachable config .free l → l.state.SingleInstance) ↔ (configIdentities config).Nodup := by
  constructor
  · intro hsingle
    obtain ⟨os, hboots⟩ := haccepted
    have hlaunched := launched_of_boots hboots
    have hunique := (hsingle ⟨os, .idle⟩ (.init hboots)).unique
    rw [← hlaunched.names_eq, launched, List.nodup_map_iff_inj_on List.nodup_range]
    intro pid hpid pid' hpid' hsame
    exact hunique pid pid' (hlaunched.alive pid (List.mem_range.mp hpid))
      (hlaunched.alive pid' (List.mem_range.mp hpid')) hsame
  · intro hnodup l hreachable
    have hthroughout : Throughout Owned (fun _ _ os => os.Owned) l := by
      refine Reachable.stepwise hreachable (fun os hboots => (launched_of_boots hboots).owned hnodup)
        (fun hw hI hb => hI.steady (hb.calm hw).steady) (fun _ _ hI _ _ => hI)
        (fun hw hJ ha => hJ.act hw ha) (fun hw hJ hb => hJ.steady (hb.calm hw).steady)
        fun _ _ hJ => hJ
    unfold Throughout at hthroughout
    split at hthroughout
    · exact hthroughout.2.2.singleInstance
    · exact hthroughout.2.singleInstance

section Configurations

/-- Two agents with names of their own. -/
def distinctConfig : Value := .dict [("agents", .list [agentSpec "a" "root", agentSpec "b" "dev"])]

/-- Two agents with one name. -/
def repeatedConfig : Value := .dict [("agents", .list [agentSpec "a" "root", agentSpec "a" "dev"])]

/-- Two agents with names of their own. -/
theorem single_instance_distinct : (∃ os, Boots distinctConfig os) ∧
    ∀ l, Reachable distinctConfig .free l → l.state.SingleInstance := by
  have hboot : (boot distinctConfig emptyDisk).isSome = true := by decide +kernel
  obtain ⟨os, hos⟩ := Option.isSome_iff_exists.mp hboot
  have hnodup : (configIdentities distinctConfig).Nodup := by decide +kernel
  exact ⟨⟨os, boots_of_boot hos⟩, (single_instance_iff ⟨os, boots_of_boot hos⟩).mpr hnodup⟩

/-- `setup` accepts a name that is used twice and starts two processes for it. -/
theorem two_instances : ∃ l, Reachable repeatedConfig .free l ∧ ¬ l.state.SingleInstance := by
  have hboot : (scenario repeatedConfig emptyDisk []).any fun l =>
      (l.state.procs 0).alive = true ∧ (l.state.procs 1).alive = true ∧
        (l.state.procs 0).spec.identity = (l.state.procs 1).spec.identity := by decide +kernel
  obtain ⟨l, hplayed, hends⟩ := (Option.any_eq_true _ _).mp hboot
  obtain ⟨halive, halive', hsame⟩ := of_decide_eq_true hends
  refine ⟨l, reachable_free_of_scenario hplayed, fun hsingle => ?_⟩
  exact absurd (hsingle.unique 0 1 halive halive' hsame) (by decide)

end Configurations

end AgentOS

end MyTeam.Kernel
