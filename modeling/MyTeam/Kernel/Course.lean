import MyTeam.Kernel.Protocol
import MyTeam.Kernel.Wiring

/-!
# The tables in the course of a command

A command changes the Authority's tables and the kernel's registry step by step, and may wait
in between. `Course` follows the tables: whatever happens while the command waits, they are
as the last step left them, because nothing that waits for the Authority commands it in the
kernel's name. Which commands matter is a parameter: the identities depend on two of them, the
grants on two more, and what was injected on another one.
-/

namespace MyTeam.Kernel

open MyTeam.Py MyTeam.Async MyTeam.Dispatch MyTeam.Agent Coroutine Relation

namespace Authority

/-- Only a request for an injection changes what was injected, and is answered with an injection. -/
theorem injects_of_respond {a a' : Authority} {event reply : Value}
    (h : a.respond event = .ok (a', reply)) :
    a'.injected = a.injected ∧ (reply.field "payload").field "command" ≠ .str "inject" ∨
      Mutates event ["inject_request"] ∧ ∃ agent, a.buildInject agent = .ok (a', reply) := by
  have hvoid : (void.field "payload").field "command" ≠ .str "inject" := by simp [void, Value.field]
  have hanswer (name : String) (value : Value) (hname : name ≠ "command") :
      ((answer name value).field "payload").field "command" ≠ .str "inject" := by
    have hne : ("command" == name) = false := beq_false_of_ne hname.symm
    simp [answer, applicationEvent, Value.field, List.lookup_cons, hne]
  obtain ⟨source, hsource, h⟩ := bind_eq_ok.mp h
  split at h
  · obtain ⟨target, -, h⟩ := bind_eq_ok.mp h
    obtain ⟨rfl, rfl⟩ := Prod.mk.inj (Except.ok.inj h)
    exact Or.inl ⟨rfl, by simp [applicationEvent, Value.field, List.lookup_cons]⟩
  next hsystem =>
  have hname : event.field "source" = .str "system" := by
    rw [Value.field_of_get hsource]
    exact Value.isStr_iff.mp (by simpa using hsystem)
  obtain ⟨payload, hpayload, h⟩ := bind_eq_ok.mp h
  obtain ⟨command, hcommand, h⟩ := bind_eq_ok.mp h
  split at h
  · obtain ⟨registered, hregister, h⟩ := bind_eq_ok.mp h
    obtain ⟨rfl, rfl⟩ := Prod.mk.inj (Except.ok.inj h)
    simp only [registerRequest, bind_eq_ok] at hregister
    obtain ⟨_, -, _, -, _, -, _, -, _, -, _, -, hregister⟩ := hregister
    exact Or.inl ⟨by rw [← Except.ok.inj hregister], hvoid⟩
  split at h
  · obtain ⟨unregistered, hunregister, h⟩ := bind_eq_ok.mp h
    obtain ⟨rfl, rfl⟩ := Prod.mk.inj (Except.ok.inj h)
    obtain ⟨identity, -, hunregister⟩ := bind_eq_ok.mp hunregister
    simp only at hunregister
    split at hunregister
    · obtain ⟨key, -, hunregister⟩ := bind_eq_ok.mp hunregister
      exact Or.inl ⟨by rw [← Except.ok.inj hunregister], hvoid⟩
    · exact Or.inl ⟨by rw [← Except.ok.inj hunregister], hvoid⟩
  split at h
  · obtain ⟨granted, hgrant, h⟩ := bind_eq_ok.mp h
    obtain ⟨rfl, rfl⟩ := Prod.mk.inj (Except.ok.inj h)
    obtain ⟨grant, -, hgrant⟩ := bind_eq_ok.mp hgrant
    exact Or.inl ⟨by rw [← Except.ok.inj hgrant], hvoid⟩
  split at h
  · obtain ⟨revoked, hrevoke, h⟩ := bind_eq_ok.mp h
    obtain ⟨rfl, rfl⟩ := Prod.mk.inj (Except.ok.inj h)
    obtain ⟨grant, -, hrevoke⟩ := bind_eq_ok.mp hrevoke
    exact Or.inl ⟨by rw [← Except.ok.inj hrevoke], hvoid⟩
  split at h
  · obtain ⟨identity, -, h⟩ := bind_eq_ok.mp h
    obtain ⟨rfl, rfl⟩ := Prod.mk.inj (Except.ok.inj h)
    exact Or.inl ⟨rfl, hanswer _ _ (by decide)⟩
  split at h
  · obtain ⟨identity, -, h⟩ := bind_eq_ok.mp h
    obtain ⟨scope, -, h⟩ := bind_eq_ok.mp h
    obtain ⟨allowed, -, h⟩ := bind_eq_ok.mp h
    obtain ⟨rfl, rfl⟩ := Prod.mk.inj (Except.ok.inj h)
    exact Or.inl ⟨rfl, hanswer _ _ (by decide)⟩
  split at h
  · obtain ⟨identity, -, h⟩ := bind_eq_ok.mp h
    obtain ⟨auth, -, h⟩ := bind_eq_ok.mp h
    obtain ⟨rfl, rfl⟩ := Prod.mk.inj (Except.ok.inj h)
    exact Or.inl ⟨rfl, hanswer _ _ (by decide)⟩
  split at h
  next hinject =>
    obtain ⟨agent, -, h⟩ := bind_eq_ok.mp h
    refine Or.inr ⟨⟨hname, "inject_request", by simp, ?_⟩, agent, h⟩
    rw [Value.field_of_item hpayload, Value.field_of_get hcommand, Value.isStr_iff.mp hinject]
  split at h
  · obtain ⟨rfl, rfl⟩ := Prod.mk.inj (Except.ok.inj h)
    exact Or.inl ⟨rfl, hanswer _ _ (by decide)⟩
  · obtain ⟨rfl, rfl⟩ := Prod.mk.inj (Except.ok.inj h)
    exact Or.inl ⟨rfl, hvoid⟩

/-- A command of a longer list. -/
theorem Mutates.mono {event : Value} {commands commands' : List String} (h : Mutates event commands)
    (hsub : commands ⊆ commands') : Mutates event commands' :=
  ⟨h.1, h.2.imp fun _ hcommand => ⟨hsub hcommand.1, hcommand.2⟩⟩

/-- The commands that change the identities. -/
def registryCommands : List String := ["register_request", "unregister_request"]

section AddGrants

variable (a : Authority) (grants : List Grant)

/-- Granting leaves the identities. -/
@[simp] theorem addGrants_identities : (grants.foldl addGrant a).identities = a.identities := by
  induction grants generalizing a with
  | nil => rfl
  | cons grant rest ih => exact ih (a.addGrant grant)

/-- Granting leaves what was injected. -/
@[simp] theorem addGrants_injected : (grants.foldl addGrant a).injected = a.injected := by
  induction grants generalizing a with
  | nil => rfl
  | cons grant rest ih => exact ih (a.addGrant grant)

/-- The grants are there afterwards, besides those that were there. -/
@[simp] theorem mem_addGrants {grant : Grant} :
    grant ∈ (grants.foldl addGrant a).grants ↔ grant ∈ grants ∨ grant ∈ a.grants := by
  induction grants generalizing a with
  | nil => simp
  | cons first rest ih =>
    rw [List.foldl_cons, ih, addGrant, List.mem_insert_iff, List.mem_cons]
    exact ⟨fun h => by tauto, fun h => by tauto⟩

end AddGrants

/-- Two states of the Authority agree in what only these commands change. -/
structure Agree (commands : List String) (a b : Authority) : Prop where
  identities : a.identities = b.identities
  grants : AgentOS.tableCommands ⊆ commands → a.grants = b.grants
  injected : "inject_request" ∈ commands → a.injected = b.injected

namespace Agree

variable {commands : List String} {a a' b : Authority}

theorem refl (a : Authority) : Agree commands a a := ⟨rfl, fun _ => rfl, fun _ => rfl⟩

theorem trans (h : Agree commands a a') (h' : Agree commands a' b) : Agree commands a b :=
  ⟨h.identities.trans h'.identities, fun hsub => (h.grants hsub).trans (h'.grants hsub),
    fun hmem => (h.injected hmem).trans (h'.injected hmem)⟩

/-- Both register an identity. -/
theorem enroll (h : Agree commands a b) (identity : String) (info : Info) :
    Agree commands (a.enroll identity info) (b.enroll identity info) :=
  ⟨by rw [Authority.enroll, Authority.enroll, h.identities], h.grants, h.injected⟩

/-- Both drop an identity and the grants on it. -/
theorem withdraw (h : Agree commands a b) (identity : String) :
    Agree commands (a.withdraw identity) (b.withdraw identity) :=
  ⟨by rw [Authority.withdraw, Authority.withdraw, h.identities],
    fun hsub => by rw [Authority.withdraw, Authority.withdraw, h.grants hsub], h.injected⟩

/-- Both add a grant. -/
theorem addGrant (h : Agree commands a b) (grant : Grant) :
    Agree commands (a.addGrant grant) (b.addGrant grant) :=
  ⟨h.identities, fun hsub => by rw [Authority.addGrant, Authority.addGrant, h.grants hsub], h.injected⟩

/-- Both add the same grants, as far as grants matter. -/
theorem addGrants {grants grants' : List Grant} (h : Agree commands a b)
    (hgrants : AgentOS.tableCommands ⊆ commands → grants = grants') :
    Agree commands (grants.foldl Authority.addGrant a) (grants'.foldl Authority.addGrant b) := by
  refine ⟨by simpa using h.identities, fun hsub => ?_, fun hmem => by simpa using h.injected hmem⟩
  obtain rfl := hgrants hsub
  clear hgrants
  induction grants generalizing a b with
  | nil => exact h.grants hsub
  | cons grant rest ih => exact ih (h.addGrant grant)

/-- Both drop a grant. -/
theorem dropGrant (h : Agree commands a b) (grant : Grant) :
    Agree commands (a.dropGrant grant) (b.dropGrant grant) :=
  ⟨h.identities, fun hsub => by rw [Authority.dropGrant, Authority.dropGrant, h.grants hsub], h.injected⟩

/-- An event without these commands leaves them in agreement. -/
theorem respond {event reply : Value} (hregistry : registryCommands ⊆ commands)
    (hevent : ¬ Mutates event commands) (h : a.respond event = .ok (a', reply)) : Agree commands a' a := by
  have hanswered := (respond_cases h).2
  refine ⟨hanswered.identities.resolve_right fun hm => hevent (hm.mono hregistry), fun hsub => ?_,
    fun hmem => ?_⟩
  · refine hanswered.grants.resolve_right fun hm => hevent (hm.mono fun command hcommand => hsub ?_)
    exact (by decide : ["unregister_request", "grant_request", "revoke_request"] ⊆
      AgentOS.tableCommands) hcommand
  · exact ((injects_of_respond h).resolve_right fun hm => hevent (hm.1.mono (by simpa using hmem))).1

end Agree

section View

variable {a b : Authority}

/-- The explanations of scopes depend on the identities only. -/
theorem skillEntries_congr (hidentities : a.identities = b.identities) (granted : List Grant)
    (devices : List Key) (new : Entries) :
    a.skillEntries granted devices new = b.skillEntries granted devices new := by
  induction devices generalizing new with
  | nil => rfl
  | cons device rest ih =>
    simp only [skillEntries, hidentities, ih]

/-- What an agent may see depends on the identities and the grants. -/
theorem view_congr (hidentities : a.identities = b.identities) (hgrants : a.grants = b.grants)
    (agent : Value) : a.view agent = b.view agent := by
  simp only [view, hidentities, hgrants, skillEntries_congr hidentities]

/-- An agent is known by its key. -/
theorem view_of_key {agent other : Value} {key : Key} {new : Entries} (h : a.view agent = .ok new)
    (hkey : agent.key = .ok key) (hother : other.key = .ok key) : a.view other = .ok new := by
  simp only [view, hkey, ok_bind] at h
  simp only [view, hother, ok_bind]
  split at h
  · simp at h
  · exact h

end View

/-- What was injected into an agent last is what it may see. -/
def Shown (a : Authority) (agent : Value) : Prop :=
  ∃ key new, agent.key = .ok key ∧ a.view agent = .ok new ∧ a.injected.lookup key = some new

/-- An agent has been shown what it may see, and no other agent sees anything else. -/
theorem Shown.inject {a a' : Authority} {agent other : Value} {key : Key} {new : Entries}
    (h : a.Shown other) (hidentities : a'.identities = a.identities) (hgrants : a'.grants = a.grants)
    (hkey : agent.key = .ok key) (hview : a.view agent = .ok new)
    (hinjected : a'.injected = assign key new a.injected) : a'.Shown other := by
  obtain ⟨key', new', hkey', hview', hlookup⟩ := h
  refine ⟨key', new', hkey', by rw [view_congr hidentities hgrants, hview'], ?_⟩
  rw [hinjected, lookup_assign]
  split
  next hsame =>
    subst hsame
    rw [view_of_key hview' hkey' hkey] at hview
    exact congrArg some (Except.ok.inj hview).symm
  · exact hlookup

end Authority

namespace AgentOS

variable {commands : List String} {os os' : AgentOS}

/-- Nothing that waits for the Authority gives it one of these commands in the kernel's name. -/
def Unasked (commands : List String) : Device → Value → Prop
  | .authority, event => ¬ Authority.Mutates event commands
  | .journal, _ => True

/-- The kernel does not command the Authority through its bucket. -/
theorem says_unasked : Says (Unasked commands) := by
  intro device source target payload known _
  cases device with
  | authority => exact not_mutates_emission known
  | journal => trivial

/-- The event gives the Authority one of these commands in the kernel's name. -/
def Asks (commands : List String) (event : Value) : Prop :=
  event.field "target" = .str "authority" ∧ Authority.Mutates event commands

/-- Answering leaves the tables in agreement. -/
theorem agree_respondAs (hregistry : Authority.registryCommands ⊆ commands) {device : Device} {event : Value}
    (h : Unasked commands device event) :
    Authority.Agree commands (os.respondAs device event).1.authority os.authority := by
  cases device with
  | authority =>
    simp only [respondAs]
    split
    next authority reply hrespond => exact .respond hregistry h hrespond
    · exact .refl _
  | journal =>
    simp only [respondAs]
    split <;> exact .refl _

/-- What happens beside the event loop leaves the tables in agreement. -/
theorem agree_background (hregistry : Authority.registryCommands ⊆ commands) (hw : os.Wired)
    (hfiled : Filed (Unasked commands) os) (hb : Background os os') :
    Authority.Agree commands os'.authority os.authority := by
  cases hb with
  | @round device i after serves =>
    cases rounds_of_round hw serves with
    | @silent source job tasks queued queues =>
      exact agree_respondAs hregistry (hfiled _ _ ⟨source, job, queued, rfl⟩).2
    | @emitting source job tasks done target payload r os₁ queued queues spoken emitted ends =>
      have hsame : (os₁.setTasks device done).authority = _ := emitted.aside.authority
      rw [hsame]
      exact agree_respondAs hregistry (hfiled _ _ ⟨source, job, queued, rfl⟩).2
  | _ => exact .refl _

/-- The Authority's tables and the registry of the kernel. -/
structure Tables where
  authority : Authority
  entities : String → Option Entity
  agentIds : List String

/-- The tables of a state. -/
def tables (os : AgentOS) : Tables := ⟨os.authority, os.entities, os.agentIds⟩

namespace Tables

variable (T : Tables)

/-- The Authority's tables have changed. -/
def setAuthority (authority : Authority) : Tables := { T with authority }

/-- A name is free. -/
def free (identity : String) : Tables := { T with entities := Function.update T.entities identity none }

/-- The Authority has dropped an identity. -/
def withdraw (identity : String) : Tables := T.setAuthority (T.authority.withdraw identity)

/-- The Authority has been told about an identity. -/
def enroll (identity : String) (info : Info) : Tables := T.setAuthority (T.authority.enroll identity info)

/-- A process stands under a name. -/
def enter (identity : String) (handle : ℕ) (agent : Bool) : Tables :=
  { T with
    entities := Function.update T.entities identity (some (.process handle))
    agentIds := if agent then T.agentIds.insert identity else T.agentIds }

/-- Grants have been added one after the other. -/
def grantAll (grants : List Grant) : Tables :=
  T.setAuthority (grants.foldl Authority.addGrant T.authority)

/-- Something else has been injected. -/
def inject (injected : List (Key × Entries)) : Tables :=
  T.setAuthority { T.authority with injected }

end Tables

/-- Nothing is injected, and the registered processes are the same and hear nothing new; no name
is given to a kernel-mode device. -/
structure Unheard (os os' : AgentOS) : Prop where
  injected : os'.authority.injected = os.authority.injected
  handled : os.handled <+: os'.handled
  kernelMode : ∀ {name device}, os'.entities name = some (.kernelMode device) →
    os.entities name = some (.kernelMode device)
  same : ∀ {name handle pid}, os'.entities name = some (.process handle) →
    (os'.handles handle).process = some pid → os.entities name = some (.process handle) ∧
      os'.handles handle = os.handles handle ∧ (os'.procs pid).delivered = (os.procs pid).delivered ∧
      ((os'.procs pid).open = true → (os.procs pid).open = true)

namespace Unheard

/-- The processes and the registry are as they were. -/
theorem of_eq (injected : os'.authority.injected = os.authority.injected) (handled : os.handled <+: os'.handled)
    (entities : os'.entities = os.entities) (handles : os'.handles = os.handles) (procs : os'.procs = os.procs) :
    Unheard os os' :=
  ⟨injected, handled, fun entity => entities ▸ entity,
    fun entity _ => ⟨entities ▸ entity, by rw [handles], by rw [procs], by rw [procs]; exact id⟩⟩

/-- A name is taken from a process. -/
theorem remove (os : AgentOS) (identity : String) (handle : ℕ) : Unheard os (os.remove identity handle) := by
  refine ⟨rfl, List.prefix_refl _, fun {name device} entity => ?_, fun {name other pid} entity _ =>
    ⟨?_, rfl, rfl, id⟩⟩ <;>
  · by_cases hname : name = identity
    · simp [AgentOS.remove, hname] at entity
    · simpa [AgentOS.remove, hname] using entity

/-- A process is killed. -/
theorem kill (os : AgentOS) (pid : ℕ) : Unheard os (os.kill pid) := by
  refine ⟨rfl, List.prefix_refl _, id, fun {name handle other} entity _ => ⟨entity, rfl, ?_⟩⟩
  by_cases hpid : other = pid
  · subst hpid
    simp [AgentOS.kill, Proc.open]
  · simp [AgentOS.kill, hpid]

/-- A handle is made. -/
theorem addHandle (hw : os.Wired) (identity : String) (spawn : Spawn) :
    Unheard os (os.addHandle identity spawn) := by
  refine ⟨rfl, List.prefix_refl _, id, fun {name handle pid} entity _ => ⟨entity, ?_, rfl, id⟩⟩
  have hne : handle ≠ os.nextHandle := (hw.registered entity).1.ne
  simp [AgentOS.addHandle, hne]

/-- A handle that is not registered is left alone. -/
theorem ne_of_retiring {before : AgentOS} {identity : String} {handle pid : ℕ}
    (hr : Retiring before identity handle pid os) (hw : os.Wired) {name : String} {other : ℕ}
    (entity : os.entities name = some (.process other)) : other ≠ handle := by
  rintro rfl
  obtain ⟨-, hname, -⟩ := hw.registered entity
  obtain rfl := hname.symm.trans hr.named
  simp [hr.entities] at entity

/-- A process that is being stopped is told so. -/
theorem signal {before : AgentOS} {identity : String} {handle pid : ℕ} (event : Value)
    (hr : Retiring before identity handle pid os) (hw : os.Wired) : Unheard os (os.push pid event) := by
  refine ⟨rfl, List.prefix_refl _, id, fun {name other p} entity process => ⟨entity, rfl, ?_⟩⟩
  have hne : p ≠ pid := by
    rintro rfl
    exact ne_of_retiring hr hw entity ((hw.process process).2.symm.trans (hw.process hr.process).2)
  simp [AgentOS.push, hne]

/-- A process that was stopped is forgotten. -/
theorem forget {before : AgentOS} {identity : String} {handle pid : ℕ}
    (hr : Retiring before identity handle pid os) (hw : os.Wired) : Unheard os (os.forget handle) := by
  refine ⟨rfl, List.prefix_refl _, id, fun {name other p} entity process => ⟨entity, ?_, rfl, id⟩⟩
  simp [AgentOS.forget, ne_of_retiring hr hw entity]

end Unheard

/-- An extra property that lasts while a command is carried out: it depends on what is injected
and heard only, it survives what happens meanwhile, an injection restores it, and new processes
and acknowledgements keep it. -/
structure Lasting (commands : List String) (M : AgentOS → Prop) : Prop where
  unheard : ∀ {os os'}, os.Wired → M os → Unheard os os' → M os'
  background : ∀ {os os'}, os.Wired → Filed (Unasked commands) os → M os → Background os os' → M os'
  injected : ∀ {os os' agent key new}, os.Wired → M os → agent.key = .ok key →
    os.authority.view agent = .ok new →
    Emitted "authority" (emission "authority" agent (injectPayload (os.authority.snapshot key) new))
      { os with authority := { os.authority with injected := assign key new os.authority.injected } }
      (.ok ()) os' → M os'
  spawned : ∀ {os identity spawn spec agent}, os.Wired → M os →
    (∀ options, spawn = .agent identity options → os.authority.injected.lookup (.str identity) = none) →
    spawn.call = .ok spec → spawn.identity = identity → M (os.spawned identity spawn spec agent)
  acknowledged : ∀ {os os' target payload r}, os.Wired → M os →
    (∃ command, Value.field (.dict payload) "command" = .str command ∧ command ≠ "inject") →
    Emitted "kernel" (emission "kernel" target payload) os r os' → M os'

/-- Nothing need last. -/
theorem lasting_true : Lasting commands fun _ => True :=
  ⟨fun _ _ _ => trivial, fun _ _ _ _ => trivial, fun _ _ _ _ _ => trivial, fun _ _ _ _ _ => trivial,
    fun _ _ _ _ => trivial⟩

/-- The tables stand at `T`. -/
structure Course (commands : List String) (M : AgentOS → Prop) (T : Tables) (os : AgentOS) : Prop where
  wired : os.Wired
  filed : Filed (Unasked commands) os
  authority : Authority.Agree commands os.authority T.authority
  entities : os.entities = T.entities
  agentIds : os.agentIds = T.agentIds
  extra : M os

namespace Course

variable {M : AgentOS → Prop} {T : Tables}

/-- Nothing extra. -/
theorem weaken (h : Course commands M T os) : Course commands (fun _ => True) T os :=
  ⟨h.wired, h.filed, h.authority, h.entities, h.agentIds, trivial⟩

/-- The same tables, as far as they matter. -/
theorem of_agree {T' : Tables} (h : Course commands M T os)
    (authority : Authority.Agree commands T.authority T'.authority) (entities : T.entities = T'.entities)
    (agentIds : T.agentIds = T'.agentIds) : Course commands M T' os :=
  ⟨h.wired, h.filed, h.authority.trans authority, h.entities.trans entities, h.agentIds.trans agentIds, h.extra⟩

/-- A step beside the event loop. -/
theorem background (h : Course commands M T os) (hregistry : Authority.registryCommands ⊆ commands)
    (hM : Lasting commands M) (hb : Background os os') : Course commands M T os' := by
  have hcalm := hb.calm h.wired
  exact ⟨hcalm.wired h.wired, h.filed.background h.wired says_unasked hb,
    (agree_background hregistry h.wired h.filed hb).trans h.authority, hcalm.entities.trans h.entities,
    hcalm.agentIds.trans h.agentIds, hM.background h.wired h.filed h.extra hb⟩

/-- Whatever happens while the kernel waits. -/
theorem meanwhile (h : Course commands M T os) (hregistry : Authority.registryCommands ⊆ commands)
    (hM : Lasting commands M) (hb : ReflTransGen Background os os') : Course commands M T os' := by
  induction hb with
  | refl => exact h
  | tail _ hstep ih => exact ih.background hregistry hM hstep

/-- A step that nobody hears, and that changes the registry at most. -/
theorem unheard {T' : Tables} (h : Course commands M T os) (hM : Lasting commands M) (hu : Unheard os os')
    (wired : os'.Wired) (dispatchers : os'.dispatchers = os.dispatchers)
    (authority : Authority.Agree commands os'.authority T'.authority) (entities : os'.entities = T'.entities)
    (agentIds : os'.agentIds = T'.agentIds) : Course commands M T' os' :=
  ⟨wired, h.filed.of_dispatchers dispatchers, authority, entities, agentIds, hM.unheard h.wired h.extra hu⟩

/-- The Authority's tables change in the same way. -/
theorem setAuthority {a b : Authority} (h : Course commands M T os) (hM : Lasting commands M)
    (injected : a.injected = os.authority.injected) (agree : Authority.Agree commands a b) :
    Course commands M (T.setAuthority b) { os with authority := a } :=
  h.unheard hM (.of_eq injected (List.prefix_refl _) rfl rfl rfl) (wired_setAuthority h.wired a) rfl agree h.entities
    h.agentIds

/-- The files change. -/
theorem setDisk (h : Course commands M T os) (hM : Lasting commands M) (disk : Disk) :
    Course commands M T { os with disk } :=
  h.unheard hM (.of_eq rfl (List.prefix_refl _) rfl rfl rfl)
    ((Still.of_eq rfl rfl rfl rfl rfl rfl rfl rfl : Still os { os with disk }).wired h.wired) rfl h.authority
    h.entities h.agentIds

/-- The Authority is told about an identity. -/
theorem enroll (h : Course commands M T os) (hM : Lasting commands M) (identity : String) (info : Info) :
    Course commands M (T.enroll identity info) (os.enrolled identity info) :=
  h.setAuthority hM rfl (h.authority.enroll identity info)

/-- A handle is made that nobody uses. -/
theorem addHandle (h : Course commands M T os) (hM : Lasting commands M) (identity : String) (spawn : Spawn) :
    Course commands M T (os.addHandle identity spawn) :=
  h.unheard hM (.addHandle h.wired identity spawn) (h.wired.addHandle identity spawn) rfl h.authority
    h.entities h.agentIds

/-- A process is started and registered. -/
theorem spawned {identity : String} {spawn : Spawn} {spec : Spec} (agent : Bool) (h : Course commands M T os)
    (hM : Lasting commands M)
    (hnew : ∀ options, spawn = .agent identity options → os.authority.injected.lookup (.str identity) = none)
    (call : spawn.call = .ok spec) (named : spawn.identity = identity) :
    Course commands M (T.enter identity os.nextHandle agent) (os.spawned identity spawn spec agent) := by
  refine ⟨h.wired.spawned agent call named, h.filed.of_dispatchers rfl, h.authority, ?_, ?_,
    hM.spawned h.wired h.extra hnew call named⟩
  · rw [spawned_entities, h.entities, Tables.enter]
  · rw [Tables.enter, ← h.agentIds]
    rfl

end Course

section Steps

variable {M : AgentOS → Prop} {T : Tables} {start : AgentOS} {c : Contract AgentOS}

/-- Retiring a registered process. -/
theorem course_retire (hregistry : Authority.registryCommands ⊆ commands) (hM : Lasting commands M)
    {identity : String} {handle : ℕ} {Q : AgentOS → Except Exc Unit → AgentOS → Prop}
    (h : Course commands M T os) (entity : os.entities identity = some (.process handle))
    (hQ : ∀ start' os', Course commands M (T.free identity) os' → Q start' (.ok ()) os') :
    wp meanwhile (retire identity handle) Q start os := by
  obtain ⟨-, hidentity, pid, hpid⟩ := h.wired.registered entity
  let I (_ : AgentOS) (s : AgentOS) : Prop := Course commands M (T.free identity) s
  have hremoved : I start (os.remove identity handle) := by
    refine h.unheard hM (.remove os identity handle) (h.wired.remove entity) rfl h.authority ?_ h.agentIds
    rw [Tables.free, ← h.entities]
    rfl
  refine wp_retire (I := I) hidentity hpid hremoved (fun _ => trivial)
    (fun {start s s'} hs hb => ⟨hs.meanwhile hregistry hM hb, (calm_of_background hb hs.wired).steady⟩)
    (fun hr hs => ?_) (fun hr hs => ?_) fun start' s hr _ hs => ?_
  · exact hs.unheard hM (.signal _ hr hs.wired) ((Still.push _ _ _).wired hs.wired) rfl hs.authority
      hs.entities hs.agentIds
  · exact hs.unheard hM (.kill _ _) ((Still.kill _ _).wired hs.wired) rfl hs.authority hs.entities hs.agentIds
  · refine hQ start' _ (hs.unheard hM (.forget hr hs.wired) (hs.wired.forget ?_) rfl hs.authority hs.entities
      hs.agentIds)
    rw [hr.named, hr.entities, Function.update_self]

/-- The grant that a request of the kernel adds. -/
def grantOf (position : Value) (device : String) (token : Value) : Except Exc Grant := do
  return ⟨← position.key, .str device, ← token.key⟩

/-- A request for a grant. -/
theorem wp_grant {position : Value} {device : String} {token : Value}
    {Q : AgentOS → Except Exc Unit → AgentOS → Prop} :
    wp c (grant position device token) Q start os ↔
      match grantOf position device token with
      | .ok grant => Q start (.ok ()) { os with authority := os.authority.addGrant grant }
      | .error error => Q start (.error error) os := by
  simp only [grant, wp_bind, wp_askAuthority, Authority.respond_grant, grantOf]
  cases position.key with
  | error error => rfl
  | ok positionKey =>
    simp only [ok_bind]
    cases token.key with
    | error error => rfl
    | ok tokenKey => rfl

/-- The grants that wire a device. -/
def wiring (positions : List Value) (device : String) (tokens : List Value) : List Grant :=
  positions.flatMap fun position => tokens.filterMap fun token => (grantOf position device token).toOption

/-- The maintenance scopes among the grants on a device. -/
def maintenanceGrants (device : String) (grants : List Grant) : List Grant :=
  grants.filter fun grant => grant.device = .str device ∧
    (grant.token = .str "maintain" ∨ grant.token = .str ("maintain:" ++ device))

/-- What a grant says can be granted again. -/
theorem grantOf_toValue {grant : Grant} {device : String} (hdevice : grant.device = .str device) :
    grantOf grant.position.toValue device grant.token.toValue = .ok grant := by
  simp only [grantOf, Key.key_toValue, ok_bind]
  rw [← hdevice]
  rfl

section Granting

variable {τ : Type} {I : τ → AgentOS → Prop} {add : τ → Grant → τ} {t : τ}

/-- Granting tokens to a position: all of them, unless one cannot be granted. Whatever follows the
tables grant by grant has followed them all. -/
theorem wp_grants {position : Value} {device : String} {tokens : List Value}
    (hadd : ∀ {t os} grant, I t os → I (add t grant) { os with authority := os.authority.addGrant grant })
    (h : I t os) :
    wp c (forEach tokens fun token => grant position device token) (fun _ r os' =>
      r = .ok () ∧ I ((tokens.filterMap fun token => (grantOf position device token).toOption).foldl add t) os' ∨
      (∃ error, r = .error error) ∧ ∃ token ∈ tokens, ∃ error, grantOf position device token = .error error)
      start os := by
  induction tokens generalizing start os t with
  | nil => exact Or.inl ⟨rfl, h⟩
  | cons token rest ih =>
    rw [forEach, wp_bind, wp_grant]
    split
    next grant hgrant =>
      refine wp_imp (ih (hadd grant h)) fun _ r os' hr => ?_
      rcases hr with ⟨hr, h'⟩ | ⟨hr, other, hmem, hother⟩
      · refine Or.inl ⟨hr, ?_⟩
        rw [List.filterMap_cons, hgrant]
        exact h'
      · exact Or.inr ⟨hr, other, List.mem_cons_of_mem _ hmem, hother⟩
    next error hgrant => exact Or.inr ⟨⟨error, rfl⟩, token, List.mem_cons_self, error, hgrant⟩

/-- Wiring a device: all default scopes to all positions, unless one cannot be granted. -/
theorem wp_wire {positions scopes tokens : List Value} {device : String}
    (hadd : ∀ {t os} grant, I t os → I (add t grant) { os with authority := os.authority.addGrant grant })
    (hdefaults : defaults scopes = .ok tokens) (h : I t os) :
    wp c (wire positions device scopes) (fun _ r os' =>
      r = .ok () ∧ I ((wiring positions device tokens).foldl add t) os' ∨
      (∃ error, r = .error error) ∧ ∃ position ∈ positions, ∃ token ∈ tokens, ∃ error,
        grantOf position device token = .error error) start os := by
  rw [wire]
  induction positions generalizing start os t with
  | nil => exact Or.inl ⟨rfl, h⟩
  | cons position rest ih =>
    rw [forEach, hdefaults, ofExcept_ok_bind]
    refine wp_seq (wp_grants hadd h) (fun _ error _ hr => ?_) fun _ _ os' hr => ?_
    · obtain ⟨hr, -⟩ | ⟨hr, hfailed⟩ := hr
      · simp at hr
      · exact Or.inr ⟨⟨error, rfl⟩, position, List.mem_cons_self, hfailed⟩
    · obtain ⟨-, h'⟩ | ⟨⟨_, hr⟩, -⟩ := hr
      · refine wp_imp (hdefaults ▸ ih h') fun _ r os'' hr => ?_
        rcases hr with ⟨hr, h''⟩ | ⟨hr, other, hmem, hother⟩
        · refine Or.inl ⟨hr, ?_⟩
          rwa [wiring, List.flatMap_cons, List.foldl_append]
        · exact Or.inr ⟨hr, other, List.mem_cons_of_mem _ hmem, hother⟩
      · simp at hr

/-- Granting the maintenance scopes again. -/
theorem wp_regrant {identity : String} {a : Authority}
    (hadd : ∀ {t os} grant, I t os → I (add t grant) { os with authority := os.authority.addGrant grant })
    (h : I t os) :
    wp c (regrant identity (a.deviceGrants (.str identity))) (fun _ r os' =>
      r = .ok () ∧ I ((maintenanceGrants identity a.grants).foldl add t) os') start os := by
  simp only [regrant, Authority.deviceGrants]
  generalize a.grants = grants
  induction grants generalizing start os t with
  | nil => exact ⟨rfl, h⟩
  | cons grant rest ih =>
    by_cases hdevice : grant.device = .str identity
    · have hmember : Value.hasKey (.str identity) grant.device = true := by simp [hdevice]
      rw [List.filter_cons, if_pos hmember, List.map_cons, forEach]
      have htoken : Value.item (.dict [("position", grant.position.toValue), ("token", grant.token.toValue)])
          "token" = .ok grant.token.toValue := rfl
      have hposition : Value.item
          (.dict [("position", grant.position.toValue), ("token", grant.token.toValue)]) "position" =
            .ok grant.position.toValue := rfl
      rw [htoken, hposition, ofExcept_ok_bind, ofExcept_ok_bind, wp_bind]
      split
      next hmaintain =>
        rw [wp_grant, grantOf_toValue hdevice]
        have hkept : maintenanceGrants identity (grant :: rest) =
            grant :: maintenanceGrants identity rest := by
          refine List.filter_cons_of_pos (decide_eq_true ⟨hdevice, ?_⟩)
          simpa [Value.isStr_iff, Authority.toValue_eq_str] using hmaintain
        rw [hkept]
        exact ih (hadd grant h)
      next hother =>
        have hdropped : maintenanceGrants identity (grant :: rest) = maintenanceGrants identity rest := by
          refine List.filter_cons_of_neg fun hkept => hother ?_
          simpa [Value.isStr_iff, Authority.toValue_eq_str] using (of_decide_eq_true hkept).2
        rw [hdropped]
        exact ih h
    · have hother : ¬ Value.hasKey (.str identity) grant.device = true := by simpa using hdevice
      have hdropped : maintenanceGrants identity (grant :: rest) = maintenanceGrants identity rest :=
        List.filter_cons_of_neg fun hkept => hdevice (of_decide_eq_true hkept).1
      rw [List.filter_cons, if_neg hother, hdropped]
      exact ih h

end Granting

/-- One more grant. -/
theorem Course.addGrant (h : Course commands M T os) (hM : Lasting commands M) (grant : Grant) :
    Course commands M (T.grantAll [grant]) { os with authority := os.authority.addGrant grant } :=
  h.setAuthority hM rfl (h.authority.addGrant grant)

/-- Grants are added one after the other. -/
theorem Tables.grantAll_eq (T : Tables) (grants : List Grant) :
    grants.foldl (fun T grant => T.grantAll [grant]) T = T.grantAll grants := by
  induction grants generalizing T with
  | nil => rfl
  | cons grant rest ih => exact ih (T.grantAll [grant])

/-- Wiring a device follows the tables. -/
theorem course_wire (hM : Lasting commands M) {positions scopes tokens : List Value} {device : String}
    (hdefaults : defaults scopes = .ok tokens) (h : Course commands M T os) :
    wp c (wire positions device scopes) (fun _ r os' =>
      r = .ok () ∧ Course commands M (T.grantAll (wiring positions device tokens)) os' ∨
      (∃ error, r = .error error) ∧ ∃ position ∈ positions, ∃ token ∈ tokens, ∃ error,
        grantOf position device token = .error error) start os := by
  rw [← Tables.grantAll_eq]
  exact wp_wire (fun grant h => h.addGrant hM grant) hdefaults h

/-- So does granting the maintenance scopes again. -/
theorem course_regrant (hM : Lasting commands M) {identity : String} {a : Authority}
    (h : Course commands M T os) :
    wp c (regrant identity (a.deviceGrants (.str identity))) (fun _ r os' =>
      r = .ok () ∧ Course commands M (T.grantAll (maintenanceGrants identity a.grants)) os') start os := by
  rw [← Tables.grantAll_eq]
  exact wp_regrant (fun grant h => h.addGrant hM grant) h

end Steps

section Injections

variable {M : AgentOS → Prop} {T : Tables} {start : AgentOS} {c : Contract AgentOS}

/-- Injecting into an agent. -/
theorem course_inject (hM : Lasting commands M) {agent : Value} (h : Course commands M T os) :
    wp c (inject agent) (fun _ r os' =>
      os'.authority.identities = os.authority.identities ∧ os'.authority.grants = os.authority.grants ∧
      (∃ injected, Course commands (fun _ => True) (T.inject injected) os') ∧
      (r = .ok () → M os' ∧ ∃ key new, agent.key = .ok key ∧ os.authority.view agent = .ok new ∧
        os'.authority.injected = assign key new os.authority.injected)) start os := by
  rw [inject, wp_bind, wp_askAuthority, Authority.respond_inject, Authority.buildInject_eq]
  cases hview : os.authority.view agent with
  | error error =>
    have hsame : Authority.Agree commands os.authority (T.inject os.authority.injected).authority :=
      ⟨h.authority.identities, h.authority.grants, fun _ => rfl⟩
    exact ⟨rfl, rfl, ⟨os.authority.injected, h.wired, h.filed, hsame, h.entities, h.agentIds, trivial⟩,
      absurd_error⟩
  | ok new =>
    obtain ⟨key, -, -, hkey, -⟩ := Authority.view_eq hview
    simp only [ok_bind, hkey]
    let told := { os.authority with injected := assign key new os.authority.injected }
    have hwired := wired_setAuthority h.wired told
    have hfiled : Filed (Unasked commands) { os with authority := told } := h.filed.of_dispatchers rfl
    have hspoken : Spoken agent (injectPayload (os.authority.snapshot key) new) :=
      ⟨Value.hashable_of_key hkey, Or.inr ⟨"inject", by decide, rfl⟩⟩
    refine wp_kernelEmit hwired fun r os' emitted => ?_
    have hauthority : os'.authority = told := emitted.aside.authority
    have hagree : Authority.Agree commands os'.authority (T.inject told.injected).authority := by
      rw [hauthority]
      exact ⟨h.authority.identities, h.authority.grants, fun _ => rfl⟩
    refine ⟨by rw [hauthority], by rw [hauthority], ⟨told.injected, emitted.still.wired hwired,
      hfiled.emitted hwired says_unasked (Or.inr (Or.inl rfl)) hspoken emitted, hagree,
      emitted.still.entities.trans h.entities, emitted.still.agentIds.trans h.agentIds, trivial⟩, ?_⟩
    rintro rfl
    exact ⟨hM.injected h.wired h.extra hkey hview emitted, key, new, rfl, rfl, by rw [hauthority]⟩

/-- Injecting into all agents: if nothing is raised, each of them has been shown what it may
see, like those that were shown before. -/
theorem course_injectAll (hM : Lasting commands M) {all told : List Value} (h : Course commands M T os)
    (htold : ∀ agent ∈ told, os.authority.Shown agent) :
    wp c (forEach all inject) (fun _ r os' =>
      (∃ injected, Course commands (fun _ => True) (T.inject injected) os') ∧
      (r = .ok () → M os' ∧ ∀ agent ∈ told ++ all, os'.authority.Shown agent)) start os := by
  induction all generalizing start os T told with
  | nil =>
    have hsame : Authority.Agree commands os.authority (T.inject os.authority.injected).authority :=
      ⟨h.authority.identities, h.authority.grants, fun _ => rfl⟩
    exact ⟨⟨os.authority.injected, h.wired, h.filed, hsame, h.entities, h.agentIds, trivial⟩,
      fun _ => ⟨h.extra, by simpa using htold⟩⟩
  | cons agent rest ih =>
    rw [forEach]
    refine wp_seq (course_inject hM h) (fun _ error os' hr => ⟨hr.2.2.1, absurd_error⟩) fun _ _ os' hr => ?_
    obtain ⟨hidentities, hgrants, ⟨injected, h'⟩, hok⟩ := hr
    obtain ⟨hextra, key, new, hkey, hview, hinjected⟩ := hok rfl
    have hshown : ∀ other ∈ told ++ [agent], os'.authority.Shown other := by
      intro other hmem
      rcases List.mem_append.mp hmem with hmem | hmem
      · exact (htold other hmem).inject hidentities hgrants hkey hview hinjected
      · obtain rfl := List.mem_singleton.mp hmem
        refine ⟨key, new, hkey, by rw [Authority.view_congr hidentities hgrants, hview], ?_⟩
        rw [hinjected, lookup_assign, if_pos rfl]
    have hnext : Course commands M (T.inject injected) os' :=
      ⟨h'.wired, h'.filed, h'.authority, h'.entities, h'.agentIds, hextra⟩
    refine wp_imp (ih hnext hshown) fun _ r os'' hr => ⟨?_, fun hr' => ?_⟩
    · obtain ⟨more, h''⟩ := hr.1
      exact ⟨more, h''⟩
    · simpa using hr.2 hr'

end Injections

end AgentOS

end MyTeam.Kernel
