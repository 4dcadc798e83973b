import MyTeam.Kernel.Grants
import MyTeam.Kernel.Robustness

/-!
# Kernel commands and the kinds of events

The validator knows the commands of system events and sends four of them to the kernel only.
The kernel itself looks at the target and the command of an event, not at its kind: it serves
the same commands in application events, and one command, `maintenance_session`, that the
validator does not accept in a system event. So the tables change only by system events if
no application event with a command reaches the kernel.
-/

namespace MyTeam.Kernel

open MyTeam.Py MyTeam.Async MyTeam.Dispatch Coroutine Relation

namespace AgentOS

/-- The Authority's tables and the registry are the same. -/
structure SameTables (os os' : AgentOS) : Prop where
  identities : os'.authority.identities = os.authority.identities
  grants : os'.authority.grants = os.authority.grants
  entities : os'.entities = os.entities

/-- A system event with one of `KERNEL_COMMANDS`. -/
def Commands (event : Value) : Prop :=
  event.field "kind" = .str "system" ∧
    ∃ command, (event.field "payload").field "command" = .str command ∧ .str command ∈ kernelCommands

/-- While an event is processed the tables change only if it is a system event with a kernel
command; nothing that happens beside the event loop changes them. -/
def CommandsOnly (l : LoopState AgentOS (Producer × Value) Exc) : Prop :=
  (∀ os, Background l.state os → SameTables l.state os) ∧
  match l.control with
  | .idle => True
  | .handling entry item _ => SameTables entry l.state ∨ Commands item.2

/-- The event asks the Authority in the kernel's name to change its tables. -/
def Meddles (event : Value) : Prop :=
  event.field "target" = .str "authority" ∧ Authority.Mutates event tableCommands

/-- Of the events that are accepted, those that bring the kernel a command are system events,
and none meddles with the Authority. -/
def keepsProtocol (entry : AgentOS) (item : Producer × Value) : Prop :=
  entry.validate item.2 = .accepted →
    (item.2.field "target" = .str "kernel" → commandOf item.2 ≠ none →
      item.2.field "kind" = .str "system") ∧ ¬ Meddles item.2

variable {entry os os' : AgentOS} {producer : Producer} {event : Value} {config : Value}
  {rules : Rules AgentOS (Producer × Value)} {l l' : LoopState AgentOS (Producer × Value) Exc}

/-- Nothing that happens beside the event loop changes the tables. -/
theorem SameTables.background (hw : os.Wired) (hfiled : Filed Unmeddling os) (hb : Background os os') :
    SameTables os os' := by
  obtain ⟨hidentities, hgrants⟩ := tables_background hw hfiled hb
  exact ⟨hidentities, hgrants, (hb.calm hw).entities⟩

/-- A system event that brings the kernel a command brings a kernel command. -/
theorem commands_of_accepted {source : String} {command : Command}
    (accepted : Accepted os.registered event source "kernel") (hcommand : commandOf event = some command)
    (hkind : event.field "kind" = .str "system") : Commands event := by
  rcases accepted.kind with happlication | ⟨-, name, hname, hknown, -⟩
  · simp [hkind] at happlication
  · refine ⟨hkind, name, hname, ?_⟩
    rw [commandOf, hname] at hcommand
    simp only [systemCommands, kernelCommands, List.mem_cons, Key.str.injEq, List.not_mem_nil,
      or_false] at hknown ⊢
    rcases hknown with rfl | hknown
    · simp [Command.ofValue, Value.isStr] at hcommand
    · exact hknown

/-- Processing an event keeps the tables, unless it is a system event with a kernel command;
only then does the kernel wait on the way. -/
theorem wp_processEvent_tables (hw : entry.Wired) (hrule : keepsProtocol entry (producer, event)) :
    wp ⟨fun _ _ _ => True, fun _ _ => Commands event⟩ (processEvent producer event)
      (fun _ _ os' => SameTables entry os' ∨ Commands event) entry entry := by
  refine wp_processWith hw (fun r os' processed => ?_) fun source valid accepted => ?_
  · exact Or.inl ⟨by rw [processed.aside.authority], by rw [processed.aside.authority],
      processed.still.entities⟩
  have hobserved : SameTables entry (entry.observe producer event event) := ⟨rfl, rfl, rfl⟩
  simp only [onKernelWith, wp_bind, wp_ofExcept]
  cases hitem : event.item "payload" with
  | error error => exact Or.inl hobserved
  | ok payload =>
    simp only
    cases hget : payload.get "command" .none with
    | error error => exact Or.inl hobserved
    | ok value =>
      simp only
      split
      next command hcommand =>
        have hcarries : commandOf event = some command := by
          rw [commandOf, Value.field_of_item hitem, Value.field_of_get hget, hcommand]
        have hcommands := commands_of_accepted accepted hcarries
          ((hrule valid).1 accepted.target_eq (by simp [hcarries]))
        exact Outcome.Holds.of_forall (fun _ _ => hcommands) (fun _ _ _ => Or.inr hcommands) _ _
      · exact Or.inl hobserved

/-- Where the handler of an event is: it waits only if the event brings a kernel command. -/
def Commanded (l : LoopState AgentOS (Producer × Value) Exc) : Prop :=
  match l.control with
  | .idle => True
  | .handling _ item (.waiting _ _) => Commands item.2
  | .handling entry item _ => SameTables entry l.state ∨ Commands item.2

/-- Nothing that meddles waits for the Authority. -/
theorem Reachable.unmeddled (h : Reachable config (.taking keepsProtocol) l) :
    l.state.Wired ∧ Filed Unmeddling l.state := by
  let J (entry : AgentOS) (item : Producer × Value) (os : AgentOS) : Prop :=
    keepsProtocol entry item ∧ Filed Unmeddling os
  have hact {entry os os' : AgentOS} {item : Producer × Value} (hw : os.Wired) (hJ : J entry item os)
      (ha : Act (.item entry item.1 item.2) os os') : J entry item os' := by
    refine ⟨hJ.1, hJ.2.act hw says_unmeddling ha fun device source valid accepted => ?_⟩
    cases device with
    | authority => exact fun hmutates => (hJ.1 valid).2 ⟨accepted.target_eq, hmutates⟩
    | journal => trivial
  have hthroughout : Throughout (Filed Unmeddling) J l :=
    h.stepwise (fun os hb => hb.invariant filed_new fun hw h ha => h.setup hw says_unmeddling ha)
      (fun hw h hb => h.background hw says_unmeddling hb) (fun _ _ h _ htake => ⟨htake, h⟩) hact
      (fun hw hJ hb => ⟨hJ.1, hJ.2.background hw says_unmeddling hb⟩) fun _ _ hJ => hJ.2
  unfold Throughout at hthroughout
  split at hthroughout
  · exact ⟨hthroughout.1, hthroughout.2.2⟩
  · exact ⟨hthroughout.1, hthroughout.2.2⟩

/-- Handlers wait only for kernel commands. -/
theorem Reachable.commanded (h : Reachable config (.taking keepsProtocol) l) : Commanded l := by
  induction h with
  | init => trivial
  | step reached steps ih =>
    cases steps with
    | @take s entry item next allowed segment =>
      obtain ⟨rest, -, rfl⟩ := eventBus_of_next next
      have hw := (Reachable.unmeddled reached).1.setEventBus rest
      have htables : Outcome.Holds _ _ _ (loop.body item { s with eventBus := rest }) :=
        wp_processEvent_tables hw allowed
      cases hbody : loop.body item { s with eventBus := rest } with
      | returned value state => exact (hbody ▸ htables : _ ∨ _)
      | raised error state => exact (hbody ▸ htables : _ ∨ _)
      | waiting state ready resume => exact (hbody ▸ htables : _ ∧ _).1
    | @resume s entry item ready resume awaited segment =>
      have hcommands : Commands item.2 := ih
      cases hresume : resume s with
      | returned value state => exact Or.inr hcommands
      | raised error state => exact Or.inr hcommands
      | waiting state ready resume => exact hcommands
    | settle => trivial
    | idle acts => trivial
    | meanwhile acts => exact ih

/-- A registered name is not empty. -/
theorem Wired.ne_empty (hw : os.Wired) {identity : String} (h : os.registered identity = true) :
    identity ≠ "" := by
  obtain ⟨entity, hentity⟩ := Option.isSome_iff_exists.mp h
  cases entity with
  | kernel => simp [hw.kernel_only hentity]
  | kernelMode device =>
    rw [hw.kernelMode hentity]
    cases device <;> simp [Device.identity]
  | process handle =>
    obtain ⟨-, hidentity, pid, hprocess⟩ := hw.registered hentity
    obtain ⟨hlt, hhandle⟩ := hw.process hprocess
    obtain ⟨-, hspec, hne⟩ := hw.spec hlt
    rwa [hspec, hhandle, hidentity] at hne

/-- The commands that the kernel serves are the kernel commands, and one more. -/
theorem ofValue_eq_some {v : Value} {command : Command} (h : Command.ofValue v = some command) :
    ∃ name, v = .str name ∧
      (command = .maintenanceSession ∧ name = "maintenance_session" ∨
        command ≠ .maintenanceSession ∧ .str name ∈ kernelCommands) := by
  unfold Command.ofValue at h
  split at h
  next hv => exact ⟨_, Value.isStr_iff.mp hv, Or.inr ⟨by cases h; simp, by decide⟩⟩
  split at h
  next hv => exact ⟨_, Value.isStr_iff.mp hv, Or.inr ⟨by cases h; simp, by decide⟩⟩
  split at h
  next hv => exact ⟨_, Value.isStr_iff.mp hv, Or.inl ⟨by cases h; rfl, rfl⟩⟩
  split at h
  next hv => exact ⟨_, Value.isStr_iff.mp hv, Or.inr ⟨by cases h; simp, by decide⟩⟩
  split at h
  next hv => exact ⟨_, Value.isStr_iff.mp hv, Or.inr ⟨by cases h; simp, by decide⟩⟩
  · cases h

/-- The validator accepts a command in a system event to the kernel, unless it starts a
maintenance session. -/
theorem validate_system_iff (hw : os.Wired) {kvs : List (String × Value)} {source : String}
    {command : Command} (hsource : Value.field (.dict kvs) "source" = .str source)
    (hregistered : os.registered source = true)
    (htarget : Value.field (.dict kvs) "target" = .str "kernel")
    (hkind : Value.field (.dict kvs) "kind" = .str "system") (hcommand : commandOf (.dict kvs) = some command) :
    os.validate (.dict kvs) = .accepted ↔ command ≠ .maintenanceSession := by
  obtain ⟨name, hname, hserved⟩ := ofValue_eq_some hcommand
  constructor
  · rintro hvalid rfl
    obtain ⟨_, _, accepted⟩ := accepted_of_validateEvent hvalid
    obtain rfl : name = "maintenance_session" := by simpa using hserved
    rcases accepted.kind with happlication | ⟨-, command, hcommand, hknown, -⟩
    · simp [hkind] at happlication
    · obtain rfl := Value.str.inj (hname.symm.trans hcommand)
      exact absurd hknown (by decide)
  · intro hne
    have hkernel : .str name ∈ kernelCommands := by simpa [hne] using hserved
    have hkernelRegistered : os.registered "kernel" = true := by simp [registered, hw.kernel]
    have accepted : Accepted os.registered (.dict kvs) source "kernel" :=
      ⟨⟨kvs, rfl⟩, hsource, htarget, hregistered, hkernelRegistered,
        Or.inr ⟨hkind, name, hname, List.mem_cons_of_mem _ hkernel, fun _ => rfl⟩⟩
    exact accepted.validateEvent (hw.ne_empty hregistered) (by decide)

/-- In every run that keeps the protocol the tables change only by system events with kernel
commands; and in every run the validator accepts the commands that the kernel serves in system
events, except for `maintenance_session`. -/
theorem kernel_commands_system (config : Value) :
    (∀ l, Reachable config (.taking keepsProtocol) l → CommandsOnly l) ∧
    ∀ l kvs source command, Reachable config .free l → Value.field (.dict kvs) "source" = .str source →
      l.state.registered source = true → Value.field (.dict kvs) "target" = .str "kernel" →
      Value.field (.dict kvs) "kind" = .str "system" → commandOf (.dict kvs) = some command →
      (l.state.validate (.dict kvs) = .accepted ↔ command ≠ .maintenanceSession) := by
  refine ⟨fun l h => ?_, fun l kvs source command h hsource hregistered htarget hkind hcommand => ?_⟩
  · obtain ⟨hw, hfiled⟩ := h.unmeddled
    refine ⟨fun os hb => .background hw hfiled hb, ?_⟩
    have hcommanded := h.commanded
    unfold Commanded at hcommanded
    split
    · trivial
    next entry item progress hcontrol =>
      simp only [hcontrol] at hcommanded
      cases progress with
      | waiting ready resume => exact Or.inr hcommanded
      | returned => exact hcommanded
      | raised error => exact hcommanded
  · exact validate_system_iff h.wired hsource hregistered htarget hkind hcommand

/-- Registered processes have legal names. -/
def Legal (os : AgentOS) : Prop :=
  ∀ identity handle, os.entities identity = some (.process handle) → illegal identity = false

/-- Acts keep names legal. -/
theorem Legal.act {w : Warrant} (h : os.Legal) (ha : Act w os os') : os'.Legal := by
  intro name handle entity
  cases ha with
  | @spawn identity spawn spec agent legal call named allowed =>
    by_cases hname : name = identity
    · exact hname ▸ legal
    · exact h name handle (by simpa [hname] using entity)
  | @remove identity old entity' vacant allowed =>
    by_cases hname : name = identity
    · simp [AgentOS.remove, hname] at entity
    · exact h name handle (by simpa [AgentOS.remove, hname] using entity)
  | route warrant processed => exact h name handle (processed.still.entities ▸ entity)
  | emit known spoken emitted => exact h name handle (emitted.still.entities ▸ entity)
  | _ => exact h name handle entity

/-- Names are legal when runs begin. -/
theorem legal_of_boots {config : Value} (h : Boots config os) : os.Legal := by
  refine h.invariant (fun runtimeRoot disk clock limits identity handle entity => ?_) fun _ h ha => h.act ha
  simp only [AgentOS.new] at entity
  split at entity
  · simp at entity
  · split at entity
    · simp at entity
    · split at entity <;> simp at entity

/-- Between two events, names are legal. -/
theorem Reachable.legal {config : Value} {l : LoopState AgentOS (Producer × Value) Exc}
    (h : Reachable config .free l) (hidle : l.control = .idle) : l.state.Legal := by
  have hthroughout : Throughout Legal (fun _ _ => Legal) l := by
    refine h.stepwise (fun _ hb => legal_of_boots hb) (fun hw h hb => ?_) (fun _ _ h _ _ => h)
      (fun _ h ha => h.act ha) (fun hw h hb => ?_) fun _ _ h => h
    · exact fun name handle entity => h name handle ((hb.calm hw).entities ▸ entity)
    · exact fun name handle entity => h name handle ((hb.calm hw).entities ▸ entity)
  simp only [Throughout, hidle] at hthroughout
  exact hthroughout.2.2

section Scenario

/-- A command of the kernel, as process `r` sends it. -/
def commandBy (payload : List (String × Value)) : Value :=
  .dict [("target", .str "kernel"), ("kind", .str "system"), ("payload", .dict payload),
    ("source", .str "r")]

/-- One agent at `root`. -/
def overseerConfig : Value := .dict [("agents", .list [agentSpec "r" "root"])]

/-- The grant of a scope in a system event, or in an application event. -/
def grantAs (kind : String) : List (EventLoop.Move Ambient) :=
  sends 0 (.dict [("target", .str "kernel"), ("kind", .str kind),
    ("payload", .dict [("command", .str "grant_scope"), ("position", .str "dev"),
      ("device", .str "d"), ("token", .str "use")])]) ++ [.take]

/-- A request for a maintenance session in a system event. -/
def maintainAsSystem : Value :=
  commandBy [("command", .str "maintenance_session"), ("target_device", .str "d")]

/-- `r` grants a scope in a system event. -/
theorem kernel_commands_system_grant : ∃ l, scenario overseerConfig emptyDisk (grantAs "system") = some l ∧
    l.state.authority.grants ≠ [] ∧ CommandsOnly l := by
  have hplays : (scenario overseerConfig emptyDisk (grantAs "system")).any fun l =>
      l.state.authority.grants ≠ [] := by decide +kernel
  have htaken : (scenarioTaken overseerConfig emptyDisk (grantAs "system")).all fun taken =>
      (taken.2.2.field "kind").isStr "system" ∧ (taken.2.2.field "target").isStr "kernel" := by
    decide +kernel
  have hallowed : ∀ taken ∈ scenarioTaken overseerConfig emptyDisk (grantAs "system"),
      keepsProtocol taken.1 taken.2 := by
    intro taken hmem _
    obtain ⟨hkind, htarget⟩ := of_decide_eq_true (List.all_eq_true.mp htaken taken hmem)
    refine ⟨fun _ _ => Value.isStr_iff.mp hkind, fun hmeddles => ?_⟩
    rw [hmeddles.1] at htarget
    simp [Value.isStr] at htarget
  obtain ⟨l, hplayed, hgrants⟩ := (Option.any_eq_true _ _).mp hplays
  exact ⟨l, hplayed, of_decide_eq_true hgrants,
    (kernel_commands_system overseerConfig).1 l (reachable_of_scenario hplayed hallowed)⟩

/-- The same grant in an application event changes the tables; and a system event cannot ask
for the maintenance session that the kernel would serve. -/
theorem application_event_grants : (∃ l, Reachable overseerConfig .free l ∧ ¬ CommandsOnly l) ∧
    ∃ l, Reachable overseerConfig .free l ∧ l.state.registered "r" = true ∧
      commandOf maintainAsSystem = some .maintenanceSession ∧
      ∃ reason, l.state.validate maintainAsSystem = .rejected reason := by
  constructor
  · have hplays : (scenario overseerConfig emptyDisk (grantAs "application")).any fun l =>
        match l.control with
        | .idle => false
        | .handling entry item _ => decide (l.state.authority.grants ≠ entry.authority.grants) &&
          !(item.2.field "kind").isStr "system" := by decide +kernel
    obtain ⟨l, hplayed, hends⟩ := (Option.any_eq_true _ _).mp hplays
    refine ⟨l, reachable_free_of_scenario hplayed, fun honly => ?_⟩
    obtain ⟨state, control⟩ := l
    cases control with
    | idle => simp at hends
    | handling entry item progress =>
      simp only [Bool.and_eq_true, decide_eq_true_eq, Bool.not_eq_true'] at hends
      rcases honly.2 with hsame | hcommands
      · exact hends.1 hsame.grants
      · rw [hcommands.1] at hends
        simp [Value.isStr] at hends
  · have hboots : (boot overseerConfig emptyDisk).any fun os => os.registered "r" &&
        (os.validate maintainAsSystem).isRejected := by decide +kernel
    obtain ⟨os, hboot, hos⟩ := (Option.any_eq_true _ _).mp hboots
    obtain ⟨hregistered, hrejected⟩ := Bool.and_eq_true_iff.mp hos
    exact ⟨⟨os, .idle⟩, .init (boots_of_boot hboot), hregistered, by decide, Verdict.isRejected_iff.mp hrejected⟩

end Scenario

end AgentOS

end MyTeam.Kernel
