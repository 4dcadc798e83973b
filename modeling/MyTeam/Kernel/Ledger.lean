import MyTeam.Kernel.Effects
import MyTeam.Kernel.Instances

/-!
# The tables over a run

Two rules for properties of the tables between two events. `setup` registers the agents of the
configuration and installs its devices; each of these steps has to keep the property. After
that only commands change the tables, in the ways that `Effect` lists.
-/

namespace MyTeam.Kernel

open MyTeam.Py MyTeam.Async MyTeam.Dispatch MyTeam.Agent Coroutine Relation

namespace AgentOS

variable {commands : List String} {M : AgentOS → Prop} {os os' start : AgentOS}

/-- The tables are as they are. -/
theorem Course.settle {T : Tables} (h : Course commands M T os) : Course commands M os.tables os :=
  ⟨h.wired, h.filed, .refl _, rfl, rfl, h.extra⟩

section Setup

variable {config : Value} {A D : AgentOS → Prop} {c : Contract AgentOS}

/-- The agents of the configuration have been registered so far. -/
structure Hiring (commands : List String) (M A : AgentOS → Prop) (os : AgentOS) : Prop where
  course : Course commands M os.tables os
  fresh : os.authority.injected = []
  holds : A os

/-- A step of `setup` for an agent keeps a property. -/
def HiresInto (commands : List String) (M : AgentOS → Prop) (config : Value) (A : AgentOS → Prop) : Prop :=
  ∀ {os os' : AgentOS} {name : String} {position : Value} {handle : ℕ},
    name ∈ declaredNames config "agents" → position.truthy = true → A os →
    os'.authority.injected = os.authority.injected →
    Course commands M ((os.tables.enroll name (registration .none .none true position)).enter name handle true)
      os' → A os'

/-- A step of `setup` for a device keeps a property. -/
def InstallsInto (commands : List String) (M : AgentOS → Prop) (config : Value) (D : AgentOS → Prop) : Prop :=
  ∀ {os os' : AgentOS} {name : String} {tools scopes : List Value} {handle : ℕ} {grants : List Grant}
    {injected : List (Key × Entries)}, name ∈ declaredNames config "devices" → D os →
    Course commands M (os.tables.install name tools scopes handle grants injected) os' →
    (∀ agent ∈ os'.authority.agents, os'.authority.Shown agent) → D os'

/-- An entry of a list of the configuration declares a name. -/
theorem mem_declaredNames {key : String} {specs identity : Value} {list : List Value} {spec : Value} {name : String}
    (hspecs : config.get key (.list []) = .ok specs) (hlist : specs.iter = .ok list) (hmem : spec ∈ list)
    (hitem : spec.item "identity" = .ok identity) (hname : identityName identity = .ok name) :
    name ∈ declaredNames config key := by
  have hspec : specName spec = some name := by
    rw [specName, Value.field_of_item hitem]
    cases identity with
    | str s => rw [Except.ok.inj hname]
    | _ => simp [identityName] at hname
  rw [declaredNames, hspecs]
  simp only [hlist]
  exact List.mem_filterMap.mpr ⟨spec, hmem, hspec⟩

/-- Registering an agent of the configuration. -/
theorem hiring_setupAgent (hM : Lasting commands M) (hagent : HiresInto commands M config A) {spec : Value}
    (hnames : ∀ identity name, spec.item "identity" = .ok identity → identityName identity = .ok name →
      name ∈ declaredNames config "agents") (h : Hiring commands M A os) :
    wp c (setupAgent spec) (fun _ r os' => r = .ok () → Hiring commands M A os') start os := by
  refine wp_ofExcept_bind (fun _ _ => absurd_error) fun identity hitem => ?_
  refine wp_ofExcept_bind (fun _ _ => absurd_error) fun type _ => ?_
  split
  · exact absurd_error
  refine wp_ofExcept_bind (fun _ _ => absurd_error) fun options _ => ?_
  refine wp_ofExcept_bind (fun _ _ => absurd_error) fun position _ => ?_
  refine wp_ofExcept_bind (fun _ _ => absurd_error) fun name hname => ?_
  rw [wp_bind]
  by_cases hposition : position.truthy = true
  · refine wp_register (fun _ _ _ => absurd_error) (fun _ _ _ => absurd_error) fun spec' legal call => ?_
    have hspawned := (h.course.enroll hM name (registration .none .none true position)).spawned true hM
      (fun options _ => by
        change List.lookup _ os.authority.injected = none
        simp [h.fresh]) call rfl
    have hcourse := hspawned.makeHome hM name
    exact fun _ => ⟨hcourse.settle, h.fresh, hagent (hnames _ _ hitem hname) hposition h.holds rfl hcourse⟩
  · rw [register, if_pos ⟨rfl, by simpa using hposition⟩]
    exact absurd_error

/-- Installing a device of the configuration. -/
theorem course_installFromConfig (hM : Lasting commands M) (hdevice : InstallsInto commands M config D)
    {identity : String} {grants : Value} (hname : identity ∈ declaredNames config "devices")
    {before : AgentOS} (hbefore : D before) (htables : os.tables = before.tables)
    (h : Course commands M os.tables os) :
    wp c (installFromConfig identity grants) (fun _ r os' => r = .ok () → Course commands M os'.tables os' ∧ D os')
      start os := by
  rw [installFromConfig, wp_bind, wp_get]
  refine wp_ofExcept_bind (fun _ _ => absurd_error) fun declared hload => ?_
  obtain ⟨tools, scopes⟩ := declared
  obtain ⟨tokens, htokens⟩ := defaults_ok (scopes_of_loadModule hload)
  rw [wp_bind]
  refine wp_register (fun _ _ _ => absurd_error) (fun _ _ _ => absurd_error) fun spec _ call => ?_
  have hspawned := (h.enroll hM identity (registration (.list tools) (.list scopes) false .none)).spawned false hM
    (fun _ hagent => by simp at hagent) call rfl
  refine wp_ofExcept_bind (fun _ _ => absurd_error) fun positions _ => ?_
  refine wp_seq (course_wire hM htokens hspawned) (fun _ _ _ _ => absurd_error) fun _ _ os' hr => ?_
  obtain ⟨-, hwired⟩ | ⟨⟨_, hr⟩, -⟩ := hr
  · rw [wp_bind, wp_agents]
    have hnone : ∀ agent ∈ ([] : List Value), os'.authority.Shown agent := by simp
    refine wp_imp (course_injectAll hM hwired hnone) fun _ r os'' hr hok => ?_
    obtain ⟨⟨injected, hcourse⟩, hlasted⟩ := hr
    obtain ⟨hextra, hshown⟩ := hlasted hok
    have hfinal : Course commands M (os.tables.install identity tools scopes os.nextHandle
        (wiring positions identity tokens) injected) os'' :=
      ⟨hcourse.wired, hcourse.filed, hcourse.authority, hcourse.entities, hcourse.agentIds, hextra⟩
    have hagents : os''.authority.agents = os'.authority.agents := by
      rw [Authority.agents, Authority.agents, hcourse.authority.identities, hwired.authority.identities]
      rfl
    refine ⟨hfinal.settle, hdevice hname hbefore (htables ▸ hfinal) ?_⟩
    rw [hagents]
    exact hshown
  · simp at hr

/-- Installing a device of the configuration from a copy of its source. -/
theorem course_setupDevice (hM : Lasting commands M) (hdevice : InstallsInto commands M config D) {spec : Value}
    (hnames : ∀ identity name, spec.item "identity" = .ok identity → identityName identity = .ok name →
      name ∈ declaredNames config "devices") (h : Course commands M os.tables os ∧ D os) :
    wp c (setupDevice spec) (fun _ r os' => r = .ok () → Course commands M os'.tables os' ∧ D os') start os := by
  refine wp_ofExcept_bind (fun _ _ => absurd_error) fun identity hitem => ?_
  refine wp_ofExcept_bind (fun _ _ => absurd_error) fun source _ => ?_
  refine wp_ofExcept_bind (fun _ _ => absurd_error) fun source _ => ?_
  refine wp_ofExcept_bind (fun _ _ => absurd_error) fun name hname => ?_
  rw [wp_bind, wp_modify, wp_bind, copySource, wp_bind, wp_get]
  simp only
  split
  · exact absurd_error
  · simp only [wp_modify]
    refine wp_ofExcept_bind (fun _ _ => absurd_error) fun grants _ => ?_
    exact course_installFromConfig hM hdevice (hnames _ _ hitem hname) h.2 rfl
      ((h.1.makeHome hM name).setDisk hM _)

/-- The rule for `setup`: what holds of a fresh kernel and is kept for each agent and for each
device holds when runs begin. -/
theorem Boots.ledger (hM : Lasting commands M) (hnew : ∀ runtimeRoot disk clock limits,
      M (.new runtimeRoot disk clock limits) ∧ A (.new runtimeRoot disk clock limits))
    (hagent : HiresInto commands M config A) (hbetween : ∀ {os}, A os → D os)
    (hdevice : InstallsInto commands M config D) (h : Boots config os) :
    Course commands M os.tables os ∧ D os := by
  obtain ⟨runtimeRoot, disk, clock, limits, hsetup⟩ := h
  have hhiring : Hiring commands M A (.new runtimeRoot disk clock limits) :=
    ⟨⟨wired_new _ _ _ _, filed_new _ _ _ _, .refl _, rfl, rfl, (hnew _ _ _ _).1⟩, rfl, (hnew _ _ _ _).2⟩
  have hwp : wp meanwhile (setup config) (fun _ r os' => r = .ok () → Course commands M os'.tables os' ∧ D os')
      (.new runtimeRoot disk clock limits) (.new runtimeRoot disk clock limits) := by
    refine wp_ofExcept_bind (fun _ _ => absurd_error) fun agents hagents => ?_
    refine wp_ofExcept_bind (fun _ _ => absurd_error) fun agentSpecs hagentSpecs => ?_
    refine wp_seq (wp_forEach_ok hhiring fun spec hmem start os h => ?_) (fun _ _ _ _ => absurd_error)
      fun _ _ os' h' => ?_
    · exact hiring_setupAgent hM hagent
        (fun _ _ => mem_declaredNames hagents hagentSpecs hmem) h
    refine wp_ofExcept_bind (fun _ _ => absurd_error) fun devices hdevices => ?_
    refine wp_ofExcept_bind (fun _ _ => absurd_error) fun deviceSpecs hdeviceSpecs => ?_
    refine wp_forEach_ok ⟨(h' rfl).course, hbetween (h' rfl).holds⟩ fun spec hmem start os h => ?_
    exact course_setupDevice hM hdevice (fun _ _ => mem_declaredNames hdevices hdeviceSpecs hmem) h
  unfold wp at hwp
  rw [hsetup] at hwp
  exact hwp rfl

end Setup

section Runs

variable {config : Value} {take : AgentOS → Producer × Value → Prop} {I : AgentOS → Prop}
  {l : LoopState AgentOS (Producer × Value) Exc}

/-- The run keeps to itself: no event that is accepted commands the Authority in the kernel's
name. -/
def Unasking (commands : List String) (take : AgentOS → Producer × Value → Prop) : Prop :=
  ∀ entry item, take entry item → entry.validate item.2 = .accepted → ¬ Asks commands item.2

/-- What waits for the Authority after an event has been routed. -/
theorem filed_routed {producer : Producer} {event : Value} {r : Except Exc Unit}
    (hfiled : Filed (Unasked commands) os) (hw : os.Wired) (hp : Processed producer event os r os')
    (hevent : os.validate event = .accepted → ¬ Asks commands event) : Filed (Unasked commands) os' := by
  refine hfiled.processed hw hp fun device source valid accepted => ?_
  cases device with
  | authority => exact fun hmutates => hevent valid ⟨accepted.target_eq, hmutates⟩
  | journal => trivial

/-- What waits for the Authority after an event has been processed. -/
theorem Taken.filed {producer : Producer} {event : Value} {entry : AgentOS}
    (h : Taken commands M entry producer event (.ok ()) os) (hfiled : Filed (Unasked commands) entry)
    (hw : entry.Wired) (hevent : entry.validate event = .accepted → ¬ Asks commands event) :
    os.Wired ∧ Filed (Unasked commands) os := by
  cases h with
  | routed processed => exact ⟨processed.still.wired hw, filed_routed hfiled hw processed hevent⟩
  | ignored => exact ⟨wired_observe hw, hfiled.of_dispatchers rfl⟩
  | served valid accepted served =>
    obtain ⟨T, -, hcourse⟩ := served.tables
    exact ⟨hcourse.wired, hcourse.filed⟩

/-- The rule for runs: a property of the states between two events that is kept beside the event
loop, and by every event that is taken, holds in all of them. The extra property that a command
keeps while it is carried out may depend on the state in which it began. -/
theorem Reachable.ledger {M : AgentOS → AgentOS → Prop} (h : Reachable config (.taking take) l)
    (hidle : l.control = .idle) (hregistry : Authority.registryCommands ⊆ commands)
    (hunasking : Unasking commands take) (hM : ∀ entry, Lasting commands (M entry))
    (hboot : ∀ os, Boots config os → I os)
    (hbackground : ∀ {os os'}, os.Wired → Filed (Unasked commands) os → I os → Background os os' → I os')
    (hstart : ∀ {os}, I os → ∀ rest, M { os with eventBus := rest } { os with eventBus := rest })
    (hend : ∀ {os item rest os'}, os.Wired → Filed (Unasked commands) os → I os →
      os.eventBus = item :: rest → take { os with eventBus := rest } item →
      Taken commands (M { os with eventBus := rest }) { os with eventBus := rest } item.1 item.2 (.ok ()) os' →
      I os') : l.state.Wired ∧ Filed (Unasked commands) l.state ∧ I l.state := by
  let J (os : AgentOS) : Prop := os.Wired ∧ Filed (Unasked commands) os ∧ I os
  let Q (_ : AgentOS) (_ : Producer × Value) (_ : AgentOS) (r : Except Exc Unit) (os : AgentOS) : Prop :=
    r = .ok () → J os
  have hinit (os : AgentOS) (hb : Boots config os) : J os := by
    obtain ⟨_, _, _, _, hclear⟩ := clear_of_boots hb
    exact ⟨hclear.wired, hb.invariant filed_new fun hw h ha => h.setup hw says_unasked ha, hboot os hb⟩
  have hkept (os os' : AgentOS) (hJ : J os) (hb : Background os os') : J os' :=
    ⟨(hb.calm hJ.1).wired hJ.1, hJ.2.1.background hJ.1 says_unasked hb, hbackground hJ.1 hJ.2.1 hJ.2.2 hb⟩
  have hbody (os entry : AgentOS) (item : Producer × Value) (hJ : J os)
      (hnext : loop.next os = some (item, entry)) (hallowed : take entry item) :
      (loop.body item entry).Holds meanwhile (Q entry item) entry := by
    obtain ⟨rest, hbus, rfl⟩ := eventBus_of_next hnext
    obtain ⟨hw, hfiled, hI⟩ := hJ
    have hw' := hw.setEventBus rest
    have hfiled' : Filed (Unasked commands) { os with eventBus := rest } := hfiled.of_dispatchers rfl
    have hcourse : Course commands (M { os with eventBus := rest }) (tables { os with eventBus := rest })
        { os with eventBus := rest } := ⟨hw', hfiled', .refl _, rfl, rfl, hstart hI rest⟩
    have htaken : wp meanwhile (processEvent item.1 item.2) _ _ _ := taken_processEvent hregistry (hM _) hcourse
    refine Outcome.Holds.imp htaken fun start r os' h hr => ?_
    subst hr
    obtain ⟨hw'', hfiled''⟩ := h.filed hfiled' hw' (hunasking _ item hallowed)
    exact ⟨hw'', hfiled'', hend hw hfiled hI hbus hallowed h⟩
  have hwithin := EventLoop.Reachable.within h hinit hkept hbody (fun _ _ _ _ _ _ hr hb => hr.tail hb)
    (fun _ _ _ _ _ _ => .refl) fun _ _ _ _ hQ _ => hQ rfl
  unfold EventLoop.Within at hwithin
  simpa only [hidle] using hwithin

/-- Nothing that waits for the Authority between two events commands it in the kernel's name. -/
theorem Reachable.filed (h : Reachable config (.taking take) l) (hidle : l.control = .idle)
    (hregistry : Authority.registryCommands ⊆ commands) (hunasking : Unasking commands take) :
    Filed (Unasked commands) l.state :=
  (h.ledger (I := fun _ => True) (M := fun _ _ => True) hidle hregistry hunasking (fun _ => lasting_true)
    (fun _ _ => trivial) (fun _ _ _ _ => trivial) (fun _ _ => trivial) fun _ _ _ _ _ _ => trivial).2.1

end Runs

end AgentOS

end MyTeam.Kernel
