import MyTeam.Kernel.Effects

/-!
# The atomicity of kernel commands

A handler makes its checks, and then changes the tables, the processes and the agents'
memories one after the other. Whatever is raised on the way becomes a negative
acknowledgement, and what was done before stays done. A command that fails its checks has
done nothing. Hence a command is atomic if nothing is raised after its checks. What can be
raised there is known before: the process that is to be started may not take its options, an
agent may have to be shown what cannot be shown, or the record of the command or of an
injection cannot be written.
-/

namespace MyTeam.Kernel

open MyTeam.Py MyTeam.Async MyTeam.Dispatch MyTeam.Agent Coroutine Relation

namespace Authority

/-- Every name that was injected has a text. -/
def Nameable (a : Authority) : Prop := ∀ told ∈ a.injected, ∀ item ∈ told.2, item.1.toValue.printable = true

/-- A name has a text once an entry could be made for it. -/
theorem printable_toolItem {device : Key} {tool : Value} {item : Key × Value}
    (h : toolItem device tool = .ok item) : item.1.toValue.printable = true := by
  obtain ⟨made, hmade, h⟩ := bind_eq_ok.mp h
  obtain ⟨name, hname, h⟩ := bind_eq_ok.mp h
  obtain ⟨key, hkey, h⟩ := bind_eq_ok.mp h
  obtain rfl := Except.ok.inj h
  obtain ⟨name', hname', hmade⟩ := bind_eq_ok.mp hmade
  obtain rfl : name' = name := Except.ok.inj (hname'.symm.trans hname)
  obtain ⟨description, -, hmade⟩ := bind_eq_ok.mp hmade
  obtain ⟨parameters, -, hmade⟩ := bind_eq_ok.mp hmade
  obtain ⟨trigger, -, hmade⟩ := bind_eq_ok.mp hmade
  obtain ⟨triggers, -, hmade⟩ := bind_eq_ok.mp hmade
  obtain ⟨priority, -, hmade⟩ := bind_eq_ok.mp hmade
  obtain ⟨_, -, hmade⟩ := bind_eq_ok.mp hmade
  obtain ⟨text, htext, -⟩ := bind_eq_ok.mp hmade
  refine Key.printable_toValue ?_ hkey
  unfold Value.format at htext
  split at htext
  next hprintable => exact hprintable
  · cases htext

/-- The names of a view have texts. -/
theorem printable_view {a : Authority} {agent : Value} {new : Entries} (h : a.view agent = .ok new) :
    ∀ item ∈ new, item.1.toValue.printable = true := by
  obtain ⟨key, info, position, -, -, -, rfl⟩ := view_eq h
  intro item hitem
  rcases mem_items_update hitem with hitem | hitem
  · cases hitem
  rcases List.mem_append.mp hitem with hitem | hitem
  · obtain ⟨registered, -, hitem⟩ := List.mem_flatMap.mp hitem
    obtain ⟨tool, -, hitem⟩ := List.mem_filterMap.mp hitem
    exact printable_toolItem (eq_ok_of_toOption hitem)
  · obtain ⟨device, -, hitem⟩ := List.mem_flatMap.mp hitem
    split at hitem
    next info _ =>
      split at hitem
      · cases hitem
      · obtain ⟨scope, -, hitem⟩ := List.mem_filterMap.mp hitem
        split at hitem
        · obtain ⟨token, -, hmade⟩ := bind_eq_ok.mp (eq_ok_of_toOption hitem)
          obtain ⟨name, -, hmade⟩ := bind_eq_ok.mp hmade
          obtain ⟨made, -, hmade⟩ := bind_eq_ok.mp hmade
          obtain rfl := Except.ok.inj hmade
          rfl
        · cases hitem
    next => cases hitem

namespace Nameable

variable {a a' : Authority}

/-- An injection leaves names that have texts. -/
theorem inject {agent reply : Value} (h : a.Nameable) (built : a.buildInject agent = .ok (a', reply)) :
    a'.Nameable := by
  rw [buildInject_eq] at built
  obtain ⟨new, hview, built⟩ := bind_eq_ok.mp built
  obtain ⟨key, -, built⟩ := bind_eq_ok.mp built
  obtain ⟨rfl, -⟩ := Prod.mk.inj (Except.ok.inj built)
  intro told htold
  rcases mem_items_assign htold with rfl | hold
  · exact printable_view hview
  · exact h told hold

/-- So does any answer. -/
theorem respond {event reply : Value} (h : a.Nameable) (hrespond : a.respond event = .ok (a', reply)) :
    a'.Nameable := by
  rcases injects_of_respond hrespond with ⟨hsame, -⟩ | ⟨-, agent, built⟩
  · rw [Nameable, hsame]
    exact h
  · exact h.inject built

/-- The names that an agent was shown before have texts. -/
theorem snapshot (h : a.Nameable) (agent : Key) : ∀ item ∈ a.snapshot agent, item.1.toValue.printable = true := by
  intro item hitem
  unfold Authority.snapshot at hitem
  cases hlookup : a.injected.lookup agent with
  | none => simp [hlookup] at hitem
  | some entries =>
    simp only [hlookup, Option.getD_some] at hitem
    exact h _ (mem_of_lookup hlookup) item hitem

end Nameable

end Authority

namespace AgentOS

/-- The tables, the registry and the set of live processes are the same. -/
structure Unchanged (entry os : AgentOS) : Prop where
  identities : os.authority.identities = entry.authority.identities
  grants : os.authority.grants = entry.authority.grants
  entities : os.entities = entry.entities
  live : ∀ pid, (os.procs pid).alive = (entry.procs pid).alive

variable {entry os os' : AgentOS}

section Names

/-- Acts leave names that have texts. -/
theorem nameable_act {w : Warrant} (h : os.authority.Nameable) (ha : Act w os os') : os'.authority.Nameable := by
  cases ha with
  | route warrant processed => exact processed.aside.authority ▸ h
  | emit known spoken emitted => exact emitted.aside.authority ▸ h
  | injected built => exact h.inject built
  | _ => exact h

/-- So does the answer of a device. -/
theorem nameable_respondAs (h : os.authority.Nameable) (device : Device) (event : Value) :
    (os.respondAs device event).1.authority.Nameable := by
  cases device with
  | authority =>
    simp only [respondAs]
    split
    next authority reply hrespond => exact h.respond hrespond
    · exact h
  | journal =>
    simp only [respondAs]
    split <;> exact h

/-- So does everything that happens beside the event loop. -/
theorem nameable_background (hw : os.Wired) (h : os.authority.Nameable) (hb : Background os os') :
    os'.authority.Nameable := by
  cases hb with
  | @round device i after serves =>
    cases rounds_of_round hw serves with
    | silent queued queues => exact nameable_respondAs h device _
    | emitting queued queues spoken emitted ends =>
      have hanswered := nameable_respondAs h device
      have hsame := emitted.aside.authority
      exact Eq.mpr (congrArg Authority.Nameable hsame) (hanswered _)
  | _ => exact h

/-- In every state of a run the injected names have texts. -/
theorem Reachable.nameable {config : Value} {l : LoopState AgentOS (Producer × Value) Exc}
    (h : Reachable config .free l) (hidle : l.control = .idle) : l.state.authority.Nameable := by
  have hboot {os : AgentOS} (hb : Boots config os) : os.authority.Nameable :=
    hb.invariant (fun _ _ _ _ told htold => by simp [AgentOS.new, Authority.new] at htold) fun _ h ha =>
      nameable_act h ha
  have hthroughout : Throughout (fun os => os.authority.Nameable) (fun _ _ os => os.authority.Nameable) l :=
    h.stepwise (fun _ => hboot) (fun hw h hb => nameable_background hw h hb) (fun _ _ h _ _ => h)
      (fun _ h ha => nameable_act h ha) (fun hw h hb => nameable_background hw h hb) fun _ _ h => h
  simp only [Throughout, hidle] at hthroughout
  exact hthroughout.2.2

end Names

/-- A command is being served. The kernel has said nothing in its own name yet, and still knows whom it
knew. -/
structure Ongoing (entry os : AgentOS) : Prop where
  wired : os.Wired
  silent : Silent entry os
  nameable : os.authority.Nameable
  limits : os.journal.limits = entry.journal.limits
  agentIds : os.agentIds = entry.agentIds
  attended : entry.isKernelMode (.str "authority") = true → os.isKernelMode (.str "authority") = true

namespace Ongoing

/-- What is known of the agents has not changed. -/
theorem of_eq (h : Ongoing entry os) (wired : os'.Wired) (handled : os'.handled = os.handled)
    (injected : os'.authority.injected = os.authority.injected) (limits : os'.journal = os.journal)
    (agentIds : os'.agentIds = os.agentIds) (entities : os'.entities = os.entities) : Ongoing entry os' := by
  refine ⟨wired, h.silent.of_eq handled, ?_, limits ▸ h.limits, agentIds.trans h.agentIds, fun hmode => ?_⟩
  · rw [Authority.Nameable, injected]
    exact h.nameable
  · have hsame : os'.isKernelMode (.str "authority") = os.isKernelMode (.str "authority") := by
      simp only [isKernelMode, entityAt, entities]
    exact hsame.trans (h.attended hmode)

/-- The Authority's tables have changed. -/
theorem setAuthority {authority : Authority} (h : Ongoing entry os) (hnameable : authority.Nameable) :
    Ongoing entry { os with authority } :=
  ⟨wired_setAuthority h.wired authority, h.silent, hnameable, h.limits, h.agentIds, h.attended⟩

/-- The agents that could be told at the start can be told. -/
theorem plain (h : Ongoing entry os) {agent : Value} (hplain : entry.Plain "authority" agent) :
    os.Plain "authority" agent := by
  rcases hplain with hkernel | hmode | hagent
  · simp at hkernel
  · exact Or.inr (Or.inl (h.attended hmode))
  · exact Or.inr (Or.inr (h.agentIds ▸ hagent))

/-- An event that the kernel emits for one of its devices. -/
theorem emitted {source : String} {event : Value} {r : Except Exc Unit} (h : Ongoing entry os)
    (hsource : source ≠ "kernel") (he : Emitted source event os r os') : Ongoing entry os' := by
  refine ⟨he.still.wired h.wired, h.silent.append he.handled fun said hsaid => ?_, he.aside.authority ▸ h.nameable,
    he.extends.limits.trans h.limits, he.still.agentIds.trans h.agentIds, fun hmode => ?_⟩
  · obtain rfl := List.mem_singleton.mp hsaid
    simpa [handling] using hsource
  · have hattended := h.attended hmode
    simpa only [isKernelMode, entityAt, he.still.entities] using hattended

/-- A step beside the event loop. -/
theorem background (h : Ongoing entry os) (hb : Background os os') : Ongoing entry os' := by
  have hcalm := hb.calm h.wired
  refine ⟨hcalm.wired h.wired, h.silent.background h.wired hb, nameable_background h.wired h.nameable hb,
    (hb.extends h.wired).limits.trans h.limits, hcalm.agentIds.trans h.agentIds, fun hmode => ?_⟩
  have hattended := h.attended hmode
  simpa only [isKernelMode, entityAt, hcalm.entities] using hattended

end Ongoing

/-- A command is under way: the Authority's tables stand where it has brought them. -/
structure Underway (entry : AgentOS) (T : Tables) (os : AgentOS) : Prop extends Ongoing entry os where
  identities : os.authority.identities = T.authority.identities
  grants : os.authority.grants = T.authority.grants

/-- One more grant. -/
theorem Underway.addGrant {T : Tables} (h : Underway entry T os) (grant : Grant) :
    Underway entry (T.grantAll [grant]) { os with authority := os.authority.addGrant grant } :=
  ⟨h.toOngoing.setAuthority h.nameable, h.identities, by
    change os.authority.grants.insert grant = T.authority.grants.insert grant
    rw [h.grants]⟩

section Bodies

variable {start : AgentOS} {T : Tables} {c : Contract AgentOS}

/-- The Authority drops an identity. -/
theorem Underway.withdraw (h : Underway entry T os) (identity : String) :
    Underway entry (T.withdraw identity) { os with authority := os.authority.withdraw identity } := by
  refine ⟨h.toOngoing.setAuthority h.nameable, ?_, ?_⟩
  · simp only [Authority.withdraw, Tables.withdraw, Tables.setAuthority, h.identities]
  · simp only [Authority.withdraw, Tables.withdraw, Tables.setAuthority, h.grants]

/-- How the body of a handler ends: it returns, or it has changed nothing and raises something
that the handler catches. -/
structure Concluded (entry : AgentOS) (r : Except Exc Unit) (os : AgentOS) : Prop where
  wired : os.Wired
  silent : Silent entry os
  limits : os.journal.limits = entry.journal.limits
  outcome : r = .ok () ∨ (∃ error, r = .error error ∧ error.caught = true) ∧ Unchanged entry os

/-- A body that returns. -/
theorem Ongoing.concluded {r : Except Exc Unit} (h : Ongoing entry os) (hr : r = .ok ()) :
    Concluded entry r os :=
  ⟨h.wired, h.silent, h.limits, Or.inl hr⟩

variable {producer : Producer} {event : Value}

end Bodies

section Handlers

variable {start : AgentOS} {producer : Producer} {event payload : Value}

/-- Emitting changes neither the tables nor the registry, and nobody dies. -/
theorem Unchanged.emitted {source : String} {said : Value} {r : Except Exc Unit} (h : Unchanged entry os)
    (he : Emitted source said os r os') : Unchanged entry os' := by
  refine ⟨?_, ?_, he.still.entities.trans h.entities, fun pid => ?_⟩
  · rw [he.aside.authority, h.identities]
  · rw [he.aside.authority, h.grants]
  · rw [he.still.same pid]
    exact h.live pid

end Handlers

section Scenario

end Scenario

end AgentOS

end MyTeam.Kernel
