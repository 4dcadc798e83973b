import MyTeam.Kernel.Authentication

/-!
# The routing map and the organisation table

Which identities exist is written down twice: in the kernel's map of what it routes to, and in
the Authority's table. A command changes both, and between two events the two have the same
keys. They part when `setup` is given a name of the kernel's own or one name for an agent and a
device, when the process of a device cannot be made after the device has been registered, and
when a process called `system` commands the Authority.
-/

namespace MyTeam.Kernel

open MyTeam.Py MyTeam.Async MyTeam.Dispatch MyTeam.Agent Coroutine Relation

namespace Authority

variable {a : Authority} {identity : String} {key : Key} {info : Info}

/-- The identities that are registered. -/
def keys (a : Authority) : List Key := a.identities.map Prod.fst

/-- Registering adds an identity. -/
theorem mem_keys_enroll : key ∈ (a.enroll identity info).keys ↔ key = .str identity ∨ key ∈ a.keys :=
  mem_keys_assign

/-- Unregistering drops an identity. -/
theorem mem_keys_withdraw : key ∈ (a.withdraw identity).keys ↔ key ≠ .str identity ∧ key ∈ a.keys := by
  simp only [keys, withdraw, List.mem_map, List.mem_filter, decide_eq_true_eq]
  constructor
  · rintro ⟨entry, ⟨hmem, hne⟩, rfl⟩
    exact ⟨hne, entry, hmem, rfl⟩
  · rintro ⟨hne, entry, hmem, rfl⟩
    exact ⟨entry, ⟨hmem, hne⟩, rfl⟩

/-- What is dropped is recorded no longer. -/
theorem records_withdraw_self : (a.withdraw identity).records identity = false := by
  have hnone : (a.withdraw identity).identities.lookup (.str identity) = none :=
    lookup_eq_none_iff_keys.mpr fun hmem => (mem_keys_withdraw.mp hmem).1 rfl
  rw [records, hnone]

/-- Agents have a position, and nothing else has one. -/
def Seated (a : Authority) : Prop :=
  ∀ key info, a.identities.lookup key = some info →
    if info.agent then info.position.truthy = true else info.position = .none

namespace Seated

/-- Positions are part of the identities. -/
theorem of_eq {b : Authority} (h : a.Seated) (hidentities : b.identities = a.identities) : b.Seated := by
  intro key info hinfo
  exact h key info (hidentities ▸ hinfo)

/-- An identity is registered with a position if it is an agent. -/
theorem enroll (h : a.Seated) (hinfo : if info.agent then info.position.truthy = true else info.position = .none) :
    (a.enroll identity info).Seated := by
  intro key other hother
  rw [Authority.enroll, lookup_assign] at hother
  split at hother
  · exact Option.some.inj hother ▸ hinfo
  · exact h key other hother

/-- An identity is dropped. -/
theorem withdraw (h : a.Seated) : (a.withdraw identity).Seated := by
  intro key info hinfo
  have hlookup : (a.withdraw identity).identities.lookup key = if key ≠ .str identity then
      a.identities.lookup key else none := by
    refine (lookup_filter_key (p := fun key => decide (key ≠ Key.str identity))).trans ?_
    simp only [decide_eq_true_eq]
  rw [hlookup] at hinfo
  split at hinfo
  · exact h key info hinfo
  · simp at hinfo

/-- A position that is a string is not empty. -/
theorem ne_empty (h : a.Seated) {position : String} (hposition : a.positionOf (.str identity) = .ok (.str position)) :
    position ≠ "" := by
  rintro rfl
  simp only [positionOf, Value.key_str, ok_bind] at hposition
  replace hposition := Except.ok.inj hposition
  split at hposition
  next info hinfo =>
    have hseated := h _ info hinfo
    rw [hposition] at hseated
    simp [Value.truthy] at hseated
  · simp at hposition

end Seated

end Authority

namespace AgentOS

variable {entry os os' : AgentOS} {event : Value} {config : Value}

/-- The names of the kernel and its devices. -/
def Reserved (name : String) : Prop := name = "kernel" ∨ name = "authority" ∨ name = "journal"

/-- A change under another name leaves the kernel's names. -/
theorem update_reserved {entities : String → Option Entity} {identity name : String} (hother : ¬ Reserved identity)
    (entity : Option Entity) (hreserved : Reserved name) :
    Function.update entities identity entity name = entities name := by
  refine Function.update_of_ne ?_ _ _
  rintro rfl
  exact hother hreserved

/-- The kernel's own names stand for what was created at the start, and the other names are
those that are registered. -/
structure Tables.Keyed (T : Tables) : Prop where
  kernel : T.entities "kernel" = some .kernel
  authority : T.entities "authority" = some (.kernelMode .authority)
  journal : T.entities "journal" = some (.kernelMode .journal)
  keys : ∀ key, key ∈ T.authority.keys ↔
    ∃ name, key = .str name ∧ ¬ Reserved name ∧ (T.entities name).isSome = true

namespace Tables.Keyed

variable {T : Tables} {identity : String} {info : Info}

/-- The names depend on the identities and the map. -/
theorem of_eq {T' : Tables} (h : T.Keyed) (identities : T'.authority.identities = T.authority.identities)
    (entities : T'.entities = T.entities) : T'.Keyed where
  kernel := by rw [entities, h.kernel]
  authority := by rw [entities, h.authority]
  journal := by rw [entities, h.journal]
  keys key := by
    rw [Authority.keys, identities, entities]
    exact h.keys key

/-- Where nothing stands or a process, the name is not one of the kernel's. -/
theorem not_reserved (h : T.Keyed) (identity : String)
    (hfree : ∀ entity, T.entities identity = some entity → ∃ handle, entity = .process handle) :
    ¬ Reserved identity := by
  rintro (rfl | rfl | rfl)
  · obtain ⟨_, hsame⟩ := hfree _ h.kernel
    simp at hsame
  · obtain ⟨_, hsame⟩ := hfree _ h.authority
    simp at hsame
  · obtain ⟨_, hsame⟩ := hfree _ h.journal
    simp at hsame

/-- A name that is not the kernel's is given up in both tables. -/
theorem withdraw (h : T.Keyed) (hother : ¬ Reserved identity) : ((T.free identity).withdraw identity).Keyed where
  kernel := (update_reserved hother none (Or.inl rfl)).trans h.kernel
  authority := (update_reserved hother none (Or.inr (Or.inl rfl))).trans h.authority
  journal := (update_reserved hother none (Or.inr (Or.inr rfl))).trans h.journal
  keys key := by
    refine Authority.mem_keys_withdraw.trans ?_
    simp only [Tables.free, Tables.withdraw, Tables.setAuthority, h.keys key]
    constructor
    · rintro ⟨hne, name, rfl, hname, hsome⟩
      have hname' : name ≠ identity := fun heq => hne (by rw [heq])
      exact ⟨name, rfl, hname, by rwa [Function.update_of_ne hname']⟩
    · rintro ⟨name, rfl, hname, hsome⟩
      by_cases hsame : name = identity
      · simp [hsame] at hsome
      · rw [Function.update_of_ne hsame] at hsome
        exact ⟨by simpa using hsame, name, rfl, hname, hsome⟩

/-- A name that is not the kernel's is taken in both tables. -/
theorem register (h : T.Keyed) (hother : ¬ Reserved identity) (info : Info) (handle : ℕ) (agent : Bool) :
    ((T.enroll identity info).enter identity handle agent).Keyed where
  kernel := (update_reserved hother _ (Or.inl rfl)).trans h.kernel
  authority := (update_reserved hother _ (Or.inr (Or.inl rfl))).trans h.authority
  journal := (update_reserved hother _ (Or.inr (Or.inr rfl))).trans h.journal
  keys key := by
    refine Authority.mem_keys_enroll.trans ?_
    simp only [Tables.enter, Tables.enroll, Tables.setAuthority, h.keys key]
    constructor
    · rintro (rfl | ⟨name, rfl, hname, hsome⟩)
      · exact ⟨identity, rfl, hother, by simp⟩
      · refine ⟨name, rfl, hname, ?_⟩
        by_cases hsame : name = identity
        · simp [hsame]
        · rwa [Function.update_of_ne hsame]
    · rintro ⟨name, rfl, hname, hsome⟩
      by_cases hsame : name = identity
      · exact Or.inl (by rw [hsame])
      · rw [Function.update_of_ne hsame] at hsome
        exact Or.inr ⟨name, rfl, hname, hsome⟩

/-- A device is installed. -/
theorem install (h : T.Keyed) {tools scopes : List Value} {handle : ℕ} {grants : List Grant}
    {injected : List (Key × Entries)} (hother : ¬ Reserved identity) :
    (T.install identity tools scopes handle grants injected).Keyed :=
  (h.register hother _ handle false).of_eq (Authority.addGrants_identities _ _) rfl

end Tables.Keyed

/-- What is recorded as an agent is one of the kernel's agents. -/
def Tables.Listed (T : Tables) : Prop := ∀ name, T.authority.records name = true → name ∈ T.agentIds

namespace Tables.Listed

variable {T : Tables} {identity : String}

/-- The agents depend on the identities and the kernel's set. -/
theorem of_eq {T' : Tables} (h : T.Listed) (identities : T'.authority.identities = T.authority.identities)
    (agentIds : T'.agentIds = T.agentIds) : T'.Listed := by
  intro name hrecords
  rw [Authority.records_congr identities] at hrecords
  exact agentIds ▸ h name hrecords

/-- An identity is dropped. -/
theorem withdraw (h : T.Listed) : (T.withdraw identity).Listed := by
  intro name hrecords
  by_cases hname : name = identity
  · subst hname
    simp [Tables.withdraw, Tables.setAuthority, Authority.records_withdraw_self] at hrecords
  · exact h name ((Authority.records_withdraw hname).symm.trans hrecords)

/-- A device is no agent. -/
theorem enroll (h : T.Listed) (tools scopes position : Value) :
    (T.enroll identity (registration tools scopes false position)).Listed := by
  intro name hrecords
  have hrecords' := (Authority.records_enroll _).symm.trans hrecords
  split at hrecords'
  · simp [registration] at hrecords'
  · exact h name hrecords'

/-- An agent is registered. -/
theorem hire (h : T.Listed) (tools scopes position : Value) (handle : ℕ) :
    ((T.enroll identity (registration tools scopes true position)).enter identity handle true).Listed := by
  intro name hrecords
  have hrecords' := (Authority.records_enroll _).symm.trans hrecords
  refine List.mem_insert_iff.mpr ?_
  split at hrecords'
  next hname => exact Or.inl hname
  · exact Or.inr (h name hrecords')

end Tables.Listed

/-- Both tables know the same identities, and the same agents among them. -/
structure Tables.Agrees (T : Tables) : Prop extends T.Keyed where
  agents : ∀ name, name ∈ T.agentIds ↔ T.authority.records name = true

/-- The tables are in order: they agree, processes have legal names, and agents have positions. -/
structure Tables.Orderly (T : Tables) : Prop where
  keyed : T.Keyed
  recorded : T.Recorded
  listed : T.Listed
  seated : T.authority.Seated
  legal : ∀ name handle, T.entities name = some (.process handle) → illegal name = false

namespace Tables.Orderly

variable {T : Tables} {identity : String}

/-- What is in order agrees. -/
theorem agrees (h : T.Orderly) : T.Agrees :=
  { h.keyed with agents := fun name => ⟨h.recorded name, h.listed name⟩ }

/-- The order depends on the identities, the map and the kernel's set. -/
theorem of_eq {T' : Tables} (h : T.Orderly) (identities : T'.authority.identities = T.authority.identities)
    (entities : T'.entities = T.entities) (agentIds : T'.agentIds = T.agentIds) : T'.Orderly where
  keyed := h.keyed.of_eq identities entities
  recorded := h.recorded.of_eq identities agentIds
  listed := h.listed.of_eq identities agentIds
  seated := h.seated.of_eq identities
  legal := entities ▸ h.legal

/-- A device gives up its name. -/
theorem withdraw (h : T.Orderly) (hother : ¬ Reserved identity) (hdevice : identity ∉ T.agentIds) :
    ((T.free identity).withdraw identity).Orderly where
  keyed := h.keyed.withdraw hother
  recorded := Tables.Recorded.withdraw (T := T.free identity) h.recorded hdevice
  listed := Tables.Listed.withdraw (T := T.free identity) h.listed
  seated := h.seated.withdraw
  legal name handle entity := by
    by_cases hname : name = identity
    · simp [Tables.withdraw, Tables.setAuthority, Tables.free, hname] at entity
    · exact h.legal name handle ((Function.update_of_ne hname _ _).symm.trans entity)

/-- A running instance gives way to a new one. -/
theorem release (h : T.Orderly) (hother : ¬ Reserved identity) (hdevice : identity ∉ T.agentIds) :
    (T.release identity).Orderly := by
  unfold Tables.release
  split
  · exact h.withdraw hother hdevice
  · exact h

/-- The processes have legal names after one has been added. -/
theorem legal_enter (h : T.Orderly) (hlegal : illegal identity = false) {other : ℕ} (info : Info)
    (agent : Bool) (who : String) (handle : ℕ)
    (entity : ((T.enroll identity info).enter identity other agent).entities who = some (.process handle)) :
    illegal who = false := by
  by_cases hwho : who = identity
  · exact hwho ▸ hlegal
  · exact h.legal who handle ((Function.update_of_ne hwho _ _).symm.trans entity)

/-- A device is installed. -/
theorem install (h : T.Orderly) {tools scopes : List Value} {handle : ℕ} {grants : List Grant}
    {injected : List (Key × Entries)} (hother : ¬ Reserved identity) (hdevice : identity ∉ T.agentIds)
    (hlegal : illegal identity = false) : (T.install identity tools scopes handle grants injected).Orderly where
  keyed := h.keyed.install hother
  recorded := h.recorded.install hdevice
  listed := (h.listed.enroll _ _ _).of_eq (Authority.addGrants_identities _ _) rfl
  seated := (h.seated.enroll (by simp [registration])).of_eq (Authority.addGrants_identities _ _)
  legal := h.legal_enter hlegal _ false

/-- An agent is registered. -/
theorem hire (h : T.Orderly) {position : Value} (handle : ℕ) (hother : ¬ Reserved identity)
    (hposition : position.truthy = true) (hlegal : illegal identity = false) :
    ((T.enroll identity (registration .none .none true position)).enter identity handle true).Orderly where
  keyed := h.keyed.register hother _ handle true
  recorded := h.recorded.hire identity _ _ _ handle
  listed := h.listed.hire _ _ _ handle
  seated := h.seated.enroll (by simpa [registration] using hposition)
  legal := h.legal_enter hlegal _ true

end Tables.Orderly

/-- The process of a device that passes the checks of an installation can be made. -/
def fits (entry : AgentOS) (event : Value) : Prop :=
  ∀ identity positions tools scopes tokens, Installing entry event identity positions tools scopes tokens →
    optional (event.field "payload") = true

/-- Every command keeps the tables in order. -/
theorem Effect.orderly {ok : Bool} {T : Tables} (he : Effect entry event ok T) (h : entry.tables.Orderly)
    (hfits : entry.fits event) : T.Orderly := by
  cases he with
  | refused => exact h
  | orphaned installing unfit => simp [hfits _ _ _ _ _ installing] at unfit
  | @installed identity positions tools scopes tokens handle injected ok installing =>
    have hother := h.keyed.not_reserved identity installing.replaceable
    have hdevice := h.recorded.not_mem (Authority.records_of_refused installing.checked.device)
    exact (h.release hother hdevice).install hother (by rwa [agentIds_release]) installing.checked.legal
  | @uninstalled identity handle injected ok carries checked =>
    have hother := h.keyed.not_reserved identity fun entity hentity =>
      ⟨handle, Option.some.inj (hentity.symm.trans checked.entity)⟩
    have hdevice := h.recorded.not_mem (Authority.records_of_refused checked.device)
    exact (h.withdraw hother hdevice).of_eq (Authority.addGrants_identities _ _) rfl rfl
  | @deserted target actor position handle carries checked unfit =>
    rcases unfit with hempty | hillegal
    · exact absurd hempty (h.seated.ne_empty checked.positioned)
    · simp [h.legal actor handle checked.entity] at hillegal
  | @maintained target actor position handle handle' carries checked =>
    have hother := h.keyed.not_reserved actor fun entity hentity =>
      ⟨handle, Option.some.inj (hentity.symm.trans checked.entity)⟩
    have hposition : (Value.str position).truthy = true := by
      simpa [Value.truthy] using h.seated.ne_empty checked.positioned
    -- the name is free in between only
    exact (h.hire handle' hother hposition (h.legal actor handle checked.entity)).of_eq rfl
      (Function.update_idem _ _ _) rfl
  | granted carries checked => exact h.of_eq (Authority.addGrants_identities _ _) rfl rfl
  | revoked carries checked => exact h.of_eq rfl rfl rfl

/-- No name of the configuration is one of the kernel's devices. -/
def Unreserved (config : Value) : Prop :=
  ∀ name ∈ configIdentities config, name ≠ "authority" ∧ name ≠ "journal"

/-- The name of a process is not one of the kernel's, if it is neither of its devices. -/
theorem Course.not_reserved {commands : List String} {M : AgentOS → Prop} {T : Tables} {name : String} {handle : ℕ}
    (h : Course commands M T os) (entity : T.entities name = some (.process handle))
    (hdevices : name ≠ "authority" ∧ name ≠ "journal") : ¬ Reserved name := by
  rw [← h.entities] at entity
  rintro (rfl | rfl | rfl)
  · exact h.wired.ne_kernel entity (by simp) rfl
  · exact hdevices.1 rfl
  · exact hdevices.2 rfl

/-- The tables are in order when runs begin. -/
theorem orderly_of_boots (hdistinct : Distinct config) (hunreserved : Unreserved config) (h : Boots config os) :
    os.tables.Orderly := by
  let D (os : AgentOS) : Prop := os.tables.Keyed ∧ os.tables.Listed ∧ os.authority.Seated
  have hagent : HiresInto Authority.registryCommands (fun _ => True) config D := by
    intro os os' name position handle hname hposition hD _ hcourse
    obtain ⟨hkeyed, hlisted, hseated⟩ := hD
    have hother : ¬ Reserved name :=
      hcourse.not_reserved (Function.update_self _ _ _) (hunreserved name (List.mem_append_left _ hname))
    refine ⟨(hkeyed.register hother _ handle true).of_eq hcourse.authority.identities hcourse.entities,
      (hlisted.hire _ _ _ handle).of_eq hcourse.authority.identities hcourse.agentIds,
      (hseated.enroll ?_).of_eq hcourse.authority.identities⟩
    simpa [registration] using hposition
  have hdevice : InstallsInto Authority.registryCommands (fun _ => True) config D := by
    intro os os' name tools scopes handle grants injected hname hD hcourse _
    obtain ⟨hkeyed, hlisted, hseated⟩ := hD
    have hother : ¬ Reserved name :=
      hcourse.not_reserved (Function.update_self _ _ _) (hunreserved name (List.mem_append_right _ hname))
    have hidentities := hcourse.authority.identities.trans (Authority.addGrants_identities _ _)
    exact ⟨(hkeyed.install hother).of_eq hcourse.authority.identities hcourse.entities,
      (hlisted.enroll _ _ _).of_eq hidentities hcourse.agentIds,
      (hseated.enroll (by simp [registration])).of_eq hidentities⟩
  have hnew (runtimeRoot : String) (disk : Disk) (clock : String) (limits : Limits) :
      True ∧ D (.new runtimeRoot disk clock limits) := by
    refine ⟨trivial, ⟨rfl, rfl, rfl, fun key => ?_⟩, ?_, ?_⟩
    · simp only [tables, AgentOS.new, Authority.keys, Authority.new, List.map_nil, List.not_mem_nil, false_iff]
      rintro ⟨name, rfl, hother, hsome⟩
      simp only [Reserved, not_or] at hother
      simp [hother.1, hother.2.1, hother.2.2] at hsome
    · intro name hrecords
      simp [Authority.records, tables, AgentOS.new, Authority.new] at hrecords
    · intro key info hinfo
      simp [AgentOS.new, Authority.new] at hinfo
  obtain ⟨-, hkeyed, hlisted, hseated⟩ := h.ledger lasting_true hnew hagent id hdevice
  exact ⟨hkeyed, recorded_of_boots hdistinct h, hlisted, hseated, legal_of_boots h⟩

/-- Of the events that are accepted, none registers or unregisters an identity with the Authority
in the kernel's name, and an installation that passes its checks has options that fit. -/
def keepsOrder (entry : AgentOS) (item : Producer × Value) : Prop :=
  entry.validate item.2 = .accepted → ¬ Asks Authority.registryCommands item.2 ∧ entry.fits item.2

variable {l : LoopState AgentOS (Producer × Value) Exc}

/-- The tables are in order between two events. -/
theorem Reachable.orderly (hdistinct : Distinct config) (hunreserved : Unreserved config)
    (h : Reachable config (.taking keepsOrder) l) (hidle : l.control = .idle) : l.state.tables.Orderly := by
  have hledger := h.ledger (I := fun os => os.tables.Orderly) (M := fun _ _ => True) hidle
    (List.Subset.refl _) (fun _ _ hkeeps valid => (hkeeps valid).1) (fun _ => lasting_true)
    (fun os => orderly_of_boots hdistinct hunreserved) (fun {os os'} hw hfiled hI hb => ?_)
    (fun _ _ => trivial) fun {os item rest os'} hw _ hI _ hkeeps htaken => ?_
  · exact hledger.2.2
  · have hcalm := hb.calm hw
    exact hI.of_eq (agree_background (List.Subset.refl _) hw hfiled hb).identities hcalm.entities hcalm.agentIds
  · cases htaken with
    | routed processed =>
      exact hI.of_eq (congrArg Authority.identities processed.aside.authority) processed.still.entities
        processed.still.agentIds
    | ignored => exact hI.of_eq rfl rfl rfl
    | served valid accepted served =>
      obtain ⟨T, heffect, hcourse⟩ := served.tables
      have hT : T.Orderly := heffect.orderly hI (hkeeps valid).2
      exact hT.of_eq hcourse.authority.identities hcourse.entities hcourse.agentIds

section Scenario

/-- The loop is idle, and `d` stands in these tables. -/
def stands (l : LoopState AgentOS (Producer × Value) Exc) (routed registered : Bool) : Bool :=
  l.isIdle && (l.state.entities "d").isSome == routed && l.state.authority.keys.contains (.str "d") == registered

end Scenario

end AgentOS

end MyTeam.Kernel
