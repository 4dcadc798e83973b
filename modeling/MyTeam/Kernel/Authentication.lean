import MyTeam.Kernel.Ledger

/-!
# Authentication when an event is routed

The kernel adds the sender's position and scopes to an event for a device, and skips the agents.
Which identities are agents it reads from a set of its own, beside the Authority's table. So a
forged context can reach a device only if the two disagree: if the configuration declares one
identity as an agent and as a device, or if a process called `system` commands the Authority.
-/

namespace MyTeam.Kernel

open MyTeam.Py MyTeam.Async MyTeam.Dispatch MyTeam.Agent Coroutine Relation

namespace Authority

/-- The Authority records an identity as an agent. -/
def records (a : Authority) (name : String) : Bool :=
  match a.identities.lookup (.str name) with
  | some info => info.agent
  | none => false

variable {a b : Authority} {name identity : String}

/-- The record is one of the identities. -/
theorem records_congr (h : a.identities = b.identities) (name : String) : a.records name = b.records name := by
  rw [records, records, h]

/-- Registering records the identity. -/
theorem records_enroll (info : Info) :
    (a.enroll identity info).records name = if name = identity then info.agent else a.records name := by
  simp only [records, enroll, lookup_assign, Key.str.injEq]
  by_cases hname : name = identity <;> simp [hname]

/-- Unregistering leaves the other records. -/
theorem records_withdraw (hne : name ≠ identity) : (a.withdraw identity).records name = a.records name := by
  have hlookup : (a.withdraw identity).identities.lookup (.str name) = a.identities.lookup (.str name) :=
    (lookup_filter_key (p := fun key => decide (key ≠ Key.str identity))).trans (if_pos (by simpa using hne))
  rw [records, records, hlookup]

/-- The identities of agents are refused to devices. -/
theorem records_of_refused (h : (a.agents.any fun agent => agent.isStr identity) = false) :
    a.records identity = false := by
  unfold records
  split
  next info hinfo =>
    by_contra hagent
    have hmem : Value.str identity ∈ a.agents :=
      List.mem_map.mpr ⟨(.str identity, info), List.mem_filter.mpr ⟨mem_of_lookup hinfo, by simpa using hagent⟩, rfl⟩
    have hrefused := List.any_eq_false.mp h _ hmem
    simp [Value.isStr] at hrefused
  · rfl

end Authority

namespace AgentOS

variable {os os' entry : AgentOS} {event : Value} {config : Value}

/-- The kernel's agents are recorded as agents. -/
def Tables.Recorded (T : Tables) : Prop := ∀ name ∈ T.agentIds, T.authority.records name = true

namespace Tables.Recorded

variable {T : Tables}

/-- The records depend on the identities and the kernel's set. -/
theorem of_eq {T' : Tables} (h : T.Recorded) (identities : T'.authority.identities = T.authority.identities)
    (agentIds : T'.agentIds = T.agentIds) : T'.Recorded := by
  intro name hmem
  rw [Authority.records_congr identities]
  exact h name (agentIds ▸ hmem)

/-- An identity that is no agent is dropped. -/
theorem withdraw (h : T.Recorded) {identity : String} (hother : identity ∉ T.agentIds) :
    (T.withdraw identity).Recorded := fun name hmem =>
  (Authority.records_withdraw (ne_of_mem_of_not_mem hmem hother)).trans (h name hmem)

/-- An identity that is no agent gives way to a new registration. -/
theorem release (h : T.Recorded) {identity : String} (hother : identity ∉ T.agentIds) :
    (T.release identity).Recorded := by
  unfold Tables.release
  split
  · exact Tables.Recorded.withdraw (T := T.free identity) h hother
  · exact h

/-- A device is registered under a name that is no agent's. -/
theorem enroll (h : T.Recorded) {identity : String} (info : Info) (hother : identity ∉ T.agentIds) :
    (T.enroll identity info).Recorded := by
  intro name hmem
  refine (Authority.records_enroll info).trans ?_
  rw [if_neg (ne_of_mem_of_not_mem hmem hother)]
  exact h name hmem

/-- A device is installed under a name that is no agent's. -/
theorem install (h : T.Recorded) {identity : String} {tools scopes : List Value} {handle : ℕ}
    {grants : List Grant} {injected : List (Key × Entries)} (hother : identity ∉ T.agentIds) :
    (T.install identity tools scopes handle grants injected).Recorded :=
  (h.enroll _ hother).of_eq (Authority.addGrants_identities _ _) rfl

/-- An agent is registered. -/
theorem hire (h : T.Recorded) (identity : String) (tools scopes position : Value) (handle : ℕ) :
    ((T.enroll identity (registration tools scopes true position)).enter identity handle true).Recorded := by
  intro name hmem
  refine (Authority.records_enroll _).trans ?_
  split
  · rfl
  next hne => exact h name ((List.mem_insert_iff.mp hmem).resolve_left hne)

end Tables.Recorded

/-- The identity that a release frees is no agent. -/
theorem agentIds_release (T : Tables) (identity : String) : (T.release identity).agentIds = T.agentIds := by
  unfold Tables.release
  split <;> rfl

/-- A name that is refused to no device is no agent's. -/
theorem Tables.Recorded.not_mem {T : Tables} (h : T.Recorded) {identity : String}
    (hrefused : T.authority.records identity = false) : identity ∉ T.agentIds := by
  intro hmem
  rw [h identity hmem] at hrefused
  simp at hrefused

/-- Every command keeps the records. -/
theorem Effect.recorded {ok : Bool} {T : Tables} (he : Effect entry event ok T) (h : entry.tables.Recorded) :
    T.Recorded := by
  cases he with
  | refused => exact h
  | @orphaned identity positions tools scopes tokens installing unfit =>
    have hother := h.not_mem (Authority.records_of_refused installing.checked.device)
    exact (h.release hother).enroll _ (by rwa [agentIds_release])
  | @installed identity positions tools scopes tokens handle injected ok installing =>
    have hother := h.not_mem (Authority.records_of_refused installing.checked.device)
    exact (h.release hother).install (by rwa [agentIds_release])
  | @uninstalled identity handle injected ok carries checked =>
    have hother := h.not_mem (Authority.records_of_refused checked.device)
    have hwithdrawn := Tables.Recorded.withdraw (T := entry.tables.free identity) h hother
    exact hwithdrawn.of_eq (Authority.addGrants_identities _ _) rfl
  | deserted carries checked unfit => exact h.of_eq rfl rfl
  | @maintained target actor position handle handle' carries checked =>
    exact Tables.Recorded.hire (T := entry.tables.free actor) h actor _ _ _ _
  | granted carries checked => exact h.of_eq (Authority.addGrants_identities _ _) rfl
  | revoked carries checked => exact h.of_eq rfl rfl

/-- Of the events that are accepted, none registers or unregisters an identity with the Authority
in the kernel's name. -/
def leavesRegistry (entry : AgentOS) (item : Producer × Value) : Prop :=
  entry.validate item.2 = .accepted → ¬ Asks Authority.registryCommands item.2

/-- No identity is declared as an agent and as a device. -/
def Distinct (config : Value) : Prop :=
  ∀ name ∈ declaredNames config "agents", name ∉ declaredNames config "devices"

/-- The kernel's agents are recorded when runs begin. -/
theorem recorded_of_boots (hdistinct : Distinct config) (h : Boots config os) : os.tables.Recorded := by
  let D (os : AgentOS) : Prop :=
    os.tables.Recorded ∧ ∀ name ∈ os.agentIds, name ∈ declaredNames config "agents"
  have hagent : HiresInto Authority.registryCommands (fun _ => True) config D := by
    intro os os' name position handle hname _ hD _ hcourse
    refine ⟨(hD.1.hire name .none .none position handle).of_eq hcourse.authority.identities hcourse.agentIds,
      fun other hmem => ?_⟩
    rw [hcourse.agentIds] at hmem
    rcases List.mem_insert_iff.mp hmem with rfl | hmem
    · exact hname
    · exact hD.2 other hmem
  have hdevice : InstallsInto Authority.registryCommands (fun _ => True) config D := by
    intro os os' name tools scopes handle grants injected hname hD hcourse _
    have hother : name ∉ os.tables.agentIds := fun hmem => hdistinct name (hD.2 name hmem) hname
    refine ⟨(hD.1.install hother).of_eq hcourse.authority.identities hcourse.agentIds, fun other hmem => ?_⟩
    rw [hcourse.agentIds] at hmem
    exact hD.2 other hmem
  have hnew (runtimeRoot : String) (disk : Disk) (clock : String) (limits : Limits) :
      True ∧ D (.new runtimeRoot disk clock limits) := by
    refine ⟨trivial, ?_, ?_⟩
    · simp [Tables.Recorded, tables, AgentOS.new]
    · simp [AgentOS.new]
  exact (h.ledger lasting_true hnew hagent id hdevice).2.1

variable {l : LoopState AgentOS (Producer × Value) Exc}

/-- The kernel's agents are recorded between two events. -/
theorem Reachable.recorded (hdistinct : Distinct config) (h : Reachable config (.taking leavesRegistry) l)
    (hidle : l.control = .idle) : l.state.tables.Recorded := by
  have hledger := h.ledger (I := fun os => os.tables.Recorded) (M := fun _ _ => True) hidle
    (List.Subset.refl _) (fun _ _ => id) (fun _ => lasting_true) (fun os => recorded_of_boots hdistinct)
    (fun {os os'} hw hfiled hI hb => ?_) (fun _ _ => trivial) fun {os item rest os'} hw _ hI _ _ htaken => ?_
  · exact hledger.2.2
  · exact hI.of_eq (agree_background (List.Subset.refl _) hw hfiled hb).identities (hb.calm hw).agentIds
  · cases htaken with
    | routed processed =>
      exact hI.of_eq (congrArg Authority.identities processed.aside.authority) processed.still.agentIds
    | ignored => exact hI.of_eq rfl rfl
    | served valid accepted served =>
      obtain ⟨T, heffect, hcourse⟩ := served.tables
      have hT : T.Recorded := heffect.recorded (hI.of_eq rfl rfl)
      exact hT.of_eq hcourse.authority.identities hcourse.agentIds

/-- What readers hold and what is on the bus carries the stamp of its sender. -/
theorem Reachable.stamped {take : AgentOS → Producer × Value → Prop} (h : Reachable config (.taking take) l)
    (hidle : l.control = .idle) : l.state.Stamped := by
  have hthroughout : Throughout Stamped (fun _ _ => Stamped) l :=
    h.stepwise (fun _ hb => stamped_of_boots hb) (fun hw hI hb => hI.background hw hb)
      (fun _ _ hI hbus _ => hI.take hbus) (fun _ hJ ha => hJ.act ha) (fun hw hJ hb => hJ.background hw hb)
      fun _ _ hJ => hJ
  simp only [Throughout, hidle] at hthroughout
  exact hthroughout.2.2

/-- An event carries its sender's identity, and the context that the Authority gives for it now:
the empty one for the kernel and its devices. -/
def Authentic (os : AgentOS) (pid : ℕ) (event : Value) : Prop :=
  event.field "source" = .str (os.procs pid).spec.identity ∧
    if (os.procs pid).spec.identity = "kernel" ∨ os.isKernelMode (.str (os.procs pid).spec.identity) then
      event.field "auth" = emptyAuth
    else os.authority.authContext (.str (os.procs pid).spec.identity) = .ok (event.field "auth")

/-- If the next event comes from a process and is delivered to a process that the Authority does
not record as an agent, then what is delivered is authentic. -/
def Authenticates (os : AgentOS) : Prop :=
  ∀ pid event rest target handle receiver os' delivered, os.eventBus = (.process pid, event) :: rest →
    event.field "target" = .str target → os.entities target = some (.process handle) →
    (os.handles handle).process = some receiver → os.authority.records target = false →
    processEvent (.process pid) event { os with eventBus := rest } = .returned () os' →
    (os'.procs receiver).delivered = (os.procs receiver).delivered ++ [delivered] → Authentic os pid delivered

/-- An event for a process that is no agent is enriched. -/
theorem enriched_device {source target : String} {event' : Value} (h : os.enriched event = .ok event')
    (htarget : event.field "target" = .str target) (hsource : event.field "source" = .str source)
    (hprocess : os.isProcess (.str target) = true) (hagent : target ∉ os.agentIds) :
    if source = "kernel" ∨ os.isKernelMode (.str source) then event'.field "auth" = emptyAuth
    else os.authority.authContext (.str source) = .ok (event'.field "auth") := by
  have htargetItem : event.item "target" = .ok (.str target) := Value.item_eq_field htarget (by simp)
  have hsourceItem : event.item "source" = .ok (.str source) := Value.item_eq_field hsource (by simp)
  have hany : os.agentIds.any (Value.str target).isStr = false :=
    List.any_eq_false.mpr fun name hname hsame => by
      obtain rfl := Value.str.inj (Value.isStr_iff.mp hsame)
      exact hagent hname
  have hkernel : (Value.str source).isStr "kernel" = decide (source = "kernel") := by
    by_cases heq : source = "kernel" <;> simp [Value.isStr, heq]
  simp only [enriched, htargetItem, hsourceItem, ok_bind, hany, hprocess, Bool.not_true,
    Bool.false_eq_true, hkernel, Bool.or_eq_true, decide_eq_true_eq] at h
  split
  next hsilent =>
    rw [if_pos hsilent] at h
    exact Value.field_setItem_self h
  next hspeaks =>
    rw [if_neg hspeaks] at h
    obtain ⟨auth, hauth, hset⟩ := bind_eq_ok.mp h
    rw [Value.field_setItem_self hset, hauth]

/-- Authentication cannot be forged where the two sets of agents agree. -/
theorem authenticates_of_recorded (hw : os.Wired) (hstamped : os.Stamped) (hrecorded : os.tables.Recorded) :
    os.Authenticates := by
  intro pid event rest target handle receiver os' delivered hbus htarget entity process hdevice hruns hdelivered
  have hagent : target ∉ os.agentIds := hrecorded.not_mem hdevice
  have hsource := (hstamped.bus pid event (by simp [hbus])).2.source
  have hprocessed : Processed (.process pid) event { os with eventBus := rest } (.ok ()) os' := by
    have hwp : wp meanwhile (processEvent (.process pid) event)
        (fun _ r os' => Processed (.process pid) event { os with eventBus := rest } r os')
        { os with eventBus := rest } { os with eventBus := rest } := by
      refine wp_processWith (hw.setEventBus rest) (fun _ _ hp => hp) fun source _ accepted => ?_
      obtain rfl := Value.str.inj (htarget.symm.trans accepted.target_eq)
      exact absurd rfl (hw.ne_kernel entity (by simp))
    rw [wp, hruns] at hwp
    exact hwp
  -- only a delivery makes the receiver's channel longer
  have hunchanged : os'.procs ≠ os.procs := by
    intro hsame
    rw [hsame] at hdelivered
    simp at hdelivered
  generalize (.ok () : Except Exc Unit) = r at hprocessed
  cases hprocessed with
  | @submitted source other device valid accepted entity' =>
    obtain rfl := Value.str.inj (htarget.symm.trans accepted.target_eq)
    exact absurd (entity.symm.trans entity') (by simp)
  | @pushed source other handle' pid' event' valid accepted entity' process' opened known =>
    obtain rfl := Value.str.inj (htarget.symm.trans accepted.target_eq)
    obtain rfl := Entity.process.inj (Option.some.inj (entity.symm.trans entity'))
    obtain rfl := Option.some.inj (process.symm.trans process')
    have hevent : event' = delivered := by
      have hpushed : (os.procs receiver).delivered ++ [event'] = (os.procs receiver).delivered ++ [delivered] := by
        rw [← hdelivered]
        simp [push, observe, note, log]
      simpa using hpushed
    subst hevent
    have hprocess : isProcess { os with eventBus := rest } (.str target) = true := by
      simp [isProcess, entityAt, entity]
    obtain ⟨-, hfields⟩ := enriched_fields known accepted.dict
    exact ⟨(hfields "source" (by decide)).trans hsource, enriched_device known htarget hsource hprocess hagent⟩
  | _ => exact absurd rfl hunchanged

/-- What a device is delivered carries the sender's identity and the context that the Authority
gives for it, whatever the sender wrote into it. -/
theorem authentication_unforged (hdistinct : Distinct config)
    (h : Reachable config (.taking leavesRegistry) l) (hidle : l.control = .idle) : l.state.Authenticates :=
  authenticates_of_recorded h.wired (h.stamped hidle) (h.recorded hdistinct hidle)

section Scenario

/-- The entry of a device without options in a configuration. -/
def sourceSpec (identity : String) : Value :=
  .dict [("identity", .str identity), ("source", .str "d.py")]

/-- An agent and a device. -/
def callerConfig : Value :=
  .dict [("agents", .list [agentSpec "r" "root"]), ("devices", .list [sourceSpec "d"])]

/-- An agent, and an identity declared as an agent and as a device. -/
def ambiguousConfig : Value :=
  .dict [("agents", .list [agentSpec "r" "root", agentSpec "d" "dev"]), ("devices", .list [sourceSpec "d"])]

/-- A call that brings its own context. -/
def forgedCall : Value :=
  .dict [("target", .str "d"), ("kind", .str "application"), ("payload", .dict []), ("auth", .str "forged")]

/-- The first event on the bus reaches a process that is no agent with this context. -/
def delivers (os : AgentOS) (receiver : ℕ) (auth : Value → Bool) : Bool :=
  match os.eventBus with
  | (.process 0, event) :: rest =>
    (match event.field "target", os.entities "d" with
      | .str "d", some (.process handle) => decide ((os.handles handle).process = some receiver)
      | _, _ => false) && !os.authority.records "d" &&
    match processEvent (.process 0) event { os with eventBus := rest } with
    | .returned _ os' =>
      match (os.procs receiver).delivered, (os'.procs receiver).delivered with
      | [], [delivered] => auth (delivered.field "auth")
      | _, _ => false
    | _ => false
  | _ => false

/-- What the observation says. -/
theorem of_delivers {receiver : ℕ} {auth : Value → Bool} (h : os.delivers receiver auth = true) :
    ∃ event rest handle os' delivered, os.eventBus = (.process 0, event) :: rest ∧
      event.field "target" = .str "d" ∧ os.entities "d" = some (.process handle) ∧
      (os.handles handle).process = some receiver ∧ os.authority.records "d" = false ∧
      processEvent (.process 0) event { os with eventBus := rest } = .returned () os' ∧
      (os'.procs receiver).delivered = (os.procs receiver).delivered ++ [delivered] ∧
      auth (delivered.field "auth") = true := by
  unfold delivers at h
  split at h
  next event rest hbus =>
    simp only [Bool.and_eq_true] at h
    obtain ⟨⟨hroute, hrecords⟩, hruns⟩ := h
    split at hroute
    next handle htarget entity =>
      split at hruns
      next os' hreturns =>
        split at hruns
        next delivered hbefore hafter =>
          exact ⟨event, rest, handle, os', delivered, hbus, htarget, entity, of_decide_eq_true hroute,
            by simpa using hrecords, hreturns, by rw [hbefore, hafter]; rfl, hruns⟩
        · simp at hruns
      · simp at hruns
    · simp at hroute
  · simp at h

/-- The context that a caller brings is replaced. -/
theorem authentication_unforged_call : ∃ l, Reachable callerConfig (.taking leavesRegistry) l ∧
    l.state.delivers 1 (fun auth => !auth.isStr "forged") = true ∧ l.state.Authenticates := by
  have hplay : (scenario callerConfig sourceDisk (sends 0 forgedCall)).any fun l =>
      l.state.delivers 1 (fun auth => !auth.isStr "forged") && l.isIdle := by decide +kernel
  have hdistinct : Distinct callerConfig := by
    unfold Distinct
    decide +kernel
  obtain ⟨l, hplayed, hl⟩ := (Option.any_eq_true _ _).mp hplay
  obtain ⟨hdelivers, hidle⟩ := Bool.and_eq_true_iff.mp hl
  have hnone : scenarioTaken callerConfig sourceDisk (sends 0 forgedCall) = [] :=
    List.isEmpty_iff.mp (by decide +kernel)
  have hreachable : Reachable callerConfig (.taking leavesRegistry) l :=
    reachable_of_scenario hplayed fun taken hmem => by simp [hnone] at hmem
  exact ⟨l, hreachable, hdelivers, authentication_unforged hdistinct hreachable (LoopState.isIdle_iff.mp hidle)⟩

/-- A device that shares its name with an agent is delivered a forged context. -/
theorem forged_context_delivered : ∃ l, Reachable ambiguousConfig .free l ∧ ¬ l.state.Authenticates := by
  have hplay : (scenario ambiguousConfig sourceDisk (sends 0 forgedCall)).any fun l =>
      l.state.delivers 2 (fun auth => auth.isStr "forged") && (l.state.procs 0).spec.identity == "r" &&
        !l.state.isKernelMode (.str "r") &&
        ((l.state.authority.authContext (.str "r")).toOption.all fun auth => !auth.isStr "forged") := by
    decide +kernel
  obtain ⟨l, hplayed, hl⟩ := (Option.any_eq_true _ _).mp hplay
  simp only [Bool.and_eq_true, beq_iff_eq, Bool.not_eq_true'] at hl
  obtain ⟨⟨⟨hdelivers, hidentity⟩, hmode⟩, hcontext⟩ := hl
  obtain ⟨event, rest, handle, os', delivered, hbus, htarget, entity, process, hrecords, hruns, hdelivered, hforged⟩ :=
    of_delivers hdelivers
  refine ⟨l, reachable_free_of_scenario hplayed, fun hauthenticates => ?_⟩
  obtain ⟨-, hauth⟩ :=
    hauthenticates 0 event rest "d" handle 2 os' delivered hbus htarget entity process hrecords hruns hdelivered
  rw [hidentity, if_neg (by simp [hmode])] at hauth
  rw [hauth] at hcontext
  simp [Except.toOption, hforged] at hcontext

end Scenario

end AgentOS

end MyTeam.Kernel
