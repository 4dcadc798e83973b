import MyTeam.Kernel.Course

/-!
# What a command does to the tables

`Effect` lists once and for all how the tables of the Authority and of the kernel may stand
when a command has ended, whether it succeeded or not. The bodies of the handlers are walked
through with the rules for the course of a command; everything that is proved about the
tables between two events follows from the list.
-/

namespace MyTeam.Kernel

open MyTeam.Py MyTeam.Async MyTeam.Dispatch MyTeam.Agent Coroutine Relation

namespace AgentOS

/-- A running instance has been retired and unregistered, so that the device can be installed. -/
def Tables.release (T : Tables) (identity : String) : Tables :=
  match T.entities identity with
  | some (.process _) => (T.free identity).withdraw identity
  | _ => T

/-- A grant has been dropped. -/
def Tables.revoke (T : Tables) (grant : Grant) : Tables := T.setAuthority (T.authority.dropGrant grant)

/-- A device has been registered and wired, and the agents have been told. -/
def Tables.install (T : Tables) (identity : String) (tools scopes : List Value) (handle : ℕ)
    (grants : List Grant) (injected : List (Key × Entries)) : Tables :=
  (((T.enroll identity (registration (.list tools) (.list scopes) false .none)).enter identity handle
    false).grantAll grants).inject injected

/-- No kernel-mode identity: nothing stands under this name, or a process. -/
def Replaceable (os : AgentOS) (identity : String) : Prop :=
  ∀ entity, os.entities identity = some entity → ∃ handle, entity = .process handle

/-- The installation of a device: what was checked, what the module declares, and which scopes
are wired by default. -/
structure Installing (entry : AgentOS) (event : Value) (identity : String)
    (positions tools scopes tokens : List Value) :
    Prop where
  carries : commandOf event = some .installDevice
  checked : InstallChecked entry event (event.field "payload") identity positions
  loaded : loadModule (entry.sourceFile identity) (entry.disk.module identity) = .ok (tools, scopes)
  default : defaults scopes = .ok tokens
  replaceable : entry.Replaceable identity

/-- How the tables may stand after a command that began in the state `entry`; `ok` says that it
succeeded. -/
inductive Effect (entry : AgentOS) (event : Value) : Bool → Tables → Prop where
  | refused : Effect entry event false entry.tables
  | orphaned {identity : String} {positions tools scopes tokens : List Value}
      (installing : Installing entry event identity positions tools scopes tokens)
      (unfit : optional (event.field "payload") = false) :
      Effect entry event false ((entry.tables.release identity).enroll identity
        (registration (.list tools) (.list scopes) false .none))
  | installed {identity : String} {positions tools scopes tokens : List Value} {handle : ℕ}
      {injected : List (Key × Entries)} {ok : Bool}
      (installing : Installing entry event identity positions tools scopes tokens) :
      Effect entry event ok ((entry.tables.release identity).install identity tools scopes handle
        (wiring positions identity tokens) injected)
  | uninstalled {identity : String} {handle : ℕ} {injected : List (Key × Entries)} {ok : Bool}
      (carries : commandOf event = some .uninstallDevice)
      (checked : UninstallChecked entry event (event.field "payload") identity handle) :
      Effect entry event ok ((((entry.tables.free identity).withdraw identity).grantAll
        (maintenanceGrants identity entry.authority.grants)).inject injected)
  | deserted {target actor position : String} {handle : ℕ}
      (carries : commandOf event = some .maintenanceSession)
      (checked : MaintenanceChecked entry event (event.field "payload") target actor handle position)
      (unfit : position = "" ∨ illegal actor = true) : Effect entry event false (entry.tables.free actor)
  | maintained {target actor position : String} {handle handle' : ℕ}
      (carries : commandOf event = some .maintenanceSession)
      (checked : MaintenanceChecked entry event (event.field "payload") target actor handle position) :
      Effect entry event true (((entry.tables.free actor).enroll actor
        (registration .none .none true (.str position))).enter actor handle' true)
  | granted {position device token : String} {injected : List (Key × Entries)} {ok : Bool}
      (carries : commandOf event = some .grantScope)
      (checked : ScopeChecked entry event (event.field "payload") position device token) :
      Effect entry event ok
        ((entry.tables.grantAll [⟨.str position, .str device, .str token⟩]).inject injected)
  | revoked {position device token : String} {injected : List (Key × Entries)} {ok : Bool}
      (carries : commandOf event = some .revokeScope)
      (checked : ScopeChecked entry event (event.field "payload") position device token) :
      Effect entry event ok
        ((entry.tables.revoke ⟨.str position, .str device, .str token⟩).inject injected)

variable {commands : List String} {M : AgentOS → Prop} {entry os os' start : AgentOS} {producer : Producer}
  {event : Value}

/-- How the body of a handler ends. If it returns, the extra property has lasted, and all
agents have been told unless an agent has begun a maintenance session. -/
def Ended (commands : List String) (M : AgentOS → Prop) (entry : AgentOS) (event : Value)
    (r : Except Exc Unit) (os : AgentOS) : Prop :=
  ∃ T, Effect entry event r.isOk T ∧ Course commands (fun _ => True) T os ∧
    (r = .ok () → M os ∧ (commandOf event ≠ some .maintenanceSession →
      ∀ agent ∈ entry.authority.agents, os.authority.Shown agent))

section Bodies

/-- A refused command. -/
theorem ended_refused {error : Exc} (h : Course commands M entry.tables os) :
    Ended commands M entry event (.error error) os :=
  ⟨entry.tables, .refused, h.weaken, absurd_error⟩

/-- The files of a device are put in place. -/
theorem Course.makeHome {T : Tables} (h : Course commands M T os) (hM : Lasting commands M) (identity : String) :
    Course commands M T (os.makeHome identity) :=
  h.setDisk hM _

/-- Injecting into all agents ends a body. -/
theorem ended_injectAll {T : Tables} {c : Contract AgentOS} (hM : Lasting commands M)
    (h : Course commands M T os) (heffect : ∀ ok injected, Effect entry event ok (T.inject injected)) :
    wp c (forEach entry.authority.agents inject) (fun _ r os' => Ended commands M entry event r os')
      start os := by
  have hnone : ∀ agent ∈ ([] : List Value), os.authority.Shown agent := by simp
  refine wp_imp (course_injectAll hM h hnone) fun _ r os' hr => ?_
  obtain ⟨⟨injected, h'⟩, hok⟩ := hr
  exact ⟨_, heffect _ injected, h', fun hr => ⟨(hok hr).1, fun _ => (hok hr).2⟩⟩

/-- Freeing the name of a device before it is installed again. -/
theorem course_retireInstance (hregistry : Authority.registryCommands ⊆ commands) (hM : Lasting commands M)
    {T : Tables} {identity : String} {Q : AgentOS → Except Exc Unit → AgentOS → Prop}
    (h : Course commands M T os) (hno : ∀ error, Q start (.error error) os)
    (hyes : ∀ start' os', os.Replaceable identity → Course commands M (T.release identity) os' →
      Q start' (.ok ()) os') :
    wp meanwhile (retireInstance identity) Q start os := by
  simp only [retireInstance, wp_bind, wp_get]
  split
  next handle entity =>
    have hreplaceable : os.Replaceable identity := fun other hother =>
      ⟨handle, Option.some.inj (hother.symm.trans entity)⟩
    have hrelease : T.release identity = (T.free identity).withdraw identity := by
      rw [Tables.release, ← h.entities, entity]
    rw [wp_bind]
    refine course_retire hregistry hM h entity fun start' os' h' => ?_
    rw [wp_unregister]
    refine hyes start' _ hreplaceable ?_
    rw [hrelease]
    exact h'.setAuthority hM rfl (h'.authority.withdraw identity)
  next entity hother => exact hno _
  next hfree =>
    refine hyes start os (fun other hother => by simp [hfree] at hother) ?_
    rwa [Tables.release, ← h.entities, hfree]

/-- A device whose options fit can be started. -/
theorem device_call_ok (path : String) {identity : String} {options : Value} (hne : identity ≠ "")
    (legal : illegal identity = false) (other : identity ≠ "kernel") (hoptions : options.isDict = true) :
    ∃ spec, (Spawn.device identity path options).call = .ok spec := by
  obtain ⟨kvs, rfl⟩ : ∃ kvs, options = .dict kvs := by
    cases options <;> simp_all [Value.isDict]
  simp only [Spawn.call, Value.get, validateIdentity_ok hne legal other, ok_bind]
  exact ⟨_, rfl⟩

/-- Options that are given or missing are a dictionary. -/
theorem isDict_of_optional {payload : Value} (h : optional payload = true) :
    ((payload.field "options").orElse (.dict [])).isDict = true := by
  unfold optional at h
  unfold Value.orElse
  split
  next htruthy => simpa [htruthy] using h
  · rfl

/-- The grants of a wiring can be made: positions and tokens are names. -/
theorem grantOf_ok (device : String) {positions scopes tokens : List Value}
    (hpositions : ∀ position ∈ positions, isName position = true) (declared : scopes.all isScope = true)
    (hdefaults : defaults scopes = .ok tokens) {position token : Value} (hposition : position ∈ positions)
    (htoken : token ∈ tokens) : ∃ grant, grantOf position device token = .ok grant := by
  obtain ⟨name, rfl⟩ := defaults_str declared hdefaults token htoken
  obtain ⟨name', rfl, -⟩ := isName_iff.mp (hpositions position hposition)
  exact ⟨_, rfl⟩

/-- The last part of an install, once the name is free. -/
theorem ended_enlist (hM : Lasting commands M) {identity : String} {positions tools scopes tokens : List Value}
    {c : Contract AgentOS} (hinstalling : Installing entry event identity positions tools scopes tokens)
    (hother : identity ≠ "kernel") (h : Course commands M (entry.tables.release identity) os) :
    wp c (do
      let options ← ofExcept ((event.field "payload").get "options" .none)
      let os ← get
      register identity (.device identity (os.sourceFile identity) (options.orElse (.dict []))) (.list tools)
        (.list scopes) false .none
      wire positions identity scopes
      forEach entry.authority.agents inject) (fun _ r os' => Ended commands M entry event r os') start os := by
  have hchecked := hinstalling.checked
  have hget : (event.field "payload").get "options" .none = .ok ((event.field "payload").field "options") := by
    have hdict := isDict_of_commandOf hinstalling.carries
    cases hpayload : event.field "payload" <;> simp_all [Value.isDict, Value.get, Value.field]
  have hdeclared := scopes_of_loadModule hinstalling.loaded
  rw [hget, ofExcept_ok_bind, wp_bind, wp_get]
  simp only
  rw [wp_bind]
  refine wp_register (fun _ _ hrefused => ?_) (fun error _ hraises => ?_) fun spec _ call => ?_
  · simp [hchecked.legal] at hrefused
  · -- the process cannot be made: its options do not fit
    refine ⟨_, .orphaned hinstalling ?_, ((h.enroll hM identity _).addHandle hM identity _).weaken, absurd_error⟩
    by_contra hfit
    obtain ⟨spec, hspec⟩ := device_call_ok (os.sourceFile identity) hchecked.identity_ne hchecked.legal
      hother (isDict_of_optional (Bool.of_not_eq_false hfit))
    simp [hspec] at hraises
  · have hspawned := (h.enroll hM identity (registration (.list tools) (.list scopes) false .none)).spawned false
      hM (fun _ hagent => by simp at hagent) call rfl
    refine wp_seq (course_wire hM hinstalling.default hspawned) (fun _ error _ hr => ?_) fun _ _ os' hr => ?_
    · obtain ⟨hr, -⟩ | ⟨-, position, hposition, token, htoken, failure, hfails⟩ := hr
      · simp at hr
      · obtain ⟨grant, hgrant⟩ := grantOf_ok identity hchecked.positions hdeclared
          hinstalling.default hposition htoken
        simp [hgrant] at hfails
    · obtain ⟨-, h'⟩ | ⟨⟨_, hr⟩, -⟩ := hr
      · exact ended_injectAll hM h' fun ok injected => .installed hinstalling
      · simp at hr

/-- The body of `_install`. -/
theorem ended_installBody (hregistry : Authority.registryCommands ⊆ commands) (hM : Lasting commands M)
    (h : Course commands M entry.tables (entry.observe producer event event))
    (hcommand : commandOf event = some .installDevice) :
    wp meanwhile (installBody event (event.field "payload"))
      (fun _ r os' => Ended commands M entry event r os') start (entry.observe producer event event) := by
  simp only [installBody]
  rw [wp_bind]
  refine wp_installRequest (fun _ _ => ended_refused h) fun identity positions hchecked => ?_
  cases hload : loadModule ((entry.observe producer event event).sourceFile identity)
      ((entry.observe producer event event).disk.module identity) with
  | error error => exact ended_refused h
  | ok declared =>
    obtain ⟨tools, scopes⟩ := declared
    obtain ⟨tokens, htokens⟩ := defaults_ok (scopes_of_loadModule hload)
    have hhome := h.makeHome hM identity
    simp only
    rw [wp_bind, wp_modify]
    simp only
    rw [wp_bind]
    refine course_retireInstance hregistry hM hhome (fun _ => ended_refused hhome)
      fun start' os' hreplaceable h' => ?_
    have hother : identity ≠ "kernel" := by
      rintro rfl
      obtain ⟨handle, hhandle⟩ := hreplaceable _ hhome.wired.kernel
      simp at hhandle
    exact ended_enlist hM ⟨hcommand, hchecked.of_authority rfl, hload, htokens, hreplaceable⟩ hother h'

/-- The body of `_uninstall`. -/
theorem ended_uninstallBody (hregistry : Authority.registryCommands ⊆ commands) (hM : Lasting commands M)
    (h : Course commands M entry.tables (entry.observe producer event event))
    (hcommand : commandOf event = some .uninstallDevice) :
    wp meanwhile (uninstallBody event (event.field "payload"))
      (fun _ r os' => Ended commands M entry event r os') start (entry.observe producer event event) := by
  simp only [uninstallBody]
  rw [wp_bind]
  refine wp_uninstallRequest (fun _ _ => ended_refused h) fun identity handle hchecked => ?_
  simp only
  rw [wp_bind]
  refine course_retire hregistry hM h hchecked.entity fun start' os' h' => ?_
  simp only
  rw [wp_bind, wp_askAuthority, Authority.respond_deviceGrants]
  simp only
  rw [wp_bind, wp_unregister]
  have hreplied (grants : Value) : (Authority.answer "grants" grants).item "payload" =
      .ok (.dict [("grants", grants)]) := rfl
  have hgrants (grants : Value) : (Value.dict [("grants", grants)]).item "grants" = .ok grants := rfl
  simp only [hreplied, hgrants, Value.iter, ofExcept_ok_bind]
  have hwithdrawn : Course commands M ((entry.tables.free identity).withdraw identity) _ :=
    h'.setAuthority (a := os'.authority.withdraw identity) hM rfl (h'.authority.withdraw identity)
  refine wp_seq (course_regrant (a := os'.authority) hM hwithdrawn) (fun _ _ _ hr => absurd_error hr.1)
    fun _ _ os'' hr => ?_
  have hregranted : Course commands M (((entry.tables.free identity).withdraw identity).grantAll
      (maintenanceGrants identity entry.authority.grants)) os'' := by
    refine hr.2.of_agree (.addGrants (.refl _) fun hsub => ?_) rfl rfl
    rw [h'.authority.grants hsub]
    rfl
  exact ended_injectAll hM hregranted fun ok injected => .uninstalled hcommand
    ⟨hchecked.identity_eq, hchecked.authorised, hchecked.entity, hchecked.device⟩

/-- A registered process has a name of its own. -/
theorem Wired.named (hw : os.Wired) {identity : String} {handle : ℕ}
    (entity : os.entities identity = some (.process handle)) : identity ≠ "" ∧ identity ≠ "kernel" :=
  ⟨hw.ne_empty (by simp [AgentOS.registered, entity]), hw.ne_kernel entity (by simp)⟩

/-- The body of `_maintenance_session`. -/
theorem ended_maintenanceBody (hregistry : Authority.registryCommands ⊆ commands) (hM : Lasting commands M)
    (h : Course commands M entry.tables (entry.observe producer event event))
    (hcommand : commandOf event = some .maintenanceSession) :
    wp meanwhile (maintenanceBody event (event.field "payload"))
      (fun _ r os' => Ended commands M entry event r os') start (entry.observe producer event event) := by
  simp only [maintenanceBody]
  rw [wp_bind]
  refine wp_maintenanceRequest (fun _ _ => ended_refused h) fun target actor handle position hchecked => ?_
  have hentry : MaintenanceChecked entry event (event.field "payload") target actor handle position :=
    ⟨hchecked.target_eq, hchecked.legal, hchecked.actor_eq, hchecked.agent, hchecked.authorised,
      hchecked.unloaded, hchecked.home, hchecked.entity, hchecked.positioned⟩
  obtain ⟨hne, hother⟩ := h.wired.named hchecked.entity
  simp only
  rw [wp_bind]
  refine course_retire hregistry hM h hchecked.entity fun start' os' h' => ?_
  refine wp_register (fun _ _ hrefused => ?_) (fun error legal hraises => ?_) fun spec _ call => ?_
  · refine ⟨_, .deserted hcommand hentry ?_, h'.weaken, absurd_error⟩
    simpa [Value.truthy] using hrefused
  · -- the constructor accepts every name that the registration accepts
    simp [Spawn.call, validateIdentity_ok hne legal hother, pure, Except.pure] at hraises
  · have hspawned := (h'.enroll hM actor (registration .none .none true (.str position))).spawned true hM
      (fun _ hagent => by simp at hagent) call rfl
    exact ⟨_, .maintained hcommand hentry, hspawned.weaken,
      fun _ => ⟨hspawned.extra, fun hother => absurd hcommand hother⟩⟩

/-- The body of `_scope`. -/
theorem ended_scopeBody (hM : Lasting commands M) (grants : Bool)
    (h : Course commands M entry.tables (entry.observe producer event event))
    (hcommand : commandOf event = some (if grants then .grantScope else .revokeScope)) :
    wp meanwhile (scopeBody grants event (event.field "payload"))
      (fun _ r os' => Ended commands M entry event r os') start (entry.observe producer event event) := by
  simp only [scopeBody]
  rw [wp_bind]
  refine wp_scopeRequest (fun _ _ => ended_refused h) fun position device token hchecked => ?_
  have hentry : ScopeChecked entry event (event.field "payload") position device token :=
    ⟨hchecked.position_eq, hchecked.device_eq, hchecked.token_eq, hchecked.granting, hchecked.delegated⟩
  -- the injections, for the tables that the grant or the revocation leaves
  have hinject {T : Tables} {authority : Authority} (hagents : authority.agents = entry.authority.agents)
      (hcourse : Course commands M T { entry.observe producer event event with authority })
      (heffect : ∀ ok injected, Effect entry event ok (T.inject injected)) :
      wp meanwhile (do let all ← agents; forEach all inject)
        (fun _ r os' => Ended commands M entry event r os') start
        { entry.observe producer event event with authority } := by
    rw [wp_bind, wp_agents]
    simp only [hagents]
    exact ended_injectAll hM hcourse heffect
  simp only
  rw [wp_bind, wp_askAuthority]
  cases grants with
  | true =>
    simp only [if_true, Authority.respond_grant, Value.key_str, ok_bind]
    exact hinject rfl (h.addGrant hM ⟨.str position, .str device, .str token⟩)
      fun ok injected => .granted hcommand hentry
  | false =>
    simp only [Bool.false_eq_true, if_false, Authority.respond_revoke]
    have hagree := h.authority.dropGrant ⟨.str position, .str device, .str token⟩
    exact hinject rfl (h.setAuthority (a := Authority.dropGrant _ _) hM rfl hagree)
      fun ok injected => .revoked hcommand hentry

/-- The body of the handler of a command. -/
theorem ended_body (hregistry : Authority.registryCommands ⊆ commands) (hM : Lasting commands M)
    {command : Command} (h : Course commands M entry.tables (entry.observe producer event event))
    (hcommand : commandOf event = some command) :
    wp meanwhile (command.body event (event.field "payload"))
      (fun _ r os' => Ended commands M entry event r os') start (entry.observe producer event event) := by
  cases command with
  | installDevice => exact ended_installBody hregistry hM h hcommand
  | uninstallDevice => exact ended_uninstallBody hregistry hM h hcommand
  | maintenanceSession => exact ended_maintenanceBody hregistry hM h hcommand
  | grantScope => exact ended_scopeBody hM true h hcommand
  | revokeScope => exact ended_scopeBody hM false h hcommand

end Bodies

section Handlers

/-- The command has been carried out or refused, and acknowledged accordingly. -/
structure Served (commands : List String) (M : AgentOS → Prop) (entry : AgentOS) (event : Value) (ok : Bool)
    (os : AgentOS) : Prop where
  tables : ∃ T, Effect entry event ok T ∧ Course commands (fun _ => True) T os
  acknowledged : ∃ ack, os.handled.getLast? = some ack ∧ ack.producer = .kernel "kernel" ∧
    (ack.event.field "payload").field "ok" = .bool ok
  lasted : ok = true → M os ∧ (commandOf event ≠ some .maintenanceSession →
    ∀ agent ∈ entry.authority.agents, os.authority.Shown agent)

/-- An acknowledgement is no injection, and its verdict is its own. -/
theorem Command.acknowledges (command : Command) (event payload : Value) (error : Option String) :
    (∃ name, (command.fields event payload error).lookup "command" = some (.str name) ∧ name ≠ "inject") ∧
      (command.fields event payload error).lookup "ok" = none := by
  cases command
  case installDevice => exact ⟨⟨"device_installed", rfl, by decide⟩, rfl⟩
  case uninstallDevice => exact ⟨⟨"device_uninstalled", rfl, by decide⟩, rfl⟩
  case maintenanceSession => exact ⟨⟨"maintenance_session_started", rfl, by decide⟩, rfl⟩
  case grantScope => exact ⟨⟨"scope_granted", rfl, by decide⟩, rfl⟩
  case revokeScope => exact ⟨⟨"scope_revoked", rfl, by decide⟩, rfl⟩

/-- A handler is its body in a `try`, and then the acknowledgement. -/
theorem served_handler (hM : Lasting commands M) {command : Command} {source : String} {body : Task Unit}
    (hsource : event.field "source" = .str source)
    (hbody : wp meanwhile body (fun _ r os' => Ended commands M entry event r os') start os) :
    wp meanwhile (do
      let error ← attempt body
      acknowledge event (command.fields event (event.field "payload") error) error)
      (fun _ r os' => r = .ok () → ∃ ok, Served commands M entry event ok os') start os := by
  have hattempt : wp meanwhile (attempt body) (fun _ r os' => ∀ error : Option String, r = .ok error →
      ∃ result : Except Exc Unit, result.isOk = error.isNone ∧ Ended commands M entry event result os')
      start os := by
    simp only [attempt, wp_catching, wp_bind]
    refine wp_imp hbody fun _ r os' h => ?_
    cases r with
    | ok _ => exact fun error herror => ⟨.ok (), by simp [← Except.ok.inj herror, Except.isOk, Except.toBool], h⟩
    | error raised =>
      simp only
      split
      · exact fun error herror =>
          ⟨.error raised, by simp [← Except.ok.inj herror, Except.isOk, Except.toBool], h⟩
      · exact fun error herror => by simp at herror
  refine wp_seq hattempt (fun _ _ _ _ => absurd_error) fun _ error os' h => ?_
  obtain ⟨result, hresult, T, heffect, hcourse, hlasted⟩ := h error rfl
  have hitem : event.item "source" = .ok (.str source) := Value.item_eq_field hsource (by simp)
  obtain ⟨⟨name, hname, hinject⟩, hok⟩ := command.acknowledges event (event.field "payload") error
  obtain ⟨spoken, hmem, hspoken⟩ := command.spoken event (event.field "payload") error
  generalize command.fields event (event.field "payload") error = fields at hname hok hspoken ⊢
  have hfield : Value.field (.dict (fields ++ verdictFields error)) "command" = .str name := by
    simp [Value.field, List.lookup_append, hname]
  have hspeech : Spoken (.str source) (fields ++ verdictFields error) :=
    ⟨rfl, Or.inr ⟨spoken, hmem, by simp [Value.field, List.lookup_append, hspoken]⟩⟩
  simp only [acknowledge, hitem, ofExcept_ok_bind]
  refine wp_kernelEmit hcourse.wired fun r os'' emitted _ => ⟨error.isNone, ⟨T, hresult ▸ heffect, ?_⟩, ?_, ?_⟩
  · exact ⟨emitted.still.wired hcourse.wired,
      hcourse.filed.emitted hcourse.wired says_unasked (Or.inl rfl) hspeech emitted,
      emitted.aside.authority ▸ hcourse.authority, emitted.still.entities.trans hcourse.entities,
      emitted.still.agentIds.trans hcourse.agentIds, trivial⟩
  · refine ⟨_, by rw [emitted.handled, List.getLast?_append, List.getLast?_singleton, Option.some_or], rfl, ?_⟩
    change ((emission "kernel" (.str source) (fields ++ verdictFields error)).field "payload").field "ok" = _
    rw [emission_payload]
    simp [Value.field, List.lookup_append, hok, verdictFields]
  · intro hsucceeded
    obtain ⟨hextra, hshown⟩ := hlasted (by
      cases result with
      | ok _ => rfl
      | error error => simp [← hresult, Except.isOk, Except.toBool] at hsucceeded)
    refine ⟨hM.acknowledged hcourse.wired hextra ⟨name, hfield, hinject⟩ emitted, fun hother agent hagent => ?_⟩
    rw [emitted.aside.authority]
    exact hshown hother agent hagent

/-- What becomes of an event: it is routed, or the kernel does not know its command, or it is a
command that is served; or the loop stops. -/
inductive Taken (commands : List String) (M : AgentOS → Prop) (entry : AgentOS) (producer : Producer)
    (event : Value) : Except Exc Unit → AgentOS → Prop where
  | routed {r : Except Exc Unit} {os : AgentOS} (processed : Processed producer event entry r os) :
      Taken commands M entry producer event r os
  | ignored {r : Except Exc Unit} : Taken commands M entry producer event r (entry.observe producer event event)
  | served {source : String} {ok : Bool} {os : AgentOS} (valid : entry.validate event = .accepted)
      (accepted : Accepted entry.registered event source "kernel")
      (served : Served commands M entry event ok os) : Taken commands M entry producer event (.ok ()) os
  | raised {error : Exc} {os : AgentOS} : Taken commands M entry producer event (.error error) os

/-- Recording an event leaves the tables. -/
theorem Course.observe {T : Tables} (h : Course commands M T entry) (hM : Lasting commands M) :
    Course commands M T (entry.observe producer event event) :=
  h.unheard hM (.of_eq rfl (List.prefix_append _ _) rfl rfl rfl) (wired_observe h.wired) rfl h.authority h.entities
    h.agentIds

/-- Processing an event. -/
theorem taken_processEvent (hregistry : Authority.registryCommands ⊆ commands) (hM : Lasting commands M)
    (h : Course commands M entry.tables entry) :
    wp meanwhile (processEvent producer event)
      (fun _ r os' => Taken commands M entry producer event r os') entry entry := by
  refine wp_processWith h.wired (fun r os' processed => .routed processed) fun source valid accepted => ?_
  simp only [onKernelWith, wp_bind, wp_ofExcept]
  cases hitem : event.item "payload" with
  | error error => exact .ignored
  | ok payload =>
    simp only
    cases hget : payload.get "command" .none with
    | error error => exact .ignored
    | ok value =>
      simp only
      split
      next command hcommand =>
        obtain rfl := Value.field_of_item hitem
        have hcarries : commandOf event = some command := by
          rw [commandOf, Value.field_of_get hget, hcommand]
        rw [serve_eq command hitem (isDict_of_commandOf hcarries) accepted.source_eq]
        refine wp_imp (served_handler hM accepted.source_eq
          (ended_body hregistry hM (h.observe hM) hcarries)) fun _ r os' hserved => ?_
        cases r with
        | error error => exact .raised
        | ok _ =>
          obtain ⟨ok, hserved⟩ := hserved rfl
          exact .served valid accepted hserved
      · exact .ignored

end Handlers

end AgentOS

end MyTeam.Kernel
