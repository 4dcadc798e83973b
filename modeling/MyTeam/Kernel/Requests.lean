import MyTeam.Kernel.Commands

/-!
# What the kernel's requests do

The kernel asks its devices by calling `respond` with a system event. Here each request is
evaluated once: what it answers and what it leaves in the tables. The rules for the
programs that make the requests follow, and later modules use only these.
-/

namespace MyTeam.Kernel

open MyTeam.Py MyTeam.Async Coroutine

/-- What the kernel says on its own account carries no command, or one of these. -/
def spokenCommands : List String :=
  ["denied", "inject", "receipt", "device_installed", "device_uninstalled",
    "maintenance_session_started", "scope_granted", "scope_revoked"]

/-- An event the kernel says on its own account: its target can be recorded, and its payload
is a dictionary without a command of the kernel or of a device. -/
structure Spoken (target : Value) (payload : List (String × Value)) : Prop where
  target : target.hashable = true
  command : Value.field (.dict payload) "command" = .none ∨
    ∃ command ∈ spokenCommands, Value.field (.dict payload) "command" = .str command

namespace Authority

/-- The tables after `register_request`. -/
def enroll (a : Authority) (identity : String) (info : Info) : Authority :=
  { a with identities := assign (.str identity) info a.identities }

/-- The tables after `unregister_request`. -/
def withdraw (a : Authority) (identity : String) : Authority :=
  { a with
    identities := a.identities.filter fun entry => entry.1 ≠ .str identity
    grants := a.grants.filter fun grant => grant.device ≠ .str identity }

/-- The tables after `grant_request`. -/
def addGrant (a : Authority) (grant : Grant) : Authority :=
  { a with grants := a.grants.insert grant }

/-- The tables after `revoke_request`. -/
def dropGrant (a : Authority) (grant : Grant) : Authority :=
  { a with grants := a.grants.filter fun other => other ≠ grant }

/-- The decision of `_authorize_device`. -/
def authorizesDevice (a : Authority) (actor : Value) (device : String) : Except Exc Bool := do
  if actor.isStr "kernel" then return true
  if ← a.authorized actor (.str "install") then return true
  let auth ← a.authContext actor
  let scopes ← auth.get "scopes" (.list [])
  AgentOS.maintains device (← scopes.iter)

section Respond

variable (a : Authority)

theorem respond_authorize (identity : Value) (scope : String) :
    a.respond (systemRequest "authority" [("command", .str "authorize_request"),
      ("identity", identity), ("scope", .str scope)]) = do
        return (a, answer "allowed" (.bool (← a.authorized identity (.str scope)))) := by
  simp [respond, systemRequest, Value.get, Value.item, Value.isStr, List.lookup_cons]

theorem respond_auth (identity : Value) :
    a.respond (systemRequest "authority" [("command", .str "auth_request"),
      ("identity", identity)]) = do return (a, answer "auth" (← a.authContext identity)) := by
  simp [respond, systemRequest, Value.get, Value.item, Value.isStr, List.lookup_cons]

theorem respond_agents : a.respond (systemRequest "authority" [("command", .str "agents_request")]) =
    .ok (a, answer "agents" (.list a.agents)) := by
  simp [respond, systemRequest, Value.get, Value.item, Value.isStr, List.lookup_cons, pure, Except.pure]

theorem respond_inject (agent : Value) :
    a.respond (systemRequest "authority" [("command", .str "inject_request"), ("agent", agent)]) =
      a.buildInject agent := by
  simp [respond, systemRequest, Value.get, Value.item, Value.isStr, List.lookup_cons]

theorem respond_deviceGrants (identity : String) :
    a.respond (systemRequest "authority" [("command", .str "device_grants_request"),
      ("identity", .str identity)]) =
      .ok (a, answer "grants" (.list (a.deviceGrants (.str identity)))) := by
  simp [respond, systemRequest, Value.get, Value.item, Value.isStr, List.lookup_cons, pure, Except.pure]

theorem respond_register (identity : String) (tools scopes : Value) (agent : Bool) (position : Value) :
    a.respond (systemRequest "authority" [("command", .str "register_request"),
      ("identity", .str identity), ("tools", tools), ("agent", .bool agent),
      ("position", position), ("scopes", scopes)]) =
      .ok (a.enroll identity ⟨tools.orElse (.list []), scopes.orElse (.list []), agent, position⟩,
        void) := by
  simp [respond, registerRequest, systemRequest, Value.get, Value.item, Value.isStr, List.lookup_cons,
    pure, Except.pure, Value.truthy, enroll]

theorem respond_unregister (identity : String) :
    a.respond (systemRequest "authority" [("command", .str "unregister_request"),
      ("identity", .str identity)]) = .ok (a.withdraw identity, void) := by
  simp [respond, unregisterRequest, systemRequest, Value.get, Value.item, Value.isStr, List.lookup_cons,
    pure, Except.pure, withdraw]

theorem respond_grant (position : Value) (device : String) (token : Value) :
    a.respond (systemRequest "authority" [("command", .str "grant_request"),
      ("position", position), ("device", .str device), ("token", token)]) = do
        let p ← position.key
        let t ← token.key
        return (a.addGrant ⟨p, .str device, t⟩, void) := by
  simp [respond, grantRequest, requestedGrant, systemRequest, Value.get, Value.item, Value.isStr,
    List.lookup_cons, addGrant]

theorem respond_revoke (position device token : String) :
    a.respond (systemRequest "authority" [("command", .str "revoke_request"),
      ("position", .str position), ("device", .str device), ("token", .str token)]) =
      .ok (a.dropGrant ⟨.str position, .str device, .str token⟩, void) := by
  simp [respond, revokeRequest, requestedGrant, systemRequest, Value.get, Value.item, Value.isStr,
    List.lookup_cons, pure, Except.pure, dropGrant]

end Respond

/-- A command that changes the tables, from the source that may give it. -/
def Mutates (event : Value) (commands : List String) : Prop :=
  event.field "source" = .str "system" ∧
    ∃ command ∈ commands, (event.field "payload").field "command" = .str command

/-- Registration leaves the grants. -/
theorem grants_of_register {a a' : Authority} {payload : Value}
    (h : a.registerRequest payload = .ok a') : a'.grants = a.grants := by
  simp only [registerRequest, bind_eq_ok] at h
  obtain ⟨_, -, _, -, _, -, _, -, _, -, _, -, h⟩ := h
  rw [← Except.ok.inj h]

/-- Granting leaves the identities. -/
theorem identities_of_grant {a a' : Authority} {payload : Value}
    (h : a.grantRequest payload = .ok a') : a'.identities = a.identities := by
  obtain ⟨grant, -, h⟩ := bind_eq_ok.mp h
  rw [← Except.ok.inj h]

/-- Unregistering adds no grant. -/
theorem grants_of_unregister {a a' : Authority} {payload : Value} {grant : Grant}
    (h : a.unregisterRequest payload = .ok a') (hmem : grant ∈ a'.grants) : grant ∈ a.grants := by
  obtain ⟨identity, -, h⟩ := bind_eq_ok.mp h
  have hgrants : a'.grants = a.grants.filter fun grant => !identity.hasKey grant.device := by
    simp only at h
    split at h
    · obtain ⟨key, -, h⟩ := bind_eq_ok.mp h
      rw [← Except.ok.inj h]
    · rw [← Except.ok.inj h]
  rw [hgrants] at hmem
  exact (List.mem_filter.mp hmem).1

/-- Revoking adds no grant. -/
theorem grants_of_revoke {a a' : Authority} {payload : Value} {grant : Grant}
    (h : a.revokeRequest payload = .ok a') (hmem : grant ∈ a'.grants) : grant ∈ a.grants := by
  obtain ⟨requested, -, h⟩ := bind_eq_ok.mp h
  rw [← Except.ok.inj h] at hmem
  exact (List.mem_filter.mp hmem).1

/-- Revoking leaves the identities. -/
theorem identities_of_revoke {a a' : Authority} {payload : Value}
    (h : a.revokeRequest payload = .ok a') : a'.identities = a.identities := by
  obtain ⟨grant, -, h⟩ := bind_eq_ok.mp h
  rw [← Except.ok.inj h]

/-- Building an injection changes only what was injected, and answers an event for the agent. -/
theorem buildInject_cases {a a' : Authority} {agent reply : Value}
    (h : a.buildInject agent = .ok (a', reply)) :
    (∃ payload, reply = applicationEvent agent payload ∧ Spoken agent payload) ∧
      a'.identities = a.identities ∧ a'.grants = a.grants := by
  obtain ⟨key, hkey, h⟩ := bind_eq_ok.mp h
  split at h
  next info hinfo =>
    simp only [pure_bind, bind_eq_ok] at h
    obtain ⟨_, -, _, -, _, -, _, -, h⟩ := h
    obtain ⟨rfl, rfl⟩ := Prod.mk.inj (Except.ok.inj h)
    refine ⟨⟨_, rfl, Value.hashable_of_key hkey, Or.inr ⟨"inject", by decide, ?_⟩⟩, rfl, rfl⟩
    simp [Value.field]
  next => simp [throw, throwThe, MonadExceptOf.throw] at h

/-- Answers to queries carry no command. -/
theorem spoken_answer {name : String} {value : Value} (h : name ≠ "command") :
    Spoken (.str "kernel") [(name, value)] :=
  ⟨rfl, Or.inl (by simp [Value.field, List.lookup_cons, beq_false_of_ne h.symm])⟩

/-- How the tables may change when an event is answered: the identities on two commands, the
grants on three, of which one adds the grant that was asked for. -/
structure Answered (event : Value) (a a' : Authority) : Prop where
  identities : a'.identities = a.identities ∨ Mutates event ["register_request", "unregister_request"]
  grants : a'.grants = a.grants ∨
    Mutates event ["unregister_request", "grant_request", "revoke_request"]
  added : ∀ grant ∈ a'.grants, grant ∈ a.grants ∨ Mutates event ["grant_request"] ∧
    requestedGrant (event.field "payload") = .ok grant

/-- Most answers change neither. -/
theorem Answered.same {event : Value} {a a' : Authority} (identities : a'.identities = a.identities)
    (grants : a'.grants = a.grants) : Answered event a a' :=
  ⟨Or.inl identities, Or.inl grants, fun _ hmem => Or.inl (grants ▸ hmem)⟩

/-- What answering an event does, whatever the event is: the tables change only for `system`
and only on four commands, and what is answered is an application event or nothing. -/
theorem respond_cases {a a' : Authority} {event reply : Value}
    (h : a.respond event = .ok (a', reply)) :
    (reply = void ∨ ∃ target payload, reply = applicationEvent target payload ∧
        ((event.field "source").hashable = true → Spoken target payload)) ∧ Answered event a a' := by
  obtain ⟨source, hsource, h⟩ := bind_eq_ok.mp h
  have hfield := Value.field_of_get hsource
  split at h
  · obtain ⟨target, htarget, h⟩ := bind_eq_ok.mp h
    obtain ⟨rfl, rfl⟩ := Prod.mk.inj (Except.ok.inj h)
    refine ⟨Or.inr ⟨_, _, rfl, fun hhash => ⟨?_, Or.inr ⟨"denied", by decide, ?_⟩⟩⟩, .same rfl rfl⟩
    · rwa [← Value.field_of_item htarget]
    · simp [Value.field]
  next hsystem =>
  have hsource : event.field "source" = .str "system" := by
    rw [hfield]
    exact Value.isStr_iff.mp (by simpa using hsystem)
  obtain ⟨payload, hpayload, h⟩ := bind_eq_ok.mp h
  have hpayload := Value.field_of_item hpayload
  obtain ⟨command, hcommand, h⟩ := bind_eq_ok.mp h
  have hcommand := Value.field_of_get hcommand
  have mutates {name : String} {commands : List String} (hmem : name ∈ commands)
      (hname : command.isStr name = true) : Mutates event commands :=
    ⟨hsource, name, hmem, by rw [hpayload, hcommand, Value.isStr_iff.mp hname]⟩
  split at h
  next hname =>
    obtain ⟨registered, hregister, h⟩ := bind_eq_ok.mp h
    obtain ⟨rfl, rfl⟩ := Prod.mk.inj (Except.ok.inj h)
    have hgrants := grants_of_register hregister
    exact ⟨Or.inl rfl, Or.inr (mutates (by simp) hname), Or.inl hgrants,
      fun _ hmem => Or.inl (hgrants ▸ hmem)⟩
  split at h
  next hname =>
    obtain ⟨unregistered, hunregister, h⟩ := bind_eq_ok.mp h
    obtain ⟨rfl, rfl⟩ := Prod.mk.inj (Except.ok.inj h)
    exact ⟨Or.inl rfl, Or.inr (mutates (by simp) hname), Or.inr (mutates (by simp) hname),
      fun grant hmem => Or.inl (grants_of_unregister hunregister hmem)⟩
  split at h
  next hname =>
    obtain ⟨granted, hgrant, h⟩ := bind_eq_ok.mp h
    obtain ⟨rfl, rfl⟩ := Prod.mk.inj (Except.ok.inj h)
    obtain ⟨grant, hrequested, hadded⟩ := bind_eq_ok.mp hgrant
    refine ⟨Or.inl rfl, Or.inl (identities_of_grant hgrant), Or.inr (mutates (by simp) hname),
      fun other hmem => ?_⟩
    rw [← Except.ok.inj hadded] at hmem
    rcases List.mem_insert_iff.mp hmem with rfl | hmem
    · exact Or.inr ⟨mutates (by simp) hname, hpayload ▸ hrequested⟩
    · exact Or.inl hmem
  split at h
  next hname =>
    obtain ⟨revoked, hrevoke, h⟩ := bind_eq_ok.mp h
    obtain ⟨rfl, rfl⟩ := Prod.mk.inj (Except.ok.inj h)
    exact ⟨Or.inl rfl, Or.inl (identities_of_revoke hrevoke), Or.inr (mutates (by simp) hname),
      fun grant hmem => Or.inl (grants_of_revoke hrevoke hmem)⟩
  split at h
  · obtain ⟨identity, -, h⟩ := bind_eq_ok.mp h
    obtain ⟨rfl, rfl⟩ := Prod.mk.inj (Except.ok.inj h)
    exact ⟨Or.inr ⟨_, _, rfl, fun _ => spoken_answer (by decide)⟩, .same rfl rfl⟩
  split at h
  · obtain ⟨identity, -, h⟩ := bind_eq_ok.mp h
    obtain ⟨scope, -, h⟩ := bind_eq_ok.mp h
    obtain ⟨allowed, -, h⟩ := bind_eq_ok.mp h
    obtain ⟨rfl, rfl⟩ := Prod.mk.inj (Except.ok.inj h)
    exact ⟨Or.inr ⟨_, _, rfl, fun _ => spoken_answer (by decide)⟩, .same rfl rfl⟩
  split at h
  · obtain ⟨identity, -, h⟩ := bind_eq_ok.mp h
    obtain ⟨auth, -, h⟩ := bind_eq_ok.mp h
    obtain ⟨rfl, rfl⟩ := Prod.mk.inj (Except.ok.inj h)
    exact ⟨Or.inr ⟨_, _, rfl, fun _ => spoken_answer (by decide)⟩, .same rfl rfl⟩
  split at h
  · obtain ⟨agent, -, h⟩ := bind_eq_ok.mp h
    obtain ⟨⟨payload, rfl, hspoken⟩, hidentities, hgrants⟩ := buildInject_cases h
    exact ⟨Or.inr ⟨_, _, rfl, fun _ => hspoken⟩, .same hidentities hgrants⟩
  split at h
  · obtain ⟨rfl, rfl⟩ := Prod.mk.inj (Except.ok.inj h)
    exact ⟨Or.inr ⟨_, _, rfl, fun _ => spoken_answer (by decide)⟩, .same rfl rfl⟩
  · obtain ⟨rfl, rfl⟩ := Prod.mk.inj (Except.ok.inj h)
    exact ⟨Or.inl rfl, .same rfl rfl⟩

end Authority

namespace AgentOS

variable {c : Contract AgentOS} {start os : AgentOS}

/-- A request to the Authority changes its tables only. -/
theorem wp_askAuthority {payload : List (String × Value)}
    {Q : AgentOS → Except Exc Value → AgentOS → Prop} :
    wp c (askAuthority payload) Q start os ↔
      match os.authority.respond (systemRequest "authority" payload) with
      | .ok (authority, reply) => Q start (.ok reply) { os with authority }
      | .error error => Q start (.error error) os := by
  simp only [askAuthority, wp_bind, wp_get, wp_ofExcept]
  cases os.authority.respond (systemRequest "authority" payload) with
  | error error => rfl
  | ok answer => rfl

@[simp] theorem wp_authorize {identity : Value} {scope : String}
    {Q : AgentOS → Except Exc Bool → AgentOS → Prop} :
    wp c (authorize identity scope) Q start os ↔
      Q start (os.authority.authorized identity (.str scope)) os := by
  simp only [authorize, wp_bind, wp_askAuthority, Authority.respond_authorize]
  cases os.authority.authorized identity (.str scope) with
  | error error => rfl
  | ok allowed =>
    simp [pure, Except.pure, Authority.answer, applicationEvent, Value.item, List.lookup_cons]
    rfl

@[simp] theorem wp_authContext {identity : Value} {Q : AgentOS → Except Exc Value → AgentOS → Prop} :
    wp c (authContext identity) Q start os ↔ Q start (os.authority.authContext identity) os := by
  simp only [authContext, wp_bind, wp_askAuthority, Authority.respond_auth]
  cases os.authority.authContext identity with
  | error error => rfl
  | ok auth => simp [pure, Except.pure, Authority.answer, applicationEvent, Value.item, List.lookup_cons]

@[simp] theorem wp_agents {Q : AgentOS → Except Exc (List Value) → AgentOS → Prop} :
    wp c agents Q start os ↔ Q start (.ok os.authority.agents) os := by
  simp only [agents, wp_bind, wp_askAuthority, Authority.respond_agents]
  simp [Authority.answer, applicationEvent, Value.item, List.lookup_cons, Value.iter]

@[simp] theorem wp_unregister {identity : String} {Q : AgentOS → Except Exc Unit → AgentOS → Prop} :
    wp c (unregister identity) Q start os ↔
      Q start (.ok ()) { os with authority := os.authority.withdraw identity } := by
  simp only [unregister, wp_bind, wp_askAuthority, Authority.respond_unregister, wp_pure]

@[simp] theorem wp_authorizeDevice {actor : Value} {device : String}
    {Q : AgentOS → Except Exc Bool → AgentOS → Prop} :
    wp c (authorizeDevice actor device) Q start os ↔
      Q start (os.authority.authorizesDevice actor device) os := by
  unfold authorizeDevice Authority.authorizesDevice
  split
  · rfl
  simp only [wp_bind, wp_authorize]
  cases os.authority.authorized actor (.str "install") with
  | error error => rfl
  | ok allowed =>
    cases allowed with
    | true => rfl
    | false =>
      simp only [Bool.false_eq_true, if_false, wp_bind, wp_authContext, ok_bind]
      cases os.authority.authContext actor with
      | error error => rfl
      | ok auth =>
        simp only [wp_ofExcept, ok_bind]
        cases auth.get "scopes" (.list []) with
        | error error => rfl
        | ok scopes =>
          simp only [ok_bind]
          cases scopes.iter <;> simp

end AgentOS

end MyTeam.Kernel
