import MyTeam.Kernel.Requests

/-!
# What the kernel commands check

Each command begins with checks that change nothing. For each there is a structure of what
is known once they have passed, and a rule for the program that makes them: it raises, or it
passes on what the structure says. Everything the checks raise is caught by the handler,
unless a device module raises something stronger while it is loaded.
-/

namespace MyTeam.Kernel

open MyTeam.Py MyTeam.Async Coroutine

section Caught

theorem caught_maintains (device : String) (scopes : List Value) :
    Caught (AgentOS.maintains device scopes) := by
  induction scopes with
  | nil => exact caught_ok _
  | cons scope rest ih =>
    refine caught_bind (caught_get _ _ _) fun granted => ?_
    split
    · refine caught_bind (caught_get _ _ _) fun token => caught_bind (caught_key _) fun key => ?_
      split
      · exact caught_pure _
      · exact ih
    · exact ih

namespace Authority

variable (a : Authority)

theorem caught_positionOf (identity : Value) : Caught (a.positionOf identity) :=
  caught_bind (caught_key _) fun _ => caught_pure _

theorem caught_authorized (identity scope : Value) : Caught (a.authorized identity scope) := by
  refine caught_bind (a.caught_positionOf identity) fun position => ?_
  split
  · exact caught_pure _
  split
  · exact caught_pure _
  exact caught_bind (caught_key _) fun _ => caught_bind (caught_key _) fun _ => caught_pure _

theorem caught_authContext (identity : Value) : Caught (a.authContext identity) :=
  caught_bind (a.caught_positionOf identity) fun _ =>
    caught_bind (caught_sorted caught_ltPair _) fun _ => caught_pure _

theorem caught_authorizesDevice (actor : Value) (device : String) :
    Caught (a.authorizesDevice actor device) := by
  unfold authorizesDevice
  split
  · exact caught_pure _
  refine caught_bind (a.caught_authorized _ _) fun allowed => ?_
  split
  · exact caught_pure _
  exact caught_bind (a.caught_authContext _) fun _ => caught_bind (caught_get _ _ _) fun _ =>
    caught_bind (caught_iter _) fun _ => caught_maintains _ _

end Authority

end Caught

namespace AgentOS

variable {c : Contract AgentOS} {start os : AgentOS}

theorem caught_requireName (missing : String) (v : Value) : Caught (requireName missing v) := by
  cases v with
  | str name =>
    simp only [requireName]
    split
    · exact caught_error rfl
    · exact caught_ok _
  | _ => exact caught_error rfl

/-- A name that is not missing. -/
theorem requireName_ok {missing name : String} {v : Value} (h : requireName missing v = .ok name) :
    v = .str name ∧ name ≠ "" := by
  cases v with
  | str s =>
    simp only [requireName] at h
    split at h
    · simp at h
    next hne => exact Except.ok.inj h ▸ ⟨rfl, hne⟩
  | _ => simp [requireName] at h

theorem caught_requireGrants (v : Value) : Caught (requireGrants v) := by
  cases v with
  | list grants =>
    simp only [requireGrants]
    split
    · exact caught_ok _
    · exact caught_error rfl
  | _ => exact caught_error rfl

/-- The positions of an install. -/
theorem requireGrants_ok {v : Value} {grants : List Value} (h : requireGrants v = .ok grants) :
    v = .list grants ∧ grants ≠ [] ∧ ∀ grant ∈ grants, isName grant = true := by
  cases v with
  | list xs =>
    simp only [requireGrants] at h
    split at h
    next hall =>
      simp only [Bool.and_eq_true, List.all_eq_true] at hall
      exact Except.ok.inj h ▸ ⟨rfl, by simpa using hall.1, hall.2⟩
    · simp at h
  | _ => simp [requireGrants] at h

/-- The sender is authorized, or the command is refused. -/
theorem wp_requireDevice {event : Value} {device refusal : String}
    {Q : AgentOS → Except Exc Unit → AgentOS → Prop}
    (hno : ∀ error, error.caught = true → Q start (.error error) os)
    (hyes : os.authority.authorizesDevice (event.field "source") device = .ok true →
      Q start (.ok ()) os) :
    wp c (requireDevice event device refusal) Q start os := by
  simp only [requireDevice, wp_bind, wp_ofExcept]
  cases hitem : event.item "source" with
  | error error => exact hno error (caught_item _ _ error hitem)
  | ok source =>
    have hsource := Value.field_of_item hitem
    simp only [wp_authorizeDevice]
    cases hauth : os.authority.authorizesDevice source device with
    | error error => exact hno error (Authority.caught_authorizesDevice _ _ _ error hauth)
    | ok allowed =>
      cases allowed with
      | true => exact hyes (by rw [hsource, hauth])
      | false => exact hno _ rfl

/-- The identity is not an agent's, or the command is refused. -/
theorem wp_refuseAgent {identity complaint : String} {all : List Value}
    {Q : AgentOS → Except Exc Unit → AgentOS → Prop}
    (hno : ∀ error, error.caught = true → Q start (.error error) os)
    (hyes : (all.any fun agent => agent.isStr identity) = false → Q start (.ok ()) os) :
    wp c (refuseAgent identity complaint all) Q start os := by
  unfold refuseAgent
  split
  · exact hno _ rfl
  next h => exact hyes (Bool.of_not_eq_true h)

/-- The options of an install can be given to the process: they are empty or a dictionary. -/
def optional (payload : Value) : Bool :=
  !(payload.field "options").truthy || (payload.field "options").isDict

/-- What an install has checked before it loads the module. -/
structure InstallChecked (os : AgentOS) (event payload : Value) (identity : String)
    (grants : List Value) : Prop where
  identity_eq : payload.field "identity" = .str identity
  identity_ne : identity ≠ ""
  legal : illegal identity = false
  authorised : os.authority.authorizesDevice (event.field "source") identity = .ok true
  grants_eq : payload.field "grants" = .list grants
  grants_ne : grants ≠ []
  positions : ∀ grant ∈ grants, isName grant = true
  device : (os.authority.agents.any fun agent => agent.isStr identity) = false

/-- The checks read the Authority's tables only. -/
theorem InstallChecked.of_authority {os os' : AgentOS} {event payload : Value} {identity : String}
    {grants : List Value} (h : InstallChecked os event payload identity grants)
    (hauthority : os'.authority = os.authority) : InstallChecked os' event payload identity grants :=
  ⟨h.identity_eq, h.identity_ne, h.legal, hauthority ▸ h.authorised, h.grants_eq, h.grants_ne,
    h.positions, hauthority ▸ h.device⟩

/-- The checks of `_install`. -/
theorem wp_installRequest {event payload : Value}
    {Q : AgentOS → Except Exc (String × List Value × List Value × List Value × List Value) →
      AgentOS → Prop}
    (hno : ∀ error, error.caught = true → Q start (.error error) os)
    (hload : ∀ identity grants, InstallChecked os event payload identity grants →
      Q start (match loadModule (os.sourceFile identity) (os.disk.module identity) with
        | .ok (tools, scopes) => .ok (identity, grants, os.authority.agents, tools, scopes)
        | .error error => .error error) os) :
    wp c (installRequest event payload) Q start os := by
  simp only [installRequest, wp_bind, wp_ofExcept]
  cases hget : payload.get "identity" .none with
  | error error => exact hno error (caught_get _ _ _ error hget)
  | ok value =>
    simp only
    cases hname : requireName "install_device 缺 identity" value with
    | error error => exact hno error (caught_requireName _ _ error hname)
    | ok identity =>
      obtain ⟨rfl, hne⟩ := requireName_ok hname
      simp only
      split
      · exact hno _ rfl
      next hlegal =>
      simp only [wp_bind]
      refine wp_requireDevice hno fun hauth => ?_
      simp only [wp_ofExcept]
      cases hgrants : payload.get "grants" .none with
      | error error => exact hno error (caught_get _ _ _ error hgrants)
      | ok value =>
        simp only
        cases hrequire : requireGrants value with
        | error error => exact hno error (caught_requireGrants _ error hrequire)
        | ok grants =>
          obtain ⟨rfl, hnonempty, hpositions⟩ := requireGrants_ok hrequire
          simp only [wp_agents]
          refine wp_refuseAgent hno fun hdevice => ?_
          simp only [wp_get]
          have := hload identity grants ⟨Value.field_of_get hget, hne, Bool.of_not_eq_true hlegal,
            hauth, Value.field_of_get hgrants, hnonempty, hpositions, hdevice⟩
          revert this
          cases loadModule (os.sourceFile identity) (os.disk.module identity) <;> exact id

/-- What an uninstall has checked. -/
structure UninstallChecked (os : AgentOS) (event payload : Value) (identity : String)
    (handle : ℕ) : Prop where
  identity_eq : payload.field "identity" = .str identity
  authorised : os.authority.authorizesDevice (event.field "source") identity = .ok true
  entity : os.entities identity = some (.process handle)
  device : (os.authority.agents.any fun agent => agent.isStr identity) = false

/-- The checks of `_uninstall`. -/
theorem wp_uninstallRequest {event payload : Value}
    {Q : AgentOS → Except Exc (String × ℕ × List Value) → AgentOS → Prop}
    (hno : ∀ error, error.caught = true → Q start (.error error) os)
    (hyes : ∀ identity handle, UninstallChecked os event payload identity handle →
      Q start (.ok (identity, handle, os.authority.agents)) os) :
    wp c (uninstallRequest event payload) Q start os := by
  simp only [uninstallRequest, wp_bind, wp_ofExcept]
  cases hget : payload.get "identity" .none with
  | error error => exact hno error (caught_get _ _ _ error hget)
  | ok value =>
    simp only
    cases hname : requireName "uninstall_device 缺 identity" value with
    | error error => exact hno error (caught_requireName _ _ error hname)
    | ok identity =>
      obtain ⟨rfl, -⟩ := requireName_ok hname
      simp only
      refine wp_requireDevice hno fun hauth => ?_
      simp only [wp_get]
      split
      · exact hno _ rfl
      · exact hno _ rfl
      · simp only [wp_bind, wp_agents]
        refine wp_refuseAgent hno fun hdevice => ?_
        simp only
        split
        next handle entity =>
          exact hyes identity handle ⟨Value.field_of_get hget, hauth, entity, hdevice⟩
        · exact hno _ rfl

/-- What a maintenance session has checked. -/
structure MaintenanceChecked (os : AgentOS) (event payload : Value) (target actor : String)
    (handle : ℕ) (position : String) : Prop where
  target_eq : payload.field "target_device" = .str target
  legal : illegal target = false
  actor_eq : event.field "source" = .str actor
  agent : os.isDevice (.str actor) = false
  authorised : os.authority.authorizesDevice (event.field "source") target = .ok true
  unloaded : os.entities target = none
  home : os.disk.home target = true
  entity : os.entities actor = some (.process handle)
  positioned : os.authority.positionOf (.str actor) = .ok (.str position)

/-- The position in an authentication context is the registered one. -/
theorem positionOf_of_authContext {a : Authority} {identity auth position : Value}
    (h : a.authContext identity = .ok auth) (hget : auth.get "position" .none = .ok position) :
    a.positionOf identity = .ok position := by
  obtain ⟨registered, hposition, h⟩ := bind_eq_ok.mp h
  obtain ⟨scopes, -, h⟩ := bind_eq_ok.mp h
  obtain rfl := Except.ok.inj h
  have hsame : registered = position := by simpa [Value.get, List.lookup_cons] using hget
  rw [hposition, hsame]

/-- The checks of `_maintenance_session`. -/
theorem wp_maintenanceRequest {event payload : Value}
    {Q : AgentOS → Except Exc (String × String × ℕ × String) → AgentOS → Prop}
    (hno : ∀ error, error.caught = true → Q start (.error error) os)
    (hyes : ∀ target actor handle position,
      MaintenanceChecked os event payload target actor handle position →
      Q start (.ok (target, actor, handle, position)) os) :
    wp c (maintenanceRequest event payload) Q start os := by
  simp only [maintenanceRequest, wp_bind, wp_ofExcept]
  cases hget : payload.get "target_device" .none with
  | error error => exact hno error (caught_get _ _ _ error hget)
  | ok value =>
    simp only
    cases hname : requireName "maintenance_session 缺 target_device" value with
    | error error => exact hno error (caught_requireName _ _ error hname)
    | ok target =>
      obtain ⟨rfl, -⟩ := requireName_ok hname
      simp only
      split
      · exact hno _ rfl
      next hlegal =>
      simp only [wp_bind, wp_ofExcept]
      cases hitem : event.item "source" with
      | error error => exact hno error (caught_item _ _ error hitem)
      | ok actor =>
        have hactor := Value.field_of_item hitem
        simp only [wp_get]
        split
        · exact hno _ rfl
        next hdevice =>
        simp only [wp_bind]
        refine wp_requireDevice hno fun hauth => ?_
        simp only
        split
        · exact hno _ rfl
        next hloaded =>
        split
        · exact hno _ rfl
        next hhome =>
        split
        next name handle entity =>
          simp only [wp_bind, wp_authContext]
          cases hcontext : os.authority.authContext (.str name) with
          | error error => exact hno error (Authority.caught_authContext _ _ error hcontext)
          | ok auth =>
            simp only [wp_ofExcept]
            cases hposition : auth.get "position" .none with
            | error error => exact hno error (caught_get _ _ _ error hposition)
            | ok position =>
              simp only
              split
              next position =>
                refine hyes target name handle position ⟨Value.field_of_get hget,
                  Bool.of_not_eq_true hlegal, hactor, Bool.of_not_eq_true hdevice, hauth, ?_, ?_,
                  entity, positionOf_of_authContext hcontext hposition⟩
                · simpa [registered] using hloaded
                · simpa using hhome
              · exact hno _ rfl
        · exact hno _ rfl

/-- What a change of scopes has checked. -/
structure ScopeChecked (os : AgentOS) (event payload : Value) (position device token : String) :
    Prop where
  position_eq : payload.field "position" = .str position
  device_eq : payload.field "device" = .str device
  token_eq : payload.field "token" = .str token
  granting : os.authority.authorized (event.field "source") (.str "grant") = .ok true
  delegated : device = "org" →
    os.authority.authorized (event.field "source") (.str "org") = .ok true

/-- The checks of `_scope`. -/
theorem wp_scopeRequest {event payload : Value}
    {Q : AgentOS → Except Exc (String × String × String) → AgentOS → Prop}
    (hno : ∀ error, error.caught = true → Q start (.error error) os)
    (hyes : ∀ position device token, ScopeChecked os event payload position device token →
      Q start (.ok (position, device, token)) os) :
    wp c (scopeRequest event payload) Q start os := by
  simp only [scopeRequest, wp_bind, wp_ofExcept]
  cases hposition : payload.get "position" .none with
  | error error => exact hno error (caught_get _ _ _ error hposition)
  | ok position =>
  simp only
  cases hdevice : payload.get "device" .none with
  | error error => exact hno error (caught_get _ _ _ error hdevice)
  | ok device =>
  simp only
  cases htoken : payload.get "token" .none with
  | error error => exact hno error (caught_get _ _ _ error htoken)
  | ok token =>
  simp only
  cases hp : requireName "grant/revoke_scope 缺 position/device/token" position with
  | error error => exact hno error (caught_requireName _ _ error hp)
  | ok position =>
  simp only
  cases hd : requireName "grant/revoke_scope 缺 position/device/token" device with
  | error error => exact hno error (caught_requireName _ _ error hd)
  | ok device =>
  simp only
  cases ht : requireName "grant/revoke_scope 缺 position/device/token" token with
  | error error => exact hno error (caught_requireName _ _ error ht)
  | ok token =>
  obtain ⟨rfl, -⟩ := requireName_ok hp
  obtain ⟨rfl, -⟩ := requireName_ok hd
  obtain ⟨rfl, -⟩ := requireName_ok ht
  simp only
  cases hitem : event.item "source" with
  | error error => exact hno error (caught_item _ _ error hitem)
  | ok source =>
  have hsource := Value.field_of_item hitem
  -- the second check, once grants on `org` are known to be delegated
  have hgrant (hdelegated : device = "org" →
      os.authority.authorized (event.field "source") (.str "org") = .ok true) :
      wp c (do
        if ← authorize source "grant" then return (position, device, token)
        else raise (.valueError "无人事权（需 root 或 org:grant）")) Q start os := by
    simp only [wp_bind, wp_authorize]
    cases hauth : os.authority.authorized source (.str "grant") with
    | error error => exact hno error (Authority.caught_authorized _ _ _ error hauth)
    | ok allowed =>
      cases allowed with
      | true =>
        exact hyes position device token ⟨Value.field_of_get hposition, Value.field_of_get hdevice,
          Value.field_of_get htoken, by rw [hsource, hauth], hdelegated⟩
      | false => exact hno _ rfl
  simp only
  split
  next horg =>
    simp only [wp_bind, wp_authorize]
    cases hauth : os.authority.authorized source (.str "org") with
    | error error => exact hno error (Authority.caught_authorized _ _ _ error hauth)
    | ok allowed =>
      cases allowed with
      | true => exact hgrant fun _ => by rw [hsource, hauth]
      | false => exact hno _ rfl
  next hother => exact hgrant fun horg => absurd horg hother

end AgentOS

end MyTeam.Kernel
