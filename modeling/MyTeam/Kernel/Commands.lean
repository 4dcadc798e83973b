import MyTeam.Kernel.AgentOS

/-!
# The kernel commands

`install_device`, `uninstall_device`, `maintenance_session`, `grant_scope` and
`revoke_scope`. Every handler runs in one `try` that turns an exception into a negative
acknowledgement; what was done before the exception stays done.
-/

namespace MyTeam.Kernel

open MyTeam.Py MyTeam.Async Coroutine

namespace AgentOS

/-- `try: body; ok, error = True, None; except Exception as exc: ok, error = False, str(exc)`. -/
def attempt (body : Task Unit) : Task (Option String) :=
  catching (do body; return none) fun error =>
    if error.caught then return some error.message else raise error

/-- The `ok` and `error` fields of an acknowledgement. -/
def verdictFields (error : Option String) : List (String × Value) :=
  [("ok", .bool error.isNone), ("error", match error with
    | none => .none
    | some message => .str message)]

/-- Emit an acknowledgement to the source of a command. -/
def acknowledge (event : Value) (fields : List (String × Value)) (error : Option String) :
    Task Unit := do
  let source ← ofExcept (event.item "source")
  kernelEmit "kernel" (applicationEvent source (fields ++ verdictFields error))

/-- `_ack` of the commands about one identity. -/
def ack (event : Value) (command : String) (identity : Value) (error : Option String) : Task Unit :=
  acknowledge event [("command", .str command), ("identity", identity)] error

/-- A nonempty string, or the complaint that it is missing. -/
def requireName (missing : String) : Value → Except Exc String
  | .str name => if name = "" then .error (.valueError missing) else .ok name
  | _ => .error (.valueError missing)

/-- Take a handle out of `entities` first, then terminate its process. -/
def retire (identity : String) (handle : ℕ) : Task Unit := do
  modify fun os => os.remove identity handle
  terminate handle

/-- The `grants` of an install: a nonempty list of nonempty strings. -/
def requireGrants : Value → Except Exc (List Value)
  | .list grants =>
    if !grants.isEmpty && grants.all isName then .ok grants
    else .error (.valueError "install_device 缺 grants（布线声明：非空 position 列表）")
  | _ => .error (.valueError "install_device 缺 grants（布线声明：非空 position 列表）")

/-- Refuse a command whose sender is not authorized for the device. -/
def requireDevice (event : Value) (device refusal : String) : Task Unit := do
  let source ← ofExcept (event.item "source")
  if ← authorizeDevice source device then return ()
  else raise (.valueError refusal)

/-- Refuse the identities of agents. -/
def refuseAgent (identity complaint : String) (agents : List Value) : Task Unit :=
  if agents.any fun agent => agent.isStr identity then
    raise (.valueError (complaint ++ Value.reprStr identity))
  else return ()

/-- The refusal of `install_device` and `uninstall_device`. -/
def noMaintenance : String := "无该设备维护权（需 root/org:install 或 maintain scope）"

/-- Terminate and unregister the running instance of a device before it is installed again. -/
def retireInstance (identity : String) : Task Unit := do
  let os ← get
  match os.entities identity with
  | some (.process handle) =>
    retire identity handle
    unregister identity
  | some _ => raise (.valueError ("内核态身份不可装卸: " ++ Value.reprStr identity))
  | none => return ()

/-- The checks of `_install`: the identity, the positions to wire, the agents, and what the
module declares. -/
def installRequest (event payload : Value) :
    Task (String × List Value × List Value × List Value × List Value) := do
  let identity ← ofExcept (payload.get "identity" .none)
  let identity ← ofExcept (requireName "install_device 缺 identity" identity)
  if illegal identity then
    raise (.valueError ("设备 identity 非法（拒路径分隔符/'..'/'.'与'@'): " ++ Value.reprStr identity))
  else
    requireDevice event identity noMaintenance
    let grants ← ofExcept (payload.get "grants" .none)
    let grants ← ofExcept (requireGrants grants)
    let all ← agents
    refuseAgent identity "agent 身份不可被设备顶替: " all
    let os ← get
    let (tools, scopes) ← ofExcept (loadModule (os.sourceFile identity) (os.disk.module identity))
    return (identity, grants, all, tools, scopes)

/-- The body of `_install`. -/
def installBody (event payload : Value) : Task Unit := do
  let (identity, grants, all, tools, scopes) ← installRequest event payload
  modify fun os => os.makeHome identity
  retireInstance identity
  let options ← ofExcept (payload.get "options" .none)
  let os ← get
  register identity (.device identity (os.sourceFile identity) (options.orElse (.dict [])))
    (.list tools) (.list scopes) false .none
  wire grants identity scopes
  forEach all inject

/-- `_install`. -/
def install (event : Value) : Task Unit := do
  let payload ← ofExcept (event.item "payload")
  let identity ← ofExcept (payload.get "identity" .none)
  let error ← attempt (installBody event payload)
  ack event "device_installed" identity error

/-- Grant the maintenance scopes again that the unregistration of a device has dropped. -/
def regrant (identity : String) : List Value → Task Unit :=
  fun grants => forEach grants fun granted => do
    let token ← ofExcept (granted.item "token")
    if token.isStr "maintain" || token.isStr ("maintain:" ++ identity) then
      let position ← ofExcept (granted.item "position")
      grant position identity token

/-- The checks of `_uninstall`: the identity, the handle to retire, and the agents. -/
def uninstallRequest (event payload : Value) : Task (String × ℕ × List Value) := do
  let identity ← ofExcept (payload.get "identity" .none)
  let identity ← ofExcept (requireName "uninstall_device 缺 identity" identity)
  requireDevice event identity noMaintenance
  let os ← get
  match os.entities identity with
  | some .kernel | some (.kernelMode _) =>
    raise (.valueError ("内核态身份不可装卸: " ++ Value.reprStr identity))
  | old =>
    let all ← agents
    refuseAgent identity "agent 身份不可装卸: " all
    match old with
    | some (.process handle) => return (identity, handle, all)
    | _ => raise (.valueError ("未注册: " ++ Value.reprStr identity))

/-- The body of `_uninstall`. -/
def uninstallBody (event payload : Value) : Task Unit := do
  let (identity, handle, all) ← uninstallRequest event payload
  retire identity handle
  let reply ← askAuthority [("command", .str "device_grants_request"), ("identity", .str identity)]
  unregister identity
  let replied ← ofExcept (reply.item "payload")
  let grants ← ofExcept (replied.item "grants")
  let grants ← ofExcept grants.iter
  regrant identity grants
  forEach all inject

/-- `_uninstall`. -/
def uninstall (event : Value) : Task Unit := do
  let payload ← ofExcept (event.item "payload")
  let identity ← ofExcept (payload.get "identity" .none)
  let error ← attempt (uninstallBody event payload)
  ack event "device_uninstalled" identity error

/-- Whether an identity is a device: its process was started from a device source. -/
def isDevice (os : AgentOS) (actor : Value) : Bool :=
  match os.entityAt actor with
  | some (.process handle) =>
    match (os.handles handle).process with
    | some pid => (os.procs pid).spec.loadSpec.isSome
    | none => false
  | _ => false

/-- The checks of `_maintenance_session`: the target, and the maintainer with its handle and
position. -/
def maintenanceRequest (event payload : Value) : Task (String × String × ℕ × String) := do
  let target ← ofExcept (payload.get "target_device" .none)
  let target ← ofExcept (requireName "maintenance_session 缺 target_device" target)
  if illegal target then
    raise (.valueError ("维护目标 identity 非法: " ++ Value.reprStr target))
  else
    let actor ← ofExcept (event.item "source")
    let os ← get
    if os.isDevice actor then
      raise (.valueError ("设备身份不可作为维护者: " ++ actor.repr))
    else
      requireDevice event target ("无目标设备维护权: " ++ Value.reprStr target)
      if os.registered target then
        raise (.valueError ("目标设备仍在运行，必须先卸载: " ++ Value.reprStr target))
      else if !os.disk.home target then
        raise (.valueError ("目标设备私家不存在: " ++ Value.reprStr (os.home target)))
      else match actor, os.entityAt actor with
        | .str name, some (.process handle) =>
          let auth ← authContext actor
          let position ← ofExcept (auth.get "position" .none)
          match position with
          | .str position => return (target, name, handle, position)
          | _ => raise (.valueError ("维护者无 position: " ++ actor.repr))
        | _, _ => raise (.valueError ("维护者必须是已注册的 agent: " ++ actor.repr))

/-- The body of `_maintenance_session`. -/
def maintenanceBody (event payload : Value) : Task Unit := do
  let (target, actor, handle, position) ← maintenanceRequest event payload
  retire actor handle
  register actor (.maintenance actor target) .none .none true (.str position)

/-- `_maintenance_session`. -/
def maintenanceSession (event : Value) : Task Unit := do
  let payload ← ofExcept (event.item "payload")
  let target ← ofExcept (payload.get "target_device" .none)
  let actor ← ofExcept (event.item "source")
  let error ← attempt (maintenanceBody event payload)
  ack event "maintenance_session_started" (if error.isNone then target else actor) error

/-- The checks of `_scope`: the named grant. Grants on `org` need a scope of their own. -/
def scopeRequest (event payload : Value) : Task (String × String × String) := do
  let position ← ofExcept (payload.get "position" .none)
  let device ← ofExcept (payload.get "device" .none)
  let token ← ofExcept (payload.get "token" .none)
  let position ← ofExcept (requireName "grant/revoke_scope 缺 position/device/token" position)
  let device ← ofExcept (requireName "grant/revoke_scope 缺 position/device/token" device)
  let token ← ofExcept (requireName "grant/revoke_scope 缺 position/device/token" token)
  let source ← ofExcept (event.item "source")
  let delegated ← if device = "org" then authorize source "org" else pure true
  if !delegated then raise (.valueError "org 设备授权仅 root（或其委托）可做")
  else if ← authorize source "grant" then return (position, device, token)
  else raise (.valueError "无人事权（需 root 或 org:grant）")

/-- The body of `_scope`. -/
def scopeBody (grants : Bool) (event payload : Value) : Task Unit := do
  let (position, device, token) ← scopeRequest event payload
  let _ ← askAuthority [("command", .str (if grants then "grant_request" else "revoke_request")),
    ("position", .str position), ("device", .str device), ("token", .str token)]
  let all ← agents
  forEach all inject

/-- `_scope`. -/
def scope (grants : Bool) (event : Value) : Task Unit := do
  let payload ← ofExcept (event.item "payload")
  let position ← ofExcept (payload.get "position" .none)
  let device ← ofExcept (payload.get "device" .none)
  let error ← attempt (scopeBody grants event payload)
  acknowledge event [("command", .str (if grants then "scope_granted" else "scope_revoked")),
    ("position", position), ("device", device)] error

/-- Serve a kernel command. -/
def serve : Command → Value → Task Unit
  | .installDevice => install
  | .uninstallDevice => uninstall
  | .maintenanceSession => maintenanceSession
  | .grantScope => scope true
  | .revokeScope => scope false

/-- `_process_event`. -/
def processEvent (producer : Producer) (event : Value) : Task Unit :=
  processWith (onKernelWith serve) producer event

end AgentOS

end MyTeam.Kernel
