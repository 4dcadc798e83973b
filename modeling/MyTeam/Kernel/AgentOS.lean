import MyTeam.Async.EventLoop
import MyTeam.Dispatch.BucketDispatcher
import MyTeam.Kernel.EventValidator
import MyTeam.Kernel.Journal
import MyTeam.Kernel.Process
import MyTeam.Py.Path

/-!
# The kernel

`AgentOS` validates every event, records it and routes it, and serves the commands that are
addressed to the kernel itself. The methods are coroutines: the only points where one of
them waits are the two joins in `ProcessHandle.terminate`.

Events that the kernel emits on its own pass through the same path. None of them is a kernel
command, so the path that serves commands is built on a first copy that serves none.

`handled` and `retiring` are read by no method: the calls of `_process_event` with the
verdict on each event, and the handle that a command has taken out of `entities` and is
terminating.
-/

namespace MyTeam.Kernel

open MyTeam.Py MyTeam.Async MyTeam.Dispatch Coroutine

/-- The kernel-mode devices. -/
inductive Device where
  | authority
  | journal
deriving DecidableEq

/-- Their well-known identities. -/
def Device.identity : Device → String
  | .authority => "authority"
  | .journal => "journal"

/-- What an identity is registered as. -/
inductive Entity where
  | kernel
  | kernelMode (device : Device)
  | process (handle : ℕ)
deriving DecidableEq

/-- Who an event comes from: a process through its reader, the host program by putting it on
the bus, or the kernel on behalf of one of its own identities. -/
inductive Producer where
  | process (pid : ℕ)
  | host
  | kernel (identity : String)
deriving DecidableEq

/-- A `device.py`: absent, raising when it is executed, or exporting declarations. -/
inductive ModuleFile where
  | missing
  | raises (error : Exc)
  | exports (tools scopes : Option Value)

/-- The homes under `runtime_root`, the `device.py` in each, and the files that `source`
entries of the configuration name. -/
structure Disk where
  home : String → Bool
  module : String → ModuleFile
  source : String → ModuleFile

/-- A call of `_process_event`; `recorded` is what the Journal is told of the event. -/
structure Handled where
  producer : Producer
  event : Value
  verdict : Verdict
  recorded : Value

/-- The state of the kernel and of everything it shares memory or channels with. -/
structure AgentOS where
  runtimeRoot : String
  entities : String → Option Entity
  agentIds : List String
  authority : Authority
  journal : Journal
  dispatchers : Device → BucketDispatcher Value Value
  handles : ℕ → Handle
  nextHandle : ℕ
  procs : ℕ → Proc
  nextPid : ℕ
  eventBus : List (Producer × Value)
  disk : Disk
  clock : String
  retiring : Option ℕ
  handled : List Handled

/-- A method of the kernel. -/
abbrev Task (α : Type) : Type := Coroutine AgentOS Exc α

/-- What a dispatcher reads of an event; a receipt is sent back when the event asks for one. -/
def protocol : Protocol Value Value where
  source event :=
    match event.field "source" with
    | .str source => source
    | _ => ""
  receipt event :=
    if (event.field "receipt").truthy then
      some (applicationEvent (event.field "source") [("command", .str "receipt"),
        ("event", .dict [("target", event.field "target"), ("kind", event.field "kind")])])
    else none

/-- `EMPTY_AUTH`. -/
def emptyAuth : Value := .dict [("position", .none), ("scopes", .list [])]

namespace AgentOS

/-- `__init__`: the kernel and its two devices are registered, nothing else. -/
def new (runtimeRoot : String) (disk : Disk) (clock : String) (limits : Limits) : AgentOS where
  runtimeRoot
  entities := fun identity =>
    if identity = "kernel" then some .kernel
    else if identity = "authority" then some (.kernelMode .authority)
    else if identity = "journal" then some (.kernelMode .journal)
    else none
  agentIds := []
  authority := .new
  journal := ⟨[], limits⟩
  dispatchers := fun _ => .new 0
  handles := fun _ => ⟨"", .maintenance "" "", none⟩
  nextHandle := 0
  procs := fun _ => .blank
  nextPid := 0
  eventBus := []
  disk := { disk with
    home := fun identity => identity = "authority" ∨ identity = "journal" ∨ disk.home identity }
  clock
  retiring := none
  handled := []

section Updates

variable (os : AgentOS)

/-- What is registered under a value. -/
def entityAt : Value → Option Entity
  | .str identity => os.entities identity
  | _ => none

/-- `isinstance(self.entities.get(v), ProcessHandle)`. -/
def isProcess (v : Value) : Bool :=
  match os.entityAt v with
  | some (.process _) => true
  | _ => false

/-- `isinstance(self.entities.get(v), KernelModeDevice)`. -/
def isKernelMode (v : Value) : Bool :=
  match os.entityAt v with
  | some (.kernelMode _) => true
  | _ => false

/-- Membership in `entities`. -/
def registered (identity : String) : Bool := (os.entities identity).isSome

/-- `validate_event(event, self.rules)`. -/
def validate (event : Value) : Verdict := validateEvent os.registered event

/-- The event that `_enrich` makes of an event. -/
def enriched (event : Value) : Except Exc Value := do
  let target ← event.item "target"
  if os.agentIds.any target.isStr || !os.isProcess target then return event
  else
    let source ← event.item "source"
    let auth ← if source.isStr "kernel" || os.isKernelMode source then pure emptyAuth
      else os.authority.authContext source
    event.setItem "auth" auth

/-- What the Journal is told of an event: with the caller's authorization if it is routed. -/
def recorded (event : Value) : Value :=
  match os.validate event, os.enriched event with
  | .accepted, .ok event' => event'
  | _, _ => event

/-- A call of `_process_event` in this state. -/
def handling (producer : Producer) (event : Value) : Handled where
  producer
  event
  verdict := os.validate event
  recorded := os.recorded event

/-- Remember a call of `_process_event`. -/
def note (producer : Producer) (event : Value) : AgentOS :=
  { os with handled := os.handled ++ [os.handling producer event] }

/-- Put an event into the bucket of its source. -/
def submit (device : Device) (event : Value) : AgentOS :=
  { os with dispatchers :=
      Function.update os.dispatchers device ((os.dispatchers device).submit protocol event) }

/-- Write an event into the channel of a process. -/
def push (pid : ℕ) (event : Value) : AgentOS :=
  let p := os.procs pid
  { os with procs := Function.update os.procs pid { p with delivered := p.delivered ++ [event] } }

/-- `os.makedirs` of a home. -/
def makeHome (identity : String) : AgentOS :=
  { os with disk := { os.disk with home := Function.update os.disk.home identity true } }

/-- A new `ProcessHandle`, before it has a process. -/
def addHandle (identity : String) (spawn : Spawn) : AgentOS :=
  { os with
    handles := Function.update os.handles os.nextHandle ⟨identity, spawn, none⟩
    nextHandle := os.nextHandle + 1 }

/-- Start a process for a handle, with a new channel and a new reader. -/
def launch (handle : ℕ) (spec : Spec) : AgentOS :=
  { os.makeHome spec.identity with
    handles := Function.update os.handles handle
      { os.handles handle with process := some os.nextPid }
    procs := Function.update os.procs os.nextPid (.started handle spec)
    nextPid := os.nextPid + 1 }

/-- Enter a handle into `entities`. -/
def enter (identity : String) (handle : ℕ) (agent : Bool) : AgentOS :=
  { os with
    entities := Function.update os.entities identity (some (.process handle))
    agentIds := if agent then os.agentIds.insert identity else os.agentIds }

/-- `del self.entities[identity]`. -/
def remove (identity : String) (handle : ℕ) : AgentOS :=
  { os with entities := Function.update os.entities identity none, retiring := some handle }

/-- `self._process.kill()`. -/
def kill (pid : ℕ) : AgentOS :=
  { os with procs := Function.update os.procs pid { os.procs pid with killed := true } }

/-- `self._process = None`. -/
def forget (handle : ℕ) : AgentOS :=
  { os with
    handles := Function.update os.handles handle { os.handles handle with process := none }
    retiring := none }

/-- `_device_home`: the home of an identity. -/
def home (identity : String) : String := Path.join (Path.join os.runtimeRoot "home") identity

/-- The path of a device's source. -/
def sourceFile (identity : String) : String := Path.join (os.home identity) "device.py"

end Updates

section Requests

/-- Ask the Authority in process. -/
def askAuthority (payload : List (String × Value)) : Task Value := do
  let os ← get
  let (authority, reply) ← ofExcept (os.authority.respond (systemRequest "authority" payload))
  modify fun os => { os with authority }
  return reply

/-- `_authorize`. -/
def authorize (identity : Value) (scope : String) : Task Bool := do
  let reply ← askAuthority [("command", .str "authorize_request"), ("identity", identity),
    ("scope", .str scope)]
  let payload ← ofExcept (reply.item "payload")
  let allowed ← ofExcept (payload.item "allowed")
  return allowed.truthy

/-- `_auth_context`. -/
def authContext (identity : Value) : Task Value := do
  let reply ← askAuthority [("command", .str "auth_request"), ("identity", identity)]
  let payload ← ofExcept (reply.item "payload")
  ofExcept (payload.item "auth")

/-- Whether one of the scopes is a maintenance scope for the device. -/
def maintains (device : String) : List Value → Except Exc Bool
  | [] => .ok false
  | grant :: rest => do
    let granted ← grant.get "device" .none
    if granted.isStr device then
      let token ← grant.get "token" .none
      let key ← token.key
      if key = .str "maintain" ∨ key = .str ("maintain:" ++ device) then return true
      else maintains device rest
    else maintains device rest

/-- `_authorize_device`. -/
def authorizeDevice (actor : Value) (device : String) : Task Bool := do
  if actor.isStr "kernel" then return true
  if ← authorize actor "install" then return true
  let auth ← authContext actor
  let scopes ← ofExcept (auth.get "scopes" (.list []))
  let scopes ← ofExcept scopes.iter
  ofExcept (maintains device scopes)

/-- `_agents`. -/
def agents : Task (List Value) := do
  let reply ← askAuthority [("command", .str "agents_request")]
  let payload ← ofExcept (reply.item "payload")
  let agents ← ofExcept (payload.item "agents")
  ofExcept agents.iter

/-- `_grant`. -/
def grant (position : Value) (device : String) (token : Value) : Task Unit := do
  let _ ← askAuthority [("command", .str "grant_request"), ("position", position),
    ("device", .str device), ("token", token)]

/-- The `unregister_request` of a device. -/
def unregister (identity : String) : Task Unit := do
  let _ ← askAuthority [("command", .str "unregister_request"), ("identity", .str identity)]

end Requests

section Delivery

/-- `_ensure_process`. -/
def ensureProcess (handle : ℕ) : Task Unit := do
  let os ← get
  match (os.handles handle).process with
  | some _ => return ()
  | none =>
    let spec ← ofExcept (os.handles handle).spawn.call
    modify fun os => os.launch handle spec

/-- `deliver`. A closed channel is reported with the command of the event, if it has one. -/
def deliver (handle : ℕ) (event : Value) : Task Unit := do
  ensureProcess handle
  let os ← get
  match (os.handles handle).process with
  | some pid =>
    if (os.procs pid).open then modify fun os => os.push pid event
    else
      let payload ← ofExcept (event.get "payload" (.dict []))
      let command ← ofExcept (payload.get "command" .none)
      let _ ← ofExcept command.format
  | none => return ()

/-- The event that asks a process to stop. -/
def terminateEvent (identity : String) : Value :=
  systemRequest identity [("command", .str "terminate")]

/-- A process that outlived the first join is killed and joined without a timeout. -/
def killIfAlive (pid : ℕ) : Task Unit := do
  let os ← get
  if (os.procs pid).alive then
    modify fun os => os.kill pid
    await fun os => !(os.procs pid).alive

/-- `ProcessHandle.terminate`: returns when the process is dead. The first join may time out. -/
def terminate (handle : ℕ) : Task Unit := do
  let os ← get
  match (os.handles handle).process with
  | none => modify fun os => { os with retiring := none }
  | some pid =>
    deliver handle (terminateEvent (os.handles handle).identity)
    await fun _ => true
    killIfAlive pid
    modify fun os => os.forget handle

end Delivery

section Processing

/-- `_enrich`: events for devices carry the caller's position and scopes. -/
def enrich (event : Value) : Task Value := do
  let os ← get
  let target ← ofExcept (event.item "target")
  if os.agentIds.any target.isStr || !os.isProcess target then return event
  else
    let source ← ofExcept (event.item "source")
    let auth ← if source.isStr "kernel" || os.isKernelMode source then pure emptyAuth
      else authContext source
    ofExcept (event.setItem "auth" auth)

/-- `_record`. -/
def record (event : Value) (outcome : String) (reason : Value) : Task Unit := do
  let os ← get
  let (journal, _) ← ofExcept (os.journal.respond os.clock (systemRequest "journal"
    [("command", .str "journal_record"), ("event", event), ("outcome", .str outcome),
      ("reason", reason)]))
  modify fun os => { os with journal }

/-- `_route`. -/
def route (event : Value) : Task Unit := do
  let os ← get
  let target ← ofExcept (event.item "target")
  match os.entityAt target with
  | some (.process handle) => deliver handle event
  | some (.kernelMode device) => modify fun os => os.submit device event
  | _ => return ()

/-- `_process_event`, with the service of kernel commands as a parameter. -/
def processWith (onKernel : Value → Task Unit) (producer : Producer) (event : Value) :
    Task Unit := do
  let os ← get
  modify fun os => os.note producer event
  match os.validate event with
  | .raised error => raise error
  | .rejected error =>
    let reason ← ofExcept error.text
    record event "dropped" (.str reason)
  | .accepted =>
    let target ← ofExcept (event.item "target")
    if target.isStr "kernel" then
      record event "routed" .none
      onKernel event
    else
      let event ← enrich event
      record event "routed" .none
      route event

/-- The commands the kernel serves. -/
inductive Command where
  | installDevice
  | uninstallDevice
  | maintenanceSession
  | grantScope
  | revokeScope
deriving DecidableEq

/-- The command a value names. -/
def Command.ofValue (v : Value) : Option Command :=
  if v.isStr "install_device" then some .installDevice
  else if v.isStr "uninstall_device" then some .uninstallDevice
  else if v.isStr "maintenance_session" then some .maintenanceSession
  else if v.isStr "grant_scope" then some .grantScope
  else if v.isStr "revoke_scope" then some .revokeScope
  else none

/-- `_on_kernel`; a command that is not known is reported. -/
def onKernelWith (serve : Command → Value → Task Unit) (event : Value) : Task Unit := do
  let payload ← ofExcept (event.item "payload")
  let command ← ofExcept (payload.get "command" .none)
  match Command.ofValue command with
  | some command => serve command event
  | none => return ()

/-- `_kernel_emit`, for the events the kernel produces: no command is among them. -/
def kernelEmit (source : String) (event : Value) : Task Unit := do
  let event ← ofExcept (event.setItem "source" (.str source))
  processWith (onKernelWith fun _ _ => return ()) (.kernel source) event

/-- `_inject`. -/
def inject (agent : Value) : Task Unit := do
  let inject ← askAuthority [("command", .str "inject_request"), ("agent", agent)]
  if !inject.isStr "VOID" then kernelEmit "authority" inject

end Processing

section Registration

/-- `register`. -/
def register (identity : String) (spawn : Spawn) (tools scopes : Value) (agent : Bool)
    (position : Value) : Task Unit := do
  if agent ∧ !position.truthy then
    raise (.valueError ("agent 缺少 position: " ++ Value.reprStr identity))
  else if illegal identity then
    raise (.valueError ("身份非法（拒路径分隔符/'..'/'.'与'@'): " ++ Value.reprStr identity))
  else
    let _ ← askAuthority [("command", .str "register_request"), ("identity", .str identity),
      ("tools", tools.orElse (.list [])), ("agent", .bool agent), ("position", position),
      ("scopes", scopes.orElse (.list []))]
    let os ← get
    modify fun os => os.addHandle identity spawn
    ensureProcess os.nextHandle
    modify fun os' => os'.enter identity os.nextHandle agent

/-- The check of one `SCOPES` element. -/
def isScope (v : Value) : Bool :=
  match v with
  | .dict _ => isName (v.field "token")
  | _ => false

/-- `_load_module`: `TOOLS` and `SCOPES` default to empty lists. -/
def loadModule (path : String) : ModuleFile → Except Exc (List Value × List Value)
  | .missing => .error (.fileNotFound ("设备源码不存在: " ++ Value.reprStr path))
  | .raises error => .error error
  | .exports tools scopes =>
    match tools.getD (.list []) with
    | .list tools =>
      match scopes.getD (.list []) with
      | .list scopes =>
        if scopes.all isScope then .ok (tools, scopes)
        else .error (.valueError ("SCOPES 声明形状非法: " ++ Value.reprStr path))
      | _ => .error (.valueError ("SCOPES 声明形状非法: " ++ Value.reprStr path))
    | _ => .error (.valueError ("TOOLS 声明形状非法: " ++ Value.reprStr path))

/-- `_defaults`: the tokens of the scopes that are public by default. -/
def defaults : List Value → Except Exc (List Value)
  | [] => .ok []
  | scope :: rest => do
    let default ← scope.get "default" .none
    if default.truthy then return (← scope.item "token") :: (← defaults rest)
    else defaults rest

/-- Grant the default scopes of a device to each position. -/
def wire (positions : List Value) (device : String) (scopes : List Value) : Task Unit :=
  forEach positions fun position => do
    let tokens ← ofExcept (defaults scopes)
    forEach tokens fun token => grant position device token

/-- `_install_from_config`. -/
def installFromConfig (identity : String) (grants : Value) : Task Unit := do
  let os ← get
  let (tools, scopes) ← ofExcept (loadModule (os.sourceFile identity) (os.disk.module identity))
  register identity (.device identity (os.sourceFile identity) (.dict [])) (.list tools)
    (.list scopes) false .none
  let positions ← ofExcept grants.iter
  wire positions identity scopes
  let all ← agents
  forEach all inject

/-- An identity of the configuration. Other values than strings are refused by `register`,
at the latest when they are hashed. -/
def identityName : Value → Except Exc String
  | .str identity => .ok identity
  | v => .error (.typeError ("argument of type '" ++ v.typeName ++ "' is not a name"))

/-- Register an agent of the configuration. `PROCESS_TYPES` knows one type. -/
def setupAgent (spec : Value) : Task Unit := do
  let identity ← ofExcept (spec.item "identity")
  let type ← ofExcept (spec.item "type")
  if !type.isStr "agent" then raise (.keyError type.repr)
  else
    let options ← ofExcept (spec.get "options" (.dict []))
    let position ← ofExcept (options.get "position" .none)
    let identity ← ofExcept (identityName identity)
    register identity (.agent identity options) .none .none true position
    modify fun os => os.makeHome identity

/-- `shutil.copy2` of a source named in the configuration to a device's home. -/
def copySource (source identity : String) : Task Unit := do
  let os ← get
  match os.disk.source source with
  | .missing => raise (.fileNotFound source)
  | file => modify fun os => { os with disk :=
      { os.disk with module := Function.update os.disk.module identity file } }

/-- Install a device of the configuration from a copy of its source. -/
def setupDevice (spec : Value) : Task Unit := do
  let identity ← ofExcept (spec.item "identity")
  let source ← ofExcept (spec.item "source")
  let source ← ofExcept (identityName source)
  let identity ← ofExcept (identityName identity)
  modify fun os => os.makeHome identity
  copySource source identity
  let grants ← ofExcept (spec.get "grants" (.list []))
  installFromConfig identity grants

/-- `setup`. -/
def setup (config : Value) : Task Unit := do
  let agents ← ofExcept (config.get "agents" (.list []))
  let agents ← ofExcept agents.iter
  forEach agents setupAgent
  let devices ← ofExcept (config.get "devices" (.list []))
  let devices ← ofExcept devices.iter
  forEach devices setupDevice

end Registration

end AgentOS

end MyTeam.Kernel
