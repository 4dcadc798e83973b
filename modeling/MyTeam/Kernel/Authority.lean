import MyTeam.Py.Value

/-!
# Authority

The registry of identities, positions, declared tools and scopes, and of the grants
`(position, device, token)` that wire positions to devices. Its commands are answered for
the source `system` only. Sets are lists without order: nothing that is read depends on it.

No command changes anything when it raises, so an answer is a new state with a reply, or an
exception.
-/

namespace MyTeam.Kernel

open MyTeam.Py

/-- `VOID`: nothing to say. -/
def void : Value := .str "VOID"

/-- What is registered under an identity. -/
structure Info where
  tools : Value
  scopes : Value
  agent : Bool
  position : Value

/-- `position` may use `device` with `token`. -/
structure Grant where
  position : Key
  device : Key
  token : Key
deriving DecidableEq

/-- `_identities`, `_grants` and `_injected`. -/
structure Authority where
  identities : List (Key × Info)
  grants : List Grant
  injected : List (Key × List (Key × Value))

/-- A request of the kernel to one of its devices. -/
def systemRequest (target : String) (payload : List (String × Value)) : Value :=
  .dict [("source", .str "system"), ("target", .str target), ("kind", .str "system"),
    ("payload", .dict payload)]

/-- An application event without a source. -/
def applicationEvent (target : Value) (payload : List (String × Value)) : Value :=
  .dict [("target", target), ("kind", .str "application"), ("payload", .dict payload)]

namespace Authority

/-- `__init__`. -/
def new : Authority := ⟨[], [], []⟩

/-- `register_request`. -/
def registerRequest (a : Authority) (payload : Value) : Except Exc Authority := do
  let tools ← payload.get "tools" .none
  let scopes ← payload.get "scopes" .none
  let agent ← payload.get "agent" .none
  let position ← payload.get "position" .none
  let identity ← payload.item "identity"
  let key ← identity.key
  return { a with identities := assign key ⟨tools.orElse (.list []), scopes.orElse (.list []),
    agent.truthy, position⟩ a.identities }

/-- `unregister_request`: the entry goes, and with it every grant on that device. Popping
from an empty dictionary does not hash. -/
def unregisterRequest (a : Authority) (payload : Value) : Except Exc Authority := do
  let identity ← payload.item "identity"
  if !a.identities.isEmpty then
    let _ ← identity.key
  return { a with
    identities := a.identities.filter fun entry => !identity.hasKey entry.1
    grants := a.grants.filter fun grant => !identity.hasKey grant.device }

/-- The grant that a `grant_request` or `revoke_request` names. -/
def requestedGrant (payload : Value) : Except Exc Grant := do
  let position ← payload.item "position"
  let positionKey ← position.key
  let device ← payload.item "device"
  let token ← payload.item "token"
  return ⟨positionKey, ← device.key, ← token.key⟩

/-- `grant_request`. -/
def grantRequest (a : Authority) (payload : Value) : Except Exc Authority := do
  let grant ← requestedGrant payload
  return { a with grants := a.grants.insert grant }

/-- `revoke_request`. -/
def revokeRequest (a : Authority) (payload : Value) : Except Exc Authority := do
  let grant ← requestedGrant payload
  return { a with grants := a.grants.filter fun other => other ≠ grant }

/-- The position registered for an identity, `None` if there is none. -/
def positionOf (a : Authority) (identity : Value) : Except Exc Value := do
  let key ← identity.key
  return match a.identities.lookup key with
    | some info => info.position
    | none => .none

/-- `_authorized`: root, or a holder of the organisation scope. -/
def authorized (a : Authority) (identity scope : Value) : Except Exc Bool := do
  let position ← a.positionOf identity
  if position.isStr "root" then return true
  if !position.truthy then return false
  let positionKey ← position.key
  let scopeKey ← scope.key
  return decide (⟨positionKey, .str "org", scopeKey⟩ ∈ a.grants)

/-- The pairs `(device, token)` that a position holds; only strings hold any. -/
def scopesOf (a : Authority) (position : Value) : List (Key × Key) :=
  match position with
  | .str s => (a.grants.filter fun grant => grant.position = .str s).map fun grant =>
      (grant.device, grant.token)
  | _ => []

/-- `_auth_context`. -/
def authContext (a : Authority) (identity : Value) : Except Exc Value := do
  let position ← a.positionOf identity
  let scopes ← sorted Key.ltPair (a.scopesOf position)
  return .dict [("position", position), ("scopes", .list (scopes.map fun scope =>
    .dict [("device", scope.1.toValue), ("token", scope.2.toValue)]))]

/-- `_entry`: the memory entry for a tool. -/
def entry (device : Key) (tool : Value) : Except Exc Value := do
  let name ← tool.item "name"
  let description ← tool.get "description" (.str "")
  let parameters ← tool.get "parameters" (.dict [])
  let trigger ← tool.get "trigger" .none
  let trigger ← (trigger.orElse (.list [])).iter
  let priority ← tool.get "priority" (.int 10)
  let entryId := "tool:" ++ (← device.toValue.format) ++ ":" ++ (← name.format)
  return .dict [
    ("entry_id", .str entryId),
    ("type", .str "tool"),
    ("content", .dict [("name", name), ("description", description), ("parameters", parameters)]),
    ("trigger", .list trigger), ("priority", priority), ("associated", .list [device.toValue]),
    ("version", .int 1), ("links", .list []), ("deleted_at", .none)]

/-- The name under which a granted scope is explained. -/
def scopeName (device : Key) (token : Value) : Except Exc String := do
  return (← device.toValue.format) ++ ":" ++ (← token.format)

/-- `_perm_entry`: the memory entry that explains a granted scope. -/
def permEntry (device : Key) (scope : Value) : Except Exc Value := do
  let token ← scope.item "token"
  let name ← scopeName device token
  let explanation ← scope.get "explanation" (.str "")
  return .dict [
    ("entry_id", .str ("perm:" ++ name)), ("type", .str "skill"),
    ("content", .dict [("name", .str name), ("description", explanation),
      ("parameters", .dict [])]),
    ("trigger", .list []), ("priority", .int 10), ("associated", .list [device.toValue]),
    ("version", .int 1), ("links", .list []), ("deleted_at", .none)]

/-- The entries of one device's tools, added to `new`; of equal names the last one stays. -/
def addTools (device : Key) :
    List Value → List (Key × Value) → Except Exc (List (Key × Value))
  | [], new => .ok new
  | tool :: rest, new => do
    let made ← entry device tool
    let name ← tool.item "name"
    addTools device rest (assign (← name.key) made new)

/-- The entries of the granted devices' tools, in registration order. -/
def toolEntries (granted : List Grant) :
    List (Key × Info) → List (Key × Value) → Except Exc (List (Key × Value))
  | [], new => .ok new
  | (device, info) :: rest, new => do
    if info.agent ∨ device ∉ granted.map Grant.device then toolEntries granted rest new
    else toolEntries granted rest (← addTools device (← info.tools.iter) new)

/-- The entries of one device's declared scopes that are among the granted tokens. -/
def addSkills (device : Key) (tokens : List Key) :
    List Value → List (Key × Value) → Except Exc (List (Key × Value))
  | [], new => .ok new
  | scope :: rest, new => do
    let token ← scope.item "token"
    if tokens.any token.hasKey then
      let name ← scopeName device token
      let made ← permEntry device scope
      addSkills device tokens rest (assign (.str name) made new)
    else addSkills device tokens rest new

/-- The entries of the granted scopes, device by device. -/
def skillEntries (a : Authority) (granted : List Grant) :
    List Key → List (Key × Value) → Except Exc (List (Key × Value))
  | [], new => .ok new
  | device :: rest, new =>
    match a.identities.lookup device with
    | none => skillEntries a granted rest new
    | some info => do
      if info.agent then skillEntries a granted rest new
      else
        let tokens := (granted.filter fun grant => grant.device = device).map Grant.token
        let scopes ← (info.scopes.orElse (.list [])).iter
        skillEntries a granted rest (← addSkills device tokens scopes new)

/-- `_build_inject`: what the agent may see now, and the names it no longer may. -/
def buildInject (a : Authority) (agent : Value) : Except Exc (Authority × Value) := do
  let key ← agent.key
  let info ← match a.identities.lookup key with
    | some info => pure info
    | none => throw (.keyError agent.repr)
  let position ← info.position.key
  let granted := a.grants.filter fun grant => grant.position = position
  let new ← toolEntries granted a.identities []
  let devices ← sorted Key.lt (granted.map Grant.device).dedup
  let new ← a.skillEntries granted devices new
  let old := (a.injected.lookup key).getD []
  let evict := (old.map Prod.fst).filter fun name => decide (name ∉ new.map Prod.fst)
  return ({ a with injected := assign key new a.injected },
    applicationEvent agent [("command", .str "inject"), ("entries", .list (new.map Prod.snd)),
      ("evict", .list (evict.map Key.toValue))])

/-- The answer to a query of the kernel. -/
def answer (name : String) (value : Value) : Value :=
  applicationEvent (.str "kernel") [(name, value)]

/-- `device_grants_request`. -/
def deviceGrants (a : Authority) (identity : Value) : List Value :=
  (a.grants.filter fun grant => identity.hasKey grant.device).map fun grant =>
    .dict [("position", grant.position.toValue), ("token", grant.token.toValue)]

/-- `agents_request`. -/
def agents (a : Authority) : List Value :=
  (a.identities.filter fun entry => entry.2.agent).map fun entry => entry.1.toValue

/-- `respond`. Every source but `system` is turned away. -/
def respond (a : Authority) (event : Value) : Except Exc (Authority × Value) := do
  let source ← event.get "source" .none
  if !source.isStr "system" then
    return (a, applicationEvent (← event.item "source")
      [("command", .str "denied"), ("reason", .str "Authority 命令面仅内核可调")])
  let payload ← event.item "payload"
  let command ← payload.get "command" .none
  if command.isStr "register_request" then
    return (← a.registerRequest payload, void)
  else if command.isStr "unregister_request" then
    return (← a.unregisterRequest payload, void)
  else if command.isStr "grant_request" then
    return (← a.grantRequest payload, void)
  else if command.isStr "revoke_request" then
    return (← a.revokeRequest payload, void)
  else if command.isStr "device_grants_request" then
    return (a, answer "grants" (.list (a.deviceGrants (← payload.item "identity"))))
  else if command.isStr "authorize_request" then
    let allowed ← a.authorized (← payload.item "identity") (← payload.item "scope")
    return (a, answer "allowed" (.bool allowed))
  else if command.isStr "auth_request" then
    return (a, answer "auth" (← a.authContext (← payload.item "identity")))
  else if command.isStr "inject_request" then
    a.buildInject (← payload.item "agent")
  else if command.isStr "agents_request" then
    return (a, answer "agents" (.list a.agents))
  else return (a, void)

end Authority

end MyTeam.Kernel
