import MyTeam.Py.Value

/-!
# The shared knowledge base

Resources under paths, with a version each, behind permission rules and exclusive locks. A
commit checks permission, lock and version twice: once before it applies anything, and once
more in the operations here, which ask for permissions under other names.
-/

namespace MyTeam.Legacy

open MyTeam.Py

/-- A permission rule. -/
structure PermissionRule where
  scope : String
  principal : String
  allow : List String
deriving DecidableEq, Repr

namespace PermissionRule

/-- `s.strip("/")`. -/
def stripSlashes (path : String) : List Char :=
  ((path.toList.dropWhile (· = '/')).reverse.dropWhile (· = '/')).reverse

/-- `_path_matches`. -/
def pathMatches (path scope : String) : Bool :=
  let path := stripSlashes path
  let scope := stripSlashes scope
  if path = scope then true
  else if scope.getLast? = some '*' then decide (scope.dropLast <+: path)
  else decide (scope ++ ['/'] <+: path)

end PermissionRule

/-- A lock, by what the checks read of it. -/
structure LockInfo where
  ownerAgentId : String
  lockToken : String
  active : Bool := true
deriving DecidableEq, Repr

/-- A resource. -/
structure SharedKBResource where
  content : Value
  version : ℕ
  lastModifiedBy : String
  lastModifiedAtTick : ℕ
  present : Bool

/-- The version of a path. -/
structure VersionInfo where
  version : ℕ
  lastModifiedBy : String
  lastModifiedAtTick : ℕ
deriving DecidableEq, Repr

/-- `SharedKB`, with its permission engine, locks and versions. -/
structure SharedKB where
  rules : List PermissionRule := []
  locks : String → Option LockInfo := fun _ => none
  versions : String → Option VersionInfo := fun _ => none
  resources : String → Option SharedKBResource := fun _ => none

namespace SharedKB

variable (kb : SharedKB)

/-- `PermissionEngine.check`. -/
def permits (principal path operation : String) : Bool :=
  kb.rules.any fun rule => decide (rule.principal = principal) && PermissionRule.pathMatches path rule.scope &&
    decide (operation ∈ rule.allow)

/-- `get_lock`. -/
def getLock (path : String) : Option LockInfo :=
  (kb.locks path).filter LockInfo.active

/-- `get_version`. -/
def getVersion (path : String) : ℕ :=
  ((kb.versions path).map VersionInfo.version).getD 0

/-- `version == expected`. -/
def sameVersion (version : ℕ) (expected : Value) : Bool :=
  match expected.key with
  | .ok (.num q) => decide ((version : ℚ) = q)
  | _ => false

/-- Stores a resource and counts its version up. -/
def store (path agent : String) (tick : ℕ) (content : Value) (version : ℕ) : SharedKB :=
  { kb with
    resources := Function.update kb.resources path (some ⟨content, version, agent, tick, true⟩)
    versions := Function.update kb.versions path (some ⟨kb.getVersion path + 1, agent, tick⟩) }

/-- `SharedKBWriteError`, as text. -/
def writeError (path reason : String) : Exc :=
  .other s!"Write failed for '{path}': {reason}"

/-- `create`. -/
def create (path agent : String) (content : Value) (tick : ℕ) : Except Exc SharedKB :=
  if !kb.permits agent path "create" then .error (writeError path s!"Permission denied: {agent} cannot create")
  else if (kb.resources path).any SharedKBResource.present then .error (writeError path "Resource already exists")
  else
    match content with
    | .str _ => .ok (kb.store path agent tick content 1)
    | _ => .error (.valueError "validation error for SharedKBResource")

/-- `_apply_committed`. -/
def applyCommitted (path agent : String) (content expectedVersion : Value) (tick : ℕ) : Except Exc SharedKB :=
  if !kb.permits agent path "write" then .error (writeError path s!"Permission denied: {agent} cannot write")
  else
    match kb.getLock path with
    | none => .error (writeError path "Must hold lock to write")
    | some lock =>
      if lock.ownerAgentId ≠ agent then .error (writeError path s!"Lock held by {lock.ownerAgentId}")
      else if !sameVersion (kb.getVersion path) expectedVersion then
        .error (.other s!"Version conflict for '{path}': expected {expectedVersion.toStr}, actual {kb.getVersion path}")
      else .ok (kb.store path agent tick content (kb.getVersion path + 1))

/-- `delete`. -/
def delete (path agent : String) : Except Exc SharedKB :=
  if !kb.permits agent path "delete" then .error (writeError path s!"Permission denied: {agent} cannot delete")
  else .ok { kb with
    resources := Function.update kb.resources path ((kb.resources path).map fun resource =>
      if resource.present then { resource with present := false, content := .str "" } else resource) }

/-- The inverse of an operation, in `_invert_one`. -/
def restore (path : String) (resource : Option SharedKBResource) (version : Option VersionInfo) : SharedKB :=
  { kb with
    resources := Function.update kb.resources path resource
    versions := Function.update kb.versions path version }

end SharedKB

end MyTeam.Legacy
