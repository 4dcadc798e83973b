import MyTeam.Legacy.Commit
import MyTeam.Legacy.Patch
import MyTeam.Legacy.TransactionBuffer

/-!
# The tools for private files

In Act an agent reads, writes and patches files of its own. Nothing reaches the disk before
Commit: a write is staged under the path as the agent spelled it, a patch is staged with the text
that it leads to, and a read looks first at what is staged under the path and then at the disk.
-/

namespace MyTeam.Legacy

open MyTeam.Py

/-- What reading a private file raises: an `AccessDeniedError`, or another exception. -/
inductive ReadError
  | accessDenied (message : String)
  | raised (error : Exc)
deriving DecidableEq

/-- `ToolResult`. -/
structure ToolResult where
  success : Bool
  data : Value := .none
  error : Option String := none
  errorCode : Option String := none
  retryable : Bool := true
  agentId : String := ""
  toolName : String := ""
  tick : ℕ := 0

/-- `_validate_write_path`. -/
def validateWritePath (path : String) : Option String :=
  if path = "" then some "write path must not be empty"
  else if Path.isAbs path then some s!"absolute paths not allowed: {path}"
  else if ".." ∈ Path.parts (Path.normpath path) then some s!"path traversal rejected: {path}"
  else none

/-- The loop of `_staged_private_effects`, at an effect. -/
def mergePrivate (merged : List (String × Value)) (e : StagedEffect) : List (String × Value) :=
  if e.status ≠ .staged ∧ e.status ≠ .validated then merged
  else if e.effectType.writesFile then assign e.resource (e.get "content" (.str "")) merged
  else if e.effectType = .fileDelete then merged.filter fun entry => entry.1 ≠ e.resource
  else merged

/-- `get_effects(agent_id)`, for an agent whose id is not empty. -/
def TransactionBuffer.getEffects (buffer : TransactionBuffer) (agent : String) : List StagedEffect :=
  buffer.effects.filter fun e => e.agentId = agent

/-- `_staged_private_effects`. -/
def TransactionBuffer.stagedPrivateEffects (buffer : TransactionBuffer) (agent : String) : List (String × Value) :=
  (buffer.getEffects agent).foldl mergePrivate []

/-- The end of `_read_private_file`, for a path under which nothing is staged: whether there is a file, and its text. -/
def readDisk (ctx : Context) (fs : FileSystem) (agent path : String) : Except ReadError (Bool × Value) :=
  match ctx.privateStore.resolvePath fs agent path with
  | .error error => .error (.raised error)
  | .ok none => .error (.accessDenied s!"Agent '{agent}' denied access to '{path}'")
  | .ok (some target) =>
    match fs.node target with
    | some (.file bytes) =>
      match readText bytes with
      | none => .error (.raised (.valueError "'utf-8' codec can't decode"))
      | some text => .ok (true, .str text)
    | _ => .ok (false, .str "")

/-- `_read_private_file`. -/
def readPrivateFile (ctx : Context) (fs : FileSystem) (buffer : TransactionBuffer) (agent path : String) :
    Except ReadError (Bool × Value) :=
  match (buffer.stagedPrivateEffects agent).lookup path with
  | some content => .ok (true, content)
  | none => readDisk ctx fs agent path

/-- `handle_read`. -/
def handleRead (ctx : Context) (fs : FileSystem) (buffer : TransactionBuffer) (agent path : String) :
    Except ReadError ToolResult :=
  let result : ToolResult := { success := false, agentId := agent, toolName := "read", tick := ctx.tick }
  match readPrivateFile ctx fs buffer agent path with
  | .error (.accessDenied message) => .ok { result with error := some message }
  | .error (.raised error) => .error (.raised error)
  | .ok (false, _) => .ok { result with error := some s!"File not found: {path}" }
  | .ok (true, content) => .ok { result with success := true, data := .dict [("content", content)] }

/-- `handle_write`: what it stages, and its result. -/
def handleWrite (ctx : Context) (agent path : String) (content : Value) :
    Option StageCall × Except ReadError ToolResult :=
  let result : ToolResult := { success := false, agentId := agent, toolName := "write", tick := ctx.tick }
  match validateWritePath path with
  | some error => (none, .ok { result with error := some error, errorCode := some "INVALID_ARGUMENT" })
  | none =>
    (some { effectType := .fileWrite, agentId := agent, resource := path, data := some [("content", content)] },
      .ok { result with success := true, data := .dict [("staged", .bool true)] })

/-- `apply_patch` of what was read, which has no lines if it is no string: the text that was patched, and what it
becomes. -/
def patchContent (content : Value) (patch : String) : Except PatchFailure (String × String) :=
  match content with
  | .str base => (applyPatch base.toList patch.toList).map fun text => (base, String.ofList text)
  | v => do
    let _ ← parseUnifiedPatch patch.toList
    .error (.python (.attributeError s!"'{v.typeName}' object has no attribute 'splitlines'"))

/-- The call that stages a patch. -/
def stagePatch (ctx : Context) (agent path patch base text : String) : StageCall where
  effectType := .filePatch
  agentId := agent
  resource := path
  data := some [("content", .str text), ("patch", .str patch), ("base_hash", .str (ctx.sha256 base)),
    ("patch_hash", .str (ctx.sha256 patch)), ("new_content_hash", .str (ctx.sha256 text))]

/-- `handle_apply_patch`: what it stages, and its result. -/
def handleApplyPatch (ctx : Context) (fs : FileSystem) (buffer : TransactionBuffer) (agent path patch : String) :
    Option StageCall × Except ReadError ToolResult :=
  let result : ToolResult := { success := false, agentId := agent, toolName := "apply_patch", tick := ctx.tick }
  let refused (error code : String) : Option StageCall × Except ReadError ToolResult :=
    (none, .ok { result with error := some error, errorCode := some code, retryable := false })
  if path = "" then refused "apply_patch requires 'path'" "invalid_patch"
  else
    match validateWritePath path with
    | some error => refused error "INVALID_ARGUMENT"
    | none =>
      if patch = "" then refused "apply_patch requires 'patch'" "invalid_patch"
      else
        match readPrivateFile ctx fs buffer agent path with
        | .error error => (none, .error error)
        | .ok (found, content) =>
          match patchContent (if found then content else .str "") patch with
          | .error (.patch error) =>
            refused s!"patch rejected: {error.message}" (if error.conflict then "patch_conflict" else "invalid_patch")
          | .error (.python error) => (none, .error (.raised error))
          | .ok (base, text) =>
            (some (stagePatch ctx agent path patch base text),
              .ok { result with
                success := true
                data := .dict [("staged", .bool true), ("base_hash", .str (ctx.sha256 base)),
                  ("new_content_hash", .str (ctx.sha256 text))] })

/-- A call of one of the tools. -/
inductive ToolCall
  | read (path : String)
  | write (path : String) (content : Value)
  | applyPatch (path patch : String)

/-- A call: what it stages, and its result. -/
def perform (ctx : Context) (fs : FileSystem) (agent : String) (buffer : TransactionBuffer) :
    ToolCall → Option StageCall × Except ReadError ToolResult
  | .read path => (none, handleRead ctx fs buffer agent path)
  | .write path content => handleWrite ctx agent path content
  | .applyPatch path patch => handleApplyPatch ctx fs buffer agent path patch

/-- The buffer after a call. -/
def TransactionBuffer.after (ctx : Context) (fs : FileSystem) (agent : String) (buffer : TransactionBuffer)
    (call : ToolCall) : TransactionBuffer :=
  (perform ctx fs agent buffer call).1.elim buffer buffer.stage

/-- The buffer after the calls of an agent in a tick. -/
def act (ctx : Context) (fs : FileSystem) (agent : String) (calls : List ToolCall) : TransactionBuffer :=
  calls.foldl (TransactionBuffer.after ctx fs agent) .empty

end MyTeam.Legacy
