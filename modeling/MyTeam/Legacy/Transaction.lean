import MyTeam.Legacy.Files
import MyTeam.Legacy.Records
import MyTeam.Legacy.SharedKB
import MyTeam.Legacy.Tasks
import Mathlib.Data.String.Basic

/-!
# Staged effects

In Act the agents stage effects; Commit validates them, settles conflicts between agents over a
resource, and marks the rest as committed. Effects of a group fail together. What a committed
effect replaces when it is applied is recorded with it, so that it can be undone.
-/

namespace MyTeam.Legacy

open MyTeam.Py

/-- The types of an effect. -/
inductive EffectType
  | emailSend
  | emailDeliver
  | fileWrite
  | filePatch
  | fileDelete
  | kbCreate
  | kbWrite
  | kbDelete
  | lockAcquire
  | lockRelease
  | taskCreate
  | taskUpdate
  | stateTransition
  | recordUpsert
  | recordDelta
  | ruleAdvance
  | memoryEntryWrite
  | memoryEntryEvict
  | memoryEntryFold
  | memoryRecallConfig
  | memoryRecall
  | memoryPin
deriving DecidableEq, Repr

/-- The ways to undo an effect. -/
inductive InvertKind
  | restorePrevious
  | removeCreated
  | unregister
  | irreversible
deriving DecidableEq, Repr

/-- `INVERT_CONTRACT`. -/
def EffectType.invertKind : EffectType → InvertKind
  | emailSend => .unregister
  | emailDeliver => .irreversible
  | lockAcquire | taskCreate | memoryRecall => .removeCreated
  | _ => .restorePrevious

/-- Whether an effect writes a private file. -/
def EffectType.writesFile (type : EffectType) : Bool :=
  type = fileWrite ∨ type = filePatch

/-- The statuses of an effect. -/
inductive EffectStatus
  | staged
  | validated
  | committed
  | failed
  | rolledBack
deriving DecidableEq, Repr

/-- The statuses of an outbox entry. -/
inductive OutboxStatus
  | staged
  | committed
  | dispatching
  | dispatched
  | failed
  | dead
deriving DecidableEq, Repr

/-- An email that waits for its dispatch. -/
structure OutboxEntry where
  effectId : String
  status : OutboxStatus
  fromAgent : String
  toAgents : List String
  subject : String
  body : String
  emailType : String
  taskId : String
  attachments : List Value

/-- The state of a calendar rule that a commit moves. -/
structure ScheduleRule where
  nextRunTick : Value
  lastFiredAt : Value

/-- What a file held before: nothing, text, or bytes. -/
inductive FilePrevious
  | absent
  | text (content : String)
  | binary (bytes : ByteArray)

/-- What an effect records when it is applied, in order to be undone. -/
inductive InvertData
  | empty
  | outbox
  | task (taskId : String)
  | file (target : List String) (previous : FilePrevious)
  | taskState (before : Task)
  | rule (nextRunTick lastFiredAt : Value)
  | kb (resource : Option SharedKBResource) (version : Option VersionInfo)
  | record (fullKey : String) (before : Option Record) (ledgerIds : List ℕ)

/-- A staged effect. An outbox entry that is made of it gets the id `entryId`, and `applied` says whether the apply
loop has come to its end for this effect. -/
structure StagedEffect where
  effectId : String
  entryId : String
  effectType : EffectType
  agentId : String
  resource : String
  data : List (String × Value) := []
  expectedVersion : Option ℤ := none
  lockToken : Option String := none
  groupId : String := ""
  atomicity : String := "per_effect"
  status : EffectStatus := .staged
  error : Option String := none
  applied : Bool := false
  invertData : InvertData := .empty

namespace StagedEffect

/-- `effect.data.get(key, default)`. -/
def get (e : StagedEffect) (key : String) (default : Value) : Value :=
  (e.data.lookup key).getD default

/-- An effect fails. -/
def fail (e : StagedEffect) (error : String) : StagedEffect :=
  { e with status := .failed, error := some error }

/-- An effect whose failure is that of its whole group. -/
def Grouped (e : StagedEffect) : Prop :=
  e.groupId ≠ "" ∧ e.atomicity = "group"

instance (e : StagedEffect) : Decidable e.Grouped :=
  inferInstanceAs (Decidable (_ ∧ _))

end StagedEffect

/-- What a commit changes. -/
structure World where
  files : FileSystem
  kb : SharedKB
  records : RecordStore
  tasks : TaskTree
  rules : String → Option ScheduleRule
  outbox : String → Option OutboxEntry

/-- What a commit reads besides: the private store, the tick, and what is taken from elsewhere, the clock, the hash
of a text, and what the models make of a date, of attachments and of a number in a string. -/
structure Context where
  privateStore : PrivateStore
  tick : ℕ
  passed : Value → Bool
  sha256 : String → String
  datetime : Value → Option Value
  attachments : Value → Option (List Value)
  parseFloat : String → Option ℚ

/-- `check_task`, for an update; the text is without the times. -/
def checkTask (ctx : Context) (tasks : TaskTree) (e : StagedEffect) : Option String :=
  if e.effectType ≠ .taskUpdate then none
  else
    match tasks.tasks e.resource with
    | none => some s!"Task '{e.resource}' not found"
    | some task =>
      if task.status = .cancelled then some s!"Task '{e.resource}' is cancelled"
      else if task.status.terminal then some s!"Task '{e.resource}' is already terminal ({task.status.value})"
      else if ctx.passed task.deadline then some s!"Task '{e.resource}' deadline passed"
      else none

/-- `check_version`. -/
def checkVersion (kb : SharedKB) (e : StagedEffect) : Option String :=
  match e.expectedVersion with
  | none => none
  | some expected =>
    if (kb.getVersion e.resource : ℤ) = expected then none else some s!"Version conflict: expected {expected}"

/-- `check_lock`, for the types that write. -/
def checkLock (kb : SharedKB) (e : StagedEffect) : Option String :=
  if e.effectType ∈ [.kbWrite, .kbCreate, .kbDelete, .fileWrite, .filePatch, .fileDelete] ∧
      ("shared-kb/".toList <+: e.resource.toList ∨ "project/".toList <+: e.resource.toList) then
    match kb.getLock e.resource with
    | none => some "Must hold lock to write"
    | some lock =>
      if lock.ownerAgentId ≠ e.agentId then some "Must hold lock to write"
      else
        match e.lockToken with
        | none => none
        | some token => if token ≠ "" ∧ lock.lockToken ≠ token then some "Must hold lock to write" else none
  else none

/-- `check_permission`, which asks for an operation under the name of the effect. -/
def checkPermission (kb : SharedKB) (e : StagedEffect) : Option String :=
  let operation := match e.effectType with
    | .kbWrite => "kb_write"
    | .kbCreate => "kb_create"
    | .kbDelete => "kb_delete"
    | _ => ""
  if operation = "" ∨ kb.permits e.agentId e.resource operation then none else some "Permission denied"

/-- `validate` for an effect by itself. -/
def validateEffect (ctx : Context) (w : World) (e : StagedEffect) : StagedEffect :=
  if e.status ≠ .staged then e
  else
    match (checkTask ctx w.tasks e).or ((checkVersion w.kb e).or ((checkLock w.kb e).or (checkPermission w.kb e))) with
    | some error => e.fail error
    | none => { e with status := .validated }

/-- `validate`: the effects by themselves, then the groups. -/
def validate (ctx : Context) (w : World) (effects : List StagedEffect) : List StagedEffect :=
  let checked := effects.map (validateEffect ctx w)
  checked.map fun e =>
    if e.Grouped ∧ e.status ≠ .failed ∧ ∃ member ∈ checked, member.Grouped ∧ member.groupId = e.groupId ∧
        member.status = .failed then
      e.fail s!"group member failed (group {e.groupId})"
    else e

/-- The agent that an effect loses its resource to: the first of those with validated effects on it. -/
def winner (effects : List StagedEffect) (e : StagedEffect) : Option String :=
  if e.status ≠ .validated then none
  else
    let agents := (effects.filter fun other => other.status = .validated ∧ other.resource = e.resource).map (·.agentId)
    agents.min?.filter (· < e.agentId)

/-- `resolve_conflicts`: the losers fail, and the groups of those that fail with their group. -/
def resolveConflicts (effects : List StagedEffect) : List StagedEffect :=
  effects.map fun e =>
    match winner effects e with
    | some agent => e.fail s!"Conflict: lost to agent {agent}"
    | none =>
      if e.status ≠ .failed ∧ ∃ loser ∈ effects, (winner effects loser).isSome ∧ loser.Grouped ∧
          loser.groupId = e.groupId then
        e.fail s!"group member lost conflict (group {e.groupId})"
      else e

/-- `TransactionBuffer.commit`. -/
def commitValidated (effects : List StagedEffect) : List StagedEffect :=
  effects.map fun e => if e.status = .validated then { e with status := .committed } else e

/-- The effects before the apply loop. -/
def prepare (ctx : Context) (w : World) (effects : List StagedEffect) : List StagedEffect :=
  commitValidated (resolveConflicts (validate ctx w effects))

end MyTeam.Legacy
