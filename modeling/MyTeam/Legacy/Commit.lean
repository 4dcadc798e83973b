import MyTeam.Legacy.Transaction

/-!
# Commit

The committed effects are applied one after the other, in the order in which they were staged. An
effect that meets an expected obstacle fails, and its group with it, whose other members are
undone; any other exception undoes everything that was applied, in reverse order.
-/

namespace MyTeam.Legacy

open MyTeam.Py

/-- What comes of applying an effect: it is applied, it fails, or an exception is raised. The last two may leave a
change behind. -/
inductive Outcome (σ : Type)
  | applied (state : σ) (undo : InvertData)
  | failed (state : σ) (error : String)
  | raised (state : σ) (error : Exc)

namespace Outcome

variable {σ τ : Type}

/-- The outcome in a larger state. -/
def map (f : σ → τ) : Outcome σ → Outcome τ
  | applied state undo => applied (f state) undo
  | failed state error => failed (f state) error
  | raised state error => raised (f state) error

/-- The state afterwards. -/
def state : Outcome σ → σ
  | applied state _ | failed state _ | raised state _ => state

/-- An operation that either succeeds or raises and changes nothing. -/
def ofExcept (before : σ) (undo : InvertData) : Except Exc σ → Outcome σ
  | .ok state => applied state undo
  | .error error => raised before error

end Outcome

/-- The second check of the base of a patch, when it is applied. -/
def checkBase (ctx : Context) (fs : FileSystem) (e : StagedEffect) (target : List String) :
    Except Exc (Option String) :=
  match e.effectType, e.get "base_hash" .none with
  | .filePatch, .none => .ok none
  | .filePatch, base =>
    let current := match fs.node target with
      | some (.file bytes) => readText bytes
      | _ => some ""
    match current with
    | none => .error (.valueError "'utf-8' codec can't decode")
    | some text =>
      if base.isStr (ctx.sha256 text) then .ok none
      else .ok (some (s!"patch base conflict: file '{e.resource}' changed since Act (content hash mismatch) " ++
        "— re-read and re-apply"))
  | _, _ => .ok none

/-- The write of a private file, in the directory that was made for it. -/
def writeFile (fs : FileSystem) (e : StagedEffect) (target : List String) : Outcome FileSystem :=
  if (e.get "is_binary" (.bool false)).truthy then
    match b64decode (e.get "content_bytes_b64" (.str "")) with
    | none => .failed fs "invalid base64 content_bytes_b64"
    | some bytes =>
      match fs.node target with
      | some .dir => .raised fs (.other "Is a directory")
      | some (.file previous) => .applied (fs.write target bytes) (.file target (.binary previous))
      | none => .applied (fs.write target bytes) (.file target .absent)
  else
    match fs.node target, e.get "content" (.str "") with
    | some .dir, _ => .raised fs (.other "Is a directory")
    | some (.file previous), content =>
      match readText previous, content with
      | none, _ => .raised fs (.valueError "'utf-8' codec can't decode")
      | some text, .str new => .applied (fs.write target new.toUTF8) (.file target (.text text))
      | some _, v => .raised fs (.typeError s!"data must be str, not {v.typeName}")
    | none, .str new => .applied (fs.write target new.toUTF8) (.file target .absent)
    | none, v => .raised fs (.typeError s!"data must be str, not {v.typeName}")

/-- A file effect. -/
def applyFile (ctx : Context) (fs : FileSystem) (e : StagedEffect) : Outcome FileSystem :=
  match ctx.privateStore.resolvePath fs e.agentId e.resource with
  | .error error => .raised fs error
  | .ok none => .failed fs s!"path denied: Agent '{e.agentId}' denied access to '{e.resource}'"
  | .ok (some target) =>
    match checkBase ctx fs e target with
    | .error error => .raised fs error
    | .ok (some error) => .failed fs error
    | .ok none =>
      if fs.underFile target then .raised fs (.other "Not a directory")
      else writeFile (fs.mkdirParents target) e target

/-- A field of a model that must be a string. -/
def stringField (model : String) : Value → Except Exc String
  | .str s => .ok s
  | _ => .error (.valueError s!"validation error for {model}")

/-- A field of a model that must be a list of strings. -/
def stringsField (model : String) : Value → Except Exc (List String)
  | .list xs => xs.mapM (stringField model)
  | _ => .error (.valueError s!"validation error for {model}")

/-- The outbox entry of an email effect, staged and committed. -/
def outboxEntry (ctx : Context) (e : StagedEffect) : Except Exc OutboxEntry := do
  let attachments ← match ctx.attachments (e.get "attachments" (.list [])) with
    | some attachments => .ok attachments
    | none => .error (.valueError "validation error for OutboxEntry")
  return {
    effectId := e.effectId
    status := .committed
    fromAgent := ← stringField "OutboxEntry" (e.get "from_agent" (.str e.agentId))
    toAgents := ← stringsField "OutboxEntry" (e.get "to" (.list []))
    subject := ← stringField "OutboxEntry" (e.get "subject" (.str ""))
    body := ← stringField "OutboxEntry" (e.get "body" (.str ""))
    emailType := ← stringField "OutboxEntry" (e.get "email_type" (.str "progress"))
    taskId := ← stringField "OutboxEntry" (e.get "task_id" (.str ""))
    attachments := attachments }

/-- An email effect. -/
def applyEmail (ctx : Context) (outbox : String → Option OutboxEntry) (e : StagedEffect) :
    Outcome (String → Option OutboxEntry) :=
  match outboxEntry ctx e with
  | .ok entry => .applied (Function.update outbox e.entryId (some entry)) .outbox
  | .error error => .raised outbox error

/-- `exists(task_id)`, where an unhashable id raises. -/
def taskExists (tree : TaskTree) (id : Value) : Except Exc Bool :=
  match id.key with
  | .ok (.str id) => .ok (tree.tasks id).isSome
  | .ok _ => .ok false
  | .error error => .error error

/-- The task of a creation. -/
def createdTask (ctx : Context) (e : StagedEffect) : Except Exc Task := do
  let derivedFrom ← match e.get "derived_from" .none with
    | .none => .ok none
    | v => (stringField "Task" v).map some
  let deadline ← match e.get "deadline" .none with
    | .none => .ok .none
    | v => match ctx.datetime v with
      | some date => .ok date
      | none => .error (.valueError "validation error for Task")
  return {
    taskId := ← stringField "Task" (e.get "task_id" (.str e.resource))
    title := ← stringField "Task" (e.get "title" (.str ""))
    description := ← stringField "Task" (e.get "description" (.str ""))
    assignerAgentId := ← stringField "Task" (e.get "assigner_agent_id" (.str e.agentId))
    assigneeAgentId := ← stringField "Task" (e.get "assignee_agent_id" (.str ""))
    derivedFrom := derivedFrom
    status := .assigned
    priority := TaskPriority.ofValue (e.get "priority" (.str "normal"))
    deadline := deadline
    createdAtTick := ctx.tick
    updatedAtTick := ctx.tick }

/-- Whether the task that a creation derives from is missing. -/
def parentMissing (tree : TaskTree) : Value → Except Exc Bool
  | .none => .ok false
  | parent => (taskExists tree parent).map not

/-- A creation of a task. -/
def applyTaskCreate (ctx : Context) (tree : TaskTree) (e : StagedEffect) : Outcome TaskTree :=
  let id := e.get "task_id" (.str e.resource)
  let parent := e.get "derived_from" .none
  match taskExists tree id, parentMissing tree parent with
  | .error error, _ => .raised tree error
  | .ok true, _ => .failed tree s!"Task '{id.toStr}' already exists"
  | .ok false, .error error => .raised tree error
  | .ok false, .ok true => .failed tree s!"Derived-from task '{parent.toStr}' not found"
  | .ok false, .ok false =>
    match createdTask ctx e with
    | .error error => .raised tree error
    | .ok task => .applied (tree.create task) (.task task.taskId)

/-- An update of a task. -/
def applyTaskUpdate (ctx : Context) (tree : TaskTree) (e : StagedEffect) : Outcome TaskTree :=
  let status := e.get "status" .none
  match TaskStatus.ofValue (e.get "status" (.str "in_progress")) with
  | none => .failed tree s!"Invalid task status: {status.repr}"
  | some target =>
    match tree.tasks e.resource with
    | none => .raised tree (.other s!"Task not found: '{e.resource}'")
    | some task =>
      match task.updateStatus target ctx.tick with
      | none => .failed tree s!"Invalid transition for '{e.resource}': {task.status.value} → {target.value}"
      | some updated =>
        let noted := ["summary", "artifacts", "reason"].foldl (fun task key => task.note key (e.get key .none)) updated
        .applied (tree.put noted e.resource) (.taskState task)

/-- An advance of a calendar rule. -/
def applyRule (rules : String → Option ScheduleRule) (e : StagedEffect) : Outcome (String → Option ScheduleRule) :=
  match e.data.lookup "rule_id" with
  | none => .raised rules (.keyError "'rule_id'")
  | some id =>
    match id.key with
    | .error error => .raised rules error
    | .ok (.str name) =>
      match rules name with
      | none => .failed rules s!"Schedule rule '{name}' not found"
      | some rule => .applied
          (Function.update rules name (some {
            nextRunTick := match e.get "next_run_tick" .none with
              | .none => rule.nextRunTick
              | next => next
            lastFiredAt := match e.get "last_fired_at" .none with
              | .none => rule.lastFiredAt
              | fired => fired }))
          (.rule rule.nextRunTick rule.lastFiredAt)
    | .ok _ => .failed rules s!"Schedule rule '{id.toStr}' not found"

/-- An effect on the knowledge base. -/
def applyKb (ctx : Context) (kb : SharedKB) (e : StagedEffect) : Outcome SharedKB :=
  .ofExcept kb (.kb (kb.resources e.resource) (kb.versions e.resource)) <|
    match e.effectType with
    | .kbWrite =>
      kb.applyCommitted e.resource e.agentId (e.get "content" (.str "")) (e.get "expected_version" (.int 0)) ctx.tick
    | .kbCreate => kb.create e.resource e.agentId (e.get "content" (.str "")) ctx.tick
    | _ => kb.delete e.resource e.agentId

/-- `float(v)`. -/
def toFloat (ctx : Context) : Value → Except Exc ℚ
  | .str s => match ctx.parseFloat s with
    | some q => .ok q
    | none => .error (.valueError s!"could not convert string to float: {Value.reprStr s}")
  | v => match v.number with
    | some q => .ok q
    | none => .error (.typeError s!"float() argument must be a string or a real number, not '{v.typeName}'")

/-- The mutation of a record effect. -/
def recordMutation (ctx : Context) (store : RecordStore) (e : StagedEffect) : Mutation :=
  let recordType := e.get "record_type" (.str "")
  let key := (e.get "key" (.str e.resource)).toStr
  if e.effectType = .recordUpsert then
    store.upsert recordType key (e.get "record" (.dict [])) e.agentId ctx.tick
  else
    match toFloat ctx (e.get "delta" (.int 0)) with
    | .error error => .stopped store (.raised error)
    | .ok delta => store.applyDelta recordType key (e.get "field" (.str "")) delta e.agentId ctx.tick

/-- The key of the record of an effect. -/
def recordKey (e : StagedEffect) : String :=
  let recordType := (e.get "record_type" (.str "")).toStr
  let key := (e.get "key" (.str e.resource)).toStr
  s!"{recordType}:{key}"

/-- A record effect. -/
def applyRecord (ctx : Context) (store : RecordStore) (e : StagedEffect) : Outcome RecordStore :=
  match recordMutation ctx store e with
  | .done after ledgerId => .applied after (.record (recordKey e) (store.records.lookup (recordKey e)) [ledgerId])
  | .stopped after (.invariant message) => .failed after message
  | .stopped after (.raised error) => .raised after error

/-- The apply loop for one effect. Types without a branch count as applied. -/
def applyEffect (ctx : Context) (w : World) (e : StagedEffect) : Outcome World :=
  match e.effectType with
  | .fileWrite | .filePatch => (applyFile ctx w.files e).map fun files => { w with files := files }
  | .emailSend => (applyEmail ctx w.outbox e).map fun outbox => { w with outbox := outbox }
  | .taskCreate => (applyTaskCreate ctx w.tasks e).map fun tasks => { w with tasks := tasks }
  | .ruleAdvance => (applyRule w.rules e).map fun rules => { w with rules := rules }
  | .taskUpdate => (applyTaskUpdate ctx w.tasks e).map fun tasks => { w with tasks := tasks }
  | .kbWrite | .kbCreate | .kbDelete => (applyKb ctx w.kb e).map fun kb => { w with kb := kb }
  | .recordUpsert | .recordDelta => (applyRecord ctx w.records e).map fun records => { w with records := records }
  | _ => .applied w .empty

/-- The bytes that stood in a file, as they are written back. -/
def FilePrevious.bytes : FilePrevious → Option ByteArray
  | absent => none
  | text content => some content.toUTF8
  | binary bytes => some bytes

/-- Puts back what a file held; where that raises, nothing happens. -/
def FileSystem.restore (fs : FileSystem) (target : List String) (previous : FilePrevious) : FileSystem :=
  match previous.bytes with
  | none => if fs.isDir target then fs else fs.unlink target
  | some bytes => if fs.writable target then fs.write target bytes else fs

/-- `_invert_one`. What was not recorded is read as missing, so that an effect that was never applied has an inverse
too. -/
def invertOne (w : World) (e : StagedEffect) : World :=
  match e.effectType.invertKind, e.effectType, e.invertData with
  | .unregister, _, .outbox =>
    match w.outbox e.entryId with
    | some entry =>
      if entry.status = .committed then { w with outbox := Function.update w.outbox e.entryId none } else w
    | none => w
  | .removeCreated, _, .task id => { w with tasks := w.tasks.discard id }
  | .removeCreated, _, _ => { w with tasks := w.tasks.discard e.resource }
  | .restorePrevious, .fileWrite, .file target previous | .restorePrevious, .filePatch, .file target previous =>
    { w with files := w.files.restore target previous }
  | .restorePrevious, .recordUpsert, .record fullKey before ledgerIds
  | .restorePrevious, .recordDelta, .record fullKey before ledgerIds =>
    { w with records := w.records.invertMutation fullKey before ledgerIds }
  | .restorePrevious, .kbWrite, .kb resource version | .restorePrevious, .kbCreate, .kb resource version
  | .restorePrevious, .kbDelete, .kb resource version => { w with kb := w.kb.restore e.resource resource version }
  | .restorePrevious, .kbWrite, _ | .restorePrevious, .kbCreate, _ | .restorePrevious, .kbDelete, _ =>
    { w with kb := w.kb.restore e.resource none none }
  | .restorePrevious, .taskUpdate, .taskState before => { w with tasks := w.tasks.put before e.resource }
  | .restorePrevious, .ruleAdvance, data =>
    let (next, fired) := match data with
      | .rule next fired => (next, fired)
      | _ => (.int 0, .none)
    match w.rules e.resource with
    | none => w
    | some _ => { w with rules := Function.update w.rules e.resource (some ⟨next, fired⟩) }
  | _, _, _ => w

/-- The apply loop: what it has changed, the effects it has gone through, and those that are left. -/
structure ApplyLoop where
  world : World
  done : List StagedEffect := []
  todo : List StagedEffect

namespace ApplyLoop

/-- The members of a group that `_fail_locally` undoes. -/
def undone (groupId : String) (members : List StagedEffect) : List StagedEffect :=
  members.filter fun member => member.groupId = groupId ∧ member.status = .committed

/-- A member of a group that fails with it. -/
def failMember (groupId : String) (member : StagedEffect) : StagedEffect :=
  if member.groupId = groupId then member.fail s!"group member failed (group {groupId})" else member

/-- `_fail_locally`. -/
def failLocally (l : ApplyLoop) (e : StagedEffect) (rest : List StagedEffect) (error : String) : ApplyLoop :=
  if e.Grouped then
    { world := (undone e.groupId (l.done ++ rest)).foldl invertOne l.world
      done := l.done.map (failMember e.groupId) ++ [e.fail error]
      todo := rest.map (failMember e.groupId) }
  else { l with done := l.done ++ [e.fail error], todo := rest }

/-- The turn of an effect, or the exception it raises and what that leaves behind. -/
def turn (ctx : Context) (l : ApplyLoop) (e : StagedEffect) (rest : List StagedEffect) :
    Except (World × Exc) ApplyLoop :=
  if e.status ≠ .committed then .ok { l with done := l.done ++ [e], todo := rest }
  else
    match applyEffect ctx l.world e with
    | .applied world undo => .ok
        { world := world, done := l.done ++ [{ e with applied := true, invertData := undo }], todo := rest }
    | .failed world error => .ok (failLocally { l with world := world } e rest error)
    | .raised world error => .error (world, error)

/-- The loop, for a number of effects; it ends early with an exception. -/
def run (ctx : Context) : ℕ → ApplyLoop → ApplyLoop × Option Exc
  | 0, l => (l, none)
  | n + 1, l =>
    match l.todo with
    | [] => (l, none)
    | e :: rest =>
      match l.turn ctx e rest with
      | .ok next => run ctx n next
      | .error (world, error) => ({ l with world := world }, some error)

/-- The effects the loop has applied, in order. -/
def applied (l : ApplyLoop) : List StagedEffect :=
  l.done.filter fun e => e.applied

/-- `_rollback` for the effects: they are undone in reverse, and none stays committed. -/
def rollback (l : ApplyLoop) (error : Exc) : ApplyLoop where
  world := l.applied.reverse.foldl invertOne l.world
  done := l.done.map fun e => if e.applied ∨ e.status = .committed then { e with status := .rolledBack } else e
  todo := match l.todo with
    | [] => []
    | failing :: rest => failing.fail error.message ::
        rest.map fun e => if e.status = .committed then { e with status := .rolledBack } else e

end ApplyLoop

/-- The apply loop of `_phase_commit`, from the effects that were committed. -/
def applyCommitted (ctx : Context) (w : World) (effects : List StagedEffect) : ApplyLoop × Option Exc :=
  let committed := (prepare ctx w effects).filter fun e => e.status = .committed
  ApplyLoop.run ctx committed.length { world := w, todo := committed }

/-- `_phase_commit` up to the release of the locks, and whether it rolled back. -/
def phaseCommit (ctx : Context) (w : World) (effects : List StagedEffect) : ApplyLoop × Bool :=
  match applyCommitted ctx w effects with
  | (l, none) => (l, false)
  | (l, some error) => (l.rollback error, true)

end MyTeam.Legacy
