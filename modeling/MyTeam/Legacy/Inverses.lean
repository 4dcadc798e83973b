import MyTeam.Legacy.Commit

/-!
# Inverses, store by store

Every effect changes one store, and so does its inverse. What an effect undoes is written here as
one function on each store, which leaves the store alone unless the effect is of its kind.
-/

namespace MyTeam.Legacy

open MyTeam.Py

/-- Whether an effect changes the knowledge base. -/
def EffectType.writesKb (type : EffectType) : Bool :=
  type = kbWrite ∨ type = kbCreate ∨ type = kbDelete

/-- Whether an effect changes a record. -/
def EffectType.writesRecord (type : EffectType) : Bool :=
  type = recordUpsert ∨ type = recordDelta

namespace StagedEffect

variable (e : StagedEffect)

/-- The inverse of an effect on the files. -/
def undoFiles (fs : FileSystem) : FileSystem :=
  match e.effectType.writesFile, e.invertData with
  | true, .file target previous => fs.restore target previous
  | _, _ => fs

/-- The inverse of an effect on the knowledge base. -/
def undoKb (kb : SharedKB) : SharedKB :=
  match e.effectType.writesKb, e.invertData with
  | true, .kb resource version => kb.restore e.resource resource version
  | true, _ => kb.restore e.resource none none
  | _, _ => kb

/-- The inverse of an effect on the records. -/
def undoRecords (store : RecordStore) : RecordStore :=
  match e.effectType.writesRecord, e.invertData with
  | true, .record fullKey before ledgerIds => store.invertMutation fullKey before ledgerIds
  | _, _ => store

/-- The inverse of an effect on the tasks. -/
def undoTasks (tree : TaskTree) : TaskTree :=
  match e.effectType.invertKind, e.effectType, e.invertData with
  | .removeCreated, _, .task id => tree.discard id
  | .removeCreated, _, _ => tree.discard e.resource
  | _, .taskUpdate, .taskState before => tree.put before e.resource
  | _, _, _ => tree

/-- What an effect puts back into a calendar rule. -/
def previousRule : ScheduleRule :=
  match e.invertData with
  | .rule next fired => ⟨next, fired⟩
  | _ => ⟨.int 0, .none⟩

/-- The inverse of an effect on the calendar rules. -/
def undoRules (rules : String → Option ScheduleRule) : String → Option ScheduleRule :=
  match e.effectType with
  | .ruleAdvance => Function.update rules e.resource ((rules e.resource).map fun _ => e.previousRule)
  | _ => rules

/-- The inverse of an effect on the outbox. -/
def undoOutbox (outbox : String → Option OutboxEntry) : String → Option OutboxEntry :=
  match e.effectType, e.invertData with
  | .emailSend, .outbox =>
    Function.update outbox e.entryId ((outbox e.entryId).filter fun entry => entry.status ≠ .committed)
  | _, _ => outbox

/-- The inverse of an effect, store by store. -/
def undo (w : World) : World where
  files := e.undoFiles w.files
  kb := e.undoKb w.kb
  records := e.undoRecords w.records
  tasks := e.undoTasks w.tasks
  rules := e.undoRules w.rules
  outbox := e.undoOutbox w.outbox

end StagedEffect

open StagedEffect

/-- The advance of a rule is undone in the rules alone. -/
theorem invertOne_ruleAdvance {w : World} {e : StagedEffect} (htype : e.effectType = .ruleAdvance) :
    invertOne w e = { w with rules := e.undoRules w.rules } := by
  have hkind : e.effectType.invertKind = .restorePrevious := by rw [htype]; rfl
  unfold invertOne undoRules previousRule
  rw [htype] at hkind ⊢
  rw [hkind]
  cases hrule : w.rules e.resource with
  | none =>
    have hsame : Function.update w.rules e.resource none = w.rules := by
      rw [← hrule, Function.update_eq_self]
    cases e.invertData <;> simp [hsame]
  | some rule => cases e.invertData <;> simp

/-- The staging of an email is undone in the outbox alone. -/
theorem invertOne_emailSend {w : World} {e : StagedEffect} (htype : e.effectType = .emailSend) :
    invertOne w e = { w with outbox := e.undoOutbox w.outbox } := by
  have hkind : e.effectType.invertKind = .unregister := by rw [htype]; rfl
  unfold invertOne undoOutbox
  rw [htype] at hkind ⊢
  rw [hkind]
  cases e.invertData with
  | outbox =>
    dsimp only
    cases hentry : w.outbox e.entryId with
    | none =>
      have hsame : Function.update w.outbox e.entryId none = w.outbox := by
        rw [← hentry, Function.update_eq_self]
      simp [hsame]
    | some entry =>
      dsimp only
      split_ifs with hstatus
      · simp [Option.filter, hstatus]
      · have hsame : Function.update w.outbox e.entryId (some entry) = w.outbox := by
          rw [← hentry, Function.update_eq_self]
        simp [Option.filter, hstatus, hsame]
  | _ => rfl

/-- `_invert_one` undoes an effect store by store. -/
theorem invertOne_eq_undo (w : World) (e : StagedEffect) : invertOne w e = e.undo w := by
  cases htype : e.effectType with
  | ruleAdvance =>
    rw [invertOne_ruleAdvance htype]
    unfold undo undoFiles undoKb undoRecords undoTasks undoOutbox
    rw [htype]
    rfl
  | emailSend =>
    rw [invertOne_emailSend htype]
    unfold undo undoFiles undoKb undoRecords undoTasks undoRules
    rw [htype]
    rfl
  | _ =>
    unfold invertOne undo undoFiles undoKb undoRecords undoTasks undoRules undoOutbox
    rw [htype]
    cases e.invertData <;> rfl

/-- What a file held is what stands at a path. -/
def FilePrevious.Stands (fs : FileSystem) (target : List String) : FilePrevious → Prop
  | absent => fs.node target = none
  | text content => ∃ bytes, fs.node target = some (.file bytes) ∧ readText bytes = some content
  | binary bytes => fs.node target = some (.file bytes)

section Files

variable {ctx : Context} {fs : FileSystem} {e : StagedEffect} {target : List String}

/-- The write of a file puts it at its path and records what stood there, or changes nothing. -/
theorem writeFile_cases (fs : FileSystem) (e : StagedEffect) (target : List String) :
    (∃ bytes previous, writeFile fs e target = .applied (fs.write target bytes) (.file target previous) ∧
        FilePrevious.Stands fs target previous) ∨
      (∃ error, writeFile fs e target = .failed fs error) ∨ ∃ error, writeFile fs e target = .raised fs error := by
  unfold writeFile
  split_ifs
  · split
    · exact Or.inr (Or.inl ⟨_, rfl⟩)
    · split
      next => exact Or.inr (Or.inr ⟨_, rfl⟩)
      next hfile => exact Or.inl ⟨_, _, rfl, hfile⟩
      next hnone => exact Or.inl ⟨_, _, rfl, hnone⟩
  · split
    next => exact Or.inr (Or.inr ⟨_, rfl⟩)
    next hfile =>
      split
      next => exact Or.inr (Or.inr ⟨_, rfl⟩)
      next hread _ => exact Or.inl ⟨_, _, rfl, _, hfile, hread⟩
      next => exact Or.inr (Or.inr ⟨_, rfl⟩)
    next hnone _ => exact Or.inl ⟨_, _, rfl, hnone⟩
    next => exact Or.inr (Or.inr ⟨_, rfl⟩)

/-- Making the directories above a path leaves the path itself. -/
theorem node_mkdirParents_self : (fs.mkdirParents target).node target = fs.node target := by
  simp [FileSystem.mkdirParents]

/-- What a file held stands there after the directories above were made. -/
theorem FilePrevious.stands_mkdirParents {previous : FilePrevious} :
    previous.Stands (fs.mkdirParents target) target ↔ previous.Stands fs target := by
  cases previous <;> simp [FilePrevious.Stands, node_mkdirParents_self]

/-- A file effect writes the file that its path leads to, below directories that it makes, and records what stood
there; or it changes nothing but these directories. -/
theorem applyFile_cases (ctx : Context) (fs : FileSystem) (e : StagedEffect) :
    (∃ target bytes previous, ctx.privateStore.resolvePath fs e.agentId e.resource = .ok (some target) ∧
        applyFile ctx fs e = .applied ((fs.mkdirParents target).write target bytes) (.file target previous) ∧
        fs.underFile target = false ∧ FilePrevious.Stands fs target previous) ∨
      (∀ state undo, applyFile ctx fs e ≠ .applied state undo) ∧
        ((applyFile ctx fs e).state = fs ∨
          ∃ target, ctx.privateStore.resolvePath fs e.agentId e.resource = .ok (some target) ∧
            fs.underFile target = false ∧ (applyFile ctx fs e).state = fs.mkdirParents target) := by
  unfold applyFile
  cases hresolve : ctx.privateStore.resolvePath fs e.agentId e.resource with
  | error error => exact Or.inr ⟨by simp, Or.inl rfl⟩
  | ok resolved =>
    cases resolved with
    | none => exact Or.inr ⟨by simp, Or.inl rfl⟩
    | some target =>
      dsimp only
      split
      · exact Or.inr ⟨by simp, Or.inl rfl⟩
      · exact Or.inr ⟨by simp, Or.inl rfl⟩
      · split_ifs with hunder
        · exact Or.inr ⟨by simp, Or.inl rfl⟩
        · have hunder' : fs.underFile target = false := by simpa using hunder
          rcases writeFile_cases (fs.mkdirParents target) e target with
            ⟨bytes, previous, hwrite, hstands⟩ | ⟨error, hwrite⟩ | ⟨error, hwrite⟩
          · exact Or.inl ⟨target, bytes, previous, rfl, hwrite, hunder', FilePrevious.stands_mkdirParents.mp hstands⟩
          · rw [hwrite]
            exact Or.inr ⟨by simp, Or.inr ⟨target, rfl, hunder', rfl⟩⟩
          · rw [hwrite]
            exact Or.inr ⟨by simp, Or.inr ⟨target, rfl, hunder', rfl⟩⟩

/-- Paths are resolved by the links alone. -/
theorem resolvePath_congr {fs' : FileSystem} {store : PrivateStore} {agent path : String}
    (h : fs.resolve = fs'.resolve) :
    store.resolvePath fs agent path = store.resolvePath fs' agent path := by
  unfold PrivateStore.resolvePath PrivateStore.directory
  rw [h]

/-- The state of an outcome in a larger state. -/
@[simp]
theorem Outcome.state_map {σ τ : Type} {f : σ → τ} {o : Outcome σ} : (o.map f).state = f o.state := by
  cases o <;> rfl

/-- A file effect changes the files alone. -/
theorem applyEffect_file {w : World} (hfile : e.effectType.writesFile = true) :
    applyEffect ctx w e = (applyFile ctx w.files e).map fun files => { w with files := files } := by
  unfold applyEffect
  cases htype : e.effectType with
  | fileWrite | filePatch => rfl
  | _ =>
    rw [htype] at hfile
    cases hfile

end Files

end MyTeam.Legacy
