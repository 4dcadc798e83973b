import MyTeam.Legacy.Inverses
import MyTeam.Undo.Stores

/-!
# Undoing task effects

The maps beside the tasks hold no id that is not a task's. With that, discarding a task that was
just created puts the tree back, apart from lists that were missing and are empty now.
-/

namespace MyTeam.Legacy

open MyTeam.Py MyTeam.Undo

namespace TaskTree

variable (tree : TaskTree)

/-- The children of a task. -/
def children (id : String) : List String :=
  (tree.childrenMap id).getD []

/-- The tasks of an agent. -/
def assigned (agent : String) : List String :=
  (tree.assigneeMap agent).getD []

/-- Every id in the maps is that of a task, each child is listed under its parent alone, and no list repeats an id. -/
structure Tidy : Prop where
  parent : ∀ id, tree.tasks id = none → tree.parentMap id = none
  childless : ∀ id, tree.tasks id = none → tree.children id = []
  child : ∀ parent id, id ∈ tree.children parent → tree.parentMap id = some (some parent)
  assigned : ∀ agent id, id ∈ tree.assigned agent → tree.tasks id ≠ none
  childrenNodup : ∀ id, (tree.children id).Nodup
  assignedNodup : ∀ agent, (tree.assigned agent).Nodup

/-- The same tasks, parents, children and assignments. -/
structure Matches (tree' : TaskTree) : Prop where
  tasks : tree.tasks = tree'.tasks
  parentMap : tree.parentMap = tree'.parentMap
  children : ∀ id, tree.children id = tree'.children id
  assigned : ∀ agent, tree.assigned agent = tree'.assigned agent

variable {tree} {tree' : TaskTree} {task : Task} {id : String}

/-- Matching is reflexive. -/
theorem Matches.refl (tree : TaskTree) : tree.Matches tree :=
  ⟨rfl, rfl, fun _ => rfl, fun _ => rfl⟩

/-- Matching is transitive. -/
theorem Matches.trans {tree'' : TaskTree} (h : tree.Matches tree') (h' : tree'.Matches tree'') : tree.Matches tree'' :=
  ⟨h.tasks.trans h'.tasks, h.parentMap.trans h'.parentMap, fun id => (h.children id).trans (h'.children id),
    fun agent => (h.assigned agent).trans (h'.assigned agent)⟩

/-- The children after a creation. -/
theorem children_create (parent : String) : (tree.create task).children parent =
    if task.derivedFrom = some parent then tree.children parent ++ [task.taskId] else tree.children parent := by
  unfold create children
  cases hfrom : task.derivedFrom with
  | none => simp
  | some from_ =>
    by_cases hparent : parent = from_
    · simp [append, hparent]
    · have hne : from_ ≠ parent := Ne.symm hparent
      simp [append, hparent, hne]

/-- The assignments after a creation. -/
theorem assigned_create (agent : String) : (tree.create task).assigned agent =
    if task.assigneeAgentId = agent then tree.assigned agent ++ [task.taskId] else tree.assigned agent := by
  unfold create assigned append
  by_cases hagent : agent = task.assigneeAgentId
  · simp [hagent]
  · have hne : task.assigneeAgentId ≠ agent := Ne.symm hagent
    simp [hagent, hne]

/-- The children after a task is discarded. -/
theorem children_discard (parent : String) : (tree.discard id).children parent =
    if parent = id then [] else if tree.parentMap id = some (some parent) then (tree.children parent).erase id
    else tree.children parent := by
  unfold discard children
  dsimp only
  by_cases hself : parent = id
  · subst hself
    rcases tree.parentMap parent with _ | (_ | from_)
    · simp
    · simp
    · by_cases hparent : parent = from_
      · simp [hparent]
      · simp [Function.update_of_ne hparent]
  · rcases tree.parentMap id with _ | (_ | from_)
    · simp [hself]
    · simp [hself]
    · by_cases hparent : parent = from_
      · subst hparent
        cases hchildren : tree.childrenMap parent <;> simp [hself, hchildren]
      · have hne : from_ ≠ parent := Ne.symm hparent
        simp [hself, hparent, hne]

/-- The assignments after a task is discarded. -/
theorem assigned_discard (agent : String) : (tree.discard id).assigned agent = (tree.assigned agent).erase id := by
  unfold discard assigned
  dsimp only
  cases tree.assigneeMap agent <;> rfl

/-- Creations match. -/
theorem Matches.create (h : tree.Matches tree') (task : Task) : (tree.create task).Matches (tree'.create task) := by
  constructor
  case tasks => simp only [TaskTree.create, h.tasks]
  case parentMap => simp only [TaskTree.create, h.parentMap]
  case children =>
    intro id
    rw [children_create, children_create, h.children]
  case assigned =>
    intro agent
    rw [assigned_create, assigned_create, h.assigned]

/-- Stored tasks match. -/
theorem Matches.put (h : tree.Matches tree') (task : Task) (id : String) :
    (tree.put task id).Matches (tree'.put task id) := by
  refine ⟨?_, h.parentMap, h.children, h.assigned⟩
  simp only [TaskTree.put, h.tasks]

/-- Discarded tasks match. -/
theorem Matches.discard (h : tree.Matches tree') (id : String) : (tree.discard id).Matches (tree'.discard id) := by
  constructor
  case tasks => simp only [TaskTree.discard, h.tasks]
  case parentMap => simp only [TaskTree.discard, h.parentMap]
  case children =>
    intro parent
    rw [children_discard, children_discard, h.children, h.parentMap]
  case assigned =>
    intro agent
    rw [assigned_discard, assigned_discard, h.assigned]

/-- A task that does not exist is nobody's child. -/
theorem Tidy.not_mem_children (h : tree.Tidy) (habsent : tree.tasks id = none) (parent : String) :
    id ∉ tree.children parent := by
  intro hmem
  have hparent := h.child parent id hmem
  rw [h.parent id habsent] at hparent
  cases hparent

/-- A task that does not exist is nobody's. -/
theorem Tidy.not_mem_assigned (h : tree.Tidy) (habsent : tree.tasks id = none) (agent : String) :
    id ∉ tree.assigned agent :=
  fun hmem => h.assigned agent id hmem habsent

/-- A creation keeps the tree tidy. -/
theorem Tidy.create (h : tree.Tidy) (hnew : tree.tasks task.taskId = none)
    (hparent : ∀ parent, task.derivedFrom = some parent → tree.tasks parent ≠ none) : (tree.create task).Tidy := by
  have htasks (id : String) (hid : (tree.create task).tasks id = none) : id ≠ task.taskId ∧ tree.tasks id = none := by
    by_cases hself : id = task.taskId
    · subst hself
      simp [TaskTree.create] at hid
    · exact ⟨hself, by simpa [TaskTree.create, hself] using hid⟩
  constructor
  case parent =>
    intro id hid
    obtain ⟨hne, hid⟩ := htasks id hid
    simpa [TaskTree.create, hne] using h.parent id hid
  case childless =>
    intro id hid
    obtain ⟨hne, hid⟩ := htasks id hid
    rw [children_create, if_neg fun hfrom => hparent id hfrom hid]
    exact h.childless id hid
  case child =>
    intro parent id hmem
    rw [children_create] at hmem
    split_ifs at hmem with hfrom
    · rcases List.mem_append.mp hmem with hmem | hmem
      · have hne : id ≠ task.taskId := fun heq => h.not_mem_children hnew parent (heq ▸ hmem)
        simpa [TaskTree.create, hne] using h.child parent id hmem
      · rw [List.mem_singleton.mp hmem]
        simp [TaskTree.create, hfrom]
    · have hne : id ≠ task.taskId := fun heq => h.not_mem_children hnew parent (heq ▸ hmem)
      simpa [TaskTree.create, hne] using h.child parent id hmem
  case assigned =>
    intro agent id hmem
    by_cases hself : id = task.taskId
    · simp [TaskTree.create, hself]
    · rw [assigned_create] at hmem
      have hmem' : id ∈ tree.assigned agent := by
        split_ifs at hmem
        · exact (List.mem_append.mp hmem).resolve_right fun hlast => hself (List.mem_singleton.mp hlast)
        · exact hmem
      simpa [TaskTree.create, hself] using h.assigned agent id hmem'
  case childrenNodup =>
    intro id
    rw [children_create]
    split_ifs
    · exact List.nodup_append.mpr ⟨h.childrenNodup id, List.nodup_singleton _, fun other hother last hlast heq =>
        h.not_mem_children hnew id (List.mem_singleton.mp hlast ▸ heq ▸ hother)⟩
    · exact h.childrenNodup id
  case assignedNodup =>
    intro agent
    rw [assigned_create]
    split_ifs
    · exact List.nodup_append.mpr ⟨h.assignedNodup agent, List.nodup_singleton _, fun other hother last hlast heq =>
        h.not_mem_assigned hnew agent (List.mem_singleton.mp hlast ▸ heq ▸ hother)⟩
    · exact h.assignedNodup agent

/-- Storing a task keeps the tree tidy. -/
theorem Tidy.put (h : tree.Tidy) (task : Task) (id : String) : (tree.put task id).Tidy := by
  have htasks (other : String) (hnone : (tree.put task id).tasks other = none) : tree.tasks other = none := by
    by_cases hself : other = id
    · subst hself
      simp [TaskTree.put] at hnone
    · simpa [TaskTree.put, hself] using hnone
  exact ⟨fun other hnone => h.parent other (htasks other hnone),
    fun other hnone => h.childless other (htasks other hnone),
    h.child, fun agent other hmem hnone => h.assigned agent other hmem (htasks other hnone), h.childrenNodup,
    h.assignedNodup⟩

/-- Discarding a task that does not exist changes nothing. -/
theorem Tidy.discard_absent (h : tree.Tidy) (habsent : tree.tasks id = none) : (tree.discard id).Matches tree := by
  constructor
  case tasks => rw [discard, ← habsent, Function.update_eq_self]
  case parentMap => rw [discard, ← h.parent id habsent, Function.update_eq_self]
  case children =>
    intro parent
    rw [children_discard, h.parent id habsent]
    split_ifs with hself hnone
    · rw [hself, h.childless id habsent]
    · cases hnone
    · rfl
  case assigned =>
    intro agent
    rw [assigned_discard, List.erase_of_not_mem (h.not_mem_assigned habsent agent)]

/-- A creation is undone by discarding the task. -/
theorem Tidy.discard_create (h : tree.Tidy) (hnew : tree.tasks task.taskId = none) :
    ((tree.create task).discard task.taskId).Matches tree := by
  have herase {ids : List String} (hmem : task.taskId ∉ ids) : (ids ++ [task.taskId]).erase task.taskId = ids := by
    rw [List.erase_append_right _ hmem]
    simp
  constructor
  case tasks =>
    simp only [TaskTree.create, TaskTree.discard, Function.update_idem]
    rw [← hnew, Function.update_eq_self]
  case parentMap =>
    simp only [TaskTree.create, TaskTree.discard, Function.update_idem]
    rw [← h.parent _ hnew, Function.update_eq_self]
  case children =>
    intro parent
    have hmap : (tree.create task).parentMap task.taskId = some task.derivedFrom := by simp [TaskTree.create]
    rw [children_discard, children_create, hmap]
    by_cases hself : parent = task.taskId
    · rw [if_pos hself, hself, h.childless _ hnew]
    · rw [if_neg hself]
      by_cases hfrom : task.derivedFrom = some parent
      · rw [if_pos (by rw [hfrom]), if_pos hfrom, herase (h.not_mem_children hnew parent)]
      · rw [if_neg (by simpa using hfrom), if_neg hfrom]
  case assigned =>
    intro agent
    rw [assigned_discard, assigned_create]
    split_ifs
    · exact herase (h.not_mem_assigned hnew agent)
    · exact List.erase_of_not_mem (h.not_mem_assigned hnew agent)

/-- Discarding a task keeps the tree tidy. -/
theorem Tidy.discard (h : tree.Tidy) (id : String) : (tree.discard id).Tidy := by
  have htasks (other : String) (hother : other ≠ id) : (tree.discard id).tasks other = tree.tasks other := by
    simp [TaskTree.discard, hother]
  have hparents (other : String) (hother : other ≠ id) : (tree.discard id).parentMap other = tree.parentMap other := by
    simp [TaskTree.discard, hother]
  have hsublist (parent : String) : ((tree.discard id).children parent).Sublist (tree.children parent) := by
    rw [children_discard]
    split_ifs
    · exact List.nil_sublist _
    · exact List.erase_sublist
    · exact .refl _
  have hchild (parent : String) : id ∉ (tree.discard id).children parent := by
    rw [children_discard]
    split_ifs with hself hparent
    · exact List.not_mem_nil
    · exact (h.childrenNodup parent).not_mem_erase
    · exact fun hmem => hparent (h.child parent id hmem)
  have hassigned (agent : String) : id ∉ (tree.discard id).assigned agent := by
    rw [assigned_discard]
    exact (h.assignedNodup agent).not_mem_erase
  constructor
  case parent =>
    intro other hnone
    by_cases hother : other = id
    · simp [TaskTree.discard, hother]
    · rw [htasks other hother] at hnone
      rw [hparents other hother, h.parent other hnone]
  case childless =>
    intro other hnone
    by_cases hother : other = id
    · rw [children_discard, if_pos hother]
    · rw [htasks other hother] at hnone
      exact List.sublist_nil.mp (h.childless other hnone ▸ hsublist other)
  case child =>
    intro parent other hmem
    have hother : other ≠ id := fun heq => hchild parent (heq ▸ hmem)
    rw [hparents other hother]
    exact h.child parent other ((hsublist parent).subset hmem)
  case assigned =>
    intro agent other hmem
    have hother : other ≠ id := fun heq => hassigned agent (heq ▸ hmem)
    rw [htasks other hother]
    rw [assigned_discard] at hmem
    exact h.assigned agent other (List.mem_of_mem_erase hmem)
  case childrenNodup => exact fun parent => (h.childrenNodup parent).sublist (hsublist parent)
  case assignedNodup =>
    intro agent
    rw [assigned_discard]
    exact (h.assignedNodup agent).erase id

/-- A creation commutes with discarding another task that is not its parent. -/
theorem create_discard (hself : task.taskId ≠ id) (hparent : task.derivedFrom ≠ some id) :
    ((tree.create task).discard id).Matches ((tree.discard id).create task) := by
  have herase (ids : List String) : (ids ++ [task.taskId]).erase id = ids.erase id ++ [task.taskId] := by
    rw [List.erase_append]
    split_ifs with hmem
    · rfl
    · rw [List.erase_of_not_mem hmem, List.erase_of_not_mem (by simpa using hself.symm)]
  constructor
  case tasks => simp only [TaskTree.create, TaskTree.discard, Function.update_comm hself]
  case parentMap => simp only [TaskTree.create, TaskTree.discard, Function.update_comm hself]
  case children =>
    intro parent
    have hmap : (tree.create task).parentMap id = tree.parentMap id := by simp [TaskTree.create, hself.symm]
    rw [children_discard, children_create, children_create, children_discard, hmap]
    by_cases hid : parent = id
    · rw [if_pos hid, if_pos hid, if_neg (hid ▸ hparent)]
    · rw [if_neg hid, if_neg hid]
      split_ifs
      · exact herase _
      · rfl
      · rfl
      · rfl
  case assigned =>
    intro agent
    rw [assigned_discard, assigned_create, assigned_create, assigned_discard]
    split_ifs
    · exact herase _
    · rfl

/-- Two tasks are discarded in any order. -/
theorem discard_discard {other : String} (h : id ≠ other) :
    ((tree.discard other).discard id).Matches ((tree.discard id).discard other) := by
  have hparents {id other : String} (h : id ≠ other) : (tree.discard other).parentMap id = tree.parentMap id := by
    simp [TaskTree.discard, h]
  constructor
  case tasks => simp only [TaskTree.discard, Function.update_comm h]
  case parentMap => simp only [TaskTree.discard, Function.update_comm h]
  case children =>
    intro parent
    simp only [children_discard, hparents h, hparents h.symm]
    split_ifs <;> first | rfl | exact List.erase_nil _ | exact (List.erase_nil _).symm | exact List.erase_comm ..
  case assigned =>
    intro agent
    simp only [assigned_discard]
    exact List.erase_comm ..

/-- Storing a task commutes with discarding another. -/
theorem put_discard {other : String} (h : other ≠ id) :
    (tree.put task other).discard id = (tree.discard id).put task other := by
  simp only [TaskTree.put, TaskTree.discard, Function.update_comm h]

/-- Storing a task commutes with creating another. -/
theorem create_put {before : Task} (h : task.taskId ≠ id) :
    (tree.create task).put before id = (tree.put before id).create task := by
  simp only [TaskTree.put, TaskTree.create, Function.update_comm h]

/-- Two tasks are stored in any order. -/
theorem put_put {before : Task} {other : String} (h : other ≠ id) :
    (tree.put task other).put before id = (tree.put before id).put task other := by
  simp only [TaskTree.put, Function.update_comm h]

/-- A task is put back. -/
theorem put_before {before : Task} (h : tree.tasks id = some before) : (tree.put task id).put before id = tree := by
  simp only [TaskTree.put, Function.update_idem, ← h, Function.update_eq_self]

end TaskTree

section Effects

variable {ctx : Context} {tree tree' : TaskTree} {d e : StagedEffect} {task : Task} {undo : InvertData}

/-- A field that must be a string. -/
theorem stringField_eq_ok {model text : String} {v : Value} : stringField model v = .ok text ↔ v = .str text := by
  cases v <;> simp [stringField]

/-- A created task has the id and the parent that the effect names. -/
theorem createdTask_eq_ok (h : createdTask ctx e = .ok task) :
    e.get "task_id" (.str e.resource) = .str task.taskId ∧
      e.get "derived_from" .none = (task.derivedFrom.map Value.str).getD .none := by
  have hfields {derivedFrom : Option String} {date : Value} (h : (do
        return ({
          taskId := ← stringField "Task" (e.get "task_id" (.str e.resource))
          title := ← stringField "Task" (e.get "title" (.str ""))
          description := ← stringField "Task" (e.get "description" (.str ""))
          assignerAgentId := ← stringField "Task" (e.get "assigner_agent_id" (.str e.agentId))
          assigneeAgentId := ← stringField "Task" (e.get "assignee_agent_id" (.str ""))
          derivedFrom := derivedFrom
          status := .assigned
          priority := TaskPriority.ofValue (e.get "priority" (.str "normal"))
          deadline := date
          createdAtTick := ctx.tick
          updatedAtTick := ctx.tick } : Task) : Except Exc Task) = .ok task)
      (hparent : e.get "derived_from" .none = (derivedFrom.map Value.str).getD .none) :
      e.get "task_id" (.str e.resource) = .str task.taskId ∧
        e.get "derived_from" .none = (task.derivedFrom.map Value.str).getD .none := by
    simp only [bind_eq_ok, stringField_eq_ok] at h
    obtain ⟨id, hid, _, -, _, -, _, -, _, -, h⟩ := h
    cases Except.ok.inj h
    exact ⟨hid, hparent⟩
  unfold createdTask at h
  dsimp only at h
  split at h
  next hnone =>
    obtain ⟨_, hfrom, h⟩ := bind_eq_ok.mp h
    obtain rfl := Except.ok.inj hfrom
    split at h
    · obtain ⟨_, -, h⟩ := bind_eq_ok.mp h
      exact hfields h hnone
    · split at h <;> obtain ⟨_, -, h⟩ := bind_eq_ok.mp h <;> exact hfields h hnone
  next =>
    obtain ⟨derivedFrom, hfrom, h⟩ := bind_eq_ok.mp h
    have hparent : e.get "derived_from" .none = (derivedFrom.map Value.str).getD .none := by
      cases hfield : stringField "Task" (e.get "derived_from" .none) with
      | error error =>
        rw [hfield] at hfrom
        cases hfrom
      | ok parent =>
        rw [hfield] at hfrom
        obtain rfl := Except.ok.inj hfrom
        exact stringField_eq_ok.mp hfield
    split at h
    · obtain ⟨_, -, h⟩ := bind_eq_ok.mp h
      exact hfields h hparent
    · split at h <;> obtain ⟨_, -, h⟩ := bind_eq_ok.mp h <;> exact hfields h hparent

/-- A creation of a task, by what it reads of the tree. -/
theorem applyTaskCreate_applied_iff : applyTaskCreate ctx tree e = .applied tree' undo ↔
    ∃ task, createdTask ctx e = .ok task ∧ tree.tasks task.taskId = none ∧
      (∀ parent, task.derivedFrom = some parent → tree.tasks parent ≠ none) ∧
      tree' = tree.create task ∧ undo = .task task.taskId := by
  unfold applyTaskCreate
  dsimp only
  cases hcreated : createdTask ctx e with
  | error error => split <;> simp
  | ok task =>
    obtain ⟨hid, hparent⟩ := createdTask_eq_ok hcreated
    have hexists : taskExists tree (e.get "task_id" (.str e.resource)) = .ok (tree.tasks task.taskId).isSome := by
      rw [hid]
      rfl
    rw [hexists]
    cases htask : tree.tasks task.taskId with
    | some old => simp [htask]
    | none =>
      cases hfrom : task.derivedFrom with
      | none =>
        rw [hparent, hfrom]
        simp [parentMissing, htask, hfrom, eq_comm]
      | some parent =>
        have hmissing : parentMissing tree (e.get "derived_from" .none) = .ok !(tree.tasks parent).isSome := by
          rw [hparent, hfrom]
          rfl
        rw [hmissing]
        cases hthere : tree.tasks parent with
        | none => simp [hfrom, hthere]
        | some other => simp [htask, hfrom, hthere, eq_comm]

/-- A task after an update. -/
def updatedTask (ctx : Context) (e : StagedEffect) (before : Task) : Option Task :=
  (TaskStatus.ofValue (e.get "status" (.str "in_progress"))).bind fun target =>
    (before.updateStatus target ctx.tick).map fun updated =>
      ["summary", "artifacts", "reason"].foldl (fun task key => task.note key (e.get key .none)) updated

/-- An update of a task, by what it reads of the tree. -/
theorem applyTaskUpdate_applied_iff : applyTaskUpdate ctx tree e = .applied tree' undo ↔
    ∃ before after, tree.tasks e.resource = some before ∧ updatedTask ctx e before = some after ∧
      tree' = tree.put after e.resource ∧ undo = .taskState before := by
  unfold applyTaskUpdate updatedTask
  dsimp only
  cases TaskStatus.ofValue (e.get "status" (.str "in_progress")) with
  | none => simp
  | some target =>
    cases tree.tasks e.resource with
    | none => simp
    | some before =>
      cases hstatus : before.updateStatus target ctx.tick <;> simp [hstatus, eq_comm]

namespace StagedEffect

/-- The task that the inverse of an effect changes. -/
def inverseTask (e : StagedEffect) : Option String :=
  match e.effectType.invertKind, e.effectType, e.invertData with
  | .removeCreated, _, .task id => some id
  | .removeCreated, _, _ => some e.resource
  | _, .taskUpdate, .taskState _ => some e.resource
  | _, _, _ => none

/-- The task that an effect changes. -/
def ownTask (e : StagedEffect) : Option String :=
  match e.effectType, e.invertData with
  | .taskCreate, .task id => some id
  | .taskUpdate, _ => some e.resource
  | _, _ => none

/-- An effect does to the tasks what it recorded. -/
def DoesTasks (ctx : Context) (e : StagedEffect) (tree tree' : TaskTree) : Prop :=
  if e.effectType = .taskCreate then applyTaskCreate ctx tree e = .applied tree' e.invertData
  else if e.effectType = .taskUpdate then applyTaskUpdate ctx tree e = .applied tree' e.invertData
  else tree' = tree

/-- An effect changes another task than the inverse of another, and creates none below a task that this discards. -/
structure ApartInTasks (d e : StagedEffect) : Prop where
  own : ∀ id ∈ d.inverseTask, id ∉ e.ownTask
  parent : ∀ id ∈ d.inverseTask, d.effectType ≠ .taskUpdate → e.effectType = .taskCreate →
    e.get "derived_from" .none ≠ .str id

/-- An effect changes another task than the inverse of another. -/
def OtherTask (d e : StagedEffect) : Prop :=
  ∀ id ∈ d.inverseTask, id ∉ e.ownTask

/-- What an effect did to the tasks is undone in a tree, or it did nothing to them. -/
def LeadsTasks (e : StagedEffect) (tree tree' : TaskTree) : Prop :=
  (e.inverseTask = e.ownTask ∧ (e.undoTasks tree').Matches tree) ∨
    e.effectType ≠ .taskCreate ∧ e.effectType ≠ .taskUpdate ∧ tree'.Matches tree

/-- No task has the id that an effect which created none would discard. -/
def RestoresTasks (e : StagedEffect) (tree : TaskTree) : Prop :=
  e.effectType ≠ .taskCreate → e.effectType ≠ .taskUpdate → ∀ id ∈ e.inverseTask, tree.tasks id = none

end StagedEffect

/-- What an inverse does to the tasks. -/
theorem undoTasks_cases (e : StagedEffect) :
    (∃ id, e.effectType ≠ .taskUpdate ∧ e.inverseTask = some id ∧ ∀ tree : TaskTree,
      e.undoTasks tree = tree.discard id) ∨
    (∃ before, e.effectType = .taskUpdate ∧ e.invertData = .taskState before ∧ e.inverseTask = some e.resource ∧
      ∀ tree : TaskTree, e.undoTasks tree = tree.put before e.resource) ∨
    e.inverseTask = none ∧ ∀ tree : TaskTree, e.undoTasks tree = tree := by
  by_cases hcreated : e.effectType.invertKind = .removeCreated
  · have htype : e.effectType ≠ .taskUpdate := by
      intro htype
      rw [htype] at hcreated
      cases hcreated
    unfold StagedEffect.undoTasks StagedEffect.inverseTask
    rw [hcreated]
    cases e.invertData with
    | task id => exact Or.inl ⟨id, htype, rfl, fun _ => rfl⟩
    | _ => exact Or.inl ⟨e.resource, htype, rfl, fun _ => rfl⟩
  · by_cases htype : e.effectType = .taskUpdate
    · unfold StagedEffect.undoTasks StagedEffect.inverseTask
      rw [htype]
      cases e.invertData with
      | taskState before => exact Or.inr (Or.inl ⟨before, rfl, rfl, rfl, fun _ => rfl⟩)
      | _ => exact Or.inr (Or.inr ⟨rfl, fun _ => rfl⟩)
    · refine Or.inr (Or.inr ⟨?_, fun tree => ?_⟩)
      · unfold StagedEffect.inverseTask
        split
        next hkind _ => exact absurd hkind hcreated
        next hkind _ => exact absurd hkind hcreated
        next hupdate _ _ => exact absurd hupdate htype
        next => rfl
      · unfold StagedEffect.undoTasks
        split
        next hkind _ => exact absurd hkind hcreated
        next hkind _ => exact absurd hkind hcreated
        next hupdate _ _ => exact absurd hupdate htype
        next => rfl

/-- What an effect does to the tasks. -/
theorem doesTasks_cases (does : e.DoesTasks ctx tree tree') :
    (∃ task, e.effectType = .taskCreate ∧ e.invertData = .task task.taskId ∧ createdTask ctx e = .ok task ∧
      tree.tasks task.taskId = none ∧ (∀ parent, task.derivedFrom = some parent → tree.tasks parent ≠ none) ∧
      tree' = tree.create task) ∨
    (∃ before after, e.effectType = .taskUpdate ∧ e.invertData = .taskState before ∧
      tree.tasks e.resource = some before ∧ updatedTask ctx e before = some after ∧ tree' = tree.put after e.resource) ∨
    e.effectType ≠ .taskCreate ∧ e.effectType ≠ .taskUpdate ∧ tree' = tree := by
  unfold StagedEffect.DoesTasks at does
  split_ifs at does with hcreate hupdate
  · obtain ⟨task, hcreated, hnew, hparent, hafter, hdata⟩ := applyTaskCreate_applied_iff.mp does
    exact Or.inl ⟨task, hcreate, hdata, hcreated, hnew, hparent, hafter⟩
  · obtain ⟨before, after, htask, hupdated, hafter, hdata⟩ := applyTaskUpdate_applied_iff.mp does
    exact Or.inr (Or.inl ⟨before, after, hupdate, hdata, htask, hupdated, hafter⟩)
  · exact Or.inr (Or.inr ⟨hcreate, hupdate, does⟩)

/-- An effect does the same to matching trees. -/
theorem StagedEffect.DoesTasks.congr {other : TaskTree} (same : tree.Matches other)
    (does : e.DoesTasks ctx tree tree') :
    ∃ other', e.DoesTasks ctx other other' ∧ tree'.Matches other' := by
  rcases doesTasks_cases does with ⟨task, htype, hdata, hcreated, hnew, hparent, rfl⟩ |
    ⟨before, after, htype, hdata, htask, hupdated, rfl⟩ | ⟨hcreate, hupdate, rfl⟩
  · refine ⟨other.create task, ?_, same.create task⟩
    rw [same.tasks] at hnew hparent
    rw [StagedEffect.DoesTasks, if_pos htype]
    exact applyTaskCreate_applied_iff.mpr ⟨task, hcreated, hnew, hparent, rfl, hdata⟩
  · refine ⟨other.put after e.resource, ?_, same.put after e.resource⟩
    rw [same.tasks] at htask
    rw [StagedEffect.DoesTasks, if_neg (by simp [htype]), if_pos htype]
    exact applyTaskUpdate_applied_iff.mpr ⟨before, after, htask, hupdated, rfl, hdata⟩
  · refine ⟨other, ?_, same⟩
    rw [StagedEffect.DoesTasks, if_neg hcreate, if_neg hupdate]

/-- Inverses do the same to matching trees. -/
theorem TaskTree.Matches.undoTasks {other : TaskTree} (same : tree.Matches other) (e : StagedEffect) :
    (e.undoTasks tree).Matches (e.undoTasks other) := by
  rcases undoTasks_cases e with ⟨id, -, -, hundo⟩ | ⟨before, -, -, -, hundo⟩ | ⟨-, hundo⟩
  · rw [hundo, hundo]
    exact same.discard id
  · rw [hundo, hundo]
    exact same.put before e.resource
  · rwa [hundo, hundo]

/-- An effect keeps the tree tidy. -/
theorem StagedEffect.DoesTasks.tidy (tidy : tree.Tidy) (does : e.DoesTasks ctx tree tree') : tree'.Tidy := by
  rcases doesTasks_cases does with ⟨task, -, -, -, hnew, hparent, rfl⟩ | ⟨before, after, -, -, -, -, rfl⟩ | ⟨-, -, rfl⟩
  · exact tidy.create hnew hparent
  · exact tidy.put after e.resource
  · exact tidy

/-- An inverse keeps the tree tidy. -/
theorem TaskTree.Tidy.undoTasks (tidy : tree.Tidy) (e : StagedEffect) : (e.undoTasks tree).Tidy := by
  rcases undoTasks_cases e with ⟨id, -, -, hundo⟩ | ⟨before, -, -, -, hundo⟩ | ⟨-, hundo⟩
  · rw [hundo]
    exact tidy.discard id
  · rw [hundo]
    exact tidy.put before e.resource
  · rwa [hundo]

/-- An effect that is on no task of an inverse is on another one than that. -/
theorem StagedEffect.ApartInTasks.ne {id own : String} (apart : d.ApartInTasks e) (hid : d.inverseTask = some id)
    (hown : e.ownTask = some own) : own ≠ id := by
  rintro rfl
  exact apart.own own hid hown

/-- An effect on another task does the same where a task is discarded. -/
theorem StagedEffect.DoesTasks.discard {id : String} (apart : d.ApartInTasks e) (hd : d.effectType ≠ .taskUpdate)
    (hid : d.inverseTask = some id) (does : e.DoesTasks ctx tree tree') :
    ∃ after, e.DoesTasks ctx (tree.discard id) after ∧ (tree'.discard id).Matches after := by
  have htasks {other : String} (hother : other ≠ id) : (tree.discard id).tasks other = tree.tasks other := by
    simp [TaskTree.discard, hother]
  rcases doesTasks_cases does with ⟨task, htype, hdata, hcreated, hnew, hparent, rfl⟩ |
    ⟨before, after, htype, hdata, htask, hupdated, rfl⟩ | ⟨hcreate, hupdate, rfl⟩
  · have hself : task.taskId ≠ id := apart.ne hid (by simp [ownTask, htype, hdata])
    have hfrom : task.derivedFrom ≠ some id := by
      intro hfrom
      have hget := (createdTask_eq_ok hcreated).2
      rw [hfrom] at hget
      exact apart.parent id hid hd htype hget
    refine ⟨(tree.discard id).create task, ?_, TaskTree.create_discard hself hfrom⟩
    rw [DoesTasks, if_pos htype]
    refine applyTaskCreate_applied_iff.mpr ⟨task, hcreated, by rwa [htasks hself], fun parent heq => ?_, rfl, hdata⟩
    rw [htasks fun hid => hfrom (hid ▸ heq)]
    exact hparent parent heq
  · have hne : e.resource ≠ id := apart.ne hid (by simp [ownTask, htype])
    refine ⟨(tree.discard id).put after e.resource, ?_, TaskTree.put_discard hne ▸ .refl _⟩
    rw [DoesTasks, if_neg (by simp [htype]), if_pos htype]
    exact applyTaskUpdate_applied_iff.mpr ⟨before, after, by rwa [htasks hne], hupdated, rfl, hdata⟩
  · refine ⟨tree'.discard id, ?_, .refl _⟩
    rw [DoesTasks, if_neg hcreate, if_neg hupdate]

/-- An effect on another task does the same where a task is put back. -/
theorem StagedEffect.DoesTasks.put {id : String} {old : Task} (apart : d.ApartInTasks e) (hid : d.inverseTask = some id)
    (does : e.DoesTasks ctx tree tree') :
    ∃ after, e.DoesTasks ctx (tree.put old id) after ∧ (tree'.put old id).Matches after := by
  have htasks {other : String} (hother : other ≠ id) : (tree.put old id).tasks other = tree.tasks other := by
    simp [TaskTree.put, hother]
  rcases doesTasks_cases does with ⟨task, htype, hdata, hcreated, hnew, hparent, rfl⟩ |
    ⟨before, after, htype, hdata, htask, hupdated, rfl⟩ | ⟨hcreate, hupdate, rfl⟩
  · have hself : task.taskId ≠ id := apart.ne hid (by simp [ownTask, htype, hdata])
    refine ⟨(tree.put old id).create task, ?_, TaskTree.create_put hself ▸ .refl _⟩
    rw [DoesTasks, if_pos htype]
    refine applyTaskCreate_applied_iff.mpr ⟨task, hcreated, by rwa [htasks hself], fun parent heq => ?_, rfl, hdata⟩
    by_cases hid : parent = id
    · simp [TaskTree.put, hid]
    · rw [htasks hid]
      exact hparent parent heq
  · have hne : e.resource ≠ id := apart.ne hid (by simp [ownTask, htype])
    refine ⟨(tree.put old id).put after e.resource, ?_, TaskTree.put_put hne ▸ .refl _⟩
    rw [DoesTasks, if_neg (by simp [htype]), if_pos htype]
    exact applyTaskUpdate_applied_iff.mpr ⟨before, after, by rwa [htasks hne], hupdated, rfl, hdata⟩
  · refine ⟨tree'.put old id, ?_, .refl _⟩
    rw [DoesTasks, if_neg hcreate, if_neg hupdate]

/-- An effect on another task does the same where an effect is undone. -/
theorem StagedEffect.DoesTasks.commutes (apart : d.ApartInTasks e) (does : e.DoesTasks ctx tree tree') :
    ∃ after, e.DoesTasks ctx (d.undoTasks tree) after ∧ (d.undoTasks tree').Matches after := by
  rcases undoTasks_cases d with ⟨id, hd, hid, hundo⟩ | ⟨before, -, -, hid, hundo⟩ | ⟨-, hundo⟩
  · rw [hundo, hundo]
    exact does.discard apart hd hid
  · rw [hundo, hundo]
    exact does.put apart hid
  · rw [hundo, hundo]
    exact ⟨tree', does, .refl _⟩

/-- Inverses on different tasks commute. -/
theorem undoTasks_comm (apart : ∀ id ∈ d.inverseTask, id ∉ e.inverseTask) (tree : TaskTree) :
    (e.undoTasks (d.undoTasks tree)).Matches (d.undoTasks (e.undoTasks tree)) := by
  have hne {id id' : String} (hid : d.inverseTask = some id) (hid' : e.inverseTask = some id') : id ≠ id' := by
    rintro rfl
    exact apart id hid hid'
  rcases undoTasks_cases d with ⟨id, -, hid, hd⟩ | ⟨before, -, -, hid, hd⟩ | ⟨-, hd⟩ <;>
    rcases undoTasks_cases e with ⟨id', -, hid', he⟩ | ⟨before', -, -, hid', he⟩ | ⟨-, he⟩ <;>
    simp only [hd, he]
  case inl.inl => exact TaskTree.discard_discard (hne hid hid').symm
  case inl.inr.inl =>
    rw [← TaskTree.put_discard (hne hid hid').symm]
    exact .refl _
  case inr.inl.inl =>
    rw [TaskTree.put_discard (hne hid hid')]
    exact .refl _
  case inr.inl.inr.inl =>
    rw [TaskTree.put_put (hne hid hid')]
    exact .refl _
  all_goals exact .refl _

/-- What an effect did to the tasks can be undone. -/
theorem StagedEffect.DoesTasks.leads (tidy : tree.Tidy) (does : e.DoesTasks ctx tree tree') :
    e.LeadsTasks tree tree' := by
  rcases doesTasks_cases does with ⟨task, htype, hdata, -, hnew, -, rfl⟩ |
    ⟨before, after, htype, hdata, htask, -, rfl⟩ |
    ⟨hcreate, hupdate, rfl⟩
  · have hundo : e.undoTasks (tree.create task) = (tree.create task).discard task.taskId := by
      simp [StagedEffect.undoTasks, htype, hdata, EffectType.invertKind]
    refine Or.inl ⟨by simp [inverseTask, ownTask, htype, hdata, EffectType.invertKind], ?_⟩
    rw [hundo]
    exact tidy.discard_create hnew
  · have hundo : e.undoTasks (tree.put after e.resource) = (tree.put after e.resource).put before e.resource := by
      simp [StagedEffect.undoTasks, htype, hdata, EffectType.invertKind]
    refine Or.inl ⟨by simp [inverseTask, ownTask, htype, hdata, EffectType.invertKind], ?_⟩
    rw [hundo, TaskTree.put_before htask]
    exact .refl tree
  · exact Or.inr ⟨hcreate, hupdate, .refl _⟩

/-- What an effect did to the tasks can also be undone where an effect on another task is. -/
theorem StagedEffect.LeadsTasks.commutes (apart : d.OtherTask e) (leads : e.LeadsTasks tree tree') :
    e.LeadsTasks (d.undoTasks tree) (d.undoTasks tree') := by
  rcases leads with ⟨hown, hback⟩ | ⟨hcreate, hupdate, hsame⟩
  · have hapart : ∀ id ∈ d.inverseTask, id ∉ e.inverseTask := hown ▸ apart
    exact Or.inl ⟨hown, (undoTasks_comm hapart tree').trans (hback.undoTasks d)⟩
  · exact Or.inr ⟨hcreate, hupdate, hsame.undoTasks d⟩

/-- What an effect did to the tasks is undone. -/
theorem StagedEffect.LeadsTasks.undone {other : TaskTree} (tidy : other.Tidy) (restores : e.RestoresTasks other)
    (leads : e.LeadsTasks tree tree') (same : tree.Matches other) : (e.undoTasks tree').Matches other := by
  rcases leads with ⟨-, hback⟩ | ⟨hcreate, hupdate, hsame⟩
  · exact hback.trans same
  · refine ((hsame.trans same).undoTasks e).trans ?_
    rcases undoTasks_cases e with ⟨id, -, hid, hundo⟩ | ⟨before, htype, -, -, -⟩ | ⟨-, hundo⟩
    · rw [hundo]
      exact tidy.discard_absent (restores hcreate hupdate id hid)
    · exact absurd htype hupdate
    · rw [hundo]
      exact .refl _

/-- The effects on the tasks. -/
def taskEffects (ctx : Context) : Undoable TaskTree StagedEffect where
  Does tree e tree' := e.DoesTasks ctx tree tree'
  Leads tree e tree' := e.LeadsTasks tree tree'
  undo tree e := e.undoTasks tree
  Sim := TaskTree.Matches
  Inv := TaskTree.Tidy
  Stands _ _ := True
  Independent := StagedEffect.ApartInTasks
  Together := StagedEffect.OtherTask
  Exact tree e := e.RestoresTasks tree
  refl := .refl
  trans := .trans
  does_inv := StagedEffect.DoesTasks.tidy
  does_sim := StagedEffect.DoesTasks.congr
  undo_sim {_ _ e} same _ := same.undoTasks e
  does_undo apart _ does := does.commutes apart
  stands_self _ := trivial
  stands_does _ _ _ := trivial
  stands_undo _ _ := trivial
  together apart := apart.own
  leads_of_does := StagedEffect.DoesTasks.leads
  leads_undo apart _ leads := StagedEffect.LeadsTasks.commutes apart leads
  undo_exact := StagedEffect.LeadsTasks.undone

end Effects

end MyTeam.Legacy
