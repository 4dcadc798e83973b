import MyTeam.Async.Course
import MyTeam.Legacy.Undo.Tasks
import MyTeam.Order.Forest

/-!
# The forest of tasks

`create` and `add_child` write the parent of a task and the children of its parent, and the kernel's
undo of a creation takes both out again. The walks through the tasks keep no record of what they
have visited: they end where the two maps are those of a forest.
-/

namespace MyTeam.Legacy

open MyTeam.Py MyTeam.Async MyTeam.Order Relation

namespace TaskTree

variable (tree : TaskTree)

/-- `_parent_map.get(task_id)`. -/
def parentOf (id : String) : Option String :=
  (tree.parentMap id).join

/-- `create`; `none` is a `TaskTreeError`. -/
def createChecked (task : Task) : Option TaskTree :=
  if (tree.tasks task.taskId).isSome then none
  else
    match task.derivedFrom with
    | some parent => if (tree.tasks parent).isNone then none else some (tree.create task)
    | none => some (tree.create task)

/-- `add_child`; `none` is a `TaskNotFoundError`. -/
def addChild (derivedFrom child : String) : Option TaskTree :=
  if (tree.tasks derivedFrom).isNone ∨ (tree.tasks child).isNone then none
  else some { tree with
    childrenMap := Function.update tree.childrenMap derivedFrom
      (some (if child ∈ tree.children derivedFrom then tree.children derivedFrom
        else tree.children derivedFrom ++ [child]))
    parentMap := Function.update tree.parentMap child (some (some derivedFrom)) }

/-- The loop of `ancestors`. The result is `none` as long as the loop has not come to its end. -/
def ancestorsFrom : ℕ → Option String → List Task → Option (Except Exc (List Task))
  | _, none, result => some (.ok result)
  | 0, some _, _ => none
  | n + 1, some current, result =>
    match tree.tasks current with
    | none => some (.error (.keyError current))
    | some task => ancestorsFrom n (tree.parentOf current) (result ++ [task])

/-- `ancestors`. -/
def ancestors (n : ℕ) (id : String) : Option (Except Exc (List Task)) :=
  match tree.tasks id with
  | none => some (.error (.other s!"Task not found: '{id}'"))
  | some _ => tree.ancestorsFrom n (tree.parentOf id) []

/-- The loop of `is_ancestor`. -/
def isAncestorFrom (ancestor : String) : ℕ → Option String → Option Bool
  | _, none => some false
  | 0, some _ => none
  | n + 1, some current => if current = ancestor then some true else isAncestorFrom ancestor n (tree.parentOf current)

/-- `is_ancestor`. -/
def isAncestor (n : ℕ) (ancestor descendant : String) : Option Bool :=
  if (tree.tasks ancestor).isNone ∨ (tree.tasks descendant).isNone then some false
  else tree.isAncestorFrom ancestor n (some descendant)

/-- The loop of `subtree`. The top of the stack comes first. -/
def subtreeFrom : ℕ → List String → List Task → Option (Except Exc (List Task))
  | _, [], result => some (.ok result)
  | 0, _ :: _, _ => none
  | n + 1, node :: stack, result =>
    match tree.tasks node with
    | none => some (.error (.keyError node))
    | some task => subtreeFrom n ((tree.children node).reverse ++ stack) (result ++ [task])

/-- `subtree`. -/
def subtree (n : ℕ) (id : String) : Option (Except Exc (List Task)) :=
  match tree.tasks id with
  | none => some (.error (.other s!"Task not found: '{id}'"))
  | some _ => tree.subtreeFrom n [id] []

/-- The loop of `cancel_task`, where a transition that is not allowed raises: the tree that it leaves, with the
cancelled tasks. -/
def cancelFrom (tick : ℕ) : ℕ → TaskTree → List String → List Task → Option (TaskTree × Except Exc (List Task))
  | _, tree, [], cancelled => some (tree, .ok cancelled)
  | 0, _, _ :: _, _ => none
  | n + 1, tree, id :: stack, cancelled =>
    match tree.tasks id with
    | none => cancelFrom tick n tree stack cancelled
    | some task =>
      if task.status.terminal then cancelFrom tick n tree ((tree.children id).reverse ++ stack) cancelled
      else if .cancelled ∉ task.status.transitions then
        some (tree, .error (.valueError s!"Invalid task transition: {task.status.value} → cancelled"))
      else
        let after := task.follow tick [.cancelled]
        cancelFrom tick n (tree.put after id) ((tree.children id).reverse ++ stack) (cancelled ++ [after])

/-- `cancel_task`. -/
def cancelTask (n : ℕ) (id : String) (tick : ℕ) : Option (TaskTree × Except Exc (List Task)) :=
  cancelFrom tick n tree [id] []

end TaskTree

/-- A task tree with the tasks whose creation has not been undone, the last one first. -/
structure Grove where
  tree : TaskTree := {}
  created : List String := []

/-- A call on the task tree. Creations are undone from the last one on. -/
inductive GroveCall
  | create (task : Task)
  | addChild (derivedFrom child : String)
  | undo

namespace Grove

variable (s : Grove)

/-- The tree after a call. A call that raises changes nothing. -/
def step : GroveCall → Grove
  | .create task =>
    match s.tree.createChecked task with
    | some tree => ⟨tree, task.taskId :: s.created⟩
    | none => s
  | .addChild derivedFrom child =>
    match s.tree.addChild derivedFrom child with
    | some tree => { s with tree := tree }
    | none => s
  | .undo =>
    match s.created with
    | [] => s
    | id :: created => ⟨s.tree.discard id, created⟩

/-- The maps form a forest: parents and children agree, no task is its own ancestor, all walks end, those of
`ancestors` and `subtree` without a `KeyError`, and a subtree has each task below its root once. -/
structure Sound : Prop where
  agree : ∀ p c, (s.tree.children p).count c = if s.tree.parentOf c = some p then 1 else 0
  acyclic : ∀ id, ¬TransGen (IsChild s.tree.parentOf) id id
  ancestors : ∀ id, s.tree.tasks id ≠ none → ∃ n tasks, s.tree.ancestors n id = some (.ok tasks)
  isAncestor : ∀ ancestor descendant, ∃ n answer, s.tree.isAncestor n ancestor descendant = some answer
  subtree : ∀ id, s.tree.tasks id ≠ none → ∃ n tasks, s.tree.subtree n id = some (.ok tasks) ∧
    (tasks.map Task.taskId).Nodup ∧ ∀ d, d ∈ tasks.map Task.taskId ↔ ReflTransGen (IsChild s.tree.parentOf) d id
  cancelTask : ∀ id tick, ∃ n result, s.tree.cancelTask n id tick = some result

/-- A call that leaves a forest: a task that becomes a child is that already, or is a root and not above its parent;
and a creation is undone while the task has no children. -/
def Fitting : GroveCall → Prop
  | .create _ => True
  | .addChild derivedFrom child => s.tree.tasks derivedFrom ≠ none → s.tree.tasks child ≠ none →
      s.tree.parentOf child = some derivedFrom ∨
        s.tree.parentOf child = none ∧ ¬ReflTransGen (IsChild s.tree.parentOf) derivedFrom child
  | .undo => ∀ id ∈ s.created.head?, s.tree.children id = []

end Grove

namespace TaskTree

variable {tree tree' : TaskTree} {task : Task} {id c p q : String} {stack l : List String}
  {result cancelled : List Task}

/-- What a creation makes of the tasks. -/
theorem tasks_create : (tree.create task).tasks id = if id = task.taskId then some task else tree.tasks id :=
  Function.update_apply _ _ _ _

/-- What an undone creation makes of the tasks. -/
theorem tasks_discard : (tree.discard id).tasks c = if c = id then none else tree.tasks c :=
  Function.update_apply _ _ _ _

/-- What a creation makes of the parents. -/
theorem parentOf_create : (tree.create task).parentOf = Function.update tree.parentOf task.taskId task.derivedFrom := by
  funext id
  unfold parentOf create
  by_cases hid : id = task.taskId
  · subst hid
    simp
  · simp [Function.update_of_ne hid]

/-- What an undone creation makes of the parents. -/
theorem parentOf_discard : (tree.discard id).parentOf = Function.update tree.parentOf id none := by
  funext c
  unfold parentOf discard
  by_cases hc : c = id
  · subst hc
    simp
  · simp [Function.update_of_ne hc]

/-- A creation goes through for a new task whose parent is there. -/
theorem createChecked_eq_some : tree.createChecked task = some tree' ↔
    tree.tasks task.taskId = none ∧ (∀ p ∈ task.derivedFrom, tree.tasks p ≠ none) ∧ tree' = tree.create task := by
  unfold createChecked
  cases hexists : tree.tasks task.taskId with
  | some old => simp
  | none =>
    cases hfrom : task.derivedFrom with
    | none => simp [eq_comm]
    | some p => cases hparent : tree.tasks p <;> simp [hparent, eq_comm]

/-- `add_child` goes through for tasks: what it makes of the parents and the children. -/
theorem addChild_eq_some (h : tree.addChild p c = some tree') :
    (tree.tasks p ≠ none ∧ tree.tasks c ≠ none) ∧ tree'.tasks = tree.tasks ∧
      tree'.parentOf = Function.update tree.parentOf c (some p) ∧
      ∀ q, tree'.children q = if q = p ∧ c ∉ tree.children p then tree.children q ++ [c] else tree.children q := by
  unfold addChild at h
  split at h
  · cases h
  next hpresent =>
    obtain ⟨hp, hc⟩ := not_or.mp hpresent
    obtain rfl := Option.some_injective _ h
    refine ⟨⟨fun heq => hp (by simp [heq]), fun heq => hc (by simp [heq])⟩, rfl, ?_, fun q => ?_⟩
    · funext d
      unfold parentOf
      by_cases hd : d = c
      · subst hd
        simp
      · simp [Function.update_of_ne hd]
    · unfold children
      by_cases hq : q = p
      · subst hq
        by_cases hmem : c ∈ (tree.childrenMap q).getD [] <;> simp [hmem]
      · simp [hq]

/-- `add_child` for tasks. -/
theorem exists_addChild (hp : tree.tasks p ≠ none) (hc : tree.tasks c ≠ none) :
    ∃ tree', tree.addChild p c = some tree' := by
  unfold addChild
  rw [if_neg]
  · exact ⟨_, rfl⟩
  · simp [hp, hc]

section Walks

/-- The loop of `ancestors` follows a climb. -/
theorem ancestorsFrom_climbs {current : Option String} (h : Climbs tree.parentOf current l)
    (known : ∀ x ∈ l, tree.tasks x ≠ none) :
    ∃ tasks, tree.ancestorsFrom l.length current result = some (.ok (result ++ tasks)) := by
  induction h generalizing result with
  | root => exact ⟨[], by rw [List.append_nil]; rfl⟩
  | @up a l _ ih =>
    obtain ⟨task, htask⟩ := Option.ne_none_iff_exists'.mp (known a List.mem_cons_self)
    obtain ⟨tasks, hrest⟩ := @ih (result ++ [task]) fun x hx => known x (List.mem_cons_of_mem _ hx)
    refine ⟨task :: tasks, ?_⟩
    rw [List.length_cons, ancestorsFrom, htask]
    dsimp only
    rw [hrest, List.append_assoc, List.singleton_append]

/-- The loop of `is_ancestor` follows a climb. -/
theorem isAncestorFrom_climbs {current : Option String} {ancestor : String} (h : Climbs tree.parentOf current l) :
    ∃ answer, tree.isAncestorFrom ancestor l.length current = some answer := by
  induction h with
  | root => exact ⟨false, rfl⟩
  | up _ ih =>
    rw [List.length_cons, isAncestorFrom]
    split
    · exact ⟨true, rfl⟩
    · exact ih

/-- The loop of `subtree` follows the visits. -/
theorem subtreeFrom_visits (h : Visits tree.children stack l) (known : ∀ x ∈ l, tree.tasks x ≠ none)
    (named : ∀ id task, tree.tasks id = some task → task.taskId = id) :
    ∃ tasks, tree.subtreeFrom l.length stack result = some (.ok (result ++ tasks)) ∧ tasks.map Task.taskId = l := by
  induction h generalizing result with
  | done => exact ⟨[], by rw [List.append_nil]; rfl, rfl⟩
  | @pop a stack l _ ih =>
    obtain ⟨task, htask⟩ := Option.ne_none_iff_exists'.mp (known a List.mem_cons_self)
    obtain ⟨tasks, hrest, hids⟩ := @ih (result ++ [task]) fun x hx => known x (List.mem_cons_of_mem _ hx)
    refine ⟨task :: tasks, ?_, ?_⟩
    · rw [List.length_cons, subtreeFrom, htask]
      dsimp only
      rw [hrest, List.append_assoc, List.singleton_append]
    · rw [List.map_cons, hids, named a task htask]

/-- The loop of `cancel_task` follows the visits, or raises before. -/
theorem cancelFrom_visits {tick : ℕ} (h : Visits tree.children stack l) (same : tree'.childrenMap = tree.childrenMap)
    (childless : ∀ x, tree'.tasks x = none → tree.children x = []) :
    ∃ result, cancelFrom tick l.length tree' stack cancelled = some result := by
  have hchildren {tree' : TaskTree} (same : tree'.childrenMap = tree.childrenMap) (x : String) :
      tree'.children x = tree.children x := by
    unfold children
    rw [same]
  induction h generalizing tree' cancelled with
  | done => exact ⟨_, rfl⟩
  | @pop a stack l _ ih =>
    rw [List.length_cons, cancelFrom]
    cases htask : tree'.tasks a with
    | none =>
      have hstack : (tree.children a).reverse ++ stack = stack := by rw [childless a htask]; rfl
      rw [hstack] at ih
      exact ih same childless
    | some task =>
      dsimp only
      rw [hchildren same]
      split
      · exact ih same childless
      · split
        · exact ⟨_, rfl⟩
        · refine ih same fun x hx => childless x ?_
          by_cases hxa : x = a
          · subst hxa
            simp [put] at hx
          · exact (Function.update_of_ne hxa _ _).symm.trans hx

end Walks

end TaskTree

namespace Grove

open TaskTree

variable {s : Grove} {call : GroveCall}

/-- What holds in every state of a run of fitting calls. -/
structure Kept (s : Grove) : Prop where
  forest : Forest s.tree.parentOf s.tree.children
  known : ∀ c p, IsChild s.tree.parentOf c p → s.tree.tasks c ≠ none ∧ s.tree.tasks p ≠ none
  named : ∀ id task, s.tree.tasks id = some task → task.taskId = id

/-- What is above a task is a task. -/
theorem Kept.known_above (kept : s.Kept) {x y : String} (h : ReflTransGen (IsChild s.tree.parentOf) x y)
    (hx : s.tree.tasks x ≠ none) : s.tree.tasks y ≠ none := by
  obtain rfl | ⟨z, -, hzy⟩ := h.cases_tail
  · exact hx
  · exact (kept.known z y hzy).2

/-- What is below a task is a task. -/
theorem Kept.known_below (kept : s.Kept) {x y : String} (h : ReflTransGen (IsChild s.tree.parentOf) x y)
    (hy : s.tree.tasks y ≠ none) : s.tree.tasks x ≠ none := by
  obtain rfl | ⟨z, hxz, -⟩ := h.cases_head
  · exact hy
  · exact (kept.known x z hxz).1

/-- The maps form a forest in every such state. -/
theorem Kept.sound (kept : s.Kept) : s.Sound := by
  constructor
  case agree => exact kept.forest.agree
  case acyclic => exact kept.forest.acyclic
  case ancestors =>
    intro id hid
    obtain ⟨l, hclimbs, hmem⟩ := kept.forest.acyclic.exists_climbs kept.forest.finite id
    obtain ⟨task, htask⟩ := Option.ne_none_iff_exists'.mp hid
    cases hclimbs with
    | @up _ l hclimbs =>
      obtain ⟨tasks, htasks⟩ := @ancestorsFrom_climbs s.tree l [] _ hclimbs fun x hx =>
        kept.known_above ((hmem x).mp (List.mem_cons_of_mem _ hx)) hid
      refine ⟨l.length, tasks, ?_⟩
      rw [TaskTree.ancestors, htask]
      exact htasks
  case isAncestor =>
    intro ancestor descendant
    obtain ⟨l, hclimbs, -⟩ := kept.forest.acyclic.exists_climbs kept.forest.finite descendant
    obtain ⟨answer, hanswer⟩ := @isAncestorFrom_climbs s.tree l _ ancestor hclimbs
    refine ⟨l.length, ?_⟩
    unfold TaskTree.isAncestor
    split
    · exact ⟨false, rfl⟩
    · exact ⟨answer, hanswer⟩
  case subtree =>
    intro id hid
    obtain ⟨l, hvisits, hnodup, hmem⟩ := kept.forest.exists_visits id
    obtain ⟨task, htask⟩ := Option.ne_none_iff_exists'.mp hid
    obtain ⟨tasks, htasks, hids⟩ := @subtreeFrom_visits s.tree _ l [] hvisits
      (fun x hx => kept.known_below ((hmem x).mp hx) hid) kept.named
    refine ⟨l.length, tasks, ?_, hids ▸ hnodup, fun d => hids ▸ hmem d⟩
    rw [TaskTree.subtree, htask]
    exact htasks
  case cancelTask =>
    intro id tick
    obtain ⟨l, hvisits, -, -⟩ := kept.forest.exists_visits id
    refine ⟨l.length, cancelFrom_visits hvisits rfl fun x hx => List.eq_nil_iff_forall_not_mem.mpr fun c hc => ?_⟩
    exact (kept.known c x (kept.forest.mem_children.mp hc)).2 hx

/-- A creation keeps the forest. -/
theorem Kept.create (kept : s.Kept) {task : Task} {tree : TaskTree} {created : List String}
    (hcreate : s.tree.createChecked task = some tree) : Kept ⟨tree, created⟩ := by
  obtain ⟨hnew, hfrom, rfl⟩ := createChecked_eq_some.mp hcreate
  have hroot : s.tree.parentOf task.taskId = none := by
    by_contra hparent
    obtain ⟨p, hp⟩ := Option.ne_none_iff_exists'.mp hparent
    exact (kept.known _ p hp).1 hnew
  have hparent := @parentOf_create s.tree task
  constructor
  case forest =>
    cases hderived : task.derivedFrom with
    | none =>
      have hsame : (s.tree.create task).parentOf = s.tree.parentOf := by
        rw [hparent, hderived, ← hroot, Function.update_eq_self]
      have hchildren : (s.tree.create task).children = s.tree.children := by
        funext q
        simp [children_create, hderived]
      dsimp only
      rw [hsame, hchildren]
      exact kept.forest
    | some p =>
      refine kept.forest.link hroot (fun hbelow => ?_) (hderived ▸ hparent) fun q => ?_
      · exact kept.known_above hbelow (hfrom p hderived) hnew
      · simp only [children_create, hderived, Option.some_inj, eq_comm]
  case known =>
    intro c p hchild
    have htasks (id : String) (hid : s.tree.tasks id ≠ none) : (s.tree.create task).tasks id ≠ none := by
      rw [tasks_create]
      split
      · exact Option.some_ne_none task
      · exact hid
    have hself : (s.tree.create task).tasks task.taskId ≠ none := by simp [tasks_create]
    dsimp only at hchild ⊢
    unfold IsChild at hchild
    rw [hparent] at hchild
    by_cases hc : c = task.taskId
    · subst hc
      rw [Function.update_self] at hchild
      exact ⟨hself, htasks p (hfrom p hchild)⟩
    · rw [Function.update_of_ne hc] at hchild
      obtain ⟨hcTask, hpTask⟩ := kept.known c p hchild
      exact ⟨htasks c hcTask, htasks p hpTask⟩
  case named =>
    intro id other hid
    dsimp only at hid
    rw [tasks_create] at hid
    split at hid
    next hsame =>
      obtain rfl := Option.some_injective _ hid
      exact hsame.symm
    next => exact kept.named id other hid

/-- A call of `add_child` that fits keeps the forest. -/
theorem Kept.addChild (kept : s.Kept) {p c : String} {tree : TaskTree} (fitting : s.Fitting (.addChild p c))
    (hadd : s.tree.addChild p c = some tree) : Kept { s with tree := tree } := by
  obtain ⟨⟨hp, hc⟩, htasks, hparent, hchildren⟩ := addChild_eq_some hadd
  constructor
  case forest =>
    obtain hchild | ⟨hroot, hbelow⟩ := fitting hp hc
    · have hmem : c ∈ s.tree.children p := kept.forest.mem_children.mpr hchild
      have hsameParent : tree.parentOf = s.tree.parentOf := by rw [hparent, ← hchild, Function.update_eq_self]
      have hsameChildren : tree.children = s.tree.children := by
        funext q
        rw [hchildren, if_neg fun h => h.2 hmem]
      dsimp only
      rw [hsameParent, hsameChildren]
      exact kept.forest
    · have hnew : c ∉ s.tree.children p := by
        intro hmem
        have hchild : s.tree.parentOf c = some p := kept.forest.mem_children.mp hmem
        rw [hroot] at hchild
        cases hchild
      exact kept.forest.link hroot hbelow hparent fun q => by simp only [hchildren, hnew, not_false_eq_true, and_true]
  case known =>
    intro d q hchild
    dsimp only at hchild ⊢
    unfold IsChild at hchild
    rw [hparent] at hchild
    rw [htasks]
    by_cases hd : d = c
    · subst hd
      rw [Function.update_self] at hchild
      exact ⟨hc, Option.some_injective _ hchild ▸ hp⟩
    · rw [Function.update_of_ne hd] at hchild
      exact kept.known d q hchild
  case named => exact fun id task hid => kept.named id task (htasks ▸ hid)

/-- An undone creation that fits keeps the forest. -/
theorem Kept.undo (kept : s.Kept) {id : String} {created : List String} (hleaf : s.tree.children id = []) :
    Kept ⟨s.tree.discard id, created⟩ := by
  have hparent := @parentOf_discard s.tree id
  have hchild_ne {d q : String} (hchild : IsChild (s.tree.discard id).parentOf d q) :
      d ≠ id ∧ IsChild s.tree.parentOf d q := by
    unfold IsChild at hchild ⊢
    rw [hparent] at hchild
    by_cases hd : d = id
    · rw [hd, Function.update_self] at hchild
      cases hchild
    · rw [Function.update_of_ne hd] at hchild
      exact ⟨hd, hchild⟩
  constructor
  case forest =>
    refine kept.forest.unlink hparent fun q => ?_
    dsimp only
    rw [children_discard]
    by_cases hq : q = id
    · subst hq
      rw [if_pos rfl, hleaf]
      split <;> rfl
    · rw [if_neg hq]
      have hiff : s.tree.parentMap id = some (some q) ↔ s.tree.parentOf id = some q := by
        unfold parentOf
        exact Option.join_eq_some_iff.symm
      simp only [hiff]
  case known =>
    intro d q hchild
    obtain ⟨hd, hold⟩ := hchild_ne hchild
    obtain ⟨hdTask, hqTask⟩ := kept.known d q hold
    have hq : q ≠ id := by
      rintro rfl
      exact absurd (kept.forest.mem_children.mpr hold) (hleaf ▸ List.not_mem_nil)
    dsimp only
    rw [tasks_discard, tasks_discard, if_neg hd, if_neg hq]
    exact ⟨hdTask, hqTask⟩
  case named =>
    intro d task hd
    dsimp only at hd
    rw [tasks_discard] at hd
    split at hd
    · cases hd
    · exact kept.named d task hd

/-- A fitting call keeps the forest. -/
theorem Kept.step (kept : s.Kept) (fitting : s.Fitting call) : (s.step call).Kept := by
  cases call with
  | create task =>
    rw [Grove.step]
    split
    next htree => exact kept.create htree
    next => exact kept
  | addChild p c =>
    rw [Grove.step]
    split
    next htree => exact kept.addChild fitting htree
    next => exact kept
  | undo =>
    rw [Grove.step]
    split
    next => exact kept
    next id created hcreated => exact kept.undo (fitting id (by rw [hcreated]; rfl))

/-- A call that does not fit leaves no forest. -/
theorem Kept.fitting (kept : s.Kept) (sound : (s.step call).Sound) : s.Fitting call := by
  cases call with
  | create task => trivial
  | addChild p c =>
    intro hp hc
    obtain ⟨tree, htree⟩ := exists_addChild hp hc
    obtain ⟨-, -, hparent, hchildren⟩ := addChild_eq_some htree
    rw [Grove.step, htree] at sound
    cases hold : s.tree.parentOf c with
    | none =>
      have hnew : IsChild tree.parentOf c p := by rw [IsChild, hparent, Function.update_self]
      have hold (x y : String) (hxy : IsChild s.tree.parentOf x y) : IsChild tree.parentOf x y := by
        have hne : x ≠ c := by
          rintro rfl
          rw [IsChild, hold] at hxy
          cases hxy
        rw [IsChild, hparent, Function.update_of_ne hne]
        exact hxy
      exact Or.inr ⟨rfl, fun hbelow => sound.acyclic c (TransGen.head' hnew (ReflTransGen.mono hold p c hbelow))⟩
    | some q =>
      refine Or.inl ?_
      by_contra hother
      have hqp : q ≠ p := fun hsame => hother (congrArg some hsame)
      have hagree := sound.agree q c
      dsimp only at hagree
      rw [hchildren, if_neg fun h => hqp h.1, hparent, Function.update_self, kept.forest.agree, if_pos hold,
        if_neg fun h => hqp (Option.some_injective _ h).symm] at hagree
      cases hagree
  | undo =>
    intro id hid
    obtain ⟨created, hcreated⟩ : ∃ created, s.created = id :: created := List.head?_eq_some_iff.mp hid
    rw [Grove.step, hcreated] at sound
    refine List.eq_nil_iff_forall_not_mem.mpr fun c hc => ?_
    have hchild : s.tree.parentOf c = some id := kept.forest.mem_children.mp hc
    have hne : c ≠ id := by
      rintro rfl
      exact kept.forest.acyclic c (.single hchild)
    have hagree := sound.agree id c
    dsimp only at hagree
    rw [children_discard, if_pos rfl, parentOf_discard, Function.update_of_ne hne, if_pos hchild] at hagree
    cases hagree

/-- What holds at the start. -/
theorem kept_new : Kept {} where
  forest := {
    finite := by simp [parentOf]
    agree := fun _ _ => rfl
    acyclic := by
      intro a hcycle
      obtain ⟨b, hchild, -⟩ := TransGen.head'_iff.mp hcycle
      cases hchild }
  known := by
    intro c p hchild
    cases hchild
  named := by
    intro id task hid
    cases hid

/-- The task maps form a forest throughout a run exactly if every call of the run fits. -/
theorem sound_iff_fitting (calls : List GroveCall) :
    Throughout step Sound (fun _ _ => True) {} calls ↔ Each step Fitting {} calls :=
  throughout_iff_each kept_new Kept.sound (fun kept fitting => ⟨kept.step fitting, trivial⟩)
    fun kept _ sound => kept.fitting sound

/-- A task. -/
def chore (id : String) : Task where
  taskId := id
  title := id
  description := ""
  assignerAgentId := "root"
  assigneeAgentId := "root"
  derivedFrom := none
  status := .assigned
  priority := .normal
  deadline := .none
  createdAtTick := 0
  updatedAtTick := 0

/-- A task can become its own child. -/
theorem own_child : ¬Throughout step Sound (fun _ _ => True) {} [.create (chore "a"), .addChild "a" "a"] := by
  intro h
  refine h.2.2.2.2.acyclic "a" (.single ?_)
  rfl

end Grove

end MyTeam.Legacy
