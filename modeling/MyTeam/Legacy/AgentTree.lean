import MyTeam.Order.Search
import MyTeam.Py.Value

/-!
# The tree of agents

An organization is configured twice: every agent names its parent and lists its children. Construction checks that a
child is listed by the parent that it names, and that a listed child is configured, but not that it names the agent
that lists it, nor that it is listed once. So what is accepted is a tree by the parents, and the lists may say more.
-/

namespace MyTeam.Legacy

open MyTeam.Py MyTeam.Order Relation

/-- An `AgentConfig`, by what the tree reads of it. -/
structure AgentTree.AgentConfig where
  agentId : String
  parentId : Option String
  children : List String
deriving DecidableEq

/-- What construction and queries raise. -/
inductive AgentTreeError where
  | duplicateAgentId (agentId : String)
  | cycleDetected (cyclePath : List String)
  | multipleRoots (roots : List String)
  | noRoot
  | parentChildMismatch (agentId declaredParent actualParent : String)
  | childNotDeclared (parentId missingChild : String)
  | agentNotFound (agentId : String)
  | keyError (key : String)
  | recursion
deriving DecidableEq

/-- The text of an error. -/
def AgentTreeError.message : AgentTreeError → String
  | duplicateAgentId id => s!"Duplicate agent_id: '{id}'"
  | cycleDetected path => s!"Cycle detected: " ++ " -> ".intercalate path
  | multipleRoots roots => s!"Multiple root agents found: {(Value.list (roots.map .str)).repr}"
  | noRoot => "No root agent found (agent with parent_id=None)"
  | parentChildMismatch id declared actual =>
    s!"Agent '{id}' declares parent '{declared}' but is listed as child of '{actual}'"
  | childNotDeclared parent missing =>
    s!"Agent '{parent}' lists child '{missing}' but no such agent exists in configuration"
  | agentNotFound id => s!"Agent not found: '{id}'"
  | keyError key => Value.reprStr key
  | recursion => "maximum recursion depth exceeded"

/-- An `AgentTree`: the agents by id in the order of the configuration, from which both maps are copied, and the
root. -/
structure AgentTree where
  agents : List AgentTree.AgentConfig
  rootId : Option String := none
deriving DecidableEq

namespace AgentTree

section Construction

variable (tree : AgentTree)

/-- The ids of the agents. -/
def allIds : List String := tree.agents.map AgentConfig.agentId

/-- `_agents.get(agent_id)`. -/
def find (id : String) : Option AgentConfig := tree.agents.find? (·.agentId = id)

/-- `_parent_map.get(agent_id)`. -/
def parentOf (id : String) : Option String := (tree.find id).bind AgentConfig.parentId

/-- `_children_map.get(agent_id, [])`. -/
def childrenOf (id : String) : List String := ((tree.find id).map AgentConfig.children).getD []

/-- The first id that was seen before. -/
def firstDuplicate : List String → List String → Option String
  | _, [] => none
  | seen, id :: rest => if id ∈ seen then some id else firstDuplicate (id :: seen) rest

/-- `_check_duplicate_ids`, and the check before the agents are entered. -/
def checkDuplicateIds : Except AgentTreeError Unit :=
  match firstDuplicate [] tree.allIds with
  | some id => .error (.duplicateAgentId id)
  | none => .ok ()

/-- `_check_root_count`: the root. -/
def checkRootCount : Except AgentTreeError String :=
  match (tree.agents.filter (·.parentId = none)).map AgentConfig.agentId with
  | [] => .error .noRoot
  | [root] => .ok root
  | roots => .error (.multipleRoots roots)

/-- What is wrong with the parent that an agent names. -/
def parentError (agent : AgentConfig) : Option AgentTreeError :=
  match agent.parentId with
  | none => none
  | some parentId =>
    match tree.find parentId with
    | none => some (.agentNotFound parentId)
    | some parent =>
      if agent.agentId ∉ parent.children then
        some (.parentChildMismatch agent.agentId parentId "(not listed in any parent's children)")
      else none

/-- What is wrong with the children that an agent lists. -/
def childError (agent : AgentConfig) : Option AgentTreeError :=
  (agent.children.find? fun child => (tree.find child).isNone).map fun child => .childNotDeclared agent.agentId child

/-- `_check_parent_child_consistency`. -/
def checkParentChildConsistency : Except AgentTreeError Unit :=
  match (tree.agents.findSome? tree.parentError).or (tree.agents.findSome? tree.childError) with
  | some error => .error error
  | none => .ok ()

/-- The parent of an agent, where it is configured. -/
def parentEdges (id : String) : List String := (tree.parentOf id).toList.filter fun parent => (tree.find parent).isSome

/-- The children of an agent that are configured. -/
def childEdges (id : String) : List String := (tree.childrenOf id).filter fun child => (tree.find child).isSome

/-- The end of a search for cycles. -/
def searched : Except (Halt String) (Search String) → Except AgentTreeError Unit
  | .ok _ => .ok ()
  | .error (.cycle path) => .error (.cycleDetected path)
  | .error .recursion => .error .recursion

/-- `_check_no_cycles`, by the parents and by the lists. The searches are recursive, and their depth is limited. -/
def checkNoCycles (limit : ℕ) : Except AgentTreeError Unit := do
  searched (Search.run tree.parentEdges limit tree.allIds)
  searched (Search.run tree.childEdges limit tree.allIds)

/-- `_validate`: the tree with its root. -/
def validate (limit : ℕ) : Except AgentTreeError AgentTree := do
  tree.checkDuplicateIds
  let root ← tree.checkRootCount
  tree.checkParentChildConsistency
  tree.checkNoCycles limit
  return { tree with rootId := some root }

end Construction

/-- `AgentTree(agents)`. -/
def init (limit : ℕ) (agents : List AgentConfig) : Except AgentTreeError AgentTree := do
  checkDuplicateIds ⟨agents, none⟩
  validate ⟨agents, none⟩ limit

section Queries

variable (tree : AgentTree)

/-- `get`. -/
def get (id : String) : Except AgentTreeError AgentConfig :=
  match tree.find id with
  | none => .error (.agentNotFound id)
  | some agent => .ok agent

/-- `child_ids`. -/
def childIds (id : String) : Except AgentTreeError (List String) := do
  let _ ← tree.get id
  return tree.childrenOf id

/-- `parent`. -/
def parent (id : String) : Except AgentTreeError (Option AgentConfig) := do
  let _ ← tree.get id
  match tree.parentOf id with
  | none => return none
  | some parentId =>
    match tree.find parentId with
    | none => .error (.keyError parentId)
    | some agent => return some agent

/-- The loop of `is_ancestor`. The result is `none` as long as the loop has not come to its end. -/
def isAncestorFrom (ancestor : String) : ℕ → Option String → Option Bool
  | _, none => some false
  | 0, some _ => none
  | n + 1, some current => if current = ancestor then some true else isAncestorFrom ancestor n (tree.parentOf current)

/-- `is_ancestor`. -/
def isAncestor (n : ℕ) (ancestor descendant : String) : Option (Except AgentTreeError Bool) :=
  match tree.get ancestor, tree.get descendant with
  | .error e, _ => some (.error e)
  | _, .error e => some (.error e)
  | .ok _, .ok _ => (tree.isAncestorFrom ancestor n (some descendant)).map .ok

/-- `can_delegate_to`. -/
def canDelegateTo (delegator target : String) : Bool :=
  (tree.find delegator).isSome && (tree.find target).isSome && target ∈ tree.childrenOf delegator

/-- The loop of `subtree_ids`. The top of the stack comes first. -/
def subtreeFrom : ℕ → List String → List String → Option (List String)
  | _, [], result => some result
  | 0, _ :: _, _ => none
  | n + 1, node :: stack, result => subtreeFrom n ((tree.childrenOf node).reverse ++ stack) (result ++ [node])

/-- `subtree_ids`. -/
def subtreeIds (n : ℕ) (id : String) : Option (Except AgentTreeError (List String)) :=
  match tree.get id with
  | .error e => some (.error e)
  | .ok _ => (tree.subtreeFrom n [id] []).map .ok

end Queries

/-- The parent of an agent is another. -/
def ParentIs (tree : AgentTree) (x p : String) : Prop := ∃ agent, tree.parent x = .ok (some agent) ∧ agent.agentId = p

/-- The queries are those of a tree. -/
structure IsTree (tree : AgentTree) : Prop where
  once : ∀ p ∈ tree.allIds, ∃ ids, tree.childIds p = .ok ids ∧ ∀ x ∈ tree.allIds, ids.count x = 1 ↔ tree.ParentIs x p
  reaches : ∃ root ∈ tree.allIds, tree.parentOf root = none ∧
    ∀ x ∈ tree.allIds, ReflTransGen (IsChild tree.parentOf) x root
  answers : ∀ r ∈ tree.allIds, ∀ d ∈ tree.allIds, ∃ n answer, tree.isAncestor n r d = some (.ok answer)
  subtree : ∀ r ∈ tree.allIds, ∃ n ids, tree.subtreeIds n r = some (.ok ids) ∧ ids.Nodup ∧
    ∀ d, d ∈ ids ↔ ∃ n, tree.isAncestor n r d = some (.ok true)
  delegates : ∀ p ∈ tree.allIds, ∀ x ∈ tree.allIds, tree.canDelegateTo p x = true ↔ tree.ParentIs x p

/-- The lists of a configuration say no more than the parents: no agent is listed twice, and a listed agent names the
one that lists it. -/
def Faithful (agents : List AgentConfig) : Prop :=
  ∀ agent ∈ agents, agent.children.Nodup ∧
    ∀ child ∈ agents, child.agentId ∈ agent.children → child.parentId = some agent.agentId

instance (agents : List AgentConfig) : Decidable (Faithful agents) :=
  inferInstanceAs (Decidable (∀ _ ∈ _, _ ∧ ∀ _ ∈ _, _ → _))

/-- What construction checks. -/
structure Accepted (tree : AgentTree) (limit : ℕ) : Prop where
  distinct : tree.allIds.Nodup
  root : ∃ root, (tree.agents.filter (·.parentId = none)).map AgentConfig.agentId = [root]
  parents : ∀ agent ∈ tree.agents, tree.parentError agent = none
  children : ∀ agent ∈ tree.agents, tree.childError agent = none
  upwards : ∃ t, Search.run tree.parentEdges limit tree.allIds = .ok t
  downwards : ∃ t, Search.run tree.childEdges limit tree.allIds = .ok t

section Checks

variable {tree : AgentTree} {agents : List AgentConfig} {agent : AgentConfig} {limit : ℕ} {id p x : String}

/-- What a sequence of two checks returns. -/
theorem bind_eq_ok {α β : Type} {x : Except AgentTreeError α} {f : α → Except AgentTreeError β} {y : β} :
    (x >>= f) = .ok y ↔ ∃ a, x = .ok a ∧ f a = .ok y := by
  cases x with
  | error e => exact iff_of_false (by rintro ⟨⟩) (by rintro ⟨a, ⟨⟩, -⟩)
  | ok a =>
    constructor
    · exact fun h => ⟨a, rfl, h⟩
    · rintro ⟨b, hb, h⟩
      cases hb
      exact h

/-- An agent is found under its id. -/
theorem find_of_mem (hdistinct : tree.allIds.Nodup) (h : agent ∈ tree.agents) :
    tree.find agent.agentId = some agent := by
  rw [find]
  cases hfind : tree.agents.find? (·.agentId = agent.agentId) with
  | none => exact absurd (List.find?_eq_none.mp hfind agent h) (by simp)
  | some found =>
    have hsame : found.agentId = agent.agentId := by simpa using List.find?_some hfind
    rw [List.inj_on_of_nodup_map hdistinct (List.mem_of_find?_eq_some hfind) h hsame]

/-- What is found is an agent with the id. -/
theorem find_eq_some (h : tree.find id = some agent) : agent ∈ tree.agents ∧ agent.agentId = id :=
  ⟨List.mem_of_find?_eq_some h, by simpa using List.find?_some h⟩

/-- An id is of an agent exactly when it is found. -/
theorem mem_allIds : id ∈ tree.allIds ↔ (tree.find id).isSome = true := by
  rw [find, List.find?_isSome, allIds, List.mem_map]
  simp

/-- An id that is found is of an agent. -/
theorem mem_allIds_of_find (h : tree.find id = some agent) : id ∈ tree.allIds :=
  mem_allIds.mpr (by rw [h]; rfl)

/-- Only agents have parents. -/
theorem mem_of_parentOf (h : tree.parentOf x = some p) : x ∈ tree.allIds := by
  rw [parentOf] at h
  cases hfind : tree.find x with
  | none =>
    rw [hfind] at h
    cases h
  | some agent => exact mem_allIds_of_find hfind

/-- Only agents have children. -/
theorem mem_of_childrenOf (h : x ∈ tree.childrenOf p) : p ∈ tree.allIds := by
  rw [childrenOf] at h
  cases hfind : tree.find p with
  | none =>
    rw [hfind] at h
    cases h
  | some agent => exact mem_allIds_of_find hfind

/-- The parent of an agent, where it is an agent. -/
theorem parentIs_iff (hx : x ∈ tree.allIds) (hp : ∀ q, tree.parentOf x = some q → q ∈ tree.allIds) :
    tree.ParentIs x p ↔ tree.parentOf x = some p := by
  obtain ⟨agent, hagent⟩ := Option.isSome_iff_exists.mp (mem_allIds.mp hx)
  have hget : tree.get x = .ok agent := by rw [get, hagent]
  rw [ParentIs]
  cases hparent : tree.parentOf x with
  | none =>
    have hnone : tree.parent x = .ok none := by
      rw [parent, hget, hparent]
      rfl
    rw [hnone]
    exact iff_of_false (by rintro ⟨found, ⟨⟩, -⟩) (by simp)
  | some q =>
    obtain ⟨found, hfound⟩ := Option.isSome_iff_exists.mp (mem_allIds.mp (hp q hparent))
    have hsome : tree.parent x = .ok (some found) := by
      rw [parent, hget, hparent]
      dsimp only [bind, Except.bind]
      rw [hfound]
      rfl
    rw [hsome, Option.some.injEq, ← (find_eq_some hfound).2]
    constructor
    · rintro ⟨agent, hsame, hid⟩
      cases hsame
      exact hid
    · exact fun hid => ⟨found, rfl, hid⟩

end Checks

section Loops

variable {tree : AgentTree} {l stack result : List String} {current : Option String} {ancestor : String}

/-- The loop of `is_ancestor` follows a climb, and finds what is on it. -/
theorem isAncestorFrom_climbs (h : Climbs tree.parentOf current l) :
    tree.isAncestorFrom ancestor l.length current = some (decide (ancestor ∈ l)) ∧
      ∀ n, tree.isAncestorFrom ancestor n current = some true → ancestor ∈ l := by
  induction h with
  | root =>
    refine ⟨by simp [isAncestorFrom], fun n hfound => ?_⟩
    rw [isAncestorFrom] at hfound
    cases hfound
  | @up a l _ ih =>
    obtain ⟨hanswer, hsound⟩ := ih
    constructor
    · rw [List.length_cons, isAncestorFrom]
      by_cases ha : a = ancestor
      · rw [if_pos ha, ha]
        simp
      · rw [if_neg ha, hanswer]
        simp [Ne.symm ha]
    · intro n hfound
      cases n with
      | zero => cases hfound
      | succ n =>
        rw [isAncestorFrom] at hfound
        split at hfound
        next ha => exact ha ▸ List.mem_cons_self
        next => exact List.mem_cons_of_mem a (hsound n hfound)

/-- `is_ancestor` answers for agents only. -/
theorem mem_of_isAncestor {n : ℕ} {d : String} {answer : Bool} (h : tree.isAncestor n ancestor d = some (.ok answer)) :
    d ∈ tree.allIds := by
  cases hd : tree.find d with
  | some agent => exact mem_allIds_of_find hd
  | none =>
    rw [isAncestor, get, get, hd] at h
    cases hr : tree.find ancestor with
    | none =>
      rw [hr] at h
      cases h
    | some agent =>
      rw [hr] at h
      cases h

/-- The loop of `subtree_ids` follows the visits. -/
theorem subtreeFrom_visits (h : Visits tree.childrenOf stack l) :
    tree.subtreeFrom l.length stack result = some (result ++ l) := by
  induction h generalizing result with
  | done =>
    rw [List.append_nil]
    rfl
  | pop _ ih => rw [List.length_cons, subtreeFrom, ih, List.append_assoc, List.singleton_append]

/-- What the loop of `subtree_ids` returns has the stack and the children of what it has. -/
theorem mem_of_subtreeFrom {n : ℕ} {ids : List String} (h : tree.subtreeFrom n stack result = some ids) :
    (∀ x ∈ result, x ∈ ids) ∧ ∀ x ∈ stack, x ∈ ids ∧ ∀ c ∈ tree.childrenOf x, c ∈ ids := by
  induction n generalizing stack result with
  | zero =>
    cases stack with
    | nil =>
      cases h
      exact ⟨fun x hx => hx, fun x hx => absurd hx List.not_mem_nil⟩
    | cons node stack => cases h
  | succ n ih =>
    cases stack with
    | nil =>
      cases h
      exact ⟨fun x hx => hx, fun x hx => absurd hx List.not_mem_nil⟩
    | cons node stack =>
      obtain ⟨hresult, hstack⟩ := ih h
      refine ⟨fun x hx => hresult x (List.mem_append_left _ hx), List.forall_mem_cons.mpr ⟨⟨?_, ?_⟩, ?_⟩⟩
      · exact hresult node (List.mem_append_right _ (List.mem_singleton_self node))
      · exact fun c hc => (hstack c (List.mem_append_left _ (List.mem_reverse.mpr hc))).1
      · exact fun x hx => hstack x (List.mem_append_right _ hx)

end Loops

section Shape

variable {tree : AgentTree} {limit : ℕ} {x p c : String}

/-- A parent is an agent, and lists its children. -/
theorem Accepted.known_parent (h : tree.Accepted limit) (hparent : tree.parentOf x = some p) :
    p ∈ tree.allIds ∧ x ∈ tree.childrenOf p := by
  obtain ⟨agent, hagent⟩ := Option.isSome_iff_exists.mp (mem_allIds.mp (mem_of_parentOf hparent))
  obtain ⟨hmem, hid⟩ := find_eq_some hagent
  have hnamed : agent.parentId = some p := by rwa [parentOf, hagent] at hparent
  have hchecked := h.parents agent hmem
  rw [parentError, hnamed] at hchecked
  cases hfind : tree.find p with
  | none =>
    simp only [hfind] at hchecked
    cases hchecked
  | some parent =>
    simp only [hfind, ite_eq_right_iff, reduceCtorEq, imp_false, not_not] at hchecked
    refine ⟨mem_allIds_of_find hfind, ?_⟩
    rw [childrenOf, hfind, ← hid]
    exact hchecked

/-- A listed child is an agent. -/
theorem Accepted.known_child (h : tree.Accepted limit) (hchild : c ∈ tree.childrenOf p) : c ∈ tree.allIds := by
  obtain ⟨agent, hagent⟩ := Option.isSome_iff_exists.mp (mem_allIds.mp (mem_of_childrenOf hchild))
  have hchecked := h.children agent (find_eq_some hagent).1
  rw [childrenOf, hagent] at hchild
  rw [childError, Option.map_eq_none_iff, List.find?_eq_none] at hchecked
  have hknown := hchecked c hchild
  exact mem_allIds.mpr (Option.isSome_iff_ne_none.mpr (by simpa using hknown))

/-- Finitely many agents have parents. -/
theorem finite_parents (tree : AgentTree) : {x | tree.parentOf x ≠ none}.Finite := by
  apply Set.Finite.subset (List.finite_toSet tree.allIds)
  intro x hx
  obtain ⟨p, hp⟩ := Option.ne_none_iff_exists'.mp hx
  exact mem_of_parentOf hp

/-- Only agents have edges to parents. -/
theorem mem_of_parentEdges (h : tree.parentEdges x ≠ []) : x ∈ tree.allIds := by
  obtain ⟨p, hp⟩ := List.exists_mem_of_ne_nil _ h
  rw [parentEdges, List.mem_filter, Option.mem_toList] at hp
  exact mem_of_parentOf hp.1

/-- Only agents have edges to children. -/
theorem mem_of_childEdges (h : tree.childEdges x ≠ []) : x ∈ tree.allIds := by
  obtain ⟨c, hc⟩ := List.exists_mem_of_ne_nil _ h
  exact mem_of_childrenOf (List.mem_filter.mp hc).1

/-- No agent is its own ancestor. -/
theorem Accepted.acyclic (h : tree.Accepted limit) : Acyclic tree.parentOf := by
  obtain ⟨t, hrun⟩ := h.upwards
  have hedges {a b : String} (hchild : IsChild tree.parentOf a b) : b ∈ tree.parentEdges a := by
    rw [parentEdges, List.mem_filter, Option.mem_toList]
    exact ⟨hchild, mem_allIds.mp (h.known_parent hchild).1⟩
  intro a hcycle
  exact Search.acyclic_of_run hrun (fun b => mem_of_parentEdges) a (TransGen.mono (fun _ _ => hedges) _ _ hcycle)

/-- Where the lists say no more than the parents, both are those of a forest. -/
theorem Accepted.forest (h : tree.Accepted limit) (hfaithful : Faithful tree.agents) :
    Forest tree.parentOf tree.childrenOf := by
  refine ⟨finite_parents tree, fun p c => ?_, h.acyclic⟩
  split
  next hparent =>
    obtain ⟨hp, hc⟩ := h.known_parent hparent
    obtain ⟨agent, hagent⟩ := Option.isSome_iff_exists.mp (mem_allIds.mp hp)
    rw [childrenOf, hagent] at hc ⊢
    exact List.count_eq_one_of_mem (hfaithful agent (find_eq_some hagent).1).1 hc
  next hother =>
    apply List.count_eq_zero_of_not_mem
    intro hc
    obtain ⟨agent, hagent⟩ := Option.isSome_iff_exists.mp (mem_allIds.mp (mem_of_childrenOf hc))
    obtain ⟨child, hchild⟩ := Option.isSome_iff_exists.mp (mem_allIds.mp (h.known_child hc))
    obtain ⟨hmem, hid⟩ := find_eq_some hagent
    obtain ⟨hchildMem, hchildId⟩ := find_eq_some hchild
    rw [childrenOf, hagent, Option.map_some, Option.getD_some] at hc
    have hnamed := (hfaithful agent hmem).2 child hchildMem (hchildId ▸ hc)
    apply hother
    rw [parentOf, hchild, Option.bind_some, hnamed, hid]

/-- The root is the end of every climb. -/
theorem Accepted.exists_root (h : tree.Accepted limit) : ∃ root ∈ tree.allIds, tree.parentOf root = none ∧
    ∀ x ∈ tree.allIds, ReflTransGen (IsChild tree.parentOf) x root := by
  obtain ⟨root, hroot⟩ := h.root
  have hmem {x : String} : x = root ↔ ∃ agent ∈ tree.agents, agent.parentId = none ∧ agent.agentId = x := by
    rw [← List.mem_singleton, ← hroot, List.mem_map]
    simp [and_assoc]
  obtain ⟨agent, hagent, hnone, hid⟩ := hmem.mp rfl
  have hfind := find_of_mem h.distinct hagent
  rw [hid] at hfind
  refine ⟨root, mem_allIds_of_find hfind, by rw [parentOf, hfind, Option.bind_some, hnone], fun x hx => ?_⟩
  induction x using (h.acyclic.wellFounded_parent (finite_parents tree)).induction with
  | _ x ih =>
    cases hparent : tree.parentOf x with
    | none =>
      obtain ⟨other, hother⟩ := Option.isSome_iff_exists.mp (mem_allIds.mp hx)
      rw [parentOf, hother, Option.bind_some] at hparent
      obtain rfl := hmem.mpr ⟨other, (find_eq_some hother).1, hparent, (find_eq_some hother).2⟩
      exact .refl
    | some p => exact .head hparent (ih p hparent (h.known_parent hparent).1)

/-- Where every agent reaches the root, parents are agents. -/
theorem IsTree.known_parent (h : tree.IsTree) (hparent : tree.parentOf x = some p) : p ∈ tree.allIds := by
  obtain ⟨root, hroot, htop, hreaches⟩ := h.reaches
  rcases (hreaches x (mem_of_parentOf hparent)).cases_head with rfl | ⟨q, hq, hrest⟩
  · rw [htop] at hparent
    cases hparent
  · obtain rfl := IsChild.unique hparent hq
    rcases hrest.cases_head with rfl | ⟨next, hnext, -⟩
    · exact hroot
    · exact mem_of_parentOf hnext

/-- A child by the queries is one by the parents. -/
theorem IsTree.parentIs_iff (h : tree.IsTree) (hx : x ∈ tree.allIds) : tree.ParentIs x p ↔ tree.parentOf x = some p :=
  AgentTree.parentIs_iff hx fun _ => h.known_parent

/-- No cycle leads to the root. -/
theorem IsTree.acyclic (h : tree.IsTree) : Acyclic tree.parentOf := by
  obtain ⟨root, -, htop, hreaches⟩ := h.reaches
  intro a hcycle
  have hevery {b : String} (hb : ReflTransGen (IsChild tree.parentOf) a b) : TransGen (IsChild tree.parentOf) b b := by
    induction hb with
    | refl => exact hcycle
    | @tail b c _ hchild ih =>
      obtain ⟨d, hd, hrest⟩ := TransGen.head'_iff.mp ih
      obtain rfl := hchild.unique hd
      exact TransGen.tail' hrest hchild
  obtain ⟨p, hp, -⟩ := TransGen.head'_iff.mp hcycle
  obtain ⟨q, hq, -⟩ := TransGen.head'_iff.mp (hevery (hreaches a (mem_of_parentOf hp)))
  rw [IsChild, htop] at hq
  cases hq

/-- The root is the only agent without a parent. -/
theorem IsTree.exists_root (h : tree.IsTree) (hdistinct : tree.allIds.Nodup) :
    ∃ root, (tree.agents.filter (·.parentId = none)).map AgentConfig.agentId = [root] := by
  obtain ⟨root, hroot, htop, hreaches⟩ := h.reaches
  have hnodup : ((tree.agents.filter (·.parentId = none)).map AgentConfig.agentId).Nodup :=
    hdistinct.sublist (List.filter_sublist.map _)
  have hmem : ∀ x, x ∈ (tree.agents.filter (·.parentId = none)).map AgentConfig.agentId ↔ x = root := by
    intro x
    rw [List.mem_map]
    constructor
    · rintro ⟨agent, hagent, rfl⟩
      obtain ⟨hagent, hnone⟩ := List.mem_filter.mp hagent
      have hfind := find_of_mem hdistinct hagent
      rcases (hreaches _ (mem_allIds_of_find hfind)).cases_head with hsame | ⟨p, hp, -⟩
      · exact hsame
      · rw [IsChild, parentOf, hfind, Option.bind_some, of_decide_eq_true hnone] at hp
        cases hp
    · rintro rfl
      obtain ⟨agent, hagent⟩ := Option.isSome_iff_exists.mp (mem_allIds.mp hroot)
      obtain ⟨hmem, hid⟩ := find_eq_some hagent
      rw [parentOf, hagent, Option.bind_some] at htop
      exact ⟨agent, List.mem_filter.mpr ⟨hmem, decide_eq_true htop⟩, hid⟩
  refine ⟨root, List.perm_singleton.mp ((List.perm_ext_iff_of_nodup hnodup (List.nodup_singleton root)).mpr fun x =>
    ?_)⟩
  rw [hmem, List.mem_singleton]

/-- Where the queries are those of a tree, the configuration passes the checks. -/
theorem IsTree.accepted (h : tree.IsTree) (hdistinct : tree.allIds.Nodup) (hlimit : tree.agents.length < limit) :
    tree.Accepted limit := by
  have hlength : tree.allIds.length < limit := by rwa [allIds, List.length_map]
  refine ⟨hdistinct, h.exists_root hdistinct, fun agent hagent => ?parents, fun agent hagent => ?children, ?upwards,
    ?downwards⟩
  case parents =>
    have hfind := find_of_mem hdistinct hagent
    rw [parentError]
    cases hnamed : agent.parentId with
    | none => rfl
    | some p =>
      have hparent : tree.parentOf agent.agentId = some p := by rw [parentOf, hfind, Option.bind_some, hnamed]
      have hx := mem_allIds_of_find hfind
      obtain ⟨parent, hp⟩ := Option.isSome_iff_exists.mp (mem_allIds.mp (h.known_parent hparent))
      obtain ⟨ids, hids, honce⟩ := h.once p (h.known_parent hparent)
      rw [childIds, get, hp] at hids
      obtain rfl := Except.ok.inj hids
      have hcount := (honce agent.agentId hx).mpr ((h.parentIs_iff hx).mpr hparent)
      have hlisted : agent.agentId ∈ tree.childrenOf p := List.count_pos_iff.mp (by omega)
      rw [childrenOf, hp] at hlisted
      simp only [hp]
      exact if_neg (not_not.mpr hlisted)
  case children =>
    have hfind := find_of_mem hdistinct hagent
    obtain ⟨n, ids, hids, -, hmem⟩ := h.subtree _ (mem_allIds_of_find hfind)
    rw [subtreeIds, get, hfind, Option.map_eq_some_iff] at hids
    obtain ⟨found, hloop, hsame⟩ := hids
    obtain rfl := Except.ok.inj hsame
    rw [childError, Option.map_eq_none_iff, List.find?_eq_none]
    intro c hc hnone
    have hlisted : c ∈ tree.childrenOf agent.agentId := by rwa [childrenOf, hfind]
    obtain ⟨m, hm⟩ := (hmem c).mp (((mem_of_subtreeFrom hloop).2 _ (List.mem_singleton_self _)).2 c hlisted)
    have hknown := mem_allIds.mp (mem_of_isAncestor hm)
    rw [← Option.not_isNone, hnone] at hknown
    cases hknown
  case upwards =>
    rcases Search.run_spec (fun a => mem_of_parentEdges) hlength with ⟨t, hrun, -⟩ | ⟨walk, -, hclosed⟩
    · exact ⟨t, hrun⟩
    · obtain ⟨a, hcycle⟩ := hclosed.exists_cycle
      refine absurd (TransGen.mono (fun b c hbc => ?_) _ _ hcycle) (h.acyclic a)
      exact Option.mem_toList.mp (List.mem_filter.mp hbc).1
  case downwards =>
    rcases Search.run_spec (fun a => mem_of_childEdges) hlength with ⟨t, hrun, -⟩ | ⟨walk, -, hclosed⟩
    · exact ⟨t, hrun⟩
    · obtain ⟨a, hcycle⟩ := hclosed.exists_cycle
      refine absurd (TransGen.mono (fun b c hbc => ?_) _ _ (transGen_swap.mp hcycle)) (h.acyclic a)
      obtain ⟨hlisted, hknown⟩ := List.mem_filter.mp hbc
      have hc := mem_of_childrenOf hlisted
      apply (h.parentIs_iff (mem_allIds.mpr hknown)).mp
      apply (h.delegates _ hc _ (mem_allIds.mpr hknown)).mp
      rw [canDelegateTo, mem_allIds.mp hc, hknown]
      exact decide_eq_true hlisted

end Shape

end AgentTree

end MyTeam.Legacy
