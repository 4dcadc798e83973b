import MyTeam.Order.Search
import MyTeam.Py.Dict

/-!
# Positions

An organisation is made of positions with edges between them: to the superior, to the subordinates and to
the collaborators. What an edge means is declared by the organisation. Before positions are installed
or changed, their governance is validated: no declaration gives away what may not be given away, no
edge dangles, and the edges along which tasks are delegated have no cycle.
-/

namespace MyTeam.Legacy

open MyTeam.Order Relation

/-- A position. -/
structure Position where
  positionId : String
  name : String
  jd : String := ""
  superiorId : Option String := none
  subordinateIds : List String := []
  collaboratorIds : List String := []
deriving DecidableEq, Repr

/-- `_no_self_edge`: what is wrong with the edges of a position. -/
def Position.selfEdge (p : Position) : Option String :=
  if p.superiorId = some p.positionId then some s!"position {p.positionId}: superior_id 不得指向自身"
  else if p.positionId ∈ p.subordinateIds then some s!"position {p.positionId}: subordinate_ids 不得包含自身"
  else if p.positionId ∈ p.collaboratorIds then some s!"position {p.positionId}: collaborator_ids 不得包含自身"
  else none

/-- The kinds of an edge. -/
inductive EdgeKind
  | superior
  | subordinate
  | collaborator
deriving DecidableEq, Repr

/-- The text of a kind. -/
def EdgeKind.value : EdgeKind → String
  | superior => "superior"
  | subordinate => "subordinate"
  | collaborator => "collaborator"

/-- How tasks are delegated along an edge. -/
inductive DelegationMode
  | none
  | command
  | request
deriving DecidableEq, Repr

/-- What an organisation declares about a kind of edge. -/
structure EdgeSemanticsDeclaration where
  kind : EdgeKind
  delegationMode : DelegationMode := .none
  transfersAccountability : Bool := false
  vetoTransferable : Bool := false
  transfersOwnership : Bool := false
  description : String := ""
deriving DecidableEq, Repr

/-- The declarations of an organisation. -/
abbrev EdgeSemantics := List (EdgeKind × EdgeSemanticsDeclaration)

/-- `DEFAULT_EDGE_SEMANTICS`. -/
def defaultEdgeSemantics : EdgeSemantics :=
  [(.superior, { kind := .superior, description := "唯一入边：上报/escalation 对象；不可向它委派任务（§5.8）" }),
    (.subordinate,
      { kind := .subordinate, delegationMode := .command, description := "出边集合：可命令委派；下属不可拒绝，只能 fail（§5.8）" }),
    (.collaborator,
      { kind := .collaborator, delegationMode := .request,
        description := "双向集合：可请求委派（请求帮忙），可拒绝（declined + 回执）；通信与共享上下文（§5.8）" })]

namespace EdgeSemantics

/-- `semantics or DEFAULT_EDGE_SEMANTICS`. -/
def orDefault (semantics : EdgeSemantics) : EdgeSemantics :=
  if semantics = [] then defaultEdgeSemantics else semantics

/-- Tasks are delegated along the edges of a kind. -/
def delegates (semantics : EdgeSemantics) (kind : EdgeKind) : Bool :=
  match semantics.find? fun entry => entry.1 = kind with
  | none => false
  | some (_, decl) => decl.delegationMode ≠ .none

end EdgeSemantics

/-- What is wrong with a declaration. -/
def EdgeSemanticsDeclaration.errors (decl : EdgeSemanticsDeclaration) : List String :=
  (if decl.transfersAccountability then
    [s!"{decl.kind.value}: 违反「授权不授责」— 委派不转移责任（transfers_accountability=True）"] else []) ++
  (if decl.vetoTransferable then
    [s!"{decl.kind.value}: 违反「veto 默认不可转授」— veto 权不可转授（veto_transferable=True）"] else []) ++
  if decl.transfersOwnership then
    [s!"{decl.kind.value}: 违反「escalation 不转移 ownership」—所有权不可随升级/委派转授（transfers_ownership=True）"]
  else []

/-- `validate_edge_semantics`: the lines of its error. -/
def validateEdgeSemantics (declarations : List EdgeSemanticsDeclaration) : List String :=
  declarations.flatMap EdgeSemanticsDeclaration.errors

/-- What the validation raises: `GovernanceInvariantError` or `RecursionError`. -/
inductive GovernanceError
  | invariant (lines : List String)
  | recursion
deriving DecidableEq, Repr

/-- The text of an error. -/
def GovernanceError.message : GovernanceError → String
  | invariant lines => "\n".intercalate lines
  | recursion => "maximum recursion depth exceeded"

/-- The positions to which a position delegates. -/
def Position.delegatees (semantics : EdgeSemantics) (p : Position) : List String :=
  (if semantics.delegates .subordinate then p.subordinateIds else []) ++
    if semantics.delegates .collaborator then p.collaboratorIds else []

/-- `_delegation_graph`: the edges from a position. -/
def delegationGraph (positions : List Position) (semantics : EdgeSemantics) (id : String) : List String :=
  ((positions.filter fun p => p.positionId = id).flatMap (Position.delegatees semantics)).eraseDups

/-- A graph: the successors of its nodes, in the order in which the map and its sets are walked through. -/
abbrev Graph (α : Type) := List (α × List α)

namespace Graph

variable {α : Type} [DecidableEq α]

/-- `graph.get(node, ())`. -/
def successors (graph : Graph α) (node : α) : List α := (graph.lookup node).getD []

/-- The edges of a graph. -/
def Edge (graph : Graph α) (a b : α) : Prop := b ∈ graph.successors a

/-- What a search returns: a cycle, if there is one, or the error of a recursion that is deeper than the interpreter
allows. -/
def returned {β : Type} : Except (Halt β) (Search β) → Except GovernanceError (Option (List β))
  | .ok _ => .ok none
  | .error (.cycle nodes) => .ok (some nodes)
  | .error .recursion => .error .recursion

/-- `_find_cycle`. -/
def findCycle (limit : ℕ) (graph : Graph α) : Except GovernanceError (Option (List α)) :=
  returned (Search.run graph.successors limit (graph.map Prod.fst))

variable {graph : Graph α} {limit : ℕ}

/-- Only the nodes of the map have successors. -/
theorem mem_keys_of_successors {a : α} (h : graph.successors a ≠ []) : a ∈ graph.map Prod.fst := by
  by_contra hkey
  have hlookup : graph.lookup a = none := Py.lookup_eq_none_iff_keys.mpr hkey
  exact h (by rw [successors, hlookup, Option.getD_none])

/-- For every graph and every limit, the search comes to a result, or the recursion is too deep, which takes a path of
more nodes than the limit. It finds nothing if and only if the graph has no cycle, and else it finds a walk along edges
that ends where it began. -/
theorem findCycle_correct (graph : Graph α) (limit : ℕ) :
    (∃ result, graph.findCycle limit = .ok result ∧ (result = none ↔ ∀ a, ¬TransGen graph.Edge a a) ∧
      ∀ walk, result = some walk → walk.IsChain graph.Edge ∧ ∃ a inner, walk = a :: (inner ++ [a])) ∨
    graph.findCycle limit = .error .recursion ∧
      ∃ path : List α, path.Nodup ∧ path.IsChain graph.Edge ∧ limit < path.length := by
  unfold findCycle
  rcases @Search.run_cases α graph.successors _ limit _ fun a ha => mem_keys_of_successors ha with
    ⟨t, hrun, hacyclic⟩ | ⟨walk, hrun, hclosed⟩ | ⟨hrun, path, ⟨hnodup, hchain⟩, hlong⟩
  · rw [hrun]
    exact Or.inl ⟨none, rfl, iff_of_true rfl hacyclic, fun walk hwalk => by cases hwalk⟩
  · rw [hrun]
    refine Or.inl ⟨some walk, rfl, iff_of_false (by simp) fun hacyclic => ?_, fun walk' hwalk => ?_⟩
    · obtain ⟨a, hcycle⟩ := hclosed.exists_cycle
      exact hacyclic a hcycle
    · cases hwalk
      exact hclosed
  · rw [hrun]
    exact Or.inr ⟨rfl, path, hnodup, hchain, hlong⟩

/-- Nodes in a row, each with an edge to the next one. -/
def chain (n : ℕ) : Graph ℕ := (List.range n).map fun a => (a, [a + 1])

/-- The successor of a node of the row. -/
theorem successors_chain {n a : ℕ} (h : a < n) : (chain n).successors a = [a + 1] := by
  have hkeys : (chain n).map Prod.fst = List.range n := by
    rw [chain, List.map_map]
    exact List.map_id _
  have hmem : (a, [a + 1]) ∈ chain n := List.mem_map_of_mem (List.mem_range.mpr h)
  rw [successors, Py.lookup_of_mem (hkeys ▸ List.nodup_range) hmem, Option.getD_some]

/-- Among more nodes in a row than the recursion may be deep, the search does not come to a result. -/
theorem recursion_chain (n : ℕ) : (chain (n + 1)).findCycle n = .error .recursion := by
  have hdeep : Search.visit (chain (n + 1)).successors n 0 {} = .error .recursion :=
    Search.visit_chain (fun b hb => successors_chain (by omega)) fun _ _ => rfl
  have hkeys : (chain (n + 1)).map Prod.fst = 0 :: (List.range n).map (· + 1) := by
    rw [chain, List.map_map, ← List.range_succ_eq_map]
    exact List.map_id _
  rw [findCycle, Search.run, hkeys, List.foldlM_cons, Search.start, if_pos rfl, hdeep]
  rfl

/-- A thousand and one nodes in a row, under a limit of a thousand. -/
theorem findCycle_chain : (chain 1001).findCycle 1000 = .error .recursion :=
  recursion_chain 1000

end Graph

/-- `_delegation_graph`: the map. -/
def delegationMap (positions : List Position) (semantics : EdgeSemantics) : Graph String :=
  (positions.map Position.positionId).eraseDups.map fun id => (id, delegationGraph positions semantics id)

/-- The loop of `_dangling_edge_errors` for one position. -/
def Position.danglingErrors (known : List String) (p : Position) : List String :=
  ((p.superiorId.toList.filter (· ∉ known)).map fun s => s!"岗位 {p.positionId} 的 superior_id 指向不存在的岗位 {s}") ++
  ((p.subordinateIds.filter (· ∉ known)).map fun s => s!"岗位 {p.positionId} 的 subordinate_id 指向不存在的岗位 {s}") ++
  (p.collaboratorIds.filter (· ∉ known)).map fun c => s!"岗位 {p.positionId} 的 collaborator_id 指向不存在的岗位 {c}"

/-- `_dangling_edge_errors`. -/
def danglingEdgeErrors (positions : List Position) : List String :=
  positions.flatMap (Position.danglingErrors (positions.map Position.positionId))

/-- `validate_governance_invariants`: the error that it raises, if it raises one. -/
def validateGovernanceInvariants (limit : ℕ) (positions : List Position) (semantics : EdgeSemantics) :
    Option GovernanceError :=
  let declared := validateEdgeSemantics (semantics.orDefault.map Prod.snd)
  if declared ≠ [] then some (.invariant declared)
  else if danglingEdgeErrors positions ≠ [] then some (.invariant (danglingEdgeErrors positions))
  else
    match (delegationMap positions semantics.orDefault).findCycle limit with
    | .ok none => none
    | .ok (some nodes) => some (.invariant ["违反「委派单调」— 委派边图存在环: [" ++ ", ".intercalate nodes ++ "]"])
    | .error error => some error

/-- All targets of a position's edges. -/
def Position.targets (p : Position) : List String :=
  p.superiorId.toList ++ p.subordinateIds ++ p.collaboratorIds

variable {limit : ℕ} {positions : List Position} {semantics : EdgeSemantics} {p : Position} {a b : String}

/-- A position without dangling edges. -/
theorem danglingErrors_eq_nil {known : List String} : p.danglingErrors known = [] ↔ ∀ t ∈ p.targets, t ∈ known := by
  have hpart (ids : List String) (render : String → String) :
      (ids.filter (· ∉ known)).map render = [] ↔ ∀ t ∈ ids, t ∈ known := by
    rw [List.map_eq_nil_iff, List.filter_eq_nil_iff]
    simp
  unfold Position.danglingErrors Position.targets
  rw [List.append_eq_nil_iff, List.append_eq_nil_iff, hpart, hpart, hpart]
  simp only [List.mem_append, or_imp, forall_and]

/-- Positions without dangling edges. -/
theorem danglingEdgeErrors_eq_nil : danglingEdgeErrors positions = [] ↔
    ∀ p ∈ positions, ∀ t ∈ p.targets, t ∈ positions.map Position.positionId := by
  unfold danglingEdgeErrors
  rw [List.flatMap_eq_nil_iff]
  exact forall₂_congr fun _ _ => danglingErrors_eq_nil

/-- The edges of the delegation graph. -/
theorem mem_delegationGraph : b ∈ delegationGraph positions semantics a ↔
    ∃ p ∈ positions, p.positionId = a ∧ b ∈ p.delegatees semantics := by
  unfold delegationGraph
  simp only [List.mem_eraseDups, List.mem_flatMap, List.mem_filter, decide_eq_true_eq, and_assoc]

/-- The edges from a position, in the map. -/
theorem successors_delegationMap (a : String) :
    (delegationMap positions semantics).successors a = delegationGraph positions semantics a := by
  have hlookup : ∀ ids : List String, (ids.map fun id => (id, delegationGraph positions semantics id)).lookup a =
      if a ∈ ids then some (delegationGraph positions semantics a) else none := by
    intro ids
    induction ids with
    | nil => rfl
    | cons id rest ih =>
      rw [List.map_cons, List.lookup_cons, ih]
      by_cases ha : a = id
      · subst ha
        rw [BEq.rfl, if_pos List.mem_cons_self]
      · rw [beq_false_of_ne ha]
        exact if_congr (List.mem_cons.trans (or_iff_right ha)).symm rfl rfl
  unfold Graph.successors delegationMap
  rw [hlookup]
  split
  · rfl
  next hmissing =>
    cases hgraph : delegationGraph positions semantics a with
    | nil => rfl
    | cons b rest =>
      have hb : b ∈ delegationGraph positions semantics a := hgraph ▸ List.mem_cons_self
      obtain ⟨p, hp, rfl, -⟩ := mem_delegationGraph.mp hb
      exact absurd (List.mem_eraseDups.mpr (List.mem_map_of_mem hp)) hmissing

/-- The search for a cycle of delegations. -/
theorem findCycle_delegationMap : (delegationMap positions semantics).findCycle limit = Graph.returned
    (Search.run (delegationGraph positions semantics) limit (positions.map Position.positionId).eraseDups) := by
  have hsucc : (delegationMap positions semantics).successors = delegationGraph positions semantics :=
    funext successors_delegationMap
  have hkeys : (delegationMap positions semantics).map Prod.fst = (positions.map Position.positionId).eraseDups := by
    rw [delegationMap, List.map_map]
    exact List.map_id _
  unfold Graph.findCycle
  rw [hsucc, hkeys]

/-- What valid positions keep to. -/
structure Governed (positions : List Position) (semantics : EdgeSemantics) : Prop where
  attached : ∀ p ∈ positions, ∀ t ∈ p.targets, t ∈ positions.map Position.positionId
  monotone : ∀ a, ¬TransGen (fun a b => b ∈ delegationGraph positions semantics.orDefault a) a a

/-- The validation raises an error, or the positions are valid. -/
theorem governed_of_validate (h : validateGovernanceInvariants limit positions semantics = none) :
    Governed positions semantics := by
  unfold validateGovernanceInvariants at h
  dsimp only at h
  split at h
  · cases h
  · split at h
    · cases h
    next hattached =>
      refine ⟨danglingEdgeErrors_eq_nil.mp (not_not.mp hattached), ?_⟩
      rw [findCycle_delegationMap] at h
      cases hsearch : Search.run (delegationGraph positions semantics.orDefault) limit
          (positions.map Position.positionId).eraseDups with
      | error halt =>
        rw [hsearch] at h
        cases halt <;> cases h
      | ok search =>
        refine Search.acyclic_of_run hsearch fun a ha => ?_
        obtain ⟨b, hb⟩ := List.exists_mem_of_ne_nil _ ha
        obtain ⟨p, hp, rfl, -⟩ := mem_delegationGraph.mp hb
        exact List.mem_eraseDups.mpr (List.mem_map_of_mem hp)

end MyTeam.Legacy
