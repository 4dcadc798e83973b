import MyTeam.Legacy.Authority
import MyTeam.Legacy.Positions

/-!
# The organisation

The authority of a team that also keeps its positions. The edges of a position are stored at both of their ends.
They are changed on copies, which replace the positions if their governance is valid. The description of
a position and its relations are put into the memory of the agents that occupy it, as entities that are
granted to the position. An organisation is replaced by another one, which takes over what it keeps.
-/

namespace MyTeam.Legacy

open MyTeam.Py MyTeam.Order

/-- The text of an effect. -/
def GrantEffect.value : GrantEffect → String
  | allowed => "allowed"
  | denied => "denied"
  | requiresApproval => "requires_approval"

/-- A grant of one entity becomes a grant of another one. -/
def CapabilityGrant.redirect (old new : String) (g : CapabilityGrant) : CapabilityGrant :=
  if g.entityId = old then { g with entityId := new } else g

/-- `ORG_MEMORY_PRIORITY`. -/
def orgMemoryPriority : ℤ := 1

/-- A record of a change for the journal. -/
structure OrgChange where
  op : String
  actorAgentId : String
  positionId : String := ""
  entityId : String := ""
  detail : String := ""
deriving DecidableEq, Repr

/-- What the operations raise. -/
inductive OrgError
  | permissionDenied (agentId orgManageId : String)
  | positionNotFound (positionId : String)
  | positionsNotFound
  | installedTwice (positionId : String)
  | addedTwice (positionId : String)
  | noRootPosition
  | ownSuperior
  | governance (error : GovernanceError)
  | authority (error : AuthorityError)
  | keyError (key : String)
  | sink (text : String)
deriving DecidableEq, Repr

/-- The text of an error. -/
def OrgError.message : OrgError → String
  | permissionDenied agentId orgManageId =>
    s!"POLICY_DENIED: agent {Value.reprStr agentId} 无组织架构管理权限（缺 Grant(position, {orgManageId})）"
  | positionNotFound positionId => s!"岗位 {positionId} 不存在"
  | positionsNotFound => "岗位不存在"
  | installedTwice positionId => s!"岗位 {positionId} 已存在（重复安装）"
  | addedTwice positionId => s!"岗位 {positionId} 已存在"
  | noRootPosition => "bootstrap 建立 root 授予需指定 root_position_id"
  | ownSuperior => "岗位不得以自身为上级"
  | governance error => error.message
  | authority error => error.message
  | keyError key => Value.reprStr key
  | sink text => text

/-- What a call meets: the depth that is left for recursion, the ids that are made, and how the journal takes a change,
where a text is that of what it raises. -/
structure Surroundings where
  limit : ℕ
  ids : ℕ → String
  sink : OrgChange → Option String := fun _ => none

namespace Position

/-- A position has another superior, or none. -/
def withSuperior (sup : Option String) (p : Position) : Position :=
  { p with superiorId := sup }

/-- A position has another description. -/
def withJd (jd : String) (p : Position) : Position :=
  { p with jd := jd }

variable (id : String) (p : Position)

/-- A position is taken from the subordinates. -/
def dropSubordinate : Position :=
  { p with subordinateIds := p.subordinateIds.filter (· ≠ id) }

/-- A position comes to the subordinates, if it is not among them. -/
def addSubordinate : Position :=
  if id ∈ p.subordinateIds then p else { p with subordinateIds := p.subordinateIds ++ [id] }

/-- A position is no longer the superior. -/
def dropSuperior : Position :=
  { p with superiorId := p.superiorId.filter (· ≠ id) }

/-- A position is taken from the collaborators. -/
def dropCollaborator : Position :=
  { p with collaboratorIds := p.collaboratorIds.filter (· ≠ id) }

/-- A position comes to the collaborators, if it is not among them. -/
def addCollaborator : Position :=
  if id ∈ p.collaboratorIds then p else { p with collaboratorIds := p.collaboratorIds ++ [id] }

end Position

namespace Positions

/-- `_positions[p.position_id] = p`. -/
def store (p : Position) : List Position → List Position
  | [] => [p]
  | q :: rest => if q.positionId = p.positionId then p :: rest else q :: store p rest

/-- `_positions.get(position_id)`. -/
def lookup (positions : List Position) (id : String) : Option Position :=
  positions.find? fun p => p.positionId = id

/-- A position is written. -/
def modify (id : String) (f : Position → Position) (positions : List Position) : List Position :=
  positions.map fun p => if p.positionId = id then f p else p

/-- The superior of a position. -/
def superiorOf (positions : List Position) (id : String) : Option String :=
  (lookup positions id).bind Position.superiorId

/-- The subordinates of a position. -/
def subordinatesOf (positions : List Position) (id : String) : List String :=
  ((lookup positions id).map Position.subordinateIds).getD []

/-- The part of `_link_superior` where the old superior loses the subordinate. -/
def leaveSuperior (sub : String) (sup old : Option String) (positions : List Position) : List Position :=
  match old with
  | none => positions
  | some id =>
    if some id = sup then positions
    else modify id (Position.dropSubordinate sub) positions

/-- The part of `_link_superior` where the new superior gets the subordinate. -/
def joinSuperior (sub : String) (sup : Option String) (positions : List Position) : List Position :=
  match sup with
  | none => positions
  | some id => modify id (Position.addSubordinate sub) positions

/-- `_link_superior`. -/
def linkSuperior (sub : String) (sup : Option String) (positions : List Position) : Except OrgError (List Position) :=
  if sup = some sub then .error .ownSuperior
  else
    match sup.filter fun id => (lookup positions id).isNone with
    | some id => .error (.positionNotFound id)
    | none =>
      match lookup positions sub with
      | none => .error (.positionNotFound sub)
      | some pos =>
        .ok (joinSuperior sub sup
          (modify sub (Position.withSuperior sup) (leaveSuperior sub sup pos.superiorId positions)))

/-- What `remove_subordinate` does to the positions. -/
def unlinkSubordinate (manager sub : String) (positions : List Position) : Except OrgError (List Position) :=
  if (lookup positions manager).isNone ∨ (lookup positions sub).isNone then .error .positionsNotFound
  else .ok (modify sub (Position.dropSuperior manager) (modify manager (Position.dropSubordinate sub) positions))

/-- What `add_collaborator` does to the positions. -/
def linkCollaborator (id other : String) (positions : List Position) : Except OrgError (List Position) :=
  if (lookup positions id).isNone ∨ (lookup positions other).isNone then .error .positionsNotFound
  else .ok (modify id (Position.addCollaborator other) positions)

/-- What `remove_collaborator` does to the positions. -/
def unlinkCollaborator (id other : String) (positions : List Position) : Except OrgError (List Position) :=
  if (lookup positions id).isNone then .error .positionsNotFound
  else .ok (modify id (Position.dropCollaborator other) positions)

/-- What `remove_position` does to the positions. -/
def remove (id : String) (positions : List Position) : List Position :=
  (positions.filter fun p => p.positionId ≠ id).map fun p =>
    ((p.dropSuperior id).dropSubordinate id).dropCollaborator id

end Positions

/-- The entries of one registry that another one does not have are put into it. -/
def Registry.fill (r own : Registry) : Registry where
  entity id := (r.entity id).or (own.entity id)
  named := by
    intro id e h
    cases hr : r.entity id with
    | some e' =>
      rw [hr, Option.some_or] at h
      exact Option.some_injective _ h ▸ r.named id e' hr
    | none =>
      rw [hr, Option.none_or] at h
      exact own.named id e h

/-- `OrgStructure`. The journal sink is there or not. -/
structure OrgStructure extends Authority where
  edgeSemantics : EdgeSemantics
  journalSink : Bool := false
  positions : List Position := []
  positionMemory : String → Option (String × String) := fun _ => none
  orgManageId : String

/-- The organisation that an operation leaves, and what it raises. -/
abbrev OrgOutcome := OrgStructure × Option OrgError

/-- The next part of an operation, which is not reached if something was raised before. -/
def OrgOutcome.andThen (r : OrgOutcome) (next : OrgStructure → OrgOutcome) : OrgOutcome :=
  match r with
  | (s, some error) => (s, some error)
  | (s, none) => next s

namespace OrgStructure

open Positions

/-- The entity for the management of an organisation. -/
def manageEntity (deviceId entityId : String) : RegisteredEntity :=
  { entityId := entityId, deviceId := deviceId, kind := .toolpack, label := "org-manage",
    injection := some
      ⟨"组织架构管理：读改写岗位/边/授权、mount（岗人分离）。root 级 agent 持本权限即可做组织调整（§5.8）。", "[ORG_GUIDE]"⟩ }

/-- The entity for the semantics of an edge. -/
def edgeEntity (deviceId entityId : String) (kind : EdgeKind) (decl : EdgeSemanticsDeclaration) : RegisteredEntity :=
  { entityId := entityId, deviceId := deviceId, kind := .tool, label := s!"edge:{kind.value}",
    injection := some ⟨s!"{decl.description}（{kind.value} 边语义，N8 求值）", "[EDGE_SEMANTICS]"⟩ }

/-- What `OrgStructure.__init__` builds. The registry is empty before, so that the device's own entities are all
accepted. -/
def built (teamId ownerAgentId deviceId : String) (semantics : EdgeSemantics) (journalSink : Bool)
    (ids : ℕ → String) : OrgStructure :=
  let edges := semantics.mapIdx fun i entry => edgeEntity deviceId (ids (i + 1)) entry.1 entry.2
  let entities := edges.foldl Registry.add (Registry.add {} (manageEntity deviceId (ids 0)))
  { deviceId := deviceId, teamId := teamId, ownerAgentId := ownerAgentId, entities := entities,
    registry := entities, edgeSemantics := semantics, journalSink := journalSink, orgManageId := ids 0 }

/-- `OrgStructure.__init__`. -/
def construct (teamId ownerAgentId deviceId : String) (edgeSemantics : EdgeSemantics) (journalSink : Bool)
    (ids : ℕ → String) : Except OrgError OrgStructure :=
  let semantics := edgeSemantics.orDefault
  let errors := validateEdgeSemantics (semantics.map Prod.snd)
  if errors ≠ [] then .error (.governance (.invariant errors))
  else .ok (built teamId ownerAgentId deviceId semantics journalSink ids)

variable (s : OrgStructure)

/-- What an operation of the authority makes of the organisation. -/
def withAuthority (authority : Authority) : OrgStructure :=
  { s with toAuthority := authority }

/-- `_check_org_permission`. -/
def checkOrgPermission (byAgentId : String) : Option OrgError :=
  if (s.authorize byAgentId s.orgManageId).allowed then none else some (.permissionDenied byAgentId s.orgManageId)

/-- `_record`. -/
def record (c : Surroundings) (change : OrgChange) : OrgOutcome :=
  if s.journalSink then (s, (c.sink change).map OrgError.sink) else (s, none)

/-- `_ensure_own_entities_registered`. -/
def ensureOwnEntitiesRegistered : OrgStructure :=
  { s with registry := s.registry.fill s.entities }

/-- `grant_capability`. -/
def grantCapability (positionId entityId : String) (effect : GrantEffect) (priority : ℤ) : OrgOutcome :=
  match s.ensureOwnEntitiesRegistered.toAuthority.grantCapability positionId entityId effect priority with
  | .error error => (s.ensureOwnEntitiesRegistered, some (.authority error))
  | .ok authority => (s.withAuthority authority, none)

section Memory

/-- `_relations_content`. -/
def relationsContent (position : Position) : String :=
  let sup := (position.superiorId.bind (lookup s.positions)).toList.map fun p => s!"上级岗位：{p.name}"
  let subs := (position.subordinateIds.filterMap (lookup s.positions)).map Position.name
  let colls := (position.collaboratorIds.filterMap (lookup s.positions)).map Position.name
  "；".intercalate (sup ++ (if subs = [] then [] else ["下属岗位：" ++ "、".intercalate subs]) ++
    if colls = [] then [] else ["协作岗位：" ++ "、".intercalate colls])

/-- `_register_memory_entity`. -/
def registerMemoryEntity (entityId label content tag : String) : OrgStructure :=
  let e : RegisteredEntity :=
    { entityId := entityId, deviceId := s.deviceId, kind := .data, label := label, injection := some ⟨content, tag⟩ }
  { s with entities := s.entities.add e, registry := s.registry.add e }

/-- `_sync_position_memory`. -/
def syncPositionMemory (jd edges : String) (position : Position) : OrgOutcome :=
  let withJd := s.registerMemoryEntity jd s!"jd:{position.name}" position.jd "[POSITION_JD]"
  let withEdges := withJd.registerMemoryEntity edges s!"edges:{position.name}" (withJd.relationsContent position)
    "[ORG_EDGE]"
  (withEdges.grantCapability position.positionId jd .allowed orgMemoryPriority).andThen fun s =>
    (s.grantCapability position.positionId edges .allowed orgMemoryPriority).andThen fun s =>
      ({ s with positionMemory := Function.update s.positionMemory position.positionId (some (jd, edges)) }, none)

/-- `_update_memory_content`. -/
def updateMemoryContent (entityId content : String) : OrgOutcome :=
  match s.entities.entity entityId with
  | none => (s, some (.keyError entityId))
  | some e =>
    let updated : RegisteredEntity :=
      { e with injection := some ⟨content, (e.injection.map InjectionDecl.sourceTag).getD ""⟩ }
    ({ s with entities := s.entities.add updated, registry := s.registry.add updated }, none)

/-- `_refresh_relations`. -/
def refreshRelations (position : Position) : OrgOutcome :=
  match s.positionMemory position.positionId with
  | none => (s, none)
  | some (_, edges) => s.updateMemoryContent edges (s.relationsContent position)

/-- The loop over positions whose relations are refreshed. -/
def refreshAll : List Position → OrgStructure → OrgOutcome
  | [], s => (s, none)
  | p :: rest, s => (s.refreshRelations p).andThen (refreshAll rest)

/-- The loop over positions that are synced, with the ids that are made for them. -/
def syncAll (ids : ℕ → String) (s : OrgStructure) : List Position → ℕ → OrgOutcome
  | [], _ => (s, none)
  | p :: rest, n => (s.syncPositionMemory (ids n) (ids (n + 1)) p).andThen fun s => syncAll ids s rest (n + 2)

/-- The loop of `bootstrap`. -/
def installAll (ids : ℕ → String) : List Position → ℕ → OrgStructure → OrgOutcome
  | [], _, s => (s, none)
  | p :: rest, n, s =>
    ({ s with positions := store p s.positions }.syncPositionMemory (ids n) (ids (n + 1)) p).andThen
      (installAll ids rest (n + 2))

end Memory

/-- `_require_position`. -/
def requirePosition (id : String) : Option OrgError :=
  if (lookup s.positions id).isNone then some (.positionNotFound id) else none

/-- What raises before anything is changed. -/
def guarded (checks : List (Option OrgError)) (body : OrgOutcome) : OrgOutcome :=
  match checks.findSome? id with
  | some error => (s, some error)
  | none => body

/-- The root grants of `bootstrap`. -/
def grantRoot (c : Surroundings) (installed : ℕ) (rootAgentId : String) (rootPositionId : Option String) : OrgOutcome :=
  match rootPositionId with
  | none => (s, some .noRootPosition)
  | some root =>
    s.guarded [s.requirePosition root]
      ((s.grantCapability root s.orgManageId .allowed orgMemoryPriority).andThen fun s =>
        (s.withAuthority (s.grantMembership rootAgentId root)).record c
          { op := "bootstrap", actorAgentId := rootAgentId, positionId := root,
            detail := s!"安装 {installed} 个岗位并建立 root 授予" })

/-- `bootstrap`. -/
def bootstrap (c : Surroundings) (positions : List Position) (rootAgentId rootPositionId : Option String) :
    OrgOutcome :=
  s.guarded
    [(positions.find? fun p => (lookup s.positions p.positionId).isSome).map fun p => .installedTwice p.positionId,
      (validateGovernanceInvariants c.limit (s.positions ++ positions) s.edgeSemantics).map .governance]
    ((s.installAll c.ids positions 0).andThen fun s =>
      match rootAgentId with
      | some rootAgentId => s.grantRoot c positions.length rootAgentId rootPositionId
      | none =>
        if positions = [] then (s, none)
        else s.record c { op := "bootstrap", actorAgentId := s.ownerAgentId, detail := s!"安装 {positions.length} 个岗位" })

/-- `add_position`. -/
def addPosition (c : Surroundings) (position : Position) (byAgentId : String) : OrgOutcome :=
  s.guarded
    [s.checkOrgPermission byAgentId,
      (lookup s.positions position.positionId).map fun _ => .addedTwice position.positionId,
      (validateGovernanceInvariants c.limit (s.positions ++ [position]) s.edgeSemantics).map .governance]
    (({ s with positions := store position s.positions }.syncPositionMemory (c.ids 0) (c.ids 1) position).andThen
      fun s => s.record c
        { op := "add_position", actorAgentId := byAgentId, positionId := position.positionId, detail := position.name })

/-- An entity for the memory of a position that is removed is taken out. -/
def dropMemoryEntity (positionId entityId : String) : OrgStructure :=
  if entityId = "" then s
  else
    { s with
      capabilities := (s.revokeCapability positionId entityId).capabilities
      entities := s.entities.erase entityId
      registry := s.registry.erase entityId }

/-- What `remove_position` does to the entities, the grants and the memberships. -/
def forget (positionId : String) : OrgStructure :=
  let (jd, edges) := (s.positionMemory positionId).getD ("", "")
  let s := ({ s with positionMemory := Function.update s.positionMemory positionId none }.dropMemoryEntity positionId
    jd).dropMemoryEntity positionId edges
  { s with
    capabilities := Function.update s.capabilities positionId []
    memberships := fun agentId => (s.memberships agentId).filter (· ≠ positionId) }

/-- `remove_position`. -/
def removePosition (c : Surroundings) (positionId byAgentId : String) : OrgOutcome :=
  s.guarded
    [s.checkOrgPermission byAgentId, s.requirePosition positionId,
      (validateGovernanceInvariants c.limit (remove positionId s.positions) s.edgeSemantics).map .governance]
    ((refreshAll (remove positionId s.positions)
      ({ s with positions := remove positionId s.positions }.forget positionId)).andThen
      fun s => s.record c { op := "remove_position", actorAgentId := byAgentId, positionId := positionId })

/-- `set_jd`. -/
def setJd (c : Surroundings) (positionId jd byAgentId : String) : OrgOutcome :=
  let written : OrgStructure := { s with positions := modify positionId (Position.withJd jd) s.positions }
  s.guarded [s.checkOrgPermission byAgentId, s.requirePosition positionId]
    (match s.positionMemory positionId with
      | none => (written, some (.keyError positionId))
      | some (entity, _) => (written.updateMemoryContent entity jd).andThen fun s =>
        s.record c { op := "set_jd", actorAgentId := byAgentId, positionId := positionId })

/-- `_mutate_positions`. -/
def mutatePositions (c : Surroundings) (byAgentId op positionId : String)
    (mutate : List Position → Except OrgError (List Position)) : OrgOutcome :=
  s.guarded [s.checkOrgPermission byAgentId, s.requirePosition positionId]
    (match mutate s.positions with
      | .error error => (s, some error)
      | .ok prospective =>
        s.guarded [(validateGovernanceInvariants c.limit prospective s.edgeSemantics).map .governance]
          ((refreshAll prospective { s with positions := prospective }).andThen fun s =>
            s.record c { op := op, actorAgentId := byAgentId, positionId := positionId }))

/-- `set_superior`. -/
def setSuperior (c : Surroundings) (positionId : String) (superiorId : Option String) (byAgentId : String) :
    OrgOutcome :=
  s.mutatePositions c byAgentId "set_superior" positionId (linkSuperior positionId superiorId)

/-- `add_subordinate`. -/
def addSubordinate (c : Surroundings) (managerId subordinateId byAgentId : String) : OrgOutcome :=
  s.mutatePositions c byAgentId "add_subordinate" managerId (linkSuperior subordinateId (some managerId))

/-- `remove_subordinate`. -/
def removeSubordinate (c : Surroundings) (managerId subordinateId byAgentId : String) : OrgOutcome :=
  s.mutatePositions c byAgentId "remove_subordinate" managerId (unlinkSubordinate managerId subordinateId)

/-- `add_collaborator`. -/
def addCollaborator (c : Surroundings) (positionId otherId byAgentId : String) : OrgOutcome :=
  s.mutatePositions c byAgentId "add_collaborator" positionId (linkCollaborator positionId otherId)

/-- `remove_collaborator`. -/
def removeCollaborator (c : Surroundings) (positionId otherId byAgentId : String) : OrgOutcome :=
  s.mutatePositions c byAgentId "remove_collaborator" positionId (unlinkCollaborator positionId otherId)

section Grants

/-- What the operations on grants have in common: the two checks, and the record. -/
def wire (c : Surroundings) (op positionId entityId byAgentId detail : String) (body : OrgOutcome) : OrgOutcome :=
  s.guarded [s.checkOrgPermission byAgentId, s.requirePosition positionId]
    (body.andThen fun s => s.record c
      { op := op, actorAgentId := byAgentId, positionId := positionId, entityId := entityId, detail := detail })

/-- `grant_org_capability`. -/
def grantOrgCapability (c : Surroundings) (positionId entityId byAgentId : String) (effect : GrantEffect)
    (priority : ℤ) : OrgOutcome :=
  s.wire c "grant_capability" positionId entityId byAgentId s!"effect={effect.value}, priority={priority}"
    (s.grantCapability positionId entityId effect priority)

/-- `revoke_org_capability`. -/
def revokeOrgCapability (c : Surroundings) (positionId entityId byAgentId : String) : OrgOutcome :=
  s.wire c "revoke_capability" positionId entityId byAgentId ""
    (s.withAuthority (s.revokeCapability positionId entityId), none)

/-- `grant_org_membership`. -/
def grantOrgMembership (c : Surroundings) (agentId positionId byAgentId : String) : OrgOutcome :=
  s.wire c "grant_membership" positionId agentId byAgentId ""
    (s.withAuthority (s.grantMembership agentId positionId), none)

/-- `revoke_org_membership`. -/
def revokeOrgMembership (c : Surroundings) (agentId positionId byAgentId : String) : OrgOutcome :=
  s.wire c "revoke_membership" positionId agentId byAgentId ""
    (s.withAuthority (s.revokeMembership agentId positionId), none)

end Grants

section Replace

/-- The first part of `_adopt_from`: the old memory entities are not granted any longer, and the positions are taken
over. -/
def takeOver (old : OrgStructure) : OrgStructure :=
  { s with
    capabilities := fun positionId =>
      match old.positionMemory positionId with
      | none => s.capabilities positionId
      | some (jd, edges) => ((s.capabilities positionId).filter fun g => g.entityId ≠ jd).filter fun g =>
        g.entityId ≠ edges
    edgeSemantics := old.edgeSemantics
    journalSink := old.journalSink
    positions := old.positions
    positionMemory := fun _ => none }

/-- The last part of `_adopt_from`: grants of the old management are grants of the new one. -/
def redirectGrants (oldManageId : String) : OrgStructure :=
  { s with
    capabilities := fun positionId =>
      (s.capabilities positionId).map (CapabilityGrant.redirect oldManageId s.orgManageId) }

/-- `_adopt_from`. -/
def adoptFrom (old : OrgStructure) (ids : ℕ → String) : OrgOutcome :=
  ((s.takeOver old).syncAll ids old.positions 0).andThen fun s => (s.redirectGrants old.orgManageId, none)

/-- `replace`: what becomes of the new organisation. -/
def replace (new : OrgStructure) (c : Surroundings) (byAgentId : String) : OrgOutcome :=
  match s.toAuthority.replace new.toAuthority byAgentId with
  | .error error => (new, some (.authority error))
  | .ok authority => (new.withAuthority authority).ensureOwnEntitiesRegistered.adoptFrom s c.ids

end Replace

end OrgStructure

end MyTeam.Legacy
