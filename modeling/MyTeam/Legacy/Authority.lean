import MyTeam.Py.Value
import Mathlib.Data.Option.Basic

/-!
# Authority

The device of a team where the entities of all devices are registered, and where agents are wired to
them: an agent occupies positions, and a position is granted entities. What an agent may use is
decided by the grants of its positions, of which a denial counts first; what is put into its memory
is what the devices declare for the entities that its positions were granted.
-/

namespace MyTeam.Legacy

open MyTeam.Py

/-- The kinds of an entity. -/
inductive EntityKind
  | data
  | tool
  | toolpack
deriving DecidableEq, Repr

/-- What a device puts into the memory of an agent that is granted an entity. -/
structure InjectionDecl where
  content : String
  sourceTag : String := ""
deriving DecidableEq, Repr

/-- An entity that a device declares. -/
structure RegisteredEntity where
  entityId : String
  deviceId : String
  kind : EntityKind
  label : String
  injection : Option InjectionDecl := none
deriving DecidableEq, Repr

/-- `_registry`: entities by their ids. -/
@[ext]
structure Registry where
  entity : String → Option RegisteredEntity := fun _ => none
  named : ∀ id e, entity id = some e → e.entityId = id := by simp

namespace Registry

variable (r : Registry)

/-- An entity is registered, or replaces the one with its id. -/
def add (e : RegisteredEntity) : Registry where
  entity := Function.update r.entity e.entityId (some e)
  named := by
    intro id e' h
    by_cases hid : id = e.entityId
    · subst hid
      rw [Function.update_self] at h
      exact congrArg RegisteredEntity.entityId (Option.some_injective _ h).symm
    · rw [Function.update_of_ne hid] at h
      exact r.named id e' h

/-- What is registered after an entity is added. -/
theorem entity_add (e : RegisteredEntity) (id : String) :
    (r.add e).entity id = if id = e.entityId then some e else r.entity id :=
  Function.update_apply _ _ _ _

/-- An entity is taken out. -/
def erase (id : String) : Registry where
  entity := Function.update r.entity id none
  named := by
    intro id' e h
    by_cases hid : id' = id
    · rw [hid, Function.update_self] at h
      cases h
    · rw [Function.update_of_ne hid] at h
      exact r.named id' e h

/-- What is registered after an entity is taken out. -/
theorem entity_erase (id x : String) : (r.erase id).entity x = if x = id then none else r.entity x :=
  Function.update_apply _ _ _ _

end Registry

/-- The effects of a grant. -/
inductive GrantEffect
  | allowed
  | denied
  | requiresApproval
deriving DecidableEq, Repr

/-- A grant of an entity to a position. -/
structure CapabilityGrant where
  positionId : String
  entityId : String
  effect : GrantEffect := .allowed
  priority : ℤ := 5
deriving DecidableEq, Repr

/-- The result of `authorize`. -/
structure Decision where
  effect : GrantEffect
  entityId : String := ""
  positionId : Option String := none
deriving DecidableEq, Repr

/-- `allowed`, also where an approval is required. -/
def Decision.allowed (d : Decision) : Bool :=
  d.effect ≠ .denied

/-- An entry for the memory of an agent. -/
structure MemoryInjection where
  entityId : String
  sourceDeviceId : String
  content : String
  sourceTag : String
  positionId : String
  priority : ℤ
deriving DecidableEq, Repr

/-- What the operations raise. -/
inductive AuthorityError
  | alreadyRegistered (entityId : String)
  | unknownEntity (entityId : String)
  | notOwner (owner agent : String)
  | otherTeam
deriving DecidableEq, Repr

/-- The text of an error. -/
def AuthorityError.message : AuthorityError → String
  | alreadyRegistered entityId => s!"entity {Value.reprStr entityId} already registered"
  | unknownEntity entityId => s!"entity {Value.reprStr entityId} not registered with Authority"
  | notOwner owner agent => s!"replace requires owner {Value.reprStr owner}, got {Value.reprStr agent}"
  | otherTeam => "replacement must belong to the same team"

/-- `Authority`. The entities are those that it declares itself as a device. The positions of an agent are
a set, given by its members in the order in which it is iterated. -/
structure Authority where
  deviceId : String
  teamId : String
  ownerAgentId : String
  entities : Registry := {}
  registry : Registry := {}
  memberships : String → List String := fun _ => []
  capabilities : String → List CapabilityGrant := fun _ => []

namespace Authority

variable (a : Authority)

/-- The loop of `accept_device`; entities that come before one that is registered already are registered. -/
def acceptEntities (registry : Registry) : List RegisteredEntity → Registry × Option AuthorityError
  | [] => (registry, none)
  | e :: rest =>
    if (registry.entity e.entityId).isSome then (registry, some (.alreadyRegistered e.entityId))
    else acceptEntities (registry.add e) rest

/-- `accept_device`, with the entities that the device declares. -/
def acceptDevice (device : List RegisteredEntity) : Authority × Option AuthorityError :=
  let (registry, error) := acceptEntities a.registry device
  ({ a with registry := registry }, error)

/-- `grant_membership`. -/
def grantMembership (agentId positionId : String) : Authority :=
  let positions := a.memberships agentId
  { a with
    memberships := Function.update a.memberships agentId
      (if positionId ∈ positions then positions else positions ++ [positionId]) }

/-- `revoke_membership`. -/
def revokeMembership (agentId positionId : String) : Authority :=
  { a with
    memberships := Function.update a.memberships agentId ((a.memberships agentId).filter (· ≠ positionId)) }

/-- `grant_capability`. -/
def grantCapability (positionId entityId : String) (effect : GrantEffect) (priority : ℤ) :
    Except AuthorityError Authority :=
  if (a.registry.entity entityId).isNone then .error (.unknownEntity entityId)
  else
    .ok { a with
      capabilities := Function.update a.capabilities positionId
        (a.capabilities positionId ++ [⟨positionId, entityId, effect, priority⟩]) }

/-- `revoke_capability`. -/
def revokeCapability (positionId entityId : String) : Authority :=
  { a with
    capabilities := Function.update a.capabilities positionId
      ((a.capabilities positionId).filter fun g => g.entityId ≠ entityId) }

/-- `_grants_for`. -/
def grantsFor (agentId entityId : String) : List CapabilityGrant :=
  (a.memberships agentId).flatMap fun positionId => (a.capabilities positionId).filter fun g => g.entityId = entityId

/-- `authorize`. -/
def authorize (agentId entityId : String) : Decision :=
  if (a.registry.entity entityId).isNone then { effect := .denied, entityId := entityId }
  else
    match a.grantsFor agentId entityId with
    | [] => { effect := .denied, entityId := entityId }
    | first :: rest =>
      match (first :: rest).find? fun g => g.effect = .denied with
      | some g => { effect := .denied, entityId := entityId, positionId := some g.positionId }
      | none =>
        match (first :: rest).find? fun g => g.effect = .allowed with
        | some g => { effect := .allowed, entityId := entityId, positionId := some g.positionId }
        | none => { effect := .requiresApproval, entityId := entityId, positionId := some first.positionId }

/-- The entry of a grant, if its entity is registered with something to put into memory. -/
def injectionOf (positionId : String) (g : CapabilityGrant) : Option MemoryInjection :=
  (a.registry.entity g.entityId).bind fun e => e.injection.map fun injection =>
    { entityId := e.entityId, sourceDeviceId := e.deviceId, content := injection.content,
      sourceTag := injection.sourceTag, positionId := positionId, priority := g.priority }

/-- `injection_for`. -/
def injectionFor (agentId : String) : List MemoryInjection :=
  (a.memberships agentId).flatMap fun positionId => (a.capabilities positionId).filterMap (a.injectionOf positionId)

/-- `replace`: the new authority, with what is handed over. -/
def replace (new : Authority) (byAgentId : String) : Except AuthorityError Authority :=
  if byAgentId ≠ a.ownerAgentId then .error (.notOwner a.ownerAgentId byAgentId)
  else if new.teamId ≠ a.teamId then .error .otherTeam
  else .ok { new with registry := a.registry, memberships := a.memberships, capabilities := a.capabilities }

variable {a} {agentId entityId : String} {g : CapabilityGrant} {i : MemoryInjection}

/-- A replacement by the owner, in the same team: what is handed over. -/
theorem replace_eq_ok {a new t : Authority} :
    a.replace new agentId = .ok t ↔ agentId = a.ownerAgentId ∧ new.teamId = a.teamId ∧
    t = { new with registry := a.registry, memberships := a.memberships, capabilities := a.capabilities } := by
  unfold replace
  split
  next hother => exact iff_of_false (by simp) fun h => hother h.1
  next howner =>
    split
    next hother => exact iff_of_false (by simp) fun h => hother h.2.1
    next hteam => simp [not_not.mp howner, not_not.mp hteam, eq_comm]

/-- What is registered stays registered when a device is accepted. -/
theorem registered_acceptEntities {registry : Registry} {device : List RegisteredEntity}
    (h : registry.entity entityId ≠ none) : (acceptEntities registry device).1.entity entityId ≠ none := by
  induction device generalizing registry with
  | nil => exact h
  | cons e rest ih =>
    rw [acceptEntities]
    split
    · exact h
    · refine ih ?_
      rw [Registry.entity_add]
      split
      · exact Option.some_ne_none e
      · exact h

/-- The grants of an agent for an entity. -/
theorem mem_grantsFor : g ∈ a.grantsFor agentId entityId ↔
    ∃ positionId ∈ a.memberships agentId, g ∈ a.capabilities positionId ∧ g.entityId = entityId := by
  simp [grantsFor]

/-- The effect of a decision, by the grants alone. -/
theorem effect_authorize : (a.authorize agentId entityId).effect =
    if (a.registry.entity entityId).isNone ∨ a.grantsFor agentId entityId = [] then .denied
    else if ∃ g ∈ a.grantsFor agentId entityId, g.effect = .denied then .denied
    else if ∃ g ∈ a.grantsFor agentId entityId, g.effect = .allowed then .allowed
    else .requiresApproval := by
  unfold authorize
  by_cases hregistered : (a.registry.entity entityId).isNone = true
  · rw [if_pos hregistered, if_pos (Or.inl hregistered)]
  · rw [if_neg hregistered]
    cases hgrants : a.grantsFor agentId entityId with
    | nil => simp
    | cons first rest =>
      rw [if_neg (by simp [hregistered])]
      dsimp only
      cases hdenied : (first :: rest).find? fun g => g.effect = .denied with
      | some g => rw [if_pos ⟨g, List.mem_of_find?_eq_some hdenied, by simpa using List.find?_some hdenied⟩]
      | none =>
        rw [if_neg (by simpa using hdenied)]
        dsimp only
        cases hallowed : (first :: rest).find? fun g => g.effect = .allowed with
        | some g => rw [if_pos ⟨g, List.mem_of_find?_eq_some hallowed, by simpa using List.find?_some hallowed⟩]
        | none => rw [if_neg (by simpa using hallowed)]

/-- The effect of a decision is that of the effects of the grants. -/
theorem effect_congr {a b : Authority} {e f : String}
    (grants : (a.grantsFor agentId e).map CapabilityGrant.effect = (b.grantsFor agentId f).map CapabilityGrant.effect)
    (registered : b.grantsFor agentId f ≠ [] → ((a.registry.entity e).isNone ↔ (b.registry.entity f).isNone)) :
    (a.authorize agentId e).effect = (b.authorize agentId f).effect := by
  have hany (effect : GrantEffect) : (∃ g ∈ a.grantsFor agentId e, g.effect = effect) ↔
      ∃ g ∈ b.grantsFor agentId f, g.effect = effect := by
    rw [← List.mem_map, ← List.mem_map, grants]
  have hnil : a.grantsFor agentId e = [] ↔ b.grantsFor agentId f = [] := by
    rw [← List.map_eq_nil_iff (f := CapabilityGrant.effect), grants, List.map_eq_nil_iff]
  have hnone : (a.registry.entity e).isNone ∨ a.grantsFor agentId e = [] ↔
      (b.registry.entity f).isNone ∨ b.grantsFor agentId f = [] := by
    rw [hnil]
    by_cases hempty : b.grantsFor agentId f = []
    · simp [hempty]
    · rw [registered hempty]
  rw [effect_authorize, effect_authorize, if_congr hnone rfl rfl, if_congr (hany .denied) rfl rfl,
    if_congr (hany .allowed) rfl rfl]

/-- An agent is allowed what is registered and granted to one of its positions, and denied to none. -/
theorem allowed_iff : (a.authorize agentId entityId).allowed = true ↔ (a.registry.entity entityId).isSome ∧
    a.grantsFor agentId entityId ≠ [] ∧ ∀ g ∈ a.grantsFor agentId entityId, g.effect ≠ .denied := by
  unfold Decision.allowed
  rw [decide_eq_true_iff, effect_authorize]
  by_cases hnone : (a.registry.entity entityId).isNone ∨ a.grantsFor agentId entityId = []
  · rw [if_pos hnone]
    refine iff_of_false (fun h => h rfl) ?_
    rintro ⟨hregistered, hgrants, -⟩
    obtain hnone | hnone := hnone
    · simp [Option.isNone_iff_eq_none.mp hnone] at hregistered
    · exact hgrants hnone
  · obtain ⟨hregistered, hgrants⟩ := not_or.mp hnone
    rw [if_neg hnone]
    have hsome : (a.registry.entity entityId).isSome = true :=
      Option.isSome_iff_ne_none.mpr (by simpa using hregistered)
    by_cases hdenied : ∃ g ∈ a.grantsFor agentId entityId, g.effect = .denied
    · rw [if_pos hdenied]
      obtain ⟨g, hg, heffect⟩ := hdenied
      exact iff_of_false (fun h => h rfl) fun h => h.2.2 g hg heffect
    · rw [if_neg hdenied]
      refine iff_of_true ?_ ⟨hsome, hgrants, fun g hg heffect => hdenied ⟨g, hg, heffect⟩⟩
      split <;> simp

/-- The entries for the memory of an agent. -/
theorem mem_injectionFor : i ∈ a.injectionFor agentId ↔
    ∃ positionId ∈ a.memberships agentId, ∃ g ∈ a.capabilities positionId, a.injectionOf positionId g = some i := by
  simp [injectionFor]

/-- An entry is for the entity of its grant, which is registered. -/
theorem injectionOf_eq_some {positionId : String} (h : a.injectionOf positionId g = some i) :
    i.entityId = g.entityId ∧ ∃ e injection, a.registry.entity g.entityId = some e ∧ e.injection = some injection ∧
      i = ⟨g.entityId, e.deviceId, injection.content, injection.sourceTag, positionId, g.priority⟩ := by
  obtain ⟨e, he, hinjection⟩ := Option.bind_eq_some_iff.mp h
  obtain ⟨injection, hdeclared, rfl⟩ := Option.map_eq_some_iff.mp hinjection
  have hname := a.registry.named _ e he
  exact ⟨hname, e, injection, he, hdeclared, by rw [hname]⟩

/-- The entry of a grant of an entity that is registered with something to put into memory. -/
theorem injectionOf_of_registered {positionId : String} {e : RegisteredEntity} {injection : InjectionDecl}
    (he : a.registry.entity g.entityId = some e) (hinjection : e.injection = some injection) :
    a.injectionOf positionId g =
      some ⟨g.entityId, e.deviceId, injection.content, injection.sourceTag, positionId, g.priority⟩ := by
  unfold injectionOf
  rw [he, Option.bind_some, hinjection, Option.map_some, a.registry.named _ e he]

end Authority

end MyTeam.Legacy
