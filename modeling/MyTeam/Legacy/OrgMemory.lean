import MyTeam.Legacy.OrgEdges

/-!
# The entities of an organisation

An organisation has entities for its management and for the memory of its positions, and all of them are
registered. The ids that are made for new ones are new. Under this invariant no operation fails to find an
entity, so that the loops over the positions come to their end.
-/

namespace MyTeam.Legacy

open MyTeam.Py

/-- What is registered after a registry is filled. -/
theorem Registry.entity_fill_ne_none {r own : Registry} {id : String} :
    (r.fill own).entity id ≠ none ↔ r.entity id ≠ none ∨ own.entity id ≠ none := by
  show (r.entity id).or (own.entity id) ≠ none ↔ _
  cases r.entity id <;> simp

/-- A registry that is filled has nothing left to be filled. -/
theorem Registry.fill_of_registered {r own : Registry} (h : ∀ id, own.entity id ≠ none → r.entity id ≠ none) :
    r.fill own = r := by
  ext1
  funext id
  show (r.entity id).or (own.entity id) = r.entity id
  cases hr : r.entity id with
  | some e => rfl
  | none =>
    rw [Option.none_or]
    by_contra hown
    exact h id hown hr

namespace OrgStructure

open Positions

/-- The entities for the memory of a position. -/
def memoryIds (s : OrgStructure) (positionId : String) : List String :=
  match s.positionMemory positionId with
  | none => []
  | some (jd, edges) => [jd, edges]

/-- What holds of the entities in every state. -/
structure Owned (s : OrgStructure) : Prop where
  unique : (s.positions.map Position.positionId).Nodup
  registered : ∀ id, s.entities.entity id ≠ none → s.registry.entity id ≠ none
  manage : s.entities.entity s.orgManageId ≠ none
  memory : ∀ positionId, ∀ id ∈ s.memoryIds positionId, s.entities.entity id ≠ none ∧ id ≠ s.orgManageId
  apart : ∀ positionId other, positionId ≠ other → ∀ id ∈ s.memoryIds positionId, id ∉ s.memoryIds other

/-- Ids that are made are new to the entities of an organisation. -/
structure Minted (s : OrgStructure) (ids : ℕ → String) (n : ℕ) : Prop where
  injective : ids.Injective
  fresh : ∀ m ≥ n, s.entities.entity (ids m) = none

/-- A change of contents: entities are as many as before. -/
structure Refreshed (s t : OrgStructure) : Prop where
  same : t = { s with entities := t.entities, registry := t.registry }
  entities : ∀ id, t.entities.entity id ≠ none ↔ s.entities.entity id ≠ none
  registry : ∀ id, s.registry.entity id ≠ none → t.registry.entity id ≠ none

variable {s t u : OrgStructure} {ids : ℕ → String} {n : ℕ} {positions : List Position} {p : Position}
  {jd edges : String}

section Refresh

/-- Nothing is changed. -/
theorem Refreshed.refl : Refreshed s s :=
  ⟨rfl, fun _ => Iff.rfl, fun _ => id⟩

/-- One change after the other. -/
theorem Refreshed.trans (h : Refreshed s t) (h' : Refreshed t u) : Refreshed s u := by
  refine ⟨?_, fun id => (h'.entities id).trans (h.entities id), fun id hid => h'.registry id (h.registry id hid)⟩
  rw [h'.same, h.same]

/-- The invariant after a change of contents. -/
theorem Owned.refreshed (owned : s.Owned) (h : Refreshed s t) : t.Owned := by
  have hmemory : t.memoryIds = s.memoryIds := by rw [h.same]; rfl
  have hmanage : t.orgManageId = s.orgManageId := by rw [h.same]
  constructor
  case unique => rw [h.same]; exact owned.unique
  case registered => exact fun id hid => h.registry id (owned.registered id ((h.entities id).mp hid))
  case manage => rw [h.entities, hmanage]; exact owned.manage
  case memory =>
    intro positionId id hid
    rw [h.entities, hmanage]
    exact owned.memory positionId id (hmemory ▸ hid)
  case apart => rw [hmemory]; exact owned.apart

/-- The content of an entity is updated. -/
theorem refreshed_updateMemoryContent {entityId content : String} (h : s.entities.entity entityId ≠ none) :
    ∃ t, s.updateMemoryContent entityId content = (t, none) ∧ Refreshed s t := by
  obtain ⟨e, he⟩ := Option.ne_none_iff_exists'.mp h
  have hname := s.entities.named entityId e he
  unfold updateMemoryContent
  rw [he]
  refine ⟨_, rfl, rfl, fun id => ?_, fun id hid => ?_⟩
  · rw [Registry.entity_add]
    split
    next heq => exact iff_of_true (Option.some_ne_none _) (by rw [heq]; exact hname ▸ h)
    · rfl
  · rw [Registry.entity_add]
    split
    · exact Option.some_ne_none _
    · exact hid

/-- The relations of positions are refreshed. -/
theorem refreshed_refreshAll (owned : s.Owned) : ∃ t, refreshAll positions s = (t, none) ∧ Refreshed s t := by
  induction positions generalizing s with
  | nil => exact ⟨s, rfl, .refl⟩
  | cons p rest ih =>
    have hfirst : ∃ t, s.refreshRelations p = (t, none) ∧ Refreshed s t := by
      unfold refreshRelations
      cases hmemory : s.positionMemory p.positionId with
      | none => exact ⟨s, rfl, .refl⟩
      | some entry =>
        refine refreshed_updateMemoryContent (owned.memory p.positionId entry.2 ?_).1
        unfold memoryIds
        rw [hmemory]
        exact List.mem_cons_of_mem _ List.mem_cons_self
    obtain ⟨t, ht, hst⟩ := hfirst
    obtain ⟨u, hu, htu⟩ := ih (owned.refreshed hst)
    refine ⟨u, ?_, hst.trans htu⟩
    rw [refreshAll, ht]
    exact hu

end Refresh

section Sync

/-- The entity for the description of a position. -/
def jdEntity (s : OrgStructure) (jd : String) (p : Position) : RegisteredEntity :=
  { entityId := jd, deviceId := s.deviceId, kind := .data, label := s!"jd:{p.name}",
    injection := some ⟨p.jd, "[POSITION_JD]"⟩ }

/-- The entity for the relations of a position. -/
def edgesEntity (s : OrgStructure) (edges : String) (p : Position) : RegisteredEntity :=
  { entityId := edges, deviceId := s.deviceId, kind := .data, label := s!"edges:{p.name}",
    injection := some ⟨s.relationsContent p, "[ORG_EDGE]"⟩ }

/-- The organisation after the memory of a position was synced. -/
def synced (s : OrgStructure) (jd edges : String) (p : Position) : OrgStructure :=
  let entities := (s.entities.add (s.jdEntity jd p)).add (s.edgesEntity edges p)
  { s with
    entities := entities
    registry := ((s.registry.add (s.jdEntity jd p)).add (s.edgesEntity edges p)).fill entities
    capabilities := Function.update s.capabilities p.positionId
      (s.capabilities p.positionId ++
        [⟨p.positionId, jd, .allowed, orgMemoryPriority⟩, ⟨p.positionId, edges, .allowed, orgMemoryPriority⟩])
    positionMemory := Function.update s.positionMemory p.positionId (some (jd, edges)) }

/-- A grant of a registered entity goes through. -/
theorem grantCapability_of_registered {positionId entityId : String} {effect : GrantEffect} {priority : ℤ}
    (h : s.registry.entity entityId ≠ none) : s.grantCapability positionId entityId effect priority =
      ({ s with
          registry := s.registry.fill s.entities
          capabilities := Function.update s.capabilities positionId
            (s.capabilities positionId ++ [⟨positionId, entityId, effect, priority⟩]) }, none) := by
  have hfilled : ¬((s.registry.fill s.entities).entity entityId).isNone = true := by
    rw [Option.isNone_iff_eq_none]
    exact Registry.entity_fill_ne_none.mpr (Or.inl h)
  unfold grantCapability Authority.grantCapability ensureOwnEntitiesRegistered
  rw [if_neg hfilled]
  rfl

/-- Two registered entities are granted to a position. -/
theorem grantCapability_twice {positionId : String} {next : OrgStructure → OrgOutcome}
    (hjd : s.registry.entity jd ≠ none)
    (hedges : s.registry.entity edges ≠ none) :
    ((s.grantCapability positionId jd .allowed orgMemoryPriority).andThen fun s =>
      (s.grantCapability positionId edges .allowed orgMemoryPriority).andThen next) =
    next { s with
      registry := s.registry.fill s.entities
      capabilities := Function.update s.capabilities positionId
        (s.capabilities positionId ++
          [⟨positionId, jd, .allowed, orgMemoryPriority⟩, ⟨positionId, edges, .allowed, orgMemoryPriority⟩]) } := by
  have hfill : (s.registry.fill s.entities).fill s.entities = s.registry.fill s.entities :=
    Registry.fill_of_registered fun id hid => Registry.entity_fill_ne_none.mpr (Or.inr hid)
  rw [grantCapability_of_registered hjd]
  show OrgOutcome.andThen (grantCapability _ _ _ _ _) _ = _
  rw [grantCapability_of_registered (Registry.entity_fill_ne_none.mpr (Or.inl hedges))]
  refine congrArg next ?_
  dsimp only
  rw [hfill, Function.update_idem, Function.update_self, List.append_assoc, List.singleton_append]

/-- The memory of a position is synced. -/
theorem syncPositionMemory_eq : s.syncPositionMemory jd edges p = (s.synced jd edges p, none) := by
  unfold syncPositionMemory
  dsimp only
  rw [grantCapability_twice]
  · rfl
  · show ((s.registry.add _).add (s.edgesEntity edges p)).entity jd ≠ none
    rw [Registry.entity_add, Registry.entity_add]
    split
    · exact Option.some_ne_none _
    · rw [if_pos rfl]
      exact Option.some_ne_none _
  · show ((s.registry.add _).add (s.edgesEntity edges p)).entity edges ≠ none
    rw [Registry.entity_add, if_pos (show edges = (s.edgesEntity edges p).entityId from rfl)]
    exact Option.some_ne_none _

/-- The entities after the memory of a position was synced. -/
theorem entities_synced {id : String} :
    (s.synced jd edges p).entities.entity id ≠ none ↔ id = jd ∨ id = edges ∨ s.entities.entity id ≠ none := by
  unfold synced
  dsimp only
  rw [Registry.entity_add, Registry.entity_add]
  by_cases hedges : id = (s.edgesEntity edges p).entityId
  · rw [if_pos hedges]
    exact iff_of_true (Option.some_ne_none _) (Or.inr (Or.inl hedges))
  · rw [if_neg hedges]
    by_cases hjd : id = (s.jdEntity jd p).entityId
    · rw [if_pos hjd]
      exact iff_of_true (Option.some_ne_none _) (Or.inl hjd)
    · rw [if_neg hjd]
      exact (or_iff_right hjd).trans (or_iff_right hedges) |>.symm

/-- The memory of a position was synced, the others are as before. -/
theorem memoryIds_synced {positionId : String} : (s.synced jd edges p).memoryIds positionId =
    if positionId = p.positionId then [jd, edges] else s.memoryIds positionId := by
  unfold synced memoryIds
  dsimp only
  by_cases hposition : positionId = p.positionId
  · rw [hposition, Function.update_self, if_pos rfl]
  · rw [Function.update_of_ne hposition, if_neg hposition]

/-- The invariant after the memory of a position was synced. -/
theorem Owned.synced (owned : s.Owned) (hjd : s.entities.entity jd = none) (hedges : s.entities.entity edges = none) :
    (s.synced jd edges p).Owned := by
  -- The ids are new, and so those of no other position and not that for the management.
  have hnew {id : String} (hid : id ∈ [jd, edges]) : s.entities.entity id = none := by
    obtain rfl | hid := List.mem_cons.mp hid
    · exact hjd
    · exact List.mem_singleton.mp hid ▸ hedges
  constructor
  case unique => exact owned.unique
  case registered => exact fun id hid => Registry.entity_fill_ne_none.mpr (Or.inr hid)
  case manage => exact entities_synced.mpr (Or.inr (Or.inr owned.manage))
  case memory =>
    intro positionId id hid
    rw [memoryIds_synced] at hid
    split at hid
    · refine ⟨entities_synced.mpr ?_, fun heq => owned.manage (heq ▸ hnew hid)⟩
      simpa [or_assoc] using Or.inl (b := s.entities.entity id ≠ none) (List.mem_cons.mp hid)
    · obtain ⟨hknown, hmanage⟩ := owned.memory positionId id hid
      exact ⟨entities_synced.mpr (Or.inr (Or.inr hknown)), hmanage⟩
  case apart =>
    intro positionId other hother id hid hid'
    rw [memoryIds_synced] at hid hid'
    split at hid
    next hposition =>
      rw [if_neg (hposition ▸ hother.symm)] at hid'
      exact (owned.memory other id hid').1 (hnew hid)
    next =>
      split at hid'
      · exact (owned.memory positionId id hid).1 (hnew hid')
      · exact owned.apart positionId other hother id hid hid'

/-- The ids that are left after the memory of a position was synced. -/
theorem Minted.synced (minted : s.Minted ids n) : (s.synced (ids n) (ids (n + 1)) p).Minted ids (n + 2) := by
  refine ⟨minted.injective, fun m hm => ?_⟩
  by_contra hknown
  obtain heq | heq | hknown := entities_synced.mp hknown
  · exact absurd (minted.injective heq) (by omega)
  · exact absurd (minted.injective heq) (by omega)
  · exact hknown (minted.fresh m (by omega))

/-- What a loop that syncs positions leaves as it was. -/
structure Extended (s t : OrgStructure) : Prop where
  edgeSemantics : t.edgeSemantics = s.edgeSemantics
  orgManageId : t.orgManageId = s.orgManageId

/-- The loop of `bootstrap` comes to its end. -/
theorem installAll_spec {new : List Position} (owned : s.Owned) (minted : s.Minted ids n) :
    ∃ t, installAll ids new n s = (t, none) ∧ t.Owned ∧ t.positions = storeAll new s.positions ∧ Extended s t := by
  induction new generalizing s n with
  | nil => exact ⟨s, rfl, owned, rfl, rfl, rfl⟩
  | cons p rest ih =>
    let stored : OrgStructure := { s with positions := store p s.positions }
    have hstored : stored.Owned :=
      ⟨nodup_ids_store owned.unique, owned.registered, owned.manage, owned.memory, owned.apart⟩
    have hminted : stored.Minted ids n := ⟨minted.injective, minted.fresh⟩
    obtain ⟨t, ht, howned, hpositions, hextended⟩ := @ih (stored.synced (ids n) (ids (n + 1)) p) (n + 2)
      (hstored.synced (minted.fresh n le_rfl) (minted.fresh (n + 1) n.le_succ)) hminted.synced
    refine ⟨t, ?_, howned, hpositions, hextended.edgeSemantics, hextended.orgManageId⟩
    rw [installAll, syncPositionMemory_eq]
    exact ht

/-- The loop of `_adopt_from` comes to its end. -/
theorem syncAll_spec (owned : s.Owned) (minted : s.Minted ids n) :
    ∃ t, syncAll ids s positions n = (t, none) ∧ t.Owned ∧ t.positions = s.positions ∧ Extended s t := by
  induction positions generalizing s n with
  | nil => exact ⟨s, rfl, owned, rfl, rfl, rfl⟩
  | cons p rest ih =>
    obtain ⟨t, ht, howned, hpositions, hextended⟩ := @ih (s.synced (ids n) (ids (n + 1)) p) (n + 2)
      (owned.synced (minted.fresh n le_rfl) (minted.fresh (n + 1) n.le_succ)) minted.synced
    refine ⟨t, ?_, howned, hpositions, hextended.edgeSemantics, hextended.orgManageId⟩
    rw [syncAll, syncPositionMemory_eq]
    exact ht

end Sync

section Parts

variable {c : Surroundings} {change : OrgChange} {checks : List (Option OrgError)} {body : OrgOutcome}

/-- What is checked raises before anything is changed, or the body runs. -/
theorem guarded_cases : (∃ error, s.guarded checks body = (s, some error)) ∨
    (∀ check ∈ checks, check = none) ∧ s.guarded checks body = body := by
  unfold guarded
  cases hfirst : checks.findSome? id with
  | some error => exact Or.inl ⟨error, rfl⟩
  | none => exact Or.inr ⟨by simpa [List.findSome?_eq_none_iff] using hfirst, rfl⟩

/-- A record changes nothing. -/
theorem record_fst : (s.record c change).1 = s := by
  unfold record
  split <;> rfl

/-- A record goes through if the journal takes the change. -/
theorem record_of_quiet (quiet : ∀ change, c.sink change = none) : s.record c change = (s, none) := by
  unfold record
  rw [quiet]
  split <;> rfl

/-- The organisation that a record at the end leaves. -/
theorem andThen_record_fst (r : OrgOutcome) {change : OrgStructure → OrgChange} :
    (r.andThen fun s => s.record c (change s)).1 = r.1 := by
  obtain ⟨t, _ | error⟩ := r
  · exact record_fst
  · rfl

/-- An organisation that fills its registry. -/
theorem Owned.ensure_eq (owned : s.Owned) : s.ensureOwnEntitiesRegistered = s := by
  unfold ensureOwnEntitiesRegistered
  rw [Registry.fill_of_registered owned.registered]

/-- A grant raises and changes nothing, or it is added. -/
theorem Owned.grantCapability_cases (owned : s.Owned) {positionId entityId : String} {effect : GrantEffect}
    {priority : ℤ} :
    (∃ error, s.grantCapability positionId entityId effect priority = (s, some error)) ∨
      ∃ capabilities, s.grantCapability positionId entityId effect priority =
      ({ s with capabilities := capabilities }, none) := by
  unfold OrgStructure.grantCapability
  rw [owned.ensure_eq]
  unfold Authority.grantCapability
  split
  next error herror => exact Or.inl ⟨_, rfl⟩
  next authority hauthority =>
    split at hauthority
    · cases hauthority
    · obtain rfl := Except.ok.inj hauthority
      exact Or.inr ⟨_, rfl⟩

/-- The invariant where only grants and positions change. -/
theorem Owned.rewire (owned : s.Owned) {positions : List Position} {memberships : String → List String}
    {capabilities : String → List CapabilityGrant} (unique : (positions.map Position.positionId).Nodup) :
    Owned { s with positions := positions, memberships := memberships, capabilities := capabilities } :=
  ⟨unique, owned.registered, owned.manage, owned.memory, owned.apart⟩

/-- The entities after one was taken out. -/
theorem entities_dropMemoryEntity {positionId entityId id : String} :
    (s.dropMemoryEntity positionId entityId).entities.entity id =
    (if id = entityId ∧ id ≠ "" then none else s.entities.entity id) ∧
    (s.dropMemoryEntity positionId entityId).registry.entity id =
      if id = entityId ∧ id ≠ "" then none else s.registry.entity id := by
  unfold dropMemoryEntity
  split
  next hempty =>
    rw [if_neg fun h => h.2 (h.1.trans hempty), if_neg fun h => h.2 (h.1.trans hempty)]
    exact ⟨rfl, rfl⟩
  next hname =>
    dsimp only
    rw [Registry.entity_erase, Registry.entity_erase]
    by_cases hid : id = entityId
    · rw [if_pos hid, if_pos hid, if_pos ⟨hid, hid ▸ hname⟩, if_pos ⟨hid, hid ▸ hname⟩]
      exact ⟨rfl, rfl⟩
    · rw [if_neg hid, if_neg hid, if_neg fun h => hid h.1, if_neg fun h => hid h.1]
      exact ⟨rfl, rfl⟩

/-- What stays when a position is forgotten. -/
theorem same_forget {positionId : String} : (s.forget positionId).positions = s.positions ∧
    (s.forget positionId).edgeSemantics = s.edgeSemantics ∧ (s.forget positionId).orgManageId = s.orgManageId ∧
    (s.forget positionId).positionMemory = Function.update s.positionMemory positionId none := by
  have hdrop (s : OrgStructure) (id : String) : (s.dropMemoryEntity positionId id).positions = s.positions ∧
      (s.dropMemoryEntity positionId id).edgeSemantics = s.edgeSemantics ∧
      (s.dropMemoryEntity positionId id).orgManageId = s.orgManageId ∧
      (s.dropMemoryEntity positionId id).positionMemory = s.positionMemory := by
    unfold dropMemoryEntity
    split <;> exact ⟨rfl, rfl, rfl, rfl⟩
  unfold forget
  dsimp only
  simp only [hdrop, and_self]

/-- The entities after a position was forgotten. -/
theorem entities_forget {positionId id : String} :
    (s.forget positionId).entities.entity id =
      (if id ∈ s.memoryIds positionId ∧ id ≠ "" then none else s.entities.entity id) ∧
    (s.forget positionId).registry.entity id =
      if id ∈ s.memoryIds positionId ∧ id ≠ "" then none else s.registry.entity id := by
  have hids : id ∈ s.memoryIds positionId ∧ id ≠ "" ↔ (id = ((s.positionMemory positionId).getD ("", "")).2 ∧ id ≠ "") ∨
      id = ((s.positionMemory positionId).getD ("", "")).1 ∧ id ≠ "" := by
    unfold memoryIds
    cases s.positionMemory positionId with
    | none => simp
    | some entry => simp [or_comm, or_and_right]
  rw [if_congr hids rfl rfl, if_congr hids rfl rfl]
  unfold forget
  dsimp only
  rw [entities_dropMemoryEntity.1, entities_dropMemoryEntity.1, entities_dropMemoryEntity.2,
    entities_dropMemoryEntity.2]
  exact ⟨(ite_or _ _ _ _).symm, (ite_or _ _ _ _).symm⟩

/-- The invariant after a position was forgotten. -/
theorem Owned.forget (owned : s.Owned) (positionId : String) : (s.forget positionId).Owned := by
  obtain ⟨hpositions, -, hmanage, hmemory⟩ := @same_forget s positionId
  have hids (other : String) :
      (s.forget positionId).memoryIds other = if other = positionId then [] else s.memoryIds other := by
    unfold memoryIds
    rw [hmemory]
    by_cases hother : other = positionId
    · rw [hother, Function.update_self, if_pos rfl]
    · rw [Function.update_of_ne hother, if_neg hother]
  have hkept {id : String} (hid : id ∉ s.memoryIds positionId) (hknown : s.entities.entity id ≠ none) :
      (s.forget positionId).entities.entity id ≠ none := by
    rw [entities_forget.1, if_neg fun h => hid h.1]
    exact hknown
  constructor
  case unique => exact hpositions ▸ owned.unique
  case registered =>
    intro id hid
    rw [entities_forget.1] at hid
    rw [entities_forget.2]
    split at hid
    · exact absurd rfl hid
    next hother =>
      rw [if_neg hother]
      exact owned.registered id hid
  case manage =>
    rw [hmanage]
    exact hkept (fun hmem => (owned.memory positionId _ hmem).2 rfl) owned.manage
  case memory =>
    intro other id hid
    rw [hids] at hid
    split at hid
    · exact absurd hid List.not_mem_nil
    next hother =>
      obtain ⟨hknown, hne⟩ := owned.memory other id hid
      exact ⟨hkept (owned.apart other positionId hother id hid) hknown, hmanage ▸ hne⟩
  case apart =>
    intro first second hne id hid hid'
    rw [hids] at hid hid'
    split at hid
    · exact absurd hid List.not_mem_nil
    · split at hid'
      · exact absurd hid' List.not_mem_nil
      · exact owned.apart first second hne id hid hid'

end Parts

end OrgStructure

end MyTeam.Legacy
