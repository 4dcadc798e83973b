import MyTeam.Legacy.OrgRuns

/-!
# The replacement of an organisation

A candidate takes over the registry, the memberships and the grants. Grants of the old management become grants of its
own, and each position gets new entities for its memory. The grants of any other entity are the same, grant by
grant, so that decisions are.
-/

namespace MyTeam.Legacy

namespace OrgStructure

open Positions

/-- The contents that a position gets for its memory. -/
def memoryContents (s : OrgStructure) (positionId : String) : List (String × String) :=
  (((s.capabilities positionId).filter fun g => g.entityId ∈ s.memoryIds positionId).filterMap
    (s.injectionOf positionId)).map fun i => (i.content, i.sourceTag)

/-- A position gets its description and its relations, as they are and each once. -/
def Current (s : OrgStructure) (p : Position) : Prop :=
  s.memoryContents p.positionId = [(p.jd, "[POSITION_JD]"), (s.relationsContent p, "[ORG_EDGE]")]

/-- A candidate none of whose entities the old organisation knows, and ids that are new to both. -/
structure Handover (old new : OrgStructure) (ids : ℕ → String) : Prop where
  team : new.teamId = old.teamId
  registered : ∀ id, new.entities.entity id ≠ none → old.registry.entity id = none
  granted : ∀ id, new.entities.entity id ≠ none → ∀ positionId, ∀ g ∈ old.capabilities positionId, g.entityId ≠ id
  minted : new.Minted ids 0
  unregistered : ∀ n, old.registry.entity (ids n) = none
  ungranted : ∀ n positionId, ∀ g ∈ old.capabilities positionId, g.entityId ≠ ids n

/-- The authority of an organisation is preserved by another one: decisions about all entities that neither of them
has for its management or for the memory of positions, the agents that manage it, and what positions get for their
memory. -/
structure Preserves (old new : OrgStructure) : Prop where
  effect : ∀ agentId entityId,
    (∀ positionId, entityId ∉ old.memoryIds positionId ∧ entityId ∉ new.memoryIds positionId) →
    entityId ≠ old.orgManageId → entityId ≠ new.orgManageId →
    (new.authorize agentId entityId).effect = (old.authorize agentId entityId).effect
  manage : ∀ agentId, (new.authorize agentId new.orgManageId).allowed = (old.authorize agentId old.orgManageId).allowed
  positions : new.positions = old.positions
  current : ∀ p ∈ old.positions, new.Current p
  same : ∀ p ∈ old.positions, old.Current p → new.memoryContents p.positionId = old.memoryContents p.positionId
  replaced : ∀ p ∈ old.positions, ∀ g ∈ new.capabilities p.positionId, g.entityId ∉ old.memoryIds p.positionId

/-- What the loop over positions does that are synced. -/
structure SyncedAll (s t : OrgStructure) (ids : ℕ → String) (n : ℕ) (positions : List Position) : Prop where
  memberships : t.memberships = s.memberships
  kept : t.positions = s.positions
  orgManageId : t.orgManageId = s.orgManageId
  registry : ∀ id, (∀ m ≥ n, id ≠ ids m) → t.registry.entity id = s.registry.entity id
  others : ∀ positionId ∉ positions.map Position.positionId,
    t.capabilities positionId = s.capabilities positionId ∧ t.positionMemory positionId = s.positionMemory positionId
  synced : ∀ p ∈ positions, ∃ m ≥ n, t.positionMemory p.positionId = some (ids m, ids (m + 1)) ∧
    t.capabilities p.positionId = s.capabilities p.positionId ++
      [⟨p.positionId, ids m, .allowed, orgMemoryPriority⟩, ⟨p.positionId, ids (m + 1), .allowed, orgMemoryPriority⟩] ∧
    t.registry.entity (ids m) = some (s.jdEntity (ids m) p) ∧
    t.registry.entity (ids (m + 1)) = some (s.edgesEntity (ids (m + 1)) p)

variable {s t old new : OrgStructure} {ids : ℕ → String} {n : ℕ} {positions : List Position} {p : Position}
  {jd edges id : String}

section Sync

/-- The registry after the memory of a position was synced. -/
theorem registry_synced (owned : s.Owned) : (s.synced jd edges p).registry.entity id =
    if id = edges then some (s.edgesEntity edges p) else if id = jd then some (s.jdEntity jd p)
      else s.registry.entity id := by
  have hadd (r : Registry) : ((r.add (s.jdEntity jd p)).add (s.edgesEntity edges p)).entity id =
      if id = edges then some (s.edgesEntity edges p) else if id = jd then some (s.jdEntity jd p) else r.entity id := by
    rw [Registry.entity_add, Registry.entity_add]
    rfl
  show (Registry.entity _ id).or (Registry.entity _ id) = _
  rw [hadd, hadd]
  split
  · rfl
  · split
    · rfl
    · cases hregistry : s.registry.entity id with
      | some e => rfl
      | none =>
        rw [Option.none_or]
        by_contra hentity
        exact owned.registered id hentity hregistry

/-- What the loop does. -/
theorem syncedAll (owned : s.Owned) (minted : s.Minted ids n) (unique : (positions.map Position.positionId).Nodup) :
    ∃ t, syncAll ids s positions n = (t, none) ∧ t.Owned ∧ SyncedAll s t ids n positions := by
  induction positions generalizing s n with
  | nil => exact ⟨s, rfl, owned, rfl, rfl, rfl, fun _ _ => rfl, fun _ _ => ⟨rfl, rfl⟩,
      fun p hp => absurd hp List.not_mem_nil⟩
  | cons p rest ih =>
    obtain ⟨hnew, hrest⟩ := List.nodup_cons.mp unique
    obtain ⟨t, ht, howned, hsynced⟩ := @ih (s.synced (ids n) (ids (n + 1)) p) (n + 2)
      (owned.synced (minted.fresh n le_rfl) (minted.fresh (n + 1) n.le_succ)) minted.synced hrest
    refine ⟨t, ?_, howned, hsynced.memberships, hsynced.kept, hsynced.orgManageId, fun id hid => ?_, fun id hid => ?_,
      fun q hq => ?_⟩
    · rw [syncAll, syncPositionMemory_eq]
      exact ht
    · rw [hsynced.registry id fun m hm => hid m (by omega), registry_synced owned, if_neg (hid (n + 1) (by omega)),
        if_neg (hid n le_rfl)]
    · rw [List.map_cons, List.mem_cons, not_or] at hid
      obtain ⟨hcapabilities, hmemory⟩ := hsynced.others id hid.2
      exact ⟨hcapabilities.trans (Function.update_of_ne hid.1 _ _), hmemory.trans (Function.update_of_ne hid.1 _ _)⟩
    · obtain rfl | hq := List.mem_cons.mp hq
      · obtain ⟨hcapabilities, hmemory⟩ := hsynced.others q.positionId hnew
        have hapart {k : ℕ} (hk : k < n + 2) : ∀ m ≥ n + 2, ids k ≠ ids m := fun m hm heq =>
          absurd (minted.injective heq) (by omega)
        refine ⟨n, le_rfl, hmemory.trans (Function.update_self _ _ _),
          hcapabilities.trans (Function.update_self _ _ _), ?_, ?_⟩
        · rw [hsynced.registry _ (hapart (by omega)), registry_synced owned,
            if_neg fun heq => absurd (minted.injective heq) (by omega), if_pos rfl]
        · rw [hsynced.registry _ (hapart (by omega)), registry_synced owned, if_pos rfl]
      · obtain ⟨m, hm, hmemory, hcapabilities, hjd, hedges⟩ := hsynced.synced q hq
        have hne : q.positionId ≠ p.positionId := fun heq => hnew (heq ▸ List.mem_map_of_mem hq)
        refine ⟨m, by omega, hmemory, hcapabilities.trans ?_, hjd, hedges⟩
        exact congrArg (· ++ _) (Function.update_of_ne hne _ _)

end Sync

section Grants

/-- The candidate before positions are synced. -/
def takenOver (old new : OrgStructure) : OrgStructure :=
  ((new.withAuthority { new.toAuthority with
    registry := old.registry, memberships := old.memberships, capabilities :=
      old.capabilities }).ensureOwnEntitiesRegistered).takeOver
      old

/-- The grants that are taken over. -/
theorem capabilities_takenOver {positionId : String} : (takenOver old new).capabilities positionId =
    (old.capabilities positionId).filter fun g => g.entityId ∉ old.memoryIds positionId := by
  unfold takenOver takeOver memoryIds
  cases hmemory : old.positionMemory positionId with
  | none =>
    simp only [hmemory, List.not_mem_nil, not_false_eq_true, decide_true, List.filter_true]
    rfl
  | some entry =>
    simp only [hmemory]
    rw [List.filter_filter]
    refine List.filter_congr fun g _ => ?_
    simp [Bool.and_comm]

/-- What a candidate is after a replacement. -/
structure Replaced (old new : OrgStructure) (ids : ℕ → String) (u t : OrgStructure) : Prop where
  owned : u.Owned
  synced : SyncedAll (takenOver old new) u ids 0 old.positions
  redirected : t = u.redirectGrants old.orgManageId

/-- The replacement by the owner goes through. -/
theorem exists_replaced {c : Surroundings} (owned : old.Owned) (owned' : new.Owned)
    (handover : Handover old new c.ids) :
    ∃ u t, old.replace new c old.ownerAgentId = (t, none) ∧ Replaced old new c.ids u t := by
  have htaken : (takenOver old new).Owned :=
    { unique := owned.unique
      registered := fun id hid => Registry.entity_fill_ne_none.mpr (Or.inr hid)
      manage := owned'.manage
      memory := fun _ id hid => absurd hid List.not_mem_nil
      apart := fun _ _ _ id hid => absurd hid List.not_mem_nil }
  have hminted : (takenOver old new).Minted c.ids 0 := ⟨handover.minted.injective, handover.minted.fresh⟩
  obtain ⟨u, hu, howned, hsynced⟩ := syncedAll htaken hminted owned.unique
  refine ⟨u, u.redirectGrants old.orgManageId, ?_, howned, hsynced, rfl⟩
  unfold replace
  rw [Authority.replace_eq_ok.mpr ⟨rfl, handover.team, rfl⟩]
  show OrgOutcome.andThen (syncAll c.ids (takenOver old new) old.positions 0) _ = _
  rw [hu]
  rfl

variable {u : OrgStructure} {positionId entityId : String}

/-- The grants of a position before they are redirected: those that are taken over, and those for its memory. -/
theorem Replaced.capabilities (h : Replaced old new ids u t) (positionId : String) :
    ∃ extra, u.capabilities positionId =
    ((old.capabilities positionId).filter fun g => g.entityId ∉ old.memoryIds positionId) ++ extra ∧
      ∀ g ∈ extra, g.entityId ∈ t.memoryIds positionId ∧ ∃ m, g.entityId = ids m := by
  have htaken : (takenOver old new).capabilities positionId = _ := capabilities_takenOver
  rw [← htaken]
  by_cases hposition : positionId ∈ old.positions.map Position.positionId
  · obtain ⟨p, hp, rfl⟩ := List.mem_map.mp hposition
    obtain ⟨m, -, hmemory, hcapabilities, -⟩ := h.synced.synced p hp
    refine ⟨_, hcapabilities, fun g hg => ?_⟩
    have hids : t.memoryIds p.positionId = [ids m, ids (m + 1)] := by
      rw [h.redirected]
      show memoryIds u p.positionId = _
      unfold memoryIds
      rw [hmemory]
    rw [hids]
    obtain rfl | hg := List.mem_cons.mp hg
    · exact ⟨List.mem_cons_self, m, rfl⟩
    · obtain rfl := List.mem_singleton.mp hg
      exact ⟨List.mem_cons_of_mem _ List.mem_cons_self, m + 1, rfl⟩
  · exact ⟨[], by rw [(h.synced.others positionId hposition).1, List.append_nil],
      fun g hg => absurd hg List.not_mem_nil⟩

/-- The grants of a position after they are redirected. -/
theorem Replaced.capabilities_eq (h : Replaced old new ids u t) : t.capabilities positionId =
    (u.capabilities positionId).map (CapabilityGrant.redirect old.orgManageId t.orgManageId) := by
  rw [h.redirected]
  rfl

/-- The management of a candidate. -/
theorem Replaced.orgManageId (h : Replaced old new ids u t) : t.orgManageId = new.orgManageId := by
  rw [h.redirected]
  exact h.synced.orgManageId

/-- A grant that is redirected keeps its effect. -/
theorem effect_redirect {old new : String} {g : CapabilityGrant} : (g.redirect old new).effect = g.effect := by
  unfold CapabilityGrant.redirect
  split <;> rfl

/-- The entity of a grant that is redirected. -/
theorem entityId_redirect {old new : String} {g : CapabilityGrant} :
    (g.redirect old new).entityId = if g.entityId = old then new else g.entityId := by
  unfold CapabilityGrant.redirect
  split <;> rfl

/-- The grants of one entity, where those for the memory of the position are of others. -/
theorem Replaced.filter_capabilities (h : Replaced old new ids u t) (hmemory : entityId ∉ old.memoryIds positionId)
    (hother : ∀ g : CapabilityGrant, g.entityId ∈ t.memoryIds positionId → (∃ m, g.entityId = ids m) →
      g.entityId ≠ entityId) :
    ((u.capabilities positionId).filter fun g => g.entityId = entityId) =
      (old.capabilities positionId).filter fun g => g.entityId = entityId := by
  obtain ⟨extra, hextra, hids⟩ := h.capabilities positionId
  have hnone : (extra.filter fun g => g.entityId = entityId) = [] :=
    List.filter_eq_nil_iff.mpr fun g hg => by simpa using hother g (hids g hg).1 (hids g hg).2
  rw [hextra, List.filter_append, hnone, List.append_nil, List.filter_filter]
  refine List.filter_congr fun g _ => ?_
  by_cases hg : g.entityId = entityId
  · simp [hg, hmemory]
  · simp [hg]

/-- The grants of an entity that neither organisation has for its management or its memory. -/
theorem Replaced.grants_of_entity (h : Replaced old new ids u t)
    (hmemory : entityId ∉ old.memoryIds positionId ∧ entityId ∉ t.memoryIds positionId)
    (hold : entityId ≠ old.orgManageId) (hnew : entityId ≠ t.orgManageId) :
    ((t.capabilities positionId).filter fun g => g.entityId = entityId).map CapabilityGrant.effect =
      ((old.capabilities positionId).filter fun g => g.entityId = entityId).map CapabilityGrant.effect := by
  have hsame : (fun g : CapabilityGrant => decide (g.entityId = entityId)) ∘ CapabilityGrant.redirect old.orgManageId
      t.orgManageId =
      fun g => decide (g.entityId = entityId) := by
    funext g
    rw [Function.comp_apply, entityId_redirect, decide_eq_decide]
    split
    next hg => exact iff_of_false (Ne.symm hnew) fun heq => hold (heq.symm.trans hg)
    · rfl
  rw [h.capabilities_eq, List.filter_map, hsame,
    h.filter_capabilities hmemory.1 fun g hg _ heq => hmemory.2 (heq ▸ hg), List.map_map]
  exact List.map_congr_left fun g _ => effect_redirect

/-- The grants of the management. -/
theorem Replaced.grants_of_manage (h : Replaced old new ids u t) (owned : old.Owned) (owned' : new.Owned)
    (handover : Handover old new ids) :
    ((t.capabilities positionId).filter fun g => g.entityId = t.orgManageId).map CapabilityGrant.effect =
      ((old.capabilities positionId).filter fun g => g.entityId = old.orgManageId).map CapabilityGrant.effect := by
  have hold : old.registry.entity old.orgManageId ≠ none := owned.registered _ owned.manage
  have hmemory : old.orgManageId ∉ old.memoryIds positionId := fun hmem => (owned.memory positionId _ hmem).2 rfl
  obtain ⟨extra, hextra, hids⟩ := h.capabilities positionId
  have hsame : ∀ g ∈ u.capabilities positionId,
      ((fun g : CapabilityGrant => decide (g.entityId = t.orgManageId)) ∘ CapabilityGrant.redirect old.orgManageId
        t.orgManageId) g =
        decide (g.entityId = old.orgManageId) := by
    intro g hg
    rw [Function.comp_apply, entityId_redirect, decide_eq_decide]
    split
    next heq => exact iff_of_true rfl heq
    next hne =>
      refine iff_of_false (fun heq => ?_) hne
      rw [h.orgManageId] at heq
      rw [hextra] at hg
      obtain hg | hg := List.mem_append.mp hg
      · exact handover.granted _ owned'.manage positionId g (List.mem_of_mem_filter hg) heq
      · obtain ⟨m, hm⟩ := (hids g hg).2
        exact owned'.manage (heq ▸ hm ▸ handover.minted.fresh m (Nat.zero_le m))
  rw [h.capabilities_eq, List.filter_map, List.filter_congr hsame, h.filter_capabilities hmemory, List.map_map]
  · exact List.map_congr_left fun g _ => effect_redirect
  · rintro g - ⟨m, hm⟩ heq
    exact hold (heq ▸ hm ▸ handover.unregistered m)

end Grants

section Preservation

variable {u : OrgStructure} {positionId entityId agentId : String}

/-- The relations of a position are rendered from the positions. -/
theorem relationsContent_congr (h : s.positions = t.positions) : s.relationsContent p = t.relationsContent p := by
  unfold relationsContent
  rw [h]

/-- The effects of the grants of an agent, from those of each position. -/
theorem Replaced.grantsFor (h : Replaced old new ids u t) {e f : String} (grants : ∀ positionId,
      ((t.capabilities positionId).filter fun g => g.entityId = e).map CapabilityGrant.effect =
        ((old.capabilities positionId).filter fun g => g.entityId = f).map CapabilityGrant.effect) :
    (t.grantsFor agentId e).map CapabilityGrant.effect = (old.grantsFor agentId f).map CapabilityGrant.effect := by
  have hmemberships : t.memberships = old.memberships := by
    rw [h.redirected]
    exact h.synced.memberships
  unfold Authority.grantsFor
  rw [List.map_flatMap, List.map_flatMap, hmemberships]
  simp only [grants]

/-- What the old organisation granted is registered as before. -/
theorem Replaced.registry_of_granted (h : Replaced old new ids u t) (handover : Handover old new ids)
    {g : CapabilityGrant}
    (hg : g ∈ old.capabilities positionId) : t.registry.entity g.entityId = old.registry.entity g.entityId := by
  have hunknown : new.entities.entity g.entityId = none := by
    by_contra hknown
    exact handover.granted _ hknown positionId g hg rfl
  have hregistry : t.registry = u.registry := by
    rw [h.redirected]
    rfl
  rw [hregistry, h.synced.registry _ fun m _ => handover.ungranted m positionId g hg]
  show (old.registry.entity g.entityId).or (new.entities.entity g.entityId) = _
  rw [hunknown, Option.or_none]

/-- Decisions about other entities are the same. -/
theorem Replaced.effect (h : Replaced old new ids u t) (handover : Handover old new ids)
    (hmemory : ∀ positionId, entityId ∉ old.memoryIds positionId ∧ entityId ∉ t.memoryIds positionId)
    (hold : entityId ≠ old.orgManageId) (hnew : entityId ≠ t.orgManageId) :
    (t.authorize agentId entityId).effect = (old.authorize agentId entityId).effect := by
  refine Authority.effect_congr (h.grantsFor fun positionId => h.grants_of_entity (hmemory positionId) hold hnew)
    fun hgranted => ?_
  obtain ⟨g, hg⟩ := List.exists_mem_of_ne_nil _ hgranted
  obtain ⟨positionId, -, hmem, rfl⟩ := Authority.mem_grantsFor.mp hg
  rw [h.registry_of_granted handover hmem]

/-- The agents that manage the new organisation are those that managed the old one. -/
theorem Replaced.manage (h : Replaced old new ids u t) (owned : old.Owned) (owned' : new.Owned)
    (handover : Handover old new ids) :
    (t.authorize agentId t.orgManageId).allowed = (old.authorize agentId old.orgManageId).allowed := by
  have hregistered : t.registry.entity t.orgManageId ≠ none := by
    rw [h.redirected]
    exact h.owned.registered _ h.owned.manage
  have heffect : (t.authorize agentId t.orgManageId).effect = (old.authorize agentId old.orgManageId).effect := by
    refine Authority.effect_congr (h.grantsFor fun positionId => h.grants_of_manage owned owned' handover) fun _ => ?_
    rw [Option.isNone_iff_eq_none, Option.isNone_iff_eq_none]
    exact iff_of_false hregistered (owned.registered _ owned.manage)
  unfold Decision.allowed
  rw [heffect]

/-- The entities of the grants that a position has after a replacement, but for those for its memory. -/
theorem Replaced.entityId_of_taken (owned' : new.Owned) (handover : Handover old new ids) {g : CapabilityGrant}
    (hg : g ∈ (takenOver old new).capabilities positionId) (hnew : t.orgManageId = new.orgManageId) :
    (∀ m, (g.redirect old.orgManageId t.orgManageId).entityId ≠ ids m) := by
  intro m
  rw [capabilities_takenOver] at hg
  rw [entityId_redirect, hnew]
  split
  · exact fun heq => owned'.manage (heq ▸ handover.minted.fresh m (Nat.zero_le m))
  · exact handover.ungranted m positionId g (List.mem_of_mem_filter hg)

/-- A position gets its description and its relations, each once. -/
theorem Replaced.current (h : Replaced old new ids u t) (owned : old.Owned) (owned' : new.Owned)
    (handover : Handover old new ids) (hp : p ∈ old.positions) : t.Current p := by
  obtain ⟨m, -, hmemory, hcapabilities, hjd, hedges⟩ := h.synced.synced p hp
  have hids : t.memoryIds p.positionId = [ids m, ids (m + 1)] := by
    rw [h.redirected]
    show u.memoryIds p.positionId = _
    unfold memoryIds
    rw [hmemory]
  have hkept (k : ℕ) (g : CapabilityGrant) (hg : g.entityId = ids k) :
      g.redirect old.orgManageId t.orgManageId = g := by
    unfold CapabilityGrant.redirect
    refine if_neg fun heq => owned.registered _ owned.manage ?_
    rw [← heq, hg]
    exact handover.unregistered k
  -- Of the grants of the position, only the last two are for its memory.
  have hgrants : ((t.capabilities p.positionId).filter fun g => g.entityId ∈ t.memoryIds p.positionId) =
      [⟨p.positionId, ids m, .allowed, orgMemoryPriority⟩,
        ⟨p.positionId, ids (m + 1), .allowed, orgMemoryPriority⟩] := by
    have htaken : (((takenOver old new).capabilities p.positionId).map
        (CapabilityGrant.redirect old.orgManageId t.orgManageId)).filter
          (fun g => g.entityId ∈ [ids m, ids (m + 1)]) = [] := by
      refine List.filter_eq_nil_iff.mpr fun g hg => ?_
      obtain ⟨taken, htaken, rfl⟩ := List.mem_map.mp hg
      have hapart := Replaced.entityId_of_taken owned' handover htaken h.orgManageId
      simp [hapart]
    rw [hids, h.capabilities_eq, hcapabilities, List.map_append, List.filter_append, htaken, List.nil_append]
    simp [hkept m, hkept (m + 1)]
  have hregistry : t.registry = u.registry := by
    rw [h.redirected]
    rfl
  have hpositions : (takenOver old new).positions = t.positions := by
    rw [h.redirected]
    exact h.synced.kept.symm
  have hinjectionOf {id : String} {e : RegisteredEntity} {injection : InjectionDecl}
      (he : u.registry.entity id = some e)
      (hinjection : e.injection = some injection) :
      t.injectionOf p.positionId ⟨p.positionId, id, .allowed, orgMemoryPriority⟩ =
        some ⟨id, e.deviceId, injection.content, injection.sourceTag, p.positionId, orgMemoryPriority⟩ :=
    Authority.injectionOf_of_registered (hregistry ▸ he) hinjection
  unfold Current memoryContents
  rw [hgrants, ← relationsContent_congr hpositions, List.filterMap_cons_some (hinjectionOf hjd rfl),
    List.filterMap_cons_some (hinjectionOf hedges rfl)]
  rfl

/-- No position is granted the memory entities that it had before. -/
theorem Replaced.forgotten (h : Replaced old new ids u t) (owned : old.Owned) (owned' : new.Owned)
    (handover : Handover old new ids) {g : CapabilityGrant} (hg : g ∈ t.capabilities positionId) :
    g.entityId ∉ old.memoryIds positionId := by
  have hregistered {id : String} (hid : old.registry.entity id = none) : id ∉ old.memoryIds positionId := fun hmem =>
    owned.registered id (owned.memory positionId id hmem).1 hid
  obtain ⟨extra, hextra, hids⟩ := h.capabilities positionId
  rw [h.capabilities_eq] at hg
  obtain ⟨taken, htaken, rfl⟩ := List.mem_map.mp hg
  rw [entityId_redirect, h.orgManageId]
  split
  · exact hregistered (handover.registered _ owned'.manage)
  · rw [hextra] at htaken
    obtain htaken | htaken := List.mem_append.mp htaken
    · simpa using (List.mem_filter.mp htaken).2
    · obtain ⟨m, hm⟩ := (hids taken htaken).2
      exact hm ▸ hregistered (handover.unregistered m)

end Preservation

/-- A replacement by the owner preserves authority: for every organisation that is reached by any operations and every
candidate that it does not know. -/
theorem preserves_of_replace {any : OrgStructure → Surroundings → OrgCommand → Prop} {c : Surroundings}
    (h : Reachable any old)
    (h' : Reachable any new) (handover : Handover old new c.ids) :
    ∃ t, old.replace new c old.ownerAgentId = (t, none) ∧ t.orgManageId = new.orgManageId ∧ Preserves old t := by
  obtain ⟨u, t, ht, hreplaced⟩ := exists_replaced h.owned h'.owned handover
  have hpositions : t.positions = old.positions := by
    rw [hreplaced.redirected]
    exact hreplaced.synced.kept
  have hcurrent (p : Position) (hp : p ∈ old.positions) : t.Current p := hreplaced.current h.owned h'.owned handover hp
  refine ⟨t, ht, hreplaced.orgManageId, ?_⟩
  constructor
  case effect => exact fun agentId entityId => hreplaced.effect handover
  case manage => exact fun agentId => hreplaced.manage h.owned h'.owned handover
  case positions => exact hpositions
  case current => exact hcurrent
  case same =>
    intro p hp hold
    rw [hold, hcurrent p hp, relationsContent_congr hpositions]
  case replaced => exact fun p hp g hg => hreplaced.forgotten h.owned h'.owned handover hg

section Sample

/-- An organisation that its owner manages, in a position that is granted the management. -/
def managedOrg : OrgStructure :=
  { emptyOrg 'x' with
    memberships := Function.update (fun _ => []) "owner" ["root"]
    capabilities := Function.update (fun _ => []) "root" [⟨"root", markedId 'x' 0, .allowed, orgMemoryPriority⟩] }

/-- It is reached by two grants. -/
theorem reachable_managedOrg : Reachable (fun _ _ _ => True) managedOrg := by
  have hmember : Reachable (fun _ _ _ => True)
      ((emptyOrg 'x').withAuthority ((emptyOrg 'x').grantMembership "owner" "root")) :=
    .perform (quietCall 'y') (.grantMembership "owner" "root") (reachable_emptyOrg 'x') (minted_emptyOrg (by decide))
      trivial
  have hempty : (emptyOrg 'x').Minted (quietCall 'y').ids 0 := minted_emptyOrg (by decide)
  have hminted : ((emptyOrg 'x').withAuthority ((emptyOrg 'x').grantMembership "owner" "root")).Minted
      (quietCall 'y').ids 0 :=
    ⟨hempty.injective, hempty.fresh⟩
  have hgranted := Reachable.perform (quietCall 'y')
    (.grantCapability "root" (markedId 'x' 0) .allowed orgMemoryPriority)
    hmember hminted trivial
  have howned := hmember.owned
  convert hgranted using 1
  have hmanage : ((emptyOrg 'x').withAuthority ((emptyOrg 'x').grantMembership "owner" "root")).registry.entity
      (markedId 'x' 0) ≠
      none := howned.registered _ howned.manage
  show managedOrg = (grantCapability _ _ _ _ _).1
  rw [grantCapability_of_registered hmanage, Registry.fill_of_registered howned.registered]
  rfl

/-- An organisation that its owner manages is replaced. -/
theorem preserves_of_replace_managed :
    ∃ t, managedOrg.replace (emptyOrg 'z') (quietCall 'w') managedOrg.ownerAgentId = (t, none) ∧
    t.orgManageId = (emptyOrg 'z').orgManageId ∧ Preserves managedOrg t := by
  have hregistry {mark : Char} (hmark : 'x' ≠ mark) (n : ℕ) : managedOrg.registry.entity (markedId mark n) = none := by
    by_contra hknown
    obtain ⟨m, hm⟩ := @entities_emptyOrg 'x' _ hknown
    exact markedId_ne hmark m n hm.symm
  have hgranted {positionId : String} {g : CapabilityGrant} (hg : g ∈ managedOrg.capabilities positionId) :
      g.entityId = markedId 'x' 0 := by
    have hg : g ∈ Function.update (fun _ => []) "root" [⟨"root", markedId 'x' 0, .allowed, orgMemoryPriority⟩]
        positionId := hg
    rw [Function.update_apply] at hg
    split at hg
    · rw [List.mem_singleton.mp hg]
    · exact absurd hg List.not_mem_nil
  refine preserves_of_replace reachable_managedOrg (reachable_emptyOrg 'z') ?_
  constructor
  case team => rfl
  case registered =>
    intro id hid
    obtain ⟨n, rfl⟩ := entities_emptyOrg hid
    exact hregistry (by decide) n
  case granted =>
    intro id hid positionId g hg
    obtain ⟨n, rfl⟩ := entities_emptyOrg hid
    exact hgranted hg ▸ markedId_ne (by decide) 0 n
  case minted => exact minted_emptyOrg (by decide)
  case unregistered => exact fun n => hregistry (by decide) n
  case ungranted => exact fun n positionId g hg => hgranted hg ▸ markedId_ne (by decide) 0 n

/-- The agent that managed the old organisation is allowed the management of the new one, which was denied to it
before. If the candidate was a device of the old organisation, another agent may manage the new one. And the
relations of a position are rendered anew. -/
theorem management_redirected :
    (∃ old new t : OrgStructure, ∃ c : Surroundings, Reachable (fun _ _ _ => True) old ∧
      Reachable (fun _ _ _ => True) new ∧
      new.teamId = old.teamId ∧ (old.replace new c old.ownerAgentId).2 = none ∧
      (old.replace new c old.ownerAgentId).1 = t ∧
      new.orgManageId ≠ old.orgManageId ∧ (∀ p, new.orgManageId ∉ old.memoryIds p ∧ new.orgManageId ∉ t.memoryIds p) ∧
      (t.authorize "owner" new.orgManageId).effect = .allowed ∧
      (old.authorize "owner" new.orgManageId).effect = .denied) ∧
    (∃ old new t : OrgStructure, ∃ c : Surroundings, Reachable (fun _ _ _ => True) old ∧
      Reachable (fun _ _ _ => True) new ∧
      new.teamId = old.teamId ∧ (old.replace new c old.ownerAgentId).2 = none ∧
      (old.replace new c old.ownerAgentId).1 = t ∧
      (t.authorize "bob" t.orgManageId).allowed = true ∧ (old.authorize "bob" old.orgManageId).allowed = false) ∧
    ∃ old new t : OrgStructure, ∃ c : Surroundings, Reachable (fun _ _ _ => True) old ∧
    Reachable (fun _ _ _ => True) new ∧
      new.teamId = old.teamId ∧ (old.replace new c old.ownerAgentId).2 = none ∧
      (old.replace new c old.ownerAgentId).1 = t ∧
      old.memoryContents "11111111-1111-4111-8111-111111111111" = [("", "[POSITION_JD]"), ("", "[ORG_EDGE]")] ∧
      t.memoryContents "11111111-1111-4111-8111-111111111111" = [("", "[POSITION_JD]"), ("下属岗位：B", "[ORG_EDGE]")] := by
  have hempty : (emptyOrg 'x').Minted (quietCall 'y').ids 0 := minted_emptyOrg (by decide)
  refine ⟨⟨managedOrg, emptyOrg 'z', _, quietCall 'w', reachable_managedOrg, reachable_emptyOrg 'z',
    rfl, by decide +kernel, rfl,
    by decide +kernel, fun p => ⟨List.not_mem_nil, List.not_mem_nil⟩, by decide +kernel, by decide +kernel⟩, ?_, ?_⟩
  · have haccepted := Reachable.perform (quietCall 'y') (.acceptDevice [manageEntity "org" (markedId 'z' 0)])
      reachable_managedOrg
      ⟨hempty.injective, hempty.fresh⟩ trivial
    have hmember := Reachable.perform (quietCall 'y') (.grantMembership "bob" "guests") haccepted
      ⟨hempty.injective, hempty.fresh⟩ trivial
    exact ⟨_, emptyOrg 'z', _, quietCall 'w', .perform (quietCall 'y')
      (.grantCapability "guests" (markedId 'z' 0) .allowed orgMemoryPriority) hmember ⟨hempty.injective, hempty.fresh⟩
        trivial,
      reachable_emptyOrg 'z', rfl, by decide +kernel, rfl, by decide +kernel, by decide +kernel⟩
  · exact ⟨_, emptyOrg 'z', _, quietCall 'w', .perform (quietCall 'y') (.bootstrap managerAndSubordinate none none)
      (reachable_emptyOrg 'x') hempty trivial, reachable_emptyOrg 'z', rfl, by decide +kernel, rfl, by decide +kernel,
      by decide +kernel⟩

end Sample

end OrgStructure

end MyTeam.Legacy
