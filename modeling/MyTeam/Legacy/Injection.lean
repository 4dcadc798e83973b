import MyTeam.Legacy.OrgRuns

/-!
# What an agent is given and what it may use

`authorize` and `injection_for` walk the same grants. A denial in one position of an agent decides against all its other
grants of the entity, but what is put into memory does not depend on effects. The two agree for an agent
exactly if none of its positions is denied an entity with something to put into memory.
-/

namespace MyTeam.Legacy

namespace Authority

variable (a : Authority) (agentId : String)

/-- What an agent is given is for entities that it may use, and it is given something for each of them that has
something to put into memory. -/
structure InjectsPermitted : Prop where
  sound : ∀ i ∈ a.injectionFor agentId, (a.authorize agentId i.entityId).allowed = true
  complete : ∀ entityId e, a.registry.entity entityId = some e → e.injection ≠ none →
    (a.authorize agentId entityId).allowed = true → ∃ i ∈ a.injectionFor agentId, i.entityId = entityId

/-- No position of the agent is denied an entity that has something to put into memory. -/
def NoneDenied : Prop :=
  ∀ positionId ∈ a.memberships agentId, ∀ g ∈ a.capabilities positionId, g.effect = .denied →
    ∀ e, a.registry.entity g.entityId = some e → e.injection = none

variable {a agentId}

/-- The agent is given something for each entity that it may use. -/
theorem injected_of_allowed {entityId : String} {e : RegisteredEntity} (he : a.registry.entity entityId = some e)
    (hinjection : e.injection ≠ none) (allowed : (a.authorize agentId entityId).allowed = true) :
    ∃ i ∈ a.injectionFor agentId, i.entityId = entityId := by
  obtain ⟨injection, hinjection⟩ := Option.ne_none_iff_exists'.mp hinjection
  obtain ⟨g, hg⟩ := List.exists_mem_of_ne_nil _ (allowed_iff.mp allowed).2.1
  obtain ⟨positionId, hposition, hmem, rfl⟩ := mem_grantsFor.mp hg
  exact ⟨_, mem_injectionFor.mpr ⟨positionId, hposition, g, hmem, injectionOf_of_registered he hinjection⟩, rfl⟩

/-- In any state what an agent is given agrees with what it may use exactly if none of its positions is denied an
entity that has something to put into memory. -/
theorem injects_permitted_iff (a : Authority) (agentId : String) :
    a.InjectsPermitted agentId ↔ a.NoneDenied agentId := by
  constructor
  · intro h positionId hposition g hg hdenied e he
    by_contra hinjection
    obtain ⟨injection, hinjection⟩ := Option.ne_none_iff_exists'.mp hinjection
    have hallowed := h.sound _
      (mem_injectionFor.mpr ⟨positionId, hposition, g, hg, injectionOf_of_registered he hinjection⟩)
    exact (allowed_iff.mp hallowed).2.2 g (mem_grantsFor.mpr ⟨positionId, hposition, hg, rfl⟩) hdenied
  · intro h
    refine ⟨fun i hi => ?_, fun entityId e he hinjection allowed => injected_of_allowed he hinjection allowed⟩
    obtain ⟨positionId, hposition, g, hg, hi⟩ := mem_injectionFor.mp hi
    obtain ⟨hname, e, injection, he, hinjection, -⟩ := injectionOf_eq_some hi
    have hgranted : g ∈ a.grantsFor agentId i.entityId := mem_grantsFor.mpr ⟨positionId, hposition, hg, hname.symm⟩
    refine allowed_iff.mpr ⟨by rw [hname, he]; rfl, List.ne_nil_of_mem hgranted, fun g' hg' hdenied => ?_⟩
    -- A denial would be of the same entity, in another position or the same one.
    obtain ⟨positionId', hposition', hmem', hname'⟩ := mem_grantsFor.mp hg'
    have hnone := h positionId' hposition' g' hmem' hdenied e (by rw [hname', hname, he])
    rw [hinjection] at hnone
    cases hnone

end Authority

namespace OrgStructure

/-- An entity with a text for the memory of those who may use it. -/
def manual : RegisteredEntity :=
  { entityId := "manual", deviceId := "wiki", kind := .data, label := "manual",
    injection := some { content := "How to deploy.", sourceTag := "[SKILL_INSTRUCTION]" } }

/-- An agent is given what is denied to it: a device is accepted, and its entity is denied to the position of an
agent. -/
theorem denied_is_injected :
    ∃ s : OrgStructure, Reachable (fun _ _ _ => True) s ∧ (s.authorize "bob" "manual").allowed = false ∧
    (s.injectionFor "bob").map MemoryInjection.entityId = ["manual"] := by
  have hempty : (emptyOrg 'x').Minted (quietCall 'y').ids 0 := minted_emptyOrg (by decide)
  have haccepted := @Reachable.perform (fun _ _ _ => True) _ (quietCall 'y') (.acceptDevice [manual])
    (reachable_emptyOrg 'x') hempty trivial
  have hmember := Reachable.perform (quietCall 'y') (.grantMembership "bob" "guests") haccepted
    ⟨hempty.injective, hempty.fresh⟩ trivial
  exact ⟨_, .perform (quietCall 'y') (.grantCapability "guests" "manual" .denied 5) hmember
    ⟨hempty.injective, hempty.fresh⟩ trivial,
    by decide +kernel, by decide +kernel⟩

end OrgStructure

end MyTeam.Legacy
