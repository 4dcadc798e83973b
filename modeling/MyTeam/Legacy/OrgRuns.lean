import MyTeam.Legacy.OrgMemory

/-!
# The organisation in any run

An organisation is reached from its construction by the operations on positions, edges and grants, and by
replacements, where a candidate takes over from another organisation. The edits of edges keep both ends in
step, and what they leave is validated. A whole position is not compared with the positions that it names, so that
positions agree only if those that are installed do.
-/

namespace MyTeam.Legacy

open MyTeam.Py MyTeam.Order Relation

/-- The operations on one organisation. -/
inductive OrgCommand
  | acceptDevice (device : List RegisteredEntity)
  | grantMembership (agentId positionId : String)
  | revokeMembership (agentId positionId : String)
  | grantCapability (positionId entityId : String) (effect : GrantEffect) (priority : ℤ)
  | revokeCapability (positionId entityId : String)
  | bootstrap (positions : List Position) (rootAgentId rootPositionId : Option String)
  | addPosition (position : Position) (byAgentId : String)
  | removePosition (positionId byAgentId : String)
  | setJd (positionId jd byAgentId : String)
  | setSuperior (positionId : String) (superiorId : Option String) (byAgentId : String)
  | addSubordinate (managerId subordinateId byAgentId : String)
  | removeSubordinate (managerId subordinateId byAgentId : String)
  | addCollaborator (positionId otherId byAgentId : String)
  | removeCollaborator (positionId otherId byAgentId : String)
  | grantOrgCapability (positionId entityId byAgentId : String) (effect : GrantEffect) (priority : ℤ)
  | revokeOrgCapability (positionId entityId byAgentId : String)
  | grantOrgMembership (agentId positionId byAgentId : String)
  | revokeOrgMembership (agentId positionId byAgentId : String)

namespace OrgStructure

open Positions

/-- An operation, with what it meets. -/
def perform (s : OrgStructure) (c : Surroundings) : OrgCommand → OrgOutcome
  | .acceptDevice device =>
    (s.withAuthority (s.acceptDevice device).1, (s.acceptDevice device).2.map OrgError.authority)
  | .grantMembership agentId positionId => (s.withAuthority (s.grantMembership agentId positionId), none)
  | .revokeMembership agentId positionId => (s.withAuthority (s.revokeMembership agentId positionId), none)
  | .grantCapability positionId entityId effect priority => s.grantCapability positionId entityId effect priority
  | .revokeCapability positionId entityId => (s.withAuthority (s.revokeCapability positionId entityId), none)
  | .bootstrap positions rootAgentId rootPositionId => s.bootstrap c positions rootAgentId rootPositionId
  | .addPosition position byAgentId => s.addPosition c position byAgentId
  | .removePosition positionId byAgentId => s.removePosition c positionId byAgentId
  | .setJd positionId jd byAgentId => s.setJd c positionId jd byAgentId
  | .setSuperior positionId superiorId byAgentId => s.setSuperior c positionId superiorId byAgentId
  | .addSubordinate managerId subordinateId byAgentId => s.addSubordinate c managerId subordinateId byAgentId
  | .removeSubordinate managerId subordinateId byAgentId => s.removeSubordinate c managerId subordinateId byAgentId
  | .addCollaborator positionId otherId byAgentId => s.addCollaborator c positionId otherId byAgentId
  | .removeCollaborator positionId otherId byAgentId => s.removeCollaborator c positionId otherId byAgentId
  | .grantOrgCapability positionId entityId byAgentId effect priority =>
    s.grantOrgCapability c positionId entityId byAgentId effect priority
  | .revokeOrgCapability positionId entityId byAgentId => s.revokeOrgCapability c positionId entityId byAgentId
  | .grantOrgMembership agentId positionId byAgentId => s.grantOrgMembership c agentId positionId byAgentId
  | .revokeOrgMembership agentId positionId byAgentId => s.revokeOrgMembership c agentId positionId byAgentId

/-- The organisations that are reached by fitting operations, where the ids that are made are new. -/
inductive Reachable (fits : OrgStructure → Surroundings → OrgCommand → Prop) : OrgStructure → Prop
  | construct {teamId ownerAgentId deviceId : String} {semantics : EdgeSemantics} {journalSink : Bool}
      {ids : ℕ → String}
      {s : OrgStructure} (injective : ids.Injective)
      (h : OrgStructure.construct teamId ownerAgentId deviceId semantics journalSink ids = .ok s) : Reachable fits s
  | perform {s : OrgStructure} (c : Surroundings) (cmd : OrgCommand) (h : Reachable fits s) (minted : s.Minted c.ids 0)
      (fit : fits s c cmd) : Reachable fits (s.perform c cmd).1
  | replace {s new : OrgStructure} (c : Surroundings) (byAgentId : String) (h : Reachable fits s)
      (h' : Reachable fits new)
      (minted : new.Minted c.ids 0) : Reachable fits (s.replace new c byAgentId).1

/-- What the operations that change positions check of those that are to be: their governance. -/
def Valid (s : OrgStructure) (c : Surroundings) (positions : List Position) : Prop :=
  validateGovernanceInvariants c.limit positions s.edgeSemantics = none

/-- What is checked before whole positions are installed. -/
def Accepts (s : OrgStructure) (c : Surroundings) (positions : List Position) : Prop :=
  (∀ p ∈ positions, lookup s.positions p.positionId = none) ∧ s.Valid c (s.positions ++ positions)

variable {s t new : OrgStructure} {c : Surroundings} {cmd : OrgCommand} {position : Position}
  {positions : List Position}
  {checks : List (Option OrgError)} {body : OrgOutcome} {op positionId byAgentId : String}
  {mutate : List Position → Except OrgError (List Position)}

section Cases

/-- Only memberships and grants are changed. -/
def Rewired (s t : OrgStructure) : Prop :=
  ∃ memberships capabilities, t = { s with memberships := memberships, capabilities := capabilities }

/-- The invariant where only memberships and grants change. -/
theorem Owned.rewired (owned : s.Owned) (h : Rewired s t) :
    t.Owned ∧ t.positions = s.positions ∧ t.edgeSemantics = s.edgeSemantics := by
  obtain ⟨memberships, capabilities, rfl⟩ := h
  exact ⟨owned.rewire owned.unique, rfl, rfl⟩

/-- A grant changes only grants. -/
theorem Owned.rewired_grantCapability (owned : s.Owned) {entityId : String} {effect : GrantEffect} {priority : ℤ} :
    Rewired s (s.grantCapability positionId entityId effect priority).1 := by
  obtain ⟨error, herror⟩ | ⟨capabilities, hgrant⟩ :=
    @Owned.grantCapability_cases s owned positionId entityId effect priority
  · exact ⟨s.memberships, s.capabilities, by rw [herror]⟩
  · exact ⟨s.memberships, capabilities, by rw [hgrant]⟩

/-- What an operation on grants does. -/
theorem rewired_wire {op entityId detail : String} (h : Rewired s body.1) :
    Rewired s (s.wire c op positionId entityId byAgentId detail body).1 := by
  unfold wire
  obtain ⟨error, herror⟩ | ⟨-, hbody⟩ :=
    @guarded_cases s [s.checkOrgPermission byAgentId, s.requirePosition positionId] _
  · exact ⟨s.memberships, s.capabilities, by rw [herror]⟩
  · rw [hbody, andThen_record_fst]
    exact h

/-- What an edit of edges does. -/
theorem Owned.mutatePositions_cases (owned : s.Owned) (ids : ∀ prospective, mutate s.positions = .ok prospective →
      prospective.map Position.positionId = s.positions.map Position.positionId) :
    (∃ error, s.mutatePositions c byAgentId op positionId mutate = (s, some error)) ∨
      s.checkOrgPermission byAgentId = none ∧ ∃ prospective t, mutate s.positions = .ok prospective ∧
      s.Valid c prospective ∧
        Refreshed { s with positions := prospective } t ∧ t.Owned ∧
        s.mutatePositions c byAgentId op positionId mutate =
          t.record c { op := op, actorAgentId := byAgentId, positionId := positionId } := by
  unfold mutatePositions
  obtain ⟨error, herror⟩ | ⟨hchecked, hbody⟩ :=
    @guarded_cases s [s.checkOrgPermission byAgentId, s.requirePosition positionId] _
  · exact Or.inl ⟨error, herror⟩
  · rw [hbody]
    cases hmutate : mutate s.positions with
    | error error => exact Or.inl ⟨error, rfl⟩
    | ok prospective =>
      dsimp only
      obtain ⟨error, herror⟩ | ⟨hvalid, hbody⟩ := @guarded_cases s
        [(validateGovernanceInvariants c.limit prospective s.edgeSemantics).map .governance] _
      · exact Or.inl ⟨error, herror⟩
      · have hunique : (prospective.map Position.positionId).Nodup := ids prospective hmutate ▸ owned.unique
        obtain ⟨t, ht, hrefreshed⟩ :=
          @refreshed_refreshAll { s with positions := prospective } prospective (owned.rewire hunique)
        refine Or.inr ⟨hchecked _ List.mem_cons_self, prospective, t, rfl, ?_, hrefreshed,
          (owned.rewire hunique).refreshed hrefreshed, ?_⟩
        · simpa [Valid] using hvalid
        · rw [hbody, ht]
          rfl

/-- What the addition of a position does. -/
theorem addPosition_cases : (∃ error, s.addPosition c position byAgentId = (s, some error)) ∨
    s.checkOrgPermission byAgentId = none ∧ s.Accepts c [position] ∧
      s.addPosition c position byAgentId =
        ({ s with positions := s.positions ++ [position] }.synced (c.ids 0) (c.ids 1) position).record c
          { op := "add_position", actorAgentId := byAgentId, positionId := position.positionId,
            detail := position.name } := by
  unfold addPosition
  obtain ⟨error, herror⟩ | ⟨hvalid, hbody⟩ := @guarded_cases s
    [s.checkOrgPermission byAgentId,
      (lookup s.positions position.positionId).map fun _ => .addedTwice position.positionId,
      (validateGovernanceInvariants c.limit (s.positions ++ [position]) s.edgeSemantics).map .governance] _
  · exact Or.inl ⟨error, herror⟩
  · simp only [List.mem_cons, List.not_mem_nil, or_false, forall_eq_or_imp, forall_eq, Option.map_eq_none_iff] at hvalid
    obtain ⟨hpermitted, hnew, hvalid⟩ := hvalid
    refine Or.inr ⟨hpermitted, ⟨by simpa using hnew, hvalid⟩, ?_⟩
    rw [hbody, store_of_new hnew, syncPositionMemory_eq]
    rfl

/-- What the removal of a position does. -/
theorem Owned.removePosition_cases (owned : s.Owned) :
    (∃ error, s.removePosition c positionId byAgentId = (s, some error)) ∨
    ∃ t, s.Valid c (remove positionId s.positions) ∧
      Refreshed ({ s with positions := remove positionId s.positions }.forget positionId) t ∧ t.Owned ∧
      s.removePosition c positionId byAgentId =
        t.record c { op := "remove_position", actorAgentId := byAgentId, positionId := positionId } := by
  unfold removePosition
  obtain ⟨error, herror⟩ | ⟨hvalid, hbody⟩ := @guarded_cases s
    [s.checkOrgPermission byAgentId, s.requirePosition positionId,
      (validateGovernanceInvariants c.limit (remove positionId s.positions) s.edgeSemantics).map .governance] _
  · exact Or.inl ⟨error, herror⟩
  · simp only [List.mem_cons, List.not_mem_nil, or_false, forall_eq_or_imp, forall_eq, Option.map_eq_none_iff] at hvalid
    have hforgot : ({ s with positions := remove positionId s.positions }.forget positionId).Owned :=
      Owned.forget (owned.rewire (nodup_ids_remove owned.unique)) positionId
    obtain ⟨t, ht, hrefreshed⟩ := @refreshed_refreshAll _ (remove positionId s.positions) hforgot
    refine Or.inr ⟨t, hvalid.2.2, hrefreshed, hforgot.refreshed hrefreshed, ?_⟩
    rw [hbody, ht]
    rfl

/-- What a new description of a position does. -/
theorem Owned.setJd_cases (owned : s.Owned) {jd : String} : (s.setJd c positionId jd byAgentId).1 = s ∨
    Refreshed { s with positions := modify positionId (Position.withJd jd) s.positions }
      (s.setJd c positionId jd byAgentId).1 := by
  unfold setJd
  obtain ⟨error, herror⟩ | ⟨-, hbody⟩ :=
    @guarded_cases s [s.checkOrgPermission byAgentId, s.requirePosition positionId] _
  · exact Or.inl (by rw [herror])
  · rw [hbody]
    cases hmemory : s.positionMemory positionId with
    | none => exact Or.inr .refl
    | some entry =>
      dsimp only
      rw [andThen_record_fst]
      have hknown : s.entities.entity entry.1 ≠ none := by
        refine (owned.memory positionId entry.1 ?_).1
        unfold memoryIds
        rw [hmemory]
        exact List.mem_cons_self
      obtain ⟨t, ht, hrefreshed⟩ := @refreshed_updateMemoryContent
        { s with positions := modify positionId (Position.withJd jd) s.positions } entry.1 jd hknown
      rw [ht]
      exact Or.inr hrefreshed

/-- What `bootstrap` does: positions are installed, and then there may be an error. -/
theorem Owned.bootstrap_cases (owned : s.Owned) (minted : s.Minted c.ids 0)
    {rootAgentId rootPositionId : Option String} :
    (∃ error, s.bootstrap c positions rootAgentId rootPositionId = (s, some error)) ∨
    ∃ t, s.Accepts c positions ∧ t.Owned ∧ t.positions = storeAll positions s.positions ∧
      Extended s t ∧ (positions = [] → t = s) ∧ s.bootstrap c positions rootAgentId rootPositionId =
        match rootAgentId with
        | some rootAgentId => t.grantRoot c positions.length rootAgentId rootPositionId
        | none =>
          if positions = [] then (t, none)
          else t.record c
            { op := "bootstrap", actorAgentId := t.ownerAgentId, detail := s!"安装 {positions.length} 个岗位" } := by
  unfold bootstrap
  obtain ⟨error, herror⟩ | ⟨hvalid, hbody⟩ := @guarded_cases s
    [(positions.find? fun p => (lookup s.positions p.positionId).isSome).map fun p => .installedTwice p.positionId,
      (validateGovernanceInvariants c.limit (s.positions ++ positions) s.edgeSemantics).map .governance] _
  · exact Or.inl ⟨error, herror⟩
  · simp only [List.mem_cons, List.not_mem_nil, or_false, forall_eq_or_imp, forall_eq, Option.map_eq_none_iff] at hvalid
    obtain ⟨t, ht, howned, hpositions, hextended⟩ := @installAll_spec s c.ids 0 positions owned minted
    refine Or.inr ⟨t, ⟨by simpa using hvalid.1, hvalid.2⟩, howned, hpositions, hextended, fun hnil => ?_, ?_⟩
    · subst hnil
      exact (Prod.mk.inj ht).1.symm
    · rw [hbody, ht]
      rfl

/-- The organisation that root grants leave. -/
theorem Owned.rewired_grantRoot (owned : s.Owned) {installed : ℕ} {rootAgentId : String}
    {rootPositionId : Option String} :
    Rewired s (s.grantRoot c installed rootAgentId rootPositionId).1 := by
  unfold grantRoot
  cases rootPositionId with
  | none => exact ⟨_, _, rfl⟩
  | some root =>
    dsimp only
    obtain ⟨error, herror⟩ | ⟨-, hbody⟩ := @guarded_cases s [s.requirePosition root]
      ((s.grantCapability root s.orgManageId .allowed orgMemoryPriority).andThen fun s =>
        (s.withAuthority (s.grantMembership rootAgentId root)).record c
          { op := "bootstrap", actorAgentId := rootAgentId, positionId := root,
            detail := s!"安装 {installed} 个岗位并建立 root 授予" })
    · exact ⟨_, _, by rw [herror]⟩
    · rw [hbody]
      obtain ⟨error, herror⟩ | ⟨capabilities, hgrant⟩ :=
        @Owned.grantCapability_cases s owned root s.orgManageId .allowed
        orgMemoryPriority
      · exact ⟨_, _, by rw [herror]; rfl⟩
      · rw [hgrant]
        exact ⟨_, _, record_fst⟩

end Cases

/-- What an operation makes of the positions. -/
inductive Moved (s : OrgStructure) (c : Surroundings) : OrgCommand → List Position → Prop
  | same {cmd : OrgCommand} : Moved s c cmd s.positions
  | install {positions : List Position} {rootAgentId rootPositionId : Option String}
      (accepted : s.Accepts c positions) :
      Moved s c (.bootstrap positions rootAgentId rootPositionId) (storeAll positions s.positions)
  | add {position : Position} {byAgentId : String} (permitted : s.checkOrgPermission byAgentId = none)
      (accepted : s.Accepts c [position]) : Moved s c (.addPosition position byAgentId) (s.positions ++ [position])
  | remove {positionId byAgentId : String} (valid : s.Valid c (remove positionId s.positions)) :
      Moved s c (.removePosition positionId byAgentId) (remove positionId s.positions)
  | setJd {positionId jd byAgentId : String} :
      Moved s c (.setJd positionId jd byAgentId) (modify positionId (Position.withJd jd) s.positions)
  | setSuperior {positionId byAgentId : String} {superiorId : Option String} {prospective : List Position}
      (permitted : s.checkOrgPermission byAgentId = none)
      (h : linkSuperior positionId superiorId s.positions = .ok prospective) (valid : s.Valid c prospective) :
      Moved s c (.setSuperior positionId superiorId byAgentId) prospective
  | addSubordinate {managerId subordinateId byAgentId : String} {prospective : List Position}
      (permitted : s.checkOrgPermission byAgentId = none)
      (h : linkSuperior subordinateId (some managerId) s.positions = .ok prospective) (valid : s.Valid c prospective) :
      Moved s c (.addSubordinate managerId subordinateId byAgentId) prospective
  | removeSubordinate {managerId subordinateId byAgentId : String} {prospective : List Position}
      (h : unlinkSubordinate managerId subordinateId s.positions = .ok prospective) (valid : s.Valid c prospective) :
      Moved s c (.removeSubordinate managerId subordinateId byAgentId) prospective
  | addCollaborator {positionId otherId byAgentId : String} {prospective : List Position}
      (h : linkCollaborator positionId otherId s.positions = .ok prospective) (valid : s.Valid c prospective) :
      Moved s c (.addCollaborator positionId otherId byAgentId) prospective
  | removeCollaborator {positionId otherId byAgentId : String} {prospective : List Position}
      (h : unlinkCollaborator positionId otherId s.positions = .ok prospective) (valid : s.Valid c prospective) :
      Moved s c (.removeCollaborator positionId otherId byAgentId) prospective

/-- What holds after an operation: the invariant of the entities, and what became of the positions. -/
structure Performed (s : OrgStructure) (c : Surroundings) (cmd : OrgCommand) (t : OrgStructure) : Prop where
  owned : t.Owned
  edgeSemantics : t.edgeSemantics = s.edgeSemantics
  moved : Moved s c cmd t.positions

section Perform

/-- An operation that leaves the positions. -/
theorem Owned.performed_of_rewired (owned : s.Owned) (h : Rewired s t) : Performed s c cmd t := by
  obtain ⟨howned, hpositions, hsemantics⟩ := owned.rewired h
  exact ⟨howned, hsemantics, hpositions ▸ .same⟩

/-- An operation that raises before it changes anything. -/
theorem Owned.performed_self (owned : s.Owned) : Performed s c cmd s :=
  ⟨owned, rfl, .same⟩

/-- An edit of edges. -/
theorem Owned.performed_mutatePositions (owned : s.Owned) (ids : ∀ prospective, mutate s.positions = .ok prospective →
      prospective.map Position.positionId = s.positions.map Position.positionId)
    (moved : ∀ prospective, s.checkOrgPermission byAgentId = none → mutate s.positions = .ok prospective →
      s.Valid c prospective → Moved s c cmd prospective) :
    Performed s c cmd (s.mutatePositions c byAgentId op positionId mutate).1 := by
  obtain ⟨error, herror⟩ | ⟨hpermitted, prospective, t, hmutate, hvalid, hrefreshed, howned, ht⟩ :=
    @Owned.mutatePositions_cases s c op positionId byAgentId mutate owned ids
  · rw [herror]
    exact owned.performed_self
  · rw [ht, record_fst]
    have hsame := hrefreshed.same
    refine ⟨howned, by rw [hsame], ?_⟩
    have hpositions : t.positions = prospective := by rw [hsame]
    exact hpositions ▸ moved prospective hpermitted hmutate hvalid

/-- What `bootstrap` leaves, also where it raises in the end. -/
theorem Owned.performed_bootstrap (owned : s.Owned) (minted : s.Minted c.ids 0)
    {rootAgentId rootPositionId : Option String} :
    Performed s c (.bootstrap positions rootAgentId rootPositionId)
      (s.bootstrap c positions rootAgentId rootPositionId).1 := by
  obtain ⟨error, herror⟩ | ⟨t, haccepted, howned, hpositions, hextended, -, ht⟩ :=
    @Owned.bootstrap_cases s c positions owned minted rootAgentId rootPositionId
  · rw [herror]
    exact owned.performed_self
  · have hinstalled : Performed s c (.bootstrap positions rootAgentId rootPositionId) t :=
      ⟨howned, hextended.edgeSemantics, hpositions ▸ .install haccepted⟩
    rw [ht]
    cases rootAgentId with
    | some agent =>
      obtain ⟨howned', hpositions', hsemantics'⟩ := howned.rewired
        (@Owned.rewired_grantRoot t c howned positions.length agent rootPositionId)
      exact ⟨howned', hsemantics'.trans hinstalled.edgeSemantics, hpositions' ▸ hinstalled.moved⟩
    | none =>
      dsimp only
      split
      · exact hinstalled
      · rw [record_fst]
        exact hinstalled

/-- What the addition of a position leaves. -/
theorem Owned.performed_addPosition (owned : s.Owned) (minted : s.Minted c.ids 0) :
    Performed s c (.addPosition position byAgentId) (s.addPosition c position byAgentId).1 := by
  obtain ⟨error, herror⟩ | ⟨hpermitted, haccepted, ht⟩ := @addPosition_cases s c position byAgentId
  · rw [herror]
    exact owned.performed_self
  · rw [ht, record_fst]
    have hstored : Owned { s with positions := s.positions ++ [position] } :=
      owned.rewire (store_of_new (haccepted.1 position List.mem_cons_self) ▸ nodup_ids_store owned.unique)
    exact ⟨hstored.synced (minted.fresh 0 le_rfl) (minted.fresh 1 (Nat.zero_le 1)), rfl, .add hpermitted haccepted⟩

/-- What the removal of a position leaves. -/
theorem Owned.performed_removePosition (owned : s.Owned) :
    Performed s c (.removePosition positionId byAgentId) (s.removePosition c positionId byAgentId).1 := by
  obtain ⟨error, herror⟩ | ⟨t, hvalid, hrefreshed, howned, ht⟩ :=
    @Owned.removePosition_cases s c positionId byAgentId owned
  · rw [herror]
    exact owned.performed_self
  · rw [ht, record_fst]
    have hsame := hrefreshed.same
    obtain ⟨hpositions, hsemantics, -⟩ := @same_forget { s with positions := remove positionId s.positions } positionId
    have htpositions : t.positions = remove positionId s.positions := by
      rw [hsame]
      exact hpositions
    have htsemantics : t.edgeSemantics = s.edgeSemantics := by
      rw [hsame]
      exact hsemantics
    exact ⟨howned, htsemantics, htpositions ▸ .remove hvalid⟩

/-- What a new description of a position leaves. -/
theorem Owned.performed_setJd (owned : s.Owned) {jd : String} :
    Performed s c (.setJd positionId jd byAgentId) (s.setJd c positionId jd byAgentId).1 := by
  obtain hself | hrefreshed := @Owned.setJd_cases s c positionId byAgentId owned jd
  · rw [hself]
    exact owned.performed_self
  · have hids := @ids_modify s.positions (Position.withJd jd) positionId fun _ => rfl
    have hwritten : Owned { s with positions := modify positionId (Position.withJd jd) s.positions } :=
      owned.rewire (hids ▸ owned.unique)
    have hsame := hrefreshed.same
    refine ⟨hwritten.refreshed hrefreshed, by rw [hsame], ?_⟩
    rw [hsame]
    exact .setJd

/-- What an operation does. -/
theorem Owned.performed (owned : s.Owned) (minted : s.Minted c.ids 0) : Performed s c cmd (s.perform c cmd).1 := by
  cases cmd with
  | acceptDevice device =>
    refine ⟨⟨owned.unique, fun id hid => ?_, owned.manage, owned.memory, owned.apart⟩, rfl, .same⟩
    exact Authority.registered_acceptEntities (owned.registered id hid)
  | grantMembership agentId positionId => exact owned.performed_of_rewired ⟨_, _, rfl⟩
  | revokeMembership agentId positionId => exact owned.performed_of_rewired ⟨_, _, rfl⟩
  | grantCapability positionId entityId effect priority =>
    exact owned.performed_of_rewired owned.rewired_grantCapability
  | revokeCapability positionId entityId => exact owned.performed_of_rewired ⟨_, _, rfl⟩
  | bootstrap positions rootAgentId rootPositionId => exact owned.performed_bootstrap minted
  | addPosition position byAgentId => exact owned.performed_addPosition minted
  | removePosition positionId byAgentId => exact owned.performed_removePosition
  | setJd positionId jd byAgentId => exact owned.performed_setJd
  | setSuperior positionId superiorId byAgentId =>
    exact owned.performed_mutatePositions (fun _ => ids_linkSuperior) fun _ permitted h valid =>
      .setSuperior permitted h valid
  | addSubordinate managerId subordinateId byAgentId =>
    exact owned.performed_mutatePositions (fun _ => ids_linkSuperior) fun _ permitted h valid =>
      .addSubordinate permitted h valid
  | removeSubordinate managerId subordinateId byAgentId =>
    exact owned.performed_mutatePositions (fun _ => ids_unlinkSubordinate) fun _ _ h valid => .removeSubordinate h valid
  | addCollaborator positionId otherId byAgentId =>
    exact owned.performed_mutatePositions (fun _ => ids_linkCollaborator) fun _ _ h valid => .addCollaborator h valid
  | removeCollaborator positionId otherId byAgentId =>
    exact owned.performed_mutatePositions (fun _ => ids_unlinkCollaborator) fun _ _ h valid =>
      .removeCollaborator h valid
  | grantOrgCapability positionId entityId byAgentId effect priority =>
    exact owned.performed_of_rewired (rewired_wire owned.rewired_grantCapability)
  | revokeOrgCapability positionId entityId byAgentId => exact owned.performed_of_rewired (rewired_wire ⟨_, _, rfl⟩)
  | grantOrgMembership agentId positionId byAgentId => exact owned.performed_of_rewired (rewired_wire ⟨_, _, rfl⟩)
  | revokeOrgMembership agentId positionId byAgentId => exact owned.performed_of_rewired (rewired_wire ⟨_, _, rfl⟩)

section Construct

variable {teamId ownerAgentId deviceId : String} {semantics : EdgeSemantics} {journalSink : Bool} {ids : ℕ → String}

/-- What is constructed, if nothing is raised. -/
theorem eq_of_construct (h : construct teamId ownerAgentId deviceId semantics journalSink ids = .ok s) :
    s = built teamId ownerAgentId deviceId semantics.orDefault journalSink ids := by
  unfold construct at h
  dsimp only at h
  split at h
  · cases h
  · exact (Except.ok.inj h).symm

/-- The entities of an organisation that was constructed. -/
theorem entities_built {id : String}
    (h : (built teamId ownerAgentId deviceId semantics journalSink ids).entities.entity id ≠ none) :
    ∃ n, id = ids n := by
  have hfold (edges : List RegisteredEntity) (r : Registry) (hr : ∀ id, r.entity id ≠ none → ∃ n, id = ids n)
      (hedges : ∀ e ∈ edges, ∃ n, e.entityId = ids n) (hid : (edges.foldl Registry.add r).entity id ≠ none) : ∃ n,
        id = ids n := by
    induction edges generalizing r with
    | nil => exact hr id hid
    | cons e rest ih =>
      refine ih (r.add e) (fun id hid => ?_) (fun e he => hedges e (List.mem_cons_of_mem _ he)) hid
      rw [Registry.entity_add] at hid
      split at hid
      next heq => exact heq ▸ hedges e List.mem_cons_self
      · exact hr id hid
  refine hfold _ _ (fun id hid => ?_) (fun e he => ?_) h
  · rw [Registry.entity_add] at hid
    split at hid
    next heq => exact ⟨0, heq⟩
    · exact absurd rfl hid
  · obtain ⟨i, _, rfl⟩ := List.mem_mapIdx.mp he
    exact ⟨i + 1, rfl⟩

/-- The invariant of the entities after the construction. -/
theorem owned_built : (built teamId ownerAgentId deviceId semantics journalSink ids).Owned := by
  have hkept (edges : List RegisteredEntity) (r : Registry) (id : String) (hid : r.entity id ≠ none) :
      (edges.foldl Registry.add r).entity id ≠ none := by
    induction edges generalizing r with
    | nil => exact hid
    | cons e rest ih =>
      refine ih (r.add e) ?_
      rw [Registry.entity_add]
      split
      · exact Option.some_ne_none e
      · exact hid
  have hmanage : (Registry.add {} (manageEntity deviceId (ids 0))).entity (ids 0) ≠ none := by
    rw [Registry.entity_add, if_pos (show ids 0 = (manageEntity deviceId (ids 0)).entityId from rfl)]
    exact Option.some_ne_none _
  exact
    { unique := List.nodup_nil
      registered := fun _ hid => hid
      manage := hkept _ _ _ hmanage
      memory := fun _ _ hid => absurd hid List.not_mem_nil
      apart := fun _ _ _ _ hid => absurd hid List.not_mem_nil }

end Construct

/-- What a replacement makes of the new organisation, unless it raises before anything is changed. -/
theorem Owned.replace_cases (owned : s.Owned) (owned' : new.Owned) (minted : new.Minted c.ids 0) :
    (∃ error, s.replace new c byAgentId = (new, some error)) ∨
      ∃ t, s.replace new c byAgentId = (t, none) ∧ t.Owned ∧ t.positions = s.positions ∧
      t.edgeSemantics = s.edgeSemantics := by
  unfold replace
  cases hreplace : s.toAuthority.replace new.toAuthority byAgentId with
  | error error => exact Or.inl ⟨_, rfl⟩
  | ok authority =>
    obtain ⟨-, -, rfl⟩ := Authority.replace_eq_ok.mp hreplace
    let handed : OrgStructure := (new.withAuthority { new.toAuthority with
      registry := s.registry, memberships := s.memberships, capabilities :=
        s.capabilities }).ensureOwnEntitiesRegistered
    have htaken : (handed.takeOver s).Owned :=
      { unique := owned.unique
        registered := fun id hid => Registry.entity_fill_ne_none.mpr (Or.inr hid)
        manage := owned'.manage
        memory := fun _ id hid => absurd hid List.not_mem_nil
        apart := fun _ _ _ id hid => absurd hid List.not_mem_nil }
    have hminted : (handed.takeOver s).Minted c.ids 0 := ⟨minted.injective, minted.fresh⟩
    obtain ⟨t, ht, howned, hpositions, hextended⟩ := @syncAll_spec _ _ _ s.positions htaken hminted
    refine Or.inr ⟨t.redirectGrants s.orgManageId, ?_, howned.rewire howned.unique, hpositions, hextended.edgeSemantics⟩
    dsimp only [adoptFrom]
    rw [ht]
    rfl

/-- The invariant of the entities in every state. -/
theorem Reachable.owned {fits : OrgStructure → Surroundings → OrgCommand → Prop} (h : Reachable fits s) : s.Owned := by
  induction h with
  | construct injective h => exact eq_of_construct h ▸ owned_built
  | perform c cmd _ minted _ ih => exact (ih.performed minted).owned
  | replace c byAgentId _ _ minted ih ih' =>
    obtain ⟨error, herror⟩ | ⟨t, ht, howned, -⟩ := Owned.replace_cases ih ih' minted
    · rw [herror]
      exact ih'
    · rw [ht]
      exact howned

end Perform

section Sample

/-- Ids that are told apart by their lengths. -/
def markedId (mark : Char) (n : ℕ) : String :=
  String.ofList (List.replicate (n + 1) mark)

/-- The ids are told apart. -/
theorem markedId_injective (mark : Char) : (markedId mark).Injective := by
  intro m n h
  have hlength := congrArg (fun id : String => id.toList.length) h
  simpa [markedId] using hlength

/-- The ids of two calls are apart. -/
theorem markedId_ne {mark other : Char} (hne : mark ≠ other) (m n : ℕ) : markedId mark m ≠ markedId other n := by
  intro h
  have hhead := congrArg (fun id : String => id.toList.head?) h
  exact hne (by simpa [markedId, List.replicate_succ] using hhead)

/-- A call whose changes the journal takes. -/
def quietCall (mark : Char) : Surroundings where
  limit := 1000
  ids := markedId mark

/-- An organisation of the owner without positions. -/
def emptyOrg (mark : Char) : OrgStructure :=
  built "team" "owner" "org" defaultEdgeSemantics false (markedId mark)

/-- It is what the construction makes. -/
theorem reachable_emptyOrg {fits : OrgStructure → Surroundings → OrgCommand → Prop} (mark : Char) :
    Reachable fits (emptyOrg mark) :=
  @Reachable.construct fits "team" "owner" "org" [] false (markedId mark) _ (markedId_injective mark) rfl

/-- Its entities. -/
theorem entities_emptyOrg {mark : Char} {id : String} (h : (emptyOrg mark).entities.entity id ≠ none) :
    ∃ n, id = markedId mark n :=
  entities_built h

/-- Ids with another mark are new to it. -/
theorem minted_emptyOrg {mark other : Char} (hne : mark ≠ other) : (emptyOrg mark).Minted (quietCall other).ids 0 := by
  refine ⟨markedId_injective other, fun m _ => ?_⟩
  by_contra hknown
  obtain ⟨n, hn⟩ := entities_emptyOrg hknown
  exact markedId_ne hne n m hn.symm

/-- A position with one subordinate, which comes after it. -/
def managerAndSubordinate : List Position :=
  [{ positionId := "11111111-1111-4111-8111-111111111111", name := "A",
      subordinateIds := ["22222222-2222-4222-8222-222222222222"] },
    { positionId := "22222222-2222-4222-8222-222222222222", name := "B",
      superiorId := some "11111111-1111-4111-8111-111111111111" }]

end Sample

end OrgStructure

end MyTeam.Legacy
