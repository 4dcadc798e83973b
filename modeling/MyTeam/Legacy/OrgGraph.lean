import MyTeam.Legacy.OrgRuns

/-!
# The graph of an organisation

Where the positions that are installed agree with each other, and the root of an organisation is one of them, both
ends of all edges agree in any run, chains of superiors end, tasks are not delegated in circles, and an
operation that raises changes nothing.
-/

namespace MyTeam.Legacy

open MyTeam.Order Relation

/-- The operations that change positions. -/
def OrgCommand.reorganises : OrgCommand → Bool
  | bootstrap .. | addPosition .. | removePosition .. | setSuperior .. | addSubordinate .. | removeSubordinate ..
  | addCollaborator .. | removeCollaborator .. => true
  | _ => false

/-- The journal takes every change. -/
def Surroundings.Quiet (c : Surroundings) : Prop :=
  ∀ change, c.sink change = none

namespace OrgStructure

open Positions

variable (s : OrgStructure) (c : Surroundings)

/-- The graph is consistent. -/
structure Consistent : Prop where
  twoWay : ∀ x p, superiorOf s.positions x = some p ↔ x ∈ subordinatesOf s.positions p
  superiors : Acyclic (superiorOf s.positions)
  escalation : ∀ x, ∃ chain, Climbs (superiorOf s.positions) (some x) chain
  delegation : ∀ x, ¬TransGen (fun a b => b ∈ delegationGraph s.positions s.edgeSemantics.orDefault a) x x
  attached : ∀ p ∈ s.positions, ∀ t ∈ p.targets, ∃ q ∈ s.positions, q.positionId = t

/-- Tasks are delegated to subordinates. -/
def Delegating : Prop :=
  s.edgeSemantics.orDefault.delegates .subordinate = true

instance : Decidable s.Delegating :=
  inferInstanceAs (Decidable (_ = true))

/-- Positions that may be installed: each names the other, and no superior is below, for which it is enough that tasks
are delegated to subordinates. -/
def Agreeing (positions : List Position) : Prop :=
  TwoWay positions ∧ (s.Delegating ∨ Acyclic (superiorOf positions))

/-- A position may have a superior that is not below it, which is validated if tasks are delegated to subordinates. -/
def Clear (sub : String) (sup : Option String) : Prop :=
  s.Delegating ∨ ∀ id ∈ sup, ¬TransGen (IsChild (superiorOf s.positions)) id sub

/-- What is not validated of an operation: positions that are installed agree, a root agent comes with a position
that is installed, a position that is added names no superior and no subordinates, and a new superior is not below. -/
def Sound : OrgCommand → Prop
  | .bootstrap positions rootAgentId rootPositionId => s.Accepts c positions →
      s.Agreeing (storeAll positions s.positions) ∧
        (positions ≠ [] → rootAgentId ≠ none → ∃ root ∈ rootPositionId,
          lookup (storeAll positions s.positions) root ≠ none)
  | .addPosition position byAgentId => s.checkOrgPermission byAgentId = none → s.Accepts c [position] →
      position.superiorId = none ∧ position.subordinateIds = []
  | .setSuperior positionId superiorId byAgentId => s.checkOrgPermission byAgentId = none →
      ∀ prospective, linkSuperior positionId superiorId s.positions = .ok prospective → s.Valid c prospective →
        s.Clear positionId superiorId
  | .addSubordinate managerId subordinateId byAgentId => s.checkOrgPermission byAgentId = none →
      ∀ prospective, linkSuperior subordinateId (some managerId) s.positions = .ok prospective → s.Valid c prospective →
        s.Clear subordinateId (some managerId)
  | _ => True

/-- An operation that keeps the graph consistent. -/
structure Fitting (s : OrgStructure) (c : Surroundings) (cmd : OrgCommand) : Prop where
  quiet : cmd.reorganises = true → c.Quiet
  sound : s.Sound c cmd

/-- What holds in every state of a run of such operations. -/
structure Kept : Prop where
  twoWay : TwoWay s.positions
  superiors : Acyclic (superiorOf s.positions)
  governed : Governed s.positions s.edgeSemantics

variable {s c} {t new : OrgStructure} {cmd : OrgCommand} {positions : List Position} {byAgentId : String}

/-- The graph is consistent in such a state. -/
theorem Kept.consistent (kept : s.Kept) : s.Consistent where
  twoWay := kept.twoWay
  superiors := kept.superiors
  escalation := exists_climbs kept.superiors
  delegation := kept.governed.monotone
  attached p hp t ht := by
    obtain ⟨q, hq, hname⟩ := List.mem_map.mp (kept.governed.attached p hp t ht)
    exact ⟨q, hq, hname⟩

section Steps

/-- Valid positions whose superiors have no cycle if tasks are not delegated to subordinates. -/
theorem acyclic_of_agreeing (agreeing : s.Agreeing positions) (governed : Governed positions s.edgeSemantics) :
    Acyclic (superiorOf positions) :=
  agreeing.2.elim (acyclic_of_governed agreeing.1 governed) id

/-- A new superior closes no cycle. -/
theorem Kept.linkSuperior (kept : s.Kept) {sub : String} {sup : Option String} {prospective : List Position}
    (h : linkSuperior sub sup s.positions = .ok prospective) (governed : Governed prospective s.edgeSemantics)
    (clear : s.Clear sub sup) : TwoWay prospective ∧ Acyclic (superiorOf prospective) := by
  have hlinked := linked_of_linkSuperior kept.twoWay h
  refine ⟨hlinked.twoWay, clear.elim (acyclic_of_governed hlinked.twoWay governed) fun hbelow => ?_⟩
  have hedge (a b : String) (hab : IsChild (superiorOf prospective) a b) :
      IsChild (superiorOf s.positions) a b ∨ a = sub ∧ sup = some b := by
    unfold IsChild at hab ⊢
    rw [hlinked.superiorOf] at hab
    split at hab
    next ha => exact Or.inr ⟨ha, hab⟩
    · exact Or.inl hab
  cases sup with
  | none => exact kept.superiors.mono fun a b hab => (hedge a b hab).resolve_right fun h => by cases h.2
  | some id =>
    refine kept.superiors.link
      (fun a b hab => (hedge a b hab).imp_right fun h => ⟨h.1, (Option.some_injective _ h.2).symm⟩)
      fun hreach => ?_
    obtain heq | hreach := Relation.reflTransGen_iff_eq_or_transGen.mp hreach
    · exact ne_of_linkSuperior h (by rw [heq])
    · exact hbelow id rfl hreach

/-- An operation keeps the graph. -/
theorem Kept.performed (kept : s.Kept) (sound : s.Sound c cmd) (h : Performed s c cmd t) : t.Kept := by
  obtain ⟨-, hsemantics, hmoved⟩ := h
  suffices hkept : TwoWay t.positions ∧ Acyclic (superiorOf t.positions) ∧ Governed t.positions s.edgeSemantics from
    ⟨hkept.1, hkept.2.1, hsemantics ▸ hkept.2.2⟩
  generalize t.positions = positions at hmoved
  cases hmoved with
  | same => exact ⟨kept.twoWay, kept.superiors, kept.governed⟩
  | install accepted =>
    have hgoverned := governed_storeAll (governed_of_validate accepted.2)
    obtain ⟨hagreeing, -⟩ := sound accepted
    exact ⟨hagreeing.1, acyclic_of_agreeing hagreeing hgoverned, hgoverned⟩
  | @add position _ permitted accepted =>
    obtain ⟨hsuperior, hsubordinates⟩ := sound permitted accepted
    have hnew := accepted.1 position List.mem_cons_self
    have hgoverned := governed_of_validate accepted.2
    rw [← store_of_new hnew] at hgoverned ⊢
    refine ⟨twoWay_store kept.twoWay kept.governed.attached hnew hsuperior hsubordinates,
      kept.superiors.mono fun a b hab => ?_, hgoverned⟩
    unfold IsChild at hab ⊢
    rw [superiorOf_store, hsuperior] at hab
    split at hab
    · cases hab
    · exact hab
  | remove valid =>
    refine ⟨twoWay_remove kept.twoWay, kept.superiors.mono fun a b hab => ?_, governed_of_validate valid⟩
    unfold IsChild at hab ⊢
    rw [superiorOf_remove] at hab
    split at hab
    · cases hab
    · exact (Option.filter_eq_some_iff.mp hab).1
  | setJd =>
    obtain ⟨htwoWay, hsuperior⟩ :=
      twoWay_modify (f := Position.withJd _) kept.twoWay (fun _ => rfl) (fun _ => rfl) fun _ => rfl
    exact ⟨htwoWay, hsuperior ▸ kept.superiors, governed_withJd kept.governed⟩
  | setSuperior permitted h valid =>
    have hgoverned := governed_of_validate valid
    obtain ⟨htwoWay, hsuperiors⟩ := kept.linkSuperior h hgoverned (sound permitted _ h valid)
    exact ⟨htwoWay, hsuperiors, hgoverned⟩
  | addSubordinate permitted h valid =>
    have hgoverned := governed_of_validate valid
    obtain ⟨htwoWay, hsuperiors⟩ := kept.linkSuperior h hgoverned (sound permitted _ h valid)
    exact ⟨htwoWay, hsuperiors, hgoverned⟩
  | removeSubordinate h valid =>
    have hlinked := linked_of_unlinkSubordinate kept.twoWay h
    refine ⟨hlinked.twoWay, kept.superiors.mono fun a b hab => ?_, governed_of_validate valid⟩
    unfold IsChild at hab ⊢
    rw [hlinked.superiorOf] at hab
    split at hab
    next ha => exact ha ▸ (Option.filter_eq_some_iff.mp hab).1
    · exact hab
  | addCollaborator h valid =>
    have hgoverned := governed_of_validate valid
    rw [eq_of_linkCollaborator h] at hgoverned ⊢
    obtain ⟨htwoWay, hsuperior⟩ := twoWay_modify kept.twoWay (fun _ => same_addCollaborator.1)
      (fun _ => same_addCollaborator.2.1) fun _ => same_addCollaborator.2.2
    exact ⟨htwoWay, hsuperior ▸ kept.superiors, hgoverned⟩
  | removeCollaborator h valid =>
    have hgoverned := governed_of_validate valid
    rw [eq_of_unlinkCollaborator h] at hgoverned ⊢
    obtain ⟨htwoWay, hsuperior⟩ :=
      twoWay_modify (f := Position.dropCollaborator _) kept.twoWay (fun _ => rfl) (fun _ => rfl)
      fun _ => rfl
    exact ⟨htwoWay, hsuperior ▸ kept.superiors, hgoverned⟩

/-- The graph of an organisation without positions. -/
theorem kept_of_nil (hpositions : s.positions = []) : s.Kept := by
  have hnone (x : String) : superiorOf s.positions x = none := by
    rw [hpositions]
    rfl
  constructor
  case twoWay =>
    intro x p
    rw [hnone, hpositions]
    exact iff_of_false (Option.some_ne_none p).symm List.not_mem_nil
  case superiors =>
    intro a hcycle
    obtain ⟨b, hab, -⟩ := TransGen.head'_iff.mp hcycle
    exact absurd (hnone a ▸ hab) (Option.some_ne_none b).symm
  case governed =>
    rw [hpositions]
    refine ⟨fun p hp => absurd hp List.not_mem_nil, fun a hcycle => ?_⟩
    obtain ⟨b, hab, -⟩ := TransGen.head'_iff.mp hcycle
    obtain ⟨p, hp, -⟩ := mem_delegationGraph.mp hab
    exact absurd hp List.not_mem_nil

/-- The graph in every state. -/
theorem Reachable.kept (h : Reachable Fitting s) : s.Kept := by
  induction h with
  | construct injective h => exact eq_of_construct h ▸ kept_of_nil rfl
  | perform c cmd h minted fit ih => exact ih.performed fit.sound (h.owned.performed minted)
  | replace c byAgentId h h' minted ih ih' =>
    obtain ⟨error, herror⟩ | ⟨t, ht, -, hpositions, hsemantics⟩ := Owned.replace_cases h.owned h'.owned minted
    · rw [herror]
      exact ih'
    · rw [ht]
      exact ⟨hpositions ▸ ih.twoWay, hpositions ▸ ih.superiors, hpositions ▸ hsemantics ▸ ih.governed⟩

end Steps

section Raising

/-- An edit of edges that raises changes nothing. -/
theorem Owned.unchanged_mutatePositions (owned : s.Owned) (quiet : c.Quiet) {op positionId : String}
    {mutate : List Position → Except OrgError (List Position)}
    (ids : ∀ prospective, mutate s.positions = .ok prospective →
      prospective.map Position.positionId = s.positions.map Position.positionId)
    (raised : (s.mutatePositions c byAgentId op positionId mutate).2 ≠ none) :
    (s.mutatePositions c byAgentId op positionId mutate).1 = s := by
  obtain ⟨error, herror⟩ | ⟨-, prospective, t, -, -, -, -, ht⟩ :=
    @Owned.mutatePositions_cases s c op positionId byAgentId mutate owned ids
  · rw [herror]
  · rw [ht, record_of_quiet quiet] at raised
    exact absurd rfl raised

/-- Root grants that raise change nothing, and they go through for a position that is there. -/
theorem Owned.unchanged_grantRoot (owned : s.Owned) (quiet : c.Quiet) {installed : ℕ} {agent : String}
    {rootPositionId : Option String}
    (raised : (s.grantRoot c installed agent rootPositionId).2 ≠ none) :
    (s.grantRoot c installed agent rootPositionId).1 = s ∧ ∀ root ∈ rootPositionId, lookup s.positions root = none := by
  unfold grantRoot at raised ⊢
  cases rootPositionId with
  | none => exact ⟨rfl, fun root hroot => by cases hroot⟩
  | some root =>
    dsimp only at raised ⊢
    rw [grantCapability_of_registered (owned.registered _ owned.manage)] at raised ⊢
    dsimp only [OrgOutcome.andThen] at raised ⊢
    rw [record_of_quiet quiet] at raised ⊢
    cases hroot : lookup s.positions root with
    | some p =>
      have hguarded : s.requirePosition root = none := by
        unfold requirePosition
        rw [hroot]
        rfl
      unfold guarded at raised
      rw [hguarded] at raised
      exact absurd rfl raised
    | none =>
      have hguarded : s.requirePosition root = some (.positionNotFound root) := by
        unfold requirePosition
        rw [hroot]
        rfl
      unfold guarded
      rw [hguarded]
      refine ⟨rfl, fun id hid => ?_⟩
      obtain rfl := Option.some_injective _ hid
      exact hroot

/-- An operation that raises changes nothing. -/
theorem Owned.unchanged (owned : s.Owned) (minted : s.Minted c.ids 0) (fit : Fitting s c cmd)
    (reorganises : cmd.reorganises = true)
    (raised : (s.perform c cmd).2 ≠ none) : (s.perform c cmd).1 = s := by
  have quiet := fit.quiet reorganises
  cases cmd with
  | bootstrap positions rootAgentId rootPositionId =>
    show (s.bootstrap c positions rootAgentId rootPositionId).1 = s
    replace raised : (s.bootstrap c positions rootAgentId rootPositionId).2 ≠ none := raised
    obtain ⟨error, herror⟩ | ⟨t, haccepted, howned, hpositions, -, hnil, ht⟩ :=
      @Owned.bootstrap_cases s c positions owned minted rootAgentId rootPositionId
    · rw [herror]
    · rw [ht] at raised ⊢
      cases rootAgentId with
      | none =>
        dsimp only at raised
        split at raised
        · exact absurd rfl raised
        · rw [record_of_quiet quiet] at raised
          exact absurd rfl raised
      | some agent =>
        obtain ⟨hsame, hmissing⟩ := howned.unchanged_grantRoot quiet raised
        refine hsame.trans ?_
        by_cases hempty : positions = []
        · exact hnil hempty
        · obtain ⟨root, hroot, hpresent⟩ := (fit.sound haccepted).2 hempty (Option.some_ne_none agent)
          exact absurd (hpositions ▸ hmissing root hroot) hpresent
  | addPosition position byAgentId =>
    show (s.addPosition c position byAgentId).1 = s
    replace raised : (s.addPosition c position byAgentId).2 ≠ none := raised
    obtain ⟨error, herror⟩ | ⟨-, -, ht⟩ := @addPosition_cases s c position byAgentId
    · rw [herror]
    · rw [ht, record_of_quiet quiet] at raised
      exact absurd rfl raised
  | removePosition positionId byAgentId =>
    show (s.removePosition c positionId byAgentId).1 = s
    replace raised : (s.removePosition c positionId byAgentId).2 ≠ none := raised
    obtain ⟨error, herror⟩ | ⟨t, -, -, -, ht⟩ := @Owned.removePosition_cases s c positionId byAgentId owned
    · rw [herror]
    · rw [ht, record_of_quiet quiet] at raised
      exact absurd rfl raised
  | setSuperior positionId superiorId byAgentId =>
    exact owned.unchanged_mutatePositions quiet (fun _ => ids_linkSuperior) raised
  | addSubordinate managerId subordinateId byAgentId =>
    exact owned.unchanged_mutatePositions quiet (fun _ => ids_linkSuperior) raised
  | removeSubordinate managerId subordinateId byAgentId =>
    exact owned.unchanged_mutatePositions quiet (fun _ => ids_unlinkSubordinate) raised
  | addCollaborator positionId otherId byAgentId =>
    exact owned.unchanged_mutatePositions quiet (fun _ => ids_linkCollaborator) raised
  | removeCollaborator positionId otherId byAgentId =>
    exact owned.unchanged_mutatePositions quiet (fun _ => ids_unlinkCollaborator) raised
  | _ => cases reorganises

end Raising

/-- In every run of fitting operations the graph is consistent, an operation that raises changes nothing, and so does a
replacement that raises. -/
theorem consistent_of_fitting (h : Reachable Fitting s) : s.Consistent ∧
    (∀ c cmd, s.Minted c.ids 0 → Fitting s c cmd → cmd.reorganises = true → (s.perform c cmd).2 ≠ none →
      (s.perform c cmd).1 = s) ∧
    ∀ new c byAgentId, Reachable Fitting new → new.Minted c.ids 0 → (s.replace new c byAgentId).2 ≠ none →
      (s.replace new c byAgentId).1 = new := by
  refine ⟨h.kept.consistent, fun c cmd minted => h.owned.unchanged minted, fun new c byAgentId h' minted raised => ?_⟩
  obtain ⟨error, herror⟩ | ⟨t, ht, -⟩ := Owned.replace_cases h.owned h'.owned minted
  · rw [herror]
  · rw [ht] at raised
    exact absurd rfl raised

/-- An organisation where the owner manages a position with a subordinate is one of these. -/
theorem consistent_of_fitting_pair : ((emptyOrg 'x').perform (quietCall 'y')
    (.bootstrap managerAndSubordinate (some "owner") (some "11111111-1111-4111-8111-111111111111"))).1.Consistent := by
  have htwoWay : TwoWay (storeAll managerAndSubordinate []) := twoWay_of_ids (by decide +kernel) (by decide +kernel)
  have hsound : (emptyOrg 'x').Sound (quietCall 'y')
      (.bootstrap managerAndSubordinate (some "owner") (some "11111111-1111-4111-8111-111111111111")) :=
    fun _ => ⟨⟨htwoWay, Or.inl (by decide +kernel)⟩, fun _ _ => ⟨_, rfl, by decide +kernel⟩⟩
  exact (consistent_of_fitting (.perform _ _ (reachable_emptyOrg 'x') (minted_emptyOrg (by decide))
    ⟨fun _ _ => rfl, hsound⟩)).1

/-- Two positions, each of which names the other as its superior and no subordinates. -/
def mutualSuperiors : List Position :=
  [{ positionId := "11111111-1111-4111-8111-111111111111", name := "A",
      superiorId := some "22222222-2222-4222-8222-222222222222" },
    { positionId := "22222222-2222-4222-8222-222222222222", name := "B",
      superiorId := some "11111111-1111-4111-8111-111111111111" }]

/-- `bootstrap` installs positions of which each is the superior of the other, and has no subordinates; and where
it raises because no root position is given, positions are installed. -/
theorem mutual_superiors :
    (mutualSuperiors.map Position.selfEdge = [none, none] ∧
      ∃ s : OrgStructure, Reachable (fun _ _ _ => True) s ∧
        superiorOf s.positions "11111111-1111-4111-8111-111111111111" = some "22222222-2222-4222-8222-222222222222" ∧
        superiorOf s.positions "22222222-2222-4222-8222-222222222222" = some "11111111-1111-4111-8111-111111111111" ∧
        "11111111-1111-4111-8111-111111111111" ∉ subordinatesOf s.positions "22222222-2222-4222-8222-222222222222") ∧
      ∃ s : OrgStructure, ∃ c cmd, Reachable (fun _ _ _ => True) s ∧ s.Minted c.ids 0 ∧ c.Quiet ∧
      cmd.reorganises = true ∧
        (s.perform c cmd).2 = some .noRootPosition ∧ s.positions = [] ∧
        (s.perform c cmd).1.positions.map Position.name = ["A"] := by
  refine ⟨⟨by decide +kernel, _,
    .perform (quietCall 'y') (.bootstrap mutualSuperiors none none) (reachable_emptyOrg 'x')
      (minted_emptyOrg (by decide)) trivial, by decide +kernel, by decide +kernel, by decide +kernel⟩, ?_⟩
  exact ⟨emptyOrg 'x', quietCall 'y',
    .bootstrap [{ positionId := "11111111-1111-4111-8111-111111111111", name := "A" }] (some "owner") none,
    reachable_emptyOrg 'x', minted_emptyOrg (by decide), fun _ => rfl, rfl, by decide +kernel, rfl, by decide +kernel⟩

end OrgStructure

end MyTeam.Legacy
