import MyTeam.Legacy.Groups

/-!
# The winners of conflicts

An effect that loses its resource fails with the name of the agent it lost to. The effects of this
agent are not beaten on the resource, but their group may be beaten on another one and fail as a
whole. A conflict has a winner exactly if one of them is in no such group.
-/

namespace MyTeam.Legacy

section Beaten

variable {effects : List StagedEffect} {e f : StagedEffect} {agent : String}

/-- Another validated effect on the resource is of an agent that comes first. -/
def Beaten (effects : List StagedEffect) (e : StagedEffect) : Prop :=
  e.status = .validated ∧
    ∃ other ∈ effects, other.status = .validated ∧ other.resource = e.resource ∧ other.agentId < e.agentId

instance (effects : List StagedEffect) (e : StagedEffect) : Decidable (Beaten effects e) :=
  inferInstanceAs (Decidable (_ ∧ ∃ other ∈ effects, _ ∧ _ ∧ _))

/-- The effect shares its group with a member of a group that is beaten. -/
def DraggedDown (effects : List StagedEffect) (e : StagedEffect) : Prop :=
  ∃ loser ∈ effects, Beaten effects loser ∧ loser.Grouped ∧ loser.groupId = e.groupId

instance (effects : List StagedEffect) (e : StagedEffect) : Decidable (DraggedDown effects e) :=
  inferInstanceAs (Decidable (∃ loser ∈ effects, _ ∧ _ ∧ _))

/-- The effects that lose their resource are those that are beaten. -/
theorem winner_isSome_iff : (winner effects e).isSome ↔ Beaten effects e := by
  constructor
  · intro hloses
    obtain ⟨agent, hwinner⟩ := Option.isSome_iff_exists.mp hloses
    obtain ⟨hstatus, ⟨f, hf, hvalid, hresource, rfl⟩, -, hless⟩ := winner_eq_some.mp hwinner
    exact ⟨hstatus, f, hf, hvalid, hresource, hless⟩
  · rintro ⟨hstatus, other, hother, hvalid, hresource, hless⟩
    unfold winner
    rw [if_neg (not_not.mpr hstatus)]
    dsimp only
    generalize hagents : (effects.filter fun f => f.status = .validated ∧ f.resource = e.resource).map (·.agentId) =
      agents
    have hmem : other.agentId ∈ agents := by
      rw [← hagents]
      exact List.mem_map_of_mem (List.mem_filter.mpr ⟨hother, by simp [hvalid, hresource]⟩)
    cases hmin : agents.min? with
    | none =>
      rw [List.min?_eq_none_iff.mp hmin] at hmem
      cases hmem
    | some first =>
      have hfirst : first ≤ other.agentId := (List.min?_eq_some_iff.mp hmin).2 _ hmem
      rw [Option.filter_some, if_pos (by simpa using hfirst.trans_lt hless)]
      rfl

/-- A validated effect that is not beaten is of the agent to which the others lose the resource. -/
theorem agentId_of_not_beaten (hf : f ∈ effects) (hvalid : f.status = .validated) (hresource : f.resource = e.resource)
    (unbeaten : ¬Beaten effects f) (hwinner : winner effects e = some agent) : f.agentId = agent := by
  obtain ⟨-, ⟨g, hg, hgvalid, hgresource, rfl⟩, hleast, -⟩ := winner_eq_some.mp hwinner
  refine le_antisymm ?_ (hleast f hf hvalid hresource)
  by_contra hless
  exact unbeaten ⟨hvalid, g, hg, hgvalid, hgresource.trans hresource.symm, not_le.mp hless⟩

end Beaten

namespace TransactionBuffer

variable (b : TransactionBuffer)

/-- `resolve_conflicts` fails a validated effect because its resource goes to an agent. -/
def LosesTo (e : StagedEffect) (agent : String) : Prop :=
  e ∈ b.effects ∧ e.status = .validated ∧ ∃ failed ∈ b.resolveConflicts.effects, failed.effectId = e.effectId ∧
    failed.status = .failed ∧ failed.error = some s!"Conflict: lost to agent {agent}"

/-- A validated effect is committed when the conflicts are resolved. -/
def Survives (e : StagedEffect) : Prop :=
  e ∈ b.effects ∧ e.status = .validated ∧
    ∃ committed ∈ b.resolveConflicts.commit.effects, committed.effectId = e.effectId ∧ committed.status = .committed

/-- Conflicts have winners: who takes a resource from another agent has an effect on it committed, and
a resource that several agents want is written. -/
structure Won : Prop where
  winner : ∀ e agent, b.LosesTo e agent → ∃ f, b.Survives f ∧ f.resource = e.resource ∧ f.agentId = agent
  written : ∀ e ∈ b.effects, ∀ f ∈ b.effects, e.status = .validated → f.status = .validated →
    f.resource = e.resource → f.agentId ≠ e.agentId → ∃ g, b.Survives g ∧ g.resource = e.resource

/-- On each resource where an effect is beaten, one that is not beaten is in no group with a beaten member. -/
def Secured : Prop :=
  ∀ e ∈ b.effects, Beaten b.effects e → ∃ f ∈ b.effects, f.status = .validated ∧ f.resource = e.resource ∧
    ¬Beaten b.effects f ∧ ¬DraggedDown b.effects f

variable {b} {e : StagedEffect} {agent : String}

/-- The effects after the conflicts are resolved. -/
theorem effects_resolveConflicts : b.resolveConflicts.effects = Legacy.resolveConflicts b.effects :=
  strikeLosers_eq_resolveConflicts b.distinct

/-- The effect with an id after a map that keeps the ids. -/
theorem mem_map_id {f : StagedEffect → StagedEffect} (same : ∀ e, (f e).effectId = e.effectId) (he : e ∈ b.effects)
    {p : StagedEffect → Prop} : (∃ x ∈ b.effects.map f, x.effectId = e.effectId ∧ p x) ↔ p (f e) := by
  constructor
  · rintro ⟨x, hx, hid, hp⟩
    obtain ⟨original, horiginal, rfl⟩ := List.mem_map.mp hx
    rw [same] at hid
    rwa [List.inj_on_of_nodup_map b.distinct horiginal he hid] at hp
  · intro hp
    exact ⟨_, List.mem_map_of_mem he, same e, hp⟩

/-- An effect loses its resource to the agent that comes first on it. -/
theorem losesTo_iff : b.LosesTo e agent ↔ e ∈ b.effects ∧ Legacy.winner b.effects e = some agent := by
  unfold LosesTo
  rw [effects_resolveConflicts, Legacy.resolveConflicts]
  refine and_congr_right fun he => ?_
  rw [mem_map_id (fun e => ?_) he]
  · cases hwinner : Legacy.winner b.effects e with
    | some first =>
      have hvalid : e.status = .validated := (winner_eq_some.mp hwinner).1
      have htext : s!"Conflict: lost to agent {first}" = s!"Conflict: lost to agent {agent}" ↔ first = agent :=
        ⟨fun hsame => (String.append_right_inj _).mp hsame, fun hsame => by rw [hsame]⟩
      simp [StagedEffect.fail, hvalid, htext]
    | none =>
      refine iff_of_false ?_ (by simp)
      rintro ⟨hvalid, hfailed, htext⟩
      dsimp only at hfailed htext
      split at hfailed
      next hdragged =>
        rw [if_pos hdragged] at htext
        have hfirst := congrArg (fun s => s.toList.head?) (Option.some.inj htext)
        simp [toString] at hfirst
      next => simp [hvalid] at hfailed
  · split
    · rfl
    · split <;> rfl

/-- The effects that are committed. -/
theorem survives_iff_unbeaten : b.Survives e ↔ e ∈ b.effects ∧ e.status = .validated ∧ ¬Beaten b.effects e ∧
    ¬DraggedDown b.effects e := by
  unfold Survives
  refine and_congr_right fun he => and_congr_right fun hvalid => ?_
  change (∃ x ∈ commitValidated b.resolveConflicts.effects, _) ↔ _
  have hdragged : (∃ loser ∈ b.effects, (Legacy.winner b.effects loser).isSome ∧ loser.Grouped ∧
      loser.groupId = e.groupId) ↔ DraggedDown b.effects e := by
    simp only [DraggedDown, winner_isSome_iff]
  rw [effects_resolveConflicts, Legacy.resolveConflicts, commitValidated, List.map_map, mem_map_id (fun e => ?_) he,
    Function.comp_apply, ← winner_isSome_iff]
  · cases hwinner : Legacy.winner b.effects e with
    | some first => simp [StagedEffect.fail]
    | none =>
      dsimp only
      by_cases h : DraggedDown b.effects e <;> simp [hdragged, h, hvalid, StagedEffect.fail]
  · rw [Function.comp_apply]
    split
    · split <;> rfl
    · split
      · split <;> rfl
      · split <;> rfl

/-- Conflicts have winners exactly if on each contested resource an effect that is not beaten is in no group with a
beaten member. -/
theorem won_iff (b : TransactionBuffer) : b.Won ↔ b.Secured := by
  constructor
  · intro h e he hbeaten
    obtain ⟨agent, hwinner⟩ := Option.isSome_iff_exists.mp (winner_isSome_iff.mpr hbeaten)
    obtain ⟨f, hsurvives, hresource, -⟩ := h.winner e agent (losesTo_iff.mpr ⟨he, hwinner⟩)
    obtain ⟨hf, hvalid, hunbeaten, hdragged⟩ := survives_iff_unbeaten.mp hsurvives
    exact ⟨f, hf, hvalid, hresource, hunbeaten, hdragged⟩
  · intro h
    have hsecured (e : StagedEffect) (he : e ∈ b.effects) (hbeaten : Beaten b.effects e) :
        ∃ f, b.Survives f ∧ f.resource = e.resource ∧ ¬Beaten b.effects f := by
      obtain ⟨f, hf, hvalid, hresource, hunbeaten, hdragged⟩ := h e he hbeaten
      exact ⟨f, survives_iff_unbeaten.mpr ⟨hf, hvalid, hunbeaten, hdragged⟩, hresource, hunbeaten⟩
    constructor
    · intro e agent hloses
      obtain ⟨he, hwinner⟩ := losesTo_iff.mp hloses
      obtain ⟨f, hsurvives, hresource, hunbeaten⟩ := hsecured e he (winner_isSome_iff.mp (by rw [hwinner]; rfl))
      exact ⟨f, hsurvives, hresource, agentId_of_not_beaten hsurvives.1 hsurvives.2.1 hresource hunbeaten hwinner⟩
    · intro e he f hf hevalid hfvalid hresource hother
      -- One of the two agents comes first.
      obtain hless | hless := lt_or_gt_of_ne hother
      · obtain ⟨g, hsurvives, hgresource, -⟩ := hsecured e he ⟨hevalid, f, hf, hfvalid, hresource, hless⟩
        exact ⟨g, hsurvives, hgresource⟩
      · obtain ⟨g, hsurvives, hgresource, -⟩ := hsecured f hf ⟨hfvalid, e, he, hevalid, hresource.symm, hless⟩
        exact ⟨g, hsurvives, hgresource.trans hresource⟩

/-- Bob takes a report from carol, in a group that loses a task to alice. -/
def chain : List StageCall :=
  [{ effectType := .kbWrite, agentId := "carol", resource := "report" },
    { effectType := .kbWrite, agentId := "bob", resource := "report", groupId := "delegate", atomicity := "group" },
    { effectType := .taskCreate, agentId := "bob", resource := "task", groupId := "delegate", atomicity := "group" },
    { effectType := .taskCreate, agentId := "alice", resource := "task" }]

/-- Carol loses the report to bob, and no write of it is committed. -/
theorem report_lost : ¬((stageAll chain).validate unchecked).Won := by
  have hloses : ∃ e ∈ ((stageAll chain).validate unchecked).effects,
      Legacy.winner ((stageAll chain).validate unchecked).effects e = some "bob" ∧ e.resource = "report" := by
    decide +kernel
  have hlost : ∀ f ∈ ((stageAll chain).validate unchecked).effects, f.resource = "report" →
      Beaten ((stageAll chain).validate unchecked).effects f ∨
        DraggedDown ((stageAll chain).validate unchecked).effects f := by
    decide +kernel
  intro h
  obtain ⟨e, he, hwinner, hreport⟩ := hloses
  obtain ⟨f, hsurvives, hresource, -⟩ := h.winner e "bob" (losesTo_iff.mpr ⟨he, hwinner⟩)
  obtain ⟨hf, -, hunbeaten, hdragged⟩ := survives_iff_unbeaten.mp hsurvives
  exact (hlost f hf (hresource.trans hreport)).elim hunbeaten hdragged

end TransactionBuffer

end MyTeam.Legacy
