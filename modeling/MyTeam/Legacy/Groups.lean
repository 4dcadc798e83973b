import MyTeam.Legacy.TransactionBuffer

/-!
# Groups of effects

What `validate`, `resolve_conflicts` and `commit` make of the effects of a buffer: the effects of a
group are committed or fail as one, and neither the order of staging nor the numbers of the effects
have a part in it.
-/

namespace MyTeam.Legacy

open MyTeam.Py

section Outcome

variable {checks : Checks} {effects others : List StagedEffect}

/-- The ways an effect fails in `resolve_conflicts`: before it, by losing its resource, or with its group. -/
def Fails (effects : List StagedEffect) (e : StagedEffect) : Prop :=
  e.status = .failed ∨ (winner effects e).isSome ∨
    ∃ loser ∈ effects, (winner effects loser).isSome ∧ loser.Grouped ∧ loser.groupId = e.groupId

/-- After validation an effect is validated or failed. -/
theorem status_validated (staged : ∀ e ∈ effects, e.status = .staged) :
    ∀ e ∈ failGroups (effects.map checks.validateEffect), e.status = .validated ∨ e.status = .failed := by
  intro e he
  obtain ⟨checked, hchecked, rfl⟩ := List.mem_map.mp he
  obtain ⟨original, horiginal, rfl⟩ := List.mem_map.mp hchecked
  split
  · exact Or.inr rfl
  · unfold Checks.validateEffect
    rw [if_neg (not_not.mpr (staged original horiginal))]
    split
    · exact Or.inr rfl
    · exact Or.inl rfl

/-- After validation the members of a group have failed together or not at all. -/
theorem failed_together {e f : StagedEffect} (he : e ∈ failGroups effects) (hf : f ∈ failGroups effects)
    (hegrouped : e.Grouped) (hfgrouped : f.Grouped) (hgroup : e.groupId = f.groupId) (hfailed : e.status = .failed) :
    f.status = .failed := by
  obtain ⟨e₀, he₀, rfl⟩ := List.mem_map.mp he
  obtain ⟨f₀, hf₀, rfl⟩ := List.mem_map.mp hf
  have hfields (x : StagedEffect) (p : Prop) [Decidable p] (error : String) :
      ((if p then x.fail error else x).Grouped ↔ x.Grouped) ∧ (if p then x.fail error else x).groupId = x.groupId := by
    split <;> exact ⟨Iff.rfl, rfl⟩
  rw [(hfields _ _ _).2, (hfields _ _ _).2] at hgroup
  rw [(hfields _ _ _).1] at hegrouped hfgrouped
  by_contra hstands
  have hstatus : f₀.status ≠ .failed := by
    intro h
    split at hstands
    · exact hstands rfl
    · exact hstands h
  have hmember : ∃ member ∈ effects, member.Grouped ∧ member.groupId = f₀.groupId ∧ member.status = .failed := by
    split at hfailed
    next hspread =>
      obtain ⟨-, -, member, hmem, hgrouped, hmgroup, hmfailed⟩ := hspread
      exact ⟨member, hmem, hgrouped, hmgroup.trans hgroup, hmfailed⟩
    next => exact ⟨e₀, he₀, hegrouped, hgroup, hfailed⟩
  rw [if_pos ⟨hfgrouped, hstatus, hmember⟩] at hstands
  exact hstands rfl

/-- An effect that was validated or failed ends as failed or committed. -/
theorem status_settled {settled : StagedEffect} (before : ∀ e ∈ effects, e.status = .validated ∨ e.status = .failed)
    (hsettled : settled ∈ commitValidated (resolveConflicts effects)) :
    ∃ e ∈ effects, settled.groupId = e.groupId ∧ settled.atomicity = e.atomicity ∧
      (Fails effects e → settled.status = .failed) ∧ (¬Fails effects e → settled.status = .committed) := by
  obtain ⟨resolved, hresolved, rfl⟩ := List.mem_map.mp hsettled
  obtain ⟨e, he, rfl⟩ := List.mem_map.mp hresolved
  refine ⟨e, he, ?_⟩
  cases hwinner : winner effects e with
  | some agent => exact ⟨rfl, rfl, fun _ => rfl, fun hstands => absurd (Or.inr (Or.inl (by simp [hwinner]))) hstands⟩
  | none =>
    dsimp only
    by_cases hspread : e.status ≠ .failed ∧
        ∃ loser ∈ effects, (winner effects loser).isSome ∧ loser.Grouped ∧ loser.groupId = e.groupId
    · rw [if_pos hspread]
      exact ⟨rfl, rfl, fun _ => rfl, fun hstands => absurd (Or.inr (Or.inr hspread.2)) hstands⟩
    · rw [if_neg hspread]
      rcases before e he with hvalid | hfailed
      · rw [if_pos hvalid]
        refine ⟨rfl, rfl, fun hfails => ?_, fun _ => rfl⟩
        rcases hfails with hfailed | hloses | hgroup
        · simp [hvalid] at hfailed
        · simp [hwinner] at hloses
        · exact absurd ⟨by simp [hvalid], hgroup⟩ hspread
      · have hnot : e.status ≠ .validated := by simp [hfailed]
        rw [if_neg hnot]
        exact ⟨rfl, rfl, fun _ => hfailed, fun hstands => absurd (Or.inl hfailed) hstands⟩

/-- The members of a group fail in `resolve_conflicts` together. -/
theorem Fails.of_member {e f : StagedEffect} (he : e ∈ failGroups effects) (hf : f ∈ failGroups effects)
    (hegrouped : e.Grouped) (hfgrouped : f.Grouped) (hgroup : e.groupId = f.groupId)
    (hfails : Fails (failGroups effects) e) : Fails (failGroups effects) f := by
  rcases hfails with hfailed | hloses | ⟨loser, hloser, hloses, hgrouped, hlosergroup⟩
  · exact Or.inl (failed_together he hf hegrouped hfgrouped hgroup hfailed)
  · exact Or.inr (Or.inr ⟨e, he, hloses, hegrouped, hgroup⟩)
  · exact Or.inr (Or.inr ⟨loser, hloser, hloses, hgrouped, hlosergroup.trans hgroup⟩)

/-- Groups fail in the same way in any order of the effects. -/
theorem failGroups_perm (reordered : others.Perm effects) : (failGroups others).Perm (failGroups effects) := by
  unfold failGroups
  simp only [reordered.mem_iff]
  exact reordered.map _

/-- Whom an effect loses to does not depend on the order of the effects. -/
theorem winner_perm (reordered : others.Perm effects) {e : StagedEffect} : winner others e = winner effects e := by
  refine Option.ext fun agent => ?_
  rw [winner_eq_some, winner_eq_some]
  simp only [reordered.mem_iff]

/-- Conflicts are settled in the same way in any order of the effects. -/
theorem resolveConflicts_perm (reordered : others.Perm effects) :
    (resolveConflicts others).Perm (resolveConflicts effects) := by
  unfold resolveConflicts
  simp only [reordered.mem_iff, winner_perm reordered]
  exact reordered.map _

end Outcome

section Anonymous

variable {effects : List StagedEffect}

/-- A property that does not read the ids holds of some effect of a list with and without them. -/
theorem exists_anonymous {p : StagedEffect → Prop} (same : ∀ e, p e.anonymous ↔ p e) :
    (∃ e ∈ effects.map StagedEffect.anonymous, p e) ↔ ∃ e ∈ effects, p e := by
  constructor
  · rintro ⟨_, hmem, hp⟩
    obtain ⟨e, he, rfl⟩ := List.mem_map.mp hmem
    exact ⟨e, he, (same e).mp hp⟩
  · rintro ⟨e, he, hp⟩
    exact ⟨e.anonymous, List.mem_map_of_mem he, (same e).mpr hp⟩

/-- Groups fail the same without ids. -/
theorem failGroups_anonymous :
    failGroups (effects.map StagedEffect.anonymous) = (failGroups effects).map StagedEffect.anonymous := by
  unfold failGroups
  rw [List.map_map, List.map_map]
  refine List.map_congr_left fun e _ => ?_
  have hmembers : (∃ member ∈ effects.map StagedEffect.anonymous, member.Grouped ∧ member.groupId = e.groupId ∧
      member.status = .failed) ↔ ∃ member ∈ effects, member.Grouped ∧ member.groupId = e.groupId ∧
        member.status = .failed :=
    exists_anonymous fun _ => Iff.rfl
  have hcondition : (e.anonymous.Grouped ∧ e.anonymous.status ≠ .failed ∧
      ∃ member ∈ effects.map StagedEffect.anonymous, member.Grouped ∧ member.groupId = e.anonymous.groupId ∧
        member.status = .failed) ↔
      e.Grouped ∧ e.status ≠ .failed ∧ ∃ member ∈ effects, member.Grouped ∧ member.groupId = e.groupId ∧
        member.status = .failed :=
    and_congr_right fun _ => and_congr_right fun _ => hmembers
  simp only [Function.comp_apply, hcondition]
  split <;> rfl

/-- Whom an effect loses to is the same without ids. -/
theorem winner_anonymous {e : StagedEffect} :
    winner (effects.map StagedEffect.anonymous) e.anonymous = winner effects e := by
  refine Option.ext fun other => ?_
  rw [winner_eq_some, winner_eq_some, List.forall_mem_map, exists_anonymous fun _ => Iff.rfl]
  rfl

/-- Conflicts are settled the same without ids. -/
theorem resolveConflicts_anonymous : resolveConflicts (effects.map StagedEffect.anonymous) =
    (resolveConflicts effects).map StagedEffect.anonymous := by
  unfold resolveConflicts
  rw [List.map_map, List.map_map]
  refine List.map_congr_left fun e _ => ?_
  have hlosers : (∃ loser ∈ effects.map StagedEffect.anonymous,
      (winner (effects.map StagedEffect.anonymous) loser).isSome ∧ loser.Grouped ∧ loser.groupId = e.groupId) ↔
      ∃ loser ∈ effects, (winner effects loser).isSome ∧ loser.Grouped ∧ loser.groupId = e.groupId := by
    rw [exists_anonymous fun _ => Iff.rfl]
    refine exists_congr fun loser => and_congr_right fun _ => ?_
    have hwinner : winner (effects.map StagedEffect.anonymous) loser = winner effects loser := winner_anonymous
    rw [hwinner]
  have hcondition : (e.anonymous.status ≠ .failed ∧ ∃ loser ∈ effects.map StagedEffect.anonymous,
      (winner (effects.map StagedEffect.anonymous) loser).isSome ∧ loser.Grouped ∧
        loser.groupId = e.anonymous.groupId) ↔
      e.status ≠ .failed ∧ ∃ loser ∈ effects, (winner effects loser).isSome ∧ loser.Grouped ∧
        loser.groupId = e.groupId :=
    and_congr_right fun _ => hlosers
  simp only [Function.comp_apply, winner_anonymous, hcondition]
  split
  · rfl
  · split <;> rfl

/-- Effects are committed the same without ids. -/
theorem commitValidated_anonymous : commitValidated (effects.map StagedEffect.anonymous) =
    (commitValidated effects).map StagedEffect.anonymous := by
  unfold commitValidated
  rw [List.map_map, List.map_map]
  refine List.map_congr_left fun e _ => ?_
  have hstatus : e.anonymous.status = e.status := rfl
  simp only [Function.comp_apply, hstatus]
  split <;> rfl

end Anonymous

section World

variable {ctx : Context} {w : World} {effects : List StagedEffect}

/-- The callbacks that Commit passes. -/
def Checks.ofWorld (ctx : Context) (w : World) : Checks where
  checkVersion := some fun resource expected => decide ((w.kb.getVersion resource : ℤ) = expected)
  checkLock := some fun resource agentId lockToken =>
    if "shared-kb/".toList <+: resource.toList ∨ "project/".toList <+: resource.toList then
      match w.kb.getLock resource with
      | none => false
      | some lock =>
        if lock.ownerAgentId ≠ agentId then false
        else
          match lockToken with
          | none => true
          | some token => !decide (token ≠ "" ∧ lock.lockToken ≠ token)
    else true
  checkPermission := some fun agentId resource operation =>
    if operation ∈ ["kb_write", "kb_create", "kb_delete"] then w.kb.permits agentId resource operation else true
  checkTask := some (Legacy.checkTask ctx w.tasks)

/-- The task check of Commit. -/
theorem taskError_ofWorld {e : StagedEffect} : (Checks.ofWorld ctx w).taskError e = checkTask ctx w.tasks e := by
  unfold Checks.taskError
  split
  next => rfl
  next hother => rw [checkTask, if_pos hother]

/-- The version check of Commit. -/
theorem versionError_ofWorld {e : StagedEffect} : (Checks.ofWorld ctx w).versionError e = checkVersion w.kb e := by
  unfold Checks.versionError checkVersion
  cases e.expectedVersion with
  | none => rfl
  | some expected => simp only [Checks.ofWorld, decide_eq_true_eq]

/-- The lock check of Commit. -/
theorem lockError_ofWorld {e : StagedEffect} : (Checks.ofWorld ctx w).lockError e = checkLock w.kb e := by
  unfold Checks.lockError checkLock
  by_cases hwrites : e.effectType ∈ [.kbWrite, .kbCreate, .kbDelete, .fileWrite, .filePatch, .fileDelete]
  · by_cases hshared : "shared-kb/".toList <+: e.resource.toList ∨ "project/".toList <+: e.resource.toList
    · rw [if_pos hwrites, if_pos ⟨hwrites, hshared⟩]
      simp only [Checks.ofWorld, Option.bind_some, if_pos hshared]
      cases w.kb.getLock e.resource with
      | none => rfl
      | some lock =>
        by_cases howner : lock.ownerAgentId = e.agentId
        · cases e.lockToken with
          | none => simp [howner]
          | some token => by_cases htoken : token ≠ "" ∧ lock.lockToken ≠ token <;> simp [howner, htoken]
        · simp [howner]
    · rw [if_pos hwrites, if_neg fun h => hshared h.2]
      simp only [Checks.ofWorld, Option.bind_some, if_neg hshared, if_true]
  · rw [if_neg hwrites, if_neg fun h => hwrites h.1]

/-- The permission check of Commit. -/
theorem permissionError_ofWorld {e : StagedEffect} :
    (Checks.ofWorld ctx w).permissionError e = checkPermission w.kb e := by
  have hcallback : (Checks.ofWorld ctx w).checkPermission = some fun agentId resource operation =>
      if operation ∈ ["kb_write", "kb_create", "kb_delete"] then w.kb.permits agentId resource operation else true :=
        rfl
  unfold Checks.permissionError checkPermission
  rw [hcallback, Option.bind_some]
  cases e.effectType <;> simp [EffectType.value]

/-- The checks of Commit on an effect are those of the callbacks. -/
theorem error_ofWorld {e : StagedEffect} : (Checks.ofWorld ctx w).error e =
    (checkTask ctx w.tasks e).or ((checkVersion w.kb e).or ((checkLock w.kb e).or (checkPermission w.kb e))) := by
  rw [Checks.error, taskError_ofWorld, versionError_ofWorld, lockError_ofWorld, permissionError_ofWorld]

/-- The end of validation is that of the groups. -/
theorem validate_eq_failGroups : validate ctx w effects = failGroups (effects.map (validateEffect ctx w)) :=
  rfl

end World

namespace TransactionBuffer

variable {checks : Checks}

/-- A sequence of calls of `stage` on a new buffer. -/
def stageAll (calls : List StageCall) : TransactionBuffer :=
  calls.foldl stage empty

/-- Up to their ids, the effects in a buffer are those of the calls. -/
theorem anonymous_foldl_stage {calls : List StageCall} {buffer : TransactionBuffer} :
    (calls.foldl stage buffer).effects.map StagedEffect.anonymous =
      buffer.effects.map StagedEffect.anonymous ++ calls.map fun call => (call.effect "").anonymous := by
  induction calls generalizing buffer with
  | nil => simp
  | cons call calls ih =>
    rw [List.foldl_cons, ih, stage, List.map_append, List.append_assoc]
    rfl

/-- Calls in another order stage the same effects under other ids. -/
theorem anonymous_stageAll_perm {calls others : List StageCall} (reordered : others.Perm calls) :
    ((stageAll others).effects.map StagedEffect.anonymous).Perm
      ((stageAll calls).effects.map StagedEffect.anonymous) := by
  rw [stageAll, stageAll, anonymous_foldl_stage, anonymous_foldl_stage]
  exact (reordered.map _).append_left _

/-- Validation of an effect does not read its ids when the task check does not. -/
theorem Checks.validateEffect_anonymous (blind : ∀ check ∈ checks.checkTask, ∀ e : StagedEffect,
    check e.anonymous = check e)
    {e : StagedEffect} : checks.validateEffect e.anonymous = (checks.validateEffect e).anonymous := by
  have htask : checks.taskError e.anonymous = checks.taskError e := by
    cases hcheck : checks.checkTask with
    | none => simp [Checks.taskError, hcheck]
    | some check =>
      have hsame := blind check (by simp [hcheck]) e
      simp only [Checks.taskError, hcheck, Option.bind_some, hsame]
      rfl
  have herror : checks.error e.anonymous = checks.error e := by
    rw [Checks.error, Checks.error, htask]
    rfl
  have hstatus : e.anonymous.status = e.status := rfl
  unfold Checks.validateEffect
  rw [herror, hstatus]
  split
  · rfl
  · split <;> rfl

/-- Effects of a buffer end the same in any order. -/
theorem settle_perm {buffer other : TransactionBuffer} (reordered : other.effects.Perm buffer.effects) :
    (other.settle checks).effects.Perm (buffer.settle checks).effects := by
  rw [effects_settle, effects_settle]
  exact (resolveConflicts_perm (failGroups_perm (reordered.map _))).map _

/-- Effects under other ids end the same in any order. -/
theorem settle_anonymous_perm (blind : ∀ check ∈ checks.checkTask, ∀ e : StagedEffect, check e.anonymous = check e)
    {buffer other : TransactionBuffer}
    (reordered : (other.effects.map StagedEffect.anonymous).Perm (buffer.effects.map StagedEffect.anonymous)) :
    ((other.settle checks).effects.map StagedEffect.anonymous).Perm
      ((buffer.settle checks).effects.map StagedEffect.anonymous) := by
  have hanonymous (effects : List StagedEffect) :
      (commitValidated (Legacy.resolveConflicts (failGroups (effects.map checks.validateEffect)))).map
        StagedEffect.anonymous =
      commitValidated (Legacy.resolveConflicts (failGroups ((effects.map StagedEffect.anonymous).map
        checks.validateEffect))) := by
    have hchecked : (effects.map StagedEffect.anonymous).map checks.validateEffect =
        (effects.map checks.validateEffect).map StagedEffect.anonymous := by
      simp [Function.comp_def, Checks.validateEffect_anonymous blind]
    rw [hchecked, failGroups_anonymous, resolveConflicts_anonymous, commitValidated_anonymous]
  rw [effects_settle, effects_settle, hanonymous, hanonymous]
  exact (resolveConflicts_perm (failGroups_perm (reordered.map _))).map _

/-- A group of a settled buffer: the effects that fail with each other. -/
def member (buffer : TransactionBuffer) (groupId : String) (e : StagedEffect) : Prop :=
  e ∈ buffer.effects ∧ e.groupId = groupId ∧ e.atomicity = "group"

/-- A group is committed as a whole or fails as a whole. -/
theorem member_together {buffer : TransactionBuffer} (staged : ∀ e ∈ buffer.effects, e.status = .staged)
    {groupId : String}
    (named : groupId ≠ "") :
    (∀ e, (buffer.settle checks).member groupId e → e.status = .committed) ∨
      ∀ e, (buffer.settle checks).member groupId e → e.status = .failed := by
  have hstatus := @status_validated checks _ staged
  generalize hchecked : failGroups (buffer.effects.map checks.validateEffect) = checked at hstatus
  by_cases hfails : ∃ e ∈ checked, e.groupId = groupId ∧ e.atomicity = "group" ∧ Fails checked e
  · obtain ⟨e, he, rfl, hatomicity, hfails⟩ := hfails
    refine Or.inr fun f ⟨hf, hgroup, hfatomicity⟩ => ?_
    rw [effects_settle, hchecked] at hf
    obtain ⟨f₀, hf₀, hsamegroup, hsameatomicity, hfailed, -⟩ := status_settled hstatus hf
    rw [hsamegroup] at hgroup
    rw [hsameatomicity] at hfatomicity
    rw [← hchecked] at hf₀ hfailed he hfails
    exact hfailed (hfails.of_member he hf₀ ⟨named, hatomicity⟩ ⟨by rwa [hgroup], hfatomicity⟩ hgroup.symm)
  · refine Or.inl fun f ⟨hf, hgroup, hfatomicity⟩ => ?_
    rw [effects_settle, hchecked] at hf
    obtain ⟨f₀, hf₀, hsamegroup, hsameatomicity, -, hcommitted⟩ := status_settled hstatus hf
    refine hcommitted fun hfailed => hfails ⟨f₀, hf₀, hsamegroup ▸ hgroup, hsameatomicity ▸ hfatomicity, hfailed⟩

/-- The effects of a group are all committed or have all failed, and neither the order in which effects were staged
nor the numbers they got with it decide which: in any order of the same effects each ends the same, and so do the
effects of the same calls in any order, for task checks that do not read the numbers. -/
theorem settle_atomic_unordered (checks : Checks) (buffer : TransactionBuffer)
    (staged : ∀ e ∈ buffer.effects, e.status = .staged) :
    (∀ groupId, groupId ≠ "" →
      (∀ e, (buffer.settle checks).member groupId e → e.status = .committed) ∨
        ∀ e, (buffer.settle checks).member groupId e → e.status = .failed) ∧
    (∀ other : TransactionBuffer, other.effects.Perm buffer.effects →
      (other.settle checks).effects.Perm (buffer.settle checks).effects) ∧
    ((∀ check ∈ checks.checkTask, ∀ e : StagedEffect, check e.anonymous = check e) →
      ∀ other : TransactionBuffer,
        (other.effects.map StagedEffect.anonymous).Perm (buffer.effects.map StagedEffect.anonymous) →
        ((other.settle checks).effects.map StagedEffect.anonymous).Perm
          ((buffer.settle checks).effects.map StagedEffect.anonymous)) :=
  ⟨fun _ named => member_together staged named, fun _ reordered => settle_perm reordered,
    fun blind _ reordered => settle_anonymous_perm blind reordered⟩

/-- A delegation, a task and an email in a group, to a task that another agent makes too. -/
def delegation : List StageCall :=
  [{ effectType := .taskCreate, agentId := "bob", resource := "task.1", groupId := "delegate", atomicity := "group" },
    { effectType := .emailSend, agentId := "bob", resource := "mail.1", groupId := "delegate", atomicity := "group" },
    { effectType := .taskCreate, agentId := "alice", resource := "task.1" }]

/-- No callbacks. -/
def unchecked : Checks :=
  ⟨none, none, none, none⟩

/-- The delegation loses its task and with it the email, also when it is staged last. -/
theorem delegation_fails :
    (∀ e, ((stageAll delegation).settle unchecked).member "delegate" e → e.status = .failed) ∧
      (((stageAll (delegation.rotate 2)).settle unchecked).effects.map StagedEffect.anonymous).Perm
        (((stageAll delegation).settle unchecked).effects.map StagedEffect.anonymous) := by
  have hstaged : ∀ e ∈ (stageAll delegation).effects, e.status = .staged := by decide +kernel
  obtain ⟨hgroups, -, hnumbers⟩ := settle_atomic_unordered unchecked (stageAll delegation) hstaged
  refine ⟨?_, hnumbers (by simp [unchecked]) _ (anonymous_stageAll_perm (List.rotate_perm _ _))⟩
  refine (hgroups "delegate" (by decide)).resolve_left fun hcommitted => ?_
  have hlost : ∃ e ∈ ((stageAll delegation).settle unchecked).effects,
      e.groupId = "delegate" ∧ e.atomicity = "group" ∧ e.status = .failed := by
    rw [effects_settle]
    decide +kernel
  obtain ⟨e, he, hgroup, hatomicity, hfailed⟩ := hlost
  have hstatus := hcommitted e ⟨he, hgroup, hatomicity⟩
  rw [hfailed] at hstatus
  cases hstatus

end TransactionBuffer

end MyTeam.Legacy
