import MyTeam.Legacy.Slots
import MyTeam.Legacy.Groups
import MyTeam.Legacy.Undo.Worlds

/-!
# Advances of calendar rules in a commit

The slot of an advance is the state of its rule, and that of a creation is whether its task is
there, where no other effect of the commit is on the rule or names the task.
-/

namespace MyTeam.Legacy

open MyTeam.Py MyTeam.Async

variable {ctx : Context} {w s : World} {e e' : StagedEffect} {undo : InvertData}

/-- Effects that were staged alike have the same data. -/
theorem data_of_asStaged (h : e.asStaged = e'.asStaged) : e.data = e'.data := by
  have heq := congrArg StagedEffect.data h
  exact heq

/-- What an effect does to the rules. -/
theorem applyEffect_rules (ctx : Context) (w : World) (e : StagedEffect) : (applyEffect ctx w e).state.rules =
    if e.effectType = .ruleAdvance then (applyRule w.rules e).state else w.rules := by
  unfold applyEffect
  cases e.effectType with
  | fileWrite | filePatch | emailSend | taskCreate | ruleAdvance | taskUpdate | kbWrite | kbCreate | kbDelete
  | recordUpsert | recordDelta => rw [Outcome.state_map]; rfl
  | _ => rfl

/-- What an effect does to the tasks. -/
theorem applyEffect_tasks (ctx : Context) (w : World) (e : StagedEffect) : (applyEffect ctx w e).state.tasks =
    if e.effectType = .taskCreate then (applyTaskCreate ctx w.tasks e).state
    else if e.effectType = .taskUpdate then (applyTaskUpdate ctx w.tasks e).state else w.tasks := by
  unfold applyEffect
  cases e.effectType with
  | fileWrite | filePatch | emailSend | taskCreate | ruleAdvance | taskUpdate | kbWrite | kbCreate | kbDelete
  | recordUpsert | recordDelta => rw [Outcome.state_map]; rfl
  | _ => rfl

/-- An effect that is applied ends in its state. -/
theorem state_of_applied (h : applyEffect ctx w e = .applied s undo) : (applyEffect ctx w e).state = s := by
  rw [h]
  rfl

section Rules

variable {rule : String} {before after : ScheduleRule}

/-- The effects that advance a rule. -/
def AdvancesRule (rule : String) (e : StagedEffect) : Prop :=
  e.effectType = .ruleAdvance ∧ e.resource = rule

/-- Advances name their resource, and those of the rule take it from one state to another. -/
def AdvanceDomain (rule : String) (before after : ScheduleRule) (e : StagedEffect) : Prop :=
  e.effectType = .ruleAdvance → e.ruleName = some e.resource ∧ (e.resource = rule → e.advance before = after)

/-- An advance of another rule, or another effect, leaves the rule alone. -/
theorem rules_other (hdomain : AdvanceDomain rule before after e) (other : ¬AdvancesRule rule e) :
    (applyEffect ctx w e).state.rules rule = w.rules rule := by
  rw [applyEffect_rules]
  split_ifs with htype
  · obtain ⟨state, data, happly⟩ | hstays := applyRule_stays w.rules e
    · obtain ⟨name, old, hname, -, rfl, -⟩ := applyRule_applied_iff.mp happly
      have hne : rule ≠ name := by
        rintro rfl
        exact other ⟨htype, Option.some_injective _ ((hdomain htype).1.symm.trans hname)⟩
      rw [happly]
      exact Function.update_of_ne hne _ _
    · rw [hstays]
  · rfl

/-- An advance of the rule is applied. -/
theorem rules_mine (hdomain : AdvanceDomain rule before after e) (mine : AdvancesRule rule e)
    (hbefore : w.rules rule = some before) : ∃ s, applyEffect ctx w e =
      .applied s (.rule before.nextRunTick before.lastFiredAt) ∧ s.rules rule = some after := by
  obtain ⟨htype, rfl⟩ := mine
  obtain ⟨hname, hafter⟩ := hdomain htype
  have happly := applyRule_applied_iff.mpr ⟨e.resource, before, hname, hbefore, rfl, rfl⟩
  refine ⟨{ w with rules := Function.update w.rules e.resource (some (e.advance before)) }, ?_, ?_⟩
  · unfold applyEffect
    rw [htype]
    dsimp only
    rw [happly]
    rfl
  · exact (Function.update_self _ _ _).trans (congrArg some (hafter rfl))

/-- The inverse of an advance of another rule, or of another effect, leaves the rule alone. -/
theorem rules_undo_other (other : ¬AdvancesRule rule e) : (invertOne w e).rules rule = w.rules rule := by
  rw [invertOne_eq_undo]
  change e.undoRules w.rules rule = w.rules rule
  by_cases htype : e.effectType = .ruleAdvance
  · rw [undoRules_of_ruleAdvance htype]
    exact Function.update_of_ne (fun heq => other ⟨htype, heq.symm⟩) _ _
  · rw [undoRules_of_ne htype]

/-- The inverse of an advance of the rule puts back what was recorded. -/
theorem rules_undo_mine (mine : AdvancesRule rule e)
    (recorded : e.invertData = .rule before.nextRunTick before.lastFiredAt)
    (hrule : w.rules rule ≠ none) : (invertOne w e).rules rule = some before := by
  obtain ⟨htype, rfl⟩ := mine
  rw [invertOne_eq_undo]
  change e.undoRules w.rules e.resource = some before
  obtain ⟨old, hold⟩ := Option.ne_none_iff_exists'.mp hrule
  have hprevious : e.previousRule = before := by rw [StagedEffect.previousRule, recorded]
  rw [undoRules_of_ruleAdvance htype, Function.update_self, hold, Option.map_some, hprevious]

/-- The slot of the advance of a rule from one state to another. -/
def ruleSlot (ctx : Context) (rule : String) (before after : ScheduleRule) : Slot ctx where
  mine := AdvancesRule rule
  domain := AdvanceDomain rule before after
  recorded e := AdvancesRule rule e → e.invertData = .rule before.nextRunTick before.lastFiredAt
  absent w := w.rules rule = some before
  present w := w.rules rule = some after
  mine_congr h mine := ⟨effectType_of_asStaged h ▸ mine.1, resource_of_asStaged h ▸ mine.2⟩
  domain_congr h hdomain htype := by
    obtain ⟨hname, hafter⟩ := hdomain ((effectType_of_asStaged h).trans htype)
    have hdata := data_of_asStaged h
    have hresource := resource_of_asStaged h
    unfold StagedEffect.ruleName StagedEffect.advance StagedEffect.get at *
    rw [← hdata, ← hresource]
    exact ⟨hname, hafter⟩
  recorded_congr h hdata hrecorded mine :=
    hdata ▸ hrecorded ⟨(effectType_of_asStaged h).trans mine.1, (resource_of_asStaged h).trans mine.2⟩
  blank _ other _ mine := absurd mine other
  records hdomain hor happly mine := by
    obtain habsent | hother := hor
    · obtain ⟨_, hmine, -⟩ := rules_mine hdomain mine habsent
      rw [hmine] at happly
      cases happly
      rfl
    · exact absurd mine hother
  absent_other hdomain other habsent := (rules_other hdomain other).trans habsent
  present_other hdomain other hpresent := (rules_other hdomain other).trans hpresent
  present_mine hdomain mine habsent happly := by
    obtain ⟨_, hmine, hafter⟩ := rules_mine hdomain mine habsent
    rw [hmine] at happly
    cases happly
    exact hafter
  absent_mine hdomain mine habsent hnone := by
    obtain ⟨s, hmine, -⟩ := rules_mine hdomain mine habsent
    exact absurd hmine (hnone s _)
  absent_undo {w e} _ hrecorded habsent := by
    by_cases mine : AdvancesRule rule e
    · exact rules_undo_mine mine (hrecorded mine) (by simp [habsent])
    · exact (rules_undo_other mine).trans habsent
  present_undo _ _ other hpresent := (rules_undo_other other).trans hpresent
  undone _ hrecorded mine hpresent := rules_undo_mine mine (hrecorded mine) (by simp [hpresent])

end Rules

section Tasks

variable {t : String} {tree : TaskTree}

/-- The effects that create a task. -/
def CreatesTask (t : String) (e : StagedEffect) : Prop :=
  e.effectType = .taskCreate ∧ e.resource = t

/-- Only a creation of the task has it as its resource, or names it. -/
def CreationDomain (t : String) (e : StagedEffect) : Prop :=
  (e.resource = t → e.effectType = .taskCreate ∧ e.get "task_id" (.str e.resource) = .str t) ∧
    (e.effectType = .taskCreate → e.get "task_id" (.str e.resource) = .str t → e.resource = t)

/-- The inverse of an effect is on the task exactly if the effect creates it. -/
def CreationRecorded (t : String) (e : StagedEffect) : Prop :=
  e.inverseTask = some t ↔ CreatesTask t e

/-- An effect that does not create the task leaves it alone. -/
theorem tasks_other (hdomain : CreationDomain t e) (other : ¬CreatesTask t e) :
    (applyEffect ctx w e).state.tasks.tasks t = w.tasks.tasks t := by
  rw [applyEffect_tasks]
  split_ifs with hcreate hupdate
  · obtain ⟨tree', undo, happly⟩ | hstays := applyTaskCreate_stays ctx w.tasks e
    · obtain ⟨task, hcreated, -, -, rfl, -⟩ := applyTaskCreate_applied_iff.mp happly
      have hne : t ≠ task.taskId := by
        rintro rfl
        exact other ⟨hcreate, hdomain.2 hcreate (createdTask_eq_ok hcreated).1⟩
      rw [happly]
      exact Function.update_of_ne hne _ _
    · rw [hstays]
  · obtain ⟨tree', undo, happly⟩ | hstays := applyTaskUpdate_stays ctx w.tasks e
    · obtain ⟨_, _, -, -, rfl, -⟩ := applyTaskUpdate_applied_iff.mp happly
      have hne : t ≠ e.resource := fun heq => hcreate (hdomain.1 heq.symm).1
      rw [happly]
      exact Function.update_of_ne hne _ _
    · rw [hstays]
  · rfl

/-- A creation of the task that is applied creates it, and records it. -/
theorem tasks_mine (hdomain : CreationDomain t e) (mine : CreatesTask t e)
    (happly : applyEffect ctx w e = .applied s undo) :
    (s.tasks.tasks t).isSome ∧ undo = .task t := by
  have hstate : s.tasks = (applyTaskCreate ctx w.tasks e).state := by
    rw [← state_of_applied happly, applyEffect_tasks, if_pos mine.1]
  unfold applyEffect at happly
  rw [mine.1] at happly
  dsimp only at happly
  cases hcreate : applyTaskCreate ctx w.tasks e with
  | applied tree' undo' =>
    rw [hcreate] at happly hstate
    cases happly
    obtain ⟨task, hcreated, -, -, rfl, rfl⟩ := applyTaskCreate_applied_iff.mp hcreate
    have hid : task.taskId = t := by
      have hname := (createdTask_eq_ok hcreated).1.symm.trans (hdomain.1 mine.2).2
      cases hname
      rfl
    subst hid
    refine ⟨?_, rfl⟩
    rw [hstate]
    simp [Outcome.state, TaskTree.create]
  | failed => rw [hcreate] at happly; cases happly
  | raised => rw [hcreate] at happly; cases happly

/-- What is recorded with an effect that is applied. -/
theorem creationRecorded_of_applied (hdomain : CreationDomain t e) (happly : applyEffect ctx w e = .applied s undo) :
    CreationRecorded t { e with applied := true, invertData := undo } := by
  by_cases hcreate : e.effectType = .taskCreate
  · have hcreated := happly
    unfold applyEffect at hcreated
    rw [hcreate] at hcreated
    dsimp only at hcreated
    cases houtcome : applyTaskCreate ctx w.tasks e with
    | applied tree' undo' =>
      rw [houtcome] at hcreated
      cases hcreated
      obtain ⟨task, htask, -, -, -, rfl⟩ := applyTaskCreate_applied_iff.mp houtcome
      have hname := (createdTask_eq_ok htask).1
      have hinverse : StagedEffect.inverseTask { e with applied := true, invertData := .task task.taskId } =
          some task.taskId := by
        unfold StagedEffect.inverseTask
        rw [hcreate]
        rfl
      rw [CreationRecorded, hinverse, Option.some_inj]
      constructor
      · rintro rfl
        exact ⟨hcreate, hdomain.2 hcreate hname⟩
      · rintro ⟨-, hresource⟩
        have hsame := hname.symm.trans (hdomain.1 hresource).2
        cases hsame
        rfl
    | failed => rw [houtcome] at hcreated; cases hcreated
    | raised => rw [houtcome] at hcreated; cases hcreated
  · have hne : e.resource ≠ t := fun heq => hcreate (hdomain.1 heq).1
    have hother : ¬CreatesTask t { e with applied := true, invertData := undo } := fun mine => hcreate mine.1
    refine ⟨fun hinverse => absurd hinverse ?_, fun mine => absurd mine hother⟩
    unfold StagedEffect.inverseTask
    cases htype : e.effectType with
    | taskCreate => exact absurd htype hcreate
    | lockAcquire | memoryRecall =>
      unfold applyEffect at happly
      rw [htype] at happly
      cases happly
      simpa [EffectType.invertKind] using hne
    | taskUpdate =>
      cases undo with
      | taskState => simpa [EffectType.invertKind] using hne
      | _ => simp [EffectType.invertKind]
    | _ => simp [EffectType.invertKind]

/-- What an effect records before it is applied. -/
theorem creationRecorded_of_blank (hdomain : CreationDomain t e) (hblank : e.invertData = .empty) :
    CreationRecorded t e := by
  unfold CreationRecorded StagedEffect.inverseTask CreatesTask
  rw [hblank]
  constructor
  · intro hinverse
    have hresource : e.resource = t := by
      cases htype : e.effectType <;> simp_all [EffectType.invertKind]
    exact ⟨(hdomain.1 hresource).1, hresource⟩
  · rintro ⟨htype, rfl⟩
    rw [htype]
    rfl

/-- An inverse that is not on the task leaves it alone. -/
theorem tasks_undo_other (hinverse : e.inverseTask ≠ some t) : (invertOne w e).tasks.tasks t = w.tasks.tasks t := by
  rw [invertOne_eq_undo]
  change (e.undoTasks w.tasks).tasks t = w.tasks.tasks t
  obtain ⟨id, -, hid, hundo⟩ | ⟨before, -, -, hid, hundo⟩ | ⟨-, hundo⟩ := undoTasks_cases e
  · rw [hundo]
    exact Function.update_of_ne (fun heq => hinverse (hid.trans (congrArg some heq.symm))) _ _
  · rw [hundo]
    exact Function.update_of_ne (fun heq => hinverse (hid.trans (congrArg some heq.symm))) _ _
  · rw [hundo]

/-- The inverse of a creation of the task removes it. -/
theorem tasks_undo_mine (mine : CreatesTask t e) (hrecorded : CreationRecorded t e) :
    (invertOne w e).tasks.tasks t = none := by
  rw [invertOne_eq_undo]
  change (e.undoTasks w.tasks).tasks t = none
  have hinverse := hrecorded.mpr mine
  obtain ⟨id, -, hid, hundo⟩ | ⟨before, htype, -⟩ | ⟨hid, -⟩ := undoTasks_cases e
  · obtain rfl : id = t := Option.some_injective _ (hid.symm.trans hinverse)
    rw [hundo]
    exact Function.update_self _ _ _
  · rw [mine.1] at htype
    cases htype
  · rw [hid] at hinverse
    cases hinverse

/-- The slot of the creation of a task. -/
def taskSlot (ctx : Context) (t : String) : Slot ctx where
  mine := CreatesTask t
  domain := CreationDomain t
  recorded := CreationRecorded t
  absent w := w.tasks.tasks t = none
  present w := (w.tasks.tasks t).isSome
  mine_congr h mine := ⟨effectType_of_asStaged h ▸ mine.1, resource_of_asStaged h ▸ mine.2⟩
  domain_congr h hdomain := by
    have hdata := data_of_asStaged h
    unfold CreationDomain StagedEffect.get at *
    rwa [← hdata, ← resource_of_asStaged h, ← effectType_of_asStaged h]
  recorded_congr h hdata hrecorded := by
    unfold CreationRecorded CreatesTask StagedEffect.inverseTask at *
    rwa [← hdata, ← resource_of_asStaged h, ← effectType_of_asStaged h]
  blank hdomain _ hblank := creationRecorded_of_blank hdomain hblank
  records hdomain _ happly := creationRecorded_of_applied hdomain happly
  absent_other hdomain other habsent := (tasks_other hdomain other).trans habsent
  present_other hdomain other hpresent := (tasks_other hdomain other).symm ▸ hpresent
  present_mine hdomain mine _ happly := (tasks_mine hdomain mine happly).1
  absent_mine {w e} hdomain mine habsent hnone := by
    rw [applyEffect_tasks, if_pos mine.1]
    obtain ⟨tree', undo, happly⟩ | hstays := applyTaskCreate_stays ctx w.tasks e
    · refine absurd ?_ (hnone { w with tasks := tree' } undo)
      unfold applyEffect
      rw [mine.1]
      dsimp only
      rw [happly]
      rfl
    · rw [hstays]
      exact habsent
  absent_undo {w e} _ hrecorded habsent := by
    by_cases mine : CreatesTask t e
    · exact tasks_undo_mine mine hrecorded
    · exact (tasks_undo_other fun hinverse => mine (hrecorded.mp hinverse)).trans habsent
  present_undo {w e} _ hrecorded other hpresent := by
    rwa [tasks_undo_other fun hinverse => other (hrecorded.mp hinverse)]
  undone _ hrecorded mine _ := tasks_undo_mine mine hrecorded

end Tasks

end MyTeam.Legacy
