import MyTeam.Legacy.Calendar

/-!
# The occurrences of the rules of a calendar

A tick that nothing disturbs commits the advance of a due rule together with its task, or neither,
and wakes for an event that its advance stands for. So the advances of a cron rule go through its
occurrences one after the other.
-/

namespace MyTeam.Legacy

open MyTeam.Py MyTeam.Async MyTeam.Order

section Unique

variable {α β : Type*} {p : α → Bool} {f : α → β} {x : β} {l : List α}

/-- At most one entry of a list passes the test. -/
theorem filter_map_unique (unique : l.Pairwise fun a b => p a = true → ¬p b = true)
    (same : ∀ a ∈ l, p a = true → f a = x)
    (some : ∃ a ∈ l, p a = true) : (l.filter p).map f = [x] := by
  induction l with
  | nil =>
    obtain ⟨_, ha, -⟩ := some
    exact absurd ha List.not_mem_nil
  | cons a l ih =>
    obtain ⟨hfirst, hrest⟩ := List.pairwise_cons.mp unique
    by_cases ha : p a = true
    · have hnone : l.filter p = [] := List.filter_eq_nil_iff.mpr fun b hb => hfirst b hb ha
      rw [List.filter_cons_of_pos ha, hnone, List.map_singleton, same a List.mem_cons_self ha]
    · rw [List.filter_cons_of_neg ha]
      refine ih hrest (fun b hb => same b (List.mem_cons_of_mem _ hb)) ?_
      obtain ⟨b, hb, hpb⟩ := some
      obtain rfl | hb := List.mem_cons.mp hb
      · exact absurd hpb ha
      · exact ⟨b, hb, hpb⟩

end Unique

section Staging

variable {calls : List StageCall} {R : StageCall → StageCall → Prop} {R' : StagedEffect → StagedEffect → Prop}

/-- One more call of `stage`. -/
theorem stageAll_append {call : StageCall} : TransactionBuffer.stageAll (calls ++ [call]) =
    (TransactionBuffer.stageAll calls).stage call := by
  simp [TransactionBuffer.stageAll]

/-- The effects in a buffer are those of the calls. -/
theorem mem_stageAll {e : StagedEffect} (he : e ∈ (TransactionBuffer.stageAll calls).effects) :
    ∃ call ∈ calls, ∃ id, e = call.effect id := by
  induction calls using List.reverseRecOn with
  | nil => exact absurd he List.not_mem_nil
  | append_singleton calls call ih =>
    rw [stageAll_append] at he
    obtain he | he := List.mem_append.mp he
    · obtain ⟨call', hcall', hid⟩ := ih he
      exact ⟨call', List.mem_append_left _ hcall', hid⟩
    · exact ⟨call, List.mem_append_right _ (List.mem_singleton_self _), _, List.mem_singleton.mp he⟩

/-- Every call has its effect in the buffer. -/
theorem exists_mem_stageAll {call : StageCall} (hcall : call ∈ calls) :
    ∃ id, call.effect id ∈ (TransactionBuffer.stageAll calls).effects := by
  induction calls using List.reverseRecOn with
  | nil => exact absurd hcall List.not_mem_nil
  | append_singleton calls last ih =>
    rw [stageAll_append]
    obtain hcall | hcall := List.mem_append.mp hcall
    · obtain ⟨id, hid⟩ := ih hcall
      exact ⟨id, List.mem_append_left _ hid⟩
    · obtain rfl := List.mem_singleton.mp hcall
      exact ⟨_, List.mem_append_right _ (List.mem_singleton_self _)⟩

/-- What holds of calls one before the other holds of their effects. -/
theorem pairwise_stageAll (h : calls.Pairwise R) (effect : ∀ c c' id id', R c c' → R' (c.effect id) (c'.effect id')) :
    (TransactionBuffer.stageAll calls).effects.Pairwise R' := by
  induction calls using List.reverseRecOn with
  | nil => exact List.Pairwise.nil
  | append_singleton calls call ih =>
    obtain ⟨hbefore, -, hlast⟩ := List.pairwise_append.mp h
    rw [stageAll_append]
    refine List.pairwise_append.mpr ⟨ih hbefore, List.pairwise_singleton _ _, fun e he f hf => ?_⟩
    obtain ⟨call', hcall', id, rfl⟩ := mem_stageAll he
    obtain rfl := List.mem_singleton.mp hf
    exact effect _ _ _ _ (hlast call' hcall' call (List.mem_singleton_self _))

end Staging

/-- The state of a rule that fires. -/
def Fire.next (fire : Fire) (before : ScheduleRule) : ScheduleRule where
  nextRunTick := match fire.nextRunTick with
    | .none => before.nextRunTick
    | next => next
  lastFiredAt := match fire.lastFiredAt with
    | .none => before.lastFiredAt
    | fired => fired

/-- What the advance of a rule sets. -/
theorem CalendarRule.advance_effect {rule : CalendarRule} {fire : Fire} {tick : ℕ} {id : String}
    {before : ScheduleRule} :
    ((rule.advanceCall fire tick).effect id).ruleName = some rule.ruleId ∧
      ((rule.advanceCall fire tick).effect id).advance before = fire.next before ∧
      ((rule.advanceCall fire tick).effect id).get "last_fired_at" .none = fire.lastFiredAt :=
  ⟨rfl, rfl, rfl⟩

/-- The groups of different rules are different. -/
theorem CalendarRule.groupId_injective {rule rule' : CalendarRule} {tick : ℕ}
    (h : rule.groupId tick = rule'.groupId tick) :
    rule.ruleId = rule'.ruleId := by
  unfold groupId at h
  have hlist := congrArg String.toList h
  simp only [String.toList_append] at hlist
  exact String.toList_injective (List.append_cancel_left (List.append_cancel_right (List.append_cancel_right hlist)))

/-- The group of a rule has a name. -/
theorem CalendarRule.groupId_ne {rule : CalendarRule} {tick : ℕ} : rule.groupId tick ≠ "" := by
  unfold groupId
  intro h
  have hlist := congrArg String.toList h
  simp [String.toList_append] at hlist

namespace Calendar

variable {s : Calendar} {input : TickInput} {rule : CalendarRule} {fire : Fire} {entry entry' : CalendarRule × Fire}
  {call : StageCall} {e : StagedEffect}

/-- The due rules. -/
theorem mem_due : (rule, fire) ∈ s.due input ↔ rule ∈ s.rules ∧ rule.enabled = true ∧
    ∃ state, s.advancement rule.ruleId = some state ∧ rule.fire state input.ctx.tick input.now = some fire := by
  unfold due
  rw [List.mem_filterMap]
  constructor
  · rintro ⟨rule', hrule', hentry⟩
    split_ifs at hentry with henabled
    obtain ⟨fire', hfire', hpair⟩ := Option.map_eq_some_iff.mp hentry
    obtain ⟨rfl, rfl⟩ := Prod.mk.inj hpair
    obtain ⟨state, hstate, hfires⟩ := Option.bind_eq_some_iff.mp hfire'
    exact ⟨hrule', henabled, state, hstate, hfires⟩
  · rintro ⟨hrule, henabled, state, hstate, hfires⟩
    refine ⟨rule, hrule, ?_⟩
    rw [if_pos henabled, hstate, Option.bind_some, hfires]
    rfl

/-- A rule is due once. -/
theorem due_unique (distinct : (s.rules.map CalendarRule.ruleId).Nodup) :
    (s.due input).Pairwise fun entry entry' => entry.1.ruleId ≠ entry'.1.ruleId := by
  refine List.Pairwise.filterMap _ (fun rule rule' hne entry hentry entry' hentry' => ?_)
    (List.pairwise_map.mp distinct)
  split_ifs at hentry hentry'
  obtain ⟨_, -, rfl⟩ := Option.map_eq_some_iff.mp hentry
  obtain ⟨_, -, rfl⟩ := Option.map_eq_some_iff.mp hentry'
  exact hne

/-- Due rules with the same id are the same. -/
theorem due_eq (distinct : (s.rules.map CalendarRule.ruleId).Nodup) (hentry : entry ∈ s.due input)
    (hentry' : entry' ∈ s.due input) (same : entry.1.ruleId = entry'.1.ruleId) : entry = entry' := by
  have hsymm : Std.Symm fun entry entry' : CalendarRule × Fire => entry.1.ruleId ≠ entry'.1.ruleId :=
    ⟨fun _ _ => Ne.symm⟩
  by_contra hne
  exact (due_unique distinct).forall hentry hentry' hne same

/-- What a due rule stages: its advance, and the task it creates. -/
theorem mem_entryCalls {taskId : String} {tick : ℕ} {now : ℤ} : call ∈ rule.calls fire taskId tick now ↔
    call = rule.advanceCall fire tick ∨
      ∃ template, rule.action = .createTask template ∧ call = rule.creationCall template taskId tick now := by
  unfold CalendarRule.calls
  rw [List.mem_cons]
  cases rule.action with
  | createTask template => simp
  | emitEvent => simp

/-- What a rule stages is in its group. -/
theorem groupId_entryCalls {taskId : String} {tick : ℕ} {now : ℤ} (hcall : call ∈ rule.calls fire taskId tick now) :
    call.groupId = rule.groupId tick := by
  obtain rfl | ⟨_, -, rfl⟩ := mem_entryCalls.mp hcall <;> rfl

/-- What the calendar stages. -/
theorem mem_staged : call ∈ s.staged input ↔ ∃ entry ∈ s.due input, call = entry.1.advanceCall entry.2 input.ctx.tick ∨
    ∃ template, entry.1.action = .createTask template ∧
      call = entry.1.creationCall template (input.taskId entry.1.ruleId) input.ctx.tick input.now := by
  unfold staged
  rw [List.mem_flatMap]
  exact exists_congr fun entry => and_congr_right fun _ => mem_entryCalls

/-- A call is staged by others, before or after, or by the calendar. -/
theorem mem_calls : call ∈ s.calls input ↔
    call ∈ s.buffer ++ input.earlier ∨ call ∈ s.staged input ∨ call ∈ input.later := by
  unfold calls
  rw [List.mem_append, List.mem_append, or_assoc]

/-- The calls of a tick, one before the other. -/
theorem calls_pairwise {R : StageCall → StageCall → Prop} (distinct : (s.rules.map CalendarRule.ruleId).Nodup)
    (before : ∀ c ∈ s.buffer ++ input.earlier, ∀ c' ∈ s.calls input, R c c')
    (after : ∀ c ∈ s.calls input, ∀ c' ∈ input.later, R c c')
    (within : ∀ entry ∈ s.due input, ∀ template, entry.1.action = .createTask template →
      R (entry.1.advanceCall entry.2 input.ctx.tick)
        (entry.1.creationCall template (input.taskId entry.1.ruleId) input.ctx.tick input.now))
    (across : ∀ entry ∈ s.due input, ∀ entry' ∈ s.due input, entry.1.ruleId ≠ entry'.1.ruleId →
      ∀ c ∈ entry.1.calls entry.2 (input.taskId entry.1.ruleId) input.ctx.tick input.now,
        ∀ c' ∈ entry'.1.calls entry'.2 (input.taskId entry'.1.ruleId) input.ctx.tick input.now, R c c') :
    (s.calls input).Pairwise R := by
  have hbefore : (s.buffer ++ input.earlier).Pairwise R :=
    List.pairwise_of_forall_mem_list fun c hc c' hc' => before c hc c' (mem_calls.mpr (Or.inl hc'))
  have hafter : input.later.Pairwise R :=
    List.pairwise_of_forall_mem_list fun c hc c' hc' => after c (mem_calls.mpr (Or.inr (Or.inr hc))) c' hc'
  have hstaged : (s.staged input).Pairwise R := by
    refine List.pairwise_flatMap.mpr ⟨fun entry hentry => ?_, ?_⟩
    · unfold CalendarRule.calls
      cases haction : entry.1.action with
      | createTask template =>
        exact List.pairwise_pair.mpr (within entry hentry template haction)
      | emitEvent => exact List.pairwise_singleton _ _
    · exact (due_unique distinct).imp_of_mem fun hentry hentry' hne => across _ hentry _ hentry' hne
  refine List.pairwise_append.mpr ⟨List.pairwise_append.mpr ⟨hbefore, hstaged, fun c hc c' hc' => ?_⟩, hafter,
    fun c hc c' hc' => ?_⟩
  · exact before c hc c' (mem_calls.mpr (Or.inr (Or.inl hc')))
  · exact after c (mem_calls.mpr ((List.mem_append.mp hc).imp_right Or.inl)) c' hc'

/-- A tick that is possible and that nothing disturbs, of rules with different ids. -/
structure Quiet (s : Calendar) (input : TickInput) : Prop extends s.Undisturbed input where
  distinct : (s.rules.map CalendarRule.ruleId).Nodup
  possible : s.Possible input

namespace Quiet

/-- Nothing of the calendar is staged by others. -/
theorem others_apart (h : s.Quiet input) (hcall : call ∈ s.buffer ++ input.earlier ∨ call ∈ input.later) :
    call.effectType ≠ .ruleAdvance ∧ call.ofCalendar = false := by
  obtain hcall | hcall := hcall
  · obtain hcall | hcall := List.mem_append.mp hcall
    · exact h.cleared call hcall
    · exact h.possible.2.1 call (List.mem_append_left _ hcall)
  · exact h.possible.2.1 call (List.mem_append_right _ hcall)

/-- The advances in the buffer are those of the due rules. -/
theorem advance_origin (h : s.Quiet input) (hcall : call ∈ s.calls input) (htype : call.effectType = .ruleAdvance) :
    ∃ entry ∈ s.due input, call = entry.1.advanceCall entry.2 input.ctx.tick := by
  obtain hother | hstaged | hother := mem_calls.mp hcall
  · exact absurd htype (h.others_apart (Or.inl hother)).1
  · obtain ⟨entry, hentry, rfl | ⟨template, -, rfl⟩⟩ := mem_staged.mp hstaged
    · exact ⟨entry, hentry, rfl⟩
    · cases htype
  · exact absurd htype (h.others_apart (Or.inr hother)).1

/-- The creations of the calendar in the buffer are those of the due rules. -/
theorem creation_origin (h : s.Quiet input) (hcall : call ∈ s.calls input) (hcalendar : call.ofCalendar = true) :
    ∃ entry ∈ s.due input, ∃ template, entry.1.action = .createTask template ∧
      call = entry.1.creationCall template (input.taskId entry.1.ruleId) input.ctx.tick input.now := by
  obtain hother | hstaged | hother := mem_calls.mp hcall
  · rw [(h.others_apart (Or.inl hother)).2] at hcalendar
    cases hcalendar
  · obtain ⟨entry, hentry, rfl | ⟨template, haction, rfl⟩⟩ := mem_staged.mp hstaged
    · cases hcalendar
    · exact ⟨entry, hentry, template, haction, rfl⟩
  · rw [(h.others_apart (Or.inr hother)).2] at hcalendar
    cases hcalendar

/-- The advances among the effects are those of the due rules. -/
theorem advance_effects (h : s.Quiet input) (he : e ∈ s.effects input) (htype : e.effectType = .ruleAdvance) :
    ∃ entry ∈ s.due input, ∃ id, e = (entry.1.advanceCall entry.2 input.ctx.tick).effect id := by
  obtain ⟨call, hcall, id, rfl⟩ := mem_stageAll he
  obtain ⟨entry, hentry, rfl⟩ := h.advance_origin hcall htype
  exact ⟨entry, hentry, id, rfl⟩

/-- Only the advance of a rule, when it is due, is on its state. -/
theorem advanceDomain (h : s.Quiet input) {before after : ScheduleRule}
    (hafter : ∀ entry ∈ s.due input, entry.1.ruleId = rule.ruleId → entry.2.next before = after)
    (he : e ∈ s.effects input) : AdvanceDomain rule.ruleId before after e := by
  intro htype
  obtain ⟨entry, hentry, id, rfl⟩ := h.advance_effects he htype
  obtain ⟨hname, hadvance, -⟩ := @CalendarRule.advance_effect entry.1 entry.2 input.ctx.tick id before
  exact ⟨hname, fun hrule => hadvance.trans (hafter entry hentry hrule)⟩

/-- A rule advances once in a tick. -/
theorem advance_unique (h : s.Quiet input) {ruleId : String} :
    (s.effects input).Pairwise fun e f => AdvancesRule ruleId e → ¬AdvancesRule ruleId f := by
  refine pairwise_stageAll (R := fun c c' => AdvancesRule ruleId (c.effect "") → ¬AdvancesRule ruleId (c'.effect ""))
    (calls_pairwise h.distinct ?_ ?_ ?_ ?_) fun _ _ _ _ hcalls => hcalls
  case refine_1 => exact fun c hc _ _ hadvance => absurd hadvance.1 (h.others_apart (Or.inl hc)).1
  case refine_2 => exact fun _ _ c' hc' _ hadvance => (h.others_apart (Or.inr hc')).1 hadvance.1
  case refine_3 =>
    intro _ _ _ _ _ hadvance
    cases hadvance.1
  case refine_4 =>
    intro entry _ entry' _ hne c hc c' hc' hadvance hadvance'
    obtain rfl | ⟨_, -, rfl⟩ := mem_entryCalls.mp hc
    · obtain rfl | ⟨_, -, rfl⟩ := mem_entryCalls.mp hc'
      · exact hne (hadvance.2.trans hadvance'.2.symm)
      · cases hadvance'.1
    · cases hadvance.1

/-- Nothing in the group of an advance comes before it. -/
theorem advance_before (h : s.Quiet input) {ruleId : String} : (s.effects input).Pairwise fun f e =>
    AdvancesRule ruleId e → f.Grouped → f.groupId ≠ e.groupId := by
  refine pairwise_stageAll (R := fun c c' => AdvancesRule ruleId (c'.effect "") → c.groupId ≠ c'.groupId)
    (calls_pairwise h.distinct ?_ ?_ ?_ ?_) fun _ _ _ _ hcalls hadvance _ => hcalls hadvance
  case refine_1 =>
    intro c hc c' hc' hadvance
    obtain ⟨entry, hentry, rfl⟩ := h.advance_origin hc' hadvance.1
    exact h.apart entry hentry c hc
  case refine_2 => exact fun _ _ c' hc' hadvance => absurd hadvance.1 (h.others_apart (Or.inr hc')).1
  case refine_3 =>
    intro _ _ _ _ hadvance
    cases hadvance.1
  case refine_4 =>
    intro entry _ entry' _ hne c hc c' hc' _ hgroup
    rw [groupId_entryCalls hc, groupId_entryCalls hc'] at hgroup
    exact hne (CalendarRule.groupId_injective hgroup)

/-- The state of a rule is a slot of the commit, for the advance it would make. -/
theorem rule_kept (h : s.Quiet input) {before after : ScheduleRule}
    (hafter : ∀ entry ∈ s.due input, entry.1.ruleId = rule.ruleId → entry.2.next before = after)
    (hbefore : s.advancement rule.ruleId = some before) :
    (ruleSlot input.ctx rule.ruleId before after).Kept (committedLoop input.ctx (s.world input) (s.effects input)) :=
  Slot.kept_committedLoop (fun _ he => by obtain ⟨_, -, _, rfl⟩ := mem_stageAll he; rfl)
    (fun _ he => h.advanceDomain hafter he) h.advance_unique
    (Or.inl (h.advance_before)) hbefore

/-- The effects of a tick are as they were staged. -/
theorem fresh : ∀ e ∈ s.effects input, e.asStaged = e := by
  intro e he
  obtain ⟨_, -, _, rfl⟩ := mem_stageAll he
  rfl

/-- The advance of a rule stands at the end of the commit. -/
def Advanced (s : Calendar) (input : TickInput) (ruleId : String) : Prop :=
  ∃ e ∈ (s.commit input).1.done, AdvancesRule ruleId e ∧ e.status = .committed

/-- The advances of a rule in the record of a tick are the effects that stand. -/
theorem advances_filter {ruleId : String} : ((s.record input).advances.filter fun a => a.ruleId = ruleId) =
    ((s.commit input).1.done.filter fun e => (e.effectType = .ruleAdvance ∧ e.status = .committed) ∧
      e.resource = ruleId).map
      fun e => ⟨e.resource, e.groupId, e.get "last_fired_at" .none⟩ := by
  unfold record
  rw [List.filter_map, List.filter_filter]
  congr 1
  refine List.filter_congr fun e _ => ?_
  simp only [Function.comp_apply, Bool.decide_and]
  rw [Bool.and_comm]

/-- A rule whose advance does not stand has none in the record. -/
theorem advances_of_not_advanced {ruleId : String} (hnot : ¬Advanced s input ruleId) :
    ((s.record input).advances.filter fun a => a.ruleId = ruleId) = [] := by
  rw [advances_filter, List.map_eq_nil_iff, List.filter_eq_nil_iff]
  intro e he hadvance
  obtain ⟨⟨htype, hcommitted⟩, hresource⟩ := of_decide_eq_true hadvance
  exact hnot ⟨e, he, ⟨htype, hresource⟩, hcommitted⟩

/-- A rule whose advance stands is due. -/
theorem due_of_advanced (h : s.Quiet input) {ruleId : String} (hadvanced : Advanced s input ruleId) :
    ∃ entry ∈ s.due input, entry.1.ruleId = ruleId := by
  obtain ⟨e, he, ⟨htype, hresource⟩, hcommitted⟩ := hadvanced
  obtain ⟨entry, hentry, id, heq⟩ := h.advance_effects (origin_of_committed fresh he hcommitted) htype
  refine ⟨entry, hentry, ?_⟩
  rw [← hresource]
  exact (congrArg StagedEffect.resource heq).symm

/-- A due rule whose advance stands has this one in the record. -/
theorem advances_of_advanced (h : s.Quiet input) (hentry : entry ∈ s.due input)
    (hadvanced : Advanced s input entry.1.ruleId) :
    ((s.record input).advances.filter fun a => a.ruleId = entry.1.ruleId) =
      [⟨entry.1.ruleId, entry.1.groupId input.ctx.tick, entry.2.lastFiredAt⟩] := by
  obtain ⟨-, -, before, hbefore, -⟩ := mem_due.mp hentry
  have hafter : ∀ entry' ∈ s.due input, entry'.1.ruleId = entry.1.ruleId → entry'.2.next before = entry.2.next before :=
    fun entry' hentry' hsame => by rw [due_eq h.distinct hentry' hentry hsame]
  rw [advances_filter]
  refine filter_map_unique ?_ (fun e he hadvance => ?_) ?_
  · refine (Slot.committed_unique (h.rule_kept hafter hbefore)).imp fun hnot he hf => ?_
    obtain ⟨⟨htype, hcommitted⟩, hresource⟩ := of_decide_eq_true he
    obtain ⟨⟨htype', hcommitted'⟩, hresource'⟩ := of_decide_eq_true hf
    exact hnot ⟨⟨htype, hresource⟩, hcommitted⟩ ⟨⟨htype', hresource'⟩, hcommitted'⟩
  · obtain ⟨⟨htype, hcommitted⟩, hresource⟩ := of_decide_eq_true hadvance
    obtain ⟨entry', hentry', id, heq⟩ := h.advance_effects (origin_of_committed fresh he hcommitted) htype
    have hsame : entry'.1.ruleId = entry.1.ruleId := (congrArg StagedEffect.resource heq).symm.trans hresource
    obtain rfl := due_eq h.distinct hentry' hentry hsame
    have hgroup : e.groupId = entry'.1.groupId input.ctx.tick := congrArg StagedEffect.groupId heq
    have hfired : e.get "last_fired_at" .none = entry'.2.lastFiredAt :=
      (congrArg (fun e => StagedEffect.get e "last_fired_at" .none) heq).trans
        (@CalendarRule.advance_effect entry'.1 entry'.2 input.ctx.tick id before).2.2
    rw [hresource, hgroup, hfired]
  · obtain ⟨e, he, ⟨htype, hresource⟩, hcommitted⟩ := hadvanced
    exact ⟨e, he, decide_eq_true ⟨⟨htype, hcommitted⟩, hresource⟩⟩

/-- The state of a rule after the commit: the next one if its advance stands, else that before. -/
theorem rules_commit (h : s.Quiet input) {before after : ScheduleRule}
    (hafter : ∀ entry ∈ s.due input, entry.1.ruleId = rule.ruleId → entry.2.next before = after)
    (hbefore : s.advancement rule.ruleId = some before) :
    (Advanced s input rule.ruleId → (s.commit input).1.world.rules rule.ruleId = some after) ∧
      (¬Advanced s input rule.ruleId → (s.commit input).1.world.rules rule.ruleId = some before) :=
  @Slot.phaseCommit_slot _ (ruleSlot input.ctx rule.ruleId before after) (s.world input) (s.effects input) fresh
    (fun _ he => h.advanceDomain hafter he) h.advance_unique (Or.inl h.advance_before) hbefore

/-- Where a rule would come to, if it is due. -/
theorem exists_next (h : s.Quiet input) (before : ScheduleRule) (ruleId : String) :
    ∃ after, ∀ entry ∈ s.due input, entry.1.ruleId = ruleId → entry.2.next before = after := by
  by_cases hdue : ∃ entry ∈ s.due input, entry.1.ruleId = ruleId
  · obtain ⟨entry, hentry, rfl⟩ := hdue
    exact ⟨entry.2.next before, fun entry' hentry' hsame => by rw [due_eq h.distinct hentry' hentry hsame]⟩
  · exact ⟨before, fun entry hentry hsame => absurd ⟨entry, hentry, hsame⟩ hdue⟩

/-- The ids of the tasks of different rules are different. -/
theorem taskId_ne (h : s.Quiet input) (hentry : entry ∈ s.due input) (hentry' : entry' ∈ s.due input)
    (hne : entry.1.ruleId ≠ entry'.1.ruleId) : input.taskId entry.1.ruleId ≠ input.taskId entry'.1.ruleId := by
  intro hsame
  obtain rfl := List.inj_on_of_nodup_map h.possible.2.2.1 hentry hentry' hsame
  exact hne rfl

/-- Others do not name the task of a due rule. -/
theorem not_names (h : s.Quiet input) (hentry : entry ∈ s.due input)
    (hcall : call ∈ s.buffer ++ input.earlier ∨ call ∈ input.later) :
    call.resource ≠ input.taskId entry.1.ruleId ∧ (call.effectType = .taskCreate →
      (call.effect "").get "task_id" (.str call.resource) ≠ .str (input.taskId entry.1.ruleId)) := by
  have hnames := (h.possible.2.2.2 entry hentry).2.2 call (List.mem_append.mpr hcall)
  unfold StageCall.names at hnames
  obtain ⟨hresource, hdata⟩ := Bool.or_eq_false_iff.mp hnames
  refine ⟨of_decide_eq_false hresource, fun htype hname => ?_⟩
  rw [decide_eq_true htype, Bool.true_and, hname] at hdata
  simp [Value.isStr] at hdata

/-- Only the creation of its task is on the task of a due rule. -/
theorem creationDomain (h : s.Quiet input) (hentry : entry ∈ s.due input) (he : e ∈ s.effects input) :
    CreationDomain (input.taskId entry.1.ruleId) e := by
  obtain ⟨call, hcall, id, rfl⟩ := mem_stageAll he
  have hothers (hother : call ∈ s.buffer ++ input.earlier ∨ call ∈ input.later) :
      CreationDomain (input.taskId entry.1.ruleId) (call.effect id) := by
    obtain ⟨hresource, hname⟩ := h.not_names hentry hother
    exact ⟨fun heq => absurd heq hresource, fun htype heq => absurd heq (hname htype)⟩
  obtain hother | hstaged | hother := mem_calls.mp hcall
  · exact hothers (Or.inl hother)
  · obtain ⟨entry', hentry', rfl | ⟨template, -, rfl⟩⟩ := mem_staged.mp hstaged
    · refine ⟨fun heq => absurd heq ?_, fun htype _ => ?_⟩
      · exact (h.possible.2.2.2 entry hentry).2.1 entry'.1 (mem_due.mp hentry').1
      · cases htype
    · exact ⟨fun heq => ⟨rfl, congrArg Value.str heq⟩, fun _ hname => Value.str.inj hname⟩
  · exact hothers (Or.inr hother)

/-- The task of a due rule is created once in a tick. -/
theorem creation_unique (h : s.Quiet input) (hentry : entry ∈ s.due input) : (s.effects input).Pairwise fun e f =>
    CreatesTask (input.taskId entry.1.ruleId) e → ¬CreatesTask (input.taskId entry.1.ruleId) f := by
  refine pairwise_stageAll (R := fun c c' => CreatesTask (input.taskId entry.1.ruleId) (c.effect "") →
    ¬CreatesTask (input.taskId entry.1.ruleId) (c'.effect "")) (calls_pairwise h.distinct ?_ ?_ ?_ ?_)
    fun _ _ _ _ hcalls => hcalls
  case refine_1 => exact fun c hc _ _ hcreates => absurd hcreates.2 (h.not_names hentry (Or.inl hc)).1
  case refine_2 => exact fun _ _ c' hc' _ hcreates => (h.not_names hentry (Or.inr hc')).1 hcreates.2
  case refine_3 =>
    intro _ _ _ _ hcreates
    cases hcreates.1
  case refine_4 =>
    intro entry₁ hentry₁ entry₂ hentry₂ hne c hc c' hc' hcreates hcreates'
    obtain rfl | ⟨_, -, rfl⟩ := mem_entryCalls.mp hc
    · cases hcreates.1
    · obtain rfl | ⟨_, -, rfl⟩ := mem_entryCalls.mp hc'
      · cases hcreates'.1
      · exact h.taskId_ne hentry₁ hentry₂ hne (hcreates.2.trans hcreates'.2.symm)

/-- The advance of a due rule is in the buffer. -/
theorem exists_advance (hentry : entry ∈ s.due input) :
    ∃ id, (entry.1.advanceCall entry.2 input.ctx.tick).effect id ∈ s.effects input :=
  exists_mem_stageAll (mem_calls.mpr (Or.inr (Or.inl (mem_staged.mpr ⟨entry, hentry, Or.inl rfl⟩))))

/-- Where the advance of a rule stands, the task it creates is there afterwards, and only there. -/
theorem tasks_commit (h : s.Quiet input) (hentry : entry ∈ s.due input) {template : TaskTemplate}
    (haction : entry.1.action = .createTask template) :
    ((s.commit input).1.world.tasks.tasks (input.taskId entry.1.ruleId)).isSome ↔ Advanced s input entry.1.ruleId := by
  obtain ⟨-, -, before, hbefore, -⟩ := mem_due.mp hentry
  have hslot := @Slot.phaseCommit_slot _ (taskSlot input.ctx (input.taskId entry.1.ruleId)) (s.world input)
    (s.effects input) fresh (fun _ he => h.creationDomain hentry he) (h.creation_unique hentry)
    (Or.inr fun _ hdomain _ hblank => creationRecorded_of_blank hdomain hblank)
    (Option.isNone_iff_eq_none.mp (h.possible.2.2.2 entry hentry).1)
  obtain ⟨advanceId, hadvance⟩ := exists_advance hentry
  obtain ⟨creationId, hcreation⟩ := exists_mem_stageAll (mem_calls.mpr (Or.inr (Or.inl
    (mem_staged.mpr ⟨entry, hentry, Or.inr ⟨template, haction, rfl⟩⟩))))
  constructor
  · intro hpresent
    by_contra hnot
    have hstands : (taskSlot input.ctx (input.taskId entry.1.ruleId)).Stands (s.commit input).1 := by
      by_contra hfails
      have habsent : (s.commit input).1.world.tasks.tasks (input.taskId entry.1.ruleId) = none := hslot.2 hfails
      rw [habsent] at hpresent
      cases hpresent
    have htogether : (ruleSlot input.ctx entry.1.ruleId before before).Stands (s.commit input).1 := by
      refine Slot.stands_together fresh CalendarRule.groupId_ne (fun m hm hmine => ?_) hadvance ⟨rfl, rfl⟩ ⟨rfl, rfl⟩
        hstands
      -- The creation of the task is that of the rule.
      obtain ⟨call, hcall, id, rfl⟩ := mem_stageAll hm
      obtain hother | hstaged | hother := mem_calls.mp hcall
      · exact absurd hmine.2 (h.not_names hentry (Or.inl hother)).1
      · obtain ⟨entry', hentry', rfl | ⟨_, -, rfl⟩⟩ := mem_staged.mp hstaged
        · cases hmine.1
        · obtain rfl := List.inj_on_of_nodup_map h.possible.2.2.1 hentry' hentry hmine.2
          exact ⟨rfl, rfl⟩
      · exact absurd hmine.2 (h.not_names hentry (Or.inr hother)).1
    exact hnot htogether
  · intro hadvanced
    have hstands : (ruleSlot input.ctx entry.1.ruleId before before).Stands (s.commit input).1 := hadvanced
    refine hslot.1 (Slot.stands_together fresh CalendarRule.groupId_ne (fun m hm hmine => ?_) hcreation ⟨rfl, rfl⟩
      ⟨rfl, rfl⟩ hstands)
    obtain ⟨entry', hentry', id, rfl⟩ := h.advance_effects hm hmine.1
    obtain rfl := due_eq h.distinct hentry' hentry hmine.2
    exact ⟨rfl, rfl⟩

/-- A rule that does not emit an event creates a task. -/
theorem exists_template (hemits : rule.emits = false) : ∃ template, rule.action = .createTask template := by
  unfold CalendarRule.emits at hemits
  cases haction : rule.action with
  | createTask template => exact ⟨template, rfl⟩
  | emitEvent =>
    rw [haction] at hemits
    cases hemits

/-- The tasks that a tick creates are those of the rules whose advances stand. -/
theorem advanced_of_created (h : s.Quiet input) {c : String × String} (hc : c ∈ (s.record input).created) :
    ∃ entry ∈ s.due input, entry.1.groupId input.ctx.tick = c.1 ∧ Advanced s input entry.1.ruleId := by
  obtain ⟨call, hcall, rfl⟩ := List.mem_map.mp hc
  obtain ⟨hmem, hcreated⟩ := List.mem_filter.mp hcall
  obtain ⟨hcalendar, htask⟩ := Bool.and_eq_true_iff.mp hcreated
  obtain ⟨hpresent, -⟩ := Bool.and_eq_true_iff.mp htask
  obtain ⟨entry, hentry, template, haction, rfl⟩ := h.creation_origin hmem hcalendar
  exact ⟨entry, hentry, rfl, (h.tasks_commit hentry haction).mp hpresent⟩

/-- A rule whose advance stands has created one task. -/
theorem created_of_advanced (h : s.Quiet input) (hentry : entry ∈ s.due input) (hemits : entry.1.emits = false)
    (hadvanced : Advanced s input entry.1.ruleId) :
    (s.record input).created.filter (fun c => c.1 = entry.1.groupId input.ctx.tick) =
      [(entry.1.groupId input.ctx.tick, input.taskId entry.1.ruleId)] := by
  obtain ⟨template, haction⟩ := exists_template hemits
  unfold record
  rw [List.filter_map, List.filter_filter]
  have hgroup {entry' : CalendarRule × Fire} (hentry' : entry' ∈ s.due input)
      (hsame : entry'.1.groupId input.ctx.tick = entry.1.groupId input.ctx.tick) : entry' = entry :=
    due_eq h.distinct hentry' hentry (CalendarRule.groupId_injective hsame)
  refine filter_map_unique ?_ (fun call hcall hcreated => ?_) ?_
  · have hcalendar {call : StageCall} (hcreated : (decide (call.groupId = entry.1.groupId input.ctx.tick) &&
        (call.ofCalendar && (((s.commit input).1.world.tasks.tasks call.resource).isSome &&
          (input.world.tasks.tasks call.resource).isNone))) = true) :
        call.ofCalendar = true ∧ call.groupId = entry.1.groupId input.ctx.tick := by
      obtain ⟨hgroup, hrest⟩ := Bool.and_eq_true_iff.mp hcreated
      exact ⟨(Bool.and_eq_true_iff.mp hrest).1, of_decide_eq_true hgroup⟩
    refine calls_pairwise h.distinct ?_ ?_ ?_ ?_
    case refine_1 =>
      intro c hc _ _ hcreated
      have hown := (hcalendar hcreated).1
      rw [(h.others_apart (Or.inl hc)).2] at hown
      cases hown
    case refine_2 =>
      intro _ _ c' hc' _ hcreated
      have hown := (hcalendar hcreated).1
      rw [(h.others_apart (Or.inr hc')).2] at hown
      cases hown
    case refine_3 =>
      intro _ _ _ _ hcreated
      cases (hcalendar hcreated).1
    case refine_4 =>
      intro entry₁ hentry₁ entry₂ hentry₂ hne c hc c' hc' hcreated hcreated'
      have hfirst := hgroup hentry₁ ((groupId_entryCalls hc).symm.trans (hcalendar hcreated).2)
      have hsecond := hgroup hentry₂ ((groupId_entryCalls hc').symm.trans (hcalendar hcreated').2)
      rw [hfirst, hsecond] at hne
      exact hne rfl
  · obtain ⟨hsame, hrest⟩ := Bool.and_eq_true_iff.mp hcreated
    obtain ⟨entry', hentry', template', -, rfl⟩ := h.creation_origin hcall (Bool.and_eq_true_iff.mp hrest).1
    obtain rfl := hgroup hentry' (of_decide_eq_true hsame)
    rfl
  · refine ⟨entry.1.creationCall template (input.taskId entry.1.ruleId) input.ctx.tick input.now,
      mem_calls.mpr (Or.inr (Or.inl (mem_staged.mpr ⟨entry, hentry, Or.inr ⟨template, haction, rfl⟩⟩))), ?_⟩
    have hpresent := (h.tasks_commit hentry haction).mpr hadvanced
    have habsent := (h.possible.2.2.2 entry hentry).1
    have hcalendar : (entry.1.creationCall template (input.taskId entry.1.ruleId) input.ctx.tick input.now).ofCalendar =
        true := rfl
    simp only [Function.comp_apply, hcalendar, Bool.true_and]
    rw [show (entry.1.creationCall template (input.taskId entry.1.ruleId) input.ctx.tick input.now).resource =
      input.taskId entry.1.ruleId from rfl, hpresent, habsent]
    exact Bool.and_eq_true_iff.mpr ⟨decide_eq_true rfl, rfl⟩

/-- The checks of `validate` let an advance pass. -/
theorem validateEffect_advance {ctx : Context} {w : World} {tick : ℕ} {id : String} :
    validateEffect ctx w ((rule.advanceCall fire tick).effect id) =
      { (rule.advanceCall fire tick).effect id with status := .validated } := by
  simp [validateEffect, checkTask, checkVersion, checkLock, checkPermission, CalendarRule.advanceCall, StageCall.effect]

/-- A rule that emits an event advances unless the tick is rolled back. -/
theorem advanced_of_emits (h : s.Quiet input) (hentry : entry ∈ s.due input) (hemits : entry.1.emits = true) :
    Advanced s input entry.1.ruleId ↔ (s.commit input).2 = false := by
  constructor
  · rintro ⟨e, he, -, hcommitted⟩
    exact kept_of_committed he hcommitted
  · intro hkept
    obtain ⟨-, -, before, hbefore, -⟩ := mem_due.mp hentry
    have hafter : ∀ entry' ∈ s.due input, entry'.1.ruleId = entry.1.ruleId →
        entry'.2.next before = entry.2.next before :=
      fun entry' hentry' hsame => by rw [due_eq h.distinct hentry' hentry hsame]
    obtain ⟨id, he⟩ := exists_advance hentry
    set advance := (entry.1.advanceCall entry.2 input.ctx.tick).effect id with hadvance
    have halone : ∀ f ∈ s.effects input, f.groupId = advance.groupId → f = advance := by
      intro f hf hgroup
      have hmine : AdvancesRule entry.1.ruleId f := by
        obtain ⟨call, hcall, id', rfl⟩ := mem_stageAll hf
        obtain hother | hstaged | hother := mem_calls.mp hcall
        · exact absurd hgroup (h.apart entry hentry call hother)
        · obtain ⟨entry', hentry', hown⟩ := List.mem_flatMap.mp hstaged
          have hsame : entry' = entry := due_eq h.distinct hentry' hentry
            (CalendarRule.groupId_injective ((groupId_entryCalls hown).symm.trans hgroup))
          rw [hsame] at hown
          obtain rfl | ⟨template, haction, -⟩ := mem_entryCalls.mp hown
          · exact ⟨rfl, rfl⟩
          · rw [CalendarRule.emits, haction] at hemits
            cases hemits
        · exact absurd hgroup (h.alone entry hentry hemits call hother)
      have hsymm : Std.Symm fun e f => AdvancesRule entry.1.ruleId e → ¬AdvancesRule entry.1.ruleId f :=
        ⟨fun _ _ hnot hf he => hnot he hf⟩
      by_contra hne
      exact (h.advance_unique).forall hf he hne hmine ⟨rfl, rfl⟩
    have hwins : winner (validate input.ctx (s.world input) (s.effects input)) { advance with status := .validated } =
        none := by
      unfold winner
      rw [if_neg (not_not.mpr rfl), Option.filter_eq_none_iff]
      intro agent hagent hless
      obtain ⟨f, hf, rfl⟩ := List.mem_map.mp (List.min?_mem hagent)
      obtain ⟨hmem, hclaims⟩ := List.mem_filter.mp hf
      obtain ⟨hvalid, hresource⟩ := of_decide_eq_true hclaims
      exact h.wins entry hentry hemits f hmem hvalid hresource (of_decide_eq_true hless)
    change (ruleSlot input.ctx entry.1.ruleId before (entry.2.next before)).Stands (s.commit input).1
    refine Slot.stands_of_alone fresh (h.rule_kept hafter hbefore) ⟨rfl, rfl⟩ halone rfl
      (Slot.mem_committedLoop he validateEffect_advance halone hwins) (fun m w t error hm habsent hfailed => ?_) hkept
    have hdomain : AdvanceDomain entry.1.ruleId before (entry.2.next before) m :=
      (ruleSlot input.ctx entry.1.ruleId before (entry.2.next before)).domain_congr
        (show advance.asStaged = m.asStaged from hm.symm) (h.advanceDomain hafter he)
    have hmine : AdvancesRule entry.1.ruleId m :=
      ⟨(congrArg StagedEffect.effectType hm).trans rfl, (congrArg StagedEffect.resource hm).trans rfl⟩
    obtain ⟨_, happlied, -⟩ := rules_mine hdomain hmine habsent
    rw [happlied] at hfailed
    cases hfailed

/-- The rules whose wakes are enqueued. -/
theorem mem_wakes {ruleId : String} : ruleId ∈ s.wakes input ↔
    (input.ending = .completes ∧ (s.commit input).2 = false) ∧
      ∃ entry ∈ s.due input, (entry.1.emits = true ∧ entry.1.targetAgentId ∈ s.agents) ∧ entry.1.ruleId = ruleId := by
  unfold wakes
  split_ifs with hpublished
  · rw [List.mem_filterMap]
    refine ⟨?_, fun hwoken => ?_⟩
    · rintro ⟨entry, hentry, hwoken⟩
      split_ifs at hwoken with hemits
      exact ⟨hpublished, entry, hentry, hemits, Option.some_injective _ hwoken⟩
    · obtain ⟨-, entry, hentry, hemits, rfl⟩ := hwoken
      exact ⟨entry, hentry, if_pos hemits⟩
  · exact ⟨fun hmem => absurd hmem List.not_mem_nil, fun hwoken => absurd hwoken.1 hpublished⟩

/-- A rule is woken once. -/
theorem wakes_nodup (h : s.Quiet input) : (s.wakes input).Nodup := by
  unfold wakes
  split
  · refine List.Pairwise.filterMap _ (fun entry entry' hne r hr r' hr' => ?_) (due_unique h.distinct)
    split_ifs at hr hr'
    obtain rfl := Option.some_injective _ hr
    obtain rfl := Option.some_injective _ hr'
    exact hne
  · exact List.nodup_nil

/-- A rule that emits an event is woken exactly when its advance stands. -/
theorem woken_iff (h : s.Quiet input) (known : ∀ rule ∈ s.rules, rule.targetAgentId ∈ s.agents) (hrule : rule ∈ s.rules)
    (hemits : rule.emits = true) (hcommit : input.ending ≠ .stopsBeforeCommit) :
    rule.ruleId ∈ s.wakes input ↔ Advanced s input rule.ruleId := by
  rw [mem_wakes]
  constructor
  · rintro ⟨⟨-, hkept⟩, entry, hentry, ⟨hentryEmits, -⟩, hsame⟩
    exact hsame ▸ (h.advanced_of_emits hentry hentryEmits).mpr hkept
  · intro hadvanced
    obtain ⟨entry, hentry, hsame⟩ := h.due_of_advanced hadvanced
    have hown : entry.1 = rule := List.inj_on_of_nodup_map h.distinct (mem_due.mp hentry).1 hrule hsame
    have hentryEmits : entry.1.emits = true := hown.symm ▸ hemits
    refine ⟨⟨?_, (h.advanced_of_emits hentry hentryEmits).mp (hsame.symm ▸ hadvanced)⟩, entry, hentry,
      ⟨hentryEmits, known _ (mem_due.mp hentry).1⟩, hsame⟩
    cases hending : input.ending with
    | completes => rfl
    | stopsBeforeCommit => exact absurd hending hcommit
    | stopsBeforePublish =>
      rw [h.published hending entry hentry] at hentryEmits
      cases hentryEmits

/-- The record of a tick pairs the advances of the rules with what they do. -/
theorem paired (h : s.Quiet input) (known : ∀ rule ∈ s.rules, rule.targetAgentId ∈ s.agents)
    (hcommit : input.ending ≠ .stopsBeforeCommit) : TickRecord.Paired s.rules (s.record input) := by
  have hadvances {ruleId : String} (a : Advance) (ha : a ∈ (s.record input).advances) (hrule : a.ruleId = ruleId) :
      Advanced s input ruleId := by
    by_contra hnot
    have hmem : a ∈ (s.record input).advances.filter fun a => a.ruleId = ruleId :=
      List.mem_filter.mpr ⟨ha, decide_eq_true hrule⟩
    rw [advances_of_not_advanced hnot] at hmem
    exact absurd hmem List.not_mem_nil
  constructor
  case created =>
    intro rule hrule hemits a ha hsame
    have hadvanced := hadvances a ha hsame
    obtain ⟨entry, hentry, hid⟩ := h.due_of_advanced hadvanced
    obtain rfl : entry.1 = rule := List.inj_on_of_nodup_map h.distinct (mem_due.mp hentry).1 hrule hid
    have hmem : a ∈ (s.record input).advances.filter fun a => a.ruleId = entry.1.ruleId :=
      List.mem_filter.mpr ⟨ha, decide_eq_true hsame⟩
    rw [h.advances_of_advanced hentry hadvanced] at hmem
    obtain rfl := List.mem_singleton.mp hmem
    exact ⟨_, h.created_of_advanced hentry hemits hadvanced⟩
  case advanced =>
    intro c hc
    obtain ⟨entry, hentry, hgroup, hadvanced⟩ := h.advanced_of_created hc
    have hmem : (⟨entry.1.ruleId, entry.1.groupId input.ctx.tick, entry.2.lastFiredAt⟩ : Advance) ∈
        (s.record input).advances.filter fun a => a.ruleId = entry.1.ruleId := by
      rw [h.advances_of_advanced hentry hadvanced]
      exact List.mem_singleton_self _
    exact ⟨_, (List.mem_filter.mp hmem).1, hgroup⟩
  case woken =>
    intro rule hrule hemits
    have hwoken := h.woken_iff known hrule hemits hcommit
    rw [List.countP_eq_length_filter]
    by_cases hadvanced : Advanced s input rule.ruleId
    · obtain ⟨entry, hentry, hid⟩ := h.due_of_advanced hadvanced
      have hlist := h.advances_of_advanced hentry (hid.symm ▸ hadvanced)
      rw [hid] at hlist
      rw [hlist]
      exact List.count_eq_one_of_mem h.wakes_nodup (hwoken.mpr hadvanced)
    · rw [advances_of_not_advanced hadvanced]
      exact List.count_eq_zero_of_not_mem fun hmem => hadvanced (hwoken.mp hmem)

/-- The record of a tick is about the rules. -/
theorem recorded (h : s.Quiet input) :
    (∀ a ∈ (s.record input).advances, a.ruleId ∈ s.rules.map CalendarRule.ruleId) ∧
      ∀ ruleId ∈ (s.record input).woken, ruleId ∈ s.rules.map CalendarRule.ruleId := by
  constructor
  · intro a ha
    obtain ⟨e, he, rfl⟩ := List.mem_map.mp ha
    obtain ⟨hmem, hadvance⟩ := List.mem_filter.mp he
    obtain ⟨htype, hcommitted⟩ := of_decide_eq_true hadvance
    obtain ⟨entry, hentry, hid⟩ := h.due_of_advanced ⟨e, hmem, ⟨htype, rfl⟩, hcommitted⟩
    exact hid ▸ List.mem_map_of_mem (mem_due.mp hentry).1
  · intro ruleId hwoken
    obtain ⟨-, entry, hentry, -, rfl⟩ := mem_wakes.mp hwoken
    exact List.mem_map_of_mem (mem_due.mp hentry).1

end Quiet

end Calendar

end MyTeam.Legacy
