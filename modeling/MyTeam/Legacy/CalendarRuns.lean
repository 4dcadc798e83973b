import MyTeam.Legacy.Occurrences

/-!
# Runs of a calendar

In a run whose rules are new when they are registered, and whose commits nothing disturbs, every
occurrence of a rule fires exactly once. A rule that emits an event, and whose advance loses a
conflict over a resource with the name of the rule, wakes its agent in every tick.
-/

namespace MyTeam.Legacy

open MyTeam.Py MyTeam.Async MyTeam.Order

namespace Calendar

variable {s t : Calendar} {input : TickInput} {rule : CalendarRule}

/-- A cron rule has come to where its fires have come to. -/
def FiredUpTo (s : Calendar) (rule : CalendarRule) (spec : CronSpec) : Prop :=
  ∃ points state, s.advancement rule.ruleId = some state ∧ s.fired rule.ruleId = points.map Value.int ∧
    Gapless spec.Occurs rule.registeredAt points ∧ rule.base state = reached rule.registeredAt points

/-- What holds in every state of a run. -/
structure Kept (s : Calendar) : Prop where
  distinct : (s.rules.map CalendarRule.ruleId).Nodup
  known : ∀ rule ∈ s.rules, rule.targetAgentId ∈ s.agents
  states : ∀ rule ∈ s.rules, ∃ state, s.advancement rule.ruleId = some state
  firedUpTo : ∀ rule ∈ s.rules, ∀ spec, rule.cadence = .cron spec → s.FiredUpTo rule spec
  recorded : ∀ record ∈ s.records, (∀ a ∈ record.advances, a.ruleId ∈ s.rules.map CalendarRule.ruleId) ∧
    ∀ ruleId ∈ record.woken, ruleId ∈ s.rules.map CalendarRule.ruleId
  paired : ∀ record ∈ s.records, TickRecord.Paired s.rules record

/-- All occurrences have fired in a state of a run. -/
theorem Kept.exact (kept : s.Kept) : s.Exact where
  fired := by
    intro rule hrule spec hcron
    obtain ⟨points, -, -, hfired, hgapless, -⟩ := kept.firedUpTo rule hrule spec hcron
    exact ⟨points, hfired, hgapless⟩
  paired := kept.paired

/-- A rule that is not registered has not fired. -/
theorem Kept.fired_eq_nil (kept : s.Kept) {ruleId : String} (hnew : ruleId ∉ s.rules.map CalendarRule.ruleId) :
    s.fired ruleId = [] := by
  unfold fired
  refine List.flatMap_eq_nil_iff.mpr fun record hrecord => ?_
  rw [List.map_eq_nil_iff, List.filter_eq_nil_iff]
  intro a ha hsame
  exact hnew (of_decide_eq_true hsame ▸ (kept.recorded record hrecord).1 a ha)

/-- The registration of a rule keeps what holds. -/
theorem Kept.register (kept : s.Kept) {nextRunTick : ℕ} {lastFiredAt : Option ℤ} {now : ℤ}
    (hnew : ∀ spec, rule.cadence = .cron spec → lastFiredAt = none)
    (hregister : s.register rule nextRunTick lastFiredAt now = some t) : t.Kept := by
  unfold Calendar.register at hregister
  split_ifs at hregister with hunknown hexists
  obtain rfl := Option.some_injective _ hregister
  have hother {old : CalendarRule} (hold : old ∈ s.rules) : old.ruleId ≠ rule.ruleId := fun hsame =>
    hexists (hsame ▸ List.mem_map_of_mem hold)
  constructor
  case distinct =>
    dsimp only
    rw [List.map_append, List.nodup_append]
    refine ⟨kept.distinct, List.nodup_singleton _, fun id hid other hid' => ?_⟩
    obtain rfl := List.mem_singleton.mp hid'
    rintro rfl
    exact hexists hid
  case known =>
    intro old hold
    obtain hold | hold := List.mem_append.mp hold
    · exact kept.known old hold
    · rw [List.mem_singleton.mp hold]
      exact hunknown
  case states =>
    intro old hold
    obtain hold | hold := List.mem_append.mp hold
    · obtain ⟨state, hstate⟩ := kept.states old hold
      exact ⟨state, (Function.update_of_ne (hother hold) _ _).trans hstate⟩
    · rw [List.mem_singleton.mp hold]
      exact ⟨_, Function.update_self _ _ _⟩
  case firedUpTo =>
    intro old hold spec hcron
    obtain hold | hold := List.mem_append.mp hold
    · obtain ⟨points, state, hstate, hrest⟩ := kept.firedUpTo old hold spec hcron
      exact ⟨points, state, (Function.update_of_ne (hother hold) _ _).trans hstate, hrest⟩
    · rw [List.mem_singleton.mp hold] at hcron ⊢
      obtain rfl := hnew spec hcron
      exact ⟨[], _, Function.update_self _ _ _, kept.fired_eq_nil hexists, .nil, rfl⟩
  case recorded =>
    intro record hrecord
    obtain ⟨hadvances, hwoken⟩ := kept.recorded record hrecord
    dsimp only
    rw [List.map_append]
    exact ⟨fun a ha => List.mem_append_left _ (hadvances a ha), fun id hid => List.mem_append_left _ (hwoken id hid)⟩
  case paired =>
    intro record hrecord
    obtain ⟨hadvances, hwoken⟩ := kept.recorded record hrecord
    have hpaired := kept.paired record hrecord
    constructor
    case created =>
      intro old hold hemits a ha hsame
      obtain hold | hold := List.mem_append.mp hold
      · exact hpaired.created old hold hemits a ha hsame
      · rw [List.mem_singleton.mp hold] at hsame
        exact absurd (hsame ▸ hadvances a ha) hexists
    case advanced => exact hpaired.advanced
    case woken =>
      intro old hold hemits
      obtain hold | hold := List.mem_append.mp hold
      · exact hpaired.woken old hold hemits
      · rw [List.mem_singleton.mp hold]
        have hcount : record.woken.count rule.ruleId = 0 :=
          List.count_eq_zero_of_not_mem fun hmem => hexists (hwoken _ hmem)
        have hnone : (record.advances.countP fun a => a.ruleId = rule.ruleId) = 0 :=
          List.countP_eq_zero.mpr fun a ha hsame => hexists (of_decide_eq_true hsame ▸ hadvances a ha)
        exact hcount.trans hnone.symm

/-- A tick adds to the fires of a rule what its record has of them. -/
theorem fired_append {record : TickRecord} (hrecords : t.records = s.records ++ [record]) (ruleId : String) :
    t.fired ruleId = s.fired ruleId ++ (record.advances.filter fun a => a.ruleId = ruleId).map Advance.firedAt := by
  unfold fired
  rw [hrecords, List.flatMap_append, List.flatMap_singleton]

/-- A cron rule that is due is due for its next occurrence. -/
theorem fire_cron {spec : CronSpec} {state : ScheduleRule} {tick : ℕ} {now : ℤ} {fire : Fire}
    (hcron : rule.cadence = .cron spec) (hfire : rule.fire state tick now = some fire) :
    ∃ next, fire = ⟨.none, .int next⟩ ∧ rule.base state < next ∧ spec.Occurs next ∧
      ∀ u, spec.Occurs u → rule.base state < u → next ≤ u := by
  obtain ⟨next, hnext, hlater, hoccurs, hleast⟩ := spec.nextFireAfter_least (rule.base state)
  unfold CalendarRule.fire at hfire
  rw [hcron] at hfire
  dsimp only at hfire
  rw [hnext] at hfire
  dsimp only at hfire
  split_ifs at hfire
  exact ⟨next, (Option.some_injective _ hfire).symm, hlater, hoccurs, hleast⟩

/-- A tick that nothing disturbs takes a cron rule to its next occurrence, or leaves it where it is. -/
theorem FiredUpTo.tick {spec : CronSpec} (h : s.FiredUpTo rule spec) (quiet : s.Quiet input)
    (hcron : rule.cadence = .cron spec)
    (hrule : rule ∈ s.rules) (hadvancement : t.advancement = (s.commit input).1.world.rules)
    (hrecords : t.records = s.records ++ [s.record input]) : t.FiredUpTo rule spec := by
  obtain ⟨points, before, hbefore, hfired, hgapless, hbase⟩ := h
  have happend := fired_append hrecords rule.ruleId
  by_cases hadvanced : Quiet.Advanced s input rule.ruleId
  · obtain ⟨entry, hentry, hid⟩ := quiet.due_of_advanced hadvanced
    obtain rfl : entry.1 = rule := List.inj_on_of_nodup_map quiet.distinct (mem_due.mp hentry).1 hrule hid
    obtain ⟨-, -, state, hstate, hfire⟩ := mem_due.mp hentry
    obtain rfl : state = before := Option.some_injective _ (hstate.symm.trans hbefore)
    obtain ⟨next, hentryFire, hlater, hoccurs, hleast⟩ := fire_cron hcron hfire
    have hafter : ∀ entry' ∈ s.due input, entry'.1.ruleId = entry.1.ruleId → entry'.2.next state = entry.2.next state :=
      fun entry' hentry' hsame => by rw [due_eq quiet.distinct hentry' hentry hsame]
    rw [quiet.advances_of_advanced hentry hadvanced, hfired, hentryFire] at happend
    refine ⟨points ++ [next], entry.2.next state, ?_, ?_, ?_, ?_⟩
    · rw [hadvancement]
      exact (quiet.rules_commit hafter hbefore).1 hadvanced
    · rw [happend, List.map_append]
      rfl
    · rw [hbase] at hlater hleast
      exact hgapless.append hlater hoccurs hleast
    · rw [reached_append, hentryFire]
      rfl
  · obtain ⟨after, hafter⟩ := quiet.exists_next before rule.ruleId
    rw [Quiet.advances_of_not_advanced hadvanced, List.map_nil, List.append_nil] at happend
    refine ⟨points, before, ?_, happend.trans hfired, hgapless, hbase⟩
    rw [hadvancement]
    exact (quiet.rules_commit hafter hbefore).2 hadvanced

/-- A tick that nothing disturbs and that comes to its commit keeps what holds. -/
theorem Kept.commit (kept : s.Kept) (quiet : s.Quiet input) (hcommit : input.ending ≠ .stopsBeforeCommit)
    (hagents : t.agents = s.agents) (hrules : t.rules = s.rules)
    (hadvancement : t.advancement = (s.commit input).1.world.rules)
    (hrecords : t.records = s.records ++ [s.record input]) :
    t.Kept := by
  constructor
  case distinct => exact hrules ▸ kept.distinct
  case known => exact hrules ▸ hagents ▸ kept.known
  case states =>
    rw [hrules]
    intro rule hrule
    obtain ⟨before, hbefore⟩ := kept.states rule hrule
    obtain ⟨after, hafter⟩ := quiet.exists_next before rule.ruleId
    obtain ⟨hadvances, hstays⟩ := quiet.rules_commit hafter hbefore
    rw [hadvancement]
    by_cases hadvanced : Quiet.Advanced s input rule.ruleId
    · exact ⟨after, hadvances hadvanced⟩
    · exact ⟨before, hstays hadvanced⟩
  case firedUpTo =>
    rw [hrules]
    exact fun rule hrule spec hcron =>
      (kept.firedUpTo rule hrule spec hcron).tick quiet hcron hrule hadvancement hrecords
  case recorded =>
    rw [hrules, hrecords]
    intro record hrecord
    obtain hold | hnew := List.mem_append.mp hrecord
    · exact kept.recorded record hold
    · rw [List.mem_singleton.mp hnew]
      exact quiet.recorded
  case paired =>
    rw [hrules, hrecords]
    intro record hrecord
    obtain hold | hnew := List.mem_append.mp hrecord
    · exact kept.paired record hold
    · rw [List.mem_singleton.mp hnew]
      exact quiet.paired kept.known hcommit

/-- A fitting move keeps what holds. -/
theorem Kept.step (kept : s.Kept) {move : CalendarMove} (fitting : s.Fitting move) (hstep : s.step move = some t) :
    t.Kept := by
  cases move with
  | register rule nextRunTick lastFiredAt now =>
    simp only [Calendar.step] at hstep
    split_ifs at hstep
    exact kept.register fitting hstep
  | tick input =>
    simp only [Calendar.step] at hstep
    split_ifs at hstep with possible
    obtain rfl := Option.some_injective _ hstep
    unfold runTick
    cases hending : input.ending with
    | stopsBeforeCommit => exact ⟨kept.distinct, kept.known, kept.states, kept.firedUpTo, kept.recorded, kept.paired⟩
    | completes | stopsBeforePublish =>
      obtain hstops | undisturbed := fitting
      · rw [hending] at hstops
        cases hstops
      · have hcommit : input.ending ≠ .stopsBeforeCommit := by simp [hending]
        exact kept.commit ⟨undisturbed, kept.distinct, possible⟩ hcommit rfl rfl rfl rfl

/-- A calendar without rules. -/
def opened (agents : List String) (clock : ℤ) : Calendar where
  agents := agents
  clock := clock

/-- What holds at the start. -/
theorem kept_opened (agents : List String) (clock : ℤ) : (opened agents clock).Kept where
  distinct := List.nodup_nil
  known := fun _ hrule => absurd hrule List.not_mem_nil
  states := fun _ hrule => absurd hrule List.not_mem_nil
  firedUpTo := fun _ hrule => absurd hrule List.not_mem_nil
  recorded := fun _ hrecord => absurd hrecord List.not_mem_nil
  paired := fun _ hrecord => absurd hrecord List.not_mem_nil

/-- In a run of fitting moves every occurrence fires exactly once. -/
theorem exact_of_fitting (agents : List String) (clock : ℤ)
    (h : Reaches Calendar.step Fitting (opened agents clock) t) : t.Exact :=
  (h.invariant (kept_opened agents clock) fun kept fitting hstep => kept.step fitting hstep).exact

/-- A rule that wakes an agent every day at nine. -/
def standup : CalendarRule where
  ruleId := "standup"
  targetAgentId := "bob"
  cadence := .cron { freq := .daily, hour := 9, minute := 0, inRange := by decide, weekdays := by decide }
  action := .emitEvent
  registeredAt := 0

/-- An office with the rule. -/
def office : Calendar where
  agents := ["alice", "bob"]
  rules := [standup]
  advancement := Function.update (fun _ => none) "standup" (some ⟨.int 0, .none⟩)
  clock := 0

/-- A tick at nine, in which others stage effects after the calendar is checked. -/
def atNine (later : List StageCall) : TickInput where
  ctx := plainContext
  world := twoHomes
  now := 32400000000
  taskId := fun ruleId => "task." ++ ruleId
  later := later

/-- The office after the rule is registered and a tick is run. -/
theorem reaches_atNine {allowed : Calendar → CalendarMove → Prop} (later : List StageCall)
    (hregister : allowed (opened ["alice", "bob"] 0) (.register standup 0 none 0))
    (htick : allowed office (.tick (atNine later)))
    (possible : office.Possible (atNine later)) :
    Reaches Calendar.step allowed (opened ["alice", "bob"] 0) (office.runTick (atNine later)) :=
  .move _ (.move _ .refl hregister rfl) htick (if_pos possible)

/-- A rule that is due fires exactly once in a tick in which nobody else stages anything. -/
theorem exact_of_fitting_standup : (office.runTick (atNine [])).Exact := by
  refine exact_of_fitting _ _ (reaches_atNine [] (fun _ _ => rfl) (Or.inr ⟨?_, ?_, ?_, ?_, ?_⟩) (by decide +kernel))
  · exact fun _ hcall => absurd hcall List.not_mem_nil
  · exact fun _ _ _ hcall => absurd hcall List.not_mem_nil
  · exact fun _ _ _ _ hcall => absurd hcall List.not_mem_nil
  · decide +kernel
  · intro hending
    cases hending

/-- A private file with the name of the rule. -/
def notes : StageCall where
  effectType := .fileWrite
  agentId := "alice"
  resource := "standup"
  data := some [("content", .str "today")]

/-- An agent writes a file with the name of a rule, and the rule wakes its agent without an advance. -/
theorem woken_without_advance : ¬∀ (agents : List String) (clock : ℤ) (t : Calendar),
    Reaches Calendar.step (fun _ _ => True) (opened agents clock) t → t.Exact := by
  intro h
  have hexact := h _ _ _ (reaches_atNine [notes] trivial trivial (by decide +kernel))
  have hwoken := (hexact.paired _ (List.mem_append_right _ (List.mem_singleton_self _))).woken standup
    List.mem_cons_self rfl
  revert hwoken
  decide +kernel

end Calendar

end MyTeam.Legacy
