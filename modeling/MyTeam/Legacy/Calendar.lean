import MyTeam.Legacy.Advances
import MyTeam.Legacy.Cron
import MyTeam.Legacy.Groupwise
import MyTeam.Order.Gapless

/-!
# The calendar

A rule is evaluated in the ingest phase of each tick. If it is due, its advance is staged, in a group
with the task it creates; Commit applies or drops the two with everything else that was staged, and
Publish enqueues the wakes of the rules that emit an event. Instants are counted in microseconds of
the business clock, and a date in the data of an effect is such a number.
-/

namespace MyTeam.Legacy

open MyTeam.Py MyTeam.Async MyTeam.Order

/-- The value of a priority. -/
def TaskPriority.value : TaskPriority → String
  | low => "low"
  | normal => "normal"
  | high => "high"
  | urgent => "urgent"

/-- `TaskTemplate`. -/
structure TaskTemplate where
  title : String
  description : String := ""
  priority : TaskPriority := .normal
  deadlineOffsetMinutes : Option ℤ := none

/-- When a rule is due: exactly one of `cron` and `interval_ticks`. -/
inductive Cadence
  | cron (spec : CronSpec)
  | interval (ticks : ℕ)

/-- What a due rule does. A rule that creates a task has a template. -/
inductive ScheduleAction
  | createTask (template : TaskTemplate)
  | emitEvent

/-- `ScheduleRule`, without what a commit moves. -/
structure CalendarRule where
  ruleId : String
  targetAgentId : String
  cadence : Cadence
  action : ScheduleAction
  enabled : Bool := true
  registeredAt : ℤ

/-- An entry of `_calendar_fires_this_tick`. -/
structure Fire where
  nextRunTick : Value
  lastFiredAt : Value

namespace CalendarRule

variable (rule : CalendarRule)

/-- Whether the rule emits an event. -/
def emits : Bool :=
  match rule.action with
  | .createTask _ => false
  | .emitEvent => true

/-- The instant after which a cron rule is due next, by the state that commits have left it in. -/
def base (state : ScheduleRule) : ℤ :=
  match state.lastFiredAt with
  | .int last => last
  | _ => rule.registeredAt

/-- The evaluation of an enabled rule in `_check_calendar`. -/
def fire (state : ScheduleRule) (tick : ℕ) (now : ℤ) : Option Fire :=
  match rule.cadence with
  | .interval ticks =>
    match state.nextRunTick with
    | .int next => if (tick : ℤ) < next then none else some ⟨.int (tick + ticks), .none⟩
    | _ => none
  | .cron spec =>
    match spec.nextFireAfter (rule.base state) with
    -- the `ValueError` of `next_fire_after`
    | none => none
    | some next => if now < next then none else some ⟨.none, .int next⟩

/-- The group of what the rule stages in a tick. -/
def groupId (tick : ℕ) : String :=
  s!"cal.{rule.ruleId}.{tick}"

/-- The advance that a due rule stages. -/
def advanceCall (fire : Fire) (tick : ℕ) : StageCall where
  effectType := .ruleAdvance
  agentId := rule.targetAgentId
  resource := rule.ruleId
  data := some [("rule_id", .str rule.ruleId), ("next_run_tick", fire.nextRunTick), ("last_fired_at", fire.lastFiredAt)]
  groupId := rule.groupId tick
  atomicity := "group"

/-- The assigner of the tasks that rules create. -/
def assigner : String :=
  "system:calendar"

/-- The task that a due rule stages. -/
def creationCall (template : TaskTemplate) (taskId : String) (tick : ℕ) (now : ℤ) : StageCall where
  effectType := .taskCreate
  agentId := rule.targetAgentId
  resource := taskId
  data := some [("task_id", .str taskId), ("title", .str template.title), ("description", .str template.description),
    ("assigner_agent_id", .str assigner), ("assignee_agent_id", .str rule.targetAgentId),
    ("priority", .str template.priority.value),
    ("deadline", match template.deadlineOffsetMinutes with
      | some minutes => .int (now + minutes * 60000000)
      | none => .none)]
  groupId := rule.groupId tick
  atomicity := "group"

/-- All that a due rule stages. -/
def calls (fire : Fire) (taskId : String) (tick : ℕ) (now : ℤ) : List StageCall :=
  rule.advanceCall fire tick ::
    match rule.action with
    | .createTask template => [rule.creationCall template taskId tick now]
    | .emitEvent => []

end CalendarRule

/-- How a tick ends: it completes, or an exception leaves `run_tick` before the commit, or after it and before the
wakes. -/
inductive Ending
  | completes
  | stopsBeforeCommit
  | stopsBeforePublish
deriving DecidableEq, Repr

/-- What a tick brings with it: what its commit reads and finds, but for the calendar, the time, the ids that `uuid4`
gives the tasks of the rules, what others stage before and after the calendar is checked, and its end. -/
structure TickInput where
  ctx : Context
  world : World
  now : ℤ
  taskId : String → String
  earlier : List StageCall := []
  later : List StageCall := []
  ending : Ending := .completes

/-- A committed advance, with its group and the `last_fired_at` it sets. -/
structure Advance where
  ruleId : String
  groupId : String
  firedAt : Value

/-- What a tick has made of the calendar: the committed advances, the tasks it created with their groups, and the rules
whose wakes were enqueued. -/
structure TickRecord where
  advances : List Advance := []
  created : List (String × String) := []
  woken : List String := []

/-- The calendar of a simulation with its agents: the rules, the state that commits have left them in, what a tick that
stopped has left in the transaction buffer, the time, and the records of the ticks. -/
structure Calendar where
  agents : List String
  rules : List CalendarRule := []
  advancement : String → Option ScheduleRule := fun _ => none
  buffer : List StageCall := []
  clock : ℤ
  records : List TickRecord := []

/-- A move: a rule is registered, with the `next_run_tick` and `last_fired_at` it is given with, or a tick is run. -/
inductive CalendarMove
  | register (rule : CalendarRule) (nextRunTick : ℕ) (lastFiredAt : Option ℤ) (now : ℤ)
  | tick (input : TickInput)

/-- Whether a call is the creation of a task by a rule. -/
def StageCall.ofCalendar (call : StageCall) : Bool :=
  decide (call.effectType = .taskCreate) && ((call.effect "").get "assigner_agent_id" .none).isStr CalendarRule.assigner

/-- Whether a call is on a task or names it. -/
def StageCall.names (taskId : String) (call : StageCall) : Bool :=
  decide (call.resource = taskId) ||
    decide (call.effectType = .taskCreate) && ((call.effect "").get "task_id" (.str call.resource)).isStr taskId

namespace Calendar

variable (s : Calendar) (input : TickInput)

/-- The due rules, as `_check_calendar` finds them. -/
def due : List (CalendarRule × Fire) :=
  s.rules.filterMap fun rule =>
    if rule.enabled then
      ((s.advancement rule.ruleId).bind fun state => rule.fire state input.ctx.tick input.now).map fun fire =>
        (rule, fire)
    else none

/-- What the calendar stages. -/
def staged : List StageCall :=
  (s.due input).flatMap fun entry => entry.1.calls entry.2 (input.taskId entry.1.ruleId) input.ctx.tick input.now

/-- All that is in the buffer at the end of Act. -/
def calls : List StageCall :=
  (s.buffer ++ input.earlier) ++ s.staged input ++ input.later

/-- The effects in the buffer. -/
def effects : List StagedEffect :=
  (TransactionBuffer.stageAll (s.calls input)).effects

/-- What the commit finds. -/
def world : World :=
  { input.world with rules := s.advancement }

/-- The commit, and whether it rolled back. -/
def commit : ApplyLoop × Bool :=
  phaseCommit input.ctx (s.world input) (s.effects input)

/-- The wakes of `_phase_publish`. -/
def wakes : List String :=
  if input.ending = .completes ∧ (s.commit input).2 = false then
    (s.due input).filterMap fun entry =>
      if entry.1.emits ∧ entry.1.targetAgentId ∈ s.agents then some entry.1.ruleId else none
  else []

/-- The record of a tick. -/
def record : TickRecord where
  advances := ((s.commit input).1.done.filter fun e => e.effectType = .ruleAdvance ∧ e.status = .committed).map fun e =>
    ⟨e.resource, e.groupId, e.get "last_fired_at" .none⟩
  created := ((s.calls input).filter fun call => call.ofCalendar &&
    (((s.commit input).1.world.tasks.tasks call.resource).isSome &&
      (input.world.tasks.tasks call.resource).isNone)).map fun call => (call.groupId, call.resource)
  woken := s.wakes input

/-- What can be in a tick: the clock does not go back, rules are advanced and their tasks created by the calendar
alone, and the ids of these tasks are new. -/
def Possible : Prop :=
  s.clock ≤ input.now ∧
    (∀ call ∈ input.earlier ++ input.later, call.effectType ≠ .ruleAdvance ∧ call.ofCalendar = false) ∧
    ((s.due input).map fun entry => input.taskId entry.1.ruleId).Nodup ∧
    ∀ entry ∈ s.due input, (input.world.tasks.tasks (input.taskId entry.1.ruleId)).isNone = true ∧
      (∀ rule ∈ s.rules, rule.ruleId ≠ input.taskId entry.1.ruleId) ∧
      ∀ call ∈ (s.buffer ++ input.earlier) ++ input.later, call.names (input.taskId entry.1.ruleId) = false

instance : Decidable (s.Possible input) :=
  inferInstanceAs (Decidable (_ ∧ _ ∧ _ ∧ _))

/-- A tick. One that stops before the commit leaves the buffer as it is; a commit is followed by `clear`. -/
def runTick : Calendar :=
  match input.ending with
  | .stopsBeforeCommit => { s with buffer := s.calls input, clock := input.now }
  | _ =>
    { s with
      advancement := (s.commit input).1.world.rules
      buffer := []
      clock := input.now
      records := s.records ++ [s.record input] }

/-- `register_schedule_rule`, which stamps the rule with the time; `none` is a `ValueError`. -/
def register (rule : CalendarRule) (nextRunTick : ℕ) (lastFiredAt : Option ℤ) (now : ℤ) : Option Calendar :=
  if rule.targetAgentId ∉ s.agents then none
  else if rule.ruleId ∈ s.rules.map CalendarRule.ruleId then none
  else some { s with
    rules := s.rules ++ [{ rule with registeredAt := now }]
    advancement := Function.update s.advancement rule.ruleId
      (some ⟨.int nextRunTick, (lastFiredAt.map Value.int).getD .none⟩)
    clock := now }

/-- The calendar after a move; `none` is one that is not possible, or raises and changes nothing. -/
def step : CalendarMove → Option Calendar
  | .register rule nextRunTick lastFiredAt now =>
    if s.clock ≤ now then s.register rule nextRunTick lastFiredAt now else none
  | .tick input => if s.Possible input then some (s.runTick input) else none

/-- A tick that nothing disturbs: what is in the buffer before has nothing of the calendar that a tick which stopped has
left, nor anything in the groups of the due rules; for those that emit an event, nothing else is in the group at all,
and no agent that comes first has a valid effect on a resource with the name of the rule; and their wakes are
published. -/
structure Undisturbed : Prop where
  cleared : ∀ call ∈ s.buffer, call.effectType ≠ .ruleAdvance ∧ call.ofCalendar = false
  apart : ∀ entry ∈ s.due input, ∀ call ∈ s.buffer ++ input.earlier, call.groupId ≠ entry.1.groupId input.ctx.tick
  alone : ∀ entry ∈ s.due input, entry.1.emits = true → ∀ call ∈ input.later,
    call.groupId ≠ entry.1.groupId input.ctx.tick
  wins : ∀ entry ∈ s.due input, entry.1.emits = true → ∀ e ∈ validate input.ctx (s.world input) (s.effects input),
    e.status = .validated → e.resource = entry.1.ruleId → ¬e.agentId < entry.1.targetAgentId
  published : input.ending = .stopsBeforePublish → ∀ entry ∈ s.due input, entry.1.emits = false

/-- A move under which rules fire as they should: a cron rule is registered that has not fired yet, and nothing
disturbs a tick that comes to its commit. -/
def Fitting : CalendarMove → Prop
  | .register rule _ lastFiredAt _ => ∀ spec, rule.cadence = .cron spec → lastFiredAt = none
  | .tick input => input.ending = .stopsBeforeCommit ∨ s.Undisturbed input

/-- The `last_fired_at` values that committed advances of a rule have set. -/
def fired (ruleId : String) : List Value :=
  s.records.flatMap fun record => (record.advances.filter fun a => a.ruleId = ruleId).map Advance.firedAt

/-- A record pairs the advances of rules with what the rules do: an advance of a rule that creates tasks comes with
exactly one task, and there are no others, and a rule that emits events is woken once for each of its advances. -/
structure TickRecord.Paired (rules : List CalendarRule) (record : TickRecord) : Prop where
  created : ∀ rule ∈ rules, rule.emits = false → ∀ a ∈ record.advances, a.ruleId = rule.ruleId →
    ∃ t, record.created.filter (fun c => c.1 = a.groupId) = [(a.groupId, t)]
  advanced : ∀ c ∈ record.created, ∃ a ∈ record.advances, a.groupId = c.1
  woken : ∀ rule ∈ rules, rule.emits = true →
    record.woken.count rule.ruleId = record.advances.countP fun a => a.ruleId = rule.ruleId

/-- Every occurrence has fired exactly once: the advances of a cron rule are its occurrences after its registration,
without gap or repetition, and each record pairs them with tasks and wakes. -/
structure Exact : Prop where
  fired : ∀ rule ∈ s.rules, ∀ spec, rule.cadence = .cron spec →
    ∃ points, s.fired rule.ruleId = points.map Value.int ∧ Gapless spec.Occurs rule.registeredAt points
  paired : ∀ record ∈ s.records, TickRecord.Paired s.rules record

end Calendar

end MyTeam.Legacy
