import MyTeam.Py.Format
import MyTeam.Legacy.Transaction
import Mathlib.Data.List.Sort

/-!
# The transaction buffer

Effects are staged in the order of the calls, each under the next number. `resolve_conflicts` goes
through the contested resources in the order they were first staged, and while it fails the losers
of one, it fails the groups of these at once. What comes out does not depend on that order: an
effect fails exactly when it loses its own resource or is in the group of a loser.
-/

namespace MyTeam.Legacy

open MyTeam.Py

/-- The value of an effect type. -/
def EffectType.value : EffectType → String
  | emailSend => "email_send"
  | emailDeliver => "email_deliver"
  | fileWrite => "file_write"
  | filePatch => "file_patch"
  | fileDelete => "file_delete"
  | kbCreate => "kb_create"
  | kbWrite => "kb_write"
  | kbDelete => "kb_delete"
  | lockAcquire => "lock_acquire"
  | lockRelease => "lock_release"
  | taskCreate => "task_create"
  | taskUpdate => "task_update"
  | stateTransition => "state_transition"
  | recordUpsert => "record_upsert"
  | recordDelta => "record_delta"
  | ruleAdvance => "rule_advance"
  | memoryEntryWrite => "memory_entry_write"
  | memoryEntryEvict => "memory_entry_evict"
  | memoryEntryFold => "memory_entry_fold"
  | memoryRecallConfig => "memory_recall_config"
  | memoryRecall => "memory_recall"
  | memoryPin => "memory_pin"

/-- `_EXTERNAL_EFFECT_TYPES`. -/
def EffectType.external (type : EffectType) : Bool :=
  type ∈ [emailSend, emailDeliver, fileWrite, filePatch, fileDelete]

namespace StagedEffect

/-- An effect without the ids it was given. -/
def anonymous (e : StagedEffect) : StagedEffect :=
  { e with effectId := "", entryId := "" }

end StagedEffect

/-- The callbacks of `validate`, each of which may be left out. -/
structure Checks where
  checkVersion : Option (String → ℤ → Bool)
  checkLock : Option (String → String → Option String → Bool)
  checkPermission : Option (String → String → String → Bool)
  checkTask : Option (StagedEffect → Option String)

namespace Checks

variable (checks : Checks)

/-- The task check, for updates. -/
def taskError (e : StagedEffect) : Option String :=
  if e.effectType = .taskUpdate then checks.checkTask.bind fun check => check e else none

/-- The version check, for effects that expect one. -/
def versionError (e : StagedEffect) : Option String :=
  match e.expectedVersion, checks.checkVersion with
  | some expected, some check => if check e.resource expected then none
      else some s!"Version conflict: expected {expected}"
  | _, _ => none

/-- The lock check, for the types that write. -/
def lockError (e : StagedEffect) : Option String :=
  if e.effectType ∈ [.kbWrite, .kbCreate, .kbDelete, .fileWrite, .filePatch, .fileDelete] then
    checks.checkLock.bind fun check =>
      if check e.resource e.agentId e.lockToken then none else some "Must hold lock to write"
  else none

/-- The permission check. -/
def permissionError (e : StagedEffect) : Option String :=
  checks.checkPermission.bind fun check =>
    if check e.agentId e.resource e.effectType.value then none else some "Permission denied"

/-- The first check that an effect does not pass. -/
def error (e : StagedEffect) : Option String :=
  (checks.taskError e).or ((checks.versionError e).or ((checks.lockError e).or (checks.permissionError e)))

/-- The loop of `validate` for one effect. -/
def validateEffect (e : StagedEffect) : StagedEffect :=
  if e.status ≠ .staged then e
  else
    match checks.error e with
    | some error => e.fail error
    | none => { e with status := .validated }

end Checks

/-- The end of `validate`: the groups with a failed member fail. -/
def failGroups (effects : List StagedEffect) : List StagedEffect :=
  effects.map fun e =>
    if e.Grouped ∧ e.status ≠ .failed ∧ ∃ member ∈ effects, member.Grouped ∧ member.groupId = e.groupId ∧
        member.status = .failed then
      e.fail s!"group member failed (group {e.groupId})"
    else e

/-- How a resource that several agents want is settled. -/
structure Contest where
  winnerAgent : String
  winners : List StagedEffect
  losers : List StagedEffect

/-- A conflict as it is reported. -/
structure ConflictResolution where
  winner : String
  losers : List String
  reason : String
deriving DecidableEq

/-- The resources of validated effects, in the order of their first effect. -/
def contested (effects : List StagedEffect) : List String :=
  ((effects.filter fun e => e.status = .validated).map (·.resource)).eraseDups

/-- The contest over a resource, when more than one agent has validated effects on it. -/
def contest (effects : List StagedEffect) (resource : String) : Option Contest :=
  let claims := effects.filter fun e => e.status = .validated ∧ e.resource = resource
  let ofAgent (agent : String) :=
    (claims.filter fun e => e.agentId = agent).mergeSort fun e f => e.effectId ≤ f.effectId
  match (claims.map (·.agentId)).dedup.mergeSort fun a b => a ≤ b with
  | winner :: second :: rest => some ⟨winner, ofAgent winner, (second :: rest).flatMap ofAgent⟩
  | _ => none

/-- What the failure of a loser does to an effect: to itself, or to one of its group. -/
def strike (defeat : String × StagedEffect) (e : StagedEffect) : StagedEffect :=
  if e.effectId = defeat.2.effectId then e.fail s!"Conflict: lost to agent {defeat.1}"
  else if defeat.2.Grouped ∧ e.groupId = defeat.2.groupId ∧ e.status ≠ .failed then
    e.fail s!"group member lost conflict (group {defeat.2.groupId})"
  else e

/-- The losers of a contest, each with the agent it loses to. -/
def Contest.defeats (c : Contest) : List (String × StagedEffect) :=
  c.losers.map fun loser => (c.winnerAgent, loser)

/-- The loop of `resolve_conflicts` over the contested resources, with the contests as they were before it. -/
def strikeLosers (effects : List StagedEffect) : List StagedEffect :=
  (contested effects).foldl (fun struck resource =>
    match contest effects resource with
    | none => struck
    | some c => c.defeats.foldl (fun struck defeat => struck.map (strike defeat)) struck) effects

/-- What a contest is reported as. -/
def Contest.resolution (c : Contest) : ConflictResolution where
  winner := (c.winners.map (·.effectId)).headD ""
  losers := c.losers.map (·.effectId)
  reason := s!"Deterministic resolution: agent {c.winnerAgent} wins ({c.losers.length} effects failed)"

/-- The id of the effect with a number. -/
def effectIdOf (n : ℕ) : String :=
  "eff." ++ zeroPadded 6 n

/-- Effects of different numbers have different ids. -/
theorem effectIdOf_injective : Function.Injective effectIdOf := by
  intro m n hsame
  exact zeroPadded_injective (String.append_right_inj _ |>.mp hsame)

/-- `TransactionBuffer`: the effects by their ids, in the order they were staged, the numbers given out, the conflicts
reported, and the ids of the effects committed and of those among them with effects outside. -/
structure TransactionBuffer where
  effects : List StagedEffect
  counter : ℕ
  conflictResolutions : List ConflictResolution
  committed : List String
  outbox : List String
  distinct : (effects.map (·.effectId)).Nodup
  numbered : ∀ e ∈ effects, ∃ n ≤ counter, e.effectId = effectIdOf n

/-- The arguments of `stage`, and the id that an outbox entry made of the effect gets. -/
structure StageCall where
  effectType : EffectType
  agentId : String
  resource : String
  data : Option (List (String × Value)) := none
  expectedVersion : Option ℤ := none
  lockToken : Option String := none
  groupId : String := ""
  atomicity : String := "per_effect"
  entryId : String := ""

/-- The effect of a call, under an id. -/
def StageCall.effect (call : StageCall) (effectId : String) : StagedEffect where
  effectId := effectId
  entryId := call.entryId
  effectType := call.effectType
  agentId := call.agentId
  resource := call.resource
  data := call.data.getD []
  expectedVersion := call.expectedVersion
  lockToken := call.lockToken
  groupId := call.groupId
  atomicity := call.atomicity

section Ids

variable {checks : Checks} {effects : List StagedEffect}

/-- Effects keep their ids under a map that keeps each. -/
theorem ids_map {f : StagedEffect → StagedEffect} (same : ∀ e, (f e).effectId = e.effectId) :
    (effects.map f).map (·.effectId) = effects.map (·.effectId) := by
  rw [List.map_map]
  exact List.map_congr_left fun e _ => same e

/-- Validation keeps the id of an effect. -/
theorem effectId_validateEffect {e : StagedEffect} : (checks.validateEffect e).effectId = e.effectId := by
  unfold Checks.validateEffect
  split
  · rfl
  · split <;> rfl

/-- The end of validation keeps the ids. -/
theorem ids_failGroups : (failGroups effects).map (·.effectId) = effects.map (·.effectId) :=
  ids_map fun e => by split <;> rfl

/-- Commit keeps the ids. -/
theorem ids_commitValidated : (commitValidated effects).map (·.effectId) = effects.map (·.effectId) :=
  ids_map fun e => by split <;> rfl

end Ids

section Losers

variable {effects : List StagedEffect}

/-- All defeats, in the order in which the losers fail. -/
def defeats (effects : List StagedEffect) : List (String × StagedEffect) :=
  (contested effects).flatMap fun resource => ((contest effects resource).map Contest.defeats).getD []

/-- The loop over the resources is one over the defeats. -/
theorem strikeLosers_eq_foldl :
    strikeLosers effects = (defeats effects).foldl (fun struck defeat => struck.map (strike defeat)) effects := by
  unfold strikeLosers defeats
  rw [List.foldl_flatMap]
  congr 1
  funext struck resource
  cases contest effects resource <;> rfl

/-- The agent that an effect lost to last. -/
def lostTo (defeats : List (String × StagedEffect)) (e : StagedEffect) : Option String :=
  (defeats.reverse.find? fun defeat => defeat.2.effectId = e.effectId).map (·.1)

/-- An effect after some defeats. -/
def struck (defeats : List (String × StagedEffect)) (e : StagedEffect) : StagedEffect :=
  match lostTo defeats e with
  | some agent => e.fail s!"Conflict: lost to agent {agent}"
  | none =>
    if e.status ≠ .failed ∧ ∃ defeat ∈ defeats, defeat.2.Grouped ∧ defeat.2.groupId = e.groupId then
      e.fail s!"group member lost conflict (group {e.groupId})"
    else e

/-- One more defeat. -/
theorem strike_struck {before : List (String × StagedEffect)} {defeat : String × StagedEffect} {e : StagedEffect} :
    strike defeat (struck before e) = struck (before ++ [defeat]) e := by
  by_cases hself : e.effectId = defeat.2.effectId
  · -- The loser fails with the text of its defeat, whatever it failed with before.
    have hlost : lostTo (before ++ [defeat]) e = some defeat.1 := by simp [lostTo, hself]
    have hid : (struck before e).effectId = defeat.2.effectId := by
      unfold struck
      split
      · exact hself
      · split <;> exact hself
    rw [strike, if_pos hid]
    simp only [struck, hlost]
    split
    · rfl
    · split <;> rfl
  · have hlost : lostTo (before ++ [defeat]) e = lostTo before e := by
      simp [lostTo, Ne.symm hself]
    simp only [struck, hlost]
    cases lostTo before e with
    | some agent => simp [strike, StagedEffect.fail, hself]
    | none =>
      dsimp only
      by_cases hbefore : e.status ≠ .failed ∧ ∃ d ∈ before, d.2.Grouped ∧ d.2.groupId = e.groupId
      · obtain ⟨hstatus, d, hd, hgroup⟩ := hbefore
        rw [if_pos ⟨hstatus, d, hd, hgroup⟩, if_pos ⟨hstatus, d, List.mem_append_left _ hd, hgroup⟩]
        simp [strike, StagedEffect.fail, hself]
      · rw [if_neg hbefore, strike, if_neg hself]
        by_cases hnow : defeat.2.Grouped ∧ e.groupId = defeat.2.groupId ∧ e.status ≠ .failed
        · rw [if_pos hnow,
            if_pos ⟨hnow.2.2, defeat, List.mem_append_right _ List.mem_cons_self, hnow.1, hnow.2.1.symm⟩, hnow.2.1]
        · rw [if_neg hnow, if_neg]
          rintro ⟨hstatus, d, hd, hgrouped, hgroup⟩
          rcases List.mem_append.mp hd with hold | hlast
          · exact hbefore ⟨hstatus, d, hold, hgrouped, hgroup⟩
          · rw [List.mem_singleton.mp hlast] at hgrouped hgroup
            exact hnow ⟨hgrouped, hgroup.symm, hstatus⟩

/-- Any number of defeats. -/
theorem foldl_strike {before after : List (String × StagedEffect)} :
    after.foldl (fun struck defeat => struck.map (strike defeat)) (effects.map (struck before)) =
      effects.map (struck (before ++ after)) := by
  induction after generalizing before with
  | nil => simp
  | cons defeat after ih =>
    have hstep : (effects.map (struck before)).map (strike defeat) = effects.map (struck (before ++ [defeat])) := by
      rw [List.map_map]
      exact List.map_congr_left fun e _ => strike_struck
    rw [List.foldl_cons, hstep, ih, List.append_assoc, List.singleton_append]

/-- The loop as one map. -/
theorem strikeLosers_eq_map : strikeLosers effects = effects.map (struck (defeats effects)) := by
  have hstart : effects.map (struck []) = effects := by
    rw [List.map_congr_left fun e _ => (by simp [struck, lostTo] : struck [] e = e), List.map_id']
  have hfold := @foldl_strike effects [] (defeats effects)
  rwa [hstart, List.nil_append, ← strikeLosers_eq_foldl] at hfold

/-- Whom an effect loses to: the first of the agents with a validated effect on the resource. -/
theorem winner_eq_some {e : StagedEffect} {other : String} : winner effects e = some other ↔
    e.status = .validated ∧ (∃ f ∈ effects, f.status = .validated ∧ f.resource = e.resource ∧ f.agentId = other) ∧
      (∀ f ∈ effects, f.status = .validated → f.resource = e.resource → other ≤ f.agentId) ∧ other < e.agentId := by
  unfold winner
  split_ifs with hstatus
  · simp [hstatus]
  · simp only [Option.filter_eq_some_iff, List.min?_eq_some_iff, List.mem_map, List.mem_filter, decide_eq_true_eq,
      forall_exists_index, and_imp, not_not.mp hstatus, true_and]
    constructor
    · rintro ⟨⟨⟨f, ⟨hf, hvalid, hresource⟩, hagent⟩, hleast⟩, hbefore⟩
      exact ⟨⟨f, hf, hvalid, hresource, hagent⟩, fun g hg hgvalid hgresource => hleast _ g hg hgvalid hgresource rfl,
        hbefore⟩
    · rintro ⟨⟨f, hf, hvalid, hresource, hagent⟩, hleast, hbefore⟩
      refine ⟨⟨⟨f, ⟨hf, hvalid, hresource⟩, hagent⟩, ?_⟩, hbefore⟩
      rintro _ g hg hgvalid hgresource rfl
      exact hleast g hg hgvalid hgresource

/-- The agents of a contest in order: the first is before all others. -/
theorem mem_tail_of_sorted {agents rest : List String} {first : String}
    (sorted : (agents.dedup.mergeSort fun a b => a ≤ b) = first :: rest) :
    first ∈ agents ∧ (∀ agent ∈ agents, first ≤ agent) ∧ ∀ agent, agent ∈ rest ↔ agent ∈ agents ∧ first < agent := by
  have hmem (agent : String) : agent ∈ first :: rest ↔ agent ∈ agents := by
    rw [← sorted, List.mem_mergeSort, List.mem_dedup]
  have hordered : (first :: rest).Pairwise (· ≤ ·) := by
    rw [← sorted]
    exact List.pairwise_mergeSort' (· ≤ ·) _
  have hnodup : (first :: rest).Nodup := by
    rw [← sorted]
    exact (List.mergeSort_perm _ _).nodup_iff.mpr (List.nodup_dedup _)
  have hfirst : ∀ agent ∈ agents, first ≤ agent := by
    intro agent hagent
    rcases List.mem_cons.mp ((hmem agent).mpr hagent) with rfl | hrest
    · exact le_rfl
    · exact (List.pairwise_cons.mp hordered).1 agent hrest
  refine ⟨(hmem first).mp List.mem_cons_self, hfirst, fun agent => ⟨fun hrest => ?_, fun ⟨hagent, hless⟩ => ?_⟩⟩
  · have hagent := (hmem agent).mp (List.mem_cons_of_mem _ hrest)
    refine ⟨hagent, (hfirst agent hagent).lt_of_ne fun hsame => ?_⟩
    exact (List.nodup_cons.mp hnodup).1 (hsame ▸ hrest)
  · rcases List.mem_cons.mp ((hmem agent).mpr hagent) with rfl | hrest
    · exact absurd hless (lt_irrefl _)
    · exact hrest

/-- The defeats in a contest: the effects on the resource that lose it. -/
theorem mem_defeats_contest {resource : String} {defeat : String × StagedEffect} :
    defeat ∈ ((contest effects resource).map Contest.defeats).getD [] ↔
      defeat.2 ∈ effects ∧ defeat.2.resource = resource ∧ winner effects defeat.2 = some defeat.1 := by
  obtain ⟨agent, loser⟩ := defeat
  rw [winner_eq_some]
  unfold contest
  dsimp only
  generalize hclaims : effects.filter (fun e => e.status = .validated ∧ e.resource = resource) = claims
  have hmem (e : StagedEffect) : e ∈ claims ↔ e ∈ effects ∧ e.status = .validated ∧ e.resource = resource := by
    simp [← hclaims]
  have hagents (a : String) : a ∈ claims.map (·.agentId) ↔
      ∃ e ∈ effects, e.status = .validated ∧ e.resource = resource ∧ e.agentId = a := by
    simp [hmem, and_assoc]
  -- Whether there are several agents or one does not matter for the defeats: one agent has no losers.
  have hcontest (first : String) (rest : List String)
      (sorted : ((claims.map (·.agentId)).dedup.mergeSort fun a b => a ≤ b) = first :: rest) :
      ((agent = first ∧ ∃ a ∈ rest, loser ∈ claims ∧ loser.agentId = a) ↔
        loser ∈ effects ∧ loser.resource = resource ∧ loser.status = .validated ∧
          (∃ f ∈ effects, f.status = .validated ∧ f.resource = loser.resource ∧ f.agentId = agent) ∧
          (∀ f ∈ effects, f.status = .validated → f.resource = loser.resource → agent ≤ f.agentId) ∧
          agent < loser.agentId) := by
    obtain ⟨hfirst, hleast, hrest⟩ := mem_tail_of_sorted sorted
    constructor
    · rintro ⟨rfl, _, ha, hloser, rfl⟩
      obtain ⟨heffects, hvalid, rfl⟩ := (hmem loser).mp hloser
      refine ⟨heffects, rfl, hvalid, (hagents _).mp hfirst, fun f hf hfvalid hfresource => ?_, ((hrest _).mp ha).2⟩
      exact hleast _ ((hagents _).mpr ⟨f, hf, hfvalid, hfresource, rfl⟩)
    · rintro ⟨heffects, rfl, hvalid, hagent, hall, hless⟩
      obtain rfl : agent = first := by
        obtain ⟨f, hf, hfvalid, hfresource, hfagent⟩ := (hagents first).mp hfirst
        exact le_antisymm (hfagent ▸ hall f hf hfvalid hfresource) (hleast agent ((hagents agent).mpr hagent))
      exact ⟨rfl, _, (hrest _).mpr ⟨(hagents _).mpr ⟨loser, heffects, hvalid, rfl, rfl⟩, hless⟩,
        (hmem loser).mpr ⟨heffects, hvalid, rfl⟩, rfl⟩
  split
  next first second rest sorted =>
    rw [← hcontest first (second :: rest) sorted]
    simp only [Option.map_some, Option.getD_some, Contest.defeats, List.mem_map, List.mem_flatMap, List.mem_mergeSort,
      List.mem_filter, decide_eq_true_eq, Prod.mk.injEq, exists_eq_right_right]
    rw [and_comm, eq_comm]
  next hfew =>
    simp only [Option.map_none, Option.getD_none, List.not_mem_nil, false_iff]
    cases sorted : (claims.map (·.agentId)).dedup.mergeSort fun a b => a ≤ b with
    | nil =>
      rintro ⟨heffects, rfl, hvalid, -⟩
      have hnone : loser.agentId ∈ ((claims.map (·.agentId)).dedup.mergeSort fun a b => a ≤ b) := by
        rw [List.mem_mergeSort, List.mem_dedup]
        exact (hagents _).mpr ⟨loser, heffects, hvalid, rfl, rfl⟩
      simp [sorted] at hnone
    | cons first rest =>
      cases rest with
      | nil =>
        rw [← hcontest first [] sorted]
        simp
      | cons second rest => exact absurd sorted (hfew first second rest)

/-- The defeats: the effects that lose their resources. -/
theorem mem_defeats {defeat : String × StagedEffect} :
    defeat ∈ defeats effects ↔ defeat.2 ∈ effects ∧ winner effects defeat.2 = some defeat.1 := by
  unfold defeats
  rw [List.mem_flatMap]
  simp only [mem_defeats_contest]
  constructor
  · rintro ⟨resource, -, heffects, -, hwinner⟩
    exact ⟨heffects, hwinner⟩
  · rintro ⟨heffects, hwinner⟩
    refine ⟨defeat.2.resource, ?_, heffects, rfl, hwinner⟩
    have hvalid : defeat.2.status = .validated := (winner_eq_some.mp hwinner).1
    rw [contested, List.mem_eraseDups]
    exact List.mem_map_of_mem (List.mem_filter.mpr ⟨heffects, by simpa using hvalid⟩)

/-- The agent that an effect lost to when the loop is done is the winner of its resource. -/
theorem lostTo_defeats (distinct : (effects.map (·.effectId)).Nodup) {e : StagedEffect} (he : e ∈ effects) :
    lostTo (defeats effects) e = winner effects e := by
  refine Option.ext fun agent => ?_
  constructor
  · intro hlost
    obtain ⟨defeat, hfind, rfl⟩ := Option.map_eq_some_iff.mp hlost
    have hmem := List.mem_reverse.mp (List.mem_of_find?_eq_some hfind)
    have hid : defeat.2.effectId = e.effectId := by simpa using List.find?_some hfind
    obtain ⟨hdefeated, hwinner⟩ := mem_defeats.mp hmem
    rwa [List.inj_on_of_nodup_map distinct hdefeated he hid] at hwinner
  · intro hwinner
    cases hfind : (defeats effects).reverse.find? fun defeat => defeat.2.effectId = e.effectId with
    | none =>
      have hmem : (agent, e) ∈ (defeats effects).reverse := List.mem_reverse.mpr (mem_defeats.mpr ⟨he, hwinner⟩)
      simpa using List.find?_eq_none.mp hfind (agent, e) hmem
    | some defeat =>
      have hmem := List.mem_reverse.mp (List.mem_of_find?_eq_some hfind)
      have hid : defeat.2.effectId = e.effectId := by simpa using List.find?_some hfind
      obtain ⟨hdefeated, hlost⟩ := mem_defeats.mp hmem
      rw [List.inj_on_of_nodup_map distinct hdefeated he hid] at hlost
      rw [lostTo, hfind, Option.map_some, ← hlost, hwinner]

/-- The loop fails the losers and their groups, whatever the order of the resources. -/
theorem strikeLosers_eq_resolveConflicts (distinct : (effects.map (·.effectId)).Nodup) :
    strikeLosers effects = resolveConflicts effects := by
  rw [strikeLosers_eq_map, resolveConflicts]
  refine List.map_congr_left fun e he => ?_
  have hlosers : (∃ defeat ∈ defeats effects, defeat.2.Grouped ∧ defeat.2.groupId = e.groupId) ↔
      ∃ loser ∈ effects, (winner effects loser).isSome ∧ loser.Grouped ∧ loser.groupId = e.groupId := by
    constructor
    · rintro ⟨defeat, hmem, hgroup⟩
      obtain ⟨heffects, hwinner⟩ := mem_defeats.mp hmem
      exact ⟨defeat.2, heffects, by simp [hwinner], hgroup⟩
    · rintro ⟨loser, heffects, hloses, hgroup⟩
      obtain ⟨agent, hwinner⟩ := Option.isSome_iff_exists.mp hloses
      exact ⟨(agent, loser), mem_defeats.mpr ⟨heffects, hwinner⟩, hgroup⟩
  rw [struck, lostTo_defeats distinct he]
  cases winner effects e with
  | some agent => rfl
  | none => exact if_congr (and_congr_right fun _ => hlosers) rfl rfl

/-- The loop keeps the ids. -/
theorem ids_strikeLosers : (strikeLosers effects).map (·.effectId) = effects.map (·.effectId) := by
  rw [strikeLosers_eq_map]
  refine ids_map fun e => ?_
  unfold struck
  split
  · rfl
  · split <;> rfl

end Losers

namespace TransactionBuffer

/-- A new buffer. -/
def empty : TransactionBuffer where
  effects := []
  counter := 0
  conflictResolutions := []
  committed := []
  outbox := []
  distinct := List.nodup_nil
  numbered := by simp

/-- `stage`. -/
def stage (buffer : TransactionBuffer) (call : StageCall) : TransactionBuffer where
  effects := buffer.effects ++ [call.effect (effectIdOf (buffer.counter + 1))]
  counter := buffer.counter + 1
  conflictResolutions := buffer.conflictResolutions
  committed := buffer.committed
  outbox := buffer.outbox
  distinct := by
    rw [List.map_append, List.nodup_append]
    refine ⟨buffer.distinct, by simp, fun id hid other hother hsame => ?_⟩
    obtain ⟨e, he, rfl⟩ := List.mem_map.mp hid
    obtain ⟨n, hn, hid⟩ := buffer.numbered e he
    obtain rfl : other = effectIdOf (buffer.counter + 1) := by simpa [StageCall.effect] using hother
    have hnumber : n = buffer.counter + 1 := effectIdOf_injective (hid.symm.trans hsame)
    omega
  numbered := by
    intro e he
    rcases List.mem_append.mp he with hold | hnew
    · obtain ⟨n, hn, hid⟩ := buffer.numbered e hold
      exact ⟨n, hn.trans (Nat.le_succ _), hid⟩
    · rw [List.mem_singleton.mp hnew]
      exact ⟨_, le_rfl, rfl⟩

/-- A buffer after effects were changed under their ids. -/
def update (buffer : TransactionBuffer) (effects : List StagedEffect)
    (same : effects.map (·.effectId) = buffer.effects.map (·.effectId)) : TransactionBuffer where
  effects := effects
  counter := buffer.counter
  conflictResolutions := buffer.conflictResolutions
  committed := buffer.committed
  outbox := buffer.outbox
  distinct := same ▸ buffer.distinct
  numbered := by
    intro e he
    have hid : e.effectId ∈ buffer.effects.map (·.effectId) := same ▸ List.mem_map_of_mem he
    obtain ⟨f, hf, hsame⟩ := List.mem_map.mp hid
    rw [← hsame]
    exact buffer.numbered f hf

/-- `validate`. -/
def validate (buffer : TransactionBuffer) (checks : Checks) : TransactionBuffer :=
  buffer.update (failGroups (buffer.effects.map checks.validateEffect))
    (ids_failGroups.trans (ids_map fun _ => effectId_validateEffect))

/-- `resolve_conflicts`. -/
def resolveConflicts (buffer : TransactionBuffer) : TransactionBuffer :=
  let resolutions := ((contested buffer.effects).filterMap (contest buffer.effects)).map Contest.resolution
  { buffer.update (strikeLosers buffer.effects) ids_strikeLosers with
    conflictResolutions := buffer.conflictResolutions ++ resolutions }

/-- `commit`. -/
def commit (buffer : TransactionBuffer) : TransactionBuffer :=
  let validated := buffer.effects.filter fun e => e.status = .validated
  { buffer.update (commitValidated buffer.effects) ids_commitValidated with
    committed := buffer.committed ++ validated.map (·.effectId)
    outbox := buffer.outbox ++ (validated.filter fun e => e.effectType.external).map (·.effectId) }

/-- `validate`, `resolve_conflicts` and `commit`, as Commit calls them. -/
def settle (buffer : TransactionBuffer) (checks : Checks) : TransactionBuffer :=
  (buffer.validate checks).resolveConflicts.commit

/-- What the three of them make of the effects. -/
theorem effects_settle {buffer : TransactionBuffer} {checks : Checks} :
    (buffer.settle checks).effects =
      commitValidated (Legacy.resolveConflicts (failGroups (buffer.effects.map checks.validateEffect))) := by
  have hstruck : (buffer.validate checks).resolveConflicts.effects =
      Legacy.resolveConflicts (buffer.validate checks).effects :=
    strikeLosers_eq_resolveConflicts (buffer.validate checks).distinct
  change commitValidated (buffer.validate checks).resolveConflicts.effects = _
  rw [hstruck]
  rfl

end TransactionBuffer

end MyTeam.Legacy
