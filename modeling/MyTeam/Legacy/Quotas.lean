import MyTeam.Legacy.Integrations

/-!
# Quotas of external platforms

The calls to a platform are counted in windows. A new window begins with the first look at the count after the old
one has elapsed, and the calls of the old one are forgotten, also those that were just made. So the
platform may be called twice as often as it accepts, in an interval that lies across the beginning of a
window. In every interval the limit is kept while no recent call is forgotten.
-/

namespace MyTeam.Legacy

open MyTeam.Py MyTeam.Async

/-- A registry in use: the time it was last looked at, the admissions of tools that have not been used, and the
dispatches charged to platforms, each with its time. -/
structure Traffic where
  registry : IntegrationRegistry := {}
  clock : ℚ
  admissions : String → ℕ := fun _ => 0
  dispatches : List (String × ℚ) := []

namespace Traffic

/-- The dispatches that are charged for a tool. -/
def charged (traffic : Traffic) (now : ℚ) (tool : String) : List (String × ℚ) :=
  ((traffic.registry.getByTool tool).map fun integration => (integration.name, now)).toList

/-- What a call does. -/
def step (traffic : Traffic) : RegistryCall → Traffic
  | .register integration => { traffic with registry := traffic.registry.step (.register integration) }
  | .unregister name => { traffic with registry := traffic.registry.step (.unregister name) }
  | .admits created now tool =>
    { traffic with
      registry := traffic.registry.step (.admits created now tool)
      clock := now
      admissions := if (traffic.registry.admits created now tool).2.admitted
        then Function.update traffic.admissions tool (traffic.admissions tool + 1) else traffic.admissions }
  | .recordDispatched created now tool =>
    { registry := traffic.registry.step (.recordDispatched created now tool)
      clock := now
      admissions := Function.update traffic.admissions tool (traffic.admissions tool - 1)
      dispatches := traffic.dispatches ++ traffic.charged now tool }

section Platform

variable (name : String) (limit : RateLimit)

/-- The calls in the course of which a platform keeps its limit: time does not go back, a dispatch comes after an
admission of its own, and the platform is registered with one limit and not removed. -/
def Allowed (traffic : Traffic) : RegistryCall → Prop
  | .register integration => integration.name = name → integration.rateLimits = limit
  | .unregister other => other ≠ name
  | .admits created now _ => traffic.clock ≤ created ∧ created ≤ now
  | .recordDispatched created now tool => traffic.clock ≤ created ∧ created ≤ now ∧ 0 < traffic.admissions tool

/-- In every interval of the length of the window, no more dispatches are charged to the platform than it accepts. -/
def Quota (traffic : Traffic) : Prop :=
  ∀ start, traffic.dispatches.countP (fun dispatch =>
    dispatch.1 = name ∧ start ≤ dispatch.2 ∧ dispatch.2 < start + limit.windowSeconds) ≤ limit.maxCalls

/-- If the window of the platform has elapsed, so have the windows of all its dispatches. -/
def Quiet (traffic : Traffic) (now : ℚ) : Prop :=
  ∀ state, traffic.registry.windows name = some state → limit.windowSeconds ≤ now - state.windowStartedAt →
    ∀ dispatch ∈ traffic.dispatches, dispatch.1 = name → dispatch.2 + limit.windowSeconds ≤ now

/-- The calls counted in the window of the platform, if it has not elapsed. -/
def counted (traffic : Traffic) (now : ℚ) : ℕ :=
  match traffic.registry.windows name with
  | none => 0
  | some state => if limit.windowSeconds ≤ now - state.windowStartedAt then 0 else state.callsInWindow

/-- A look at the count of the platform forgets no recent dispatch, and a dispatch finds less than the limit counted. -/
def Fits (traffic : Traffic) : RegistryCall → Prop
  | .admits _ now tool =>
    ∀ integration, traffic.registry.getByTool tool = some integration → integration.name = name →
    traffic.Quiet name limit now
  | .recordDispatched _ now tool =>
    ∀ integration, traffic.registry.getByTool tool = some integration → integration.name = name →
      traffic.Quiet name limit now ∧ traffic.counted name limit now < limit.maxCalls
  | _ => True

/-- A window counts the dispatches since it began, and those before had all elapsed by then. -/
structure Covers (dispatches : List (String × ℚ)) (now : ℚ) (state : WindowState) : Prop where
  started : state.windowStartedAt ≤ now
  counts : dispatches.countP (fun dispatch => dispatch.1 = name ∧ state.windowStartedAt ≤ dispatch.2) =
    state.callsInWindow
  before : ∀ dispatch ∈ dispatches, dispatch.1 = name → dispatch.2 < state.windowStartedAt →
    dispatch.2 + limit.windowSeconds ≤ state.windowStartedAt

/-- What holds throughout: the limit is kept, and the window of the platform counts its recent dispatches. -/
structure Kept (traffic : Traffic) : Prop where
  quota : traffic.Quota name limit
  named : ∀ key integration, traffic.registry.integrations key = some integration → integration.name = key
  limited : ∀ integration, traffic.registry.integrations name = some integration → integration.rateLimits = limit
  unused : traffic.registry.windows name = none → ∀ dispatch ∈ traffic.dispatches, dispatch.1 ≠ name
  covers : ∀ state, traffic.registry.windows name = some state →
    Covers name limit traffic.dispatches traffic.clock state

end Platform

variable {name : String} {limit : RateLimit} {traffic : Traffic} {created now : ℚ} {tool : String}
  {integration : Integration} {state : WindowState}

/-- The platform of a tool is registered. -/
theorem registered_of_getByTool {r : IntegrationRegistry} (h : r.getByTool tool = some integration) :
    ∃ key, r.integrations key = some integration := by
  unfold IntegrationRegistry.getByTool at h
  split at h
  · cases h
  next provider _ => exact ⟨provider, h⟩

/-- The limit of the platform, found by a tool. -/
theorem Kept.rateLimits_eq (kept : traffic.Kept name limit) (htool : traffic.registry.getByTool tool = some integration)
    (hname : integration.name = name) : integration.rateLimits = limit := by
  obtain ⟨key, hkey⟩ := registered_of_getByTool htool
  obtain rfl : name = key := hname.symm.trans (kept.named key integration hkey)
  exact kept.limited integration hkey

/-- No dispatch is charged before a window that has none. -/
theorem covers_new {dispatches : List (String × ℚ)} (hstarted : state.windowStartedAt ≤ now)
    (hnone : state.callsInWindow = 0)
    (hbefore : ∀ dispatch ∈ dispatches, dispatch.1 = name → dispatch.2 + limit.windowSeconds ≤ state.windowStartedAt) :
    Covers name limit dispatches now state where
  started := hstarted
  counts := by
    rw [hnone, List.countP_eq_zero]
    intro dispatch hmem
    rw [decide_eq_true_eq, not_and, not_le]
    intro hname
    have hgap := hbefore dispatch hmem hname
    have hpositive := limit.positive
    linarith
  before dispatch hmem hname _ := hbefore dispatch hmem hname

/-- The window that is looked at counts the recent dispatches, if none of them is forgotten. -/
theorem Kept.covers_window (kept : traffic.Kept name limit) (hname : integration.name = name)
    (hlimit : integration.rateLimits = limit) (htime : traffic.clock ≤ created ∧ created ≤ now)
    (quiet : traffic.Quiet name limit now) :
    Covers name limit traffic.dispatches now (traffic.registry.window integration created now) ∧
      (traffic.registry.window integration created now).callsInWindow = traffic.counted name limit now := by
  unfold IntegrationRegistry.window WindowState.refresh counted
  rw [hname, hlimit]
  cases hwindow : traffic.registry.windows name with
  | none =>
    have hunused := kept.unused hwindow
    rw [Option.getD_none]
    dsimp only
    split
    · exact ⟨covers_new le_rfl rfl fun dispatch hmem hname => absurd hname (hunused dispatch hmem), rfl⟩
    · exact ⟨covers_new htime.2 rfl fun dispatch hmem hname => absurd hname (hunused dispatch hmem), rfl⟩
  | some state =>
    rw [Option.getD_some]
    dsimp only
    split
    next helapsed => exact ⟨covers_new le_rfl rfl (quiet state hwindow helapsed), rfl⟩
    next =>
      have hcovers := kept.covers state hwindow
      exact ⟨⟨hcovers.started.trans (htime.1.trans htime.2), hcovers.counts, hcovers.before⟩, rfl⟩

/-- A window that counts the recent dispatches counts one more. -/
theorem Covers.charge {dispatches : List (String × ℚ)} (h : Covers name limit dispatches now state) :
    Covers name limit (dispatches ++ [(name, now)]) now ⟨state.windowStartedAt, state.callsInWindow + 1⟩ where
  started := h.started
  counts := by
    rw [List.countP_append, h.counts, List.countP_singleton, if_pos (by simpa using h.started)]
  before dispatch hmem hname hbefore := by
    rcases List.mem_append.mp hmem with hmem | hmem
    · exact h.before dispatch hmem hname hbefore
    · rw [List.mem_singleton.mp hmem] at hbefore
      exact absurd hbefore (not_lt.mpr h.started)

/-- One more dispatch keeps the limit, if the window had counted less. -/
theorem Covers.quota {dispatches : List (String × ℚ)} (h : Covers name limit dispatches now state)
    (hcount : state.callsInWindow < limit.maxCalls) {start : ℚ}
    (hquota : dispatches.countP (fun dispatch =>
      dispatch.1 = name ∧ start ≤ dispatch.2 ∧ dispatch.2 < start + limit.windowSeconds) ≤ limit.maxCalls) :
    (dispatches ++ [(name, now)]).countP (fun dispatch =>
      dispatch.1 = name ∧ start ≤ dispatch.2 ∧ dispatch.2 < start + limit.windowSeconds) ≤ limit.maxCalls := by
  rw [List.countP_append, List.countP_singleton]
  split
  next hnow =>
    have hwithin : start ≤ now ∧ now < start + limit.windowSeconds := by simpa using hnow
    have hrecent : dispatches.countP (fun dispatch =>
        dispatch.1 = name ∧ start ≤ dispatch.2 ∧ dispatch.2 < start + limit.windowSeconds) ≤ state.callsInWindow := by
      rw [← h.counts]
      apply List.countP_mono_left
      intro dispatch hmem hcounted
      rw [decide_eq_true_eq] at hcounted ⊢
      refine ⟨hcounted.1, not_lt.mp fun hbefore => ?_⟩
      have hgap := h.before dispatch hmem hcounted.1 hbefore
      have hstarted := h.started
      linarith [hcounted.2.1, hwithin.2]
    omega
  next => exact hquota

/-- Dispatches to other platforms do not count. -/
theorem countP_others {dispatches others : List (String × ℚ)} (hothers : ∀ dispatch ∈ others, dispatch.1 ≠ name)
    (p : ℚ → Bool) : (dispatches ++ others).countP (fun dispatch => dispatch.1 = name ∧ p dispatch.2) =
      dispatches.countP fun dispatch => dispatch.1 = name ∧ p dispatch.2 := by
  have hnone : others.countP (fun dispatch => dispatch.1 = name ∧ p dispatch.2) = 0 := by
    rw [List.countP_eq_zero]
    intro dispatch hmem
    rw [decide_eq_true_eq]
    exact fun h => hothers dispatch hmem h.1
  rw [List.countP_append, hnone, Nat.add_zero]

/-- A window does not count dispatches to other platforms. -/
theorem Covers.others {dispatches others : List (String × ℚ)} (h : Covers name limit dispatches now state)
    (hothers : ∀ dispatch ∈ others, dispatch.1 ≠ name) : Covers name limit (dispatches ++ others) now state where
  started := h.started
  counts := by
    have hcount := @countP_others name dispatches others hothers fun time => state.windowStartedAt ≤ time
    simp only [decide_eq_true_eq] at hcount
    rw [hcount, h.counts]
  before dispatch hmem hname := by
    rcases List.mem_append.mp hmem with hmem | hmem
    · exact h.before dispatch hmem hname
    · exact absurd hname (hothers dispatch hmem)

/-- What keeps the invariant: dispatches to other platforms only, and a window that counts those to the platform. -/
theorem Kept.of_window {other : Traffic} {others : List (String × ℚ)} (kept : traffic.Kept name limit)
    (hdispatches : other.dispatches = traffic.dispatches ++ others) (hothers : ∀ dispatch ∈ others, dispatch.1 ≠ name)
    (hintegrations : other.registry.integrations = traffic.registry.integrations)
    (hcovers : ∀ state, other.registry.windows name = some state →
      Covers name limit traffic.dispatches other.clock state)
    (hunused : other.registry.windows name = none → traffic.registry.windows name = none) : other.Kept name limit where
  quota start := by
    have hcount := @countP_others name traffic.dispatches others hothers
      fun time => start ≤ time ∧ time < start + limit.windowSeconds
    simp only [decide_eq_true_eq] at hcount
    rw [hdispatches, hcount]
    exact kept.quota start
  named := by
    rw [hintegrations]
    exact kept.named
  limited := by
    rw [hintegrations]
    exact kept.limited
  unused h dispatch hmem := by
    rw [hdispatches] at hmem
    rcases List.mem_append.mp hmem with hmem | hmem
    · exact kept.unused (hunused h) dispatch hmem
    · exact hothers dispatch hmem
  covers state h := by
    rw [hdispatches]
    exact (hcovers state h).others hothers

/-- A window as time passes. -/
theorem Covers.later {dispatches : List (String × ℚ)} {later : ℚ} (h : Covers name limit dispatches now state)
    (hle : now ≤ later) : Covers name limit dispatches later state :=
  ⟨h.started.trans hle, h.counts, h.before⟩

/-- A call of `admit` keeps the invariant. -/
theorem Kept.admits (kept : traffic.Kept name limit) (allowed : traffic.Allowed name limit (.admits created now tool))
    (fits : traffic.Fits name limit (.admits created now tool)) :
    (traffic.step (.admits created now tool)).Kept name limit := by
  have hframe := @IntegrationRegistry.admits_frame traffic.registry created now tool
  have htime : traffic.clock ≤ now := allowed.1.trans allowed.2
  have hwindows : (traffic.step (.admits created now tool)).registry.windows =
      (traffic.registry.getByTool tool).elim traffic.registry.windows fun integration =>
        Function.update traffic.registry.windows integration.name
          (some (traffic.registry.window integration created now)) := by
    change (traffic.registry.admits created now tool).1.windows = _
    unfold IntegrationRegistry.admits
    cases traffic.registry.getByTool tool with
    | none => rfl
    | some integration =>
      dsimp only
      split <;> rfl
  have hnothing : (traffic.step (.admits created now tool)).dispatches = traffic.dispatches ++ [] :=
    (List.append_nil _).symm
  refine kept.of_window hnothing (fun _ h => absurd h List.not_mem_nil) hframe.1 (fun state hstate => ?_) fun hnone =>
    ?_
  · rw [hwindows] at hstate
    cases htool : traffic.registry.getByTool tool with
    | none =>
      rw [htool] at hstate
      exact (kept.covers state hstate).later htime
    | some integration =>
      rw [htool, Option.elim_some] at hstate
      by_cases hname : integration.name = name
      · rw [hname, Function.update_self] at hstate
        obtain rfl := Option.some.inj hstate
        exact (kept.covers_window hname (kept.rateLimits_eq htool hname) allowed (fits integration htool hname)).1
      · rw [Function.update_of_ne (Ne.symm hname)] at hstate
        exact (kept.covers state hstate).later htime
  · rw [hwindows] at hnone
    cases htool : traffic.registry.getByTool tool with
    | none => rwa [htool] at hnone
    | some integration =>
      rw [htool, Option.elim_some] at hnone
      by_cases hname : integration.name = name
      · rw [hname, Function.update_self] at hnone
        cases hnone
      · rwa [Function.update_of_ne (Ne.symm hname)] at hnone

/-- A call of `record_dispatched` keeps the invariant. -/
theorem Kept.recordDispatched (kept : traffic.Kept name limit)
    (allowed : traffic.Allowed name limit (.recordDispatched created now tool))
    (fits : traffic.Fits name limit (.recordDispatched created now tool)) :
    (traffic.step (.recordDispatched created now tool)).Kept name limit := by
  have hframe := @IntegrationRegistry.recordDispatched_frame traffic.registry created now tool
  have htime : traffic.clock ≤ now := allowed.1.trans allowed.2.1
  cases htool : traffic.registry.getByTool tool with
  | none =>
    have hsame : (traffic.step (.recordDispatched created now tool)).registry = traffic.registry := by
      change traffic.registry.recordDispatched created now tool = _
      unfold IntegrationRegistry.recordDispatched
      rw [htool]
    have hdispatches : (traffic.step (.recordDispatched created now tool)).dispatches = traffic.dispatches ++ [] := by
      change traffic.dispatches ++ traffic.charged now tool = _
      rw [charged, htool]
      rfl
    refine kept.of_window hdispatches (fun _ h => absurd h List.not_mem_nil) hframe.1 (fun state hstate => ?_)
      fun hnone => ?_
    · rw [hsame] at hstate
      exact (kept.covers state hstate).later htime
    · rwa [hsame] at hnone
  | some integration =>
    have hwindows : (traffic.step (.recordDispatched created now tool)).registry.windows =
        Function.update traffic.registry.windows integration.name
          (some ⟨(traffic.registry.window integration created now).windowStartedAt,
            (traffic.registry.window integration created now).callsInWindow + 1⟩) := by
      change (traffic.registry.recordDispatched created now tool).windows = _
      unfold IntegrationRegistry.recordDispatched
      rw [htool]
    have hdispatches : (traffic.step (.recordDispatched created now tool)).dispatches =
        traffic.dispatches ++ [(integration.name, now)] := by
      change traffic.dispatches ++ traffic.charged now tool = _
      rw [charged, htool]
      rfl
    by_cases hname : integration.name = name
    · obtain ⟨quiet, hcount⟩ := fits integration htool hname
      obtain ⟨hcovers, hcounted⟩ :=
        kept.covers_window hname (kept.rateLimits_eq htool hname) ⟨allowed.1, allowed.2.1⟩ quiet
      rw [← hcounted] at hcount
      rw [hname] at hdispatches hwindows
      refine ⟨fun start => ?_, ?_, ?_, fun hnone => ?_, fun state hstate => ?_⟩
      · rw [hdispatches]
        exact hcovers.quota hcount (kept.quota start)
      · exact hframe.1 ▸ kept.named
      · exact hframe.1 ▸ kept.limited
      · rw [hwindows, Function.update_self] at hnone
        cases hnone
      · rw [hwindows, Function.update_self] at hstate
        obtain rfl := Option.some.inj hstate
        rw [hdispatches]
        exact hcovers.charge
    · have hwindow : (traffic.step (.recordDispatched created now tool)).registry.windows name =
          traffic.registry.windows name := by
        rw [hwindows, Function.update_of_ne (Ne.symm hname)]
      refine kept.of_window hdispatches (fun dispatch hmem => ?_) hframe.1 (fun state hstate => ?_) fun hnone => ?_
      · rw [List.mem_singleton.mp hmem]
        exact hname
      · rw [hwindow] at hstate
        exact (kept.covers state hstate).later htime
      · rwa [hwindow] at hnone

/-- A registration and a removal keep the invariant, where they leave the platform with its limit. -/
theorem Kept.reregister {call : RegistryCall} (kept : traffic.Kept name limit)
    (allowed : traffic.Allowed name limit call)
    (hcall : (∃ integration, call = .register integration) ∨ ∃ other, call = .unregister other) :
    (traffic.step call).Kept name limit := by
  rcases hcall with ⟨integration, rfl⟩ | ⟨other, rfl⟩
  · refine ⟨kept.quota, fun key found hfound => ?_, fun found hfound => ?_, kept.unused, kept.covers⟩
    · change Function.update traffic.registry.integrations integration.name (some integration) key =
        some found at hfound
      by_cases hkey : key = integration.name
      · subst hkey
        rw [Function.update_self] at hfound
        exact congrArg Integration.name (Option.some.inj hfound).symm
      · rw [Function.update_of_ne hkey] at hfound
        exact kept.named key found hfound
    · change Function.update traffic.registry.integrations integration.name (some integration) name =
        some found at hfound
      by_cases hkey : name = integration.name
      · rw [hkey, Function.update_self] at hfound
        obtain rfl := Option.some.inj hfound
        exact allowed hkey.symm
      · rw [Function.update_of_ne hkey] at hfound
        exact kept.limited found hfound
  · have hwindow : (traffic.step (.unregister other)).registry.windows name = traffic.registry.windows name :=
      Function.update_of_ne (Ne.symm allowed) _ _
    refine ⟨kept.quota, fun key found hfound => ?_, fun found hfound => ?_, fun hnone => ?_, fun state hstate => ?_⟩
    · change Function.update traffic.registry.integrations other none key = some found at hfound
      by_cases hkey : key = other
      · rw [hkey, Function.update_self] at hfound
        cases hfound
      · rw [Function.update_of_ne hkey] at hfound
        exact kept.named key found hfound
    · change Function.update traffic.registry.integrations other none name = some found at hfound
      rw [Function.update_of_ne (Ne.symm allowed)] at hfound
      exact kept.limited found hfound
    · exact kept.unused (hwindow ▸ hnone)
    · exact kept.covers state (hwindow ▸ hstate)

/-- Every call of a course keeps the invariant, if it forgets no recent dispatch. -/
theorem Kept.step {call : RegistryCall} (kept : traffic.Kept name limit) (allowed : traffic.Allowed name limit call)
    (fits : traffic.Fits name limit call) : (traffic.step call).Kept name limit := by
  cases call with
  | register integration => exact kept.reregister allowed (Or.inl ⟨integration, rfl⟩)
  | unregister other => exact kept.reregister allowed (Or.inr ⟨other, rfl⟩)
  | admits created now tool => exact kept.admits allowed fits
  | recordDispatched created now tool => exact kept.recordDispatched allowed fits

/-- The invariant holds before the first call. -/
theorem kept_start (clock : ℚ) : Kept name limit { clock := clock } where
  quota start := Nat.zero_le _
  named _ _ h := by cases h
  limited _ h := by cases h
  unused _ dispatch hmem := absurd hmem List.not_mem_nil
  covers _ h := by cases h

/-- In every course of calls in which no look at the count of a platform forgets a recent dispatch, and no dispatch
is made when the limit is counted, no interval holds more dispatches to the platform than it accepts. -/
theorem quota_of_fitting (name : String) (limit : RateLimit) (clock : ℚ) (calls : List RegistryCall)
    (h : Each step (fun traffic call => traffic.Allowed name limit call ∧ traffic.Fits name limit call)
      { clock := clock }
      calls) : Throughout step (Quota name limit) (fun _ _ => True) { clock := clock } calls :=
  .of_each (kept_start clock) Kept.quota (fun kept hcall => ⟨kept.step hcall.1 hcall.2, trivial⟩) h

/-- One call in ten seconds. -/
def once : RateLimit := ⟨1, 10, by norm_num⟩

/-- A platform that accepts one call in ten seconds. -/
def blog : Integration := { name := "blog", rateLimits := once, manifests := ["publish"] }

/-- Its registration, and an admission. -/
def opening : List RegistryCall := [.register blog, .admits 0 0 "publish"]

/-- Its registration, an admission and the dispatch. -/
def published : List RegistryCall := opening ++ [.recordDispatched 0 0 "publish"]

/-- A first dispatch. -/
theorem quota_of_fitting_published :
    Each step (fun traffic call => traffic.Allowed "blog" once call ∧ traffic.Fits "blog" once call) { clock := 0 }
      published ∧
      Throughout step (Quota "blog" once) (fun _ _ => True) { clock := 0 } published := by
  have hwindow : (opening.foldl step { clock := 0 }).registry.windows "blog" = some ⟨0, 0⟩ := by decide +kernel
  have hcounted : (opening.foldl step { clock := 0 }).counted "blog" once 0 < once.maxCalls := by decide +kernel
  have hticket : 0 < (opening.foldl step { clock := 0 }).admissions "publish" := by decide +kernel
  have heach : Each step (fun traffic call => traffic.Allowed "blog" once call ∧ traffic.Fits "blog" once call)
      { clock := 0 } published := by
    refine ⟨⟨fun _ => rfl, trivial⟩, ⟨⟨le_rfl, le_rfl⟩, fun _ _ _ state h => by cases h⟩,
      ⟨⟨le_rfl, le_rfl, hticket⟩, fun _ _ _ => ⟨fun state h helapsed => ?_, hcounted⟩⟩, trivial⟩
    obtain rfl : state = ⟨0, 0⟩ := Option.some.inj (h.symm.trans hwindow)
    exact absurd helapsed (by decide +kernel)
  exact ⟨heach, quota_of_fitting "blog" once 0 published heach⟩

/-- A dispatch at the end of the window, and one at the beginning of the next. -/
def atBothEnds : List RegistryCall :=
  [.register blog, .admits 0 0 "publish", .recordDispatched 9 9 "publish", .admits 10 10 "publish",
    .recordDispatched 10 10 "publish"]

/-- Two dispatches within ten seconds to a platform that accepts one. -/
theorem quota_exceeded : Each step (Allowed "blog" once) { clock := 0 } atBothEnds ∧
    ¬Throughout step (Quota "blog" once) (fun _ _ => True) { clock := 0 } atBothEnds := by
  constructor
  · refine ⟨fun _ => rfl, ⟨le_rfl, le_rfl⟩, ⟨?_, le_rfl, ?_⟩, ⟨?_, le_rfl⟩, ⟨?_, le_rfl, ?_⟩, trivial⟩ <;>
      decide +kernel
  · rintro ⟨-, -, -, -, -, -, -, -, -, -, hquota⟩
    have htwo : (atBothEnds.foldl step { clock := 0 }).dispatches.countP (fun dispatch =>
        dispatch.1 = "blog" ∧ 9 ≤ dispatch.2 ∧ dispatch.2 < 9 + once.windowSeconds) = 2 := by
      decide +kernel
    have hone := hquota 9
    exact absurd (htwo ▸ hone) (by decide)

/-- A dispatch right after its admission finds less than the limit counted. -/
theorem counted_of_admitted {later : ℚ} (kept : traffic.Kept name limit)
    (htool : traffic.registry.getByTool tool = some integration) (hname : integration.name = name)
    (hadmitted : (traffic.registry.admits created now tool).2.admitted = true) :
    (traffic.step (.admits created now tool)).counted name limit later < limit.maxCalls := by
  have hlimit := kept.rateLimits_eq htool hname
  have hwindow : (traffic.step (.admits created now tool)).registry.windows name =
      some (traffic.registry.window integration created now) ∧
        (traffic.registry.window integration created now).callsInWindow < limit.maxCalls := by
    change (traffic.registry.admits created now tool).1.windows name = _ ∧ _
    unfold IntegrationRegistry.admits at hadmitted ⊢
    rw [htool] at hadmitted ⊢
    dsimp only at hadmitted ⊢
    split at hadmitted
    · cases hadmitted
    next hfree =>
      rw [if_neg hfree, hname, ← hlimit]
      exact ⟨Function.update_self _ _ _, not_le.mp hfree⟩
  unfold counted
  rw [hwindow.1]
  dsimp only
  split
  · exact Nat.zero_lt_of_lt hwindow.2
  · exact hwindow.2

end Traffic

end MyTeam.Legacy
