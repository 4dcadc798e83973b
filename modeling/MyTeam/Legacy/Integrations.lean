import MyTeam.Async.Course
import MyTeam.Py.Double

/-!
# Integrations

External platforms are registered with the tools that go out to them and with a limit for the calls
that they accept. Each tool belongs to one platform. The table of owners is kept beside the registrations: a
registration is stored before its tools are entered, and tools that a replacement no longer lists stay in the
table, so that the two agree only while no tool is claimed twice and no replacement drops one.
-/

namespace MyTeam.Legacy

open MyTeam.Py MyTeam.Async

/-- How many calls an external platform accepts in a window of time. -/
structure RateLimit where
  maxCalls : ℕ
  windowSeconds : ℚ
  positive : 0 < windowSeconds
deriving DecidableEq, Repr

/-- An external platform, with the names of the manifests of its tools. -/
structure Integration where
  name : String
  rateLimits : RateLimit := ⟨100, 60, by norm_num⟩
  manifests : List String := []
deriving DecidableEq, Repr

/-- The count of the calls to a platform. -/
structure WindowState where
  windowStartedAt : ℚ
  callsInWindow : ℕ := 0
deriving DecidableEq, Repr

/-- The registered platforms, the owners of the tools, and the windows of the platforms. -/
structure IntegrationRegistry where
  integrations : String → Option Integration := fun _ => none
  providersByTool : String → Option String := fun _ => none
  windows : String → Option WindowState := fun _ => none

/-- The answer to an operation that wants to go out. -/
structure Admission where
  admitted : Bool
  reason : String
  retryable : Bool
deriving DecidableEq, Repr

/-- The part of `admit` and `record_dispatched` that begins a new window when the old one has elapsed. -/
def WindowState.refresh (limit : RateLimit) (now : ℚ) (state : WindowState) : WindowState :=
  if limit.windowSeconds ≤ now - state.windowStartedAt then ⟨now, 0⟩ else state

/-- The loop of `register`: the tools are entered one after the other, until one belongs to another platform. -/
def indexTools (name : String) : List String → (String → Option String) → (String → Option String) × Option String
  | [], providers => (providers, none)
  | tool :: rest, providers =>
    match providers tool with
    | some owner =>
      if owner ≠ name then (providers, some s!"Outbound tool '{tool}' is claimed by both '{owner}' and '{name}'")
      else indexTools name rest (Function.update providers tool (some name))
    | none => indexTools name rest (Function.update providers tool (some name))

namespace IntegrationRegistry

/-- `register`: the registry afterwards, and the error that is raised, if one is. -/
def register (r : IntegrationRegistry) (integration : Integration) : IntegrationRegistry × Option String :=
  let indexed := indexTools integration.name integration.manifests r.providersByTool
  ({ r with
      integrations := Function.update r.integrations integration.name (some integration)
      providersByTool := indexed.1 }, indexed.2)

/-- `unregister`. -/
def unregister (r : IntegrationRegistry) (name : String) : IntegrationRegistry where
  integrations := Function.update r.integrations name none
  providersByTool := match r.integrations name with
    | none => r.providersByTool
    | some integration => fun tool =>
      if tool ∈ integration.manifests ∧ r.providersByTool tool = some name then none else r.providersByTool tool
  windows := Function.update r.windows name none

/-- `provider_for_tool`. -/
def providerForTool (r : IntegrationRegistry) (tool : String) : Option String := r.providersByTool tool

/-- `get_by_tool`. -/
def getByTool (r : IntegrationRegistry) (tool : String) : Option Integration :=
  match r.providersByTool tool with
  | none => none
  | some provider => r.integrations provider

/-- The window of a platform at a time, and if there was none, the one that was created a moment before. -/
def window (r : IntegrationRegistry) (integration : Integration) (created now : ℚ) : WindowState :=
  ((r.windows integration.name).getD ⟨created, 0⟩).refresh integration.rateLimits now

/-- `admit`, with the times at which it creates a window and looks at it. -/
def admits (r : IntegrationRegistry) (created now : ℚ) (tool : String) : IntegrationRegistry × Admission :=
  match r.getByTool tool with
  | none => (r, ⟨false, s!"No integration owns outbound tool '{tool}'", false⟩)
  | some integration =>
    let limit := integration.rateLimits
    let state := r.window integration created now
    let r := { r with windows := Function.update r.windows integration.name (some state) }
    if limit.maxCalls ≤ state.callsInWindow then
      let shown := s!"{limit.maxCalls}/{halfEven limit.windowSeconds}s"
      (r, ⟨false, s!"Integration '{integration.name}' rate limit reached ({shown})", true⟩)
    else (r, ⟨true, "", false⟩)

/-- `record_dispatched`, with the times at which it creates a window and looks at it. -/
def recordDispatched (r : IntegrationRegistry) (created now : ℚ) (tool : String) : IntegrationRegistry :=
  match r.getByTool tool with
  | none => r
  | some integration =>
    let state := r.window integration created now
    { r with
      windows := Function.update r.windows integration.name (some ⟨state.windowStartedAt, state.callsInWindow + 1⟩) }

end IntegrationRegistry

/-- A call of the registry. -/
inductive RegistryCall
  | register (integration : Integration)
  | unregister (name : String)
  | admits (created now : ℚ) (tool : String)
  | recordDispatched (created now : ℚ) (tool : String)
deriving DecidableEq

namespace IntegrationRegistry

/-- The registry after a call. -/
def step (r : IntegrationRegistry) : RegistryCall → IntegrationRegistry
  | .register integration => (r.register integration).1
  | .unregister name => r.unregister name
  | .admits created now tool => (r.admits created now tool).1
  | .recordDispatched created now tool => r.recordDispatched created now tool

/-- A platform is registered and lists a tool. -/
def Lists (r : IntegrationRegistry) (name tool : String) : Prop :=
  ∃ integration, r.integrations name = some integration ∧ tool ∈ integration.manifests

/-- The tools belong to the platforms that list them, and no tool is listed by two. -/
structure Owned (r : IntegrationRegistry) : Prop where
  agrees : ∀ tool name, r.providerForTool tool = some name ↔ r.Lists name tool
  exclusive : ∀ tool first second, r.Lists first tool → r.Lists second tool → first = second

/-- A registration that raises changes nothing. -/
def Unharmed (r : IntegrationRegistry) (call : RegistryCall) : Prop :=
  ∀ integration, call = .register integration → (r.register integration).2 ≠ none → (r.register integration).1 = r

/-- A registration claims no tool that another platform lists, and drops none that the platform has listed before. -/
def Fits (r : IntegrationRegistry) : RegistryCall → Prop
  | .register integration =>
    (∀ tool ∈ integration.manifests, ∀ name, r.Lists name tool → name = integration.name) ∧
      ∀ tool, r.Lists integration.name tool → tool ∈ integration.manifests
  | _ => True

end IntegrationRegistry

section Index

variable {name tool : String} {tools : List String} {providers : String → Option String}

/-- A tool of another platform stops the loop, and nothing else does. -/
theorem indexTools_raises_iff : (indexTools name tools providers).2 ≠ none ↔
    ∃ tool ∈ tools, ∃ owner, providers tool = some owner ∧ owner ≠ name := by
  induction tools generalizing providers with
  | nil => simp [indexTools]
  | cons first rest ih =>
    have hrest : (∃ tool ∈ rest, ∃ owner, Function.update providers first (some name) tool = some owner ∧
        owner ≠ name) ↔
        ∃ tool ∈ rest, tool ≠ first ∧ ∃ owner, providers tool = some owner ∧ owner ≠ name := by
      refine exists_congr fun tool => and_congr_right fun _ => ?_
      by_cases htool : tool = first
      · subst htool
        simp
      · simp [htool]
    rw [indexTools]
    cases howner : providers first with
    | none =>
      dsimp only
      rw [ih, hrest]
      constructor
      · rintro ⟨tool, hmem, -, hclaimed⟩
        exact ⟨tool, List.mem_cons_of_mem _ hmem, hclaimed⟩
      · rintro ⟨tool, hmem, owner, hclaimed, hne⟩
        have htool : tool ≠ first := by
          rintro rfl
          rw [howner] at hclaimed
          cases hclaimed
        exact ⟨tool, (List.mem_cons.mp hmem).resolve_left htool, htool, owner, hclaimed, hne⟩
    | some owner =>
      dsimp only
      by_cases heq : owner = name
      · subst heq
        rw [if_neg (not_not.mpr rfl), ih, hrest]
        constructor
        · rintro ⟨tool, hmem, -, hclaimed⟩
          exact ⟨tool, List.mem_cons_of_mem _ hmem, hclaimed⟩
        · rintro ⟨tool, hmem, other, hclaimed, hne⟩
          have htool : tool ≠ first := by
            rintro rfl
            rw [howner] at hclaimed
            exact hne (Option.some.inj hclaimed).symm
          exact ⟨tool, (List.mem_cons.mp hmem).resolve_left htool, htool, other, hclaimed, hne⟩
      · rw [if_pos heq]
        exact iff_of_true (by simp) ⟨first, List.mem_cons_self, owner, howner, heq⟩

/-- The owners after the loop, if it is not stopped. -/
theorem indexTools_of_unclaimed (h : (indexTools name tools providers).2 = none) (tool : String) :
    (indexTools name tools providers).1 tool = if tool ∈ tools then some name else providers tool := by
  induction tools generalizing providers with
  | nil => simp [indexTools]
  | cons first rest ih =>
    have hentered : (if tool ∈ rest then some name else Function.update providers first (some name) tool) =
        if tool ∈ first :: rest then some name else providers tool := by
      by_cases htool : tool = first
      · subst htool
        simp
      · simp [htool]
    rw [indexTools] at h ⊢
    cases howner : providers first with
    | none =>
      rw [howner] at h
      exact (ih h).trans hentered
    | some owner =>
      rw [howner] at h
      dsimp only at h ⊢
      split at h
      · cases h
      next heq =>
        rw [if_neg heq]
        exact (ih h).trans hentered

end Index

namespace IntegrationRegistry

variable {r : IntegrationRegistry} {integration : Integration} {name tool : String}

/-- What is listed after a registration. -/
theorem lists_register : (r.register integration).1.Lists name tool ↔
    if name = integration.name then tool ∈ integration.manifests else r.Lists name tool := by
  unfold Lists register
  dsimp only
  by_cases hname : name = integration.name
  · subst hname
    simp
  · simp [hname]

/-- What is listed after the removal of a platform. -/
theorem lists_unregister {other : String} :
    (r.unregister other).Lists name tool ↔ name ≠ other ∧ r.Lists name tool := by
  unfold Lists unregister
  dsimp only
  by_cases hname : name = other
  · subst hname
    simp
  · simp [hname]

/-- While owners and lists agree, no tool is listed twice. -/
theorem owned_of_agrees (h : ∀ tool name, r.providerForTool tool = some name ↔ r.Lists name tool) : r.Owned where
  agrees := h
  exclusive tool first second hfirst hsecond := by
    have hboth := ((h tool first).mpr hfirst).symm.trans ((h tool second).mpr hsecond)
    exact Option.some.inj hboth

/-- A registration raises if and only if another platform lists one of its tools. -/
theorem Owned.raises_iff (owned : r.Owned) : (r.register integration).2 ≠ none ↔
    ∃ tool ∈ integration.manifests, ∃ other, r.Lists other tool ∧ other ≠ integration.name := by
  refine indexTools_raises_iff.trans ?_
  exact exists_congr fun tool => and_congr_right fun _ => exists_congr fun other =>
    and_congr_left fun _ => owned.agrees tool other

/-- The owners after a registration that does not raise. -/
theorem providerForTool_register (h : (r.register integration).2 = none) (tool : String) :
    (r.register integration).1.providerForTool tool =
      if tool ∈ integration.manifests then some integration.name else r.providerForTool tool :=
  indexTools_of_unclaimed h tool

/-- A fitting registration does not raise. -/
theorem Owned.not_raises (owned : r.Owned) (fits : r.Fits (.register integration)) :
    (r.register integration).2 = none := by
  by_contra hraises
  obtain ⟨tool, hmem, other, hlists, hne⟩ := owned.raises_iff.mp hraises
  exact hne (fits.1 tool hmem other hlists)

/-- A fitting registration keeps owners and lists in agreement. -/
theorem Owned.register (owned : r.Owned) (fits : r.Fits (.register integration)) :
    (r.register integration).1.Owned := by
  apply owned_of_agrees
  intro tool name
  rw [providerForTool_register (owned.not_raises fits), lists_register]
  by_cases hname : name = integration.name
  · subst hname
    rw [if_pos rfl]
    split
    next hmem => exact iff_of_true rfl hmem
    next hmem =>
      rw [owned.agrees]
      exact iff_of_false (fun hlists => hmem (fits.2 tool hlists)) hmem
  · rw [if_neg hname]
    split
    next hmem =>
      refine iff_of_false (fun heq => hname (Option.some.inj heq).symm) fun hlists => ?_
      exact hname (fits.1 tool hmem name hlists)
    next => exact owned.agrees tool name

/-- The removal of a platform keeps owners and lists in agreement. -/
theorem Owned.unregister (owned : r.Owned) (other : String) : (r.unregister other).Owned := by
  apply owned_of_agrees
  intro tool name
  rw [lists_unregister]
  have hagrees := owned.agrees tool
  unfold providerForTool at hagrees
  unfold providerForTool IntegrationRegistry.unregister
  dsimp only
  cases hother : r.integrations other with
  | none =>
    dsimp only
    rw [hagrees, iff_and_self]
    rintro ⟨integration, hname, -⟩ rfl
    rw [hother] at hname
    cases hname
  | some integration =>
    dsimp only
    split
    next hdropped =>
      refine iff_of_false (fun h => by cases h) fun hlists => hlists.1 ?_
      exact owned.exclusive tool name other hlists.2 ((hagrees other).mp hdropped.2)
    next hkept =>
      rw [hagrees, iff_and_self]
      rintro hlists rfl
      obtain ⟨found, hfound, hmem⟩ := hlists
      obtain rfl := Option.some.inj (hother.symm.trans hfound)
      exact hkept ⟨hmem, (hagrees name).mpr ⟨integration, hother, hmem⟩⟩

/-- A count of calls changes neither owners nor lists. -/
theorem Owned.of_eq {t : IntegrationRegistry} (owned : r.Owned) (hintegrations : t.integrations = r.integrations)
    (hproviders : t.providersByTool = r.providersByTool) : t.Owned := by
  apply owned_of_agrees
  intro tool name
  have hagrees := owned.agrees tool name
  unfold providerForTool Lists at hagrees ⊢
  rwa [hintegrations, hproviders]

/-- `admit` changes the windows only. -/
theorem admits_frame (created now : ℚ) (tool : String) :
    (r.admits created now tool).1.integrations = r.integrations ∧
      (r.admits created now tool).1.providersByTool = r.providersByTool := by
  unfold admits
  split
  · exact ⟨rfl, rfl⟩
  · dsimp only
    split <;> exact ⟨rfl, rfl⟩

/-- `record_dispatched` changes the windows only. -/
theorem recordDispatched_frame (created now : ℚ) (tool : String) :
    (r.recordDispatched created now tool).integrations = r.integrations ∧
      (r.recordDispatched created now tool).providersByTool = r.providersByTool := by
  unfold recordDispatched
  split <;> exact ⟨rfl, rfl⟩

/-- A fitting call keeps owners and lists in agreement. -/
theorem Owned.step {call : RegistryCall} (owned : r.Owned) (fits : r.Fits call) :
    (r.step call).Owned ∧ r.Unharmed call := by
  cases call with
  | register integration =>
    refine ⟨owned.register fits, ?_⟩
    rintro _ ⟨⟩ hraises
    exact absurd (owned.not_raises fits) hraises
  | unregister name => exact ⟨owned.unregister name, fun _ h => by cases h⟩
  | admits created now tool =>
    obtain ⟨hintegrations, hproviders⟩ := @admits_frame r created now tool
    exact ⟨owned.of_eq hintegrations hproviders, fun _ h => by cases h⟩
  | recordDispatched created now tool =>
    obtain ⟨hintegrations, hproviders⟩ := @recordDispatched_frame r created now tool
    exact ⟨owned.of_eq hintegrations hproviders, fun _ h => by cases h⟩

/-- A registration that raises changes the registry, for it is stored with a tool of another platform. -/
theorem Owned.harmed (owned : r.Owned) (hraises : (r.register integration).2 ≠ none) :
    (r.register integration).1 ≠ r := by
  intro hsame
  obtain ⟨tool, hmem, other, hlists, hne⟩ := owned.raises_iff.mp hraises
  have hown : (r.register integration).1.Lists integration.name tool := lists_register.mpr (by rwa [if_pos rfl])
  rw [hsame] at hown
  exact hne (owned.exclusive tool other integration.name hlists hown)

/-- A call after which owners and lists agree, and which changes nothing if it raises, was fitting. -/
theorem Owned.fits {call : RegistryCall} (owned : r.Owned) (unharmed : r.Unharmed call) (after : (r.step call).Owned) :
    r.Fits call := by
  cases call with
  | unregister name => trivial
  | admits created now tool => trivial
  | recordDispatched created now tool => trivial
  | register integration =>
    have hquiet : (r.register integration).2 = none := by
      by_contra hraises
      exact owned.harmed hraises (unharmed integration rfl hraises)
    refine ⟨fun tool hmem name hlists => ?_, fun tool hlists => ?_⟩
    · by_contra hne
      exact owned.raises_iff.mpr ⟨tool, hmem, name, hlists, hne⟩ hquiet
    · by_contra hmem
      have hstale : (r.register integration).1.providerForTool tool = some integration.name := by
        rw [providerForTool_register hquiet, if_neg hmem]
        exact (owned.agrees tool integration.name).mpr hlists
      have hlisted := lists_register.mp ((after.agrees tool integration.name).mp hstale)
      rw [if_pos rfl] at hlisted
      exact hmem hlisted

/-- Nothing is owned and nothing listed. -/
theorem owned_empty : ({} : IntegrationRegistry).Owned :=
  owned_of_agrees fun tool name => iff_of_false (fun h => by cases h) fun ⟨_, h, _⟩ => by cases h

/-- In all states of a course of calls owners and lists agree, no tool is listed twice, and a registration that raises
changes nothing, if and only if every registration of the course is fitting. -/
theorem owned_throughout_iff (calls : List RegistryCall) :
    Throughout step Owned Unharmed {} calls ↔ Each step Fits {} calls :=
  throughout_iff_each owned_empty id (fun owned fits => owned.step fits) fun owned unharmed after =>
    owned.fits unharmed after

/-- Two platforms that claim the same tool. -/
def claimedTwice : List RegistryCall :=
  [.register { name := "blog", manifests := ["publish"] },
    .register { name := "forum", manifests := ["reply", "publish"] }]

/-- The platform that comes second is registered although its registration raises, with the tools before the one
that it may not have. -/
theorem claimed_twice : ¬Throughout step Owned Unharmed {} claimedTwice := by
  rintro ⟨-, -, -, hharmed, -⟩
  have hraises : ((IntegrationRegistry.step {} (.register { name := "blog", manifests := ["publish"] })).register
      { name := "forum", manifests := ["reply", "publish"] }).2 ≠ none := by
    decide +kernel
  have hsame := congrArg (fun r => r.providerForTool "reply") (hharmed _ rfl hraises)
  revert hsame
  decide +kernel

end IntegrationRegistry

end MyTeam.Legacy
