import Mathlib.Algebra.Order.Ring.Unbundled.Rat

/-!
# The budget of model requests

`BudgetTracker` adds up what each agent, each task and the whole simulation have used of the model,
and `check` compares this, with an estimate of a round of requests, with the limits of each scope.
Costs and durations are rational numbers here.
-/

namespace MyTeam.Legacy

/-- `DEFAULT_PRICING_PER_1M`: the dollars for a million tokens of input, and of output. -/
def defaultPricingPer1M : List (String × ℚ × ℚ) :=
  [("gpt-4o", 2.50, 10.00), ("gpt-4o-mini", 0.15, 0.60), ("gpt-4-turbo", 10.00, 30.00), ("gpt-4", 30.00, 60.00),
    ("gpt-3.5-turbo", 0.50, 1.50), ("claude-opus-4", 15.00, 75.00), ("claude-sonnet-4", 3.00, 15.00),
    ("claude-3-5-sonnet", 3.00, 15.00), ("claude-3-opus", 15.00, 75.00), ("claude-3-haiku", 0.25, 1.25),
    ("gemini-2.0-flash", 0.10, 0.40), ("gemini-1.5-pro", 1.25, 5.00), ("gemini-1.5-flash", 0.075, 0.30),
    ("ollama", 0.0, 0.0)]

/-- `DEFAULT_PRICE_PER_1M`. -/
def defaultPricePer1M : ℚ × ℚ :=
  (1.00, 2.00)

/-- `estimate_cost`, where a price that the configuration gives comes before the default table. -/
def estimateCost (model : String) (inputTokens outputTokens : ℤ) (pricing : Option (List (String × ℚ × ℚ))) : ℚ :=
  let price := (((pricing.getD []).lookup model).or (defaultPricingPer1M.lookup model)).getD defaultPricePer1M
  ((max 0 inputTokens : ℤ) * price.1 + (max 0 outputTokens : ℤ) * price.2) / 1000000

/-- `estimate_input_tokens`, of the contents of the messages. -/
def estimateInputTokens (contents : List String) : ℤ :=
  (contents.foldl (fun totalChars content => totalChars + content.length) 0 / 4 : ℕ)

/-- `BudgetUsage`. -/
structure BudgetUsage where
  requestCount : ℤ := 0
  inputTokens : ℤ := 0
  outputTokens : ℤ := 0
  cost : ℚ := 0
  wallTimeSeconds : ℚ := 0
deriving DecidableEq, Repr

namespace BudgetUsage

variable (usage other : BudgetUsage)

/-- `total_tokens`. -/
def totalTokens : ℤ :=
  usage.inputTokens + usage.outputTokens

/-- `add`. -/
def add : BudgetUsage where
  requestCount := usage.requestCount + other.requestCount
  inputTokens := usage.inputTokens + other.inputTokens
  outputTokens := usage.outputTokens + other.outputTokens
  cost := usage.cost + other.cost
  wallTimeSeconds := usage.wallTimeSeconds + other.wallTimeSeconds

end BudgetUsage

/-- `BudgetLimits`, where 0 is no limit. -/
structure BudgetLimits where
  requestCount : ℕ := 0
  totalTokens : ℕ := 0
  cost : ℚ := 0
  wallTimeSeconds : ℚ := 0
  concurrency : ℕ := 0
deriving DecidableEq, Repr

/-- `BudgetConfig`. -/
structure BudgetConfig where
  pricing : Option (List (String × ℚ × ℚ)) := none
  agent : BudgetLimits := ⟨1000, 10000000, 100, 86400, 0⟩
  task : BudgetLimits := ⟨5000, 50000000, 500, 604800, 0⟩
  simulation : BudgetLimits := ⟨100000, 1000000000, 10000, 2592000, 0⟩

/-- What the estimate of a request reads of it, besides its timeout. -/
structure RequestDetail where
  model : String := ""
  contents : List String := []
  maxTokens : ℤ := 4096

/-- `estimate_llm_usage`. -/
def estimateLlmUsage (detail : RequestDetail) (timeoutTicks : ℕ) (tickDurationSeconds : ℚ)
    (pricing : Option (List (String × ℚ × ℚ))) : BudgetUsage where
  requestCount := 1
  inputTokens := estimateInputTokens detail.contents
  outputTokens := max 0 detail.maxTokens
  cost := estimateCost detail.model (estimateInputTokens detail.contents) (max 0 detail.maxTokens) pricing
  wallTimeSeconds := timeoutTicks * max 0 tickDurationSeconds

/-- `InFlightCounts`. -/
structure InFlightCounts where
  agent : ℕ := 0
  task : ℕ := 0
  simulation : ℕ := 0
deriving DecidableEq, Repr

/-- The scopes of a budget. -/
inductive BudgetScope
  | agent
  | task
  | simulation
deriving DecidableEq, Repr

/-- The dimensions of a limit. -/
inductive BudgetDimension
  | cost
  | totalTokens
  | requestCount
  | wallTime
  | concurrency
deriving DecidableEq, Repr

/-- `BudgetCheckResult`, of a limit that is exceeded. -/
structure BudgetCheckResult where
  scope : BudgetScope
  dimension : BudgetDimension
  current : ℚ
  limit : ℚ
  estimate : ℚ
deriving DecidableEq, Repr

/-- `BudgetTracker`: what was used, by agent, by task and in all. -/
structure BudgetTracker where
  agentUsage : String → BudgetUsage := fun _ => {}
  taskUsage : String → BudgetUsage := fun _ => {}
  simulationUsage : BudgetUsage := {}

namespace BudgetTracker

variable (budget : BudgetTracker)

/-- `record_llm`. -/
def recordLlm (agentId taskId model : String) (inputTokens outputTokens : ℤ) (cost : Option ℚ)
    (wallTimeSeconds : ℚ) (pricing : Option (List (String × ℚ × ℚ))) : BudgetTracker :=
  let usage : BudgetUsage := {
    requestCount := 1
    inputTokens := max 0 inputTokens
    outputTokens := max 0 outputTokens
    cost := max 0 (cost.getD (estimateCost model inputTokens outputTokens pricing))
    wallTimeSeconds := max 0 wallTimeSeconds }
  { agentUsage := fun agent => if agent = agentId then (budget.agentUsage agent).add usage else budget.agentUsage agent
    taskUsage := fun task =>
      if taskId ≠ "" ∧ task = taskId then (budget.taskUsage task).add usage else budget.taskUsage task
    simulationUsage := budget.simulationUsage.add usage }

/-- `_check_scope`. -/
def checkScope (scope : BudgetScope) (usage : BudgetUsage) (limits : BudgetLimits) (estimate : BudgetUsage) :
    Option BudgetCheckResult :=
  if 0 < limits.cost ∧ limits.cost < usage.cost + estimate.cost then
    some ⟨scope, .cost, usage.cost, limits.cost, estimate.cost⟩
  else if 0 < limits.totalTokens ∧ limits.totalTokens < usage.totalTokens + estimate.totalTokens then
    some ⟨scope, .totalTokens, usage.totalTokens, limits.totalTokens, estimate.totalTokens⟩
  else if 0 < limits.requestCount ∧ limits.requestCount < usage.requestCount + estimate.requestCount then
    some ⟨scope, .requestCount, usage.requestCount, limits.requestCount, estimate.requestCount⟩
  else if 0 < limits.wallTimeSeconds ∧ limits.wallTimeSeconds < usage.wallTimeSeconds + estimate.wallTimeSeconds then
    some ⟨scope, .wallTime, usage.wallTimeSeconds, limits.wallTimeSeconds, estimate.wallTimeSeconds⟩
  else none

/-- The cap on the requests of an agent: that of the budget, or where it has none `max_concurrent_llm_requests`. -/
def agentConcurrency (limits : BudgetConfig) (agentConcurrencyLimit : Option ℕ) : ℕ :=
  if limits.agent.concurrency = 0 then agentConcurrencyLimit.getD 0 else limits.agent.concurrency

/-- Requests that a scope's cap on concurrency has no room for. -/
def checkConcurrency (scope : BudgetScope) (capped : Bool) (cap inFlight planRequests : ℕ) :
    Option BudgetCheckResult :=
  if capped = true ∧ cap < inFlight + planRequests then some ⟨scope, .concurrency, inFlight, cap, planRequests⟩
  else none

/-- `check`: the first limit that a round of requests would exceed. -/
def check (agentId taskId : String) (estimate : BudgetUsage) (inFlight : InFlightCounts)
    (agentConcurrencyLimit : Option ℕ) (limits : BudgetConfig) : Option BudgetCheckResult :=
  let cap := agentConcurrency limits agentConcurrencyLimit
  let planRequests := estimate.requestCount.toNat
  (checkConcurrency .agent (decide (0 < cap) || agentConcurrencyLimit.isSome) cap inFlight.agent planRequests).or <|
    (checkScope .agent (budget.agentUsage agentId) limits.agent estimate).or <|
      (if taskId = "" then none else
        (checkConcurrency .task (decide (0 < limits.task.concurrency)) limits.task.concurrency inFlight.task
          planRequests).or (checkScope .task (budget.taskUsage taskId) limits.task estimate)).or <|
        (checkConcurrency .simulation (decide (0 < limits.simulation.concurrency)) limits.simulation.concurrency
          inFlight.simulation planRequests).or
          (checkScope .simulation budget.simulationUsage limits.simulation estimate)

end BudgetTracker

end MyTeam.Legacy
