import MyTeam.Py.Dict
import Mathlib.Data.String.Basic

/-!
# Resolution of authority

Which of several legitimate claims on one effect becomes binding. Grants give subjects the final word,
a veto or a consultation in a domain of decisions, for all contexts, for those a wildcard matches or for
one, and under conditions, each of which must be known to hold. The most specific contexts in which
somebody holds a final word or a veto decide; what several final words make together is said by their
composition, and is left open if they do not agree on one.
-/

namespace MyTeam.Legacy.Resolution

open MyTeam.Py

/-- `Domain`. -/
inductive Domain
  | scope | content | method | schedule | cost | acceptance | release | ownership
deriving DecidableEq

/-- `Domain.value`. -/
def Domain.value : Domain → String
  | .scope => "scope"
  | .content => "content"
  | .method => "method"
  | .schedule => "schedule"
  | .cost => "cost"
  | .acceptance => "acceptance"
  | .release => "release"
  | .ownership => "ownership"

/-- `Strength`. -/
inductive Strength
  | final | veto | consult | none
deriving DecidableEq

/-- `Composition`. -/
inductive Composition
  | priority | joint | threshold
deriving DecidableEq

/-- `EscalationMode`. -/
inductive EscalationMode
  | arbitrate | transfer | advise

/-- `EscalationTrigger`. -/
inductive EscalationTrigger
  | unresolved | conditionBreached | exception
deriving DecidableEq

/-- `DecisionState`. -/
inductive DecisionState
  | allowed | blocked | unresolved | waiting
deriving DecidableEq

/-- `ConditionOp`. -/
inductive ConditionOp
  | eq | ne | isIn | notIn | gt | gte | lt | lte | isPresent
deriving DecidableEq

/-- `CondTruth`. -/
inductive CondTruth
  | true | false | unknown
deriving DecidableEq

/-- The truth of a test that could be made. -/
def CondTruth.of (b : Bool) : CondTruth := if b then .true else .false

mutual

/-- `v < w`; `none` where it raises `TypeError`. -/
def less : Value → Value → Option Bool
  | .str s, .str t => some (decide (s < t))
  | .list xs, .list ys => lessList xs ys
  | v, w =>
    match v.number, w.number with
    | some a, some b => some (decide (a < b))
    | _, _ => none

/-- `<` of two lists: of the first elements that are not equal, or of the lengths. -/
def lessList : List Value → List Value → Option Bool
  | [], ys => some !ys.isEmpty
  | _ :: _, [] => some false
  | x :: xs, y :: ys => if x.equal y then lessList xs ys else less x y

end

/-- `Condition`. -/
structure Condition where
  field : String
  op : ConditionOp
  value : Value := .none

namespace Condition

variable (c : Condition)

/-- `v in self.value`; `none` if that is not a collection. -/
def inside (v : Value) : Option Bool :=
  match c.value with
  | .list xs => some (xs.any v.equal)
  | _ => none

/-- `evaluate`, of a field that is present. -/
def test (v : Value) : CondTruth :=
  match c.op with
  | .eq => .of (v.equal c.value)
  | .ne => .of (!v.equal c.value)
  | .isIn => (c.inside v).elim .unknown .of
  | .notIn => (c.inside v).elim .unknown fun b => .of (!b)
  | .gt => (less c.value v).elim .unknown .of
  | .gte => (less v c.value).elim .unknown fun b => .of (!b)
  | .lt => (less v c.value).elim .unknown .of
  | .lte => (less c.value v).elim .unknown fun b => .of (!b)
  | .isPresent => .unknown

/-- Whether the field is asked to be present, for `EXISTS`. -/
def want : Bool :=
  match c.value with
  | .none => true
  | v => v.truthy

/-- `evaluate`. -/
def evaluate (ctx : List (String × Value)) : CondTruth :=
  if c.op = .isPresent then .of ((ctx.lookup c.field).isSome = c.want)
  else (ctx.lookup c.field).elim .unknown c.test

end Condition

/-- `Escalation`, with what it is on. -/
structure Escalation where
  trigger : EscalationTrigger
  mode : EscalationMode
  target : String

/-- `AuthorityGrant`. -/
structure AuthorityGrant where
  subject : String
  domain : Domain
  context : Option String := none
  strength : Strength := .none
  composition : Option Composition := none
  conditions : List Condition := []
  escalation : Option Escalation := none
  priority : ℤ := 0
  thresholdN : ℤ := 1

/-- `DecisionRequest`. -/
structure DecisionRequest where
  subject : String
  domain : Domain
  context : Option String := none
  conditionContext : List (String × Value) := []
  consenting : List String := []
  exception : Bool := false

/-- `DecisionResult`. -/
structure DecisionResult where
  state : DecisionState
  domain : Domain
  winner : Option String := none
  reason : String := ""
  matched : List String := []
  effectiveFinals : List String := []
  effectiveVetoes : List String := []
  consults : List String := []
  escalation : Option Escalation := none

/-- `DecisionClaim`, as far as it is resolved. -/
structure DecisionClaim where
  subject : String
  domains : List Domain
  context : Option String := none
  conditionContext : List (String × Value) := []
  consenting : List String := []

/-- `a.endswith("*") and b.startswith(a[:-1])`. -/
def matchesWildcard (a b : String) : Bool := a.toList.getLast? = some '*' ∧ a.toList.dropLast <+: b.toList

/-- `_context_specificity`. -/
def contextSpecificity : Option String → Option String → ℕ
  | none, _ => 1
  | some _, none => 0
  | some grantCtx, some requestCtx =>
    if grantCtx = requestCtx then 3 else if matchesWildcard grantCtx requestCtx then 2 else 0

/-- `sorted(set(xs))`. -/
def sortedSet (xs : List String) : List String := xs.dedup.mergeSort fun a b => decide (a ≤ b)

namespace AuthorityGrant

variable (g : AuthorityGrant)

/-- `_desc`. -/
def desc : String :=
  let context := (g.context.filter (· ≠ "")).getD "*"
  s!"{g.subject}@{g.domain.value}:{context}"

/-- `_grant_effective`. -/
def effective (ctx : List (String × Value)) : Bool := g.conditions.all fun c => c.evaluate ctx = .true

/-- A grant that decides. -/
def decides : Bool := g.strength = .final ∨ g.strength = .veto

end AuthorityGrant

/-- What final words make of a claim. -/
structure Ruling where
  state : DecisionState
  reason : String
  winner : Option String := none

/-- The composition of all the grants. -/
def commonComposition : List AuthorityGrant → Option Composition
  | [] => none
  | first :: rest => first.composition.filter fun comp => rest.all fun g => g.composition = some comp

/-- The grants of the highest priority. -/
def best (finals : List AuthorityGrant) : List AuthorityGrant :=
  finals.filter fun f => (finals.map fun g => g.priority).max? = some f.priority

namespace DecisionRequest

variable (request : DecisionRequest) (grants : List AuthorityGrant)

/-- `_escalation_for`. -/
def escalationFor (trigger : EscalationTrigger) : Option Escalation :=
  grants.findSome? fun g => g.escalation.filter fun e => e.trigger = if request.exception then .exception else trigger

/-- `consent`. -/
def consent : List String := request.subject :: request.consenting

/-- The effective grants of a tier. -/
def effectiveAt (spec : ℕ) : List AuthorityGrant :=
  ((grants.filter fun g => g.domain = request.domain).filter fun g => contextSpecificity g.context request.context =
    spec).filter
    fun g => g.effective request.conditionContext

/-- The ruling of one holder. -/
def byHolder (holder : String) : Ruling :=
  if request.subject = holder then ⟨.allowed, s!"{holder} decides", some holder⟩
  else ⟨.waiting, s!"decision belongs to {holder} (consent required)", none⟩

/-- `Composition.PRIORITY`. -/
def byPriority (finals : List AuthorityGrant) : Ruling :=
  match best finals with
  | [holder] => request.byHolder holder.subject
  | _ => ⟨.unresolved, "priority composition: tie — no implicit winner", none⟩

/-- `Composition.JOINT`. -/
def byJoint (finals : List AuthorityGrant) : Ruling :=
  let needed := sortedSet (finals.map fun f => f.subject)
  let missing := needed.filter fun subject => subject ∉ request.consent
  if missing ≠ [] then
    let listed := ", ".intercalate (missing.map Value.reprStr)
    ⟨.waiting, s!"joint consent missing: [{listed}]", none⟩
  else ⟨.allowed, "joint consent complete", some ("joint:" ++ ",".intercalate needed)⟩

/-- `Composition.THRESHOLD`. -/
def byThreshold (finals : List AuthorityGrant) (thresholdN : ℤ) : Ruling :=
  let n := max 1 thresholdN
  let consented := (sortedSet (finals.map fun f => f.subject)).filter fun subject => subject ∈ request.consent
  if (consented.length : ℤ) < n then ⟨.waiting, s!"threshold {consented.length}/{n} not met", none⟩
  else ⟨.allowed, s!"threshold {consented.length}/{n} met", some ("threshold:" ++ ",".intercalate consented)⟩

/-- What several final words make of the claim. -/
def byComposition (finals : List AuthorityGrant) (thresholdN : ℤ) : Ruling :=
  match commonComposition finals with
  | none => ⟨.unresolved, "multiple finals without a single composition", none⟩
  | some .priority => request.byPriority finals
  | some .joint => request.byJoint finals
  | some .threshold => request.byThreshold finals thresholdN

/-- What the effective final words of a tier make of the claim, if there are any. -/
def decideFinals : List AuthorityGrant → Option Ruling
  | [] => none
  | [holder] => some (request.byHolder holder.subject)
  | first :: second :: rest => some (request.byComposition (first :: second :: rest) first.thresholdN)

/-- `resolve`, from a tier on, with the consultations seen. -/
def resolveTiers (domainGrants : List AuthorityGrant) (matched : List String) : List ℕ → List String → DecisionResult
  | [], consults =>
    { state := .unresolved, domain := request.domain, reason := "no final authority for domain/context"
      matched := matched, consults := consults, escalation := request.escalationFor domainGrants .unresolved }
  | spec :: rest, consults =>
    let effective := request.effectiveAt domainGrants spec
    match effective.filter fun g => g.strength = .veto with
    | veto :: others =>
      { state := .blocked, domain := request.domain, reason := s!"effective veto by {veto.subject}"
        matched := matched, effectiveVetoes := (veto :: others).map AuthorityGrant.desc, consults := consults
        escalation := request.escalationFor (veto :: others) .conditionBreached }
    | [] =>
      let finals := effective.filter fun g => g.strength = .final
      let consults := consults ++ (effective.filter fun g => g.strength = .consult).map AuthorityGrant.desc
      match request.decideFinals finals with
      | none => resolveTiers domainGrants matched rest consults
      | some ruling =>
        { state := ruling.state, domain := request.domain, winner := ruling.winner, reason := ruling.reason
          matched := matched, effectiveFinals := finals.map AuthorityGrant.desc, consults := consults
          escalation :=
            if ruling.state = .unresolved then request.escalationFor domainGrants .unresolved else none }

/-- `resolve`. -/
def resolve : DecisionResult :=
  match grants.filter fun g => g.domain = request.domain with
  | [] =>
    { state := .unresolved, domain := request.domain, reason := "no authority grant for domain"
      escalation := request.escalationFor [] .unresolved }
  | domainGrants => request.resolveTiers domainGrants (domainGrants.map AuthorityGrant.desc) [3, 2, 1] []

end DecisionRequest

/-- The request that a claim makes in a domain. -/
def DecisionClaim.request (claim : DecisionClaim) (domain : Domain) : DecisionRequest :=
  { subject := claim.subject, domain := domain, context := claim.context, conditionContext := claim.conditionContext
    consenting := claim.consenting }

/-- `resolve_claim`. -/
def resolveClaim (claim : DecisionClaim) (grants : List AuthorityGrant) : List (Domain × DecisionResult) :=
  update [] (claim.domains.map fun domain => (domain, (claim.request domain).resolve grants))

/-- `claim_overall`. -/
def claimOverall (results : List (Domain × DecisionResult)) : DecisionState :=
  let states := results.map fun item => item.2.state
  if .blocked ∈ states then .blocked
  else if .unresolved ∈ states then .unresolved
  else if .waiting ∈ states then .waiting
  else .allowed

/-- `_context_covers`. -/
def contextCovers : Option String → Option String → Bool
  | none, _ => true
  | some _, none => false
  | some delegatorCtx, some childCtx =>
    delegatorCtx = childCtx || matchesWildcard delegatorCtx childCtx || matchesWildcard childCtx delegatorCtx

/-- `check_delegation_monotonic`. -/
def checkDelegationMonotonic (delegator child : List AuthorityGrant) : List String :=
  (child.filter fun cg => cg.decides && !delegator.any fun dg =>
    dg.domain = cg.domain && dg.decides && contextCovers dg.context cg.context).map fun cg =>
      s!"child grant {cg.desc} not covered by delegator authority"

end MyTeam.Legacy.Resolution
