import MyTeam.Legacy.Authority
import MyTeam.Legacy.PredicateText
import MyTeam.Py.Dict
import Mathlib.Data.Prod.Lex

/-!
# The context compiler

What an agent is given by its positions is put in front of it in two parts: entries with a priority
below 10 always, as long as their budget lasts, and the others together with what is recalled, each in the
fullest detail for which the budget has room. What several positions give counts once, at its lowest
priority.
-/

namespace MyTeam.Legacy

open MyTeam.Py

/-- `DetailLevel`. -/
inductive DetailLevel where
  | full
  | summary
  | titleOnly
deriving DecidableEq, Repr

/-- `InjectionSlot`. -/
structure InjectionSlot where
  sourceTag : String
  priorityClass : String
  detailLevel : DetailLevel
  content : String
  entryRef : String := ""
  stampToken : String := ""
deriving DecidableEq, Repr

/-- `MemoryEntryType`. -/
inductive MemoryEntryType where
  | task
  | skill
  | tool
  | person
deriving DecidableEq, Repr

/-- `entry.type.value.upper()`. -/
def MemoryEntryType.upper : MemoryEntryType → String
  | task => "TASK"
  | skill => "SKILL"
  | tool => "TOOL"
  | person => "PERSON"

/-- A `RecallCandidate`, by what the compiler reads of it and of its entry; the content is dumped. -/
structure RecallCandidate where
  entryId : String
  version : ℕ
  type : MemoryEntryType
  title : String
  content : List (String × Value)
  memoryPoints : List String
  sourceTag : String := ""

/-- `_UNTRUSTED_SOURCE_TAGS`. -/
def untrustedSourceTags : List String := ["[UNTRUSTED_CUSTOMER_CONTENT]"]

/-- `_estimate_tokens`. -/
def estimateTokens (text : String) : ℕ := max 1 (text.length / 4)

/-- The tokens of some slots. -/
def slotTokens (slots : List InjectionSlot) : ℕ := (slots.map fun slot => estimateTokens slot.content).foldr (· + ·) 0

/-- `source_tag or "[MEMORY]"`. -/
def tagOrMemory (sourceTag : String) : String := if sourceTag = "" then "[MEMORY]" else sourceTag

namespace InjectionSlot

/-- `text.strip()`. -/
def strip (text : List Char) : List Char :=
  (text.dropWhile Predicate.isSpace).reverse.dropWhile Predicate.isSpace |>.reverse

variable (slot : InjectionSlot)

/-- `_get_title`. -/
def getTitle : String := String.ofList (strip ((slot.content.toList.splitOn '\n').headD []))

/-- `_get_summary`. -/
def getSummary : String :=
  " | ".intercalate ((((((slot.content.toList.splitOn '\n').take 3).map strip).filter (· ≠ [])).take 2).map
    String.ofList)

/-- The content of a slot in all details. -/
def levels : List (DetailLevel × String) :=
  [(.full, slot.content),
    (.summary, s!"[{slot.sourceTag}] {slot.getTitle}: {slot.getSummary}"),
    (.titleOnly, s!"[{slot.sourceTag}] {slot.getTitle}")]

end InjectionSlot

/-- `_render_entry_full`. -/
def RecallCandidate.renderEntryFull (cand : RecallCandidate) : String :=
  "\n".intercalate ([s!"[{cand.type.upper}] {cand.title}"] ++
    (cand.content.filter fun field => field.2.truthy).map (fun field => s!"  {field.1}: {field.2.toStr}") ++
    (if cand.memoryPoints = [] then [] else ["  triggers: " ++ ", ".intercalate cand.memoryPoints]))

/-- The first characters of a text. -/
def firstChars (n : ℕ) (text : String) : String := String.ofList (text.toList.take n)

namespace MemoryInjection

variable (inj : MemoryInjection)

/-- The tag of what is given. -/
def tag : String := tagOrMemory inj.sourceTag

/-- Content of customers is not trusted. -/
def trusted : Bool := decide (inj.tag ∉ untrustedSourceTags)

end MemoryInjection

/-- A `ContextCompiler`, by what the injections depend on. `sha256` gives the digest of a text, and
`recallCandidates` what the engine recalls for an agent, if it has one that does not raise. -/
structure ContextCompiler where
  authority : Option Authority
  fixedMemoryTokens : ℤ := 4000
  recallMemoryTokens : ℤ := 8000
  sha256 : String → String
  recallCandidates : String → List String → Option (List RecallCandidate)

namespace ContextCompiler

variable (c : ContextCompiler)

/-- What is given, each entity once at its lowest priority, in the order in which they are met. -/
def best (raw : List MemoryInjection) : List (String × MemoryInjection) :=
  raw.foldl (fun best inj =>
    match best.lookup inj.entityId with
    | none => assign inj.entityId inj best
    | some old => if inj.priority < old.priority then assign inj.entityId inj best else best) []

/-- The slot of what is given. -/
def slotOf (priorityClass : String) (inj : MemoryInjection) : InjectionSlot where
  sourceTag := inj.tag
  priorityClass := priorityClass
  detailLevel := .full
  content := inj.content
  entryRef := inj.entityId
  stampToken := s!"v:{inj.priority}:{firstChars 8 (c.sha256 inj.content)}"

/-- The loop over the fixed injections: the slots, whether one did not fit, and the tokens that all of them need. -/
def fillFixed (tokensUsed : ℕ) : List MemoryInjection → List InjectionSlot × Bool × ℕ
  | [] => ([], false, 0)
  | inj :: rest =>
    if inj.trusted then
      let tok := estimateTokens inj.content
      if (tokensUsed + tok : ℤ) > c.fixedMemoryTokens then
        let (slots, _, demand) := fillFixed tokensUsed rest
        (slots, true, tok + demand)
      else
        let (slots, pending, demand) := fillFixed (tokensUsed + tok) rest
        (c.slotOf "fixed" inj :: slots, pending, tok + demand)
    else fillFixed tokensUsed rest

/-- The fixed injections in their order. -/
def fixedInjections (raw : List MemoryInjection) : List MemoryInjection :=
  (((best raw).map Prod.snd).filter fun inj => inj.priority < 10).mergeSort fun x y =>
    toLex (x.priority, x.entityId) ≤ toLex (y.priority, y.entityId)

/-- `_build_fixed_injection`: the slots, whether one did not fit, and the ratio of what is needed to the budget, before
it is rounded. -/
def buildFixedInjection (agentId : String) : List InjectionSlot × Bool × ℚ :=
  match c.authority with
  | none => ([], false, 0)
  | some authority =>
    let (slots, pending, demand) := c.fillFixed 0 (fixedInjections (authority.injectionFor agentId))
    (slots, pending, if 0 < c.fixedMemoryTokens then demand / c.fixedMemoryTokens else if 0 < demand then 1 else 0)

/-- What is given at a priority of 10 or more, in its order. -/
def triggered (raw : List MemoryInjection) : List MemoryInjection :=
  (((best raw).map Prod.snd).mergeSort fun x y => x.priority ≤ y.priority).filter fun inj =>
    decide (10 ≤ inj.priority) && inj.trusted

/-- The slots of what is recalled come after the others, unless there is one for the same entry. -/
def addCandidates (slots : List InjectionSlot) : List RecallCandidate → List InjectionSlot
  | [] => slots
  | cand :: rest =>
    if cand.entryId ∈ slots.map InjectionSlot.entryRef then addCandidates slots rest
    else addCandidates (slots ++ [{
      sourceTag := tagOrMemory cand.sourceTag, priorityClass := "recalled", detailLevel := .full,
      content := cand.renderEntryFull, entryRef := cand.entryId,
      stampToken := s!"v{cand.version}:{firstChars 8 cand.entryId}" }]) rest

/-- `_apply_detail_budget`, where some tokens are used. -/
def applyDetailBudget (budget : ℤ) (used : ℕ) : List InjectionSlot → List InjectionSlot
  | [] => []
  | slot :: rest =>
    match slot.levels.find? fun level => (used + estimateTokens level.2 : ℤ) ≤ budget with
    | none => applyDetailBudget budget used rest
    | some (level, content) =>
      { slot with detailLevel := level, content := content } ::
        applyDetailBudget budget (used + estimateTokens content) rest

/-- The slots of what is given to be recalled. -/
def triggeredSlots (agentId : String) : List InjectionSlot :=
  match c.authority with
  | none => []
  | some authority => (triggered (authority.injectionFor agentId)).map (c.slotOf "recalled")

/-- `_build_recalled_injection`. -/
def buildRecalledInjection (agentId : String) (contextualTerms : List String) : List InjectionSlot :=
  applyDetailBudget c.recallMemoryTokens 0
    (addCandidates (c.triggeredSlots agentId) ((c.recallCandidates agentId contextualTerms).getD []))

end ContextCompiler

end MyTeam.Legacy
