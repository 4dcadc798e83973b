import MyTeam.Legacy.AgentTools
import MyTeam.Legacy.MemoryStore
import MyTeam.Py.Buckets

/-!
# Recalling what is remembered

The entries of an agent's memory are found by their triggers, the title and the memory points, over
an index that is kept beside the store and changed after every write. The memory tools write to both.
What is recalled are the newest versions of exactly the entries that a term triggers. How a text is
put into lower case is left open, and so is how the content of an entry is built.
-/

namespace MyTeam.Legacy

open MyTeam.Py

namespace MemoryEntry

variable (entry : MemoryEntry)

/-- `title`. -/
def title : String :=
  match entry.content.field "title" with
  | .str title => title
  | _ => ""

/-- `memory_points`. -/
def memoryPoints : List String :=
  match entry.content.field "memory_points" with
  | .list points => points.filterMap fun
    | .str point => some point
    | _ => none
  | _ => []

/-- An entry like another one, with another title, content and memory points. -/
def revise (title : String) (content : Value) (memoryPoints : List String) : MemoryEntry :=
  { entry with
    version := entry.version + 1
    content := .dict [("type", entry.content.field "type"), ("title", .str title), ("content", content),
      ("memory_points", .list (memoryPoints.map .str)), ("provenance", entry.content.field "provenance")] }

end MemoryEntry

/-- `RecallIndex`. -/
structure RecallIndex where
  index : List (String × List String) := []
  entryTriggers : List (String × List String) := []

/-- `RecallCandidate`; the score is the number of the terms that match. -/
structure RecallFound where
  entry : MemoryEntry
  matchedTerms : List String
  sourceTag : String

namespace RecallIndex

variable (lower : String → String) (r : RecallIndex)

/-- `_extract_triggers`. -/
def extractTriggers (entry : MemoryEntry) : List String :=
  ((entry.title :: entry.memoryPoints).filter (· ≠ "")).map lower |>.dedup

/-- The triggers of an entry that is in the index. -/
def triggersOf (entryId : String) : List String := (r.entryTriggers.lookup entryId).getD []

/-- `on_put`. -/
def onPut (entry : MemoryEntry) : RecallIndex where
  index := reindex entry.entryId (r.triggersOf entry.entryId) (extractTriggers lower entry) r.index
  entryTriggers := assign entry.entryId (extractTriggers lower entry) r.entryTriggers

/-- `on_evict`. -/
def onEvict (entryId : String) : RecallIndex where
  index := (r.triggersOf entryId).foldl (discardFrom entryId) r.index
  entryTriggers := r.entryTriggers.filter fun item => item.1 ≠ entryId

/-- `lookup`. -/
def lookup (token : String) : List String := bucket (lower token) r.index

/-- Whether a text is part of another one. -/
def isPart (part text : String) : Bool := decide (part.toList <:+: text.toList)

/-- `substring_search`. -/
def substringSearch (query : String) : List String :=
  (r.index.filter fun item => isPart (lower query) item.1).flatMap Prod.snd

/-- The entries that a term hits. -/
def hitsOf (term : String) : List String :=
  if term = "" then [] else r.lookup lower (lower term) ++ r.substringSearch lower (lower term)

/-- The terms that hit an entry. -/
def hitsIn (terms : List String) (entryId : String) : List String :=
  (terms.filter fun term => entryId ∈ r.hitsOf lower term).dedup

end RecallIndex

/-- `_TYPE_TO_SOURCE_TAG`. -/
def sourceTagFor (type : Value) : String :=
  match type with
  | .str "skill" => "[SKILL_INSTRUCTION]"
  | .str "tool" => "[TOOL_DEFINITION]"
  | .str "task" => "[TASK_CONTEXT]"
  | .str "person" => "[PERSON_PROFILE]"
  | _ => "[MEMORY]"

/-- `KeywordRecallBackend.query`, for the types of entries that are asked for. -/
def queryRecall (lower : String → String) (r : RecallIndex) (m : MemoryStore) (terms : List String)
    (filterTypes : Option (List String)) : List RecallFound :=
  (terms.flatMap (r.hitsOf lower)).dedup.filterMap fun entryId =>
    (m.store entryId).bind fun chain =>
      let type := chain.current.content.field "type"
      if filterTypes.any fun types => types ≠ [] ∧ ∀ name ∈ types, type.isStr name = false then none
      else some ⟨chain.current, r.hitsIn lower terms entryId, sourceTagFor type⟩

/-- `_add_terms`, over the terms that were added and those that come. -/
def addTerms (lower : String → String) : List String → List String → List String
  | merged, [] => merged
  | merged, term :: rest =>
    addTerms lower (if lower term ∈ merged.map lower then merged else merged ++ [term]) rest

/-- The three kinds of terms in their order. -/
def mergeTerms (lower : String → String) (config : RecallConfig) (contextualTerms : List String) : List String :=
  addTerms lower [] (contextualTerms ++ config.persistentQueryTerms ++ config.tempOverrides)

/-- `recall`, which uses the temporary terms up. -/
def recallEntries (lower : String → String) (r : RecallIndex) (m : MemoryStore) (config : RecallConfig)
    (contextualTerms : List String) (topK : ℕ) (filterTypes : Option (List String)) : RecallConfig × List RecallFound :=
  let merged := mergeTerms lower config contextualTerms
  ({ config with tempOverrides := [] },
    ((queryRecall lower r m merged filterTypes).mergeSort fun x y => y.matchedTerms.length ≤
      x.matchedTerms.length).take topK)

/-- What belongs to the memory of one agent. -/
structure AgentRecall where
  session : MemorySession
  index : RecallIndex := {}
  config : RecallConfig := {}

/-- What the memory tools are given: how content is built for a type of entry, which may be refused, and
the codec of the store. -/
structure MemoryTools (δ : Type) where
  lower : String → String
  buildContent : Value → String → Except Exc Value
  buildSkill : String → List String → Except Exc Value
  codec : EntryCodec δ
  agentId : String
  tick : ℕ

namespace MemoryTools

variable {δ : Type} (tools : MemoryTools δ) (s : AgentRecall)

/-- A refusal. -/
def refuse (toolName error : String) (errorCode : Option String := none) : ToolResult :=
  { success := false, error := some error, errorCode := errorCode, agentId := tools.agentId, toolName := toolName
    tick := tools.tick }

/-- A result. -/
def succeed (toolName : String) (data : List (String × Value)) : ToolResult :=
  { success := true, data := .dict data, agentId := tools.agentId, toolName := toolName, tick := tools.tick }

/-- A write to the store and, if it succeeds, the sync of the index. -/
def write (call : MemoryCall) : AgentRecall × Except Exc Bool :=
  match s.session.perform tools.codec call with
  | (session, .error error) => ({ s with session := session }, .error error)
  | (session, .ok none) => ({ s with session := session }, .ok false)
  | (session, .ok (some _)) =>
    let index := match call with
      | .put entry => s.index.onPut tools.lower entry
      | .fold _ folded => s.index.onPut tools.lower folded
      | .evict entryId => s.index.onEvict entryId
    ({ s with session := session, index := index }, .ok true)

/-- The newest version of an entry. -/
def get (entryId : String) : Option MemoryEntry := (s.session.memory.store entryId).map VersionChain.current

/-- What `memory_fold`, `memory_edit` and `memory_retag` have in common: an entry is replaced by another version of
it. -/
def amend (toolName flag entryId : String) (call : MemoryEntry → MemoryCall)
    (build : MemoryEntry → Except Exc MemoryEntry) : AgentRecall × Except Exc ToolResult :=
  match get s entryId with
  | none => (s, .ok (tools.refuse toolName s!"{toolName}: 条目 {entryId} 不在 store（外加载条目不可改写）"))
  | some entry =>
    match build entry with
    | .error error => (s, .error error)
    | .ok next =>
      match tools.write s (call next) with
      | (s', .error error) => (s', .error error)
      | (s', .ok _) => (s', .ok (tools.succeed toolName
          [("entry_id", .str entry.entryId), ("version", .int next.version), (flag, .bool true)]))

/-- `handle_memory_fold`. -/
def memoryFold (entryId contentText title : String) (memoryPoints : Option (List String)) :
    AgentRecall × Except Exc ToolResult :=
  if entryId = "" ∨ contentText = "" then
    (s, .ok (tools.refuse "memory_fold" "memory_fold 需要 entry_id 与 content_text" (some "INVALID_ARGUMENT")))
  else tools.amend s "memory_fold" "folded" entryId (.fold entryId) fun entry => do
    let content ← tools.buildContent (entry.content.field "type") contentText
    pure (entry.revise (if title = "" then entry.title else title) content (memoryPoints.getD entry.memoryPoints))

/-- `handle_memory_edit`. -/
def memoryEdit (entryId contentText title : String) (memoryPoints : Option (List String)) :
    AgentRecall × Except Exc ToolResult :=
  if entryId = "" then
    (s, .ok (tools.refuse "memory_edit" "memory_edit 需要 entry_id" (some "INVALID_ARGUMENT")))
  else tools.amend s "memory_edit" "edited" entryId .put fun entry => do
    let content ← if contentText = "" then pure (entry.content.field "content")
      else tools.buildContent (entry.content.field "type") contentText
    pure (entry.revise (if title = "" then entry.title else title) content (memoryPoints.getD entry.memoryPoints))

/-- `handle_memory_retag`. -/
def memoryRetag (entryId : String) (memoryPoints : List String) : AgentRecall × Except Exc ToolResult :=
  if entryId = "" ∨ memoryPoints = [] then
    (s, .ok (tools.refuse "memory_retag" "memory_retag 需要 entry_id 与 memory_points" (some "INVALID_ARGUMENT")))
  else tools.amend s "memory_retag" "retagged" entryId .put fun entry =>
    pure (entry.revise entry.title (entry.content.field "content") memoryPoints)

/-- `handle_memory_evict`. -/
def memoryEvict (entryId : String) : AgentRecall × Except Exc ToolResult :=
  if entryId = "" then
    (s, .ok (tools.refuse "memory_evict" "memory_evict 需要 entry_id" (some "INVALID_ARGUMENT")))
  else
    match tools.write s (.evict entryId) with
    | (s', .error error) => (s', .error error)
    | (s', .ok false) => (s', .ok (tools.refuse "memory_evict" s!"memory_evict: 条目 {entryId} 不在 store"))
    | (s', .ok true) => (s', .ok (tools.succeed "memory_evict" [("entry_id", .str entryId), ("evicted", .bool true)]))

/-- The text of an entry that is promoted. -/
def promotedText (source : MemoryEntry) : String :=
  let lines := match source.content.field "content" with
    | .dict items => (items.filter fun item => item.2.truthy).map fun item => s!"{item.1}: {item.2.toStr}"
    | _ => []
  "\n".intercalate (source.title :: lines)

/-- `make_skill_entry`, for an entry that comes from a task or from none. -/
def skillEntry (newId title : String) (content : Value) (memoryPoints : List String) (provenance : Value) :
    MemoryEntry where
  entryId := newId
  version := 1
  content := .dict [("type", .str "skill"), ("title", .str title), ("content", content),
    ("memory_points", .list (memoryPoints.map .str)), ("provenance", provenance)]

/-- A new entry is written. -/
def remember (toolName flag : String) (entry : MemoryEntry) : AgentRecall × Except Exc ToolResult :=
  match tools.write s (.put entry) with
  | (s', .error error) => (s', .error error)
  | (s', .ok _) => (s', .ok (tools.succeed toolName
      [("entry_id", .str entry.entryId), ("version", .int entry.version), (flag, .bool true)]))

/-- `handle_memory_promote`, with the id of the new entry. -/
def memoryPromote (newId entryId title sopText : String) (appliesTo memoryPoints : List String)
    (taskId outcome note : String) :
    AgentRecall × Except Exc ToolResult :=
  let source := if entryId = "" then none else get s entryId
  if entryId ≠ "" ∧ source.isNone then
    (s, .ok (tools.refuse "memory_promote" s!"memory_promote: 源条目 {entryId} 不在 store"))
  else if sopText = "" ∧ source.isNone then
    (s, .ok (tools.refuse "memory_promote" "memory_promote 需要 sop_text 或有效 entry_id" (some "INVALID_ARGUMENT")))
  else
    let text := if sopText = "" then source.elim "" promotedText else sopText
    let provenance := Value.dict [("task_results", .list (if taskId = "" then [] else
      [.dict [("task_id", .str taskId), ("outcome", .str outcome), ("note", .str note)]]))]
    match tools.buildSkill text appliesTo with
    | .error error => (s, .error error)
    | .ok content => tools.remember s "memory_promote" "promoted"
        (skillEntry newId (if title = "" then source.elim "提炼技能" MemoryEntry.title else title) content memoryPoints
          provenance)

/-- A change of the terms of an agent, which is staged. -/
def configure (effectType : EffectType) (resource : String) (data : List (String × Value)) (config : RecallConfig) :
    AgentRecall :=
  let call : StageCall :=
    { effectType := effectType, agentId := tools.agentId, resource := resource, data := some data }
  { s with session := { s.session with buffer := s.session.buffer.stage call }, config := config }

/-- `handle_memory_pin`, with `apply_pin_effect`. -/
def memoryPin (entryId : String) : AgentRecall × Except Exc ToolResult :=
  if entryId = "" then
    (s, .ok (tools.refuse "memory_pin" "memory_pin 需要 entry_id" (some "INVALID_ARGUMENT")))
  else
    match get s entryId with
    | none => (s, .ok (tools.refuse "memory_pin" s!"memory_pin: 条目 {entryId} 不在 store（外加载条目不可改写）"))
    | some entry =>
      let terms := (entry.title :: entry.memoryPoints).filter (· ≠ "")
      let added := terms.filter (· ∉ s.config.persistentQueryTerms)
      let shown := Value.list (added.map .str)
      (tools.configure s .memoryPin s!"recall_config:{tools.agentId}:pin:{entry.entryId}"
          [("entry_id", .str entry.entryId), ("added_terms", shown)]
          { s.config with persistentQueryTerms := s.config.persistentQueryTerms ++ added },
        .ok (tools.succeed "memory_pin"
          [("entry_id", .str entry.entryId), ("pinned", .bool true), ("added_terms", shown)]))

/-- `apply_recall_config_effect`. -/
def applyRecallConfigEffect (terms : List String) : AgentRecall :=
  tools.configure s .memoryRecallConfig s!"recall_config:{tools.agentId}:persistent_query_terms"
    [("new_terms", .list (terms.map .str))] { s.config with persistentQueryTerms := terms }

/-- `apply_memory_recall_effect`. -/
def applyMemoryRecallEffect (terms : List String) : AgentRecall :=
  tools.configure s .memoryRecall s!"recall_config:{tools.agentId}:temp_overrides"
    [("temp_terms", .list (terms.map .str))] { s.config with tempOverrides := s.config.tempOverrides ++ terms }

/-- `recall`, for the agent. -/
def recallFor (contextualTerms : List String) (topK : ℕ) (filterTypes : Option (List String)) :
    AgentRecall × List RecallFound :=
  let recalled := recallEntries tools.lower s.index s.session.memory s.config contextualTerms topK filterTypes
  ({ s with config := recalled.1 }, recalled.2)

end MemoryTools

/-- What is done with the memory of an agent. -/
inductive MemoryToolCall
  | fold (entryId contentText title : String) (memoryPoints : Option (List String))
  | promote (newId entryId title sopText : String) (appliesTo memoryPoints : List String) (taskId outcome note : String)
  | edit (entryId contentText title : String) (memoryPoints : Option (List String))
  | retag (entryId : String) (memoryPoints : List String)
  | evict (entryId : String)
  | pin (entryId : String)
  | writeSummaryEntry (entry : MemoryEntry)
  | recallConfig (terms : List String)
  | memoryRecall (terms : List String)
  | recallNow (contextualTerms : List String) (topK : ℕ) (filterTypes : Option (List String))

/-- The state after a call. -/
def AgentRecall.step {δ : Type} (tools : MemoryTools δ) (s : AgentRecall) : MemoryToolCall → AgentRecall
  | .fold entryId contentText title points => (tools.memoryFold s entryId contentText title points).1
  | .promote newId entryId title sopText appliesTo points taskId outcome note =>
    (tools.memoryPromote s newId entryId title sopText appliesTo points taskId outcome note).1
  | .edit entryId contentText title points => (tools.memoryEdit s entryId contentText title points).1
  | .retag entryId points => (tools.memoryRetag s entryId points).1
  | .evict entryId => (tools.memoryEvict s entryId).1
  | .pin entryId => (tools.memoryPin s entryId).1
  | .writeSummaryEntry entry => (tools.write s (.put entry)).1
  | .recallConfig terms => tools.applyRecallConfigEffect s terms
  | .memoryRecall terms => tools.applyMemoryRecallEffect s terms
  | .recallNow contextualTerms topK filterTypes => (tools.recallFor s contextualTerms topK filterTypes).1

end MyTeam.Legacy
