import MyTeam.Bash.Device
import MyTeam.Llm.Stream
import MyTeam.Py.Digits
import MyTeam.Py.Gather
import Mathlib.Data.List.DropRight

/-!
# The parsers of streamed responses

The lines of a response are server-sent events whose data are JSON texts. A parser takes them one
after the other; it passes the deltas of text and thinking on at once, and gathers the fragments of
the tool calls until the response is complete. How a JSON text is read and written is left open.
-/

namespace MyTeam.Llm

open MyTeam.Py

/-- `text.strip()`. -/
def strip (text : List Char) : List Char := (text.dropWhile Bash.isSpace).rdropWhile Bash.isSpace

/-- What `json.loads` makes of a text: `invalid` is a `JSONDecodeError`. -/
inductive Loading
  | value (v : Value)
  | invalid
  | raised (error : Exc)

/-- The functions of the module `json`. -/
structure JsonModule where
  loads : String → Loading
  dumps : Value → String

/-- `_loads_object` of the OpenAI adapter. -/
def loadsObject (json : JsonModule) (text : String) : Except Exc (Option Value) :=
  match json.loads text with
  | .value (.dict items) => .ok (some (.dict items))
  | .value _ | .invalid => .ok none
  | .raised error => .error error

/-- `int(text)` of a string, by its characters without surrounding blanks; digits may be grouped by underscores. -/
def intOfChars (chars : List Char) : Option ℤ :=
  let (sign, digits) := match chars with
    | '-' :: rest => ((-1 : ℤ), rest)
    | '+' :: rest => (1, rest)
    | rest => (1, rest)
  let groups := digits.splitOn '_'
  if groups.all fun group => !group.isEmpty && group.all isDigit then some (sign * digitsValue groups.flatten) else none

/-- `int(v)`. -/
def intOf : Value → Except Exc ℤ
  | .bool b => .ok (if b then 1 else 0)
  | .int n => .ok n
  | .float q => .ok (q.num.tdiv q.den)
  | .str s =>
    match intOfChars (strip s.toList) with
    | some n => .ok n
    | none => .error (.valueError s!"invalid literal for int() with base 10: {Value.reprStr s}")
  | v => .error (.typeError
      s!"int() argument must be a string, a bytes-like object or a real number, not '{v.typeName}'")

/-- A string that is not empty. -/
def nonemptyStr : Value → Option String
  | .str s => if s = "" then none else some s
  | _ => none

/-- `_int_or_none`. -/
def intOrNone : Value → Option ℤ
  | .int n => some n
  | _ => none

/-- `_int_or_zero`. -/
def intOrZero (v : Value) : ℤ := (intOrNone v).getD 0

/-- `_parse_sse_line` of the OpenAI adapter. -/
def parseSseLine (line : String) : Option String :=
  let chars := strip line.toList
  if "data:".toList.isPrefixOf chars then some (.ofList (strip (chars.drop 5))) else none

/-- `_StreamParser`: a parser by its methods. What `feed` returns are the events and whether to stop. -/
structure StreamParser (π : Type) where
  fresh : π
  feed : π → String → Except Exc (π × List ProviderEvent × Bool)
  finalize : π → Except Exc (List ProviderEvent)
  emittedContent : π → Bool
  fatal : π → Bool

/-- The end of `build`: the arguments are kept as they are if they are no JSON object. -/
def buildToolCall (json : JsonModule) (id name arguments : String) (index : ℤ) : Except Exc ToolCall := do
  let loaded ← if arguments = "" then pure (some (.dict [])) else loadsObject json arguments
  let items := match loaded with
    | some (.dict items) => items
    | _ => [("_raw_arguments", .str arguments)]
  pure { id := if id = "" then s!"tool-call-{index}" else id, name := name, arguments := items }

/-- The content of the message at the end: `assistant_content`, after the thinking. -/
def finalContent (text : String) (thinkingParts : List String) (signature : Option String) (toolCalls : List ToolCall) :
    List Block :=
  (if thinkingParts = [] then [] else [.thinking (String.join thinkingParts) signature]) ++
    assistantContent text toolCalls

/-- `_ToolCallBuilder`. -/
structure ToolCallBuilder where
  id : String := ""
  name : String := ""
  argumentsParts : List String := []

/-- `add_delta`. -/
def ToolCallBuilder.addDelta (builder : ToolCallBuilder) (delta : Value) : ToolCallBuilder :=
  let builder := match delta.field "id" with
    | .str id => { builder with id := id }
    | _ => builder
  let function := delta.field "function"
  let builder := match function.field "name" with
    | .str name => { builder with name := name }
    | _ => builder
  match function.field "arguments" with
    | .str arguments => { builder with argumentsParts := builder.argumentsParts ++ [arguments] }
    | _ => builder

/-- `build`. -/
def ToolCallBuilder.build (json : JsonModule) (builder : ToolCallBuilder) (index : ℤ) : Except Exc ToolCall :=
  buildToolCall json builder.id builder.name (String.join builder.argumentsParts) index

/-- `_parse_chunk_usage`. -/
def parseChunkUsage (raw : Value) : Usage :=
  let details := raw.field "prompt_tokens_details"
  let cacheRead := ((intOrNone (details.field "cached_tokens")).orElse
    fun _ => intOrNone (raw.field "prompt_cache_hit_tokens")).getD 0
  let cacheWrite := intOrZero (details.field "cache_write_tokens")
  let input := max 0 (intOrZero (raw.field "prompt_tokens") - cacheRead - cacheWrite)
  let output := intOrZero (raw.field "completion_tokens")
  let completion := raw.field "completion_tokens_details"
  { input := input, output := output, cacheRead := cacheRead, cacheWrite := cacheWrite
    reasoning := if completion.isDict then some (intOrZero (completion.field "reasoning_tokens")) else none
    totalTokens := input + output + cacheRead + cacheWrite }

/-- `_first_choice`. -/
def firstChoice (chunk : Value) : Option Value :=
  match chunk.field "choices" with
  | .list (.dict items :: _) => some (.dict items)
  | _ => none

/-- `_tool_call_deltas`. -/
def toolCallDeltas (delta : Value) : List Value :=
  match delta.field "tool_calls" with
  | .list calls => calls.filter Value.isDict
  | _ => []

/-- `_thinking_delta`. -/
def thinkingDelta (delta : Value) : Option (String × String) :=
  ["reasoning_content", "reasoning", "thinking"].findSome? fun name =>
    (nonemptyStr (delta.field name)).map fun text => (name, text)

/-- `_ChatStreamParser`. -/
structure ChatStreamParser where
  emittedContent : Bool := false
  fatal : Bool := false
  contentParts : List String := []
  thinkingParts : List String := []
  thinkingSignature : Option String := none
  toolCallBuilders : List (ℤ × ToolCallBuilder) := []
  finishReason : Value := .none
  usage : Option Usage := none

namespace ChatStreamParser

/-- The text of a delta. -/
def feedContent (p : ChatStreamParser) (delta : Value) : ChatStreamParser × List ProviderEvent :=
  match nonemptyStr (delta.field "content") with
  | none => (p, [])
  | some text => ({ p with emittedContent := true, contentParts := p.contentParts ++ [text] }, [.delta .text text])

/-- The thinking of a delta. -/
def feedThinking (p : ChatStreamParser) (delta : Value) : ChatStreamParser × List ProviderEvent :=
  match thinkingDelta delta with
  | none => (p, [])
  | some (name, text) =>
    ({ p with
        emittedContent := true
        thinkingParts := p.thinkingParts ++ [text]
        thinkingSignature := p.thinkingSignature.orElse fun _ => some name }, [.delta .thinking text])

/-- `int(tool_call_delta.get("index", 0))`. -/
def indexOf : Value → Except Exc ℤ
  | .dict items => intOf ((items.lookup "index").getD (.int 0))
  | _ => .ok 0

/-- A fragment of a tool call. -/
def feedToolCall (p : ChatStreamParser) (call : Value) : Except Exc ChatStreamParser := do
  let index ← indexOf call
  pure { p with
    emittedContent := true
    toolCallBuilders := gather ToolCallBuilder.addDelta {} p.toolCallBuilders (index, call) }

/-- The delta of a choice. -/
def feedDelta (p : ChatStreamParser) (delta : Value) : Except Exc (ChatStreamParser × List ProviderEvent × Bool) := do
  let texts := p.feedContent delta
  let thinkings := texts.1.feedThinking delta
  let p ← (toolCallDeltas delta).foldlM feedToolCall thinkings.1
  pure (p, texts.2 ++ thinkings.2, false)

/-- The usage of a chunk or of a choice, if there is one. -/
def takeUsage (p : ChatStreamParser) (usage : Value) : ChatStreamParser :=
  if usage.isDict then { p with usage := some (parseChunkUsage usage) } else p

/-- The usage of a choice, if the chunk has none, and its finish reason. -/
def noteChoice (p : ChatStreamParser) (chunkUsage choice : Value) : ChatStreamParser :=
  let p := if chunkUsage.isDict then p else p.takeUsage (choice.field "usage")
  { p with finishReason := (choice.field "finish_reason").orElse p.finishReason }

/-- `feed`, for a chunk. -/
def feedChunk (p : ChatStreamParser) (chunk : Value) : Except Exc (ChatStreamParser × List ProviderEvent × Bool) :=
  let chunkUsage := chunk.field "usage"
  let p := p.takeUsage chunkUsage
  match firstChoice chunk with
  | none => .ok (p, [], false)
  | some choice =>
    let p := p.noteChoice chunkUsage choice
    let delta := choice.field "delta"
    if delta.isDict then p.feedDelta delta else .ok (p, [], false)

/-- `feed`. -/
def feed (json : JsonModule) (p : ChatStreamParser) (event : String) :
    Except Exc (ChatStreamParser × List ProviderEvent × Bool) :=
  if event = "[DONE]" then .ok (p, [], true)
  else do
    match ← loadsObject json event with
    | none => pure ({ p with fatal := true }, [.error "Provider returned invalid JSON chunk"], true)
    | some chunk => p.feedChunk chunk

/-- The finish reason of `ProviderResponseEndEvent`, which has to be a string or absent. -/
def endReason : Value → Except Exc (Option String)
  | .none => .ok none
  | .str s => .ok (some s)
  | _ => .error (.valueError "1 validation error for ProviderResponseEndEvent\nfinish_reason")

/-- The tool calls, in the order of their indices. -/
def toolCalls (json : JsonModule) (p : ChatStreamParser) : Except Exc (List ToolCall) :=
  (p.toolCallBuilders.mergeSort fun x y => x.1 ≤ y.1).mapM fun entry => entry.2.build json entry.1

/-- `finalize`. -/
def finalize (json : JsonModule) (p : ChatStreamParser) : Except Exc (List ProviderEvent) := do
  let toolCalls ← p.toolCalls json
  let reason ← endReason p.finishReason
  let message : AssistantMessage :=
    { content := finalContent (String.join p.contentParts) p.thinkingParts p.thinkingSignature toolCalls
      usage := p.usage.getD {} }
  pure (toolCalls.map .toolCall ++ [.responseEnd message reason])

end ChatStreamParser

/-- The parser of `/chat/completions`. -/
def chatStreamParser (json : JsonModule) : StreamParser ChatStreamParser where
  fresh := {}
  feed := ChatStreamParser.feed json
  finalize := ChatStreamParser.finalize json
  emittedContent := ChatStreamParser.emittedContent
  fatal := ChatStreamParser.fatal

/-- `_ResponsesToolCallBuilder`. -/
structure ResponsesToolCallBuilder where
  callId : String := ""
  name : String := ""
  outputIndex : ℤ := 0
  argumentsParts : List String := []
  argumentsFinal : Option String := none

namespace ResponsesToolCallBuilder

/-- `add_arguments_delta`. -/
def addArgumentsDelta (builder : ResponsesToolCallBuilder) : Value → ResponsesToolCallBuilder
  | .str delta => { builder with argumentsParts := builder.argumentsParts ++ [delta] }
  | _ => builder

/-- `set_final`. -/
def setFinal (builder : ResponsesToolCallBuilder) (callId name : Option String) (arguments : Value)
    (outputIndex : Option ℤ) : ResponsesToolCallBuilder where
  callId := callId.getD builder.callId
  name := name.getD builder.name
  outputIndex := outputIndex.getD builder.outputIndex
  argumentsParts := builder.argumentsParts
  argumentsFinal := match arguments with
    | .str arguments => some arguments
    | _ => builder.argumentsFinal

/-- `build`. -/
def build (json : JsonModule) (builder : ResponsesToolCallBuilder) (index : ℤ) : Except Exc ToolCall :=
  buildToolCall json builder.callId builder.name
    (builder.argumentsFinal.getD (String.join builder.argumentsParts)) index

end ResponsesToolCallBuilder

/-- `_ResponsesStreamParser`. -/
structure ResponsesStreamParser where
  emittedContent : Bool := false
  fatal : Bool := false
  contentParts : List String := []
  thinkingParts : List String := []
  reasoningItems : List (String × Value) := []
  toolCallBuilders : List (String × ResponsesToolCallBuilder) := []
  status : Option String := none
  usage : Option Usage := none

/-- `_responses_finish_reason`. -/
def responsesFinishReason (chunk : Value) : Option String :=
  match (chunk.field "response").field "status" with
  | .str status => some status
  | _ => none

/-- `_normalize_finish_reason`. -/
def normalizeFinishReason (status : Option String) (hasToolCalls : Bool) : String :=
  if hasToolCalls then "tool_calls" else if status = some "incomplete" then "length" else "stop"

/-- `_usage_from_responses_event`. -/
def usageFromResponsesEvent (chunk : Value) : Option Usage :=
  let raw := (chunk.field "response").field "usage"
  if raw.isDict then
    let inputDetails := raw.field "input_tokens_details"
    let cacheRead := intOrZero (inputDetails.field "cached_tokens")
    let cacheWrite := intOrZero (inputDetails.field "cache_write_tokens")
    let outputDetails := raw.field "output_tokens_details"
    some
      { input := max 0 (intOrZero (raw.field "input_tokens") - cacheRead - cacheWrite)
        output := intOrZero (raw.field "output_tokens"), cacheRead := cacheRead, cacheWrite := cacheWrite
        reasoning := if outputDetails.isDict then some (intOrZero (outputDetails.field "reasoning_tokens")) else none
        totalTokens := intOrZero (raw.field "total_tokens") }
  else none

/-- `_responses_failure_event`. -/
def responsesFailureEvent (chunk : Value) : ProviderEvent :=
  .error ((nonemptyStr (((chunk.field "response").field "error").field "message")).getD "Provider response failed")
    (some [("event", chunk)])

/-- `_responses_error_message`. -/
def responsesErrorMessage (chunk : Value) : String :=
  ((nonemptyStr (chunk.field "message")).orElse fun _ => nonemptyStr ((chunk.field "error").field "message")).getD
    "Provider stream error"

namespace ResponsesStreamParser

/-- `_register_reasoning_item`. -/
def registerReasoningItem (p : ResponsesStreamParser) (item : Value) : ResponsesStreamParser :=
  match item.field "type", item.field "id" with
  | .str "reasoning", .str id => { p with reasoningItems := assign id item p.reasoningItems }
  | _, _ => p

/-- A change of the builder of an item, `setdefault` before it. -/
def alter (p : ResponsesStreamParser) (id : String) (change : ResponsesToolCallBuilder → ResponsesToolCallBuilder) :
    ResponsesStreamParser :=
  { p with toolCallBuilders := gather (fun builder change => change builder) {} p.toolCallBuilders (id, change) }

/-- `_register_responses_item` and `_finalize_responses_item`, which differ in the arguments they take from the item. -/
def setItem (p : ResponsesStreamParser) (item arguments outputIndex : Value) : ResponsesStreamParser :=
  match item.field "type", item.field "id" with
  | .str "function_call", .str id =>
    p.alter id fun builder => builder.setFinal (nonemptyStr (item.field "call_id")) (nonemptyStr (item.field "name"))
      arguments (intOrNone outputIndex)
  | _, _ => p

/-- `_register_responses_item`. -/
def registerResponsesItem (p : ResponsesStreamParser) (item outputIndex : Value) : ResponsesStreamParser :=
  p.setItem item (((nonemptyStr (item.field "arguments")).map Value.str).getD .none) outputIndex

/-- `_finalize_responses_item`. -/
def finalizeResponsesItem (p : ResponsesStreamParser) (item outputIndex : Value) : ResponsesStreamParser :=
  p.setItem item (item.field "arguments") outputIndex

/-- A delta of text or of thinking. -/
def feedDelta (p : ResponsesStreamParser) (channel : Channel) (delta : Value) :
    ResponsesStreamParser × List ProviderEvent × Bool :=
  match nonemptyStr delta with
  | none => (p, [], false)
  | some text =>
    let p := { p with emittedContent := true }
    match channel with
    | .text => ({ p with contentParts := p.contentParts ++ [text] }, [.delta .text text], false)
    | .thinking => ({ p with thinkingParts := p.thinkingParts ++ [text] }, [.delta .thinking text], false)

/-- `feed`, for a chunk of a type. -/
def feedChunk (p : ResponsesStreamParser) (chunk : Value) (type : String) :
    ResponsesStreamParser × List ProviderEvent × Bool :=
  if type ∈ ["response.output_text.delta", "response.refusal.delta"] then p.feedDelta .text (chunk.field "delta")
  else if type ∈ ["response.reasoning_summary_text.delta", "response.reasoning_text.delta"] then
    p.feedDelta .thinking (chunk.field "delta")
  else if type = "response.reasoning_summary_part.done" then
    if p.thinkingParts = [] then (p, [], false)
    else ({ p with thinkingParts := p.thinkingParts ++ ["\n\n"] }, [.delta .thinking "\n\n"], false)
  else if type = "response.output_item.added" then
    let item := chunk.field "item"
    ((p.registerReasoningItem item).registerResponsesItem item (chunk.field "output_index"), [], false)
  else if type = "response.function_call_arguments.delta" then
    match chunk.field "item_id" with
    | .str id =>
      ({ p.alter id fun builder => builder.addArgumentsDelta (chunk.field "delta") with emittedContent := true }, [],
        false)
    | _ => (p, [], false)
  else if type = "response.function_call_arguments.done" then
    match chunk.field "item_id" with
    | .str id => (p.alter id fun builder => builder.setFinal none none (chunk.field "arguments") none, [], false)
    | _ => (p, [], false)
  else if type = "response.output_item.done" then
    let item := chunk.field "item"
    ((p.registerReasoningItem item).finalizeResponsesItem item (chunk.field "output_index"), [], false)
  else if type ∈ ["response.completed", "response.incomplete"] then
    ({ p with
        status := responsesFinishReason chunk
        usage := (usageFromResponsesEvent chunk).orElse fun _ => p.usage }, [], true)
  else if type = "response.failed" then ({ p with fatal := true }, [responsesFailureEvent chunk], true)
  else if type = "error" then
    ({ p with fatal := true }, [.error (responsesErrorMessage chunk) (some [("event", chunk)])], true)
  else (p, [], false)

/-- `feed`. -/
def feed (json : JsonModule) (p : ResponsesStreamParser) (event : String) :
    Except Exc (ResponsesStreamParser × List ProviderEvent × Bool) :=
  if event = "[DONE]" then .ok (p, [], false)
  else do
    match ← loadsObject json event with
    | none => pure (p, [], false)
    | some chunk =>
      match chunk.field "type" with
      | .str type => pure (p.feedChunk chunk type)
      | _ => pure (p, [], false)

/-- `finalize`. -/
def finalize (json : JsonModule) (p : ResponsesStreamParser) : Except Exc (List ProviderEvent) := do
  let builders := p.toolCallBuilders.mergeSort fun x y => x.2.outputIndex ≤ y.2.outputIndex
  let toolCalls ← builders.zipIdx.mapM fun entry => entry.1.2.build json entry.2
  let message : AssistantMessage :=
    { content := finalContent (String.join p.contentParts) p.thinkingParts
        (p.reasoningItems.head?.map fun item => json.dumps item.2) toolCalls
      usage := p.usage.getD {} }
  pure (toolCalls.map .toolCall ++ [.responseEnd message (some (normalizeFinishReason p.status !toolCalls.isEmpty))])

end ResponsesStreamParser

/-- The parser of `/responses`. -/
def responsesStreamParser (json : JsonModule) : StreamParser ResponsesStreamParser where
  fresh := {}
  feed := ResponsesStreamParser.feed json
  finalize := ResponsesStreamParser.finalize json
  emittedContent := ResponsesStreamParser.emittedContent
  fatal := ResponsesStreamParser.fatal

end MyTeam.Llm
