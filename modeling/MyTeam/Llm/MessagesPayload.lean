import MyTeam.Llm.Transcript

/-!
# The payload of a messages request

A request to the messages endpoint: the system prompt, the transcript and the tools, with the marks up to
which the endpoint may cache it.
-/

namespace MyTeam.Llm.MessagesPayload

open MyTeam.Py

/-- The members of a content block, or of a tool. -/
abbrev Block := List (String × Value)

/-- The content of a message: a string, or blocks. -/
inductive Content
  | text (text : String)
  | blocks (blocks : List Block)

/-- A message of a payload. -/
structure WireMessage where
  role : String
  content : Content

/-- `CacheRetention`. -/
inductive CacheRetention
  | none | short | long
deriving DecidableEq

/-- What a payload is built with, but the messages and the tools. -/
structure Config where
  model : String
  system : String
  oauthSystemPrompt : Option String := none
  maxTokens : Option ℤ := none
  thinkingBudgetTokens : Option ℤ := none
  thinkingEffort : Option String := none
  thinkingMode : String := "budget"
  supportsImages : Bool := false
  cacheRetention : CacheRetention := .short
  cacheControlOnTools : Bool := true

/-- `_cache_control`. -/
def cacheControl : CacheRetention → Option Value
  | .none => none
  | .long => some (.dict [("type", .str "ephemeral"), ("ttl", .str "1h")])
  | .short => some (.dict [("type", .str "ephemeral")])

/-- A block with a mark. -/
def withCacheControl (control : Value) (block : Block) : Block := assign "cache_control" control block

/-- A text block. -/
def textBlock (text : String) : Block := [("type", .str "text"), ("text", .str text)]

/-- `_anthropic_image`. -/
def anthropicImage (image : ImageContent) : Block :=
  [("type", .str "image"),
    ("source", .dict [("type", .str "base64"), ("media_type", .str image.mimeType), ("data", .str image.data)])]

/-- The last block, changed. -/
def changeLast (change : Block → Block) : List Block → List Block
  | [] => []
  | [block] => [change block]
  | block :: next :: rest => block :: changeLast change (next :: rest)

/-- `_anthropic_system`. -/
def anthropicSystem (system : String) (oauthSystemPrompt : Option String) (control : Option Value) : Content :=
  let oauth := ((oauthSystemPrompt.filter (· ≠ "")).map textBlock).toList
  match control with
  | none => if oauth = [] then .text system else .blocks (oauth ++ [textBlock system])
  | some control =>
    let blocks := oauth ++ if system = "" then [] else [textBlock system]
    if blocks = [] then .text system else .blocks (changeLast (withCacheControl control) blocks)

/-- The block of a block of an assistant message; that of thinking only where the endpoint made it. -/
def assistantBlock (sha256 : String → String) (api : String) : Llm.Block → Option Block
  | .text text _ => some (textBlock text)
  | .thinking thinking signature _ =>
    if api ≠ "anthropic-messages" then none
    else some ([("type", .str "thinking"), ("thinking", .str thinking)] ++
      (signature.map fun signature => ("signature", Value.str signature)).toList)
  | .toolCall call =>
    some [("type", .str "tool_use"), ("id", .str (portableToolCallId sha256 call.id)), ("name", .str call.name),
      ("input", .dict call.arguments)]

/-- `_anthropic_message`. -/
def anthropicMessage (sha256 : String → String) (supportsImages : Bool) : AgentMessage → WireMessage
  | .user content =>
    let (text, images) := textAndImages content supportsImages nonVisionUserImagePlaceholder
    if images = [] then ⟨"user", .text text⟩
    else ⟨"user", .blocks ((if text = "" then [] else [textBlock text]) ++ images.map anthropicImage)⟩
  | .assistant message => ⟨"assistant", .blocks (message.content.filterMap (assistantBlock sha256 message.api))⟩
  | .toolResult result =>
    let (text, images) := textAndImages (.parts result.content) supportsImages nonVisionToolImagePlaceholder
    let content := (if text = "" then [] else [textBlock text]) ++ images.map anthropicImage
    ⟨"user", .blocks [[("type", .str "tool_result"),
      ("tool_use_id", .str (portableToolCallId sha256 result.toolCallId)),
      ("content", .list (content.map .dict)), ("is_error", .bool result.isError)]]⟩
  | message => ⟨"user", .text (messageText message)⟩

/-- `not content`. -/
def Content.isEmpty : Content → Bool
  | .text s => s = ""
  | .blocks bs => bs.isEmpty

/-- The messages of a payload, without marks; an assistant message without content is left out. -/
def wireMessages (sha256 : String → String) (supportsImages : Bool) (messages : List AgentMessage) : List WireMessage :=
  (messages.map (anthropicMessage sha256 supportsImages)).filter fun message =>
    !(message.role = "assistant" && message.content.isEmpty)

/-- A block that can be marked: no result of a tool without content. -/
def cacheable (block : Block) : Bool :=
  match (Value.dict block).field "type" with
  | .str type =>
    type ∈ ["text", "image", "tool_result"] &&
      !(type = "tool_result" && match (Value.dict block).field "content" with
        | .list [] => true
        | _ => false)
  | _ => false

/-- `_mark_cache_breakpoint`. -/
def markCacheBreakpoint (control : Value) (message : WireMessage) : WireMessage :=
  if message.role ≠ "user" then message
  else
    match message.content with
    | .text text => if text = "" then message
        else { message with content := .blocks [withCacheControl control (textBlock text)] }
    | .blocks blocks =>
      if blocks.getLast?.any cacheable then
        { message with content := .blocks (changeLast (withCacheControl control) blocks) }
      else message

/-- The index of the last message with a role, among the first. -/
def lastWithRole (messages : List WireMessage) (role : String) : ℕ → Option ℕ
  | 0 => none
  | index + 1 =>
    if messages[index]?.any fun message => message.role = role then some index else lastWithRole messages role index

/-- `_previous_request_boundary`. -/
def previousRequestBoundary (messages : List WireMessage) : Option ℕ :=
  (lastWithRole messages "assistant" messages.length).bind fun lastAssistant =>
    lastWithRole messages "user" lastAssistant

/-- `_apply_message_cache_breakpoints`. -/
def applyMessageCacheBreakpoints (messages : List WireMessage) : Option Value → List WireMessage
  | none => messages
  | some control =>
    let last := messages.length - 1
    let indexes := last :: ((previousRequestBoundary messages).filter (· ≠ last)).toList
    indexes.foldl (fun messages index => messages.modify index (markCacheBreakpoint control)) messages

/-- `_anthropic_tool`. -/
def anthropicTool (tool : AgentTool) (control : Option Value) : Block :=
  [("name", .str tool.name), ("description", .str tool.description), ("input_schema", .dict tool.inputSchema)] ++
    (control.map fun control => ("cache_control", control)).toList

/-- The tools of a payload, the last of which is marked. -/
def anthropicTools (tools : List AgentTool) (control : Option Value) : List Block :=
  tools.mapIdx fun index tool => anthropicTool tool (if index + 1 = tools.length then control else none)

/-- The JSON value of a content. -/
def Content.toValue : Content → Value
  | .text s => .str s
  | .blocks bs => .list (bs.map .dict)

/-- The JSON value of a message. -/
def WireMessage.toValue (message : WireMessage) : Value :=
  .dict [("role", .str message.role), ("content", message.content.toValue)]

/-- `max_tokens` of a payload. -/
def resolvedMaxTokens (config : Config) : ℤ :=
  let maxTokens := (config.maxTokens.filter (· ≠ 0)).getD 4096
  config.thinkingBudgetTokens.elim maxTokens fun budget => max maxTokens (budget + 1024)

/-- How a payload asks for thinking. -/
def thinkingMembers (config : Config) : Block :=
  if config.thinkingMode = "disabled" then [("thinking", .dict [("type", .str "disabled")])]
  else
    match if config.thinkingMode = "adaptive" then config.thinkingEffort else none with
    | some effort =>
      [("thinking", .dict [("type", .str "adaptive"), ("display", .str "summarized")]),
        ("output_config", .dict [("effort", .str effort)])]
    | none =>
      (config.thinkingBudgetTokens.map fun budget =>
        ("thinking", Value.dict [("type", .str "enabled"), ("budget_tokens", .int budget)])).toList

/-- `_build_messages_payload`. -/
def buildMessagesPayload (sha256 : String → String) (config : Config) (messages : List AgentMessage)
    (tools : List AgentTool) :
    Block :=
  let control := cacheControl config.cacheRetention
  let wire := applyMessageCacheBreakpoints (wireMessages sha256 config.supportsImages messages) control
  [("model", .str config.model), ("max_tokens", .int (resolvedMaxTokens config)), ("stream", .bool true),
    ("system", (anthropicSystem config.system config.oauthSystemPrompt control).toValue),
    ("messages", .list (wire.map WireMessage.toValue))] ++ thinkingMembers config ++
    if tools = [] then []
    else [("tools", .list ((anthropicTools tools (if config.cacheControlOnTools then control else none)).map .dict))]

end MyTeam.Llm.MessagesPayload
