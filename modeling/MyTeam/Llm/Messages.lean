import MyTeam.Py.Value

/-!
# Messages of a model

The messages that are exchanged with a model, with their content blocks in order, and what is read
off them: the visible text, the tool calls, the images. Times are left out, and so are the prices
of a response, which are never set.
-/

namespace MyTeam.Llm

open MyTeam.Py

/-- `ToolCall`. -/
structure ToolCall where
  id : String
  name : String
  arguments : List (String × Value) := []
  thoughtSignature : Option String := none

/-- A block of the content of an assistant message: `TextContent`, `ThinkingContent` or `ToolCall`. -/
inductive Block
  | text (text : String) (textSignature : Option String := none)
  | thinking (thinking : String) (thinkingSignature : Option String := none) (redacted : Bool := false)
  | toolCall (call : ToolCall)

/-- `ImageContent`. -/
structure ImageContent where
  data : String
  mimeType : String
deriving DecidableEq

/-- A block of the content of a user message or of the result of a tool: `TextContent` or `ImageContent`. -/
inductive Part
  | text (text : String)
  | image (image : ImageContent)

/-- `Usage`, without the prices. -/
structure Usage where
  input : ℤ := 0
  output : ℤ := 0
  cacheRead : ℤ := 0
  cacheWrite : ℤ := 0
  cacheWrite1h : Option ℤ := none
  reasoning : Option ℤ := none
  totalTokens : ℤ := 0
deriving DecidableEq

/-- `StopReason`. -/
inductive StopReason
  | stop | length | toolUse | error | aborted
deriving DecidableEq

/-- `AssistantMessageDiagnostic`. -/
structure Diagnostic where
  type : String
  details : Option (List (String × Value)) := none

/-- `AssistantMessage`. -/
structure AssistantMessage where
  content : List Block := []
  api : String := "unknown"
  provider : String := "unknown"
  model : String := "unknown"
  responseModel : Option String := none
  responseProvider : Option String := none
  responseId : Option String := none
  diagnostics : Option (List Diagnostic) := none
  usage : Usage := {}
  stopReason : StopReason := .stop
  errorMessage : Option String := none

/-- The text of a text block. -/
def Block.text? : Block → Option String
  | .text s _ => some s
  | _ => none

/-- The thinking of a thinking block. -/
def Block.thinking? : Block → Option String
  | .thinking s _ _ => some s
  | _ => none

/-- The tool call of a block. -/
def Block.toolCall? : Block → Option ToolCall
  | .toolCall call => some call
  | _ => none

/-- The visible text of content blocks. -/
def textOf (content : List Block) : String := String.join (content.filterMap Block.text?)

/-- The thinking of content blocks. -/
def thinkingOf (content : List Block) : String := String.join (content.filterMap Block.thinking?)

/-- The tool calls of content blocks. -/
def toolCallsOf (content : List Block) : List ToolCall := content.filterMap Block.toolCall?

/-- `AssistantMessage.text`. -/
def AssistantMessage.text (message : AssistantMessage) : String := textOf message.content

/-- `AssistantMessage.tool_calls`. -/
def AssistantMessage.toolCalls (message : AssistantMessage) : List ToolCall := toolCallsOf message.content

/-- `assistant_content`. -/
def assistantContent (text : String) (toolCalls : List ToolCall) : List Block :=
  (if text = "" then [] else [.text text]) ++ toolCalls.map .toolCall

end MyTeam.Llm
