import MyTeam.Llm.Parsers

/-!
# Transcripts

The messages of a session as they are sent to a model, those that only the session knows included, and
what all adapters do with them alike: text and images are told apart, images a model cannot see are
replaced by a note, and the ids of tool calls are brought into an alphabet that every provider takes.
-/

namespace MyTeam.Llm

open MyTeam.Py

/-- `UserContent`: a string, or blocks. -/
inductive UserContent
  | text (text : String)
  | parts (parts : List Part)

/-- `ToolResultMessage`, without its details. -/
structure ToolResult where
  toolCallId : String
  toolName : String
  content : List Part := []
  isError : Bool := false

/-- `AgentMessage`, with what is sent of each kind. -/
inductive AgentMessage
  | user (content : UserContent)
  | assistant (message : AssistantMessage)
  | toolResult (result : ToolResult)
  | bashExecution (output : String)
  | custom (content : UserContent)
  | branchSummary (summary : String)
  | compactionSummary (summary : String)

/-- `AgentTool`, as it is offered to a model. -/
structure AgentTool where
  name : String
  description : String
  inputSchema : List (String × Value) := []

/-- The text of a text block. -/
def Part.text? : Part → Option String
  | .text s => some s
  | .image _ => none

/-- The image of an image block. -/
def Part.image? : Part → Option ImageContent
  | .text _ => none
  | .image shown => some shown

/-- `content_text`. -/
def contentText : UserContent → String
  | .text s => s
  | .parts parts => String.join (parts.filterMap Part.text?)

/-- `message_text`. -/
def messageText : AgentMessage → String
  | .user content | .custom content => contentText content
  | .assistant message => message.text
  | .toolResult result => contentText (.parts result.content)
  | .branchSummary summary | .compactionSummary summary => summary
  | .bashExecution output => output

/-- Whether a message is the result of a tool. -/
def AgentMessage.isToolResult : AgentMessage → Bool
  | .toolResult _ => true
  | _ => false

/-- `NON_VISION_USER_IMAGE_PLACEHOLDER`. -/
def nonVisionUserImagePlaceholder : String :=
  "(image omitted: current model does not support image input; image contents are " ++
    "unavailable—do not infer or describe them)"

/-- `NON_VISION_TOOL_IMAGE_PLACEHOLDER`. -/
def nonVisionToolImagePlaceholder : String :=
  "(tool image omitted: current model does not support image input; image contents are " ++
    "unavailable—do not infer or describe them; ask the user to switch to a vision-capable model)"

/-- `text_and_images`. -/
def textAndImages (content : UserContent) (supportsImages : Bool) (imagePlaceholder : String) :
    String × List ImageContent :=
  match content with
  | .text s => (s, [])
  | .parts parts =>
    let text := contentText (.parts parts)
    let images := parts.filterMap Part.image?
    if supportsImages then (text, images)
    else (if images = [] then text else if text = "" then imagePlaceholder else s!"{text}\n{imagePlaceholder}", [])

/-- `portable_tool_call_id`, with the hexadecimal SHA-256 of a text. -/
def portableToolCallId (sha256 : String → String) (value : String) : String :=
  if 0 < value.length ∧ value.length ≤ 64 ∧ value.toList.all (fun c => c.isAlphanum ∨ c = '_' ∨ c = '-') then value
  else s!"tc_{String.ofList ((sha256 value).toList.take 40)}"

/-- The images that are sent with a message: those of users and of tool results, where the model takes images. A custom
message goes out as its text, and its images are not sent. -/
def sentImages (supportsImages : Bool) : AgentMessage → List ImageContent
  | .user content => (textAndImages content supportsImages nonVisionUserImagePlaceholder).2
  | .toolResult result => (textAndImages (.parts result.content) supportsImages nonVisionToolImagePlaceholder).2
  | _ => []

end MyTeam.Llm
