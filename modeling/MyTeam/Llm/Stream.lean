import MyTeam.Async.Generator
import MyTeam.Llm.Messages

/-!
# The canonical stream of a response

The parsers of the providers yield deltas, tool calls and one end or error; what an agent sees are
the events of a message that grows block by block, each with a copy of the message so far. Text and
thinking are streamed in the same way and are told apart by their channel.
-/

namespace MyTeam.Llm

open MyTeam.Py MyTeam.Async

/-- What is streamed in deltas. -/
inductive Channel
  | text | thinking
deriving DecidableEq

/-- A block of a channel. -/
def Channel.block : Channel → String → Block
  | .text, s => .text s
  | .thinking, s => .thinking s

/-- `block.text += delta` and `block.thinking += delta`, for a block of the channel. -/
def Channel.extend (delta : String) : Channel → Block → Option Block
  | .text, .text s signature => some (.text (s ++ delta) signature)
  | .thinking, .thinking s signature redacted => some (.thinking (s ++ delta) signature redacted)
  | _, _ => none

/-- `ProviderEvent`; of a retry the numbers alone. -/
inductive ProviderEvent
  | responseStart (model : String) (responseProvider : Option String := none)
  | retry (attempt maxAttempts : ℤ)
  | delta (channel : Channel) (delta : String)
  | toolCall (toolCall : ToolCall)
  | responseEnd (message : AssistantMessage) (finishReason : Option String := none)
  | error (message : String) (data : Option (List (String × Value)) := none) (responseProvider : Option String := none)

/-- `AssistantMessageEvent`, with the start, the deltas and the end of text and of thinking as events of a channel. -/
inductive AssistantMessageEvent
  | start (partialMessage : AssistantMessage)
  | blockStart (channel : Channel) (contentIndex : ℕ) (partialMessage : AssistantMessage)
  | blockDelta (channel : Channel) (contentIndex : ℕ) (delta : String) (partialMessage : AssistantMessage)
  | blockEnd (channel : Channel) (contentIndex : ℕ) (content : String) (partialMessage : AssistantMessage)
  | toolCallStart (contentIndex : ℕ) (partialMessage : AssistantMessage)
  | toolCallEnd (contentIndex : ℕ) (toolCall : ToolCall) (partialMessage : AssistantMessage)
  | done (reason : StopReason) (message : AssistantMessage)
  | error (reason : StopReason) (error : AssistantMessage)

/-- A run of code that yields assistant events. -/
abbrev Streaming := Gen Exc AssistantMessageEvent

/-- `_end_active_block`. -/
def endActiveBlock (message : AssistantMessage) : Option ℕ → Streaming Unit
  | none => pure ()
  | some index =>
    match message.content[index]? with
    | none => .raise (.other "list index out of range")
    | some (.text s _) => .emit (.blockEnd .text index s message)
    | some (.thinking s _ _) => .emit (.blockEnd .thinking index s message)
    | some (.toolCall _) => pure ()

/-- The loops of `_copy_replay_metadata`, with what is left of the source's thinking and text. -/
def copySignatures : List (Option String × Bool) → List (Option String) → List Block → List Block
  | _, _, [] => []
  | (signature, redacted) :: thinkings, texts, .thinking s _ _ :: rest =>
    .thinking s signature redacted :: copySignatures thinkings texts rest
  | thinkings, signature :: texts, .text s _ :: rest => .text s signature :: copySignatures thinkings texts rest
  | thinkings, texts, block :: rest => block :: copySignatures thinkings texts rest

/-- `_copy_replay_metadata`, for the contents of the messages. -/
def copyReplayMetadata (target source : List Block) : List Block :=
  let thinkings := source.filterMap fun
    | .thinking _ signature redacted => some (signature, redacted)
    | _ => none
  let texts := source.filterMap fun
    | .text _ signature => some signature
    | _ => none
  copySignatures thinkings texts target

/-- `_finish_reason`. -/
def finishReason (value : Option String) (hasTools : Bool) : StopReason :=
  if hasTools ∨ value ∈ [some "tool_calls", some "tool_use", some "toolUse"] then .toolUse
  else if value ∈ [some "length", some "max_tokens", some "MAX_TOKENS", some "incomplete"] then .length
  else .stop

/-- The local variables of `canonicalize_provider_stream`. -/
structure Canonical where
  partialMessage : AssistantMessage
  activeIndex : Option ℕ := none
  activeKind : Option Channel := none
  started : Bool := false
  terminal : Bool := false

namespace Canonical

/-- The start of the message, unless it was started. -/
def start (s : Canonical) : Streaming Canonical :=
  if s.started then pure s
  else do
    .emit (.start s.partialMessage)
    pure { s with started := true }

/-- A new block of a channel, unless the channel is the active one. -/
def switchTo (s : Canonical) (channel : Channel) : Streaming Canonical :=
  if s.activeKind = some channel then pure s
  else do
    endActiveBlock s.partialMessage s.activeIndex
    let index := s.partialMessage.content.length
    let message := { s.partialMessage with content := s.partialMessage.content ++ [channel.block ""] }
    .emit (.blockStart channel index message)
    pure { s with partialMessage := message, activeIndex := some index, activeKind := some channel }

/-- A delta for the active block. -/
def append (s : Canonical) (channel : Channel) (delta : String) : Streaming Canonical :=
  match s.activeIndex with
  | none => .raise (.other "assert active_index is not None")
  | some index =>
    match s.partialMessage.content[index]? with
    | none => .raise (.other "list index out of range")
    | some block =>
      match channel.extend delta block with
      | none => .raise (.other "assert isinstance(block)")
      | some block => do
        let message := { s.partialMessage with content := s.partialMessage.content.set index block }
        .emit (.blockDelta channel index delta message)
        pure { s with partialMessage := message }

/-- The branch of `ProviderToolCallEvent`. -/
def call (s : Canonical) (toolCall : ToolCall) : Streaming Canonical := do
  endActiveBlock s.partialMessage s.activeIndex
  let index := s.partialMessage.content.length
  let message := { s.partialMessage with content := s.partialMessage.content ++ [.toolCall toolCall] }
  .emit (.toolCallStart index message)
  .emit (.toolCallEnd index toolCall message)
  pure { s with partialMessage := message, activeIndex := none, activeKind := none }

/-- The message of `AssistantDoneEvent`. -/
def final (s : Canonical) (api provider model : String) (message : AssistantMessage) (reason : Option String) :
    AssistantMessage :=
  let streamed := s.partialMessage.content
  let content := copyReplayMetadata (if streamed.isEmpty then message.content else streamed) message.content
  let responseProvider := if message.responseProvider.any (· ≠ "") then message.responseProvider
    else s.partialMessage.responseProvider
  { message with
    api := api, provider := provider, model := model, responseProvider := responseProvider, content := content
    stopReason := finishReason reason !(toolCallsOf content).isEmpty }

/-- The branch of `ProviderResponseEndEvent`. -/
def finish (s : Canonical) (api provider model : String) (message : AssistantMessage) (reason : Option String) :
    Streaming Canonical := do
  endActiveBlock s.partialMessage s.activeIndex
  let final := s.final api provider model message reason
  .emit (.done final.stopReason final)
  pure { s with activeIndex := none, activeKind := none, terminal := true }

/-- The branch of `ProviderErrorEvent`. -/
def fail (s : Canonical) (message : String) (data : Option (List (String × Value))) (responseProvider : Option String) :
    Streaming Canonical := do
  .emit (.error .error { s.partialMessage with
    responseProvider := if responseProvider.any (· ≠ "") then responseProvider else s.partialMessage.responseProvider
    stopReason := .error, errorMessage := some message, diagnostics := some [⟨"provider_error", data⟩] })
  pure { s with terminal := true }

/-- The loop of `canonicalize_provider_stream`, at an event. -/
def handle (api provider model : String) (s : Canonical) : ProviderEvent → Streaming Canonical
  | .retry _ _ => pure s
  | .responseStart _ responseProvider =>
    { s with partialMessage.responseProvider := responseProvider.orElse fun _ =>
      s.partialMessage.responseProvider }.start
  | .delta channel delta => do
    let s ← s.start
    let s ← s.switchTo channel
    s.append channel delta
  | .toolCall toolCall => do
    let s ← s.start
    s.call toolCall
  | .responseEnd message reason => do
    let s ← s.start
    s.finish api provider model message reason
  | .error message data responseProvider => do
    let s ← s.start
    s.fail message data responseProvider

/-- After the loop: a message that was not started is started, and one that has not ended is an error. -/
def close (s : Canonical) : Streaming Unit := do
  let s ← s.start
  if s.terminal then pure ()
  else .emit (.error .error { s.partialMessage with
    stopReason := .error, errorMessage := some "Provider stream ended without a terminal event", usage := {} })

end Canonical

/-- `canonicalize_provider_stream`. -/
def canonicalizeProviderStream (source : Gen Exc ProviderEvent Unit) (api provider model : String) : Streaming Unit :=
  do
  let s ← Gen.consume source (Canonical.handle api provider model)
    { partialMessage := { api := api, provider := provider, model := model } }
  s.close

end MyTeam.Llm
