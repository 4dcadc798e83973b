import MyTeam.Llm.Device

/-!
# The stream of a messages request

The messages endpoint streams a response as blocks that are opened, extended and closed. An error in the
stream that will pass is treated like a broken connection: if nothing was said yet the request is made
again. So this provider too answers once, with all that was said, however often it had to ask.
-/

namespace MyTeam.Llm

open MyTeam.Py MyTeam.Async

/-- `_string_or_empty`. -/
def stringOrEmpty : Value → String
  | .str s => s
  | _ => ""

/-- `_loads_object` of the Anthropic adapter. -/
def messagesLoadsObject (json : JsonModule) (text : String) : Except Exc (Option Value) :=
  match json.loads text with
  | .value (.dict items) => .ok (some (.dict items))
  | .value _ | .invalid | .raised (.valueError _) => .ok none
  | .raised error => .error error

/-- `_parse_sse_line` of the Anthropic adapter. -/
def messagesParseSseLine (line : String) : Option String :=
  if "data:".toList.isPrefixOf line.toList then some (.ofList (strip (line.toList.drop 5))) else none

/-- `_AnthropicToolBuilder`. -/
structure AnthropicToolBuilder where
  id : String := ""
  name : String := ""
  argumentsParts : List String := []

/-- `build`. -/
def AnthropicToolBuilder.build (json : JsonModule) (builder : AnthropicToolBuilder)
    (index : ℤ) : Except Exc ToolCall := do
  let arguments := String.join builder.argumentsParts
  let loaded ← if arguments = "" then pure (some (.dict [])) else messagesLoadsObject json arguments
  let items := match loaded with
    | some (.dict items) => items
    | _ => [("_raw_arguments", .str arguments)]
  pure { id := if builder.id = "" then s!"tool-call-{index}" else builder.id, name := builder.name, arguments := items }

/-- `usage.total_tokens = ...`. -/
def Usage.summed (usage : Usage) : Usage :=
  { usage with totalTokens := usage.input + usage.output + usage.cacheRead + usage.cacheWrite }

/-- `_usage_from_message_start`. -/
def usageFromMessageStart (raw : Value) : Usage :=
  Usage.summed
    { input := intOrZero (raw.field "input_tokens"), output := intOrZero (raw.field "output_tokens")
      cacheRead := intOrZero (raw.field "cache_read_input_tokens")
      cacheWrite := intOrZero (raw.field "cache_creation_input_tokens")
      cacheWrite1h := intOrNone ((raw.field "cache_creation").field "ephemeral_1h_input_tokens") }

/-- `_apply_message_delta_usage`. -/
def applyMessageDeltaUsage (usage : Option Usage) (raw : Value) : Option Usage :=
  if raw.isDict then
    let usage := usage.getD {}
    let reported (key : String) (old : ℤ) : ℤ := (intOrNone (raw.field key)).getD old
    some (Usage.summed
      { usage with
        input := reported "input_tokens" usage.input, output := reported "output_tokens" usage.output
        cacheRead := reported "cache_read_input_tokens" usage.cacheRead
        cacheWrite := reported "cache_creation_input_tokens" usage.cacheWrite
        reasoning := (intOrNone ((raw.field "output_tokens_details").field "thinking_tokens")).or usage.reasoning })
  else usage

/-- `_anthropic_stream_error_details`. -/
def anthropicStreamErrorDetails (event : Value) : String × String :=
  let error := event.field "error"
  let message := stringOrEmpty (error.field "message")
  (stringOrEmpty (error.field "type"), if message = "" then "Provider returned an error" else message)

/-- `_retryable_anthropic_stream_error`. Beyond the ASCII letters only the sign for kelvin is lowered to one of them,
a `k`. -/
def retryableAnthropicStreamError (errorType : String) : Bool :=
  errorType.toLower ∈ ["api_error", "overloaded_error", "rate_limit_error"]

/-- What an attempt has gathered. -/
structure MessageStream where
  emittedContent : Bool := false
  contentParts : List String := []
  thinkingParts : List String := []
  thinkingSignature : Option String := none
  toolBuilders : List (ℤ × AnthropicToolBuilder) := []
  finishReason : Option String := none
  usage : Option Usage := none

namespace MessageStream

/-- `tool_builders.setdefault(index, _AnthropicToolBuilder())`, changed. -/
def alter (p : MessageStream) (index : ℤ) (change : AnthropicToolBuilder → AnthropicToolBuilder) : MessageStream :=
  { p with
    toolBuilders := assign index (change ((p.toolBuilders.lookup index).getD {})) p.toolBuilders, emittedContent :=
      true }

/-- `int(chunk.get("index", 0))`. -/
def indexOf (chunk : Value) : Except Exc ℤ := chunk.get "index" (.int 0) >>= intOf

/-- A `content_block_start`. -/
def startBlock (p : MessageStream) (chunk : Value) : Except Exc MessageStream :=
  let block := chunk.field "content_block"
  if (block.field "type").isStr "tool_use" then do
    let index ← indexOf chunk
    pure (p.alter index fun builder =>
      { builder with id := stringOrEmpty (block.field "id"), name := stringOrEmpty (block.field "name") })
  else pure p

/-- A `content_block_delta`. -/
def extendBlock (p : MessageStream) (chunk : Value) : Except Exc (MessageStream × List ProviderEvent) :=
  let delta := chunk.field "delta"
  match delta.field "type" with
  | .str "text_delta" =>
    let text := stringOrEmpty (delta.field "text")
    if text = "" then pure (p, [])
    else pure ({ p with emittedContent := true, contentParts := p.contentParts ++ [text] }, [.delta .text text])
  | .str "thinking_delta" =>
    let thinking := stringOrEmpty (delta.field "thinking")
    if thinking = "" then pure (p, [])
    else pure ({ p with emittedContent := true, thinkingParts := p.thinkingParts ++ [thinking] },
      [.delta .thinking thinking])
  | .str "signature_delta" =>
    let signature := stringOrEmpty (delta.field "signature")
    if signature = "" then pure (p, [])
    else pure ({ p with thinkingSignature := some (p.thinkingSignature.getD "" ++ signature) }, [])
  | .str "input_json_delta" => do
    let index ← indexOf chunk
    let part := stringOrEmpty (delta.field "partial_json")
    pure (p.alter index fun builder => { builder with argumentsParts := builder.argumentsParts ++ [part] }, [])
  | _ => pure (p, [])

/-- A `message_delta`. -/
def noteDelta (p : MessageStream) (chunk : Value) : MessageStream :=
  let reason := stringOrEmpty ((chunk.field "delta").field "stop_reason")
  { p with
    finishReason := if reason = "" then p.finishReason else some reason
    usage := applyMessageDeltaUsage p.usage (chunk.field "usage") }

/-- A chunk that is no error. -/
def feed (p : MessageStream) (chunk : Value) : Except Exc (MessageStream × List ProviderEvent) :=
  match chunk.field "type" with
  | .str "message_start" =>
    let message := chunk.field "message"
    pure (if message.isDict then { p with usage := some (usageFromMessageStart (message.field "usage")) } else p, [])
  | .str "content_block_start" => do pure (← p.startBlock chunk, [])
  | .str "content_block_delta" => p.extendBlock chunk
  | .str "message_delta" => pure (p.noteDelta chunk, [])
  | _ => pure (p, [])

/-- The tool calls at the end. -/
def toolCalls (json : JsonModule) (p : MessageStream) : Except Exc (List ToolCall) :=
  (p.toolBuilders.mergeSort fun x y => x.1 ≤ y.1).mapM fun item => item.2.build json item.1

/-- The events at the end. -/
def finalize (json : JsonModule) (p : MessageStream) : Except Exc (List ProviderEvent) := do
  let toolCalls ← p.toolCalls json
  pure (toolCalls.map .toolCall ++ [.responseEnd
    { content := finalContent (String.join p.contentParts) p.thinkingParts p.thinkingSignature toolCalls
      usage := p.usage.getD {} } p.finishReason])

end MessageStream

/-- How the lines of a response end. -/
inductive MessageReading
  | returned
  | passing
  | complete (p : MessageStream)

namespace Request

variable (request : Request) (json : JsonModule) (attempt : ℕ)

/-- The loop over the lines of a messages response. -/
def readMessages (ending : Except Failure Unit) :
    MessageStream → List Line → Gen (Failure × MessageStream) ProviderEvent MessageReading
  | p, [] =>
    match ending with
    | .ok () => pure (.complete p)
    | .error failure => .raise (failure, p)
  | p, line :: rest =>
    if line.cancelled then pure .returned
    else
      match messagesParseSseLine line.text with
      | none => readMessages ending p rest
      | some event =>
        match messagesLoadsObject json event with
        | .error error => .raise (.raised error, p)
        | .ok none => do
          .emit (.error "Provider returned invalid JSON chunk" none)
          pure .returned
        | .ok (some chunk) =>
          if (chunk.field "type").isStr "error" then
            let (errorType, message) := anthropicStreamErrorDetails chunk
            if !p.emittedContent && request.shouldRetry attempt none && retryableAnthropicStreamError errorType then
              pure .passing
            else do
              .emit (.error message (some [("event", chunk), ("attempts", .int (attempt + 1))]))
              pure .returned
          else
            match p.feed chunk with
            | .error error => .raise (.raised error, p)
            | .ok (next, events) => do
              .emitAll events
              readMessages ending next rest

/-- The body of `try` for a messages request. -/
def messagesExchange : Exchange → Gen (Failure × MessageStream) ProviderEvent Verdict
  | .failed failure => .raise (failure, {})
  | .answered response =>
    if 400 ≤ response.status then request.refuse {} attempt { response with providerHeader := none }
    else do
      .emit (.responseStart request.model none)
      match ← request.readMessages json attempt response.ending {} response.lines with
      | .returned => pure .finished
      | .passing =>
        .emit (.retry (attempt + 2) (request.maxRetries + 1))
        pure .again
      | .complete p =>
        match p.finalize json with
        | .error error => .raise (.raised error, p)
        | .ok events =>
          .emitAll events
          pure .finished

end Request

namespace MessageStream

variable {p p' : MessageStream} {chunk : Value} {events : List ProviderEvent}

/-- The text and the thinking that were passed on. -/
def said (p : MessageStream) : Gist := { text := String.join p.contentParts, thinking := String.join p.thinkingParts }

/-- What a chunk does: it passes on deltas, and nothing if nothing is emitted. -/
structure Fed (p p' : MessageStream) (events : List ProviderEvent) : Prop where
  said : p'.said = events.foldl Gist.add p.said
  deltas : Request.Deltas events
  emitted : p'.emittedContent = false → p.emittedContent = false ∧ events = []

/-- Nothing is passed on. -/
theorem Fed.quiet (hsaid : p'.said = p.said) (hemitted : p'.emittedContent = false → p.emittedContent = false) :
    Fed p p' [] :=
  ⟨hsaid, by simp [Request.Deltas], fun h => ⟨hemitted h, rfl⟩⟩

/-- A delta is passed on. -/
theorem Fed.spoken {channel : Channel} {delta : String} (hsaid : p'.said = p.said.add (.delta channel delta))
    (hemitted : p'.emittedContent = true) : Fed p p' [.delta channel delta] :=
  ⟨hsaid, fun _ he => ⟨channel, delta, List.mem_singleton.mp he⟩,
    fun h => absurd (hemitted.symm.trans h) Bool.false_ne_true.symm⟩

/-- A delta of a block. -/
theorem fed_extendBlock (h : p.extendBlock chunk = .ok (p', events)) : Fed p p' events := by
  unfold extendBlock at h
  dsimp only at h
  split at h
  · split_ifs at h
    · cases h
      exact .quiet rfl id
    · cases h
      exact .spoken (by simp [MessageStream.said, Gist.add, String.join_append]) rfl
  · split_ifs at h
    · cases h
      exact .quiet rfl id
    · cases h
      exact .spoken (by simp [MessageStream.said, Gist.add, String.join_append]) rfl
  · split_ifs at h
    · cases h
      exact .quiet rfl id
    · cases h
      exact .quiet rfl id
  · obtain ⟨index, -, hreturn⟩ := bind_eq_ok.mp h
    cases hreturn
    exact .quiet rfl fun h => by cases h
  · cases h
    exact .quiet rfl id

/-- A chunk. -/
theorem fed_feed (h : p.feed chunk = .ok (p', events)) : Fed p p' events := by
  unfold feed at h
  split at h
  · cases h
    split_ifs
    · exact .quiet rfl id
    · exact .quiet rfl id
  · obtain ⟨next, hstart, hreturn⟩ := bind_eq_ok.mp h
    cases hreturn
    unfold startBlock at hstart
    dsimp only at hstart
    split_ifs at hstart
    · obtain ⟨index, -, hreturn⟩ := bind_eq_ok.mp hstart
      cases hreturn
      exact .quiet rfl fun h => by cases h
    · cases hstart
      exact .quiet rfl id
  · exact fed_extendBlock h
  · cases h
    exact .quiet rfl id
  · cases h
    exact .quiet rfl id

/-- The end of a response says what was said before. -/
theorem finalize_ends {json : JsonModule} (h : p.finalize json = .ok events) : Request.Ends p.said events := by
  obtain ⟨toolCalls, -, hreturn⟩ := bind_eq_ok.mp h
  cases hreturn
  exact .response gist_finalContent

end MessageStream

namespace Request

variable {request : Request} {json : JsonModule} {attempt : ℕ}

/-- What the lines of a messages response yield: deltas, which are remembered, and an error if the response fails. What
will pass does so only if nothing was said and there are retries left. -/
inductive MessagesRead (request : Request) (attempt : ℕ) (p : MessageStream) :
    Gen (Failure × MessageStream) ProviderEvent MessageReading → Prop
  | cancelled {events} : Deltas events → MessagesRead request attempt p ⟨events, .ok .returned⟩
  | failed {events message data} : Deltas events →
      MessagesRead request attempt p ⟨events ++ [.error message data], .ok .returned⟩
  | passing : p.emittedContent = false → (attempt : ℤ) < request.maxRetries →
      MessagesRead request attempt p ⟨[], .ok .passing⟩
  | complete {events next} : Deltas events → next.said = events.foldl Gist.add p.said →
      MessagesRead request attempt p ⟨events, .ok (.complete next)⟩
  | broken {events failure next} : Deltas events →
      (next.emittedContent = false → p.emittedContent = false ∧ events = []) →
      MessagesRead request attempt p ⟨events, .error (failure, next)⟩

/-- What comes after a chunk. -/
theorem MessagesRead.after {p next : MessageStream} {events : List ProviderEvent}
    {rest : Gen (Failure × MessageStream) ProviderEvent MessageReading} (hrest : MessagesRead request attempt next rest)
    (hfed : MessageStream.Fed p next events) :
    MessagesRead request attempt p ⟨events ++ rest.yielded, rest.result⟩ := by
  cases hrest with
  | cancelled h => exact .cancelled (hfed.deltas.append h)
  | failed h =>
    rw [← List.append_assoc]
    exact .failed (hfed.deltas.append h)
  | passing hnot hlt =>
    obtain ⟨hstart, rfl⟩ := hfed.emitted hnot
    exact .passing hstart hlt
  | complete h hnext =>
    refine .complete (hfed.deltas.append h) ?_
    rw [hnext, hfed.said, List.foldl_append]
  | broken h hnext =>
    refine .broken (hfed.deltas.append h) fun hnot => ?_
    obtain ⟨hbefore, hnil⟩ := hnext hnot
    obtain ⟨hstart, hfirst⟩ := hfed.emitted hbefore
    exact ⟨hstart, by rw [hfirst, hnil, List.append_nil]⟩

variable (request json attempt) in
/-- The lines of a messages response. -/
theorem read_messages (ending : Except Failure Unit) (lines : List Line) (p : MessageStream) :
    MessagesRead request attempt p (request.readMessages json attempt ending p lines) := by
  have hnone : Deltas [] := fun e he => by cases he
  induction lines generalizing p with
  | nil =>
    unfold readMessages
    cases ending with
    | ok => exact .complete hnone rfl
    | error failure => exact .broken hnone fun hnot => ⟨hnot, rfl⟩
  | cons line rest ih =>
    unfold readMessages
    split_ifs with hcancelled
    · exact .cancelled hnone
    cases hline : messagesParseSseLine line.text with
    | none => exact ih p
    | some event =>
      dsimp only
      cases hloaded : messagesLoadsObject json event with
      | error error => exact .broken hnone fun hnot => ⟨hnot, rfl⟩
      | ok loaded =>
        cases loaded with
        | none => exact .failed hnone
        | some chunk =>
          dsimp only
          split_ifs with herror hretry
          · obtain ⟨hquiet, -⟩ := Bool.and_eq_true_iff.mp hretry
            obtain ⟨hnot, hmore⟩ := Bool.and_eq_true_iff.mp hquiet
            exact .passing (by simpa using hnot) (lt_of_shouldRetry request hmore)
          · exact .failed hnone
          · cases hfeed : p.feed chunk with
            | error error => exact .broken hnone fun hnot => ⟨hnot, rfl⟩
            | ok fed =>
              obtain ⟨next, events⟩ := fed
              dsimp only
              rw [Gen.emitAll_eq, Gen.ok_bind]
              exact (ih next).after (MessageStream.fed_feed hfeed)

variable (request json attempt) in
/-- An exchange of a messages request. -/
theorem tried_messages (exchange : Exchange) :
    Tried request MessageStream.emittedContent attempt (request.messagesExchange json attempt exchange) := by
  have hnone : Deltas [] := fun e he => by cases he
  cases exchange with
  | failed failure =>
    have hstarts : Starts [] := fun e he => by cases he
    exact .broken hstarts hnone fun _ _ _ => rfl
  | answered response =>
    unfold messagesExchange
    dsimp only
    split_ifs with hstatus
    · exact tried_refuse request
    have hstart : Starts [.responseStart request.model none] := fun e he => ⟨_, _, List.mem_singleton.mp he⟩
    rw [Gen.emit_eq, Gen.ok_bind]
    have hread := read_messages request json attempt response.ending response.lines {}
    generalize request.readMessages json attempt response.ending {} response.lines = read at hread
    cases hread with
    | @cancelled events hdeltas => exact .finished ⟨_, events, [], by simp, hstart, hdeltas, .nothing⟩
    | @failed events message data hdeltas =>
      exact .finished ⟨_, events, [.error message data], by simp, hstart, hdeltas, .error⟩
    | passing hnot hlt => exact .again hstart hlt
    | @broken events failure next hdeltas hquiet => exact .broken hstart hdeltas fun _ _ hnot => (hquiet hnot).2
    | @complete events next hdeltas hsaid =>
      simp only [Gen.ok_bind]
      cases hfinal : next.finalize json with
      | error error =>
        dsimp only
        rw [Gen.raise_eq, List.append_nil]
        exact .broken hstart hdeltas fun _ hnetwork => by cases hnetwork
      | ok final =>
        have hends := MessageStream.finalize_ends hfinal
        rw [hsaid] at hends
        exact .finished ⟨_, events, final, by simp, hstart, hdeltas, hends⟩

/-- A messages request that was answered is made again only if there are retries left. -/
theorem lt_of_messages_again {exchange : Exchange}
    (h : (request.messagesExchange json attempt exchange).result = .ok .again) :
    (attempt : ℤ) < request.maxRetries := by
  have htried := tried_messages request json attempt exchange
  generalize request.messagesExchange json attempt exchange = tried at h htried
  cases htried with
  | finished _ => cases h
  | again _ hlt => exact hlt
  | broken _ _ _ => cases h

/-- An attempt of a messages request. -/
def messagesOnce (request : Request) (json : JsonModule) (attempt : ℕ) : Gen Exc ProviderEvent Verdict :=
  request.guarded MessageStream.emittedContent attempt
    (request.messagesExchange json attempt (request.exchange attempt))

/-- `_stream_provider_events`. -/
def messagesStream (request : Request) (json : JsonModule) : Gen Exc ProviderEvent Unit :=
  request.attempts (request.messagesOnce json) (fun _ => lt_of_guarded_again request lt_of_messages_again) 0

/-- Whatever the transport does, a messages request is answered once, also when the stream reports an error that will
pass; and the device answers with all that was passed on. -/
theorem delivers_messagesStream (json : JsonModule) (request : Request) :
    Delivers request (request.messagesStream json).yielded ∧
      call (canonicalizeProviderStream (request.messagesStream json) "anthropic-messages" "anthropic" request.model) =
        match (request.messagesStream json).result with
        | .ok () => .ok (answerTo (request.messagesStream json).yielded)
        | .error error => if error.caught then .ok (resultError error.message) else .error error := by
  have hdelivers : Delivers request (request.messagesStream json).yielded :=
    delivers_attempts request fun attempt => (tried_messages request json attempt (request.exchange attempt)).attempted
  exact ⟨hdelivers, call_of_ended hdelivers.ended⟩

end Request

end MyTeam.Llm
