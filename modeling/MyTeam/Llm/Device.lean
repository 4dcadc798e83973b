import MyTeam.Llm.Envelope

/-!
# The device that answers

The device asks a provider for the stream of a response, reads it to its end and answers once: with
the message, or with an error. The answer is told by what the parser has passed on: over all the
attempts that were made, no text is lost, none comes twice, and the tool calls stand in their order.
-/

namespace MyTeam.Llm

open MyTeam.Py MyTeam.Async

/-- `Usage.model_dump`, with the prices, which are never set. -/
def Usage.modelDump (usage : Usage) : Value :=
  let count (n : Option ℤ) : Value := n.elim .none .int
  let cost : Value := .dict (["input", "output", "cacheRead", "cacheWrite", "total"].map fun name => (name, .float 0))
  .dict [("input", .int usage.input), ("output", .int usage.output), ("cacheRead", .int usage.cacheRead),
    ("cacheWrite", .int usage.cacheWrite), ("cacheWrite1H", count usage.cacheWrite1h),
      ("reasoning", count usage.reasoning),
    ("totalTokens", .int usage.totalTokens), ("cost", cost)]

/-- A tool call as it is answered. -/
def ToolCall.wire (toolCall : ToolCall) : Value :=
  .dict [("id", .str toolCall.id), ("name", .str toolCall.name), ("arguments", .dict toolCall.arguments)]

/-- The payload of an answer that is a message. -/
def okPayload (content : String) (toolCalls : List ToolCall) (usage : Usage) : Value :=
  .dict [("command", .str "llm_result"), ("ok", .bool true), ("content", .str content),
    ("tool_calls", .list (toolCalls.map ToolCall.wire)), ("usage", usage.modelDump)]

/-- `_result_ok`. -/
def resultOk (message : AssistantMessage) : Value := okPayload message.text message.toolCalls message.usage

/-- `_result_error`. -/
def resultError (error : String) : Value :=
  .dict [("command", .str "llm_result"), ("ok", .bool false), ("content", .str ""), ("error", .str error)]

/-- `text or "provider error"`. -/
def errorText (text : String) : String := if text = "" then "provider error" else text

/-- The loop of `_call`, at an event. -/
def noteResult (result : Option Value) : AssistantMessageEvent → Option Value
  | .done _ message => some (resultOk message)
  | .error _ error => some (resultError (errorText error.text))
  | _ => result

/-- `_call`, for the stream of the provider. -/
def call (stream : Streaming Unit) : Except Exc Value :=
  match stream.result with
  | .ok () =>
    .ok ((stream.yielded.foldl noteResult none).getD (resultError "stream ended without a terminal event"))
  | .error error => if error.caught then .ok (resultError error.message) else .error error

/-- `stream_response`, read from a request by a parser, and answered. -/
def answer {π : Type} (request : Request) (parser : StreamParser π) (api provider : String) : Except Exc Value :=
  call (canonicalizeProviderStream (request.stream parser) api provider request.model)

section Reading

variable {r r' : Reading} {out more : List AssistantMessageEvent} {result : Option Value}

/-- Before the end of the message there is no answer. -/
theorem noteResult_of_passes (h : Passes Reads r out r') (hr' : r' ≠ .ended) :
    out.foldl noteResult result = result := by
  induction out generalizing r with
  | nil => rfl
  | cons event out ih =>
    obtain ⟨m, hreads, hpasses⟩ := h
    have hm : m ≠ .ended := by
      rintro rfl
      cases out with
      | nil => exact hr' hpasses
      | cons event out => exact not_reads_over hpasses.choose_spec.1
    have hsame : noteResult result event = result := by
      cases hreads <;> first | rfl | exact absurd rfl hm
    rw [List.foldl_cons, hsame]
    exact ih hpasses

end Reading

/-- The end of what a parser has passed on: a message that says what was said before, an error, or nothing. -/
inductive Ended : List ProviderEvent → Prop
  | broken {events} : (∀ e ∈ events, e.isTerminal = false) → Ended events
  | failed {events message data provider} : (∀ e ∈ events, e.isTerminal = false) →
      Ended (events ++ [.error message data provider])
  | complete {events message reason} : (∀ e ∈ events, e.isTerminal = false) → Gist.of message.content = gistOf events →
      Ended (events ++ [.responseEnd message reason])

/-- What is said without an end is not said by the end. -/
theorem gistOf_append_silent {before events : List ProviderEvent} (h : ∀ e ∈ before, e.isSilent = true) :
    gistOf (before ++ events) = gistOf events := by
  induction before with
  | nil => rfl
  | cons e before ih =>
    have he := h e List.mem_cons_self
    rw [← ih fun e' he' => h e' (List.mem_cons_of_mem _ he')]
    cases e with
    | responseStart model provider => rfl
    | retry attempt maxAttempts => rfl
    | delta channel delta => cases he
    | toolCall toolCall => cases he
    | responseEnd message reason => cases he
    | error message data provider => cases he

/-- Tool calls are said one after the other. -/
theorem foldl_toolCalls {gist : Gist} {toolCalls : List ToolCall} :
    (toolCalls.map ProviderEvent.toolCall).foldl Gist.add gist =
      { gist with toolCalls := gist.toolCalls ++ toolCalls } := by
  induction toolCalls generalizing gist with
  | nil => simp
  | cons toolCall rest ih => simp [ih, Gist.add]

/-- Deltas say no tool calls. -/
theorem gistOf_deltas {events : List ProviderEvent} (h : Request.Deltas events) : (gistOf events).toolCalls = [] := by
  induction events using List.reverseRecOn with
  | nil => rfl
  | append_singleton events e ih =>
    obtain ⟨channel, delta, rfl⟩ := h e (by simp)
    rw [gistOf, List.foldl_concat]
    have hbefore := ih fun e' he' => h e' (List.mem_append_left _ he')
    cases channel <;> exact hbefore

/-- What is delivered comes to its end. -/
theorem Request.Delivers.ended {request : Request} {events : List ProviderEvent} (h : request.Delivers events) :
    Ended events := by
  obtain ⟨before, last, rfl, hsilent, ⟨starts, deltas, last, rfl, hstarts, hdeltas, hends⟩, -⟩ := h
  have hopen {more : List ProviderEvent} (hmore : ∀ e ∈ more, e.isTerminal = false) :
      ∀ e ∈ before ++ (starts ++ (deltas ++ more)), e.isTerminal = false := by
    intro e he
    simp only [List.mem_append] at he
    rcases he with he | he | he | he
    · cases e <;> first | rfl | cases hsilent _ he
    · obtain ⟨model, provider, rfl⟩ := hstarts e he
      rfl
    · obtain ⟨channel, delta, rfl⟩ := hdeltas e he
      rfl
    · exact hmore e he
  cases hends with
  | nothing => exact .broken (hopen (by simp))
  | @error message data provider =>
    have hfailed : Ended (before ++ (starts ++ (deltas ++ [])) ++ [.error message data provider]) :=
      .failed (hopen (by simp))
    simpa using hfailed
  | @response toolCalls message reason hgist =>
    have hcalls : ∀ e ∈ toolCalls.map ProviderEvent.toolCall, e.isTerminal = false := by
      intro e he
      obtain ⟨toolCall, -, rfl⟩ := List.mem_map.mp he
      rfl
    have hsaid : gistOf (before ++ (starts ++ (deltas ++ toolCalls.map .toolCall))) =
        { gistOf deltas with toolCalls := toolCalls } := by
      rw [gistOf_append_silent hsilent, gistOf_append_silent hstarts.silent, gistOf, List.foldl_append, foldl_toolCalls]
      exact congrArg _ (congrArg (· ++ toolCalls) (gistOf_deltas hdeltas))
    have hcomplete : Ended
        (before ++ (starts ++ (deltas ++ toolCalls.map .toolCall)) ++ [.responseEnd message reason]) :=
      .complete (hopen hcalls) (hgist.trans hsaid.symm)
    simpa using hcomplete

section Answer

variable {s : Canonical} {r : Reading} {read : List ProviderEvent} {api provider model : String}

/-- Signatures do not change what the end of a response says. -/
theorem gist_final {message : AssistantMessage} {reason : Option String}
    (hgist : Gist.of message.content = Gist.of s.partialMessage.content) :
    Gist.of (s.final api provider model message reason).content = Gist.of message.content := by
  have hcopied (content : List Block) : Gist.of (copyReplayMetadata content message.content) = Gist.of content := by
    rw [← gist_bare, copyReplayMetadata, Canonical.bare_copySignatures, gist_bare]
  rw [Canonical.final, hcopied]
  split_ifs
  · rfl
  · exact hgist.symm

variable (api provider model) in
/-- The end of a response is the answer. -/
theorem answered_end (message : AssistantMessage) (reason : Option String) (h : s.Matches r)
    (hgist : Gist.of message.content = Gist.of s.partialMessage.content) :
    ∃ out s', s.handle api provider model (.responseEnd message reason) = ⟨out, .ok s'⟩ ∧ s'.close = ⟨[], .ok ()⟩ ∧
      out.foldl noteResult none = some (okPayload (Gist.of message.content).text (Gist.of message.content).toolCalls
        message.usage) := by
  obtain ⟨s', r', hstart, hpasses, hs, hr, hsame, -⟩ := Canonical.start_keeps h
  obtain ⟨_, _, hend, hclosed, rfl⟩ := Canonical.endActiveBlock_keeps hs hr
  have hfinal : Gist.of (s'.final api provider model message reason).content = Gist.of message.content :=
    gist_final (hsame ▸ hgist)
  have heq : s.handle api provider model (.responseEnd message reason) =
      ⟨s.start.yielded ++ ((endActiveBlock s'.partialMessage s'.activeIndex).yielded ++
        [.done (s'.final api provider model message reason).stopReason (s'.final api provider model message reason)]),
        .ok { s' with activeIndex := none, activeKind := none, terminal := true }⟩ := by
    rw [Canonical.handle, Gen.eq_of_result hstart, Gen.ok_bind, Canonical.finish, Gen.eq_of_result hend]
    rfl
  refine ⟨_, _, heq, ?_, ?_⟩
  · exact Canonical.close_of_terminal (r := .between s'.partialMessage.content)
      ⟨hs.started hr, rfl, rfl, rfl, hs.bare⟩ (by simp) rfl
  · have hover : r' ≠ .ended := by
      rintro rfl
      exact hs.elim
    rw [List.foldl_append, List.foldl_append, noteResult_of_passes hpasses hover,
      noteResult_of_passes hclosed (by simp),
      ← hfinal]
    rfl

variable (api provider model) in
/-- An error is an answer with the text that was streamed. -/
theorem answered_error (message : String) (data : Option (List (String × Value))) (responseProvider : Option String)
    (h : s.Matches r) :
    ∃ out s', s.handle api provider model (.error message data responseProvider) = ⟨out, .ok s'⟩ ∧
      s'.close = ⟨[], .ok ()⟩ ∧
      out.foldl noteResult none = some (resultError (errorText (Gist.of s.partialMessage.content).text)) := by
  obtain ⟨s', r', hstart, hpasses, hs, hr, hsame, -⟩ := Canonical.start_keeps h
  have hover : r' ≠ .ended := by
    rintro rfl
    exact hs.elim
  refine ⟨_, _, by rw [Canonical.handle, Gen.eq_of_result hstart, Gen.ok_bind]; rfl, ?_, ?_⟩
  · exact Canonical.close_of_terminal (r := r') (by cases r' <;> exact hs) hr rfl
  · rw [List.foldl_append, noteResult_of_passes hpasses hover, ← hsame]
    rfl

/-- A response without an end is an error too. -/
theorem answered_close (h : s.Matches r) (hterminal : s.terminal = false) :
    ∃ out, s.close = ⟨out, .ok ()⟩ ∧
      out.foldl noteResult none = some (resultError (errorText (Gist.of s.partialMessage.content).text)) := by
  obtain ⟨s', r', hstart, hpasses, hs, hr, hsame, hsame'⟩ := Canonical.start_keeps h
  have hover : r' ≠ .ended := by
    rintro rfl
    exact hs.elim
  refine ⟨_, by rw [Canonical.close, Gen.eq_of_result hstart, Gen.ok_bind, if_neg (by simp [hsame', hterminal])]; rfl,
    ?_⟩
  rw [List.foldl_append, noteResult_of_passes hpasses hover, ← hsame]
  rfl

variable (api provider model) in
/-- Before the end of the response there is no answer yet. -/
theorem unanswered {events : List ProviderEvent} (h : ∀ e ∈ events, e.isTerminal = false) :
    ∃ out s r, Gen.forEach (Canonical.handle api provider model)
        { partialMessage := { api := api, provider := provider, model := model } } events = ⟨out, .ok s⟩ ∧
      s.Matches r ∧ s.terminal = false ∧ Gist.of s.partialMessage.content = gistOf events ∧
      out.foldl noteResult none = none := by
  obtain ⟨out, s, hloop, hkept⟩ := Gen.forEach_invariant (translated_nil api provider model)
    (fun _ _ _ _ h => h.round) events
  rw [List.nil_append, List.nil_append] at hkept
  have hterminal : s.terminal = false := by
    by_contra hover
    obtain ⟨⟨e, he, hend⟩, -⟩ := hkept.after (Bool.not_eq_false _ ▸ hover)
    rw [h e he] at hend
    cases hend
  obtain ⟨-, hgist, r, hpasses, hs⟩ := hkept.before hterminal
  have hover : r ≠ .ended := by
    rintro rfl
    exact hs.elim
  exact ⟨out, s, r, hloop, hs, hterminal, hgist, noteResult_of_passes hpasses hover⟩

/-- The answer to what a parser has passed on. -/
def answerTo (events : List ProviderEvent) : Value :=
  match events.getLast? with
  | some (.responseEnd message _) => okPayload (gistOf events).text (gistOf events).toolCalls message.usage
  | _ => resultError (errorText (gistOf events).text)

/-- Without an end the answer is an error. -/
theorem answerTo_of_open {events : List ProviderEvent} (h : ∀ e ∈ events, e.isTerminal = false) :
    answerTo events = resultError (errorText (gistOf events).text) := by
  unfold answerTo
  split
  case h_1 message reason hlast =>
    have hopen := h _ (List.mem_of_getLast? hlast)
    cases hopen
  case h_2 => rfl

/-- The device answers with what was passed on, or with what was raised. -/
theorem call_of_ended {source : Gen Exc ProviderEvent Unit} (h : Ended source.yielded) :
    call (canonicalizeProviderStream source api provider model) =
      match source.result with
      | .ok () => .ok (answerTo source.yielded)
      | .error error => if error.caught then .ok (resultError error.message) else .error error := by
  obtain ⟨events, result⟩ := source
  have hraised := canonical_result ⟨events, result⟩ api provider model
  cases result with
  | error error => rw [call, hraised]
  | ok =>
    rw [call, hraised]
    dsimp only at h ⊢
    have hstream {out more : List AssistantMessageEvent} {s : Canonical}
        (hloop : Gen.forEach (Canonical.handle api provider model)
          { partialMessage := { api := api, provider := provider, model := model } } events = ⟨out, .ok s⟩)
        (hclose : s.close = ⟨more, .ok ()⟩) :
        (canonicalizeProviderStream ⟨events, .ok ()⟩ api provider model).yielded = out ++ more := by
      rw [canonicalizeProviderStream, Gen.consume, hloop, Gen.ok_bind, Gen.ofExcept_eq, Except.map, List.append_nil,
        Gen.ok_bind, hclose]
    cases h with
    | broken hopen =>
      obtain ⟨out, s, r, hloop, hs, hterminal, hgist, hnone⟩ := unanswered api provider model hopen
      obtain ⟨more, hclose, hanswer⟩ := answered_close hs hterminal
      rw [hstream hloop hclose, List.foldl_append, hnone, hanswer, hgist, answerTo_of_open hopen]
      rfl
    | @failed events message data responseProvider hopen =>
      obtain ⟨out, s, r, hloop, hs, -, hgist, hnone⟩ := unanswered api provider model hopen
      obtain ⟨more, s', hhandle, hclose, hanswer⟩ := answered_error api provider model message data responseProvider hs
      have hall := Gen.forEach_append [.error message data responseProvider] hloop
      rw [Gen.ok_bind, Gen.forEach_cons, hhandle] at hall
      rw [hstream hall hclose]
      simp only [Gen.ok_bind, Gen.forEach_nil, Gen.pure_yielded, List.append_nil, List.foldl_append, hnone, hanswer,
        hgist]
      simp [answerTo, gistOf, Gist.add]
    | @complete events message reason hopen hsame =>
      obtain ⟨out, s, r, hloop, hs, -, hgist, hnone⟩ := unanswered api provider model hopen
      obtain ⟨more, s', hhandle, hclose, hanswer⟩ := answered_end api provider model message reason hs
        (hsame.trans hgist.symm)
      have hall := Gen.forEach_append [.responseEnd message reason] hloop
      rw [Gen.ok_bind, Gen.forEach_cons, hhandle] at hall
      rw [hstream hall hclose]
      simp only [Gen.ok_bind, Gen.forEach_nil, Gen.pure_yielded, List.append_nil, List.foldl_append, hnone, hanswer,
        hsame]
      simp [answerTo, gistOf, Gist.add]

/-- With either parser and whatever the transport does: if the stream returns, the answer has the text and the tool
calls that were passed on, over all attempts, and it is a message exactly if the stream ended with one. -/
theorem answer_eq (json : JsonModule) (request : Request) (api provider : String) :
    (answer request (chatStreamParser json) api provider =
      match (request.stream (chatStreamParser json)).result with
      | .ok () => .ok (answerTo (request.stream (chatStreamParser json)).yielded)
      | .error error => if error.caught then .ok (resultError error.message) else .error error) ∧
    answer request (responsesStreamParser json) api provider =
      match (request.stream (responsesStreamParser json)).result with
      | .ok () => .ok (answerTo (request.stream (responsesStreamParser json)).yielded)
      | .error error => if error.caught then .ok (resultError error.message) else .error error := by
  have hchat := Request.delivers request (ChatStreamParser.lawful json)
  have hresponses := Request.delivers request (ResponsesStreamParser.lawful json)
  exact ⟨call_of_ended hchat.ended, call_of_ended hresponses.ended⟩

end Answer

end MyTeam.Llm
