import MyTeam.Llm.Parsers
import MyTeam.Llm.Reading

/-!
# What the parsers pass on

A parser says at the end what it has passed on before: the message with which a response ends has
the text and the thinking of the deltas, and the tool calls that come just before it. As long as
nothing has been passed on the parser knows it, so that the request can be made again.
-/

namespace MyTeam.Llm

open MyTeam.Py MyTeam.Async

/-- The laws of a parser, with what it has passed on, and what holds of it as long as it has not failed. -/
structure StreamParser.Lawful {π : Type} (parser : StreamParser π) (said : π → Gist) (sane : π → Prop) : Prop where
  said_fresh : said parser.fresh = {}
  sane_fresh : sane parser.fresh
  fatal_fresh : parser.fatal parser.fresh = false
  feed_sane : ∀ {p p' event events stop}, sane p → parser.feed p event = .ok (p', events, stop) →
    parser.fatal p' = false → sane p'
  feed_said : ∀ {p p' event events stop}, sane p → parser.feed p event = .ok (p', events, stop) →
    parser.fatal p' = false → said p' = events.foldl Gist.add (said p)
  feed_deltas : ∀ {p p' event events stop}, sane p → parser.feed p event = .ok (p', events, stop) →
    parser.fatal p' = false → ∀ e ∈ events, ∃ channel delta, e = .delta channel delta
  feed_emitted : ∀ {p p' event events stop}, sane p → parser.feed p event = .ok (p', events, stop) →
    parser.fatal p' = false → parser.emittedContent p' = false → parser.emittedContent p = false ∧ events = []
  feed_fatal : ∀ {p p' event events stop}, sane p → parser.feed p event = .ok (p', events, stop) →
    parser.fatal p' = true → stop = true ∧ ∃ message data, events = [.error message data]
  finalize_ends : ∀ {p events}, sane p → parser.finalize p = .ok events → ∃ toolCalls message reason,
    events = toolCalls.map .toolCall ++ [.responseEnd message reason] ∧
      Gist.of message.content = { said p with toolCalls := toolCalls }

section Content

variable {text : String} {thinkingParts : List String} {signature : Option String} {toolCalls : List ToolCall}

variable (toolCalls) in
/-- The tool calls of blocks that are tool calls. -/
theorem gist_toolCalls : Gist.of (toolCalls.map .toolCall) = { toolCalls := toolCalls } := by
  induction toolCalls with
  | nil => rfl
  | cons toolCall rest ih =>
    simp only [Gist.of, textOf, thinkingOf, toolCallsOf, Gist.mk.injEq] at ih ⊢
    simpa [List.filterMap_cons, Block.text?, Block.thinking?, Block.toolCall?] using ih

/-- The final content says what was gathered. -/
theorem gist_finalContent : Gist.of (finalContent text thinkingParts signature toolCalls) =
    { text := text, thinking := String.join thinkingParts, toolCalls := toolCalls } := by
  have hcalls := gist_toolCalls toolCalls
  simp only [Gist.of, textOf, thinkingOf, toolCallsOf, Gist.mk.injEq] at hcalls ⊢
  obtain ⟨htext, hthinking, hcall⟩ := hcalls
  simp only [finalContent, assistantContent, List.filterMap_append, String.join_append, htext, hthinking, hcall]
  by_cases hparts : thinkingParts = [] <;> by_cases hempty : text = "" <;>
    simp [hparts, hempty, List.filterMap_cons, Block.text?, Block.thinking?, Block.toolCall?]

end Content

namespace ChatStreamParser

variable {json : JsonModule} {p p' : ChatStreamParser} {delta chunk : Value} {event : String}
  {events : List ProviderEvent} {stop : Bool}

/-- The text and the thinking that were passed on. -/
def said (p : ChatStreamParser) : Gist :=
  { text := String.join p.contentParts, thinking := String.join p.thinkingParts }

/-- What a part of `feed` does: it passes on deltas, and nothing if nothing is emitted. -/
structure Fed (p p' : ChatStreamParser) (events : List ProviderEvent) : Prop where
  fatal : p'.fatal = p.fatal
  said : p'.said = events.foldl Gist.add p.said
  deltas : ∀ e ∈ events, ∃ channel delta, e = .delta channel delta
  emitted : p'.emittedContent = false → p.emittedContent = false ∧ events = []

/-- Nothing is passed on. -/
theorem Fed.quiet (hfatal : p'.fatal = p.fatal) (hsaid : p'.said = p.said)
    (hemitted : p'.emittedContent = false → p.emittedContent = false) : Fed p p' [] :=
  ⟨hfatal, hsaid, by simp, fun h => ⟨hemitted h, rfl⟩⟩

/-- One part after the other. -/
theorem Fed.trans {p'' : ChatStreamParser} {more : List ProviderEvent} (h : Fed p p' events) (h' : Fed p' p'' more) :
    Fed p p'' (events ++ more) where
  fatal := h'.fatal.trans h.fatal
  said := by rw [h'.said, h.said, List.foldl_append]
  deltas e he := by
    rcases List.mem_append.mp he with hfirst | hsecond
    · exact h.deltas e hfirst
    · exact h'.deltas e hsecond
  emitted hnot := by
    obtain ⟨hmiddle, rfl⟩ := h'.emitted hnot
    obtain ⟨hstart, rfl⟩ := h.emitted hmiddle
    exact ⟨hstart, rfl⟩

/-- Text is passed on. -/
theorem fed_content : Fed p (p.feedContent delta).1 (p.feedContent delta).2 := by
  unfold feedContent
  cases nonemptyStr (delta.field "content") with
  | none => exact .quiet rfl rfl id
  | some text =>
    refine ⟨rfl, ?_, fun e he => ⟨.text, text, List.mem_singleton.mp he⟩, fun h => by cases h⟩
    simp [ChatStreamParser.said, Gist.add, String.join_append]

/-- Thinking is passed on. -/
theorem fed_thinking : Fed p (p.feedThinking delta).1 (p.feedThinking delta).2 := by
  unfold feedThinking
  cases thinkingDelta delta with
  | none => exact .quiet rfl rfl id
  | some entry =>
    refine ⟨rfl, ?_, fun e he => ⟨.thinking, entry.2, List.mem_singleton.mp he⟩, fun h => by cases h⟩
    simp [ChatStreamParser.said, Gist.add, String.join_append]

/-- A fragment of a tool call is kept back. -/
theorem fed_toolCall {call : Value} (h : p.feedToolCall call = .ok p') : Fed p p' [] := by
  obtain ⟨index, -, hbuild⟩ := bind_eq_ok.mp h
  cases hbuild
  exact .quiet rfl rfl fun h => by cases h

/-- All fragments of a chunk are kept back. -/
theorem fed_toolCalls {calls : List Value} (h : calls.foldlM feedToolCall p = .ok p') : Fed p p' [] := by
  induction calls generalizing p with
  | nil =>
    cases h
    exact .quiet rfl rfl id
  | cons call calls ih =>
    rw [List.foldlM_cons] at h
    obtain ⟨next, hcall, hrest⟩ := bind_eq_ok.mp h
    exact (fed_toolCall hcall).trans (ih hrest)

/-- The delta of a choice. -/
theorem fed_delta (h : p.feedDelta delta = .ok (p', events, stop)) : Fed p p' events := by
  obtain ⟨last, hcalls, hreturn⟩ := bind_eq_ok.mp h
  cases hreturn
  simpa using (fed_content.trans fed_thinking).trans (fed_toolCalls hcalls)

/-- The usage is not passed on. -/
theorem fed_usage {usage : Value} : Fed p (p.takeUsage usage) [] := by
  unfold takeUsage
  split_ifs
  · exact .quiet rfl rfl id
  · exact .quiet rfl rfl id

/-- The finish reason is not passed on. -/
theorem fed_choice {usage choice : Value} : Fed p (p.noteChoice usage choice) [] := by
  unfold noteChoice
  split_ifs
  · exact .quiet rfl rfl id
  · exact fed_usage.trans (.quiet rfl rfl id)

/-- A chunk. -/
theorem fed_chunk (h : p.feedChunk chunk = .ok (p', events, stop)) : Fed p p' events := by
  unfold feedChunk at h
  cases hchoice : firstChoice chunk with
  | none =>
    rw [hchoice] at h
    cases h
    exact fed_usage
  | some choice =>
    rw [hchoice] at h
    dsimp only at h
    split_ifs at h
    · exact (fed_usage.trans fed_choice).trans (fed_delta h)
    · cases h
      exact fed_usage.trans fed_choice

/-- What `feed` does with a text: unless it fails it passes on deltas, and it fails with an error alone. -/
theorem fed_feed (h : feed json p event = .ok (p', events, stop)) :
    Fed p p' events ∨ p'.fatal = true ∧ stop = true ∧ ∃ message data, events = [.error message data] := by
  unfold feed at h
  split_ifs at h
  · cases h
    exact .inl (.quiet rfl rfl id)
  · obtain ⟨loaded, -, hrest⟩ := bind_eq_ok.mp h
    cases loaded with
    | none =>
      cases hrest
      exact .inr ⟨rfl, rfl, _, _, rfl⟩
    | some chunk => exact .inl (fed_chunk hrest)

/-- The parser of chat completions keeps the laws. -/
theorem lawful (json : JsonModule) : (chatStreamParser json).Lawful said fun p => p.fatal = false where
  said_fresh := rfl
  sane_fresh := rfl
  fatal_fresh := rfl
  feed_sane _ _ hfatal := hfatal
  feed_said sane h hfatal := by
    rcases fed_feed h with hfed | ⟨hfailed, -⟩
    · exact hfed.said
    · exact absurd (hfatal.symm.trans hfailed) Bool.false_ne_true
  feed_deltas sane h hfatal := by
    rcases fed_feed h with hfed | ⟨hfailed, -⟩
    · exact hfed.deltas
    · exact absurd (hfatal.symm.trans hfailed) Bool.false_ne_true
  feed_emitted sane h hfatal := by
    rcases fed_feed h with hfed | ⟨hfailed, -⟩
    · exact hfed.emitted
    · exact absurd (hfatal.symm.trans hfailed) Bool.false_ne_true
  feed_fatal sane h hfatal := by
    rcases fed_feed h with hfed | ⟨-, hends⟩
    · exact absurd (sane.symm.trans (hfed.fatal.symm.trans hfatal)) Bool.false_ne_true
    · exact hends
  finalize_ends sane h := by
    obtain ⟨toolCalls, -, hrest⟩ := bind_eq_ok.mp h
    obtain ⟨reason, -, hreturn⟩ := bind_eq_ok.mp hrest
    cases hreturn
    exact ⟨toolCalls, _, reason, rfl, gist_finalContent⟩

/-- The fragments of tool calls in the data of an event, with their indices. -/
def fragments (json : JsonModule) (event : String) : List (ℤ × Value) :=
  if event = "[DONE]" then []
  else
    match loadsObject json event with
    | .ok (some chunk) =>
      match firstChoice chunk with
      | some choice => (toolCallDeltas (choice.field "delta")).filterMap fun call =>
        (indexOf call).toOption.map fun i => (i, call)
      | none => []
    | _ => []

/-- The parser after some events. -/
def feedAll (json : JsonModule) (p : ChatStreamParser) (events : List String) : Except Exc ChatStreamParser :=
  events.foldlM (fun p event => (feed json p event).map Prod.fst) p

/-- The fragments of a delta are gathered. -/
theorem builders_toolCalls {calls : List Value} (h : calls.foldlM feedToolCall p = .ok p') :
    p'.toolCallBuilders = (calls.filterMap fun call => (indexOf call).toOption.map fun i => (i, call)).foldl
      (gather ToolCallBuilder.addDelta {}) p.toolCallBuilders := by
  induction calls generalizing p with
  | nil =>
    cases h
    rfl
  | cons call calls ih =>
    rw [List.foldlM_cons] at h
    obtain ⟨next, hcall, hrest⟩ := bind_eq_ok.mp h
    obtain ⟨index, hindex, hbuild⟩ := bind_eq_ok.mp hcall
    cases hbuild
    rw [ih hrest, List.filterMap_cons, hindex]
    rfl

/-- The usage has nothing to do with the tool calls. -/
theorem builders_usage {usage : Value} : (p.takeUsage usage).toolCallBuilders = p.toolCallBuilders := by
  unfold takeUsage
  split_ifs <;> rfl

/-- Nor has the finish reason. -/
theorem builders_choice {usage choice : Value} : (p.noteChoice usage choice).toolCallBuilders = p.toolCallBuilders := by
  unfold noteChoice
  split_ifs
  · rfl
  · exact builders_usage

/-- Nor has the text. -/
theorem builders_content : (p.feedContent delta).1.toolCallBuilders = p.toolCallBuilders := by
  unfold feedContent
  cases nonemptyStr (delta.field "content") <;> rfl

/-- Nor has the thinking. -/
theorem builders_thinking : (p.feedThinking delta).1.toolCallBuilders = p.toolCallBuilders := by
  unfold feedThinking
  cases thinkingDelta delta <;> rfl

/-- The fragments of an event are gathered. -/
theorem builders_feed (h : feed json p event = .ok (p', events, stop)) :
    p'.toolCallBuilders = (fragments json event).foldl (gather ToolCallBuilder.addDelta {}) p.toolCallBuilders := by
  unfold feed at h
  unfold fragments
  split_ifs at h with hdone
  · cases h
    rw [if_pos hdone]
    rfl
  rw [if_neg hdone]
  obtain ⟨loaded, hloaded, hrest⟩ := bind_eq_ok.mp h
  rw [hloaded]
  cases loaded with
  | none =>
    cases hrest
    rfl
  | some chunk =>
    replace hrest : p.feedChunk chunk = .ok (p', events, stop) := hrest
    unfold feedChunk at hrest
    dsimp only at hrest ⊢
    cases hchoice : firstChoice chunk with
    | none =>
      rw [hchoice] at hrest
      cases hrest
      exact builders_usage
    | some choice =>
      rw [hchoice] at hrest
      dsimp only at hrest ⊢
      split_ifs at hrest with hdelta
      · obtain ⟨last, hcalls, hreturn⟩ := bind_eq_ok.mp hrest
        cases hreturn
        rw [builders_toolCalls hcalls, builders_thinking, builders_content, builders_choice, builders_usage]
      · cases hrest
        have hnil : toolCallDeltas (choice.field "delta") = [] := by
          unfold toolCallDeltas
          cases hvalue : choice.field "delta" <;> simp_all [Value.field, Value.isDict]
        rw [hnil, builders_choice, builders_usage]
        rfl

/-- The fragments of all events are gathered. -/
theorem builders_feedAll {texts : List String} (h : feedAll json p texts = .ok p') :
    p'.toolCallBuilders = (texts.flatMap (fragments json)).foldl (gather ToolCallBuilder.addDelta {})
      p.toolCallBuilders := by
  induction texts generalizing p with
  | nil =>
    cases h
    rfl
  | cons text texts ih =>
    rw [feedAll, List.foldlM_cons] at h
    obtain ⟨next, hfeed, hrest⟩ := bind_eq_ok.mp h
    cases hresult : feed json p text with
    | error error =>
      rw [hresult] at hfeed
      cases hfeed
    | ok fed =>
      rw [hresult] at hfeed
      cases hfeed
      rw [ih hrest, builders_feed hresult, List.flatMap_cons, List.foldl_append]

/-- The tool calls of a response stand in the order of their indices, and each is built of the fragments with its index,
however the fragments of the others, text and thinking lie between them. -/
theorem toolCalls_feedAll (json : JsonModule) (texts : List String) (p : ChatStreamParser)
    (h : feedAll json {} texts = .ok p) : ∃ indices : List ℤ, indices.Pairwise (· < ·) ∧
      (∀ index, index ∈ indices ↔ strand index (texts.flatMap (fragments json)) ≠ []) ∧
      p.toolCalls json = indices.mapM fun index =>
        ((strand index (texts.flatMap (fragments json))).foldl ToolCallBuilder.addDelta {}).build json index := by
  obtain ⟨indices, hsorted, hmem, hitems⟩ := mergeSort_gather ToolCallBuilder.addDelta {}
    (texts.flatMap (fragments json))
  refine ⟨indices, hsorted, hmem, ?_⟩
  have hbuilders := builders_feedAll h
  rw [toolCalls, hbuilders, hitems, List.mapM_map]
  rfl

/-- The texts of three chunks with fragments of two tool calls, and the fragments. -/
def interleaved : List (String × ℤ × List (String × Value)) :=
  let text (fragment : String) := s!"\x7b\"choices\":[\x7b\"delta\":\x7b\"tool_calls\":[{fragment}]\x7d\x7d]\x7d"
  [(text "\x7b\"index\":1,\"id\":\"b\",\"function\":\x7b\"name\":\"wri\"\x7d\x7d", 1,
      [("id", .str "b"), ("function", .dict [("name", .str "wri")])]),
    (text "\x7b\"index\":0,\"id\":\"a\",\"function\":\x7b\"name\":\"read\"\x7d\x7d", 0,
      [("id", .str "a"), ("function", .dict [("name", .str "read")])]),
    (text "\x7b\"index\":1,\"function\":\x7b\"name\":\"write\"\x7d\x7d", 1,
      [("function", .dict [("name", .str "write")])])]

/-- What is loaded from these texts. -/
def interleavedJson : JsonModule where
  loads text := ((interleaved.lookup text)).elim .invalid fun fragment =>
    .value (.dict [("choices", .list [.dict [("delta", .dict [("tool_calls",
      .list [.dict (("index", .int fragment.1) :: fragment.2)])])]])])
  dumps _ := ""

/-- Two tool calls whose fragments are mixed. -/
theorem toolCalls_feedAll_interleaved : ∃ p, feedAll interleavedJson {} (interleaved.map Prod.fst) = .ok p ∧
    ∃ indices : List ℤ, indices.Pairwise (· < ·) ∧
      (∀ index, index ∈ indices ↔ strand index ((interleaved.map Prod.fst).flatMap (fragments interleavedJson)) ≠ []) ∧
      p.toolCalls interleavedJson = indices.mapM fun index =>
        ((strand index ((interleaved.map Prod.fst).flatMap (fragments interleavedJson))).foldl
          ToolCallBuilder.addDelta {}).build
          interleavedJson index := by
  have h : feedAll interleavedJson {} (interleaved.map Prod.fst) =
      .ok { emittedContent := true, toolCallBuilders := [(1, ⟨"b", "write", []⟩), (0, ⟨"a", "read", []⟩)] } := rfl
  exact ⟨_, h, toolCalls_feedAll interleavedJson _ _ h⟩

end ChatStreamParser

namespace ResponsesStreamParser

variable {json : JsonModule} {p p' : ResponsesStreamParser} {chunk item : Value} {event type : String}
  {events : List ProviderEvent} {stop : Bool}

/-- The text and the thinking that were passed on. -/
def said (p : ResponsesStreamParser) : Gist :=
  { text := String.join p.contentParts, thinking := String.join p.thinkingParts }

/-- It has not failed, and thinking was passed on only if something was emitted. -/
def Sane (p : ResponsesStreamParser) : Prop := p.fatal = false ∧ (p.emittedContent = false → p.thinkingParts = [])

/-- What `feed` does with a chunk unless it fails: it passes on deltas, and nothing if nothing is emitted. -/
structure Fed (p p' : ResponsesStreamParser) (events : List ProviderEvent) : Prop where
  sane : p'.Sane
  said : p'.said = events.foldl Gist.add p.said
  deltas : ∀ e ∈ events, ∃ channel delta, e = .delta channel delta
  emitted : p'.emittedContent = false → p.emittedContent = false ∧ events = []

/-- What is passed on is left as it was. -/
structure Quiet (p p' : ResponsesStreamParser) : Prop where
  fatal : p'.fatal = p.fatal
  content : p'.contentParts = p.contentParts
  thinking : p'.thinkingParts = p.thinkingParts
  emitted : p'.emittedContent = false → p.emittedContent = false

/-- Nothing is passed on. -/
theorem Quiet.fed (h : Quiet p p') (sane : p.Sane) : Fed p p' [] where
  sane := ⟨h.fatal.trans sane.1, fun hnot => h.thinking.trans (sane.2 (h.emitted hnot))⟩
  said := by simp only [ResponsesStreamParser.said, h.content, h.thinking, List.foldl_nil]
  deltas e he := by cases he
  emitted hnot := ⟨h.emitted hnot, rfl⟩

/-- A builder is kept back. -/
theorem quiet_alter {itemId : String} {change : ResponsesToolCallBuilder → ResponsesToolCallBuilder} :
    Quiet p (p.alter itemId change) :=
  ⟨rfl, rfl, rfl, id⟩

/-- An item is kept back. -/
theorem quiet_item {arguments outputIndex : Value} :
    Quiet p ((p.registerReasoningItem item).setItem item arguments outputIndex) := by
  have hreasoning : Quiet p (p.registerReasoningItem item) := by
    unfold registerReasoningItem
    split
    · exact ⟨rfl, rfl, rfl, id⟩
    · exact ⟨rfl, rfl, rfl, id⟩
  unfold setItem
  split
  · exact ⟨hreasoning.fatal, hreasoning.content, hreasoning.thinking, hreasoning.emitted⟩
  · exact hreasoning

/-- A delta is passed on. -/
theorem fed_delta {channel : Channel} {delta : Value} (sane : p.Sane) :
    Fed p (p.feedDelta channel delta).1 (p.feedDelta channel delta).2.1 := by
  unfold feedDelta
  cases nonemptyStr delta with
  | none => exact Quiet.fed ⟨rfl, rfl, rfl, id⟩ sane
  | some text =>
    cases channel with
    | text =>
      refine ⟨⟨sane.1, fun h => by cases h⟩, ?_, fun e he => ⟨_, _, List.mem_singleton.mp he⟩, fun h => by cases h⟩
      simp [ResponsesStreamParser.said, Gist.add, String.join_append]
    | thinking =>
      refine ⟨⟨sane.1, fun h => by cases h⟩, ?_, fun e he => ⟨_, _, List.mem_singleton.mp he⟩, fun h => by cases h⟩
      simp [ResponsesStreamParser.said, Gist.add, String.join_append]

/-- A part of a summary is closed by a blank line, which is passed on after other thinking. -/
theorem fed_separator (sane : p.Sane) (hparts : p.thinkingParts ≠ []) :
    Fed p { p with thinkingParts := p.thinkingParts ++ ["\n\n"] } [.delta .thinking "\n\n"] where
  sane := ⟨sane.1, fun hnot => absurd (sane.2 hnot) hparts⟩
  said := by simp [ResponsesStreamParser.said, Gist.add, String.join_append]
  deltas e he := ⟨_, _, List.mem_singleton.mp he⟩
  emitted hnot := absurd (sane.2 hnot) hparts

/-- What `feed` returns: unless it fails it passes on deltas, and it fails with an error alone. -/
def Returned (p : ResponsesStreamParser) (returned : ResponsesStreamParser × List ProviderEvent × Bool) : Prop :=
  Fed p returned.1 returned.2.1 ∨
    returned.1.fatal = true ∧ returned.2.2 = true ∧ ∃ message data, returned.2.1 = [.error message data]

/-- What is kept back is returned without an event. -/
theorem Quiet.returned (h : Quiet p p') (sane : p.Sane) : Returned p (p', [], stop) := .inl (h.fed sane)

/-- Either branch. -/
theorem Returned.ite {c : Prop} [Decidable c] {x y : ResponsesStreamParser × List ProviderEvent × Bool}
    (hx : c → Returned p x) (hy : ¬c → Returned p y) : Returned p (if c then x else y) := by
  by_cases hc : c
  · rw [if_pos hc]
    exact hx hc
  · rw [if_neg hc]
    exact hy hc

/-- A chunk of any type. -/
theorem returned_chunk (chunk : Value) (type : String) (sane : p.Sane) : Returned p (p.feedChunk chunk type) := by
  have hsame : Quiet p p := ⟨rfl, rfl, rfl, id⟩
  unfold feedChunk
  refine .ite (fun _ => .inl (fed_delta sane)) fun _ => .ite (fun _ => .inl (fed_delta sane)) fun _ => ?_
  refine .ite (fun _ => .ite (fun _ => hsame.returned sane) fun hparts => .inl (fed_separator sane hparts)) fun _ => ?_
  refine .ite (fun _ => quiet_item.returned sane) fun _ => .ite (fun _ => ?_) fun _ => .ite (fun _ => ?_) fun _ => ?_
  · cases chunk.field "item_id" with
    | str itemId => exact Quiet.returned ⟨rfl, rfl, rfl, fun h => by cases h⟩ sane
    | _ => exact hsame.returned sane
  · cases chunk.field "item_id" with
    | str itemId => exact quiet_alter.returned sane
    | _ => exact hsame.returned sane
  · refine .ite (fun _ => quiet_item.returned sane) fun _ => .ite (fun _ => ?_) fun _ => ?_
    · exact Quiet.returned ⟨rfl, rfl, rfl, id⟩ sane
    · refine .ite (fun _ => .inr ⟨rfl, rfl, _, _, rfl⟩) fun _ => .ite (fun _ => .inr ⟨rfl, rfl, _, _, rfl⟩) fun _ => ?_
      exact hsame.returned sane

/-- What `feed` does with a text. -/
theorem fed_feed (sane : p.Sane) (h : feed json p event = .ok (p', events, stop)) :
    Fed p p' events ∨ p'.fatal = true ∧ stop = true ∧ ∃ message data, events = [.error message data] := by
  have hsame : Fed p p [] := Quiet.fed ⟨rfl, rfl, rfl, id⟩ sane
  unfold feed at h
  split_ifs at h
  · cases h
    exact .inl hsame
  · obtain ⟨loaded, -, hrest⟩ := bind_eq_ok.mp h
    cases loaded with
    | none =>
      cases hrest
      exact .inl hsame
    | some chunk =>
      dsimp only at hrest
      split at hrest
      next type _ =>
        have hchunk := returned_chunk chunk type sane
        rw [Except.ok.inj hrest] at hchunk
        exact hchunk
      next =>
        cases hrest
        exact .inl hsame

/-- The parser of responses keeps the laws. -/
theorem lawful (json : JsonModule) : (responsesStreamParser json).Lawful said Sane where
  said_fresh := rfl
  sane_fresh := ⟨rfl, fun _ => rfl⟩
  fatal_fresh := rfl
  feed_sane sane h hfatal := by
    rcases fed_feed sane h with hfed | ⟨hfailed, -⟩
    · exact hfed.sane
    · exact absurd (hfatal.symm.trans hfailed) Bool.false_ne_true
  feed_said sane h hfatal := by
    rcases fed_feed sane h with hfed | ⟨hfailed, -⟩
    · exact hfed.said
    · exact absurd (hfatal.symm.trans hfailed) Bool.false_ne_true
  feed_deltas sane h hfatal := by
    rcases fed_feed sane h with hfed | ⟨hfailed, -⟩
    · exact hfed.deltas
    · exact absurd (hfatal.symm.trans hfailed) Bool.false_ne_true
  feed_emitted sane h hfatal := by
    rcases fed_feed sane h with hfed | ⟨hfailed, -⟩
    · exact hfed.emitted
    · exact absurd (hfatal.symm.trans hfailed) Bool.false_ne_true
  feed_fatal sane h hfatal := by
    rcases fed_feed sane h with hfed | ⟨-, hends⟩
    · exact absurd (hfed.sane.1.symm.trans hfatal) Bool.false_ne_true
    · exact hends
  finalize_ends sane h := by
    obtain ⟨toolCalls, -, hreturn⟩ := bind_eq_ok.mp h
    cases hreturn
    exact ⟨toolCalls, _, _, rfl, gist_finalContent⟩

end ResponsesStreamParser

end MyTeam.Llm
