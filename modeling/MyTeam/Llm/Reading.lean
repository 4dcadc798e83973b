import MyTeam.Llm.Stream

/-!
# Reading a canonical stream

Who reads a canonical stream builds the message from the events alone: the start, then blocks one
after the other, each opened, extended and closed under its own index, and one end. At every event
the copy of the message that comes with it is what has been built. The streams of the providers are
translated into streams that can be read so, unless they go on after their end.
-/

namespace MyTeam.Llm

open MyTeam.Py MyTeam.Async

/-- How far the message is built: its closed blocks, and the block that is open. -/
inductive Reading
  | fresh
  | between (content : List Block)
  | within (content : List Block) (channel : Channel) (text : String)
  | calling (content : List Block) (toolCall : ToolCall)
  | ended

/-- A block without the provider's signatures. -/
def Block.bare : Block → Block
  | .text s _ => .text s
  | .thinking s _ _ => .thinking s
  | .toolCall call => .toolCall call

/-- What a reader builds holds no signatures. -/
def Bare (content : List Block) : Prop := content.map Block.bare = content

/-- The event that comes next, what has been built before it, and what has been built with it. -/
inductive Reads : Reading → AssistantMessageEvent → Reading → Prop
  | start {message} : message.content = [] → Reads .fresh (.start message) (.between [])
  | blockStart {content channel message} : message.content = content ++ [channel.block ""] →
      Reads (.between content) (.blockStart channel content.length message) (.within content channel "")
  | blockDelta {content channel text delta message} : message.content = content ++ [channel.block (text ++ delta)] →
      Reads (.within content channel text) (.blockDelta channel content.length delta message)
        (.within content channel (text ++ delta))
  | blockEnd {content channel text message} : message.content = content ++ [channel.block text] →
      Reads (.within content channel text) (.blockEnd channel content.length text message)
        (.between (content ++ [channel.block text]))
  | toolCallStart {content toolCall message} : message.content = content ++ [.toolCall toolCall] →
      Reads (.between content) (.toolCallStart content.length message) (.calling content toolCall)
  | toolCallEnd {content toolCall message} : message.content = content ++ [.toolCall toolCall] →
      Reads (.calling content toolCall) (.toolCallEnd content.length toolCall message)
        (.between (content ++ [.toolCall toolCall]))
  | done {content message} : content ≠ [] → message.content.map Block.bare = content →
      Reads (.between content) (.done message.stopReason message) .ended
  | doneWhole {message} : Reads (.between []) (.done message.stopReason message) .ended
  | failed {content message} : message.content = content → Reads (.between content) (.error .error message) .ended
  | failedWithin {content channel text message} : message.content = content ++ [channel.block text] →
      Reads (.within content channel text) (.error .error message) .ended

/-- The end of a response. -/
def ProviderEvent.isTerminal : ProviderEvent → Bool
  | .responseEnd _ _ | .error _ _ _ => true
  | _ => false

/-- An event that is not passed on once the message was started. -/
def ProviderEvent.isSilent : ProviderEvent → Bool
  | .retry _ _ | .responseStart _ _ => true
  | _ => false

/-- After the end of a response nothing comes that is passed on. -/
def EndsOnce (events : List ProviderEvent) : Prop :=
  ∀ before event after, events = before ++ event :: after → event.isTerminal = true → ∀ e ∈ after, e.isSilent = true

/-- What a message says. -/
structure Gist where
  text : String := ""
  thinking : String := ""
  toolCalls : List ToolCall := []

/-- What content blocks say. -/
def Gist.of (content : List Block) : Gist := ⟨textOf content, thinkingOf content, toolCallsOf content⟩

/-- What is said with an event. -/
def Gist.add (gist : Gist) : ProviderEvent → Gist
  | .delta .text delta => { gist with text := gist.text ++ delta }
  | .delta .thinking delta => { gist with thinking := gist.thinking ++ delta }
  | .toolCall toolCall => { gist with toolCalls := gist.toolCalls ++ [toolCall] }
  | _ => gist

/-- What is said with the events of a response. -/
def gistOf (events : List ProviderEvent) : Gist := events.foldl Gist.add {}

section Gist

variable {content : List Block} {channel : Channel} {text delta : String} {toolCall : ToolCall}

/-- A new block says nothing. -/
theorem gist_opened : Gist.of (content ++ [channel.block ""]) = Gist.of content := by
  cases channel <;>
    simp [Gist.of, textOf, thinkingOf, toolCallsOf, Channel.block, Block.text?, Block.thinking?, Block.toolCall?,
      List.filterMap_cons]

/-- A delta says more. -/
theorem gist_extended : Gist.of (content ++ [channel.block (text ++ delta)]) =
    (Gist.of (content ++ [channel.block text])).add (.delta channel delta) := by
  cases channel <;> simp [Gist.of, Gist.add, textOf, thinkingOf, toolCallsOf, Channel.block, Block.text?,
    Block.thinking?,
    Block.toolCall?, List.filterMap_cons, String.append_assoc]

/-- A tool call says more. -/
theorem gist_called : Gist.of (content ++ [.toolCall toolCall]) = (Gist.of content).add (.toolCall toolCall) := by
  simp [Gist.of, Gist.add, textOf, thinkingOf, toolCallsOf, Block.text?, Block.thinking?, Block.toolCall?,
    List.filterMap_cons]

/-- Signatures say nothing. -/
theorem gist_bare : Gist.of (content.map Block.bare) = Gist.of content := by
  have htext : Block.text? ∘ Block.bare = Block.text? := by
    funext block
    cases block <;> rfl
  have hthinking : Block.thinking? ∘ Block.bare = Block.thinking? := by
    funext block
    cases block <;> rfl
  have hcall : Block.toolCall? ∘ Block.bare = Block.toolCall? := by
    funext block
    cases block <;> rfl
  simp only [Gist.of, textOf, thinkingOf, toolCallsOf, List.filterMap_map, htext, hthinking, hcall]

end Gist

/-- The variables of the translation and what a reader has built. -/
def Canonical.Matches (s : Canonical) : Reading → Prop
  | .fresh => s.started = false ∧ s.activeIndex = none ∧ s.activeKind = none ∧ s.partialMessage.content = []
  | .between content => s.started = true ∧ s.activeIndex = none ∧ s.activeKind = none ∧
      s.partialMessage.content = content ∧ Bare content
  | .within content channel text => s.started = true ∧ s.activeIndex = some content.length ∧
      s.activeKind = some channel ∧
      s.partialMessage.content = content ++ [channel.block text] ∧ Bare content
  | _ => False

namespace Canonical

variable {s : Canonical} {r : Reading} {channel : Channel} {api provider model : String}

/-- Once there is something to read the message was started. -/
theorem Matches.started (h : s.Matches r) (hr : r ≠ .fresh) : s.started = true := by
  cases r with
  | fresh => exact absurd rfl hr
  | between content => exact h.1
  | within content channel text => exact h.1
  | calling content toolCall => exact h.elim
  | ended => exact h.elim

/-- What was streamed holds no signatures. -/
theorem Matches.bare (h : s.Matches r) : Bare s.partialMessage.content := by
  cases r with
  | fresh => exact h.2.2.2 ▸ rfl
  | between content => exact h.2.2.2.1 ▸ h.2.2.2.2
  | within content channel text =>
    obtain ⟨-, -, -, hcontent, hbare⟩ := h
    rw [Bare, hcontent, List.map_append, hbare]
    cases channel <;> rfl
  | calling content toolCall => exact h.elim
  | ended => exact h.elim

/-- A block is found where it was put. -/
theorem getElem?_block {content : List Block} {text : String} :
    (content ++ [channel.block text])[content.length]? = some (channel.block text) := by
  simp

/-- A block is extended by a delta of its channel. -/
theorem extend_block {text delta : String} :
    channel.extend delta (channel.block text) = some (channel.block (text ++ delta)) := by
  cases channel <;> rfl

/-- The message is started. -/
theorem start_keeps (h : s.Matches r) :
    Gen.Keeps Reads r s.start fun s' r' => s'.Matches r' ∧ r' ≠ .fresh ∧
      s'.partialMessage = s.partialMessage ∧ s'.terminal = s.terminal := by
  unfold start
  cases r with
  | fresh =>
    obtain ⟨hstarted, hindex, hkind, hcontent⟩ := h
    rw [if_neg (by simp [hstarted])]
    exact .emit_bind (.start hcontent) (.pure ⟨⟨rfl, hindex, hkind, hcontent, rfl⟩, by simp, rfl, rfl⟩)
  | between content =>
    rw [if_pos h.1]
    exact .pure ⟨h, by simp, rfl, rfl⟩
  | within content channel text =>
    rw [if_pos h.1]
    exact .pure ⟨h, by simp, rfl, rfl⟩
  | calling content toolCall => exact h.elim
  | ended => exact h.elim

/-- The active block is closed. -/
theorem endActiveBlock_keeps (h : s.Matches r) (hr : r ≠ .fresh) :
    Gen.Keeps Reads r (endActiveBlock s.partialMessage s.activeIndex) fun _ r' =>
      r' = .between s.partialMessage.content := by
  cases r with
  | fresh => exact absurd rfl hr
  | between content =>
    obtain ⟨-, hindex, -, hcontent, -⟩ := h
    rw [hindex]
    exact .pure (hcontent ▸ rfl)
  | within content channel text =>
    obtain ⟨-, hindex, -, hcontent, -⟩ := h
    have hblock : endActiveBlock s.partialMessage s.activeIndex =
        .emit (.blockEnd channel content.length text s.partialMessage) := by
      rw [hindex, endActiveBlock, hcontent, getElem?_block]
      cases channel <;> rfl
    rw [hblock, hcontent]
    exact .emit (.blockEnd hcontent) rfl
  | calling content toolCall => exact h.elim
  | ended => exact h.elim

variable (channel) in
/-- A block of the channel is opened, unless it is the active one. -/
theorem switchTo_keeps (h : s.Matches r) (hr : r ≠ .fresh) :
    Gen.Keeps Reads r (s.switchTo channel) fun s' r' => (∃ content text, r' = .within content channel text) ∧
      s'.Matches r' ∧ s'.terminal = s.terminal ∧
      Gist.of s'.partialMessage.content = Gist.of s.partialMessage.content := by
  unfold switchTo
  by_cases hactive : s.activeKind = some channel
  · rw [if_pos hactive]
    refine .pure ⟨?_, h, rfl, rfl⟩
    cases r with
    | fresh => exact absurd rfl hr
    | between content => exact absurd (h.2.2.1.symm.trans hactive) (by simp)
    | within content other text =>
      obtain rfl : other = channel := Option.some.inj (h.2.2.1.symm.trans hactive)
      exact ⟨content, text, rfl⟩
    | calling content toolCall => exact h.elim
    | ended => exact h.elim
  · rw [if_neg hactive]
    refine .bind (endActiveBlock_keeps h hr) fun _ _ hbetween => hbetween ▸ ?_
    exact .emit_bind (.blockStart rfl) (.pure ⟨⟨_, _, rfl⟩, ⟨h.started hr, rfl, rfl, rfl, h.bare⟩, rfl, gist_opened⟩)

/-- A delta for the active block. -/
theorem append_keeps {content : List Block} {text delta : String} (h : s.Matches (.within content channel text)) :
    Gen.Keeps Reads (.within content channel text) (s.append channel delta) fun s' r' =>
      s'.Matches r' ∧ s'.terminal = s.terminal ∧
      Gist.of s'.partialMessage.content = (Gist.of s.partialMessage.content).add (.delta channel delta) := by
  obtain ⟨hstarted, hindex, hkind, hcontent, hbare⟩ := h
  have happend : s.append channel delta = (do
      let message := { s.partialMessage with content := content ++ [channel.block (text ++ delta)] }
      Gen.emit (.blockDelta channel content.length delta message)
      pure { s with partialMessage := message }) := by
    simp only [append, hindex, hcontent, getElem?_block, extend_block, List.set_append_right _ _ (le_refl _),
      Nat.sub_self, List.set_cons_zero]
  rw [happend]
  exact .emit_bind (.blockDelta rfl)
    (.pure ⟨⟨hstarted, hindex, hkind, rfl, hbare⟩, rfl, by rw [hcontent, gist_extended]⟩)

/-- The messages that follow a start hold the signatures of the provider, and else what was streamed. -/
theorem bare_copySignatures {thinkings : List (Option String × Bool)} {texts : List (Option String)}
    {content : List Block} :
    (copySignatures thinkings texts content).map Block.bare = content.map Block.bare := by
  fun_induction copySignatures thinkings texts content with
  | case1 => rfl
  | case2 signature redacted thinkings texts s _ _ rest ih => simp [Block.bare, ih]
  | case3 thinkings signature texts s _ rest ih => simp [Block.bare, ih]
  | case4 thinkings texts block rest _ _ ih => simp [ih]

/-- A tool call is a block of its own. -/
theorem call_keeps {toolCall : ToolCall} (h : s.Matches r) (hr : r ≠ .fresh) :
    Gen.Keeps Reads r (s.call toolCall) fun s' r' => s'.Matches r' ∧ s'.terminal = s.terminal ∧
      Gist.of s'.partialMessage.content = (Gist.of s.partialMessage.content).add (.toolCall toolCall) := by
  have hbare : Bare (s.partialMessage.content ++ [.toolCall toolCall]) := by
    rw [Bare, List.map_append, h.bare]
    rfl
  unfold call
  refine .bind (endActiveBlock_keeps h hr) fun _ _ hbetween => hbetween ▸ ?_
  exact .emit_bind (.toolCallStart rfl) (.emit_bind (.toolCallEnd rfl)
    (.pure ⟨⟨h.started hr, rfl, rfl, rfl, hbare⟩, rfl, gist_called⟩))

/-- The message ends with what was streamed, or with what the provider says it is if nothing was streamed. -/
theorem bare_final {message : AssistantMessage} {reason : Option String} (h : s.Matches r)
    (hne : s.partialMessage.content ≠ []) :
    (s.final api provider model message reason).content.map Block.bare = s.partialMessage.content := by
  have hempty : s.partialMessage.content.isEmpty = false := by simpa using hne
  simp only [final, hempty, Bool.false_eq_true, if_false, copyReplayMetadata, bare_copySignatures]
  exact h.bare

/-- The end of a response. -/
theorem finish_keeps {message : AssistantMessage} {reason : Option String} (h : s.Matches r) (hr : r ≠ .fresh) :
    Gen.Keeps Reads r (s.finish api provider model message reason) fun s' r' => r' = .ended ∧
      s'.Matches (.between s.partialMessage.content) ∧ s'.terminal = true := by
  unfold finish
  refine .bind (endActiveBlock_keeps h hr) fun _ _ hbetween => ?_
  subst hbetween
  have hkept : { s with activeIndex := none, activeKind := none, terminal := true }.Matches
      (.between s.partialMessage.content) := ⟨h.started hr, rfl, rfl, rfl, h.bare⟩
  by_cases hne : s.partialMessage.content = []
  · rw [hne] at hkept ⊢
    exact .emit_bind .doneWhole (.pure ⟨rfl, hkept, rfl⟩)
  · exact .emit_bind (.done hne (bare_final h hne)) (.pure ⟨rfl, hkept, rfl⟩)

/-- An error ends the message as it is. -/
theorem reads_failed {message : AssistantMessage} (h : s.Matches r) (hr : r ≠ .fresh)
    (hcontent : message.content = s.partialMessage.content) : Reads r (.error .error message) .ended := by
  cases r with
  | fresh => exact absurd rfl hr
  | between content => exact .failed (hcontent.trans h.2.2.2.1)
  | within content channel text => exact .failedWithin (hcontent.trans h.2.2.2.1)
  | calling content toolCall => exact h.elim
  | ended => exact h.elim

/-- An error of the provider. -/
theorem fail_keeps {message : String} {data : Option (List (String × Value))} {responseProvider : Option String}
    (h : s.Matches r) (hr : r ≠ .fresh) :
    Gen.Keeps Reads r (s.fail message data responseProvider) fun s' r' => r' = .ended ∧ s'.Matches r ∧
    s'.terminal = true := by
  unfold fail
  refine .emit_bind (reads_failed h hr rfl) (.pure ⟨rfl, ?_, rfl⟩)
  cases r <;> exact h

variable (api provider model) in
/-- An event that comes before the end of the response. -/
theorem handle_keeps (event : ProviderEvent) (h : s.Matches r) :
    Gen.Keeps Reads r (s.handle api provider model event) fun s' r' =>
      if event.isTerminal then r' = .ended ∧ (∃ r, s'.Matches r ∧ r ≠ .fresh) ∧ s'.terminal = true
      else s'.Matches r' ∧ s'.terminal = s.terminal ∧
        Gist.of s'.partialMessage.content = (Gist.of s.partialMessage.content).add event := by
  cases event with
  | responseStart model responseProvider =>
    refine (start_keeps (r := r) ?_).weaken fun s' r' hs => ⟨hs.1, hs.2.2.2, by rw [hs.2.2.1]; rfl⟩
    cases r <;> exact h
  | retry attempt maxAttempts => exact .pure ⟨h, rfl, rfl⟩
  | delta channel delta =>
    refine (start_keeps h).bind fun s' r' ⟨hs, hr, hsame, hterminal⟩ => ?_
    refine (switchTo_keeps channel hs hr).bind fun s'' r'' ⟨⟨content, text, heq⟩, hs', hterminal', hgist⟩ => ?_
    subst heq
    refine (append_keeps hs').weaken fun _ _ hkept => ⟨hkept.1, (hkept.2.1.trans hterminal').trans hterminal, ?_⟩
    rw [hkept.2.2, hgist, hsame]
  | toolCall toolCall =>
    refine (start_keeps h).bind fun s' r' ⟨hs, hr, hsame, hterminal⟩ => ?_
    refine (call_keeps hs hr).weaken fun _ _ hkept => ⟨hkept.1, hkept.2.1.trans hterminal, ?_⟩
    rw [hkept.2.2, hsame]
  | responseEnd message reason =>
    refine (start_keeps h).bind fun s' r' ⟨hs, hr, _, _⟩ => ?_
    exact (finish_keeps hs hr).weaken fun _ _ ⟨hover, hkept, hterminal⟩ => ⟨hover, ⟨_, hkept, by simp⟩, hterminal⟩
  | error message data responseProvider =>
    refine (start_keeps h).bind fun s' r' ⟨hs, hr, _, _⟩ => ?_
    exact (fail_keeps hs hr).weaken fun _ _ ⟨hover, hkept, hterminal⟩ => ⟨hover, ⟨_, hkept, hr⟩, hterminal⟩

variable (api provider model) in
/-- What is not silent yields something. -/
theorem handle_ne_nil {event : ProviderEvent} (h : s.Matches r) (hsilent : event.isSilent = false) :
    (s.handle api provider model event).yielded ≠ [] := by
  obtain ⟨s', r', hstart, -, hs, hr, -⟩ := start_keeps h
  cases event with
  | responseStart model responseProvider => cases hsilent
  | retry attempt maxAttempts => cases hsilent
  | delta channel delta =>
    obtain ⟨s'', r'', hswitch, -, ⟨content, text, rfl⟩, hs', -, -⟩ := switchTo_keeps channel hs hr
    obtain ⟨-, hindex, -, hcontent, -⟩ := hs'
    rw [handle, Gen.eq_of_result hstart, Gen.ok_bind, Gen.eq_of_result hswitch, Gen.ok_bind]
    simp [append, hindex, hcontent, extend_block]
  | toolCall toolCall =>
    obtain ⟨_, _, hend, -, -⟩ := endActiveBlock_keeps hs hr
    rw [handle, Gen.eq_of_result hstart, Gen.ok_bind, call, Gen.eq_of_result hend]
    simp
  | responseEnd message reason =>
    obtain ⟨_, _, hend, -, -⟩ := endActiveBlock_keeps hs hr
    rw [handle, Gen.eq_of_result hstart, Gen.ok_bind, finish, Gen.eq_of_result hend]
    simp
  | error message data responseProvider =>
    rw [handle, Gen.eq_of_result hstart, Gen.ok_bind, fail]
    simp

end Canonical

section Protocol

variable {r r' m m' : Reading} {event : AssistantMessageEvent} {out out' : List AssistantMessageEvent}

/-- Nothing is read after the end. -/
theorem not_reads_over (h : Reads .ended event r) : False := by
  cases h

/-- `AssistantDoneEvent` and `AssistantErrorEvent`. -/
def AssistantMessageEvent.isEnd : AssistantMessageEvent → Bool
  | .done _ _ | .error _ _ => true
  | _ => false

/-- A message is over with an end, and with nothing else. -/
theorem isEnd_iff (h : Reads r event r') : event.isEnd = true ↔ r' = .ended := by
  cases h <;> simp [AssistantMessageEvent.isEnd]

/-- A message is fresh only before it is started. -/
theorem ne_fresh_of_passes (hr : r ≠ .fresh) (h : Passes Reads r out r') : r' ≠ .fresh := by
  induction out generalizing r with
  | nil => exact h ▸ hr
  | cons event out ih =>
    obtain ⟨m, hreads, hpasses⟩ := h
    exact ih (by cases hreads <;> simp) hpasses

/-- Events that end a message end every message. -/
theorem over_of_passes (hr : r ≠ .ended) (h : Passes Reads r out .ended) (h' : Passes Reads m out m') :
    m' = .ended := by
  induction out generalizing r m with
  | nil => exact absurd h.symm hr
  | cons event out ih =>
    obtain ⟨n, hreads, hpasses⟩ := h
    obtain ⟨n', hreads', hpasses'⟩ := h'
    by_cases hn : n = .ended
    · subst hn
      obtain rfl := (isEnd_iff hreads').mp ((isEnd_iff hreads).mpr rfl)
      cases out with
      | nil => exact hpasses'
      | cons event out => exact (not_reads_over hpasses'.choose_spec.1).elim
    · exact ih hn hpasses hpasses'

/-- Nothing passes after the end. -/
theorem not_passes_over (hne : out' ≠ []) (hover : ∀ m, Passes Reads r out m → m = .ended) :
    ¬Passes Reads r (out ++ out') r' := by
  intro h
  obtain ⟨m, hpasses, hmore⟩ := passes_append.mp h
  obtain rfl := hover m hpasses
  cases out' with
  | nil => exact hne rfl
  | cons event out' => exact not_reads_over hmore.choose_spec.1

variable {events : List ProviderEvent} {event : ProviderEvent}

/-- Before the end of a response everything may come. -/
theorem endsOnce_of_open (h : ∀ e ∈ events, e.isTerminal = false) : EndsOnce events := by
  intro before event after heq hterminal
  have hmem : event ∈ events := by simp [heq]
  rw [h event hmem] at hterminal
  cases hterminal

/-- The end of a response comes last, or is followed by what is not passed on. -/
theorem endsOnce_concat (hopen : ∀ e ∈ events, e.isTerminal = false) : EndsOnce (events ++ [event]) := by
  intro before e after heq hterminal
  rcases List.eq_nil_or_concat after with rfl | ⟨rest, last, rfl⟩
  · simp
  · have hmem : e ∈ events := by
      have hbefore : events = before ++ e :: rest := by
        rw [List.concat_eq_append, ← List.cons_append, ← List.append_assoc] at heq
        exact List.append_inj_left' heq rfl
      simp [hbefore]
    rw [hopen e hmem] at hterminal
    cases hterminal

/-- What is not passed on does not count. -/
theorem endsOnce_concat_silent (hsilent : event.isSilent = true) : EndsOnce (events ++ [event]) ↔ EndsOnce events := by
  constructor
  · intro h before e after heq hterminal e' he'
    exact h before e (after ++ [event]) (by simp [heq]) hterminal e' (List.mem_append_left _ he')
  · intro h before e after heq hterminal e' he'
    rcases List.eq_nil_or_concat after with rfl | ⟨rest, last, rfl⟩
    · cases he'
    · rw [List.concat_eq_append, ← List.cons_append, ← List.append_assoc] at heq
      rw [List.concat_eq_append] at he'
      obtain ⟨hevents, hlast⟩ := List.append_inj' heq rfl
      rcases List.mem_append.mp he' with hrest | hmem
      · exact h before e rest hevents hterminal e' hrest
      · obtain rfl := List.mem_singleton.mp hmem
        exact List.singleton_injective hlast ▸ hsilent

/-- A response that goes on after its end does not end once. -/
theorem not_endsOnce_concat {e : ProviderEvent} (he : e ∈ events) (hterminal : e.isTerminal = true)
    (hsilent : event.isSilent = false) : ¬EndsOnce (events ++ [event]) := by
  intro h
  obtain ⟨before, after, rfl⟩ := List.append_of_mem he
  have hlast := h before e (after ++ [event]) (by simp) hterminal event (by simp)
  rw [hsilent] at hlast
  cases hlast

end Protocol

/-- What has been read, where the translation is, and what it has yielded. Before the end a reader has followed it;
after the end the reader is over, unless something was yielded since. -/
structure Translated (read : List ProviderEvent) (s : Canonical) (out : List AssistantMessageEvent) : Prop where
  sane : ∃ r, s.Matches r ∧ (s.terminal = true → r ≠ .fresh)
  before : s.terminal = false → (∀ e ∈ read, e.isTerminal = false) ∧
    Gist.of s.partialMessage.content = gistOf read ∧ ∃ r, Passes Reads .fresh out r ∧ s.Matches r
  after : s.terminal = true → (∃ e ∈ read, e.isTerminal = true) ∧ (Passes Reads .fresh out .ended ↔ EndsOnce read) ∧
    ∀ r, Passes Reads .fresh out r → r = .ended

section Translation

variable {read : List ProviderEvent} {s : Canonical} {out : List AssistantMessageEvent} {event : ProviderEvent}
  {api provider model : String}

/-- Before the end of the response the reader follows every event. -/
theorem Translated.follow (h : Translated read s out) (hterminal : s.terminal = false) :
    ∃ out' s', s.handle api provider model event = ⟨out', .ok s'⟩ ∧ Translated (read ++ [event]) s' (out ++ out') := by
  obtain ⟨hopen, hgist, r, hpasses, hs⟩ := h.before hterminal
  obtain ⟨s', r', hresult, hmore, hkept⟩ := Canonical.handle_keeps api provider model event hs
  refine ⟨_, s', Gen.eq_of_result hresult, ?_⟩
  have hall := hpasses.append hmore
  by_cases hend : event.isTerminal = true
  · rw [if_pos hend] at hkept
    obtain ⟨rfl, ⟨r'', hs', hr''⟩, hover⟩ := hkept
    refine ⟨⟨r'', hs', fun _ => hr''⟩, fun hnot => ?_, fun _ => ⟨⟨event, by simp, hend⟩, ?_, fun m hm => ?_⟩⟩
    · rw [hover] at hnot
      cases hnot
    · exact iff_of_true hall (endsOnce_concat hopen)
    · exact over_of_passes (by simp) hall hm
  · rw [if_neg hend] at hkept
    have hnot : s'.terminal = false := hkept.2.1.trans hterminal
    refine ⟨⟨r', hkept.1, fun hover => ?_⟩, fun _ => ⟨fun e he => ?_, ?_, r', hall, hkept.1⟩, fun hover => ?_⟩
    · rw [hnot] at hover
      cases hover
    · rcases List.mem_append.mp he with hold | hnew
      · exact hopen e hold
      · exact List.mem_singleton.mp hnew ▸ Bool.eq_false_iff.mpr hend
    · rw [hkept.2.2, hgist, gistOf, gistOf, List.foldl_concat]
    · rw [hnot] at hover
      cases hover

/-- After the end of the response nothing can be read any more. -/
theorem Translated.overrun (h : Translated read s out) (hterminal : s.terminal = true) :
    ∃ out' s', s.handle api provider model event = ⟨out', .ok s'⟩ ∧ Translated (read ++ [event]) s' (out ++ out') := by
  obtain ⟨⟨e, he, hend⟩, hiff, hover⟩ := h.after hterminal
  obtain ⟨r, hs, hr⟩ := h.sane
  obtain ⟨s', r', hresult, hmore, hkept⟩ := Canonical.handle_keeps api provider model event hs
  have hsane : (∃ r, s'.Matches r ∧ (s'.terminal = true → r ≠ .fresh)) ∧ s'.terminal = true := by
    split_ifs at hkept with hevent
    · obtain ⟨-, ⟨r'', hs', hr''⟩, hdone⟩ := hkept
      exact ⟨⟨r'', hs', fun _ => hr''⟩, hdone⟩
    · exact ⟨⟨r', hkept.1, fun _ => ne_fresh_of_passes (hr hterminal) hmore⟩, hkept.2.1.trans hterminal⟩
  have hread : ∃ e ∈ read ++ [event], e.isTerminal = true := ⟨e, List.mem_append_left _ he, hend⟩
  refine ⟨_, s', Gen.eq_of_result hresult, hsane.1, fun hnot => ?_, fun _ => ⟨hread, ?_⟩⟩
  · rw [hsane.2] at hnot
    cases hnot
  by_cases hsilent : event.isSilent = true
  · have hnil : (s.handle api provider model event).yielded = [] := by
      have hstarted := hs.started (hr hterminal)
      cases event with
      | responseStart model responseProvider =>
        simp [Canonical.handle, Canonical.start, hstarted]
      | retry attempt maxAttempts => rfl
      | delta channel delta => cases hsilent
      | toolCall toolCall => cases hsilent
      | responseEnd message reason => cases hsilent
      | error message data responseProvider => cases hsilent
    rw [hnil, List.append_nil, endsOnce_concat_silent hsilent]
    exact ⟨hiff, hover⟩
  · have hne := Canonical.handle_ne_nil api provider model hs (Bool.eq_false_iff.mpr hsilent)
    have hno {m : Reading} : ¬Passes Reads .fresh (out ++ (s.handle api provider model event).yielded) m :=
      not_passes_over hne hover
    exact ⟨iff_of_false hno (not_endsOnce_concat he hend (Bool.eq_false_iff.mpr hsilent)), fun m hm => (hno hm).elim⟩

/-- Before or after the end, an event is translated. -/
theorem Translated.round (h : Translated read s out) :
    ∃ out' s', s.handle api provider model event = ⟨out', .ok s'⟩ ∧ Translated (read ++ [event]) s' (out ++ out') := by
  cases hterminal : s.terminal with
  | false => exact h.follow hterminal
  | true => exact h.overrun hterminal

/-- Before the response nothing has been read. -/
theorem translated_nil (api provider model : String) :
    Translated [] { partialMessage := { api := api, provider := provider, model := model } } [] :=
  ⟨⟨.fresh, ⟨rfl, rfl, rfl, rfl⟩, fun h => by cases h⟩,
    fun _ => ⟨by simp, rfl, .fresh, rfl, rfl, rfl, rfl, rfl⟩, fun h => by cases h⟩

/-- What has been yielded can be read exactly if the response has ended at most once. -/
theorem Translated.readable (h : Translated read s out) : (∃ r, Passes Reads .fresh out r) ↔ EndsOnce read := by
  cases hterminal : s.terminal with
  | false =>
    obtain ⟨hopen, -, r, hpasses, -⟩ := h.before hterminal
    exact iff_of_true ⟨r, hpasses⟩ (endsOnce_of_open hopen)
  | true =>
    obtain ⟨-, hiff, hover⟩ := h.after hterminal
    rw [← hiff]
    exact ⟨fun ⟨r, hr⟩ => hover r hr ▸ hr, fun hr => ⟨_, hr⟩⟩

/-- A response without an end is an error. -/
theorem Canonical.close_keeps {r : Reading} (h : s.Matches r) (hterminal : s.terminal = false) :
    Gen.Keeps Reads r s.close fun _ r' => r' = .ended := by
  unfold close
  refine (start_keeps h).bind fun s' r' ⟨hs, hr, _, hsame⟩ => ?_
  rw [if_neg (by simp [hsame, hterminal])]
  exact .emit (reads_failed hs hr rfl) rfl

/-- After an end nothing is added. -/
theorem Canonical.close_of_terminal {r : Reading} (h : s.Matches r) (hr : r ≠ .fresh) (hterminal : s.terminal = true) :
    s.close = ⟨[], .ok ()⟩ := by
  simp [close, start, h.started hr, hterminal, Gen.pure_eq]

/-- The translation of a response raises only what the response raises. -/
theorem canonical_result (source : Gen Exc ProviderEvent Unit) (api provider model : String) :
    (canonicalizeProviderStream source api provider model).result = source.result := by
  obtain ⟨out, s, hconsume, hkept⟩ := Gen.consume_invariant (translated_nil api provider model)
    (fun _ _ _ _ h => h.round) source
  unfold canonicalizeProviderStream
  rw [hconsume]
  cases hresult : source.result with
  | error error => rfl
  | ok =>
    rw [Except.map, Gen.ok_bind]
    cases hterminal : s.terminal with
    | false =>
      obtain ⟨-, -, r, -, hs⟩ := hkept.before hterminal
      obtain ⟨_, _, hclose, -, -⟩ := Canonical.close_keeps hs hterminal
      exact hclose
    | true =>
      obtain ⟨r, hs, hr⟩ := hkept.sane
      rw [Canonical.close_of_terminal hs (hr hterminal) hterminal]

/-- The translation of a response raises only what the response raises, and can be read exactly if the response ends
once; if the response also returned, it can be read to its end. -/
theorem canonical_iff_endsOnce (source : Gen Exc ProviderEvent Unit) (api provider model : String) :
    (canonicalizeProviderStream source api provider model).result = source.result ∧
    ((∃ r, Passes Reads .fresh (canonicalizeProviderStream source api provider model).yielded r) ↔
      EndsOnce source.yielded) ∧
    (source.result = .ok () → EndsOnce source.yielded →
      Passes Reads .fresh (canonicalizeProviderStream source api provider model).yielded .ended) := by
  refine ⟨canonical_result source api provider model, ?_⟩
  obtain ⟨out, s, hconsume, hkept⟩ := Gen.consume_invariant (translated_nil api provider model)
    (fun _ _ _ _ h => h.round) source
  unfold canonicalizeProviderStream
  rw [hconsume]
  cases hresult : source.result with
  | error error => exact ⟨hkept.readable, fun h => by cases h⟩
  | ok =>
    rw [Except.map, Gen.ok_bind]
    cases hterminal : s.terminal with
    | false =>
      obtain ⟨hopen, -, r, hpasses, hs⟩ := hkept.before hterminal
      obtain ⟨_, _, -, hmore, rfl⟩ := Canonical.close_keeps hs hterminal
      have hall := hpasses.append hmore
      exact ⟨iff_of_true ⟨_, hall⟩ (endsOnce_of_open hopen), fun _ _ => hall⟩
    | true =>
      obtain ⟨r, hs, hr⟩ := hkept.sane
      rw [Canonical.close_of_terminal hs (hr hterminal) hterminal, List.append_nil]
      exact ⟨hkept.readable, fun _ => (hkept.after hterminal).2.1.mpr⟩

end Translation

end MyTeam.Llm
