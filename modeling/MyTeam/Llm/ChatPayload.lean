import MyTeam.Llm.Transcript
import Mathlib.Data.List.SplitBy

/-!
# The messages of a chat request

A transcript as the chat endpoint takes it. Every message becomes one item, in order. The result of a tool
can hold text alone there, so the images of consecutive results follow in one item after the last of them:
no image is lost, doubled or moved past another, and no item comes between the calls of an assistant and
their results, so that results can be told to answer calls exactly where they do in the transcript.
-/

namespace MyTeam.Llm

open MyTeam.Py

/-- The members of a JSON object of a payload. -/
abbrev Item := List (String × Value)

namespace ChatPayload

variable (json : JsonModule) (sha256 : String → String) (supportsImages : Bool)

/-- A text block. -/
def textPart (text : String) : Value := .dict [("type", .str "text"), ("text", .str text)]

/-- An image block, by its URL. -/
def imagePart (image : ImageContent) : Value :=
  .dict [("type", .str "image_url"), ("image_url", .dict [("url", .str s!"data:{image.mimeType};base64,{image.data}")])]

/-- The item of a user message. -/
def userItem (text : String) (images : List ImageContent) : Item :=
  if images = [] then [("role", .str "user"), ("content", .str text)]
  else [("role", .str "user"), ("content", .list ((if text = "" then [] else [textPart text]) ++ images.map imagePart))]

/-- The item of the result of a tool. -/
def toolItem (result : ToolResult) : Item :=
  let (text, images) := textAndImages (.parts result.content) supportsImages nonVisionToolImagePlaceholder
  let content := if text ≠ "" then text else if images ≠ [] then "(see attached image)" else "(no tool output)"
  [("role", .str "tool"), ("tool_call_id", .str (portableToolCallId sha256 result.toolCallId)),
    ("name", .str result.toolName), ("content", .str content)]

/-- `_tool_call_to_openai`. -/
def toolCallToOpenai (call : ToolCall) : Value :=
  .dict [("id", .str (portableToolCallId sha256 call.id)), ("type", .str "function"),
    ("function", .dict [("name", .str call.name), ("arguments", .str (json.dumps (.dict call.arguments)))])]

/-- `_message_to_openai`, of an assistant message. -/
def assistantItem (message : AssistantMessage) : Item :=
  let thinking := message.content.filterMap fun block =>
    match block with
    | .thinking thinking signature _ => some (thinking, signature)
    | _ => none
  let signature := ((thinking.head?.bind Prod.snd).filter (· ≠ "")).getD "reasoning_content"
  [("role", .str "assistant"), ("content", .str message.text)] ++
    (if thinking ≠ [] ∧ signature ∈ ["reasoning_content", "reasoning", "thinking"] then
      [(signature, .str (String.join (thinking.map Prod.fst)))] else []) ++
    (if message.toolCalls = [] then []
      else [("tool_calls", .list (message.toolCalls.map (toolCallToOpenai json sha256)))])

/-- The item of a message. -/
def messageItem : AgentMessage → Item
  | .user content =>
    let (text, images) := textAndImages content supportsImages nonVisionUserImagePlaceholder
    userItem text images
  | .assistant message => assistantItem json sha256 message
  | .toolResult result => toolItem sha256 supportsImages result
  | message => [("role", .str "user"), ("content", .str (messageText message))]

/-- `_openai_tool_image_message`. -/
def openaiToolImageMessage (images : List ImageContent) : Item :=
  [("role", .str "user"), ("content", .list (textPart "Attached image(s) from tool result:" :: images.map imagePart))]

/-- The item for the images of tool results, if there are any. -/
def attached (images : List ImageContent) : List Item := if images = [] then [] else [openaiToolImageMessage images]

/-- The loop of `_messages_to_openai_chat`: the items, and the images that are pending. -/
def convert (state : List Item × List ImageContent) (message : AgentMessage) : List Item × List ImageContent :=
  let state := if message.isToolResult then state else (state.1 ++ attached state.2, [])
  (state.1 ++ [messageItem json sha256 supportsImages message],
    state.2 ++ if message.isToolResult then sentImages supportsImages message else [])

/-- The items at the end, with those of the images that are still pending. -/
def settle (state : List Item × List ImageContent) : List Item := state.1 ++ attached state.2

/-- `_messages_to_openai_chat`. -/
def messagesToOpenaiChat (messages : List AgentMessage) : List Item :=
  settle (messages.foldl (convert json sha256 supportsImages) ([], []))

/-- Two results of tools. -/
def bothResults (a b : AgentMessage) : Bool := a.isToolResult && b.isToolResult

/-- The items of consecutive results, or of another message. -/
def roundItems (round : List AgentMessage) : List Item :=
  round.map (messageItem json sha256 supportsImages) ++
    attached ((round.filter AgentMessage.isToolResult).flatMap (sentImages supportsImages))

/-- The URLs of the images of an item. -/
def imageUrls (item : Item) : List String :=
  match item.lookup "content" with
  | some (.list parts) => parts.filterMap fun part =>
    match (part.field "image_url").field "url" with
    | .str url => some url
    | _ => none
  | _ => []

/-- Whether an item has a role. -/
def hasRole (item : Item) (role : String) : Bool := ((Value.dict item).field "role").isStr role

/-- The ids of the calls of an item. -/
def callIds (item : Item) : List Value :=
  match item.lookup "tool_calls" with
  | some (.list calls) => calls.map fun call => call.field "id"
  | _ => []

/-- Every item for a result answers a call of the assistant item before it, with items for results alone between the
two; the ids are those of the calls that may be answered first. -/
def itemsAnswered : List Value → List Item → Prop
  | _, [] => True
  | ids, item :: rest =>
    if hasRole item "assistant" then itemsAnswered (callIds item) rest
    else if hasRole item "tool" then (Value.dict item).field "tool_call_id" ∈ ids ∧ itemsAnswered ids rest
    else itemsAnswered [] rest

/-- Every result answers a call of the assistant message before it, with results alone between the two, by the
portable ids. -/
def answered : List String → List AgentMessage → Prop
  | _, [] => True
  | _, .assistant message :: rest => answered (message.toolCalls.map fun call => portableToolCallId sha256 call.id) rest
  | ids, .toolResult result :: rest => portableToolCallId sha256 result.toolCallId ∈ ids ∧ answered ids rest
  | _, _ :: rest => answered [] rest

variable {json sha256 supportsImages}

/-- The results of tools leave their images pending. -/
theorem foldl_results {results : List AgentMessage} {items : List Item} {pending : List ImageContent}
    (h : ∀ m ∈ results, m.isToolResult = true) : results.foldl (convert json sha256 supportsImages) (items, pending) =
      (items ++ results.map (messageItem json sha256 supportsImages),
        pending ++ results.flatMap (sentImages supportsImages)) := by
  induction results generalizing items pending with
  | nil => simp
  | cons m rest ih =>
    have hm : m.isToolResult = true := h m List.mem_cons_self
    have hconvert : convert json sha256 supportsImages (items, pending) m =
        (items ++ [messageItem json sha256 supportsImages m], pending ++ sentImages supportsImages m) := by
      simp [convert, hm]
    rw [List.foldl_cons, hconvert, ih fun m h' => h m (List.mem_cons_of_mem _ h'), List.map_cons, List.flatMap_cons]
    simp only [List.append_assoc, List.singleton_append]

/-- A round holds results of tools alone, or one other message. -/
theorem round_cases {round : List AgentMessage} (hne : round ≠ [])
    (h : round.IsChain fun a b => bothResults a b = true) :
    (∀ m ∈ round, m.isToolResult = true) ∨ ∃ m, round = [m] ∧ m.isToolResult = false := by
  induction round with
  | nil => exact absurd rfl hne
  | cons m others ih =>
    cases others with
    | nil =>
      cases hm : m.isToolResult with
      | true => exact Or.inl fun x hx => by rw [List.mem_singleton.mp hx, hm]
      | false => exact Or.inr ⟨m, rfl, hm⟩
    | cons next rest =>
      obtain ⟨hboth, hrest⟩ := List.isChain_cons_cons.mp h
      obtain ⟨hm, hnext⟩ := Bool.and_eq_true_iff.mp hboth
      rcases ih (by simp) hrest with hall | ⟨_, heq, hother⟩
      · exact Or.inl (List.forall_mem_cons.mpr ⟨hm, hall⟩)
      · obtain ⟨rfl, -⟩ := List.cons.inj heq
        rw [hnext] at hother
        cases hother

/-- The loop over rounds. -/
theorem foldl_rounds {rounds : List (List AgentMessage)} {items : List Item} {pending : List ImageContent}
    (hne : [] ∉ rounds)
    (hround : ∀ round ∈ rounds, round.IsChain fun a b => bothResults a b = true)
    (hnext : rounds.IsChain fun a b => ∃ ha hb, bothResults (a.getLast ha) (b.head hb) = false)
    (hpending : ∀ m ∈ rounds.flatten.head?, m.isToolResult = true → pending = []) :
    settle (rounds.flatten.foldl (convert json sha256 supportsImages) (items, pending)) =
      items ++ attached pending ++ rounds.flatMap (roundItems json sha256 supportsImages) := by
  induction rounds generalizing items pending with
  | nil => simp [settle]
  | cons round rest ih =>
    rw [List.mem_cons, not_or] at hne
    obtain ⟨hround, hrounds⟩ := List.forall_mem_cons.mp hround
    have hround' : round ≠ [] := Ne.symm hne.1
    rw [List.flatten_cons, List.foldl_append, List.flatMap_cons]
    rcases round_cases hround' hround with hall | ⟨m, rfl, hm⟩
    · -- The images of the round are pending when the next one, if there is one, begins with another message.
      have hnone : pending = [] := by
        obtain ⟨m, others, rfl⟩ := List.exists_cons_of_ne_nil hround'
        exact hpending m (by simp) (hall m List.mem_cons_self)
      have hhead : ∀ m ∈ rest.flatten.head?, m.isToolResult = true →
          pending ++ round.flatMap (sentImages supportsImages) = [] := by
        intro m hm htool
        cases rest with
        | nil => simp at hm
        | cons next more =>
          obtain ⟨_, hb, hboth⟩ := (List.isChain_cons_cons.mp hnext).1
          obtain ⟨first, others, rfl⟩ := List.exists_cons_of_ne_nil hb
          obtain rfl : first = m := by simpa using hm
          rw [bothResults, hall _ (List.getLast_mem hround'), List.head_cons, htool] at hboth
          cases hboth
      rw [foldl_results hall, ih hne.2 hrounds hnext.tail hhead, hnone]
      simp [roundItems, attached, List.filter_eq_self.mpr hall]
    · have hconvert : [m].foldl (convert json sha256 supportsImages) (items, pending) =
          (items ++ attached pending ++ [messageItem json sha256 supportsImages m], []) := by
        simp [convert, hm]
      rw [hconvert, ih hne.2 hrounds hnext.tail fun _ _ _ => rfl]
      simp [roundItems, attached, hm]

/-- The items are those of the rounds: of each run of consecutive results, followed by their images, and of every other
message. -/
theorem messagesToOpenaiChat_eq (messages : List AgentMessage) :
    messagesToOpenaiChat json sha256 supportsImages messages =
    (messages.splitBy bothResults).flatMap (roundItems json sha256 supportsImages) := by
  have h : messagesToOpenaiChat json sha256 supportsImages (messages.splitBy bothResults).flatten =
      [] ++ attached [] ++ (messages.splitBy bothResults).flatMap (roundItems json sha256 supportsImages) :=
    foldl_rounds (List.nil_notMem_splitBy bothResults messages) (fun _ => List.isChain_of_mem_splitBy)
      (List.isChain_getLast_head_splitBy bothResults messages) fun _ _ _ => rfl
  rwa [List.flatten_splitBy] at h

/-- What holds of the results alone and of every other message holds of every round. -/
theorem forall_rounds {P : List AgentMessage → Prop} (messages : List AgentMessage)
    (hresults : ∀ round : List AgentMessage, (∀ m ∈ round, m.isToolResult = true) → P round)
    (hother : ∀ m : AgentMessage, m.isToolResult = false → P [m]) : ∀ round ∈ messages.splitBy bothResults,
      P round := by
  intro round hround
  rcases round_cases (List.ne_nil_of_mem_splitBy hround) (List.isChain_of_mem_splitBy hround) with hall | ⟨m, rfl, hm⟩
  · exact hresults round hall
  · exact hother m hm

/-- The URL of an image. -/
def imageUrl (image : ImageContent) : String := s!"data:{image.mimeType};base64,{image.data}"

/-- The URLs of image blocks after a block of text. -/
theorem imageUrls_parts {parts : List Value} {images : List ImageContent}
    (hparts : ∀ part ∈ parts, ∃ text, part = textPart text) :
    imageUrls [("role", .str "user"), ("content", .list (parts ++ images.map imagePart))] = images.map imageUrl := by
  have htexts : parts.filterMap (fun part =>
      match (part.field "image_url").field "url" with
      | .str url => some url
      | _ => none) = [] := by
    refine List.filterMap_eq_nil_iff.mpr fun part hpart => ?_
    obtain ⟨text, rfl⟩ := hparts part hpart
    rfl
  have himages : (images.map imagePart).filterMap (fun part =>
      match (part.field "image_url").field "url" with
      | .str url => some url
      | _ => none) = images.map imageUrl := by
    rw [List.filterMap_map, ← List.filterMap_eq_map]
    rfl
  change (parts ++ images.map imagePart).filterMap _ = _
  rw [List.filterMap_append, htexts, himages, List.nil_append]

/-- The item of the images of results holds them. -/
theorem imageUrls_attached {images : List ImageContent} :
    (attached images).flatMap imageUrls = images.map imageUrl := by
  unfold attached
  split_ifs with h
  · rw [h]
    rfl
  · rw [List.flatMap_singleton, openaiToolImageMessage]
    have htext : ∀ part ∈ [textPart "Attached image(s) from tool result:"], ∃ text, part = textPart text := by simp
    exact imageUrls_parts htext

/-- The images of an item are those that are sent with its message, but for results of tools. -/
theorem imageUrls_messageItem {m : AgentMessage} (hm : m.isToolResult = false) :
    imageUrls (messageItem json sha256 supportsImages m) = (sentImages supportsImages m).map imageUrl := by
  cases m with
  | user content =>
    simp only [messageItem, sentImages]
    generalize textAndImages content supportsImages nonVisionUserImagePlaceholder = sent
    obtain ⟨text, images⟩ := sent
    dsimp only
    unfold userItem
    split_ifs with himages htext
    · rw [himages]
      rfl
    · exact imageUrls_parts (by simp)
    · exact imageUrls_parts (by simp)
  | toolResult result => cases hm
  | _ => rfl

/-- No image is lost, doubled or moved past another. -/
theorem imageUrls_messagesToOpenaiChat (messages : List AgentMessage) :
    (messagesToOpenaiChat json sha256 supportsImages messages).flatMap imageUrls =
      (messages.flatMap (sentImages supportsImages)).map imageUrl := by
  have hround : ∀ round ∈ messages.splitBy bothResults,
      (roundItems json sha256 supportsImages round).flatMap imageUrls =
      (round.flatMap (sentImages supportsImages)).map imageUrl := by
    refine forall_rounds messages (fun round hall => ?_) fun m hm => ?_
    · have hitems : (round.map (messageItem json sha256 supportsImages)).flatMap imageUrls = [] := by
        refine List.flatMap_eq_nil_iff.mpr fun item hitem => ?_
        obtain ⟨m, hm, rfl⟩ := List.mem_map.mp hitem
        cases m with
        | toolResult result => rfl
        | _ => exact absurd (hall _ hm) Bool.false_ne_true
      rw [roundItems, List.flatMap_append, hitems, imageUrls_attached, List.filter_eq_self.mpr hall, List.nil_append]
    · simp [roundItems, attached, hm, imageUrls_messageItem hm]
  have hmessages : (messages.splitBy bothResults).flatten = messages := List.flatten_splitBy bothResults messages
  rw [messagesToOpenaiChat_eq, List.flatMap_assoc, List.flatMap_congr hround]
  conv_rhs => rw [← hmessages, ← List.flatMap_id, List.flatMap_assoc, List.map_flatMap]
  rfl

/-- The calls of the item of an assistant message. -/
theorem callIds_assistantItem {message : AssistantMessage} : callIds (assistantItem json sha256 message) =
    message.toolCalls.map fun call => .str (portableToolCallId sha256 call.id) := by
  have hcalls (items : Item) (hitems : items.lookup "tool_calls" = none) : callIds (items ++
      if message.toolCalls = [] then []
        else [("tool_calls", .list (message.toolCalls.map (toolCallToOpenai json sha256)))]) =
        message.toolCalls.map fun call => .str (portableToolCallId sha256 call.id) := by
    unfold callIds
    rw [List.lookup_append, hitems, Option.none_or]
    split_ifs with hnone
    · rw [hnone]
      rfl
    · change (message.toolCalls.map (toolCallToOpenai json sha256)).map _ = _
      rw [List.map_map]
      rfl
  unfold assistantItem
  refine hcalls _ ?_
  rw [List.lookup_append]
  split_ifs with hthinking
  · have hother {signature : String} {v : Value} (h : signature ∈ ["reasoning_content", "reasoning", "thinking"]) :
        List.lookup "tool_calls" [(signature, v)] = none := by
      simp only [List.mem_cons, List.not_mem_nil, or_false] at h
      rcases h with rfl | rfl | rfl <;> rfl
    rw [hother hthinking.2]
    rfl
  · rfl

/-- Items that are no results of tools end the answers. -/
theorem itemsAnswered_attached {ids : List Value} {images : List ImageContent} {items : List Item} :
    itemsAnswered ids (attached images ++ items) ↔ itemsAnswered (if images = [] then ids else []) items := by
  unfold attached
  split_ifs with h
  · rfl
  · rfl

/-- The items of results answer calls where the results do. -/
theorem itemsAnswered_results {ids : List String} {results : List AgentMessage} {items : List Item}
    {rest : List AgentMessage}
    (hall : ∀ m ∈ results, m.isToolResult = true)
    (h : itemsAnswered (ids.map .str) items ↔ answered sha256 ids rest) :
    itemsAnswered (ids.map .str) (results.map (messageItem json sha256 supportsImages) ++ items) ↔
      answered sha256 ids (results ++ rest) := by
  induction results with
  | nil => exact h
  | cons m others ih =>
    obtain ⟨hm, hothers⟩ := List.forall_mem_cons.mp hall
    cases m with
    | toolResult result =>
      have hmem : Value.str (portableToolCallId sha256 result.toolCallId) ∈ ids.map Value.str ↔
          portableToolCallId sha256 result.toolCallId ∈ ids := by simp
      exact and_congr hmem (ih hothers)
    | _ => exact absurd hm Bool.false_ne_true

/-- The item of a message that is neither a result nor from the assistant is from the user. -/
theorem hasRole_messageItem {m : AgentMessage} {role : String} (hresult : m.isToolResult = false)
    (hassistant : ∀ message, m ≠ .assistant message) :
    hasRole (messageItem json sha256 supportsImages m) role = decide ("user" = role) := by
  cases m with
  | user content =>
    simp only [messageItem, userItem]
    split_ifs
    · rfl
    · rfl
    · rfl
  | assistant message => exact absurd rfl (hassistant message)
  | toolResult result => cases hresult
  | _ => rfl

/-- Answers in the items of rounds. -/
theorem itemsAnswered_rounds {rounds : List (List AgentMessage)} {ids ids' : List String} (hne : [] ∉ rounds)
    (hround : ∀ round ∈ rounds, round.IsChain fun a b => bothResults a b = true)
    (hnext : rounds.IsChain fun a b => ∃ ha hb, bothResults (a.getLast ha) (b.head hb) = false)
    (hids : ∀ m ∈ rounds.flatten.head?, m.isToolResult = true → ids' = ids) :
    itemsAnswered (ids'.map .str) (rounds.flatMap (roundItems json sha256 supportsImages)) ↔
      answered sha256 ids rounds.flatten := by
  induction rounds generalizing ids ids' with
  | nil => exact Iff.rfl
  | cons round rest ih =>
    rw [List.mem_cons, not_or] at hne
    obtain ⟨hround, hrounds⟩ := List.forall_mem_cons.mp hround
    have hround' : round ≠ [] := Ne.symm hne.1
    have hafter (ids : List String) :
        itemsAnswered (ids.map .str) (rest.flatMap (roundItems json sha256 supportsImages)) ↔
        answered sha256 ids rest.flatten := ih hne.2 hrounds hnext.tail fun _ _ _ => rfl
    rw [List.flatten_cons, List.flatMap_cons, roundItems, List.append_assoc]
    rcases round_cases hround' hround with hall | ⟨m, rfl, hm⟩
    · -- After results comes another message, to which it does not matter which calls may be answered.
      have hsame : ids' = ids := by
        obtain ⟨m, others, rfl⟩ := List.exists_cons_of_ne_nil hround'
        exact hids m (by simp) (hall m List.mem_cons_self)
      rw [hsame]
      refine itemsAnswered_results hall ?_
      rw [itemsAnswered_attached, ← List.map_nil (f := Value.str), ← apply_ite (List.map Value.str)]
      refine ih hne.2 hrounds hnext.tail fun m hm htool => ?_
      cases rest with
      | nil => simp at hm
      | cons next more =>
        obtain ⟨_, hb, hboth⟩ := (List.isChain_cons_cons.mp hnext).1
        obtain ⟨first, others, rfl⟩ := List.exists_cons_of_ne_nil hb
        obtain rfl : first = m := by simpa using hm
        rw [bothResults, hall _ (List.getLast_mem hround'), List.head_cons, htool] at hboth
        cases hboth
    · have hnone : [m].filter AgentMessage.isToolResult = [] := by simp [hm]
      rw [hnone, List.flatMap_nil, List.map_singleton, attached, if_pos rfl, List.nil_append, List.singleton_append,
        List.singleton_append, itemsAnswered]
      by_cases hassistant : ∃ message, m = .assistant message
      · obtain ⟨message, rfl⟩ := hassistant
        have hrole : hasRole (messageItem json sha256 supportsImages (.assistant message)) "assistant" = true := rfl
        rw [if_pos hrole, messageItem, callIds_assistantItem, answered]
        have hcalls := hafter (message.toolCalls.map fun call => portableToolCallId sha256 call.id)
        rwa [List.map_map] at hcalls
      · have hother : ∀ message, m ≠ .assistant message := fun message heq => hassistant ⟨message, heq⟩
        rw [hasRole_messageItem hm hother, hasRole_messageItem hm hother, if_neg (by decide), if_neg (by decide)]
        cases m with
        | assistant message => exact absurd rfl (hother message)
        | toolResult result => cases hm
        | _ => exact hafter []

/-- Every message becomes one item, in order, and besides there are only the items of the images of consecutive results,
each after the last of them; the images are those of the messages, in their order. -/
theorem messagesToOpenaiChat_faithful (json : JsonModule) (sha256 : String → String) (supportsImages : Bool)
    (messages : List AgentMessage) :
    (messages.splitBy bothResults).flatten = messages ∧
      messagesToOpenaiChat json sha256 supportsImages messages =
        (messages.splitBy bothResults).flatMap (roundItems json sha256 supportsImages) ∧
      (messagesToOpenaiChat json sha256 supportsImages messages).flatMap imageUrls =
        (messages.flatMap (sentImages supportsImages)).map imageUrl :=
  ⟨List.flatten_splitBy bothResults messages, messagesToOpenaiChat_eq messages, imageUrls_messagesToOpenaiChat messages⟩

/-- Results answer calls in the items exactly if they do in the messages. -/
theorem itemsAnswered_messagesToOpenaiChat (json : JsonModule) (sha256 : String → String) (supportsImages : Bool)
    (messages : List AgentMessage) :
    itemsAnswered [] (messagesToOpenaiChat json sha256 supportsImages messages) ↔ answered sha256 [] messages := by
  have h : itemsAnswered (([] : List String).map .str)
        ((messages.splitBy bothResults).flatMap (roundItems json sha256 supportsImages)) ↔
      answered sha256 [] (messages.splitBy bothResults).flatten :=
    itemsAnswered_rounds (List.nil_notMem_splitBy bothResults messages) (fun _ => List.isChain_of_mem_splitBy)
      (List.isChain_getLast_head_splitBy bothResults messages) fun _ _ _ => rfl
  rwa [List.flatten_splitBy, ← messagesToOpenaiChat_eq] at h

end ChatPayload

end MyTeam.Llm
