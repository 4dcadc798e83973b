import MyTeam.Llm.MessagesPayload

/-!
# Marks in a payload

There are never more marks in a payload than the endpoint takes, and they change nothing that is said. A
transcript only grows at its end, so the messages of a request begin those of the next one, and the place
that was marked last in the one is marked again in the other: there the cache is read.
-/

namespace MyTeam.Llm.MessagesPayload

open MyTeam.Py

/-- The blocks of a value. -/
def blocksOf : Value → List Block
  | .list vs => vs.filterMap fun v =>
    match v with
    | .dict block => some block
    | _ => none
  | _ => []

/-- The number of marks of blocks. -/
def marksOf (blocks : List Block) : ℕ := blocks.flatten.countP fun item => item.1 = "cache_control"

/-- The number of marks of a payload. -/
def payloadMarks (payload : Block) : ℕ :=
  let payload := Value.dict payload
  marksOf (blocksOf (payload.field "system")) + marksOf (blocksOf (payload.field "tools")) +
    marksOf ((blocksOf (payload.field "messages")).flatMap fun message =>
      blocksOf ((Value.dict message).field "content"))

/-- A block without its mark. -/
def unmarked (block : Block) : Block := block.filter fun item => item.1 ≠ "cache_control"

/-- The blocks that a value says, without marks; a string is a block of text. -/
def plain : Value → List Block
  | .str s => [textBlock s]
  | v => (blocksOf v).map unmarked

/-- A text that is not blank. -/
def spoken (block : Block) : Bool := !((Value.dict block).field "text").isStr ""

/-- What a payload says: its system prompt, its messages and its tools, without marks and blank prompts. -/
def said (payload : Block) : List Block × List (Value × List Block) × List Block :=
  let payload := Value.dict payload
  ((plain (payload.field "system")).filter spoken,
    (blocksOf (payload.field "messages")).map fun message =>
      ((Value.dict message).field "role", plain ((Value.dict message).field "content")),
    plain (payload.field "tools"))

variable {control : Value} {block : Block} {blocks : List Block} {message : WireMessage} {messages : List WireMessage}

/-- The blocks of a list of blocks. -/
theorem blocksOf_list : blocksOf (.list (blocks.map .dict)) = blocks := by
  rw [blocksOf, List.filterMap_map, ← List.filterMap_some (l := blocks)]
  congr 1
  simp

/-- A mark is one more at most. -/
theorem countP_withCacheControl : (withCacheControl control block).countP (fun item => item.1 = "cache_control") ≤
    block.countP (fun item => item.1 = "cache_control") + 1 := by
  unfold withCacheControl
  induction block with
  | nil => simp [assign]
  | cons item rest ih =>
    obtain ⟨key, v⟩ := item
    by_cases hkey : key = "cache_control"
    · simp [assign, hkey]
    · simpa [assign, hkey] using ih

/-- A mark changes nothing else. -/
theorem unmarked_withCacheControl : unmarked (withCacheControl control block) = unmarked block := by
  unfold withCacheControl
  induction block with
  | nil => rfl
  | cons item rest ih =>
    obtain ⟨key, v⟩ := item
    by_cases hkey : key = "cache_control"
    · simp [assign, unmarked, hkey]
    · simpa [assign, unmarked, hkey] using ih

/-- A mark on the last block is one more at most. -/
theorem marksOf_changeLast : marksOf (changeLast (withCacheControl control) blocks) ≤ marksOf blocks + 1 := by
  induction blocks with
  | nil => exact Nat.zero_le _
  | cons block rest ih =>
    cases rest with
    | nil => simpa [changeLast, marksOf] using countP_withCacheControl
    | cons next rest =>
      have hcons (block : Block) (blocks : List Block) : marksOf (block :: blocks) =
          block.countP (fun item => item.1 = "cache_control") + marksOf blocks := by
        rw [marksOf, List.flatten_cons, List.countP_append, marksOf]
      rw [changeLast, hcons, hcons block]
      omega

/-- A mark on the last block changes nothing else. -/
theorem unmarked_changeLast : (changeLast (withCacheControl control) blocks).map unmarked = blocks.map unmarked := by
  induction blocks with
  | nil => rfl
  | cons block rest ih =>
    cases rest with
    | nil => simp [changeLast, unmarked_withCacheControl]
    | cons next rest => rw [changeLast, List.map_cons, ih, List.map_cons (l := next :: rest)]

/-- Without marks. -/
theorem marksOf_eq_zero : marksOf blocks = 0 ↔ ∀ block ∈ blocks, ∀ item ∈ block, item.1 ≠ "cache_control" := by
  rw [marksOf, List.countP_eq_zero]
  simp only [List.mem_flatten, decide_eq_true_eq, forall_exists_index, and_imp]
  exact ⟨fun h block hblock item hitem => h item block hblock hitem,
    fun h item block hblock hitem => h block hblock item hitem⟩

/-- Blocks without marks are as they are. -/
theorem map_unmarked (h : marksOf blocks = 0) : blocks.map unmarked = blocks := by
  refine (List.map_congr_left fun block hblock => ?_).trans (List.map_id blocks)
  exact List.filter_eq_self.mpr fun item hitem => by simpa using marksOf_eq_zero.mp h block hblock item hitem

/-- The marks of a content. -/
theorem marksOf_toValue {bs : List Block} : marksOf (blocksOf (Content.blocks bs).toValue) = marksOf bs := by
  rw [Content.toValue, blocksOf_list]

/-- What a content of blocks says. -/
theorem plain_blocks {bs : List Block} : plain (Content.blocks bs).toValue = bs.map unmarked := by
  rw [Content.toValue, plain, blocksOf_list]
  simp

/-- A message is marked once at most. -/
theorem marksOf_markCacheBreakpoint : marksOf (blocksOf (markCacheBreakpoint control message).content.toValue) ≤
    marksOf (blocksOf message.content.toValue) + 1 := by
  unfold markCacheBreakpoint
  split_ifs
  · exact Nat.le_succ _
  cases hcontent : message.content with
  | text s =>
    dsimp only
    split_ifs
    · rw [hcontent]
      exact Nat.le_succ _
    · rw [marksOf_toValue]
      have hlast : marksOf (changeLast (withCacheControl control) [textBlock s]) ≤ marksOf [textBlock s] + 1 :=
        marksOf_changeLast
      exact hlast
  | blocks bs =>
    dsimp only
    split_ifs
    · rw [marksOf_toValue, marksOf_toValue]
      exact marksOf_changeLast
    · rw [hcontent]
      exact Nat.le_succ _

/-- A mark changes nothing of what a message says. -/
theorem plain_markCacheBreakpoint : (markCacheBreakpoint control message).role = message.role ∧
    plain (markCacheBreakpoint control message).content.toValue = plain message.content.toValue := by
  unfold markCacheBreakpoint
  split_ifs
  · exact ⟨rfl, rfl⟩
  cases hcontent : message.content with
  | text s =>
    dsimp only
    split_ifs
    · rw [hcontent]
      exact ⟨rfl, rfl⟩
    · rw [plain_blocks, List.map_singleton, unmarked_withCacheControl]
      exact ⟨rfl, rfl⟩
  | blocks bs =>
    dsimp only
    split_ifs
    · rw [plain_blocks, plain_blocks, unmarked_changeLast]
      exact ⟨rfl, rfl⟩
    · rw [hcontent]
      exact ⟨rfl, rfl⟩

/-- What a message of a payload says. -/
def saidBy (message : WireMessage) : String × List Block := (message.role, plain message.content.toValue)

/-- The marks of messages. -/
def marksBy (messages : List WireMessage) : ℕ :=
  marksOf (messages.flatMap fun message => blocksOf message.content.toValue)

/-- Marking one message. -/
theorem modify_mark (control : Value) (messages : List WireMessage) (index : ℕ) :
    marksBy (messages.modify index (markCacheBreakpoint control)) ≤ marksBy messages + 1 ∧
    (messages.modify index (markCacheBreakpoint control)).map saidBy = messages.map saidBy := by
  induction messages generalizing index with
  | nil => simp [marksBy]
  | cons message rest ih =>
    have hcons (message : WireMessage) (rest : List WireMessage) :
        marksBy (message :: rest) = marksOf (blocksOf message.content.toValue) + marksBy rest := by
      rw [marksBy, List.flatMap_cons, marksOf, List.flatten_append, List.countP_append, ← marksOf, ← marksOf, marksBy]
    cases index with
    | zero =>
      have hmarks : marksOf (blocksOf (markCacheBreakpoint control message).content.toValue) ≤ _ :=
        marksOf_markCacheBreakpoint
      have hsaid : saidBy (markCacheBreakpoint control message) = saidBy message :=
        Prod.ext plain_markCacheBreakpoint.1 plain_markCacheBreakpoint.2
      rw [List.modify_zero_cons, hcons, hcons, List.map_cons, List.map_cons, hsaid]
      exact ⟨by omega, rfl⟩
    | succ index =>
      obtain ⟨hmarks, hsaid⟩ := ih index
      rw [List.modify_succ_cons, hcons, hcons, List.map_cons, hsaid]
      exact ⟨by omega, rfl⟩

/-- Marking messages. -/
theorem foldl_mark (control : Value) (messages : List WireMessage) (indexes : List ℕ) :
    marksBy (indexes.foldl (fun messages index => messages.modify index (markCacheBreakpoint control)) messages) ≤
        marksBy messages + indexes.length ∧
      (indexes.foldl (fun messages index => messages.modify index (markCacheBreakpoint control)) messages).map saidBy =
        messages.map saidBy := by
  induction indexes generalizing messages with
  | nil => exact ⟨Nat.le_refl _, rfl⟩
  | cons index rest ih =>
    obtain ⟨hmarks, hsaid⟩ := modify_mark control messages index
    obtain ⟨hmarks', hsaid'⟩ := ih (messages.modify index (markCacheBreakpoint control))
    rw [List.foldl_cons, List.length_cons]
    exact ⟨by omega, hsaid'.trans hsaid⟩

variable {sha256 : String → String} {supportsImages : Bool} {tools : List AgentTool} {config : Config}

/-- Text and images have no marks. -/
theorem marksOf_textAndImages {text : String} {images : List ImageContent} :
    marksOf ((if text = "" then [] else [textBlock text]) ++ images.map anthropicImage) = 0 := by
  refine marksOf_eq_zero.mpr fun block hblock => ?_
  rcases List.mem_append.mp hblock with htext | himage
  · split_ifs at htext with h
    · cases htext
    · obtain rfl := List.mem_singleton.mp htext
      simp [textBlock]
  · obtain ⟨image, -, rfl⟩ := List.mem_map.mp himage
    simp [anthropicImage]

/-- The blocks of an assistant message have no marks. -/
theorem marksOf_assistantBlock {api : String} {content : List Llm.Block} :
    marksOf (content.filterMap (assistantBlock sha256 api)) = 0 := by
  refine marksOf_eq_zero.mpr fun block hblock => ?_
  obtain ⟨part, -, hpart⟩ := List.mem_filterMap.mp hblock
  cases part with
  | text text signature =>
    obtain rfl := Option.some.inj hpart
    simp [textBlock]
  | thinking thinking signature redacted =>
    simp only [assistantBlock] at hpart
    split_ifs at hpart
    obtain rfl := Option.some.inj hpart
    cases signature with
    | none => simp
    | some signature => simp
  | toolCall call =>
    obtain rfl := Option.some.inj hpart
    simp

/-- Messages are without marks at first. -/
theorem marksBy_wireMessages (transcript : List AgentMessage) :
    marksBy (wireMessages sha256 supportsImages transcript) = 0 := by
  have hmessage (m : AgentMessage) :
      marksOf (blocksOf (anthropicMessage sha256 supportsImages m).content.toValue) = 0 := by
    cases m with
    | user content =>
      simp only [anthropicMessage]
      by_cases himages : (textAndImages content supportsImages nonVisionUserImagePlaceholder).2 = []
      · rw [if_pos himages]
        rfl
      · rw [if_neg himages, marksOf_toValue, marksOf_textAndImages]
    | assistant message => rw [anthropicMessage, marksOf_toValue, marksOf_assistantBlock]
    | toolResult result =>
      simp only [anthropicMessage]
      rw [marksOf_toValue]
      rfl
    | _ => rfl
  refine marksOf_eq_zero.mpr fun block hblock => ?_
  obtain ⟨wire, hwire, hblock⟩ := List.mem_flatMap.mp hblock
  obtain ⟨m, -, rfl⟩ := List.mem_map.mp (List.mem_filter.mp hwire).1
  exact marksOf_eq_zero.mp (hmessage m) block hblock

/-- The marks of the messages of a payload, and what they say. -/
theorem applyMessageCacheBreakpoints_spec (messages : List WireMessage) (control : Option Value) :
    marksBy (applyMessageCacheBreakpoints messages control) ≤ marksBy messages + (if control = none then 0 else 2) ∧
      (applyMessageCacheBreakpoints messages control).map saidBy = messages.map saidBy := by
  cases control with
  | none => exact ⟨Nat.le_refl _, rfl⟩
  | some control =>
    have hindexes (last : ℕ) (boundary : Option ℕ) : (last :: (boundary.filter (· ≠ last)).toList).length ≤ 2 := by
      cases boundary.filter (· ≠ last) with
      | none => simp
      | some index => simp
    obtain ⟨hmarks, hsaid⟩ := foldl_mark control messages
      ((messages.length - 1) :: ((previousRequestBoundary messages).filter (· ≠ messages.length - 1)).toList)
    refine ⟨hmarks.trans ?_, hsaid⟩
    exact Nat.add_le_add_left (hindexes _ _) _

/-- The tools of a payload, without a mark. -/
theorem anthropicTools_none : anthropicTools tools none = tools.map fun tool => anthropicTool tool none := by
  simp only [anthropicTools, ite_self]
  exact List.ext_getElem (by simp) (by simp)

/-- The tools of a payload, with a mark. -/
theorem anthropicTools_some : anthropicTools tools (some control) =
    changeLast (withCacheControl control) (tools.map fun tool => anthropicTool tool none) := by
  have hmark (tool : AgentTool) :
      anthropicTool tool (some control) = withCacheControl control (anthropicTool tool none) := by
    simp [anthropicTool, withCacheControl, assign]
  induction tools with
  | nil => rfl
  | cons tool rest ih =>
    have hcons : anthropicTools (tool :: rest) (some control) =
        anthropicTool tool (if rest = [] then some control else none) :: anthropicTools rest (some control) := by
      simp only [anthropicTools, List.mapIdx_cons, List.length_cons, Nat.add_right_cancel_iff]
      simp [eq_comm, List.length_eq_zero_iff]
    rw [hcons, ih]
    cases rest with
    | nil => simp [changeLast, hmark]
    | cons next rest => rfl

/-- The marks of the tools of a payload, and what they say. -/
theorem anthropicTools_spec (tools : List AgentTool) (control : Option Value) :
    marksOf (anthropicTools tools control) ≤ (if control = none then 0 else 1) ∧
      (anthropicTools tools control).map unmarked = (anthropicTools tools none).map unmarked := by
  have hclean : marksOf (tools.map fun tool => anthropicTool tool none) = 0 := by
    refine marksOf_eq_zero.mpr fun block hblock => ?_
    obtain ⟨tool, -, rfl⟩ := List.mem_map.mp hblock
    simp [anthropicTool]
  cases control with
  | none =>
    rw [anthropicTools_none]
    exact ⟨Nat.le_of_eq hclean, rfl⟩
  | some control =>
    have hlast : marksOf (changeLast (withCacheControl control) (tools.map fun tool => anthropicTool tool none)) ≤ _ :=
      marksOf_changeLast
    rw [anthropicTools_none, anthropicTools_some, unmarked_changeLast]
    exact ⟨hlast.trans (by simp [hclean]), rfl⟩

/-- The marks of the system prompt of a payload, and what it says. -/
theorem anthropicSystem_spec (system : String) (oauth : Option String) (control : Option Value) :
    marksOf (blocksOf (anthropicSystem system oauth control).toValue) ≤ (if control = none then 0 else 1) ∧
      (plain (anthropicSystem system oauth control).toValue).filter spoken =
        (plain (anthropicSystem system oauth none).toValue).filter spoken := by
  have htexts (texts : List String) : marksOf (texts.map textBlock) = 0 := by
    refine marksOf_eq_zero.mpr fun block hblock => ?_
    obtain ⟨text, -, rfl⟩ := List.mem_map.mp hblock
    simp [textBlock]
  have hself (texts : List String) : (texts.map textBlock).map unmarked = texts.map textBlock :=
    map_unmarked (htexts texts)
  obtain ⟨texts, hoauth⟩ :
    ∃ texts : List String, ((oauth.filter (· ≠ "")).map textBlock).toList = texts.map textBlock :=
    ⟨(oauth.filter (· ≠ "")).toList, by cases oauth.filter (· ≠ "") <;> rfl⟩
  have hall : texts.map textBlock ++ [textBlock system] = (texts ++ [system]).map textBlock := by simp
  have hplain : plain (anthropicSystem system oauth none).toValue = (texts ++ [system]).map textBlock := by
    simp only [anthropicSystem, hoauth, hall]
    split_ifs with hnone
    · rw [List.map_append, hnone]
      rfl
    · rw [plain_blocks, hself]
  cases control with
  | none =>
    refine ⟨?_, rfl⟩
    simp only [anthropicSystem, hoauth, hall]
    split_ifs
    · exact Nat.le_refl _
    · rw [marksOf_toValue, htexts]
  | some control =>
    rw [hplain, if_neg (Option.some_ne_none control)]
    by_cases hsystem : system = ""
    · -- A blank prompt is left out, unless it is all there is.
      have hrest : ((texts ++ [system]).map textBlock).filter spoken = (texts.map textBlock).filter spoken := by
        rw [List.map_append, List.filter_append, hsystem]
        exact List.append_nil _
      rw [hrest]
      simp only [anthropicSystem, hoauth, hsystem, if_true, List.append_nil]
      by_cases hnone : texts.map textBlock = []
      · rw [if_pos hnone, hnone]
        exact ⟨Nat.zero_le _, rfl⟩
      · rw [if_neg hnone, marksOf_toValue, plain_blocks, unmarked_changeLast, hself]
        exact ⟨marksOf_changeLast.trans (by rw [htexts]), rfl⟩
    · simp only [anthropicSystem, hoauth, if_neg hsystem, hall]
      rw [if_neg (by simp), marksOf_toValue, plain_blocks, unmarked_changeLast, hself]
      exact ⟨marksOf_changeLast.trans (by rw [htexts]), rfl⟩

/-- The members of a payload that can be marked. -/
theorem field_buildMessagesPayload (sha256 : String → String) (config : Config) (transcript : List AgentMessage)
    (tools : List AgentTool) :
    let payload := Value.dict (buildMessagesPayload sha256 config transcript tools)
    let control := cacheControl config.cacheRetention
    payload.field "system" = (anthropicSystem config.system config.oauthSystemPrompt control).toValue ∧
      payload.field "messages" = .list ((applyMessageCacheBreakpoints
        (wireMessages sha256 config.supportsImages transcript) control).map WireMessage.toValue) ∧
      payload.field "tools" = if tools = [] then .none
        else .list ((anthropicTools tools (if config.cacheControlOnTools then control else none)).map .dict) := by
  refine ⟨rfl, rfl, ?_⟩
  have hthinking : (thinkingMembers config).lookup "tools" = none := by
    unfold thinkingMembers
    by_cases hdisabled : config.thinkingMode = "disabled"
    · rw [if_pos hdisabled]
      rfl
    · rw [if_neg hdisabled]
      cases if config.thinkingMode = "adaptive" then config.thinkingEffort else none with
      | some effort => rfl
      | none => cases config.thinkingBudgetTokens <;> rfl
  have hfield (first members : Block) (hfirst : first.lookup "tools" = none) :
      (Value.dict (first ++ thinkingMembers config ++ members)).field "tools" = (Value.dict members).field "tools" := by
    simp only [Value.field, List.append_assoc, List.lookup_append, hfirst, hthinking, Option.none_or]
  rw [buildMessagesPayload, hfield _ _ rfl]
  by_cases hnone : tools = []
  · rw [if_pos hnone, if_pos hnone]
    rfl
  · rw [if_neg hnone, if_neg hnone]
    rfl

/-- The messages of a payload, by their values. -/
theorem blocksOf_messages : blocksOf (.list (messages.map WireMessage.toValue)) =
    messages.map fun message => [("role", .str message.role), ("content", message.content.toValue)] := by
  have hblocks : messages.map WireMessage.toValue =
      (messages.map fun message => [("role", Value.str message.role), ("content", message.content.toValue)]).map
        .dict := by
    rw [List.map_map]
    rfl
  rw [hblocks, blocksOf_list]

/-- There are four marks at most in a payload, none if nothing is to be retained, and they change nothing of what the
payload says. -/
theorem buildMessagesPayload_marks (sha256 : String → String) (config : Config) (transcript : List AgentMessage)
    (tools : List AgentTool) :
    payloadMarks (buildMessagesPayload sha256 config transcript tools) ≤
    (if config.cacheRetention = .none then 0 else 4) ∧
      said (buildMessagesPayload sha256 config transcript tools) =
        said (buildMessagesPayload sha256 { config with cacheRetention := .none } transcript tools) := by
  have hcontrol : cacheControl config.cacheRetention = none ↔ config.cacheRetention = .none := by
    cases config.cacheRetention <;> simp [cacheControl]
  have htools (control : Option Value) :
      plain (if tools = [] then .none else .list ((anthropicTools tools control).map .dict)) =
      (anthropicTools tools none).map unmarked := by
    split_ifs with hnone
    · rw [hnone]
      rfl
    · exact (congrArg (List.map unmarked) blocksOf_list).trans (anthropicTools_spec tools control).2
  have hmessages (control : Option Value) : (blocksOf (.list ((applyMessageCacheBreakpoints
      (wireMessages sha256 config.supportsImages transcript) control).map WireMessage.toValue))).map (fun message =>
        ((Value.dict message).field "role", plain ((Value.dict message).field "content"))) =
      ((wireMessages sha256 config.supportsImages transcript).map saidBy).map fun said => (.str said.1, said.2) := by
    rw [blocksOf_messages, ← (applyMessageCacheBreakpoints_spec _ control).2, List.map_map, List.map_map]
    rfl
  obtain ⟨hsystem, hwire, hoffered⟩ := field_buildMessagesPayload sha256 config transcript tools
  obtain ⟨hsystem', hwire', hoffered'⟩ :=
    field_buildMessagesPayload sha256 { config with cacheRetention := .none } transcript tools
  constructor
  · have hprompt := (anthropicSystem_spec config.system config.oauthSystemPrompt (cacheControl config.cacheRetention)).1
    have htranscript := (applyMessageCacheBreakpoints_spec (wireMessages sha256 config.supportsImages transcript)
      (cacheControl config.cacheRetention)).1
    have hlist : marksOf (blocksOf (if tools = [] then Value.none else .list ((anthropicTools tools
        (if config.cacheControlOnTools then cacheControl config.cacheRetention else none)).map .dict))) ≤
          if cacheControl config.cacheRetention = none then 0 else 1 := by
      have hoffered : cacheControl config.cacheRetention = none →
          (if config.cacheControlOnTools then cacheControl config.cacheRetention else none) = none := by
        intro hnone
        rw [hnone, ite_self]
      generalize (if config.cacheControlOnTools then cacheControl config.cacheRetention else none) =
        offered at hoffered ⊢
      by_cases hnone : tools = []
      · rw [if_pos hnone]
        exact Nat.zero_le _
      · rw [if_neg hnone, blocksOf_list]
        refine (anthropicTools_spec tools offered).1.trans ?_
        by_cases hretained : cacheControl config.cacheRetention = none
        · rw [if_pos hretained, if_pos (hoffered hretained)]
        · rw [if_neg hretained]
          split_ifs <;> omega
    rw [marksBy_wireMessages] at htranscript
    unfold payloadMarks
    dsimp only
    rw [hsystem, hwire, hoffered, blocksOf_messages, List.flatMap_map]
    simp only [hcontrol] at hprompt htranscript hlist
    change _ + _ + marksBy _ ≤ _
    split_ifs at * <;> omega
  · unfold said
    dsimp only
    rw [hsystem, hwire, hoffered, hsystem', hwire', hoffered', hmessages, hmessages, htools, htools,
      (anthropicSystem_spec config.system config.oauthSystemPrompt (cacheControl config.cacheRetention)).2]
    rfl

/-- Messages that do not have a role are passed over. -/
theorem lastWithRole_skip {role : String} {i n : ℕ} (hle : i ≤ n)
    (h : ∀ j, i ≤ j → j < n → ∀ message ∈ messages[j]?, message.role ≠ role) :
    lastWithRole messages role n = lastWithRole messages role i := by
  induction n with
  | zero => rw [Nat.le_zero.mp hle]
  | succ n ih =>
    rcases Nat.of_le_succ hle with hle | rfl
    · have hnot : ¬(messages[n]?.any fun message => message.role = role) = true := by
        intro hany
        obtain ⟨message, hmessage, hrole⟩ := (Option.any_eq_true _ _).mp hany
        exact h n hle (Nat.lt_succ_self n) message hmessage (of_decide_eq_true hrole)
      rw [lastWithRole, if_neg hnot]
      exact ih hle fun j hj hn => h j hj (Nat.lt_succ_of_lt hn)
    · rfl

/-- The last message with a role. -/
theorem lastWithRole_last {role : String} {i : ℕ} (hmessage : messages[i]? = some message)
    (hrole : message.role = role) :
    lastWithRole messages role (i + 1) = some i := by
  rw [lastWithRole, hmessage, Option.any_some, if_pos (decide_eq_true hrole)]

/-- The boundary lies before the last answer. -/
theorem previousRequestBoundary_append {before rest : List WireMessage} {last answer : WireMessage}
    (hlast : before.getLast? = some last) (huser : last.role = "user") (hanswer : answer.role = "assistant")
    (hrest : ∀ message ∈ rest, message.role ≠ "assistant") :
    previousRequestBoundary (before ++ answer :: rest) = some (before.length - 1) := by
  have hlength : before.length - 1 + 1 = before.length := by
    have hpos : before ≠ [] := by
      rintro rfl
      cases hlast
    exact Nat.sub_add_cancel (List.length_pos_of_ne_nil hpos)
  have hanswered : lastWithRole (before ++ answer :: rest) "assistant" (before ++ answer :: rest).length =
      some before.length := by
    have hskip : lastWithRole (before ++ answer :: rest) "assistant" (before ++ answer :: rest).length =
        lastWithRole (before ++ answer :: rest) "assistant" (before.length + 1) := by
      refine lastWithRole_skip (by simp) fun j hj _ message hmessage => hrest message ?_
      rw [List.getElem?_append_right (by omega)] at hmessage
      obtain ⟨k, hk⟩ : ∃ k, j - before.length = k + 1 := ⟨j - before.length - 1, by omega⟩
      rw [hk, List.getElem?_cons_succ] at hmessage
      exact List.mem_of_getElem? hmessage
    rw [hskip]
    exact lastWithRole_last (by simp) hanswer
  have hasked : lastWithRole (before ++ answer :: rest) "user" before.length = some (before.length - 1) := by
    rw [← hlength, Nat.add_sub_cancel]
    refine lastWithRole_last ?_ huser
    rw [List.getElem?_append_left (by omega), ← List.getLast?_eq_getElem?]
    exact hlast
  rw [previousRequestBoundary, hanswered, Option.bind_some, hasked]

/-- The last message and that at the boundary are marked. -/
theorem applyMessageCacheBreakpoints_marked {index : ℕ} (hmessage : messages[index]? = some message)
    (hindex : index = messages.length - 1 ∨ previousRequestBoundary messages = some index) :
    (applyMessageCacheBreakpoints messages (some control))[index]? = some (markCacheBreakpoint control message) := by
  simp only [applyMessageCacheBreakpoints]
  cases hboundary : (previousRequestBoundary messages).filter (· ≠ messages.length - 1) with
  | none =>
    have hlast : index = messages.length - 1 := by
      refine hindex.elim id fun hsome => ?_
      rw [hsome, Option.filter_some] at hboundary
      by_contra hne
      simp [hne] at hboundary
    simp [← hlast, hmessage]
  | some boundary =>
    obtain ⟨hsome, hne⟩ := Option.filter_eq_some_iff.mp hboundary
    have hne : boundary ≠ messages.length - 1 := of_decide_eq_true hne
    rcases hindex with rfl | hindex
    · simp [hne, hmessage]
    · obtain rfl : boundary = index := Option.some.inj (hsome.symm.trans hindex)
      simp [hne.symm, hmessage]

/-- The place that is marked last in a request is marked in the next one, behind the same messages: the transcript
has grown by an answer and by what came after it. -/
theorem cache_continues (sha256 : String → String) (supportsImages : Bool) (transcript more : List AgentMessage)
    (answer : AssistantMessage) (last : WireMessage) (control : Value)
    (hlast : (wireMessages sha256 supportsImages transcript).getLast? = some last) (huser : last.role = "user")
    (hanswer : (anthropicMessage sha256 supportsImages (.assistant answer)).content.isEmpty = false)
    (hmore : ∀ m ∈ more, ∀ message, m ≠ .assistant message) :
    let before := wireMessages sha256 supportsImages transcript
    let after := wireMessages sha256 supportsImages (transcript ++ .assistant answer :: more)
    before <+: after ∧
      (applyMessageCacheBreakpoints before (some control))[before.length - 1]? =
      some (markCacheBreakpoint control last) ∧
      (applyMessageCacheBreakpoints after (some control))[before.length - 1]? =
      some (markCacheBreakpoint control last) := by
  intro before after
  have hafter : after = before ++ anthropicMessage sha256 supportsImages (.assistant answer) ::
      wireMessages sha256 supportsImages more := by
    simp only [after, before, wireMessages, List.map_append, List.map_cons, List.filter_append]
    rw [List.filter_cons, hanswer, Bool.and_false, if_pos Bool.not_false]
  have husers : ∀ message ∈ wireMessages sha256 supportsImages more, message.role ≠ "assistant" := by
    intro message hmessage
    obtain ⟨m, hm, rfl⟩ := List.mem_map.mp (List.mem_filter.mp hmessage).1
    cases m with
    | assistant message => exact absurd rfl (hmore _ hm message)
    | user content =>
      simp only [anthropicMessage]
      split_ifs
      · simp
      · simp
      · simp
    | _ => simp [anthropicMessage]
  have hend : before[before.length - 1]? = some last := List.getLast?_eq_getElem?.symm.trans hlast
  have hlength : before.length - 1 < before.length := (List.getElem?_eq_some_iff.mp hend).1
  have hboundary : previousRequestBoundary after = some (before.length - 1) :=
    hafter ▸ previousRequestBoundary_append hlast huser rfl husers
  have hsame : after[before.length - 1]? = some last := by
    rw [hafter, List.getElem?_append_left hlength]
    exact hend
  refine ⟨hafter ▸ List.prefix_append _ _, ?_, ?_⟩
  · exact applyMessageCacheBreakpoints_marked hend (Or.inl rfl)
  · exact applyMessageCacheBreakpoints_marked hsame (Or.inr hboundary)

/-- A question, an answer and another question. -/
theorem cache_continues_asked : (applyMessageCacheBreakpoints (wireMessages id false
    [.user (.text "a"), .assistant { content := [.text "b"] }, .user (.text "c")]) (some (.dict [])))[0]? =
      some (markCacheBreakpoint (.dict []) ⟨"user", .text "a"⟩) :=
  (cache_continues id false [.user (.text "a")] [.user (.text "c")] { content := [.text "b"] } ⟨"user", .text "a"⟩
    (.dict [])
    rfl rfl rfl (by simp)).2.2

end MyTeam.Llm.MessagesPayload
