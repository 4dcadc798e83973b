import MyTeam.Legacy.Recall

/-!
# What is recalled

The index and the store are changed one after the other and never part: after every run of the memory
tools an entry has the triggers of its newest version, and stands under exactly these. So a term finds
the entries that it triggers, by their newest versions, and no others.
-/

namespace MyTeam.Legacy

open MyTeam.Py

/-- Whether a term triggers an entry: it is part of its title or of one of its memory points. -/
def triggered (lower : String → String) (entry : MemoryEntry) (term : String) : Bool :=
  decide (term ≠ "") && (entry.title :: entry.memoryPoints).any fun text =>
    decide (text ≠ "") && RecallIndex.isPart (lower (lower term)) (lower text)

/-- Whether the type of an entry is asked for. -/
def asked (filterTypes : Option (List String)) (entry : MemoryEntry) : Bool :=
  filterTypes.all fun types => types = [] ∨ types.any (entry.content.field "type").isStr

/-- The index is that of the newest versions in the store. -/
structure AgentRecall.Synced (lower : String → String) (s : AgentRecall) : Prop where
  orderly : MemorySession.Orderly s.session.memory
  keys : (s.index.index.map Prod.fst).Nodup
  triggers : ∀ id, s.index.entryTriggers.lookup id =
    (s.session.memory.store id).map fun chain => RecallIndex.extractTriggers lower chain.current
  buckets : ∀ id token, id ∈ bucket token s.index.index ↔ token ∈ s.index.triggersOf id

/-- An agent that remembers nothing yet. -/
def AgentRecall.blank (agentId : String) (buffer : TransactionBuffer) : AgentRecall where
  session := ⟨{ agentId := agentId }, buffer⟩

namespace AgentRecall

variable {δ : Type} {lower : String → String} {tools : MemoryTools δ} {s s' : AgentRecall} {key : String}

/-- What is in a store after a change of one chain. -/
theorem store_set {m : MemoryStore} {chain : Option VersionChain} {id : String} :
    (m.set key chain).store id = if id = key then chain else m.store id :=
  Function.update_apply _ _ _ _

/-- The index depends on the store alone. -/
theorem Synced.congr (h : s.Synced lower) (hmemory : s'.session.memory = s.session.memory)
    (hindex : s'.index = s.index) :
    s'.Synced lower where
  orderly := hmemory ▸ h.orderly
  keys := hindex ▸ h.keys
  triggers id := by rw [hindex, hmemory, h.triggers]
  buckets id token := by rw [hindex, h.buckets]

/-- A new version is put into the index. -/
theorem Synced.put {chain : VersionChain} (h : s.Synced lower) (hchain : chain.Sequential chain.current.entryId)
    (hmemory : s'.session.memory = s.session.memory.set chain.current.entryId (some chain))
    (hindex : s'.index = s.index.onPut lower chain.current) : s'.Synced lower where
  orderly := by
    rw [hmemory]
    exact h.orderly.set fun c hc => Option.some.inj hc ▸ hchain
  keys := by
    rw [hindex]
    exact nodup_keys_reindex h.keys
  triggers id := by
    rw [hindex, hmemory, RecallIndex.onPut, lookup_assign, store_set]
    split_ifs
    · rfl
    · exact h.triggers id
  buckets id token := by
    rw [hindex, RecallIndex.triggersOf, RecallIndex.onPut]
    dsimp only
    rw [mem_bucket_reindex fun k => h.buckets chain.current.entryId k, lookup_assign]
    split_ifs with hid
    · rfl
    · exact h.buckets id token

/-- An entry is taken out of the index. -/
theorem Synced.evict (h : s.Synced lower) (hmemory : s'.session.memory = s.session.memory.set key none)
    (hindex : s'.index = s.index.onEvict key) : s'.Synced lower where
  orderly := by
    rw [hmemory]
    exact h.orderly.set fun c hc => by cases hc
  keys := by
    rw [hindex]
    exact List.foldlRecOn (motive := fun items : List (String × List String) => (items.map Prod.fst).Nodup) _ _ h.keys
      fun _ hkept _ _ => nodup_keys_discardFrom hkept
  triggers id := by
    have hlookup : (s.index.entryTriggers.filter fun item => item.1 ≠ key).lookup id =
        if decide (id ≠ key) then s.index.entryTriggers.lookup id else none :=
      lookup_filter_key (p := fun id => decide (id ≠ key))
    rw [hindex, hmemory, RecallIndex.onEvict, hlookup, store_set]
    by_cases hid : id = key
    · rw [if_neg (by simpa using hid), if_pos hid, Option.map_none]
    · rw [if_pos (by simpa using hid), if_neg hid, h.triggers]
  buckets id token := by
    have hlookup : (s.index.entryTriggers.filter fun item => item.1 ≠ key).lookup id =
        if decide (id ≠ key) then s.index.entryTriggers.lookup id else none :=
      lookup_filter_key (p := fun id => decide (id ≠ key))
    rw [hindex, RecallIndex.triggersOf, RecallIndex.onEvict, hlookup, mem_bucket_foldl_discardFrom, h.buckets]
    by_cases hid : id = key
    · simp [hid]
    · simp [hid, RecallIndex.triggersOf]

/-- A write changes the store and the index alike, or neither. -/
theorem Synced.write (h : s.Synced tools.lower) (call : MemoryCall) : (tools.write s call).1.Synced tools.lower := by
  unfold MemoryTools.write
  rcases MemorySession.perform_cases tools.codec s.session call with ⟨hsame, hnone⟩ | ⟨_, _, _, -, -, -, hperform⟩ |
    ⟨key, chain, staged, hperform, -, hchange⟩
  · rcases hresult : s.session.perform tools.codec call with ⟨session, error | (_ | effect)⟩
    · rw [hresult] at hsame
      exact h.congr (congrArg MemorySession.memory hsame) rfl
    · rw [hresult] at hsame
      exact h.congr (congrArg MemorySession.memory hsame) rfl
    · rw [hresult] at hnone
      exact absurd rfl (hnone effect)
  · rw [hperform]
    exact h.congr rfl rfl
  · rw [hperform]
    have horderly : MemorySession.Orderly (s.session.memory.set key chain) := by
      have hstep := h.orderly.step tools.codec call
      rwa [MemorySession.step, hperform] at hstep
    have hsequential (c : VersionChain) (hc : chain = some c) : c.Sequential key :=
      horderly key c (by rw [store_set, if_pos rfl, hc])
    rcases hchange with ⟨entry, longer, rfl, -, rfl, rfl, hlonger⟩ | ⟨rfl, rfl⟩ | ⟨folded, _, rfl, rfl, -, rfl⟩
    · have hcurrent : longer.current = entry := by
        rcases hlonger with ⟨-, -, rfl⟩ | ⟨before, -, happend⟩
        · rfl
        · obtain ⟨-, -, hchain⟩ := VersionChain.appendVersion_eq_ok.mp happend
          simp [VersionChain.current, hchain]
      subst hcurrent
      exact h.put (hsequential longer rfl) rfl rfl
    · exact h.evict rfl rfl
    · have hchain : (VersionChain.initial folded).Sequential (VersionChain.initial folded).current.entryId :=
        hsequential _ rfl
      exact h.put hchain rfl rfl

/-- Another version of an entry. -/
theorem Synced.amend (h : s.Synced tools.lower) (toolName flag entryId : String) (call : MemoryEntry → MemoryCall)
    (build : MemoryEntry → Except Exc MemoryEntry) :
    (tools.amend s toolName flag entryId call build).1.Synced tools.lower := by
  unfold MemoryTools.amend
  cases MemoryTools.get s entryId with
  | none => exact h
  | some entry =>
    dsimp only
    cases build entry with
    | error error => exact h
    | ok next =>
      have hwrite := h.write (call next)
      dsimp only
      generalize tools.write s (call next) = written at hwrite
      obtain ⟨s', error | _⟩ := written
      · exact hwrite
      · exact hwrite

/-- Either branch. -/
theorem Synced.ite {ρ : Type} {c : Prop} [Decidable c] {x y : AgentRecall × ρ} (hx : x.1.Synced lower)
    (hy : y.1.Synced lower) : (if c then x else y).1.Synced lower := by
  split_ifs
  · exact hx
  · exact hy

/-- A new entry. -/
theorem Synced.remember (h : s.Synced tools.lower) (toolName flag : String) (entry : MemoryEntry) :
    (tools.remember s toolName flag entry).1.Synced tools.lower := by
  unfold MemoryTools.remember
  have hwrite := h.write (.put entry)
  generalize tools.write s (.put entry) = written at hwrite
  obtain ⟨s', error | _⟩ := written
  · exact hwrite
  · exact hwrite

/-- Every call keeps the index that of the store. -/
theorem Synced.step (h : s.Synced tools.lower) (call : MemoryToolCall) : (s.step tools call).Synced tools.lower := by
  cases call with
  | fold entryId contentText title points => exact .ite h (h.amend _ _ _ _ _)
  | promote newId entryId title sopText appliesTo points taskId outcome note =>
    refine .ite h (.ite h ?_)
    dsimp only
    generalize tools.buildSkill _ appliesTo = built
    cases built with
    | error error => exact h
    | ok content => exact h.remember _ _ _
  | edit entryId contentText title points => exact .ite h (h.amend _ _ _ _ _)
  | retag entryId points => exact .ite h (h.amend _ _ _ _ _)
  | evict entryId =>
    refine .ite h ?_
    have hwrite := h.write (.evict entryId)
    generalize tools.write s (.evict entryId) = written at hwrite
    obtain ⟨s', error | (_ | _)⟩ := written
    · exact hwrite
    · exact hwrite
    · exact hwrite
  | pin entryId =>
    refine .ite h ?_
    cases MemoryTools.get s entryId with
    | none => exact h
    | some entry => exact h.congr rfl rfl
  | writeSummaryEntry entry => exact h.write (.put entry)
  | recallConfig terms => exact h.congr rfl rfl
  | memoryRecall terms => exact h.congr rfl rfl
  | recallNow contextualTerms topK filterTypes => exact h.congr rfl rfl

/-- Nothing is in step with nothing. -/
theorem synced_blank {agentId : String} {buffer : TransactionBuffer} : (blank agentId buffer).Synced lower where
  orderly key c h := by cases h
  keys := List.nodup_nil
  triggers id := rfl
  buckets id token := iff_of_false (List.not_mem_nil) (List.not_mem_nil)

/-- Every run keeps the index that of the store. -/
theorem Synced.run (h : s.Synced tools.lower) (calls : List MemoryToolCall) :
    (calls.foldl (AgentRecall.step tools) s).Synced tools.lower :=
  List.foldlRecOn calls (AgentRecall.step tools) h fun _ hkept call _ => hkept.step call

/-- A term hits what it triggers. -/
theorem Synced.mem_hitsOf (h : s.Synced lower) {term id : String} :
    id ∈ s.index.hitsOf lower term ↔ ∃ chain, s.session.memory.store id = some chain ∧
      triggered lower chain.current term = true := by
  have htriggers (token : String) : token ∈ s.index.triggersOf id ↔ ∃ chain, s.session.memory.store id = some chain ∧
      ∃ text ∈ chain.current.title :: chain.current.memoryPoints, text ≠ "" ∧ lower text = token := by
    rw [RecallIndex.triggersOf, h.triggers]
    cases s.session.memory.store id with
    | none => simp
    | some chain => simp [RecallIndex.extractTriggers, and_assoc]
  have hsearch : id ∈ s.index.substringSearch lower (lower term) ↔
      ∃ token, RecallIndex.isPart (lower (lower term)) token = true ∧ token ∈ s.index.triggersOf id := by
    simp only [RecallIndex.substringSearch, List.mem_flatMap, List.mem_filter, ← h.buckets, mem_bucket_iff h.keys]
    constructor
    · rintro ⟨⟨token, ids⟩, ⟨hitem, hpart⟩, hid⟩
      exact ⟨token, hpart, ids, hitem, hid⟩
    · rintro ⟨token, hpart, ids, hitem, hid⟩
      exact ⟨(token, ids), ⟨hitem, hpart⟩, hid⟩
  unfold RecallIndex.hitsOf
  split_ifs with hterm
  · simp [triggered, hterm]
  -- a trigger that is the term is found by the search as well
  have hexact : id ∈ s.index.lookup lower (lower term) → id ∈ s.index.substringSearch lower (lower term) := by
    rw [RecallIndex.lookup, h.buckets, hsearch]
    exact fun hmem => ⟨_, decide_eq_true (List.infix_refl _), hmem⟩
  rw [List.mem_append, or_iff_right_of_imp hexact, hsearch]
  simp only [htriggers, triggered, Bool.and_eq_true, List.any_eq_true, decide_eq_true_eq]
  constructor
  · rintro ⟨_, hpart, chain, hchain, text, htext, hne, rfl⟩
    exact ⟨chain, hchain, hterm, text, htext, hne, hpart⟩
  · rintro ⟨chain, hchain, -, text, htext, hne, hpart⟩
    exact ⟨_, hpart, chain, hchain, text, htext, hne, rfl⟩

/-- The terms that trigger an entry. -/
def triggering (lower : String → String) (terms : List String) (entry : MemoryEntry) : List String :=
  (terms.filter (triggered lower entry)).dedup

/-- The terms that hit an entry are those that trigger it. -/
theorem Synced.hitsIn_eq (h : s.Synced lower) {terms : List String} {id : String} {chain : VersionChain}
    (hchain : s.session.memory.store id = some chain) :
    s.index.hitsIn lower terms id = triggering lower terms chain.current := by
  unfold RecallIndex.hitsIn triggering
  congr 1
  apply List.filter_congr
  intro term _
  rw [Bool.eq_iff_iff, decide_eq_true_eq, h.mem_hitsOf]
  constructor
  · rintro ⟨other, hother, htriggered⟩
    rwa [Option.some.inj (hchain.symm.trans hother)]
  · exact fun htriggered => ⟨chain, hchain, htriggered⟩

/-- Some term triggers an entry. -/
theorem triggering_ne_nil {terms : List String} {entry : MemoryEntry} :
    triggering lower terms entry ≠ [] ↔ ∃ term ∈ terms, triggered lower entry term = true := by
  rw [triggering, Ne, ← List.isEmpty_iff, Bool.not_eq_true, List.isEmpty_eq_false_iff_exists_mem]
  simp only [List.mem_dedup, List.mem_filter]

/-- An entry is passed over if its type is not asked for. -/
theorem passedOver_eq {filterTypes : Option (List String)} {entry : MemoryEntry} :
    (filterTypes.any fun types =>
      decide (types ≠ [] ∧ ∀ name ∈ types, (entry.content.field "type").isStr name = false)) =
      !asked filterTypes entry := by
  cases filterTypes with
  | none => rfl
  | some types =>
    rw [Bool.eq_iff_iff, Bool.not_eq_true', ← Bool.not_eq_true, asked]
    simp

/-- What is found are the newest versions of what is triggered and asked for. -/
theorem Synced.mem_query (h : s.Synced lower) {terms : List String} {filterTypes : Option (List String)}
    {found : RecallFound} : found ∈ queryRecall lower s.index s.session.memory terms filterTypes ↔
      ∃ id chain, s.session.memory.store id = some chain ∧ asked filterTypes chain.current = true ∧
        triggering lower terms chain.current ≠ [] ∧ found = ⟨chain.current, triggering lower terms chain.current,
          sourceTagFor (chain.current.content.field "type")⟩ := by
  unfold queryRecall
  rw [List.mem_filterMap]
  constructor
  · rintro ⟨id, hid, hfound⟩
    obtain ⟨chain, hchain, hentry⟩ := Option.bind_eq_some_iff.mp hfound
    simp only [passedOver_eq, h.hitsIn_eq hchain] at hentry
    split_ifs at hentry with hasked
    rw [List.mem_dedup, List.mem_flatMap] at hid
    obtain ⟨term, hterm, hhit⟩ := hid
    obtain ⟨other, hother, htriggered⟩ := h.mem_hitsOf.mp hhit
    obtain rfl := Option.some.inj (hchain.symm.trans hother)
    exact ⟨id, chain, hchain, by simpa using hasked, triggering_ne_nil.mpr ⟨term, hterm, htriggered⟩,
      (Option.some.inj hentry).symm⟩
  · rintro ⟨id, chain, hchain, hasked, hne, rfl⟩
    obtain ⟨term, hterm, htriggered⟩ := triggering_ne_nil.mp hne
    refine ⟨id, ?_, ?_⟩
    · rw [List.mem_dedup, List.mem_flatMap]
      exact ⟨term, hterm, h.mem_hitsOf.mpr ⟨chain, hchain, htriggered⟩⟩
    · simp only [hchain, Option.bind_some, passedOver_eq, hasked, h.hitsIn_eq hchain]
      rfl

/-- No entry is found twice. -/
theorem Synced.nodup_query (h : s.Synced lower) (terms : List String) (filterTypes : Option (List String)) :
    ((queryRecall lower s.index s.session.memory terms filterTypes).map fun found => found.entry.entryId).Nodup := by
  unfold queryRecall
  rw [List.map_filterMap]
  refine List.Nodup.filterMap (fun id id' key hid hid' => ?_) (List.nodup_dedup _)
  have hkey (id : String) (hid : key ∈ Option.map (fun found : RecallFound => found.entry.entryId)
      ((s.session.memory.store id).bind fun chain =>
        let type := chain.current.content.field "type"
        if filterTypes.any fun types => types ≠ [] ∧ ∀ name ∈ types, type.isStr name = false then none
        else some ⟨chain.current, s.index.hitsIn lower terms id, sourceTagFor type⟩)) : key = id := by
    obtain ⟨found, hfound, rfl⟩ := Option.map_eq_some_iff.mp hid
    obtain ⟨chain, hchain, hentry⟩ := Option.bind_eq_some_iff.mp hfound
    dsimp only at hentry
    split_ifs at hentry
    cases hentry
    exact (h.orderly id chain hchain).owned _ (List.getLast_mem _)
  exact (hkey id hid).symm.trans (hkey id' hid')

/-- After every run of the memory tools, what is recalled are the newest versions of exactly the entries that are
triggered by the terms and asked for, each once and with the terms that trigger it, the most triggered first, as many of
them as are wanted. -/
theorem recalled_exactly (tools : MemoryTools δ) (agentId : String) (buffer : TransactionBuffer)
    (calls : List MemoryToolCall) (contextualTerms : List String) (topK : ℕ) (filterTypes : Option (List String)) :
    let s := calls.foldl (AgentRecall.step tools) (blank agentId buffer)
    let terms := mergeTerms tools.lower s.config contextualTerms
    ∃ found : List RecallFound, (tools.recallFor s contextualTerms topK filterTypes).2 = found.take topK ∧
      (found.Pairwise fun x y => y.matchedTerms.length ≤ x.matchedTerms.length) ∧
      (found.map fun x => x.entry.entryId).Nodup ∧
      ∀ x, x ∈ found ↔ ∃ id chain, s.session.memory.store id = some chain ∧ asked filterTypes chain.current = true ∧
        triggering tools.lower terms chain.current ≠ [] ∧
        x = ⟨chain.current, triggering tools.lower terms chain.current,
          sourceTagFor (chain.current.content.field "type")⟩ := by
  intro s terms
  have hsynced : s.Synced tools.lower := synced_blank.run calls
  have hperm := List.mergeSort_perm (queryRecall tools.lower s.index s.session.memory terms filterTypes)
    fun x y => decide (y.matchedTerms.length ≤ x.matchedTerms.length)
  refine ⟨_, rfl, ?_, ?_, fun x => ?_⟩
  · have hsorted : ((queryRecall tools.lower s.index s.session.memory terms filterTypes).mergeSort fun x y =>
        y.matchedTerms.length ≤ x.matchedTerms.length).Pairwise
          fun x y => decide (y.matchedTerms.length ≤ x.matchedTerms.length) = true := by
      refine List.pairwise_mergeSort (fun x y z hxy hyz => ?_) (fun x y => ?_) _
      · rw [decide_eq_true_eq] at hxy hyz ⊢
        exact hyz.trans hxy
      · simpa using le_total y.matchedTerms.length x.matchedTerms.length
    exact hsorted.imp of_decide_eq_true
  · exact (hperm.map _).nodup_iff.mpr (hsynced.nodup_query terms filterTypes)
  · rw [hperm.mem_iff]
    exact hsynced.mem_query

end AgentRecall

end MyTeam.Legacy
