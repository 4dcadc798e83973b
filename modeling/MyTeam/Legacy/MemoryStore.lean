import MyTeam.Async.Course
import MyTeam.Legacy.Memory
import MyTeam.Legacy.TransactionBuffer

/-!
# The store of an agent's memory

A write, an eviction and a fold take effect at once, and each stages an effect that keeps the chain of the one
entry from before. A chain that is put back is built up again, version after version, and passes the checks
for it, because nothing leads to a chain that would not. What is staged is staged before the write is
checked, and a fold checks neither where its entry comes from nor its version.
-/

namespace MyTeam.Legacy

open MyTeam.Py MyTeam.Async

/-- `VersionChain`: the versions of an entry, the newest one last. -/
structure VersionChain where
  chain : List MemoryEntry
  nonempty : chain ≠ []

namespace VersionChain

/-- A chain of one version. -/
def initial (entry : MemoryEntry) : VersionChain := ⟨[entry], List.cons_ne_nil _ _⟩

/-- `entry_id`. -/
def entryId (c : VersionChain) : String := (c.chain.head c.nonempty).entryId

/-- `current`. -/
def current (c : VersionChain) : MemoryEntry := c.chain.getLast c.nonempty

/-- `append_version`. -/
def appendVersion (c : VersionChain) (new : MemoryEntry) : Except Exc VersionChain :=
  if new.entryId ≠ c.entryId then
    .error (.valueError s!"版本链 entry_id 不匹配：期待 {c.entryId}，实际 {new.entryId}")
  else if new.version ≠ c.current.version + 1 then
    .error (.valueError (s!"版本号必须严格递增：当前最新 {c.current.version}，" ++
      s!"新版本须为 {c.current.version + 1}，实际 {new.version}"))
  else .ok ⟨c.chain ++ [new], List.append_ne_nil_of_right_ne_nil _ (List.cons_ne_nil _ _)⟩

/-- The end of `rollback_effect`: a chain is built up from its versions. -/
def restore : List MemoryEntry → Except Exc VersionChain
  | [] => .error (.other "list index out of range")
  | first :: rest => rest.foldlM appendVersion (initial first)

end VersionChain

/-- `model_dump` and `model_validate` of entries. -/
structure EntryCodec (δ : Type) where
  modelDump : MemoryEntry → δ
  modelValidate : δ → Except Exc MemoryEntry
  validate_dump : ∀ entry, modelValidate (modelDump entry) = .ok entry

/-- `AgentMemory`, with the id of its agent. -/
structure MemoryStore where
  agentId : String
  store : String → Option VersionChain := fun _ => none

/-- A staged effect of the memory, with what `invert_data` keeps of the entry. -/
structure MemoryEffect (δ : Type) where
  staged : StagedEffect
  memoryBefore : String × Option (List δ)

/-- A call of the memory. -/
inductive MemoryCall
  | put (entry : MemoryEntry)
  | evict (entryId : String)
  | fold (entryId : String) (folded : MemoryEntry)

namespace MemoryStore

/-- A change of one chain. -/
def set (m : MemoryStore) (entryId : String) (chain : Option VersionChain) : MemoryStore :=
  { m with store := Function.update m.store entryId chain }

/-- `_apply_write`. -/
def applyWrite (m : MemoryStore) (entry : MemoryEntry) : Except Exc MemoryStore :=
  match m.store entry.entryId with
  | some chain => (chain.appendVersion entry).map fun longer => m.set entry.entryId (some longer)
  | none =>
    if entry.version ≠ 1 then .error (.valueError s!"新条目版本号必须为 1，实际为 {entry.version}")
    else .ok (m.set entry.entryId (some (.initial entry)))

/-- What is staged for a change of an entry. -/
def stageCall (m : MemoryStore) (effectType : EffectType) (entryId : String) (data : List (String × Value)) :
    StageCall where
  effectType := effectType
  agentId := m.agentId
  resource := s!"memory:{m.agentId}:{entryId}"
  data := some (("entry_id", .str entryId) :: data)

end MemoryStore

/-- A memory and the buffer in which its effects are staged. -/
structure MemorySession where
  memory : MemoryStore
  buffer : TransactionBuffer

namespace MemorySession

section Calls

variable {δ : Type} (codec : EntryCodec δ) (s : MemorySession)

/-- The effect of a change that is staged, which keeps the chain as it is. -/
def effect (call : StageCall) (entryId : String) : MemoryEffect δ where
  staged := call.effect (effectIdOf (s.buffer.counter + 1))
  memoryBefore := (entryId, (s.memory.store entryId).map fun c => c.chain.map codec.modelDump)

/-- `put`. -/
def put (entry : MemoryEntry) : MemorySession × Except Exc (Option (MemoryEffect δ)) :=
  if entry.injected then
    (s, .error (.valueError (s!"外加载条目（injected）不得写入 AgentMemory store：entry_id={entry.entryId}，" ++
      "来源段不可改写是结构性保证（store 中不存在 = 不可写）")))
  else
    let call := s.memory.stageCall .memoryEntryWrite entry.entryId [("version", .int entry.version)]
    match s.memory.applyWrite entry with
    | .error error => ({ s with buffer := s.buffer.stage call }, .error error)
    | .ok memory => (⟨memory, s.buffer.stage call⟩, .ok (some (s.effect codec call entry.entryId)))

/-- `evict`, with nothing returned if there is no such entry. -/
def evict (entryId : String) : MemorySession × Except Exc (Option (MemoryEffect δ)) :=
  match s.memory.store entryId with
  | none => (s, .ok none)
  | some _ =>
    let call := s.memory.stageCall .memoryEntryEvict entryId []
    (⟨s.memory.set entryId none, s.buffer.stage call⟩, .ok (some (s.effect codec call entryId)))

/-- `fold`. -/
def fold (entryId : String) (folded : MemoryEntry) : MemorySession × Except Exc (Option (MemoryEffect δ)) :=
  if folded.entryId ≠ entryId then
    (s, .error (.valueError s!"fold 目标 entry_id 不匹配：store={entryId}，folded_entry={folded.entryId}"))
  else
    match s.memory.store entryId with
    | none => (s, .error (.keyError s!"entry_id {entryId} 不在 store 中，无法折叠"))
    | some _ =>
      let call := s.memory.stageCall .memoryEntryFold entryId [("fold_to_version", .int folded.version)]
      (⟨s.memory.set entryId (some (.initial folded)), s.buffer.stage call⟩, .ok (some (s.effect codec call entryId)))

/-- A call, and what it returns or raises. -/
def perform : MemoryCall → MemorySession × Except Exc (Option (MemoryEffect δ))
  | .put entry => s.put codec entry
  | .evict entryId => s.evict codec entryId
  | .fold entryId folded => s.fold codec entryId folded

/-- The state after a call. -/
def step (call : MemoryCall) : MemorySession := (s.perform codec call).1

/-- Calls that succeed one after the other, and their effects. -/
def runAll (s : MemorySession) : List MemoryCall → Except Exc (MemorySession × List (MemoryEffect δ))
  | [] => .ok (s, [])
  | call :: rest =>
    match s.perform codec call with
    | (_, .error error) => .error error
    | (t, .ok result) => (runAll t rest).map fun done => (done.1, result.toList ++ done.2)

/-- `rollback_effect`. -/
def rollbackEffect (m : MemoryStore) (effect : MemoryEffect δ) : Except Exc MemoryStore :=
  if effect.staged.effectType ∉ [.memoryEntryWrite, .memoryEntryEvict, .memoryEntryFold] then .ok m
  else
    match effect.memoryBefore.2 with
    | none => .ok (m.set effect.memoryBefore.1 none)
    | some dumps => do
      let versions ← dumps.mapM codec.modelValidate
      let restored ← VersionChain.restore versions
      return m.set effect.memoryBefore.1 (some restored)

/-- Effects that are rolled back one after the other. -/
def rollbackAll (m : MemoryStore) (effects : List (MemoryEffect δ)) : Except Exc MemoryStore :=
  effects.foldlM (rollbackEffect codec) m

end Calls

end MemorySession

/-- A chain under the id of its versions, the numbers of which go up by one. -/
structure VersionChain.Sequential (key : String) (c : VersionChain) : Prop where
  owned : ∀ entry ∈ c.chain, entry.entryId = key
  consecutive : c.chain.IsChain fun before after => after.version = before.version + 1

namespace VersionChain

variable {key : String} {c longer : VersionChain} {entry : MemoryEntry}

/-- The id of a chain. -/
theorem Sequential.entryId_eq (h : c.Sequential key) : c.entryId = key :=
  h.owned _ (List.head_mem _)

/-- One version is a chain. -/
theorem sequential_initial (hkey : entry.entryId = key) : (initial entry).Sequential key where
  owned e hmem := by rw [List.mem_singleton.mp hmem, hkey]
  consecutive := List.isChain_singleton entry

/-- What is appended is the next version. -/
theorem appendVersion_eq_ok : c.appendVersion entry = .ok longer ↔
    entry.entryId = c.entryId ∧ entry.version = c.current.version + 1 ∧ longer.chain = c.chain ++ [entry] := by
  unfold appendVersion
  by_cases hid : entry.entryId = c.entryId
  · rw [if_neg (not_not.mpr hid)]
    by_cases hversion : entry.version = c.current.version + 1
    · rw [if_neg (not_not.mpr hversion)]
      constructor
      · intro h
        obtain rfl := Except.ok.inj h
        exact ⟨hid, hversion, rfl⟩
      · rintro ⟨-, -, hchain⟩
        obtain ⟨chain, nonempty⟩ := longer
        cases hchain
        rfl
    · rw [if_pos hversion]
      exact iff_of_false (fun h => by cases h) fun h => hversion h.2.1
  · rw [if_pos hid]
    exact iff_of_false (fun h => by cases h) fun h => hid h.1

/-- A chain with one more version. -/
theorem Sequential.append (h : c.Sequential key) (happend : c.appendVersion entry = .ok longer) :
    longer.Sequential key := by
  obtain ⟨hid, hversion, hchain⟩ := appendVersion_eq_ok.mp happend
  constructor
  · rw [hchain]
    intro e hmem
    rcases List.mem_append.mp hmem with hmem | hmem
    · exact h.owned e hmem
    · rw [List.mem_singleton.mp hmem, hid, h.entryId_eq]
  · rw [hchain]
    refine h.consecutive.append (List.isChain_singleton entry) fun last hlast first hfirst => ?_
    obtain rfl : c.current = last := Option.some.inj ((List.getLast?_eq_some_getLast c.nonempty).symm.trans hlast)
    cases hfirst
    exact hversion

/-- Versions that continue a chain are appended to it. -/
theorem foldlM_append {rest : List MemoryEntry} (howned : ∀ entry ∈ c.chain ++ rest, entry.entryId = key)
    (hconsecutive : (c.chain ++ rest).IsChain fun before after => after.version = before.version + 1) :
    ∃ longer, rest.foldlM appendVersion c = .ok longer ∧ longer.chain = c.chain ++ rest := by
  induction rest generalizing c with
  | nil => exact ⟨c, rfl, (List.append_nil _).symm⟩
  | cons entry rest ih =>
    have hid : entry.entryId = c.entryId := by
      rw [howned entry (List.mem_append_right _ List.mem_cons_self)]
      exact (howned _ (List.mem_append_left _ (List.head_mem c.nonempty))).symm
    have hversion : entry.version = c.current.version + 1 := by
      obtain ⟨-, -, hjoint⟩ := List.isChain_append.mp hconsecutive
      exact hjoint c.current (List.getLast?_eq_some_getLast c.nonempty) entry rfl
    have hsplit : c.chain ++ entry :: rest = (c.chain ++ [entry]) ++ rest := by
      rw [List.append_assoc, List.singleton_append]
    rw [hsplit] at howned hconsecutive
    let next : VersionChain := ⟨c.chain ++ [entry], List.append_ne_nil_of_right_ne_nil _ (List.cons_ne_nil _ _)⟩
    have happend : c.appendVersion entry = .ok next := appendVersion_eq_ok.mpr ⟨hid, hversion, rfl⟩
    obtain ⟨longer, hrest, hchain⟩ := @ih next howned hconsecutive
    refine ⟨longer, ?_, by rw [hchain, hsplit]⟩
    rw [List.foldlM_cons, happend]
    exact hrest

/-- A chain is built up again from its versions. -/
theorem Sequential.restore_eq (h : c.Sequential key) : restore c.chain = .ok c := by
  obtain ⟨first, rest, hchain⟩ := List.exists_cons_of_ne_nil c.nonempty
  have howned := h.owned
  have hconsecutive := h.consecutive
  rw [hchain] at howned hconsecutive
  obtain ⟨longer, hrest, hlonger⟩ := @foldlM_append key (initial first) rest howned hconsecutive
  have hsame : longer = c := by
    obtain ⟨chain, nonempty⟩ := c
    obtain ⟨chain', nonempty'⟩ := longer
    cases hlonger.trans hchain.symm
    rfl
  rw [hchain, restore, hrest, hsame]

end VersionChain

namespace MemorySession

variable {δ : Type} {codec : EntryCodec δ} {s t : MemorySession} {call : MemoryCall} {m : MemoryStore}

/-- All chains are under the ids of their versions, and their versions are consecutive. -/
def Orderly (m : MemoryStore) : Prop := ∀ key c, m.store key = some c → c.Sequential key

/-- A change of a chain keeps the others. -/
theorem Orderly.set {key : String} {chain : Option VersionChain} (h : Orderly m)
    (hchain : ∀ c, chain = some c → c.Sequential key) :
    Orderly (m.set key chain) := by
  intro other c hother
  change Function.update m.store key chain other = some c at hother
  by_cases hkey : other = key
  · subst hkey
    rw [Function.update_self] at hother
    exact hchain c hother
  · rw [Function.update_of_ne hkey] at hother
    exact h other c hother

/-- A write that succeeds changes the chain of its entry. -/
theorem applyWrite_eq_ok {entry : MemoryEntry} {after : MemoryStore} (h : m.applyWrite entry = .ok after) :
    ∃ longer, after = m.set entry.entryId (some longer) ∧
      ((m.store entry.entryId = none ∧ entry.version = 1 ∧ longer = .initial entry) ∨
        ∃ c, m.store entry.entryId = some c ∧ c.appendVersion entry = .ok longer) := by
  unfold MemoryStore.applyWrite at h
  cases hstore : m.store entry.entryId with
  | none =>
    rw [hstore] at h
    dsimp only at h
    split at h
    · cases h
    next hversion => exact ⟨_, (Except.ok.inj h).symm, Or.inl ⟨rfl, not_not.mp hversion, rfl⟩⟩
  | some c =>
    rw [hstore] at h
    dsimp only at h
    cases happend : c.appendVersion entry with
    | error error =>
      rw [happend] at h
      cases h
    | ok longer =>
      rw [happend] at h
      exact ⟨longer, (Except.ok.inj h).symm, Or.inr ⟨c, rfl, happend⟩⟩

/-- What a call can do: nothing; a put that raises after its effect was staged; or the change of one chain, with an
effect that keeps the chain as it was. -/
theorem perform_cases (codec : EntryCodec δ) (s : MemorySession) (call : MemoryCall) :
    ((s.perform codec call).1 = s ∧ ∀ effect, (s.perform codec call).2 ≠ .ok (some effect)) ∨
    (∃ entry error staged, call = .put entry ∧ entry.injected = false ∧ s.memory.applyWrite entry = .error error ∧
      s.perform codec call = ({ s with buffer := s.buffer.stage staged }, .error error)) ∨
    ∃ key chain staged, s.perform codec call =
        (⟨s.memory.set key chain, s.buffer.stage staged⟩, .ok (some (s.effect codec staged key))) ∧
      staged.effectType ∈ [.memoryEntryWrite, .memoryEntryEvict, .memoryEntryFold] ∧
      ((∃ entry longer, call = .put entry ∧ entry.injected = false ∧ key = entry.entryId ∧ chain = some longer ∧
          ((s.memory.store key = none ∧ entry.version = 1 ∧ longer = .initial entry) ∨
            ∃ c, s.memory.store key = some c ∧ c.appendVersion entry = .ok longer)) ∨
        (call = .evict key ∧ chain = none) ∨
        ∃ folded c, call = .fold key folded ∧ folded.entryId = key ∧ s.memory.store key = some c ∧
          chain = some (.initial folded)) := by
  cases call with
  | put entry =>
    have hput : s.perform codec (.put entry) = s.put codec entry := rfl
    unfold put at hput
    by_cases hinjected : entry.injected = true
    · rw [if_pos hinjected] at hput
      rw [hput]
      exact Or.inl ⟨rfl, fun effect h => by cases h⟩
    · rw [if_neg hinjected] at hput
      rw [Bool.not_eq_true] at hinjected
      rw [hput]
      right
      dsimp only
      cases hwrite : s.memory.applyWrite entry with
      | error error => exact Or.inl ⟨entry, error, _, rfl, hinjected, hwrite, rfl⟩
      | ok memory =>
        obtain ⟨longer, rfl, hlonger⟩ := applyWrite_eq_ok hwrite
        exact Or.inr ⟨_, _, _, rfl, List.mem_cons_self, Or.inl ⟨entry, longer, rfl, hinjected, rfl, rfl, hlonger⟩⟩
  | evict key =>
    have hevict : s.perform codec (.evict key) = s.evict codec key := rfl
    unfold evict at hevict
    cases hstore : s.memory.store key with
    | none =>
      rw [hstore] at hevict
      rw [hevict]
      exact Or.inl ⟨rfl, fun effect h => by cases h⟩
    | some c =>
      rw [hstore] at hevict
      rw [hevict]
      exact Or.inr (Or.inr ⟨key, none, _, rfl, List.mem_cons_of_mem _ List.mem_cons_self, Or.inr (Or.inl ⟨rfl, rfl⟩)⟩)
  | fold key folded =>
    have hfold : s.perform codec (.fold key folded) = s.fold codec key folded := rfl
    unfold fold at hfold
    by_cases hid : folded.entryId = key
    · rw [if_neg (not_not.mpr hid)] at hfold
      cases hstore : s.memory.store key with
      | none =>
        rw [hstore] at hfold
        rw [hfold]
        exact Or.inl ⟨rfl, fun effect h => by cases h⟩
      | some c =>
        rw [hstore] at hfold
        rw [hfold]
        exact Or.inr (Or.inr ⟨key, _, _, rfl, List.mem_cons_of_mem _ (List.mem_cons_of_mem _ List.mem_cons_self),
          Or.inr (Or.inr ⟨folded, c, rfl, hid, hstore, rfl⟩)⟩)
    · rw [if_pos hid] at hfold
      rw [hfold]
      exact Or.inl ⟨rfl, fun effect h => by cases h⟩

/-- Every call keeps the chains in order. -/
theorem Orderly.step (h : Orderly s.memory) (codec : EntryCodec δ) (call : MemoryCall) :
    Orderly (s.step codec call).memory := by
  unfold MemorySession.step
  rcases perform_cases codec s call with ⟨hsame, -⟩ | ⟨_, _, _, -, -, -, hperform⟩ |
    ⟨key, chain, staged, hperform, -, hchange⟩
  · rwa [hsame]
  · rwa [hperform]
  · rw [hperform]
    refine h.set fun c hc => ?_
    rcases hchange with ⟨entry, longer, -, -, rfl, rfl, hlonger⟩ | ⟨-, rfl⟩ | ⟨folded, _, -, hid, -, rfl⟩
    · cases hc
      rcases hlonger with ⟨-, -, rfl⟩ | ⟨before, hbefore, happend⟩
      · exact VersionChain.sequential_initial rfl
      · exact (h _ before hbefore).append happend
    · cases hc
    · cases hc
      exact VersionChain.sequential_initial hid

/-- Dumps are read back. -/
theorem mapM_validate (entries : List MemoryEntry) :
    (entries.map codec.modelDump).mapM codec.modelValidate = .ok entries := by
  induction entries with
  | nil => rfl
  | cons entry rest ih =>
    rw [List.map_cons, List.mapM_cons, codec.validate_dump, ih]
    rfl

/-- A chain is put back as it was. -/
theorem set_set_same {key : String} {chain : Option VersionChain} : (m.set key chain).set key (m.store key) = m := by
  unfold MemoryStore.set
  dsimp only
  rw [Function.update_idem, Function.update_eq_self]

/-- An effect that keeps a chain is rolled back. -/
theorem rollbackEffect_effect {key : String} {chain : Option VersionChain} {staged : StageCall} (h : Orderly s.memory)
    (htype : staged.effectType ∈ [.memoryEntryWrite, .memoryEntryEvict, .memoryEntryFold]) :
    rollbackEffect codec (s.memory.set key chain) (s.effect codec staged key) = .ok s.memory := by
  have hback := @set_set_same s.memory key chain
  have hmemory : ¬(s.effect codec staged key).staged.effectType ∉
      [EffectType.memoryEntryWrite, .memoryEntryEvict, .memoryEntryFold] := not_not.mpr htype
  unfold rollbackEffect
  rw [if_neg hmemory]
  unfold effect
  dsimp only
  cases hstore : s.memory.store key with
  | none =>
    rw [hstore] at hback
    rw [Option.map_none]
    dsimp only
    rw [hback]
  | some c =>
    rw [hstore] at hback
    rw [Option.map_some]
    dsimp only
    rw [mapM_validate]
    change (VersionChain.restore c.chain >>= _) = _
    rw [(h key c hstore).restore_eq]
    change Except.ok ((s.memory.set key chain).set key (some c)) = _
    rw [hback]

/-- Calls that succeed: the first one, then the others. -/
theorem runAll_cons {rest : List MemoryCall} {u : MemorySession} {effects : List (MemoryEffect δ)}
    (h : s.runAll codec (call :: rest) = .ok (u, effects)) : ∃ t result later, s.perform codec call = (t, .ok result) ∧
      t.runAll codec rest = .ok (u, later) ∧ effects = result.toList ++ later := by
  rw [runAll] at h
  cases hcall : s.perform codec call with
  | mk t result =>
    rw [hcall] at h
    cases result with
    | error error => cases h
    | ok result =>
      dsimp only at h
      cases hrest : t.runAll codec rest with
      | error error =>
        rw [hrest] at h
        cases h
      | ok done =>
        rw [hrest] at h
        cases h
        exact ⟨t, result, done.2, rfl, hrest, rfl⟩

/-- The effect of a call that succeeds is rolled back. -/
theorem rollbackAll_perform {result : Option (MemoryEffect δ)} (h : Orderly s.memory)
    (hcall : s.perform codec call = (t, .ok result)) : rollbackAll codec t.memory result.toList = .ok s.memory := by
  rcases perform_cases codec s call with ⟨hsame, hnothing⟩ | ⟨_, _, _, -, -, -, hperform⟩ |
    ⟨key, chain, staged, hperform, htype, -⟩
  · rw [hcall] at hsame hnothing
    cases result with
    | none =>
      cases hsame
      rfl
    | some effect => exact absurd rfl (hnothing effect)
  · rw [hcall] at hperform
    cases hperform
  · rw [hcall] at hperform
    cases hperform
    change (rollbackEffect codec (s.memory.set key chain) (s.effect codec staged key) >>= pure) = _
    rw [rollbackEffect_effect h htype]
    rfl

/-- The effects of calls that succeed are rolled back in reverse order. -/
theorem rollbackAll_runAll {calls : List MemoryCall} {effects : List (MemoryEffect δ)} (h : Orderly s.memory)
    (hrun : s.runAll codec calls = .ok (t, effects)) : rollbackAll codec t.memory effects.reverse = .ok s.memory := by
  induction calls generalizing s effects with
  | nil =>
    cases hrun
    rfl
  | cons call rest ih =>
    obtain ⟨u, result, later, hcall, hrest, rfl⟩ := runAll_cons hrun
    have hkept : Orderly u.memory := by
      have hstep := h.step codec call
      unfold MemorySession.step at hstep
      rwa [hcall] at hstep
    have hlater := ih hkept hrest
    have hfirst := rollbackAll_perform h hcall
    have hsingle : result.toList.reverse = result.toList := by cases result <;> rfl
    unfold rollbackAll at hlater hfirst ⊢
    rw [List.reverse_append, List.foldlM_append, hlater, hsingle]
    exact hfirst

/-- A memory to which nothing has been written. -/
def start (agentId : String) : MemorySession := ⟨{ agentId := agentId }, .empty⟩

/-- An empty memory is in order. -/
theorem orderly_start (agentId : String) : Orderly (start agentId).memory := fun _ _ h => by cases h

/-- Calls keep the chains in order. -/
theorem orderly_foldl (h : Orderly s.memory) (codec : EntryCodec δ) (calls : List MemoryCall) :
    Orderly (calls.foldl (step codec) s).memory := by
  induction calls generalizing s with
  | nil => exact h
  | cons call rest ih => exact ih (h.step codec call)

/-- After any calls, the effects of further calls that succeed are rolled back in reverse order, to what the memory was
before these. -/
theorem rollback_exact (codec : EntryCodec δ) (agentId : String) (earlier calls : List MemoryCall) (t : MemorySession)
    (effects : List (MemoryEffect δ))
    (h : (earlier.foldl (step codec) (start agentId)).runAll codec calls = .ok (t, effects)) :
    rollbackAll codec t.memory effects.reverse = .ok (earlier.foldl (step codec) (start agentId)).memory :=
  rollbackAll_runAll (orderly_foldl (orderly_start agentId) codec earlier) h

/-- Entries that are dumped as dictionaries. -/
def entryCodec : EntryCodec Value where
  modelDump entry := .dict [("entry_id", .str entry.entryId), ("version", .int entry.version),
    ("origin", .str (if entry.injected then "injected" else "own")), ("content", entry.content)]
  modelValidate
    | .dict [(_, .str entryId), (_, .int version), (_, .str origin), (_, content)] =>
      .ok ⟨entryId, version.toNat, origin = "injected", content⟩
    | _ => .error (.valueError "validation error for MemoryEntry")
  validate_dump entry := by
    obtain ⟨entryId, version, injected, content⟩ := entry
    cases injected
    · have hown : "own" ≠ "injected" := by decide
      simp [hown]
    · simp

/-- A note in its first version. -/
def firstNote : MemoryEntry := ⟨"note", 1, false, .str "draft"⟩

/-- The note in its second version. -/
def secondNote : MemoryEntry := ⟨"note", 2, false, .str "final"⟩

/-- A second version and the eviction of the note, rolled back. -/
theorem rollback_exact_note : ∃ t effects,
    (([MemoryCall.put firstNote].foldl (step entryCodec) (start "ada")).runAll entryCodec
      [.put secondNote, .evict "note"] = .ok (t, effects)) ∧
    rollbackAll entryCodec t.memory effects.reverse =
      .ok ([MemoryCall.put firstNote].foldl (step entryCodec) (start "ada")).memory :=
  ⟨_, _, rfl, rollback_exact entryCodec "ada" [.put firstNote] [.put secondNote, .evict "note"] _ _ rfl⟩

/-- The chains are in order, and no version comes from elsewhere. -/
def Sound (s : MemorySession) : Prop :=
  Orderly s.memory ∧ ∀ key c, s.memory.store key = some c → ∀ entry ∈ c.chain, entry.injected = false

/-- A call takes no stored entry back to an earlier version, and if it raises, it leaves the memory and the buffer as
they are. -/
def Careful (codec : EntryCodec δ) (s : MemorySession) (call : MemoryCall) : Prop :=
  (∀ key before after, s.memory.store key = some before → (s.step codec call).memory.store key = some after →
    before.current.version ≤ after.current.version) ∧
    ∀ error, (s.perform codec call).2 = .error error → (s.perform codec call).1 = s

/-- A write brings the next version, or the first one of a new entry, and a fold brings an entry of the agent's own
that is not older. -/
def Fits (s : MemorySession) : MemoryCall → Prop
  | .put entry => entry.injected = false → entry.version =
      match s.memory.store entry.entryId with
      | none => 1
      | some c => c.current.version + 1
  | .evict _ => True
  | .fold key folded => folded.entryId = key → ∀ c, s.memory.store key = some c →
      folded.injected = false ∧ c.current.version ≤ folded.version

/-- The version of a chain with one more. -/
theorem current_append {c longer : VersionChain} {entry : MemoryEntry} (h : c.appendVersion entry = .ok longer) :
    longer.current = entry := by
  obtain ⟨-, -, hchain⟩ := VersionChain.appendVersion_eq_ok.mp h
  unfold VersionChain.current
  simp only [hchain, List.getLast_concat]

/-- A write that does not raise brings the version that it has to. -/
theorem applyWrite_error_iff {entry : MemoryEntry} (h : Orderly m) : (∃ error, m.applyWrite entry = .error error) ↔
    entry.version ≠ match m.store entry.entryId with
      | none => 1
      | some c => c.current.version + 1 := by
  unfold MemoryStore.applyWrite
  cases hstore : m.store entry.entryId with
  | none =>
    dsimp only
    by_cases hversion : entry.version = 1
    · rw [if_neg (not_not.mpr hversion)]
      exact iff_of_false (fun ⟨_, h⟩ => by cases h) fun hne => hne hversion
    · rw [if_pos hversion]
      exact iff_of_true ⟨_, rfl⟩ hversion
  | some c =>
    dsimp only
    have hid := (h _ c hstore).entryId_eq
    by_cases hversion : entry.version = c.current.version + 1
    · obtain ⟨longer, happend⟩ : ∃ longer, c.appendVersion entry = .ok longer :=
        ⟨⟨c.chain ++ [entry], List.append_ne_nil_of_right_ne_nil _ (List.cons_ne_nil _ _)⟩,
          VersionChain.appendVersion_eq_ok.mpr ⟨hid.symm, hversion, rfl⟩⟩
      rw [happend]
      exact iff_of_false (fun ⟨_, h⟩ => by cases h) fun hne => hne hversion
    · refine iff_of_true ?_ hversion
      cases happend : c.appendVersion entry with
      | error error => exact ⟨error, rfl⟩
      | ok longer => exact absurd (VersionChain.appendVersion_eq_ok.mp happend).2.1 hversion

/-- What a change of one chain leaves in the memory. -/
theorem forall_set {key : String} {chain : Option VersionChain} {p : String → VersionChain → Prop} :
    (∀ other c, (m.set key chain).store other = some c → p other c) ↔
      (∀ c, chain = some c → p key c) ∧ ∀ other c, other ≠ key → m.store other = some c → p other c := by
  unfold MemoryStore.set
  constructor
  · intro h
    refine ⟨fun c hc => h key c (by rw [hc]; exact Function.update_self _ _ _), fun other c hne hother => ?_⟩
    exact h other c ((Function.update_of_ne hne _ _).trans hother)
  · rintro ⟨hself, hothers⟩ other c hother
    dsimp only at hother
    by_cases hkey : other = key
    · subst hkey
      rw [Function.update_self] at hother
      exact hself c hother
    · rw [Function.update_of_ne hkey] at hother
      exact hothers other c hkey hother

/-- The versions of stored entries after a change of one chain that is not taken back. -/
theorem versions_set {key : String} {chain : Option VersionChain}
    (h : ∀ before after, m.store key = some before → chain = some after →
      before.current.version ≤ after.current.version)
    (other : String) (before after : VersionChain) (hbefore : m.store other = some before)
    (hafter : (m.set key chain).store other = some after) : before.current.version ≤ after.current.version := by
  change Function.update m.store key chain other = some after at hafter
  by_cases hkey : other = key
  · subst hkey
    rw [Function.update_self] at hafter
    exact h before after hbefore hafter
  · rw [Function.update_of_ne hkey, hbefore] at hafter
    cases hafter
    exact le_rfl

/-- What a fitting call keeps. -/
theorem Sound.step (sound : s.Sound) (fits : s.Fits call) : (s.step codec call).Sound ∧ s.Careful codec call := by
  have hordered := Orderly.step sound.1 codec call
  unfold MemorySession.step at hordered
  unfold Careful MemorySession.step
  rcases perform_cases codec s call with ⟨hsame, -⟩ | ⟨entry, error, staged, rfl, hown, hwrite, -⟩ |
    ⟨key, chain, staged, hperform, -, hchange⟩
  · rw [hsame]
    refine ⟨sound, fun key before after hbefore hafter => ?_, fun _ _ => rfl⟩
    obtain rfl := Option.some.inj (hbefore.symm.trans hafter)
    exact le_rfl
  · exact absurd (fits hown) ((applyWrite_error_iff sound.1).mp ⟨error, hwrite⟩)
  · rw [hperform] at hordered ⊢
    refine ⟨⟨hordered, ?_⟩, fun other before after => ?_, fun error h => by cases h⟩
    · refine forall_set.mpr ⟨fun c hc => ?_, fun other c _ hother => sound.2 other c hother⟩
      rcases hchange with ⟨entry, longer, rfl, hown, rfl, rfl, hlonger⟩ | ⟨rfl, rfl⟩ |
        ⟨folded, old, rfl, hid, hold, rfl⟩
      · cases hc
        rcases hlonger with ⟨-, -, rfl⟩ | ⟨old, hold, happend⟩
        · exact fun e hmem => List.mem_singleton.mp hmem ▸ hown
        · rw [(VersionChain.appendVersion_eq_ok.mp happend).2.2]
          intro e hmem
          rcases List.mem_append.mp hmem with hmem | hmem
          · exact sound.2 _ old hold e hmem
          · exact List.mem_singleton.mp hmem ▸ hown
      · cases hc
      · cases hc
        exact fun e hmem => List.mem_singleton.mp hmem ▸ (fits hid old hold).1
    · refine versions_set (fun before after hbefore hafter => ?_) other before after
      rcases hchange with ⟨entry, longer, rfl, hown, rfl, rfl, hlonger⟩ | ⟨rfl, rfl⟩ |
        ⟨folded, old, rfl, hid, hold, rfl⟩
      · cases hafter
        rcases hlonger with ⟨hnone, -, -⟩ | ⟨old, hold, happend⟩
        · rw [hnone] at hbefore
          cases hbefore
        · obtain rfl := Option.some.inj (hold.symm.trans hbefore)
          rw [current_append happend, (VersionChain.appendVersion_eq_ok.mp happend).2.1]
          exact Nat.le_succ _
      · cases hafter
      · cases hafter
        obtain rfl := Option.some.inj (hold.symm.trans hbefore)
        exact (fits hid old hold).2

/-- A call that keeps what it should was fitting. -/
theorem Sound.fits (sound : s.Sound) (careful : s.Careful codec call) (after : (s.step codec call).Sound) :
    s.Fits call := by
  unfold Careful MemorySession.step at careful
  unfold MemorySession.step at after
  cases call with
  | evict key => trivial
  | put entry =>
    intro hown
    by_contra hversion
    obtain ⟨error, hwrite⟩ := (applyWrite_error_iff sound.1).mpr hversion
    have hperform : s.perform codec (.put entry) = s.put codec entry := rfl
    unfold put at hperform
    rw [if_neg (by rw [hown]; exact Bool.false_ne_true)] at hperform
    dsimp only at hperform
    rw [hwrite] at hperform
    have hsame := congrArg (fun t => t.buffer.counter) (careful.2 error (congrArg Prod.snd hperform))
    rw [hperform] at hsame
    exact absurd hsame (Nat.succ_ne_self _)
  | fold key folded =>
    intro hid c hstore
    have hperform : s.perform codec (.fold key folded) = s.fold codec key folded := rfl
    unfold fold at hperform
    rw [if_neg (not_not.mpr hid), hstore] at hperform
    have hfolded : (s.perform codec (.fold key folded)).1.memory.store key = some (.initial folded) := by
      rw [hperform]
      exact Function.update_self _ _ _
    exact ⟨after.2 key _ hfolded folded (List.mem_singleton_self folded), careful.1 key c _ hstore hfolded⟩

/-- Nothing is stored. -/
theorem sound_start (agentId : String) : (start agentId).Sound :=
  ⟨orderly_start agentId, fun _ _ h => by cases h⟩

/-- In all states of a course of calls the chains are in order and of the agent's own, no version goes back, and calls
that raise change nothing, if and only if every call of the course is fitting. -/
theorem sound_throughout_iff (codec : EntryCodec δ) (agentId : String) (calls : List MemoryCall) :
    Throughout (step codec) Sound (Careful codec) (start agentId) calls ↔
    Each (step codec) Fits (start agentId) calls :=
  throughout_iff_each (sound_start agentId) id (fun sound fits => sound.step fits)
    fun sound careful after => sound.fits careful after

/-- A write of a second version without a first one raises, and its effect stays in the buffer. -/
theorem second_without_first :
    ¬Throughout (step entryCodec) Sound (Careful entryCodec) (start "ada") [.put secondNote] := by
  rintro ⟨-, hcareful, -⟩
  obtain ⟨error, hraises⟩ : ∃ error, ((start "ada").perform entryCodec (.put secondNote)).2 = .error error := ⟨_, rfl⟩
  have hsame := congrArg (fun s => s.buffer.counter) (hcareful.2 error hraises)
  exact absurd hsame (by decide)

end MemorySession

end MyTeam.Legacy
