import MyTeam.Legacy.AgentTools
import MyTeam.Legacy.Fold

/-!
# Reading what is staged

What an agent reads in Act should be what Commit will leave on the disk. The effects are laid over
the disk by the spelling of a path, and a file has many spellings; they are shown as they were
written, and the disk is read with universal newlines. Where a file keeps one spelling and no
carriage return is read back, reads see the staged writes, and the text that a patch was made for
is the text that Commit finds.
-/

namespace MyTeam.Legacy

open MyTeam.Py ApplyLoop

/-- The file in the home of an agent that a path leads to. -/
def PrivateStore.destination (store : PrivateStore) (fs : FileSystem) (agent path : String) : Option (List String) :=
  match store.resolvePath fs agent path with
  | .ok target => target
  | .error _ => none

/-- The file that an effect is staged for. -/
def StagedEffect.destination (ctx : Context) (fs : FileSystem) (e : StagedEffect) : Option (List String) :=
  ctx.privateStore.destination fs e.agentId e.resource

/-- The effect that was staged last for a file. -/
def lastFor (ctx : Context) (fs : FileSystem) (staged : List StagedEffect) (target : List String) :
    Option StagedEffect :=
  staged.reverse.find? fun e => e.destination ctx fs = some target

/-- The content of an effect can be read back as it is written. -/
def StagedEffect.Unreturned (e : StagedEffect) : Prop :=
  ∀ text, e.get "content" (.str "") = .str text → '\r' ∉ text.toList

/-- What is staged last for the file of a path is staged under this path, and holds no carriage return. -/
def Shown (ctx : Context) (fs : FileSystem) (staged : List StagedEffect) (agent path : String) : Prop :=
  ∀ target, ctx.privateStore.destination fs agent path = some target →
    ∀ e, lastFor ctx fs staged target = some e → e.resource = path ∧ e.Unreturned

/-- A file can be put at a path: there is no directory, and nothing above it or below it is a file, or is staged to be
one. -/
structure Vacant (ctx : Context) (fs : FileSystem) (staged : List StagedEffect) (target : List String) : Prop where
  dir : fs.node target ≠ some .dir
  above : fs.underFile target = false
  apart : ∀ e ∈ staged, ∀ other, e.destination ctx fs = some other → other <+: target ∨ target <+: other →
    other = target

/-- A file at a path is text. -/
def Legible (fs : FileSystem) (target : List String) : Prop :=
  ∀ bytes, fs.node target = some (.file bytes) → (readText bytes).isSome

/-- An effect as the tools stage it, for a file in the home of the agent. -/
structure Drafted (ctx : Context) (fs : FileSystem) (agent : String) (e : StagedEffect) : Prop where
  inside : ∃ target, e.destination ctx fs = some target
  file : e.effectType.writesFile = true
  agent : e.agentId = agent
  status : e.status = .staged
  alone : e.groupId = ""
  version : e.expectedVersion = none
  token : e.lockToken = none
  text : ∃ text, e.get "content" (.str "") = .str text
  plain : e.get "is_binary" (.bool false) = .bool false

/-- The files after effects that were staged for the files of another file system. -/
structure Overlaid (ctx : Context) (fs : FileSystem) (staged : List StagedEffect) (fs' : FileSystem) : Prop where
  resolve : fs'.resolve = fs.resolve
  written : ∀ target e, lastFor ctx fs staged target = some e →
    ∃ text, e.get "content" (.str "") = .str text ∧ fs'.node target = some (.file text.toUTF8)
  kept : ∀ target, lastFor ctx fs staged target = none → fs'.node target = fs.node target ∨
    fs.node target = none ∧ fs'.node target = some .dir ∧
      ∃ e ∈ staged, ∃ other, e.destination ctx fs = some other ∧ target <+: other

section Overlay

variable {ctx : Context} {w : World} {fs fs' : FileSystem} {staged : List StagedEffect} {e : StagedEffect}
  {agent path : String} {target other : List String}

/-- Where a path leads is what it is resolved to. -/
theorem destination_eq_some {store : PrivateStore} :
    store.destination fs agent path = some target ↔ store.resolvePath fs agent path = .ok (some target) := by
  unfold PrivateStore.destination
  cases store.resolvePath fs agent path <;> simp

/-- Where a path leads depends on the links alone. -/
theorem destination_congr {store : PrivateStore} (h : fs.resolve = fs'.resolve) :
    store.destination fs agent path = store.destination fs' agent path := by
  unfold PrivateStore.destination
  rw [resolvePath_congr h]

/-- A path that is read leads into the home. -/
theorem exists_destination {x : Bool × Value} (h : readDisk ctx fs agent path = .ok x) :
    ∃ target, ctx.privateStore.destination fs agent path = some target := by
  unfold readDisk at h
  cases hpath : ctx.privateStore.resolvePath fs agent path with
  | error error => simp [hpath] at h
  | ok resolved =>
    cases resolved with
    | none => simp [hpath] at h
    | some target => exact ⟨target, destination_eq_some.mpr hpath⟩

/-- The last effect for a file is one of them. -/
theorem lastFor_eq_some (h : lastFor ctx fs staged target = some e) : e ∈ staged ∧ e.destination ctx fs = some target :=
  ⟨List.mem_reverse.mp (List.mem_of_find?_eq_some h), by simpa using List.find?_some h⟩

/-- There is none only if no effect is staged for the file. -/
theorem lastFor_eq_none : lastFor ctx fs staged target = none ↔ ∀ e ∈ staged, e.destination ctx fs ≠ some target := by
  simp [lastFor]

/-- The last effect, after one more. -/
theorem lastFor_concat : lastFor ctx fs (staged ++ [e]) target =
    if e.destination ctx fs = some target then some e else lastFor ctx fs staged target := by
  unfold lastFor
  rw [List.reverse_append, List.reverse_singleton, List.singleton_append, List.find?_cons]
  split_ifs with h <;> simp [h]

/-- Text without carriage returns is read as it was written. -/
theorem readText_toUTF8 {text : String} : readText text.toUTF8 = some (.ofList (universalNewlines text.toList)) := by
  have hvalid : String.fromUTF8? text.toUTF8 = some text := by
    unfold String.fromUTF8?
    rw [String.toUTF8_eq_toByteArray, dif_pos text.isValidUTF8]
    rfl
  rw [readText, hvalid, Option.map_some]

/-- Nothing is laid over the disk at first. -/
theorem Overlaid.nil : Overlaid ctx fs [] fs where
  resolve := rfl
  written target e h := by cases h
  kept target _ := Or.inl rfl

/-- What is staged is text. -/
theorem Overlaid.legible (h : Overlaid ctx fs staged fs') (hlegible : Legible fs target) : Legible fs' target := by
  intro bytes hbytes
  cases hlast : lastFor ctx fs staged target with
  | none =>
    rcases h.kept target hlast with hsame | ⟨-, hdir, -⟩
    · exact hlegible bytes (hsame ▸ hbytes)
    · rw [hbytes] at hdir
      cases hdir
  | some e =>
    obtain ⟨text, -, hnode⟩ := h.written target e hlast
    rw [hnode] at hbytes
    cases hbytes
    rw [readText_toUTF8]
    rfl

/-- Where a file can be put beside what is staged, it can be put after it. -/
theorem Overlaid.vacant (h : Overlaid ctx fs staged fs') (hvacant : Vacant ctx fs staged target) :
    fs'.node target ≠ some .dir ∧ fs'.underFile target = false := by
  constructor
  case left =>
    intro hdir
    cases hlast : lastFor ctx fs staged target with
    | none =>
      rcases h.kept target hlast with hsame | ⟨-, -, e, he, other, hother, hprefix⟩
      · exact hvacant.dir (hsame ▸ hdir)
      · obtain rfl := hvacant.apart e he other hother (Or.inr hprefix)
        exact lastFor_eq_none.mp hlast e he hother
    | some e =>
      obtain ⟨text, -, hnode⟩ := h.written target e hlast
      rw [hnode] at hdir
      cases hdir
  case right =>
    have habove := hvacant.above
    rw [FileSystem.underFile, List.any_eq_false] at habove ⊢
    intro path hpath
    by_cases hne : path = target
    · simp [hne]
    · cases hlast : lastFor ctx fs staged path with
      | none =>
        have hfile := habove path hpath
        rcases h.kept path hlast with hsame | ⟨-, hdir, -⟩
        · simpa [FileSystem.isFile, hsame] using hfile
        · simp [FileSystem.isFile, hdir]
      | some e =>
        obtain ⟨he, hleads⟩ := lastFor_eq_some hlast
        exact absurd (hvacant.apart e he path hleads (Or.inl ((List.mem_inits path target).mp hpath))) hne

/-- One more effect is laid over the disk. -/
theorem Overlaid.concat {text : String} (h : Overlaid ctx fs staged fs') (hleads : e.destination ctx fs = some target)
    (htext : e.get "content" (.str "") = .str text) :
    Overlaid ctx fs (staged ++ [e]) ((fs'.mkdirParents target).write target text.toUTF8) := by
  have hbeside (path : List String) (hne : path ≠ target) :
      ((fs'.mkdirParents target).write target text.toUTF8).node path = (fs'.mkdirParents target).node path :=
    Function.update_of_ne hne _ _
  constructor
  case resolve => exact h.resolve
  case written =>
    intro path e' hlast
    rw [lastFor_concat] at hlast
    split_ifs at hlast with hpath
    · cases hlast
      obtain rfl : target = path := Option.some.inj (hleads.symm.trans hpath)
      exact ⟨text, htext, Function.update_self _ _ _⟩
    · have hne : path ≠ target := by
        rintro rfl
        exact hpath hleads
      obtain ⟨old, hold, hnode⟩ := h.written path e' hlast
      refine ⟨old, hold, ?_⟩
      rw [hbeside path hne]
      simp [FileSystem.mkdirParents, hnode]
  case kept =>
    intro path hlast
    rw [lastFor_concat] at hlast
    split_ifs at hlast with hpath
    have hne : path ≠ target := by
      rintro rfl
      exact hpath hleads
    rw [hbeside path hne]
    rcases h.kept path hlast with hsame | ⟨hnone, hdir, e', he', other, hother, hprefix⟩
    · by_cases hmade : path <+: target ∧ path ≠ target ∧ fs'.node path = none
      · refine Or.inr ⟨hsame ▸ hmade.2.2, if_pos hmade, e, by simp, target, hleads, hmade.1⟩
      · exact Or.inl ((if_neg hmade).trans hsame)
    · refine Or.inr ⟨hnone, ?_, e', List.mem_append_left _ he', other, hother, hprefix⟩
      simp [FileSystem.mkdirParents, hdir]

/-- A staged effect is applied to what is staged before it, where a file can be put. -/
theorem Overlaid.applied (h : Overlaid ctx fs staged fs') (hdrafted : Drafted ctx fs agent e)
    (hleads : e.destination ctx fs = some target) (hvacant : Vacant ctx fs staged target)
    (hlegible : Legible fs' target)
    (hbase : checkBase ctx fs' e target = .ok none) :
    ∃ fs'' undo, applyFile ctx fs' e = .applied fs'' undo ∧ Overlaid ctx fs (staged ++ [e]) fs'' := by
  obtain ⟨hdir, hunder⟩ := h.vacant hvacant
  obtain ⟨text, htext⟩ := hdrafted.text
  have hresolve : ctx.privateStore.resolvePath fs' e.agentId e.resource = .ok (some target) := by
    rw [resolvePath_congr h.resolve]
    exact destination_eq_some.mp hleads
  obtain ⟨previous, hwritten⟩ : ∃ previous, Legacy.written (fs'.node target) e = some (text.toUTF8, previous) := by
    unfold Legacy.written
    rw [hdrafted.plain, htext]
    rcases hnode : fs'.node target with _ | (_ | bytes)
    · exact ⟨.absent, rfl⟩
    · exact absurd hnode hdir
    · obtain ⟨old, hold⟩ := Option.isSome_iff_exists.mp (hlegible bytes hnode)
      exact ⟨.text old, by simp [hold, Value.truthy]⟩
  exact ⟨_, _, applyFile_applied_iff.mpr ⟨target, text.toUTF8, previous, hresolve, hbase, hunder, hwritten, rfl, rfl⟩,
    h.concat hleads htext⟩

/-- What is staged under a path. -/
def stagedUnder (staged : List StagedEffect) (path : String) : Option Value :=
  (staged.reverse.find? fun e => e.resource = path).map fun e => e.get "content" (.str "")

/-- The effects of the tools are merged by their paths. -/
theorem lookup_mergePrivate (hdrafted : ∀ e ∈ staged, Drafted ctx fs agent e) :
    (staged.foldl mergePrivate []).lookup path = stagedUnder staged path := by
  induction staged using List.reverseRecOn with
  | nil => rfl
  | append_singleton staged e ih =>
    have hlast := hdrafted e (by simp)
    have hmerge (merged : List (String × Value)) :
        mergePrivate merged e = assign e.resource (e.get "content" (.str "")) merged := by
      simp [mergePrivate, hlast.status, hlast.file]
    rw [List.foldl_concat, hmerge, lookup_assign, ih fun e he => hdrafted e (List.mem_append_left _ he)]
    unfold stagedUnder
    rw [List.reverse_append, List.reverse_singleton, List.singleton_append, List.find?_cons]
    by_cases hpath : e.resource = path
    · simp [hpath]
    · simp [hpath, Ne.symm hpath]

/-- Reading in Act, by what is staged under the path. -/
theorem readPrivateFile_eq {buffer : TransactionBuffer} (hdrafted : ∀ e ∈ buffer.effects, Drafted ctx fs agent e) :
    readPrivateFile ctx fs buffer agent path =
      (stagedUnder buffer.effects path).elim (readDisk ctx fs agent path) fun content => .ok (true, content) := by
  have hall : buffer.getEffects agent = buffer.effects :=
    List.filter_eq_self.mpr fun e he => by simpa using (hdrafted e he).agent
  unfold readPrivateFile TransactionBuffer.stagedPrivateEffects
  rw [hall, lookup_mergePrivate hdrafted]
  cases stagedUnder buffer.effects path <;> rfl

/-- What is staged under a path is staged for its file. -/
theorem destination_of_resource (hdrafted : Drafted ctx fs agent e) (hpath : e.resource = path) :
    e.destination ctx fs = ctx.privateStore.destination fs agent path := by
  rw [StagedEffect.destination, hdrafted.agent, hpath]

/-- Under a path that leads nowhere nothing is staged. -/
theorem stagedUnder_eq_none (hdrafted : ∀ e ∈ staged, Drafted ctx fs agent e)
    (h : ∀ e ∈ staged, e.destination ctx fs ≠ ctx.privateStore.destination fs agent path) :
    stagedUnder staged path = none := by
  rw [stagedUnder, Option.map_eq_none_iff, List.find?_eq_none]
  intro e he hpath
  have he' := List.mem_reverse.mp he
  exact h e he' (destination_of_resource (hdrafted e he') (of_decide_eq_true hpath))

/-- What is shown under a path is what was staged last for its file. -/
theorem Shown.stagedUnder_eq (h : Shown ctx fs staged agent path) (hdrafted : ∀ e ∈ staged, Drafted ctx fs agent e)
    (htarget : ctx.privateStore.destination fs agent path = some target) :
    stagedUnder staged path = (lastFor ctx fs staged target).map fun e => e.get "content" (.str "") := by
  cases hlast : lastFor ctx fs staged target with
  | none =>
    exact stagedUnder_eq_none hdrafted fun e he => htarget ▸ lastFor_eq_none.mp hlast e he
  | some e =>
    -- no effect after the last one for the file is staged under the path
    obtain ⟨hleads, after, before, hstaged, hafter⟩ := List.find?_eq_some_iff_append.mp hlast
    have hfind : staged.reverse.find? (fun e => e.resource = path) = some e := by
      refine List.find?_eq_some_iff_append.mpr ⟨?_, after, before, hstaged, fun e' he' => ?_⟩
      · simpa using (h target htarget e hlast).1
      · have hmem : e' ∈ staged := by
          rw [← List.mem_reverse, hstaged]
          exact List.mem_append_left _ he'
        have hnot := hafter e' he'
        by_contra hpath
        have hsame := destination_of_resource (hdrafted e' hmem) (by simpa using hpath)
        simp [hsame, htarget] at hnot
    rw [stagedUnder, hfind]

/-- Reads see what is staged, where it is shown. -/
theorem Overlaid.read (h : Overlaid ctx fs staged fs') (hdrafted : ∀ e ∈ staged, Drafted ctx fs agent e)
    (hshown : Shown ctx fs staged agent path) :
    (stagedUnder staged path).elim (readDisk ctx fs agent path) (fun content => .ok (true, content)) =
      readDisk ctx fs' agent path := by
  have hresolve : ctx.privateStore.resolvePath fs' agent path = ctx.privateStore.resolvePath fs agent path :=
    resolvePath_congr h.resolve
  cases htarget : ctx.privateStore.destination fs agent path with
  | none =>
    have hnone : stagedUnder staged path = none := stagedUnder_eq_none hdrafted fun e he hsame => by
      obtain ⟨target, hleads⟩ := (hdrafted e he).inside
      rw [hleads, htarget] at hsame
      cases hsame
    rw [hnone, Option.elim_none, readDisk, readDisk, hresolve]
    unfold PrivateStore.destination at htarget
    cases hpath : ctx.privateStore.resolvePath fs agent path with
    | error error => rfl
    | ok resolved =>
      rw [hpath] at htarget
      obtain rfl : resolved = none := htarget
      rfl
  | some target =>
    rw [hshown.stagedUnder_eq hdrafted htarget, readDisk, readDisk, hresolve, destination_eq_some.mp htarget]
    cases hlast : lastFor ctx fs staged target with
    | none =>
      rcases h.kept target hlast with hsame | ⟨hnone, hdir, -⟩
      · simp [hsame]
      · simp [hnone, hdir]
    | some e =>
      obtain ⟨text, htext, hnode⟩ := h.written target e hlast
      have hplain := (hshown target htarget e hlast).2 text htext
      have hread : readText text.toUTF8 = some text := by
        rw [readText_toUTF8, universalNewlines_of_not_mem hplain, String.ofList_toList]
      simp only [Option.map_some, Option.elim_some, htext, hnode, hread]

/-- A patch meets the text that it was made for, if it was made for what the disk holds. -/
theorem checkBase_of_readDisk {found : Bool} {content : Value} {base : String} (hpatch : e.effectType = .filePatch)
    (hleads : e.destination ctx fs' = some target)
    (hread : readDisk ctx fs' e.agentId e.resource = .ok (found, content))
    (hcontent : (if found then content else .str "") = .str base)
    (hhash : e.get "base_hash" .none = .str (ctx.sha256 base)) :
    checkBase ctx fs' e target = .ok none ∧ Legible fs' target := by
  rw [readDisk, destination_eq_some.mp hleads] at hread
  have hchecked {text : String} (htext : text = base) :
      (Value.str (ctx.sha256 base)).isStr (ctx.sha256 text) = true := by
    rw [htext]
    exact Value.isStr_iff.mpr rfl
  unfold checkBase Legible
  rw [hpatch, hhash]
  rcases hnode : fs'.node target with _ | (_ | bytes)
  · simp only [hnode, Except.ok.injEq, Prod.mk.injEq] at hread
    rw [← hread.1] at hcontent
    simpa using hchecked (Value.str.inj hcontent)
  · simp only [hnode, Except.ok.injEq, Prod.mk.injEq] at hread
    rw [← hread.1] at hcontent
    simpa using hchecked (Value.str.inj hcontent)
  · cases htext : readText bytes with
    | none => simp [hnode, htext] at hread
    | some text =>
      simp only [hnode, htext, Except.ok.injEq, Prod.mk.injEq] at hread
      rw [← hread.1, ← hread.2] at hcontent
      simpa [htext] using hchecked (Value.str.inj hcontent)

end Overlay

section Calls

variable {ctx : Context} {w : World} {fs : FileSystem} {buffer : TransactionBuffer} {agent path patch : String}
  {call : StageCall} {result : ToolResult}

/-- A patch that was applied was parsed, and was applied to text. -/
theorem patchContent_eq_ok {content : Value} {base text : String} (h : patchContent content patch = .ok (base, text)) :
    content = .str base ∧ (parseUnifiedPatch patch.toList).isOk := by
  unfold patchContent at h
  split at h
  next old =>
    obtain ⟨new, hnew, heq⟩ := PatchFailure.map_eq_ok.mp h
    obtain ⟨hunks, hparse, -⟩ := PatchFailure.bind_eq_ok hnew
    cases heq
    exact ⟨rfl, by rw [hparse]; rfl⟩
  next =>
    obtain ⟨hunks, -, hraise⟩ := PatchFailure.bind_eq_ok h
    cases hraise

/-- A patch is refused and stages nothing, or the file was read, and the patch was parsed and fits what was read. -/
theorem handleApplyPatch_cases :
    (handleApplyPatch ctx fs buffer agent path patch).1 = none ∧
        (∀ result, (handleApplyPatch ctx fs buffer agent path patch).2 = .ok result → result.success = false) ∨
      validateWritePath path = none ∧ (parseUnifiedPatch patch.toList).isOk ∧
        ∃ found content base text, readPrivateFile ctx fs buffer agent path = .ok (found, content) ∧
          (if found then content else .str "") = .str base ∧
          (handleApplyPatch ctx fs buffer agent path patch).1 = some (stagePatch ctx agent path patch base text) := by
  unfold handleApplyPatch
  dsimp only
  by_cases hpath : path = ""
  · exact Or.inl (by simp [hpath])
  rw [if_neg hpath]
  cases hvalid : validateWritePath path with
  | some error => exact Or.inl (by simp)
  | none =>
    dsimp only
    by_cases hpatch : patch = ""
    · exact Or.inl (by simp [hpatch])
    rw [if_neg hpatch]
    cases hread : readPrivateFile ctx fs buffer agent path with
    | error error => exact Or.inl (by simp)
    | ok read =>
      dsimp only
      cases happly : patchContent (if read.1 then read.2 else .str "") patch with
      | error failure => cases failure <;> exact Or.inl (by simp)
      | ok patched =>
        obtain ⟨hcontent, hparse⟩ := patchContent_eq_ok happly
        exact Or.inr ⟨rfl, hparse, read.1, read.2, patched.1, patched.2, rfl, hcontent, rfl⟩

end Calls

end MyTeam.Legacy
