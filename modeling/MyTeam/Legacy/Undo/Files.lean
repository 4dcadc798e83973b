import MyTeam.Legacy.Inverses
import MyTeam.Undo.Stores

/-!
# Undoing file effects

What a file effect wrote is put back by its inverse, byte for byte where the file was missing, was
replaced as bytes, or held text without carriage returns. The directories that were made for it
stay behind, which no other effect that succeeds notices.
-/

namespace MyTeam.Legacy

open MyTeam.Py MyTeam.Undo

/-- The bytes of the file at a path. -/
def FileSystem.content (fs : FileSystem) (path : List String) : Option ByteArray :=
  match fs.node path with
  | some (.file bytes) => some bytes
  | _ => none

/-- The same files, and at least the directories of the other. -/
structure FilesMatch (fs fs' : FileSystem) : Prop where
  content : ∀ path, fs.content path = fs'.content path
  dirs : ∀ path, fs'.node path = some .dir → fs.node path = some .dir
  resolve : fs.resolve = fs'.resolve

/-- A file stands at a path, and directories above it. -/
structure Placed (fs : FileSystem) (target : List String) : Prop where
  file : ∃ bytes, fs.node target = some (.file bytes)
  above : ∀ path, path <+: target → path ≠ target → fs.node path = some .dir

/-- What the write of a file puts at its path and what it records, by what stood there; `none` where it fails. -/
def written (node : Option FileNode) (e : StagedEffect) : Option (ByteArray × FilePrevious) :=
  if (e.get "is_binary" (.bool false)).truthy then
    match b64decode (e.get "content_bytes_b64" (.str "")), node with
    | none, _ | some _, some .dir => none
    | some bytes, some (.file previous) => some (bytes, .binary previous)
    | some bytes, none => some (bytes, .absent)
  else
    match node, e.get "content" (.str "") with
    | some (.file previous), .str new => (readText previous).map fun text => (new.toUTF8, .text text)
    | none, .str new => some (new.toUTF8, .absent)
    | _, _ => none

section Files

variable {ctx : Context} {fs fs' s : FileSystem} {e : StagedEffect} {target path : List String} {undo : InvertData}

/-- A path holds a file if it holds bytes. -/
theorem content_eq_some {bytes : ByteArray} : fs.content path = some bytes ↔ fs.node path = some (.file bytes) := by
  unfold FileSystem.content
  rcases fs.node path with _ | (_ | old) <;> simp

/-- Whether a path is a file shows in what it holds. -/
theorem isFile_eq_content : fs.isFile path = (fs.content path).isSome := by
  unfold FileSystem.isFile FileSystem.content
  rcases fs.node path with _ | (_ | bytes) <;> rfl

namespace FilesMatch

/-- Matching is reflexive. -/
theorem refl (fs : FileSystem) : FilesMatch fs fs :=
  ⟨fun _ => rfl, fun _ => id, rfl⟩

/-- Matching is transitive. -/
theorem trans {fs'' : FileSystem} (h : FilesMatch fs fs') (h' : FilesMatch fs' fs'') : FilesMatch fs fs'' :=
  ⟨fun path => (h.content path).trans (h'.content path), fun path hdir => h.dirs path (h'.dirs path hdir),
    h.resolve.trans h'.resolve⟩

/-- Where one file system has no directory, both hold the same. -/
theorem node_eq (h : FilesMatch fs fs') (hdir : fs.node path ≠ some .dir) : fs'.node path = fs.node path := by
  have hcontent := h.content path
  rcases hnode : fs.node path with _ | (_ | bytes)
  · rcases hnode' : fs'.node path with _ | (_ | bytes)
    · rfl
    · have hdir' := h.dirs path hnode'
      rw [hnode] at hdir'
      cases hdir'
    · rw [content_eq_some.mpr hnode', FileSystem.content, hnode] at hcontent
      cases hcontent
  · exact absurd hnode hdir
  · rw [content_eq_some.mpr hnode] at hcontent
    exact content_eq_some.mp hcontent.symm

/-- Paths lie under the same files. -/
theorem underFile (h : FilesMatch fs fs') : fs.underFile target = fs'.underFile target := by
  unfold FileSystem.underFile
  simp only [isFile_eq_content, h.content]

/-- Directories above a path match that are made in both. -/
theorem mkdirParents (h : FilesMatch fs fs') (hunder : fs.underFile target = false) :
    FilesMatch (fs.mkdirParents target) (fs'.mkdirParents target) := by
  have habove (path : List String) (hpath : path <+: target) (hne : path ≠ target) : fs.content path = none := by
    rw [FileSystem.underFile, List.any_eq_false] at hunder
    have hfile := hunder path ((List.mem_inits path target).mpr hpath)
    simpa [hne, isFile_eq_content] using hfile
  have hmade (fs : FileSystem) (path : List String) (hcontent : fs.content path = none) (hpath : path <+: target)
      (hne : path ≠ target) : (fs.mkdirParents target).node path = some .dir := by
    simp only [FileSystem.mkdirParents, hpath, hne, ne_eq, not_false_eq_true, true_and]
    split_ifs with hnode
    · rfl
    · unfold FileSystem.content at hcontent
      split at hcontent
      · cases hcontent
      next hfile =>
        rcases hnode' : fs.node path with _ | (_ | bytes)
        · exact absurd hnode' hnode
        · rfl
        · exact absurd hnode' (hfile bytes)
  have hsame (fs : FileSystem) (path : List String) (hpath : ¬(path <+: target ∧ path ≠ target)) :
      (fs.mkdirParents target).node path = fs.node path := by
    simp only [FileSystem.mkdirParents]
    rw [if_neg fun hmade => hpath ⟨hmade.1, hmade.2.1⟩]
  constructor
  case content =>
    intro path
    by_cases hpath : path <+: target ∧ path ≠ target
    · have hnone := habove path hpath.1 hpath.2
      rw [FileSystem.content, FileSystem.content, hmade fs path hnone hpath.1 hpath.2,
        hmade fs' path (h.content path ▸ hnone) hpath.1 hpath.2]
    · rw [FileSystem.content, FileSystem.content, hsame fs path hpath, hsame fs' path hpath]
      exact h.content path
  case dirs =>
    intro path hdir
    by_cases hpath : path <+: target ∧ path ≠ target
    · exact hmade fs path (habove path hpath.1 hpath.2) hpath.1 hpath.2
    · rw [hsame fs' path hpath] at hdir
      rw [hsame fs path hpath]
      exact h.dirs path hdir
  case resolve => exact h.resolve

/-- The same is put at a path in both, where it is no directory. -/
theorem update (h : FilesMatch fs fs') (node : Option FileNode) (hnode : node ≠ some .dir) :
    FilesMatch { fs with node := Function.update fs.node target node }
      { fs' with node := Function.update fs'.node target node } := by
  constructor
  case content =>
    intro path
    by_cases hpath : path = target
    · simp [FileSystem.content, hpath]
    · have hcontent := h.content path
      simpa [FileSystem.content, Function.update_of_ne hpath] using hcontent
  case dirs =>
    intro path hdir
    by_cases hpath : path = target
    · rw [hpath] at hdir
      simp only [Function.update_self] at hdir
      exact absurd hdir hnode
    · simp only [Function.update_of_ne hpath] at hdir ⊢
      exact h.dirs path hdir
  case resolve => exact h.resolve

end FilesMatch

/-- The write of a file, by what stood there. -/
theorem writeFile_applied_iff : writeFile fs e target = .applied s undo ↔ ∃ bytes previous,
    written (fs.node target) e = some (bytes, previous) ∧ s = fs.write target bytes ∧ undo = .file target previous := by
  unfold writeFile written
  split_ifs
  · cases b64decode (e.get "content_bytes_b64" (.str "")) with
    | none => simp
    | some bytes => rcases fs.node target with _ | (_ | previous) <;> simp [eq_comm]
  · rcases fs.node target with _ | (_ | previous)
    · cases e.get "content" (.str "") <;> simp [eq_comm]
    · simp
    · cases hread : readText previous <;> cases e.get "content" (.str "") <;> simp [eq_comm, hread]

/-- A file effect, by what it reads of the files. -/
theorem applyFile_applied_iff : applyFile ctx fs e = .applied s undo ↔ ∃ target bytes previous,
    ctx.privateStore.resolvePath fs e.agentId e.resource = .ok (some target) ∧ checkBase ctx fs e target = .ok none ∧
      fs.underFile target = false ∧ written (fs.node target) e = some (bytes, previous) ∧
      s = (fs.mkdirParents target).write target bytes ∧ undo = .file target previous := by
  unfold applyFile
  cases ctx.privateStore.resolvePath fs e.agentId e.resource with
  | error error => simp
  | ok resolved =>
    cases resolved with
    | none => simp
    | some target =>
      dsimp only
      rcases hbase : checkBase ctx fs e target with error | (_ | error)
      · simp [hbase]
      · cases hunder : fs.underFile target
        · simp [writeFile_applied_iff, node_mkdirParents_self, hbase, hunder]
        · simp [hunder]
      · simp [hbase]

/-- The base of a patch is checked by what the file holds. -/
theorem checkBase_congr (h : fs.content target = fs'.content target) :
    checkBase ctx fs e target = checkBase ctx fs' e target := by
  unfold FileSystem.content at h
  unfold checkBase
  rcases hnode : fs.node target with _ | (_ | bytes) <;> rcases hnode' : fs'.node target with _ | (_ | bytes') <;>
    simp only [hnode, hnode', reduceCtorEq, Option.some.injEq] at h
  all_goals first | rfl | rw [h]

/-- Nothing is written to a directory. -/
theorem node_of_written {node : Option FileNode} {x : ByteArray × FilePrevious} (h : written node e = some x) :
    node ≠ some .dir := by
  rintro rfl
  unfold written at h
  split_ifs at h
  cases hdecode : b64decode (e.get "content_bytes_b64" (.str "")) <;> simp [hdecode] at h

/-- A file effect does the same to matching files. -/
theorem FilesMatch.applyFile (h : FilesMatch fs fs') (happly : applyFile ctx fs e = .applied s undo) :
    ∃ s', applyFile ctx fs' e = .applied s' undo ∧ FilesMatch s s' := by
  obtain ⟨target, bytes, previous, hresolve, hbase, hunder, hwritten, rfl, rfl⟩ := applyFile_applied_iff.mp happly
  refine ⟨_, applyFile_applied_iff.mpr ⟨target, bytes, previous, ?_, ?_, ?_, ?_, rfl, rfl⟩, ?_⟩
  · rwa [← resolvePath_congr h.resolve]
  · rwa [← checkBase_congr (h.content target)]
  · rwa [← h.underFile]
  · rwa [h.node_eq (node_of_written hwritten)]
  · exact (h.mkdirParents hunder).update _ (by simp)

/-- A file that was written is placed. -/
theorem placed_write (hunder : fs.underFile target = false) (bytes : ByteArray) :
    Placed ((fs.mkdirParents target).write target bytes) target := by
  refine ⟨⟨bytes, by simp [FileSystem.write]⟩, fun path hpath hne => ?_⟩
  rw [FileSystem.underFile, List.any_eq_false] at hunder
  have hfile := hunder path ((List.mem_inits path target).mpr hpath)
  have hnotfile : fs.isFile path = false := by simpa [hne] using hfile
  simp only [FileSystem.write, Function.update_of_ne hne, FileSystem.mkdirParents, hpath, hne, ne_eq, not_false_eq_true,
    true_and]
  unfold FileSystem.isFile at hnotfile
  rcases hnode : fs.node path with _ | (_ | old)
  · simp
  · simp
  · simp [hnode] at hnotfile

/-- A placed file is put back as it was recorded. -/
theorem restore_of_placed (h : Placed fs target) (previous : FilePrevious) :
    fs.restore target previous = { fs with node := Function.update fs.node target (previous.bytes.map .file) } := by
  obtain ⟨bytes, hbytes⟩ := h.file
  have hdir : fs.isDir target = false := by simp [FileSystem.isDir, hbytes]
  have hwritable : fs.writable target = true := by
    rw [FileSystem.writable, hdir]
    simp only [Bool.not_false, Bool.true_and, List.all_eq_true, Bool.or_eq_true, decide_eq_true_eq]
    intro path hpath
    by_cases hne : path = target
    · exact Or.inl hne
    · refine Or.inr ?_
      simp [FileSystem.isDir, h.above path ((List.mem_inits path target).mp hpath) hne]
  unfold FileSystem.restore
  cases previous.bytes with
  | none => simp [hdir, FileSystem.unlink]
  | some bytes => simp [hwritable, FileSystem.write]

/-- Putting back a file leaves the directories. -/
theorem dir_restore {previous : FilePrevious} (h : fs.node path = some .dir) :
    (fs.restore target previous).node path = some .dir := by
  unfold FileSystem.restore
  cases previous.bytes with
  | none =>
    dsimp only
    split_ifs with hdir
    · exact h
    · have hne : path ≠ target := by
        rintro rfl
        simp [FileSystem.isDir, h] at hdir
      simpa [FileSystem.unlink, Function.update_of_ne hne] using h
  | some bytes =>
    dsimp only
    split_ifs with hwritable
    · have hne : path ≠ target := by
        rintro rfl
        simp [FileSystem.writable, FileSystem.isDir, h] at hwritable
      simpa [FileSystem.write, Function.update_of_ne hne] using h
    · exact h

/-- Putting back a file leaves the other paths. -/
theorem node_restore_of_ne {previous : FilePrevious} (h : path ≠ target) :
    (fs.restore target previous).node path = fs.node path := by
  unfold FileSystem.restore
  cases previous.bytes <;> dsimp only <;> split_ifs <;>
    simp [FileSystem.unlink, FileSystem.write, Function.update_of_ne h]

/-- A placed file stays when another is put back. -/
theorem Placed.restore {previous : FilePrevious} (h : Placed fs path) (hne : path ≠ target) :
    Placed (fs.restore target previous) path := by
  obtain ⟨bytes, hbytes⟩ := h.file
  refine ⟨⟨bytes, by rw [node_restore_of_ne hne, hbytes]⟩, fun above hpath habove => ?_⟩
  exact dir_restore (h.above above hpath habove)

/-- A placed file stays when another is written. -/
theorem Placed.write {bytes : ByteArray} (h : Placed fs path) (hne : path ≠ target)
    (hdir : fs.node target ≠ some .dir) : Placed ((fs.mkdirParents target).write target bytes) path := by
  have hkept {p : List String} {node : FileNode} (hnode : fs.node p = some node) (hp : p ≠ target) :
      ((fs.mkdirParents target).write target bytes).node p = some node := by
    simp [FileSystem.write, FileSystem.mkdirParents, Function.update_of_ne hp, hnode]
  obtain ⟨old, hold⟩ := h.file
  refine ⟨⟨old, hkept hold hne⟩, fun above hpath habove => ?_⟩
  have hnode := h.above above hpath habove
  refine hkept hnode ?_
  rintro rfl
  exact hdir hnode

/-- Where a file is replaced that is placed, an effect on another path does the same. -/
theorem applyFile_update {previous : FilePrevious} {node : Option FileNode} (hplaced : Placed fs path)
    (happly : applyFile ctx fs e = .applied s (.file target previous)) (hne : target ≠ path) :
    applyFile ctx { fs with node := Function.update fs.node path node } e =
      .applied { s with node := Function.update s.node path node } (.file target previous) := by
  obtain ⟨target', bytes, previous', hresolve, hbase, hunder, hwritten, rfl, hundo⟩ := applyFile_applied_iff.mp happly
  cases hundo
  obtain ⟨old, hold⟩ := hplaced.file
  have hbeside (p : List String) (hp : p <+: target) (hptarget : p ≠ target) : p ≠ path := by
    rintro rfl
    rw [FileSystem.underFile, List.any_eq_false] at hunder
    have hfile := hunder p ((List.mem_inits p target).mpr hp)
    simp [hptarget, FileSystem.isFile, hold] at hfile
  have hnode : ({ fs with node := Function.update fs.node path node } : FileSystem).node target = fs.node target :=
    Function.update_of_ne hne _ _
  refine applyFile_applied_iff.mpr ⟨target, bytes, previous, hresolve, ?_, ?_, ?_, ?_, rfl⟩
  · rw [← hbase]
    refine checkBase_congr ?_
    rw [FileSystem.content, FileSystem.content, hnode]
  · rw [FileSystem.underFile, List.any_eq_false] at hunder ⊢
    intro p hp
    by_cases hptarget : p = target
    · simp [hptarget]
    · have hfile := hunder p hp
      rw [FileSystem.isFile] at hfile ⊢
      dsimp only
      rwa [Function.update_of_ne (hbeside p ((List.mem_inits p target).mp hp) hptarget)]
  · rwa [hnode]
  · unfold FileSystem.write FileSystem.mkdirParents
    dsimp only
    congr 1
    rw [Function.update_comm hne]
    congr 1
    funext p
    by_cases hpath : p = path
    · have hnot : ¬(p <+: target ∧ p ≠ target ∧ node = none) := fun h => hbeside p h.1 h.2.1 hpath
      subst hpath
      simp [hnot]
    · simp [Function.update_of_ne hpath]

/-- Where a file effect is undone, an effect on another path does the same. -/
theorem applyFile_undoFiles {d : StagedEffect} (hplaced : ∀ path previous, d.effectType.writesFile = true →
      d.invertData = .file path previous → Placed fs path)
    (happly : applyFile ctx fs e = .applied s undo)
    (hne : ∀ path previous, d.effectType.writesFile = true → d.invertData = .file path previous →
      ∀ target previous', undo = .file target previous' → target ≠ path) :
    applyFile ctx (d.undoFiles fs) e = .applied (d.undoFiles s) undo := by
  obtain ⟨target, bytes, previous', hresolve, hbase, hunder, hwritten, hs, hundo⟩ := applyFile_applied_iff.mp happly
  unfold StagedEffect.undoFiles
  split
  next path previous hfile hdata =>
    have hplaced' := hplaced path previous hfile hdata
    have hne' := hne path previous hfile hdata target previous' hundo
    have hafter : Placed s path := hs ▸ hplaced'.write hne'.symm (node_of_written hwritten)
    rw [restore_of_placed hplaced', restore_of_placed hafter]
    subst hundo
    exact applyFile_update hplaced' happly hne'
  next => exact happly

/-- Files match after both are put back, if the one is placed in the fewer directories. -/
theorem FilesMatch.restore (h : FilesMatch fs fs') (hplaced : Placed fs' target) (previous : FilePrevious) :
    FilesMatch (fs.restore target previous) (fs'.restore target previous) := by
  have hplaced' : Placed fs target := by
    obtain ⟨bytes, hbytes⟩ := hplaced.file
    refine ⟨⟨bytes, content_eq_some.mp ((h.content target).trans (content_eq_some.mpr hbytes))⟩, fun p hp hne => ?_⟩
    exact h.dirs p (hplaced.above p hp hne)
  rw [restore_of_placed hplaced, restore_of_placed hplaced']
  refine h.update _ ?_
  cases previous.bytes <;> simp

/-- A file effect is undone, if what it recorded is what stood there. -/
theorem FilesMatch.undone {bytes : ByteArray} {previous : FilePrevious} (hunder : fs.underFile target = false)
    (hdir : fs.node target ≠ some .dir) (hexact : previous.bytes = fs.content target) :
    FilesMatch (((fs.mkdirParents target).write target bytes).restore target previous) fs := by
  rw [restore_of_placed (placed_write hunder bytes), hexact]
  have hnode : (fs.content target).map FileNode.file = fs.node target := by
    unfold FileSystem.content
    rcases hnode : fs.node target with _ | (_ | old)
    · rfl
    · exact absurd hnode hdir
    · rfl
  have hback : Function.update ((fs.mkdirParents target).write target bytes).node target
      ((fs.content target).map .file) = (fs.mkdirParents target).node := by
    rw [FileSystem.write, Function.update_idem, hnode, ← node_mkdirParents_self, Function.update_eq_self]
  constructor
  case content =>
    intro p
    rw [hback, FileSystem.content, FileSystem.content]
    simp only [FileSystem.mkdirParents]
    split_ifs with hmade
    · rw [hmade.2.2]
    · rfl
  case dirs =>
    intro p hp
    rw [hback]
    simp [FileSystem.mkdirParents, hp]
  case resolve => rfl

/-- Text without carriage returns is read as it is. -/
theorem universalNewlines_of_not_mem {text : List Char} (h : '\r' ∉ text) : universalNewlines text = text := by
  induction text with
  | nil => rfl
  | cons c rest ih =>
    rw [List.mem_cons, not_or] at h
    rw [universalNewlines, ih h.2]
    · rintro rest' rfl
      exact absurd rfl h.1
    · rintro rfl
      exact absurd rfl h.1

/-- Bytes that are no text, or text without carriage returns. -/
def Unreturned (bytes : ByteArray) : Prop :=
  ∀ text, String.fromUTF8? bytes = some text → '\r' ∉ text.toList

/-- Text without carriage returns is written back as it was read. -/
theorem toUTF8_of_readText {bytes : ByteArray} {text : String} (h : readText bytes = some text)
    (hreturn : Unreturned bytes) : text.toUTF8 = bytes := by
  obtain ⟨original, horiginal, rfl⟩ := Option.map_eq_some_iff.mp h
  rw [universalNewlines_of_not_mem (hreturn original horiginal), String.ofList_toList]
  unfold String.fromUTF8? at horiginal
  split_ifs at horiginal
  cases horiginal
  rfl

/-- What a file effect records is what stood there, if that is written back as it was read. -/
theorem bytes_of_written {bytes : ByteArray} {previous : FilePrevious}
    (h : written (fs.node target) e = some (bytes, previous))
    (hreturn : (e.get "is_binary" (.bool false)).truthy = true ∨ ∀ old, fs.content target = some old → Unreturned old) :
    previous.bytes = fs.content target := by
  unfold written at h
  unfold FileSystem.content at hreturn ⊢
  split_ifs at h with hbinary
  · cases hdecode : b64decode (e.get "content_bytes_b64" (.str "")) with
    | none => simp [hdecode] at h
    | some new =>
      rcases hnode : fs.node target with _ | (_ | old)
      · simp only [hdecode, hnode, Option.some.injEq, Prod.mk.injEq] at h
        rw [← h.2]
        rfl
      · simp [hdecode, hnode] at h
      · simp only [hdecode, hnode, Option.some.injEq, Prod.mk.injEq] at h
        rw [← h.2]
        rfl
  · have hreturn' := hreturn.resolve_left hbinary
    rcases hnode : fs.node target with _ | (_ | old)
    · cases hcontent : e.get "content" (.str "") <;>
        simp only [hnode, hcontent, Option.some.injEq, Prod.mk.injEq, reduceCtorEq] at h
      rw [← h.2]
      rfl
    · simp [hnode] at h
    · cases hcontent : e.get "content" (.str "") <;>
        simp only [hnode, hcontent, reduceCtorEq, Option.map_eq_some_iff, Prod.mk.injEq] at h
      obtain ⟨text, hread, -, rfl⟩ := h
      rw [FilePrevious.bytes, toUTF8_of_readText hread (hreturn' old (by rw [hnode]))]

end Files

namespace StagedEffect

variable (e : StagedEffect)

/-- An effect wrote a file and recorded what it held. -/
def Replaced (path : List String) (previous : FilePrevious) : Prop :=
  e.effectType.writesFile = true ∧ e.invertData = .file path previous

/-- Two effects wrote different files. -/
def ApartInFiles (d e : StagedEffect) : Prop :=
  ∀ path previous path' previous', d.Replaced path previous → e.Replaced path' previous' → path ≠ path'

/-- What an effect replaces is written back as it was: it is replaced as bytes, or it holds no carriage return. -/
def RestoresFiles (fs : FileSystem) : Prop :=
  (e.get "is_binary" (.bool false)).truthy = true ∨
    ∀ path previous, e.Replaced path previous → ∀ bytes, fs.content path = some bytes → Unreturned bytes

/-- An effect does to the files what it recorded. -/
def DoesFiles (ctx : Context) (fs s : FileSystem) : Prop :=
  if e.effectType.writesFile then applyFile ctx fs e = .applied s e.invertData else s = fs

end StagedEffect

section Undoable

variable {ctx : Context} {fs fs' s : FileSystem} {d e : StagedEffect}

/-- Only effects on files change them. -/
theorem doesFiles_of_not_writesFile (h : e.effectType.writesFile = false) : e.DoesFiles ctx fs s ↔ s = fs := by
  simp [StagedEffect.DoesFiles, h]

/-- An effect on files, by what it reads of them. -/
theorem doesFiles_of_writesFile (h : e.effectType.writesFile = true) : e.DoesFiles ctx fs s ↔
    applyFile ctx fs e = .applied s e.invertData := by
  simp [StagedEffect.DoesFiles, h]

/-- The inverse of an effect that wrote a file. -/
theorem undoFiles_of_replaced {path : List String} {previous : FilePrevious} (h : e.Replaced path previous) :
    e.undoFiles fs = fs.restore path previous := by
  simp [StagedEffect.undoFiles, h.1, h.2]

/-- The inverse of an effect that wrote no file. -/
theorem undoFiles_of_not_replaced (h : ∀ path previous, ¬e.Replaced path previous) : e.undoFiles fs = fs := by
  unfold StagedEffect.undoFiles
  split
  next path previous hfile hdata => exact absurd ⟨hfile, hdata⟩ (h path previous)
  next => rfl

/-- An effect does the same to files that match. -/
theorem StagedEffect.DoesFiles.congr (same : FilesMatch fs fs') (does : e.DoesFiles ctx fs s) :
    ∃ s', e.DoesFiles ctx fs' s' ∧ FilesMatch s s' := by
  cases hfile : e.effectType.writesFile with
  | false => exact ⟨fs', (doesFiles_of_not_writesFile hfile).mpr rfl,
      (doesFiles_of_not_writesFile hfile).mp does ▸ same⟩
  | true =>
    obtain ⟨s', happly, hsame⟩ := same.applyFile ((doesFiles_of_writesFile hfile).mp does)
    exact ⟨s', (doesFiles_of_writesFile hfile).mpr happly, hsame⟩

/-- The path that an effect replaced is still under directories. -/
def StagedEffect.StandsInFiles (e : StagedEffect) (fs : FileSystem) : Prop :=
  ∀ path previous, e.Replaced path previous → Placed fs path

/-- Inverses do the same to files that match. -/
theorem FilesMatch.undoFiles (same : FilesMatch fs fs') (stands : e.StandsInFiles fs') :
    FilesMatch (e.undoFiles fs) (e.undoFiles fs') := by
  by_cases hreplaced : ∃ path previous, e.Replaced path previous
  · obtain ⟨path, previous, hreplaced⟩ := hreplaced
    rw [undoFiles_of_replaced hreplaced, undoFiles_of_replaced hreplaced]
    exact same.restore (stands path previous hreplaced) previous
  · have hnone (path : List String) (previous : FilePrevious) : ¬e.Replaced path previous :=
      fun h => hreplaced ⟨path, previous, h⟩
    rwa [undoFiles_of_not_replaced hnone, undoFiles_of_not_replaced hnone]

/-- An effect on another file does the same where an effect is undone. -/
theorem StagedEffect.DoesFiles.commutes (apart : d.ApartInFiles e) (stands : d.StandsInFiles fs)
    (does : e.DoesFiles ctx fs s) : e.DoesFiles ctx (d.undoFiles fs) (d.undoFiles s) := by
  cases hfile : e.effectType.writesFile with
  | false =>
    rw [(doesFiles_of_not_writesFile hfile).mp does]
    exact (doesFiles_of_not_writesFile hfile).mpr rfl
  | true =>
    refine (doesFiles_of_writesFile hfile).mpr ?_
    refine applyFile_undoFiles (fun path previous hwrites hdata => stands path previous ⟨hwrites, hdata⟩)
      ((doesFiles_of_writesFile hfile).mp does) fun path previous hwrites hdata path' previous' hdata' => ?_
    exact (apart path previous path' previous' ⟨hwrites, hdata⟩ ⟨hfile, hdata'⟩).symm

/-- What an effect replaces is under directories afterwards. -/
theorem StagedEffect.DoesFiles.stands (does : e.DoesFiles ctx fs s) : e.StandsInFiles s := by
  intro path previous hreplaced
  obtain ⟨path', bytes, previous', -, -, hunder, -, rfl, hdata⟩ :=
    applyFile_applied_iff.mp ((doesFiles_of_writesFile hreplaced.1).mp does)
  rw [hreplaced.2] at hdata
  cases hdata
  exact placed_write hunder bytes

/-- An effect on files is undone, apart from directories. -/
theorem StagedEffect.DoesFiles.undone (restores : e.RestoresFiles fs) (does : e.DoesFiles ctx fs s) :
    FilesMatch (e.undoFiles s) fs := by
  cases hfile : e.effectType.writesFile with
  | false =>
    have hnone (path : List String) (previous : FilePrevious) : ¬e.Replaced path previous := by
      simp [StagedEffect.Replaced, hfile]
    rw [(doesFiles_of_not_writesFile hfile).mp does, undoFiles_of_not_replaced hnone]
    exact .refl fs
  | true =>
    obtain ⟨path, bytes, previous, -, -, hunder, hwritten, rfl, hdata⟩ :=
      applyFile_applied_iff.mp ((doesFiles_of_writesFile hfile).mp does)
    have hreplaced : e.Replaced path previous := ⟨hfile, hdata⟩
    rw [undoFiles_of_replaced hreplaced]
    refine .undone hunder (node_of_written hwritten) (bytes_of_written hwritten ?_)
    exact restores.imp_right fun h => h path previous hreplaced

/-- An effect on the files can be undone, apart from directories. -/
def fileEffects (ctx : Context) : Undoable FileSystem StagedEffect where
  Does fs e s := e.DoesFiles ctx fs s
  Leads fs e s := e.DoesFiles ctx fs s
  undo fs e := e.undoFiles fs
  Sim := FilesMatch
  Inv _ := True
  Stands := StagedEffect.StandsInFiles
  Independent := StagedEffect.ApartInFiles
  Together := StagedEffect.ApartInFiles
  Exact fs e := e.RestoresFiles fs
  refl := FilesMatch.refl
  trans := FilesMatch.trans
  does_inv _ _ := trivial
  does_sim := StagedEffect.DoesFiles.congr
  undo_sim := FilesMatch.undoFiles
  does_undo {d _ _ s} apart stands does := ⟨d.undoFiles s, does.commutes apart stands, .refl _⟩
  stands_self := StagedEffect.DoesFiles.stands
  stands_does {d e fs s} apart stands does path previous hreplaced := by
    have hplaced := stands path previous hreplaced
    cases hfile : e.effectType.writesFile with
    | false => rwa [(doesFiles_of_not_writesFile hfile).mp does]
    | true =>
      obtain ⟨path', bytes, previous', -, -, -, hwritten, rfl, hdata⟩ :=
        applyFile_applied_iff.mp ((doesFiles_of_writesFile hfile).mp does)
      exact hplaced.write (apart path previous path' previous' hreplaced ⟨hfile, hdata⟩) (node_of_written hwritten)
  stands_undo {d e fs} apart stands path previous hreplaced := by
    have hplaced := stands path previous hreplaced
    by_cases hundone : ∃ path' previous', d.Replaced path' previous'
    · obtain ⟨path', previous', hundone⟩ := hundone
      rw [undoFiles_of_replaced hundone]
      exact hplaced.restore (apart path' previous' path previous hundone hreplaced).symm
    · rwa [undoFiles_of_not_replaced fun path' previous' h => hundone ⟨path', previous', h⟩]
  together := id
  leads_of_does _ := id
  leads_undo apart stands does := does.commutes apart stands
  undo_exact {fs fs' e s} _ restores does same := by
    obtain ⟨s', hdoes, hsame⟩ := does.congr same
    exact (hsame.undoFiles hdoes.stands).trans (hdoes.undone restores)

end Undoable

end MyTeam.Legacy
