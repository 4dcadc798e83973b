import MyTeam.Legacy.PatchStrict
import MyTeam.Legacy.PredicatePrint

/-!
# Edit scripts and their patches

An edit script goes through two texts at once: it leaves lines alone, and between them it keeps, removes and adds
lines in blocks. Its patch writes each block as a hunk, in the standard form: the header counts the lines of both
texts from one, and for a block without lines of a text it names the line after which the block stands.
-/

namespace MyTeam.Legacy

open MyTeam.Py
open Predicate (isSpace spanDigits spanDigits_append)

/-- A line of an edit: kept, removed or added. -/
inductive Edit where
  | context (line : Line)
  | removed (line : Line)
  | added (line : Line)

/-- The line of the old text. -/
def Edit.oldLine : Edit → Option Line
  | context line | removed line => some line
  | added _ => none

/-- The line of the new text. -/
def Edit.newLine : Edit → Option Line
  | context line | added line => some line
  | removed _ => none

/-- The line of the patch. -/
def Edit.print : Edit → Line
  | context line => ' ' :: line
  | removed line => '-' :: line
  | added line => '+' :: line

/-- A block of edits after lines that are left alone. How its header is written is open: a count of one may be left
out, and a heading may follow. -/
structure Block where
  gap : List Line
  edits : List Edit
  edits_ne : edits ≠ []
  shortOld : Bool
  shortNew : Bool
  heading : Line

namespace Block

/-- The lines of the old text. -/
def old (block : Block) : List Line := block.edits.filterMap Edit.oldLine

/-- The lines of the new text. -/
def new (block : Block) : List Line := block.edits.filterMap Edit.newLine

end Block

/-- An edit script. -/
structure Script where
  blocks : List Block
  tail : List Line

namespace Script

/-- The old text. -/
def old (script : Script) : List Line := script.blocks.flatMap (fun block => block.gap ++ block.old) ++ script.tail

/-- The new text. -/
def new (script : Script) : List Line := script.blocks.flatMap (fun block => block.gap ++ block.new) ++ script.tail

end Script

/-- The start of a range after so many lines: its first line, or the line before it if it has none. -/
def rangeStart (before count : ℕ) : ℕ := if count = 0 then before else before + 1

/-- A range of a header; a count of one may be left out. -/
def printRange (start count : ℕ) (short : Bool) : List Char :=
  Nat.toDigits 10 start ++ if short ∧ count = 1 then [] else ',' :: Nat.toDigits 10 count

namespace Block

variable (oldBefore newBefore : ℕ) (block : Block)

/-- The header of a block after so many lines of the texts. -/
def header : Line :=
  "@@ -".toList ++ (printRange (rangeStart oldBefore block.old.length) block.old.length block.shortOld ++
    (" +".toList ++ (printRange (rangeStart newBefore block.new.length) block.new.length block.shortNew ++
      (" @@".toList ++ block.heading))))

/-- The hunk that is written. -/
def hunk : PatchHunk where
  oldStart := rangeStart oldBefore block.old.length
  oldCount := block.old.length
  newStart := rangeStart newBefore block.new.length
  newCount := block.new.length
  lines := block.edits.map Edit.print

/-- The numbers of a header are short enough to be read. -/
def Legible : Prop :=
  ∀ number ∈ [rangeStart oldBefore block.old.length, block.old.length, rangeStart newBefore block.new.length,
    block.new.length], (Nat.toDigits 10 number).length ≤ maxStrDigits

instance : Decidable (block.Legible oldBefore newBefore) := List.decidableBAll _ _

end Block

/-- The lines of the hunks of blocks after so many lines of the texts. -/
def printBlocks : ℕ → ℕ → List Block → List Line
  | _, _, [] => []
  | oldBefore, newBefore, block :: rest =>
    let oldBefore := oldBefore + block.gap.length
    let newBefore := newBefore + block.gap.length
    block.header oldBefore newBefore :: (block.edits.map Edit.print ++
      printBlocks (oldBefore + block.old.length) (newBefore + block.new.length) rest)

/-- Their hunks. -/
def hunksOf : ℕ → ℕ → List Block → List PatchHunk
  | _, _, [] => []
  | oldBefore, newBefore, block :: rest =>
    let oldBefore := oldBefore + block.gap.length
    let newBefore := newBefore + block.gap.length
    block.hunk oldBefore newBefore :: hunksOf (oldBefore + block.old.length) (newBefore + block.new.length) rest

/-- The numbers of all headers are short enough. -/
def LegibleAll : ℕ → ℕ → List Block → Prop
  | _, _, [] => True
  | oldBefore, newBefore, block :: rest =>
    let oldBefore := oldBefore + block.gap.length
    let newBefore := newBefore + block.gap.length
    block.Legible oldBefore newBefore ∧
      LegibleAll (oldBefore + block.old.length) (newBefore + block.new.length) rest

/-- A patch of a script: headers of files, then a hunk for each block; the last line may be ended. -/
def Script.patch (script : Script) (fileHeaders : List Line) (ended : Bool) : List Char :=
  joinLines (fileHeaders ++ printBlocks 0 0 script.blocks) ++ if ended then ['\n'] else []

section Header

variable {oldBefore newBefore start count : ℕ} {short : Bool} {rest : List Char} {block : Block}

/-- The digits of a range are read up to its end. -/
theorem spanDigits_printRange (hrest : ∃ after, rest = ' ' :: after) :
    ∃ text, spanDigits (printRange start count short ++ rest) = some (Nat.toDigits 10 start, text) ∧
      spanCount text = some (Nat.toDigits 10 count, rest) := by
  obtain ⟨after, rfl⟩ := hrest
  have hdigits (n : ℕ) : ∀ c ∈ Nat.toDigits 10 n, c.isDigit = true := fun c hc => isDigit_of_mem_toDigits hc
  have hne (n : ℕ) : Nat.toDigits 10 n ≠ [] := by
    intro hempty
    have hlength := Nat.length_toDigits_pos (b := 10) (n := n)
    rw [hempty] at hlength
    exact absurd hlength (lt_irrefl 0)
  have hspace : ∀ c ∈ (' ' :: after).head?, isDigit c = false := by
    rintro c ⟨⟩
    exact isDigit_eq_false (by decide) (by decide)
  unfold printRange
  by_cases hshort : short = true ∧ count = 1
  · refine ⟨' ' :: after, ?_, ?_⟩
    · rw [if_pos hshort, List.append_nil, spanDigits_append (hne start) (hdigits start) hspace]
    · rw [hshort.2]
      rfl
  · refine ⟨',' :: Nat.toDigits 10 count ++ ' ' :: after, ?_, ?_⟩
    · rw [if_neg hshort, List.append_assoc, spanDigits_append (hne start) (hdigits start)]
      rintro c ⟨⟩
      exact isDigit_eq_false (by decide) (by decide)
    · rw [List.cons_append, spanCount, spanDigits_append (hne count) (hdigits count) hspace]

/-- A literal part is read. -/
theorem expect_append (literal text : List Char) : expect literal (literal ++ text) = some text := by
  rw [expect, if_pos (List.isPrefixOf_iff_prefix.mpr (List.prefix_append literal text)), List.drop_left]

/-- The numbers of a header are read as they are written. -/
theorem matchHunk_header (oldBefore newBefore : ℕ) (block : Block) : matchHunk (block.header oldBefore newBefore) =
    some ⟨Nat.toDigits 10 (rangeStart oldBefore block.old.length), Nat.toDigits 10 block.old.length,
      Nat.toDigits 10 (rangeStart newBefore block.new.length), Nat.toDigits 10 block.new.length⟩ := by
  have hmiddle (text : List Char) : ∃ after, " +".toList ++ text = ' ' :: after := ⟨'+' :: text, rfl⟩
  have hlast (text : List Char) : ∃ after, " @@".toList ++ text = ' ' :: after := ⟨'@' :: '@' :: text, rfl⟩
  unfold matchHunk Block.header
  rw [expect_append]
  obtain ⟨oldText, holdStart, holdCount⟩ := @spanDigits_printRange (rangeStart oldBefore block.old.length)
    block.old.length block.shortOld _ (hmiddle (printRange (rangeStart newBefore block.new.length) block.new.length
      block.shortNew ++ (" @@".toList ++ block.heading)))
  obtain ⟨newText, hnewStart, hnewCount⟩ := @spanDigits_printRange (rangeStart newBefore block.new.length)
    block.new.length block.shortNew _ (hlast block.heading)
  simp only [Option.bind_eq_bind, Option.bind_some, holdStart, holdCount, expect_append, hnewStart, hnewCount]
  rfl

/-- A number is read as it is written, if it is short enough. -/
theorem intOf_toDigits (n : ℕ) : intOf (Nat.toDigits 10 n) = .ok n ↔ (Nat.toDigits 10 n).length ≤ maxStrDigits := by
  rw [intOf]
  split
  next hlong => simpa using hlong
  next hshort => simpa using hshort

/-- A header is read exactly when its numbers are short enough, and then as it is written. -/
theorem readHeader_header {header : PatchHunk} : readHeader (block.header oldBefore newBefore) = .ok header ↔
    block.Legible oldBefore newBefore ∧ header = { block.hunk oldBefore newBefore with lines := [] } := by
  have hread {n m : ℕ} (h : intOf (Nat.toDigits 10 n) = .ok m) :
      (Nat.toDigits 10 n).length ≤ maxStrDigits ∧ m = n := by
    rw [intOf] at h
    split at h
    · cases h
    next hshort =>
      rw [digitsValue_toDigits] at h
      cases h
      exact ⟨not_lt.mp hshort, rfl⟩
  rw [readHeader, matchHunk_header]
  constructor
  · intro h
    obtain ⟨oldStart, holdStart, h⟩ := PatchFailure.bind_eq_ok h
    obtain ⟨oldCount, holdCount, h⟩ := PatchFailure.bind_eq_ok h
    obtain ⟨newStart, hnewStart, h⟩ := PatchFailure.bind_eq_ok h
    obtain ⟨newCount, hnewCount, h⟩ := PatchFailure.bind_eq_ok h
    obtain ⟨hfirst, rfl⟩ := hread holdStart
    obtain ⟨hsecond, rfl⟩ := hread holdCount
    obtain ⟨hthird, rfl⟩ := hread hnewStart
    obtain ⟨hfourth, rfl⟩ := hread hnewCount
    cases h
    refine ⟨?_, rfl⟩
    simpa [Block.Legible] using ⟨hfirst, hsecond, hthird, hfourth⟩
  · rintro ⟨hlegible, rfl⟩
    simp only [Block.Legible, List.forall_mem_cons] at hlegible
    obtain ⟨hfirst, hsecond, hthird, hfourth, -⟩ := hlegible
    simp only [(intOf_toDigits _).mpr hfirst, (intOf_toDigits _).mpr hsecond, (intOf_toDigits _).mpr hthird,
      (intOf_toDigits _).mpr hfourth]
    rfl

end Header

section Body

variable {edits : List Edit} {blocks : List Block} {oldBefore newBefore : ℕ}

/-- The lines of a block are read by its counts. -/
theorem bodyOf_print (edits : List Edit) (oldSeen newSeen : ℕ) :
    BodyOf (oldSeen + (edits.filterMap Edit.oldLine).length) (newSeen + (edits.filterMap Edit.newLine).length)
      oldSeen newSeen (edits.map Edit.print) := by
  induction edits generalizing oldSeen newSeen with
  | nil => exact .done le_rfl le_rfl
  | cons edit edits ih =>
    cases edit with
    | context line =>
      have hbody := ih (oldSeen + 1) (newSeen + 1)
      rw [Nat.add_assoc, Nat.add_comm 1, Nat.add_assoc, Nat.add_comm 1] at hbody
      exact .context (.inl (by simp [Edit.oldLine])) rfl hbody
    | removed line =>
      have hbody := ih (oldSeen + 1) newSeen
      rw [Nat.add_assoc, Nat.add_comm 1] at hbody
      exact .removed (by simp [Edit.oldLine]) rfl hbody
    | added line =>
      have hbody := ih oldSeen (newSeen + 1)
      rw [Nat.add_assoc newSeen, Nat.add_comm 1] at hbody
      exact .added (by simp [Edit.newLine]) rfl hbody

/-- A header begins a hunk. -/
theorem isHunkLine_header (block : Block) : isHunkLine (block.header oldBefore newBefore) = true := rfl

/-- The hunks of a patch are read exactly when the numbers of its headers are short enough, and then as they are
written. -/
theorem readHunks_printBlocks {hunks : List PatchHunk} :
    readHunks 0 (printBlocks oldBefore newBefore blocks) = .ok hunks ↔
      LegibleAll oldBefore newBefore blocks ∧ hunks = hunksOf oldBefore newBefore blocks := by
  induction blocks generalizing oldBefore newBefore hunks with
  | nil =>
    rw [printBlocks, readHunks, LegibleAll, hunksOf, true_and, Except.ok.injEq]
    exact eq_comm
  | cons block blocks ih =>
    have hbody := bodyOf_print block.edits 0 0
    rw [Nat.zero_add, Nat.zero_add] at hbody
    rw [printBlocks, LegibleAll, hunksOf]
    constructor
    · intro h
      rw [readHunks, if_pos (isHunkLine_header block)] at h
      obtain ⟨header, hheader, h⟩ := PatchFailure.bind_eq_ok h
      obtain ⟨hlegible, rfl⟩ := readHeader_header.mp hheader
      obtain ⟨body, hread, h⟩ := PatchFailure.bind_eq_ok h
      obtain rfl : _ = body := Except.ok.inj ((hbody.readBody _).symm.trans hread)
      obtain ⟨others, hothers, h⟩ := PatchFailure.bind_eq_ok h
      rw [readHunks_append] at hothers
      obtain ⟨hrest, rfl⟩ := ih.mp hothers
      cases h
      exact ⟨⟨hlegible, hrest⟩, rfl⟩
    · rintro ⟨⟨hlegible, hrest⟩, rfl⟩
      exact readHunks_of_hunk (isHunkLine_header block) (readHeader_header.mpr ⟨hlegible, rfl⟩) hbody
        (ih.mpr ⟨hrest, rfl⟩)

end Body

/-- No line of a script or of the headers of its patch is broken, and the headers of files are such. -/
structure Script.Plain (script : Script) (fileHeaders : List Line) : Prop where
  old : ∀ line ∈ script.old, Unbroken line
  new : ∀ line ∈ script.new, Unbroken line
  headings : ∀ block ∈ script.blocks, Unbroken block.heading
  fileHeaders : ∀ line ∈ fileHeaders, isFileHeader line = true ∧ Unbroken line

section Lines

variable {script : Script} {fileHeaders : List Line} {blocks : List Block} {block : Block} {oldBefore newBefore : ℕ}
  {line : Line}

/-- A number is on one line. -/
theorem unbroken_toDigits (n : ℕ) : Unbroken (Nat.toDigits 10 n) := by
  intro c hc
  have hdigit := isDigit_of_mem_toDigits hc
  have hbounds := Predicate.isDigit_iff.mp hdigit
  simp only [isLineBreak, Bool.or_eq_false_iff, Bool.and_eq_false_iff, decide_eq_false_iff_not]
  omega

/-- So is a range. -/
theorem unbroken_printRange (start count : ℕ) (short : Bool) : Unbroken (printRange start count short) := by
  apply unbroken_append.mpr
  refine ⟨unbroken_toDigits start, ?_⟩
  split
  · exact fun c hc => absurd hc List.not_mem_nil
  · exact unbroken_cons.mpr ⟨by decide, unbroken_toDigits count⟩

/-- So is the header of a hunk. -/
theorem unbroken_header (h : Unbroken block.heading) : Unbroken (block.header oldBefore newBefore) := by
  unfold Block.header
  simp only [unbroken_append]
  exact ⟨by decide, unbroken_printRange _ _ _, by decide, unbroken_printRange _ _ _, by decide, h⟩

/-- The lines of a block are on one line each. -/
theorem unbroken_edits (hold : ∀ line ∈ block.old, Unbroken line) (hnew : ∀ line ∈ block.new, Unbroken line) :
    ∀ line ∈ block.edits.map Edit.print, Unbroken line := by
  intro line hline
  obtain ⟨edit, hedit, rfl⟩ := List.mem_map.mp hline
  cases edit with
  | context line =>
    exact unbroken_cons.mpr ⟨by decide, hold line (List.mem_filterMap.mpr ⟨_, hedit, rfl⟩)⟩
  | removed line =>
    exact unbroken_cons.mpr ⟨by decide, hold line (List.mem_filterMap.mpr ⟨_, hedit, rfl⟩)⟩
  | added line =>
    exact unbroken_cons.mpr ⟨by decide, hnew line (List.mem_filterMap.mpr ⟨_, hedit, rfl⟩)⟩

/-- The lines of hunks are on one line each. -/
theorem unbroken_printBlocks
    (h : ∀ block ∈ blocks, (∀ line ∈ block.old, Unbroken line) ∧ (∀ line ∈ block.new, Unbroken line) ∧
      Unbroken block.heading) : ∀ line ∈ printBlocks oldBefore newBefore blocks, Unbroken line := by
  induction blocks generalizing oldBefore newBefore with
  | nil => exact fun line hline => absurd hline List.not_mem_nil
  | cons block blocks ih =>
    obtain ⟨⟨hold, hnew, hheading⟩, hrest⟩ := List.forall_mem_cons.mp h
    rw [printBlocks]
    simp only [List.forall_mem_cons, List.forall_mem_append]
    exact ⟨unbroken_header hheading, unbroken_edits hold hnew, ih hrest⟩

/-- None of them is empty. -/
theorem ne_nil_of_mem_printBlocks (h : line ∈ printBlocks oldBefore newBefore blocks) : line ≠ [] := by
  induction blocks generalizing oldBefore newBefore with
  | nil => exact absurd h List.not_mem_nil
  | cons block blocks ih =>
    rw [printBlocks, List.mem_cons, List.mem_append] at h
    rcases h with rfl | hedit | hrest
    · exact List.cons_ne_nil _ _
    · obtain ⟨edit, -, rfl⟩ := List.mem_map.mp hedit
      cases edit <;> exact List.cons_ne_nil _ _
    · exact ih hrest

/-- The lines of a patch are read as they are written, unless there are none. -/
theorem Script.Plain.splitlines_patch (h : script.Plain fileHeaders) (ended : Bool)
    (hne : fileHeaders ++ printBlocks 0 0 script.blocks ≠ []) :
    splitlines (script.patch fileHeaders ended) = fileHeaders ++ printBlocks 0 0 script.blocks := by
  have hblocks : ∀ block ∈ script.blocks,
      (∀ line ∈ block.old, Unbroken line) ∧ (∀ line ∈ block.new, Unbroken line) ∧ Unbroken block.heading := by
    intro block hblock
    refine ⟨fun line hline => h.old line ?_, fun line hline => h.new line ?_, h.headings block hblock⟩
    · exact List.mem_append_left _ (List.mem_flatMap.mpr ⟨block, hblock, List.mem_append_right _ hline⟩)
    · exact List.mem_append_left _ (List.mem_flatMap.mpr ⟨block, hblock, List.mem_append_right _ hline⟩)
  have hunbroken : ∀ line ∈ fileHeaders ++ printBlocks 0 0 script.blocks, Unbroken line :=
    List.forall_mem_append.mpr ⟨fun line hline => (h.fileHeaders line hline).2, unbroken_printBlocks hblocks⟩
  have hsolid : ∀ line ∈ fileHeaders ++ printBlocks 0 0 script.blocks, line ≠ [] := by
    intro line hline
    rcases List.mem_append.mp hline with hheader | hprinted
    · rintro rfl
      exact absurd (h.fileHeaders [] hheader).1 (by decide)
    · exact ne_nil_of_mem_printBlocks hprinted
  unfold Script.patch
  cases ended with
  | true => exact splitlines_joinLines_newline hunbroken hne
  | false =>
    rw [if_neg Bool.false_ne_true, List.append_nil]
    apply splitlines_joinLines hunbroken
    intro hlast
    exact hsolid [] (List.mem_of_getLast? hlast) rfl

/-- Lines that begin no hunk are passed over. -/
theorem readHunks_outside {lines : List Line} (h : ∀ line ∈ lines, isHunkLine line = false) (rest : List Line) :
    readHunks 0 (lines ++ rest) = readHunks 0 rest := by
  induction lines with
  | nil => rfl
  | cons line lines ih =>
    obtain ⟨hline, hlines⟩ := List.forall_mem_cons.mp h
    rw [List.cons_append, readHunks, if_neg (by simp [hline]), ih hlines]

/-- A patch that is read has a hunk. -/
theorem ne_nil_of_parse {text : List Char} {hunks : List PatchHunk} (h : parseUnifiedPatch text = .ok hunks) :
    hunks ≠ [] := by
  rw [parseUnifiedPatch] at h
  split at h
  · cases h
  · obtain ⟨found, -, hfound⟩ := PatchFailure.bind_eq_ok h
    split at hfound
    · cases hfound
    next hne =>
      cases hfound
      exact hne

/-- A text with a character that is no space is read by its lines. -/
theorem parse_iff {text : List Char} {hunks : List PatchHunk} (h : isBlank text = false) :
    parseUnifiedPatch text = .ok hunks ↔ readHunks 0 (splitlines text) = .ok hunks ∧ hunks ≠ [] := by
  constructor
  · intro hparse
    rw [← readHunks_dropWhile]
    exact ⟨readHunks_of_parse hparse, ne_nil_of_parse hparse⟩
  · rintro ⟨hread, hne⟩
    rw [← readHunks_dropWhile] at hread
    rw [parseUnifiedPatch, if_neg (by simp [h]), hread]
    exact if_neg hne

/-- A patch is read exactly when it has a hunk and the numbers of its headers are short enough. -/
theorem Script.Plain.parse_patch (h : script.Plain fileHeaders) (ended : Bool) {hunks : List PatchHunk} :
    parseUnifiedPatch (script.patch fileHeaders ended) = .ok hunks ↔
      script.blocks ≠ [] ∧ LegibleAll 0 0 script.blocks ∧ hunks = hunksOf 0 0 script.blocks := by
  have houtside : ∀ line ∈ fileHeaders, isHunkLine line = false :=
    fun line hline => isHunkLine_of_isFileHeader (h.fileHeaders line hline).1
  cases hblocks : script.blocks with
  | nil =>
    refine iff_of_false ?_ fun hfalse => hfalse.1 rfl
    intro hparse
    have hread := readHunks_of_parse hparse
    rw [readHunks_dropWhile] at hread
    have hnone : readHunks 0 (splitlines (script.patch fileHeaders ended)) = .ok [] := by
      by_cases hheaders : fileHeaders = []
      · rw [Script.patch, hheaders, hblocks]
        cases ended <;> rfl
      · rw [h.splitlines_patch ended (by simp [hheaders]), hblocks, printBlocks, readHunks_outside houtside]
        rfl
    exact ne_nil_of_parse hparse (Except.ok.inj (hread.symm.trans hnone))
  | cons block blocks =>
    have hsign : '@' ∈ script.patch fileHeaders ended := by
      have hheader : block.header (0 + block.gap.length) (0 + block.gap.length) ∈
          fileHeaders ++ printBlocks 0 0 script.blocks := by
        rw [hblocks, printBlocks]
        exact List.mem_append_right _ List.mem_cons_self
      exact List.mem_append_left _ (mem_joinLines hheader List.mem_cons_self)
    have hsolid : isBlank (script.patch fileHeaders ended) = false := by
      apply List.all_eq_false.mpr
      exact ⟨'@', hsign, by decide⟩
    have hne : fileHeaders ++ printBlocks 0 0 script.blocks ≠ [] := by
      rw [hblocks, printBlocks]
      simp
    rw [parse_iff hsolid, h.splitlines_patch ended hne, readHunks_outside houtside, hblocks, readHunks_printBlocks]
    constructor
    · rintro ⟨⟨hlegible, rfl⟩, -⟩
      exact ⟨List.cons_ne_nil block blocks, hlegible, rfl⟩
    · rintro ⟨-, hlegible, rfl⟩
      refine ⟨⟨hlegible, rfl⟩, ?_⟩
      rw [hunksOf]
      exact List.cons_ne_nil _ _

end Lines

end MyTeam.Legacy
