import MyTeam.Legacy.PredicateText
import MyTeam.Py.Lines

/-!
# Patches

Unified diffs are read into hunks and applied to the text of a file, strictly at the line that a hunk names. Reading
takes the lines of a hunk until both counts of its header are reached, and passes over every line that it finds
between hunks; applying copies the lines before a hunk, and begins anew at a hunk that claims a new file.
-/

namespace MyTeam.Legacy

open MyTeam.Py
open Predicate (isSpace spanDigits)

/-- A line, without its end. -/
abbrev Line := List Char

/-- A `PatchError`. -/
structure PatchError where
  message : String
  conflict : Bool := false
deriving DecidableEq

/-- What parsing and applying a patch raise. -/
inductive PatchFailure where
  | patch (error : PatchError)
  | python (exc : Exc)
deriving DecidableEq

/-- What a sequence of two operations returns. -/
theorem PatchFailure.bind_eq_ok {α β : Type} {x : Except PatchFailure α} {f : α → Except PatchFailure β} {y : β}
    (h : (x >>= f) = .ok y) : ∃ a, x = .ok a ∧ f a = .ok y := by
  cases x with
  | error e => cases h
  | ok a => exact ⟨a, rfl, h⟩

/-- When what an operation returns is turned into some value. -/
theorem PatchFailure.map_eq_ok {α β : Type} {x : Except PatchFailure α} {f : α → β} {y : β} :
    x.map f = .ok y ↔ ∃ a, x = .ok a ∧ f a = y := by
  cases x with
  | error e => exact iff_of_false (fun h => by cases h) (fun ⟨_, h, _⟩ => by cases h)
  | ok a =>
    constructor
    · intro h
      exact ⟨a, rfl, Except.ok.inj h⟩
    · rintro ⟨b, ⟨⟩, rfl⟩
      rfl

/-- A hunk. Its lines begin with `' '`, `'+'` or `'-'`. -/
structure PatchHunk where
  oldStart : ℕ
  oldCount : ℕ
  newStart : ℕ
  newCount : ℕ
  lines : List Line
deriving DecidableEq

/-- `is_new_file`. -/
def PatchHunk.isNewFile (hunk : PatchHunk) : Bool := hunk.oldStart = 0 ∧ hunk.oldCount = 0

/-- `repr(line)`. -/
def lineRepr (line : Line) : String := Value.reprStr (String.ofList line)

/-- `repr` of the lines of a hunk, a tuple. -/
def linesRepr : List Line → String
  | [line] => s!"({lineRepr line},)"
  | lines => "(" ++ ", ".intercalate (lines.map lineRepr) ++ ")"

/-- `repr(hunk)`. -/
def PatchHunk.repr (hunk : PatchHunk) : String :=
  s!"PatchHunk(old_start={hunk.oldStart}, old_count={hunk.oldCount}, new_start={hunk.newStart}, " ++
    s!"new_count={hunk.newCount}, lines={linesRepr hunk.lines})"

/-- A line of the old text: context or removed. -/
def isOldLine (line : Line) : Bool := line.head? = some ' ' || line.head? = some '-'

/-- A line of the new text: context or added. -/
def isNewLine (line : Line) : Bool := line.head? = some ' ' || line.head? = some '+'

/-- `not text.strip()`. -/
def isBlank (text : List Char) : Bool := text.all isSpace

/-- `line.startswith(("--- ", "+++ ", "diff --git ", "index "))`. -/
def isFileHeader (line : Line) : Bool :=
  ["--- ", "+++ ", "diff --git ", "index "].any fun start => start.toList.isPrefixOf line

/-- `line.startswith("@@")`. -/
def isHunkLine (line : Line) : Bool := ['@', '@'].isPrefixOf line

/-- A literal part of a pattern, and the rest. -/
def expect (literal text : List Char) : Option (List Char) :=
  if literal.isPrefixOf text then some (text.drop literal.length) else none

/-- `(?:,(\d+))?`, or `"1"` in its place, and the rest. -/
def spanCount (text : List Char) : Option (List Char × List Char) :=
  match text with
  | ',' :: rest => spanDigits rest
  | _ => some (['1'], text)

/-- The numbers that the header of a hunk gives, as texts. -/
structure HunkMatch where
  oldStart : List Char
  oldCount : List Char
  newStart : List Char
  newCount : List Char

/-- `_HUNK_RE.match(line)`, whose parts end where no digit follows. -/
def matchHunk (line : Line) : Option HunkMatch := do
  let text ← expect "@@ -".toList line
  let (oldStart, text) ← spanDigits text
  let (oldCount, text) ← spanCount text
  let text ← expect " +".toList text
  let (newStart, text) ← spanDigits text
  let (newCount, text) ← spanCount text
  let _ ← expect " @@".toList text
  return { oldStart, oldCount, newStart, newCount }

/-- `int(digits)`. -/
def intOf (digits : List Char) : Except PatchFailure ℕ :=
  if maxStrDigits < digits.length then
    .error (.python (.valueError ("Exceeds the limit (4300 digits) for integer string conversion: " ++
      s!"value has {digits.length} digits; use sys.set_int_max_str_digits() to increase the limit")))
  else .ok (digitsValue digits)

/-- A `PatchError` about the format. -/
def malformed {α : Type} (message : String) : Except PatchFailure α := .error (.patch { message })

/-- The numbers of the header of a hunk; its lines are read by them. -/
def readHeader (line : Line) : Except PatchFailure PatchHunk :=
  match matchHunk line with
  | none => malformed s!"malformed hunk header: {lineRepr line}"
  | some found => do
    let oldStart ← intOf found.oldStart
    let oldCount ← intOf found.oldCount
    let newStart ← intOf found.newStart
    let newCount ← intOf found.newCount
    return { oldStart, oldCount, newStart, newCount, lines := [] }

/-- The lines of a hunk, read until both counts are reached. -/
def readBody (oldCount newCount : ℕ) : ℕ → ℕ → List Line → Except PatchFailure (List Line)
  | oldSeen, newSeen, [] =>
    if oldSeen < oldCount ∨ newSeen < newCount then malformed "unexpected end of hunk" else .ok []
  | oldSeen, newSeen, line :: rest =>
    if oldSeen < oldCount ∨ newSeen < newCount then
      match line.head? with
      | some ' ' => (readBody oldCount newCount (oldSeen + 1) (newSeen + 1) rest).map (line :: ·)
      | some '-' =>
        if oldCount < oldSeen + 1 then malformed s!"hunk body exceeds old_count ({oldCount})"
        else (readBody oldCount newCount (oldSeen + 1) newSeen rest).map (line :: ·)
      | some '+' =>
        if newCount < newSeen + 1 then malformed s!"hunk body exceeds new_count ({newCount})"
        else (readBody oldCount newCount oldSeen (newSeen + 1) rest).map (line :: ·)
      | _ => malformed s!"malformed hunk line: {lineRepr line}"
    else .ok []

/-- The hunks of a patch after so many lines, which the hunk before them has taken. -/
def readHunks : ℕ → List Line → Except PatchFailure (List PatchHunk)
  | _, [] => .ok []
  | taken + 1, _ :: rest => readHunks taken rest
  | 0, line :: rest =>
    if isHunkLine line then do
      let header ← readHeader line
      let body ← readBody header.oldCount header.newCount 0 0 rest
      return { header with lines := body } :: (← readHunks body.length rest)
    else readHunks 0 rest

/-- `parse_unified_patch`. -/
def parseUnifiedPatch (patchText : List Char) : Except PatchFailure (List PatchHunk) :=
  if isBlank patchText then malformed "empty patch"
  else do
    let hunks ← readHunks 0 ((splitlines patchText).dropWhile isFileHeader)
    if hunks = [] then malformed "no hunks found" else return hunks

/-- The strict match of the lines of a hunk with the content from an index on, which gives the index after it. -/
def matchLines (hunk : PatchHunk) (oldLines : List Line) : ℕ → List Line → Except PatchFailure ℕ
  | idx, [] => .ok idx
  | idx, line :: rest =>
    if isOldLine line then
      if oldLines[idx]? = some line.tail then matchLines hunk oldLines (idx + 1) rest
      else
        let actual := (oldLines[idx]?.map lineRepr).getD "None"
        let place := s!"hunk {hunk.oldStart} (line {idx + 1})"
        let message := s!"conflict at {place}: expected {lineRepr line.tail}, found {actual}"
        .error (.patch { message, conflict := true })
    else matchLines hunk oldLines idx rest

/-- The loop of `apply_patch`, at a hunk: the lines that are out, and the index up to which the content is consumed. -/
def applyHunk (content : List Char) (oldLines : List Line) (state : List Line × ℕ) (hunk : PatchHunk) :
    Except PatchFailure (List Line × ℕ) :=
  let (out, cursor) := state
  if hunk.isNewFile then
    if !isBlank content then
      .error (.patch { message := s!"hunk {hunk.repr} claims a new file but content exists", conflict := true })
    else if hunk.lines.any isOldLine then malformed "new-file hunk contains context/removed lines"
    else .ok ((hunk.lines.filter (·.head? = some '+')).map List.tail, cursor)
  else if (hunk.oldStart : ℤ) - 1 < cursor then
    malformed s!"hunks overlap or out of order (hunk at {hunk.oldStart}, already consumed through {cursor})"
  else do
    let pos := hunk.oldStart - 1
    let idx ← matchLines hunk oldLines pos hunk.lines
    return (out ++ (oldLines.take pos).drop cursor ++ (hunk.lines.filter isNewLine).map List.tail, idx)

/-- The hunks, one after the other. -/
def applyHunks (content : List Char) (oldLines : List Line) (state : List Line × ℕ) (hunks : List PatchHunk) :
    Except PatchFailure (List Line × ℕ) :=
  hunks.foldlM (applyHunk content oldLines) state

/-- `apply_patch`. -/
def applyPatch (content patchText : List Char) : Except PatchFailure (List Char) := do
  let hunks ← parseUnifiedPatch patchText
  let oldLines := splitlines content
  let (out, cursor) ← applyHunks content oldLines ([], 0) hunks
  return joinLines (out ++ oldLines.drop cursor)

end MyTeam.Legacy
