import Mathlib.Data.List.Infix

/-!
# Lines

The lines of a text, as `splitlines` reads them and as `"\n".join` writes them. The end of the last line is
optional in a text, so an empty last line is the one thing that is written and not read back.
-/

namespace MyTeam.Py

/-- The characters that end a line. -/
def isLineBreak (c : Char) : Bool :=
  let n := c.toNat
  (10 ≤ n && n ≤ 13) || (28 ≤ n && n ≤ 30) || n = 0x85 || n = 0x2028 || n = 0x2029

/-- `text.splitlines()`. -/
def splitlines : List Char → List (List Char)
  | [] => []
  | '\r' :: '\n' :: rest => [] :: splitlines rest
  | c :: rest =>
    if isLineBreak c then [] :: splitlines rest
    else
      match splitlines rest with
      | [] => [[c]]
      | line :: lines => (c :: line) :: lines

/-- `"\n".join(lines)`. -/
def joinLines (lines : List (List Char)) : List Char := ['\n'].intercalate lines

/-- A line has no character that ends lines. -/
def Unbroken (line : List Char) : Prop := ∀ c ∈ line, isLineBreak c = false

instance (line : List Char) : Decidable (Unbroken line) :=
  decidable_of_iff (line.all fun c => !isLineBreak c) (by simp [Unbroken])

/-- A line and what follows on it. -/
theorem unbroken_append {line rest : List Char} : Unbroken (line ++ rest) ↔ Unbroken line ∧ Unbroken rest :=
  List.forall_mem_append

/-- A line after a character. -/
theorem unbroken_cons {c : Char} {line : List Char} : Unbroken (c :: line) ↔ isLineBreak c = false ∧ Unbroken line :=
  List.forall_mem_cons

@[simp] theorem joinLines_nil : joinLines [] = [] := rfl

@[simp] theorem joinLines_singleton (line : List Char) : joinLines [line] = line := by
  simp [joinLines]

/-- Lines are written one after the other. -/
theorem joinLines_cons_cons (line next : List Char) (lines : List (List Char)) :
    joinLines (line :: next :: lines) = line ++ '\n' :: joinLines (next :: lines) := by
  simp [joinLines]

/-- A line begins with what stands before it. -/
theorem splitlines_cons {c : Char} {text : List Char} (h : isLineBreak c = false) :
    splitlines (c :: text) =
      match splitlines text with
      | [] => [[c]]
      | line :: lines => (c :: line) :: lines := by
  have hordinary : c ≠ '\r' := by
    rintro rfl
    exact absurd h (by decide)
  rw [splitlines]
  · rw [if_neg (by simp [h])]
  · intro rest hcr
    exact absurd hcr hordinary

/-- The end of a line. -/
theorem splitlines_newline (text : List Char) : splitlines ('\n' :: text) = [] :: splitlines text := by
  rw [splitlines]
  · rfl
  · intro rest hcr
    exact absurd hcr (by decide)

/-- One line is read as it is, unless it is empty. -/
theorem splitlines_line {line : List Char} (hunbroken : Unbroken line) (hne : line ≠ []) :
    splitlines line = [line] := by
  induction line with
  | nil => exact absurd rfl hne
  | cons c rest ih =>
    rw [splitlines_cons (hunbroken c List.mem_cons_self)]
    cases rest with
    | nil => rfl
    | cons d rest => rw [ih (fun x hx => hunbroken x (List.mem_cons_of_mem c hx)) (List.cons_ne_nil d rest)]

/-- A line with its end is read as it is. -/
theorem splitlines_append {line : List Char} (hunbroken : Unbroken line) (text : List Char) :
    splitlines (line ++ '\n' :: text) = line :: splitlines text := by
  induction line with
  | nil => exact splitlines_newline text
  | cons c rest ih =>
    rw [List.cons_append, splitlines_cons (hunbroken c List.mem_cons_self),
      ih fun x hx => hunbroken x (List.mem_cons_of_mem c hx)]

/-- Lines are read back when the last one is not empty. -/
theorem splitlines_joinLines {lines : List (List Char)} (hunbroken : ∀ line ∈ lines, Unbroken line)
    (hlast : lines.getLast? ≠ some []) : splitlines (joinLines lines) = lines := by
  induction lines with
  | nil => rfl
  | cons line rest ih =>
    cases rest with
    | nil =>
      have hne : line ≠ [] := fun hempty => hlast (by rw [hempty]; rfl)
      rw [joinLines_singleton, splitlines_line (hunbroken line List.mem_cons_self) hne]
    | cons next rest =>
      rw [joinLines_cons_cons, splitlines_append (hunbroken line List.mem_cons_self),
        ih (fun x hx => hunbroken x (List.mem_cons_of_mem line hx)) (by simpa using hlast)]

/-- They are read back from a text whose last line is ended as well. -/
theorem splitlines_joinLines_newline {lines : List (List Char)} (hunbroken : ∀ line ∈ lines, Unbroken line)
    (hne : lines ≠ []) : splitlines (joinLines lines ++ ['\n']) = lines := by
  induction lines with
  | nil => exact absurd rfl hne
  | cons line rest ih =>
    cases rest with
    | nil => rw [joinLines_singleton, splitlines_append (hunbroken line List.mem_cons_self)]; rfl
    | cons next rest =>
      rw [joinLines_cons_cons, List.append_assoc, List.cons_append,
        splitlines_append (hunbroken line List.mem_cons_self),
        ih (fun x hx => hunbroken x (List.mem_cons_of_mem line hx)) (List.cons_ne_nil next rest)]

/-- An empty last line is not read back. -/
theorem splitlines_joinLines_append_nil {lines : List (List Char)} (hunbroken : ∀ line ∈ lines, Unbroken line) :
    splitlines (joinLines (lines ++ [[]])) = lines := by
  induction lines with
  | nil => rfl
  | cons line rest ih =>
    obtain ⟨hline, hrest⟩ := List.forall_mem_cons.mp hunbroken
    have hne : rest ++ [[]] ≠ [] := List.append_ne_nil_of_right_ne_nil rest (List.cons_ne_nil _ _)
    obtain ⟨next, others, hnext⟩ := List.exists_cons_of_ne_nil hne
    rw [List.cons_append, hnext, joinLines_cons_cons, splitlines_append hline, ← hnext, ih hrest]

/-- Only the text of one empty line is that of no lines. -/
theorem eq_nil_of_joinLines {lines : List (List Char)} (h : joinLines lines = []) : lines = [] ∨ lines = [[]] := by
  cases lines with
  | nil => exact .inl rfl
  | cons line rest =>
    cases rest with
    | nil =>
      rw [joinLines_singleton] at h
      exact .inr (by rw [h])
    | cons next rest =>
      rw [joinLines_cons_cons] at h
      exact absurd h (by simp)

/-- Other lines are determined by their text. -/
theorem eq_of_joinLines {lines others : List (List Char)} (hlines : ∀ line ∈ lines, Unbroken line)
    (hothers : ∀ line ∈ others, Unbroken line) (hne : lines ≠ []) (hne' : others ≠ [])
    (h : joinLines lines = joinLines others) : lines = others := by
  have hnewline {line : List Char} (hunbroken : Unbroken line) : '\n' ∉ line := by
    intro hmem
    exact absurd (hunbroken _ hmem) (by decide)
  rw [← List.splitOn_intercalate '\n' (fun line hline => hnewline (hlines line hline)) hne,
    ← List.splitOn_intercalate '\n' (fun line hline => hnewline (hothers line hline)) hne']
  exact congrArg (List.splitOn '\n') h

/-- The characters of lines are in the text that they are written to. -/
theorem mem_joinLines {lines : List (List Char)} {line : List Char} {c : Char} (hline : line ∈ lines) (hc : c ∈ line) :
    c ∈ joinLines lines := by
  induction lines with
  | nil => exact absurd hline List.not_mem_nil
  | cons first rest ih =>
    cases rest with
    | nil => rwa [joinLines_singleton, ← List.mem_singleton.mp hline]
    | cons next rest =>
      rw [joinLines_cons_cons, List.mem_append, List.mem_cons]
      rcases List.mem_cons.mp hline with rfl | hrest
      · exact .inl hc
      · exact .inr (.inr (ih hrest))

example : splitlines "a\r\nb\n\nc\n".toList = ["a".toList, "b".toList, [], "c".toList] := by decide +kernel

end MyTeam.Py
