import MyTeam.Legacy.Patch

/-!
# How strict patches are

A line between hunks is passed over, whatever it is, and a context line is read past a count that has been reached:
only the other count stops it. So a text is read without losing a line of an edit where both never happen. Applying
keeps the lines around the hunks, except where a hunk claims a new file after others have been applied: it begins
with no lines, and the content goes on where the hunk before it ended.
-/

namespace MyTeam.Legacy

open MyTeam.Py

/-- How the lines of a hunk are read, after so many lines of the old and of the new text. -/
inductive BodyOf (oldCount newCount : ℕ) : ℕ → ℕ → List Line → Prop where
  | done {oldSeen newSeen : ℕ} (hold : oldCount ≤ oldSeen) (hnew : newCount ≤ newSeen) :
    BodyOf oldCount newCount oldSeen newSeen []
  | context {oldSeen newSeen : ℕ} {line : Line} {body : List Line} (hopen : oldSeen < oldCount ∨ newSeen < newCount)
    (hline : line.head? = some ' ') (hbody : BodyOf oldCount newCount (oldSeen + 1) (newSeen + 1) body) :
    BodyOf oldCount newCount oldSeen newSeen (line :: body)
  | removed {oldSeen newSeen : ℕ} {line : Line} {body : List Line} (hopen : oldSeen < oldCount)
    (hline : line.head? = some '-') (hbody : BodyOf oldCount newCount (oldSeen + 1) newSeen body) :
    BodyOf oldCount newCount oldSeen newSeen (line :: body)
  | added {oldSeen newSeen : ℕ} {line : Line} {body : List Line} (hopen : newSeen < newCount)
    (hline : line.head? = some '+') (hbody : BodyOf oldCount newCount oldSeen (newSeen + 1) body) :
    BodyOf oldCount newCount oldSeen newSeen (line :: body)

section Reading

variable {oldCount newCount oldSeen newSeen : ℕ} {line : Line} {lines body rest : List Line}

/-- A context line is of both texts. -/
theorem sides_context (h : line.head? = some ' ') : isOldLine line = true ∧ isNewLine line = true := by
  simp [isOldLine, isNewLine, h]

/-- A removed line is of the old text. -/
theorem sides_removed (h : line.head? = some '-') : isOldLine line = true ∧ isNewLine line = false := by
  simp [isOldLine, isNewLine, h]

/-- An added line is of the new text. -/
theorem sides_added (h : line.head? = some '+') : isOldLine line = false ∧ isNewLine line = true := by
  simp [isOldLine, isNewLine, h]

/-- The lines of a hunk are the next lines. -/
theorem readBody_sound (h : readBody oldCount newCount oldSeen newSeen lines = .ok body) :
    ∃ rest, lines = body ++ rest ∧ BodyOf oldCount newCount oldSeen newSeen body := by
  induction lines generalizing oldSeen newSeen body with
  | nil =>
    rw [readBody] at h
    split at h
    · cases h
    next hclosed =>
      cases h
      exact ⟨[], rfl, .done (by omega) (by omega)⟩
  | cons line lines ih =>
    -- the line is read into the body, and the rest as before
    have extend {oldNext newNext : ℕ}
        (hread : (readBody oldCount newCount oldNext newNext lines).map (line :: ·) = .ok body) :
        ∃ tail rest, body = line :: tail ∧ lines = tail ++ rest ∧ BodyOf oldCount newCount oldNext newNext tail := by
      cases htail : readBody oldCount newCount oldNext newNext lines with
      | error e =>
        rw [htail] at hread
        cases hread
      | ok tail =>
        rw [htail] at hread
        cases hread
        obtain ⟨rest, hlines, hbody⟩ := ih htail
        exact ⟨tail, rest, rfl, hlines, hbody⟩
    rw [readBody] at h
    split at h
    next hopen =>
      split at h
      next hline =>
        obtain ⟨tail, rest, rfl, rfl, hbody⟩ := extend h
        exact ⟨rest, rfl, .context hopen hline hbody⟩
      next hline =>
        split at h
        · cases h
        next hroom =>
          obtain ⟨tail, rest, rfl, rfl, hbody⟩ := extend h
          exact ⟨rest, rfl, .removed (by omega) hline hbody⟩
      next hline =>
        split at h
        · cases h
        next hroom =>
          obtain ⟨tail, rest, rfl, rfl, hbody⟩ := extend h
          exact ⟨rest, rfl, .added (by omega) hline hbody⟩
      next => cases h
    next hclosed =>
      cases h
      exact ⟨line :: lines, rfl, .done (by omega) (by omega)⟩

/-- Lines that are so read are the lines of a hunk, whatever follows. -/
theorem BodyOf.readBody (h : BodyOf oldCount newCount oldSeen newSeen body) (rest : List Line) :
    readBody oldCount newCount oldSeen newSeen (body ++ rest) = .ok body := by
  induction h with
  | done hold hnew =>
    cases rest with
    | nil => exact if_neg (by omega)
    | cons line rest => exact if_neg (by omega)
  | context hopen hline _ ih =>
    rw [List.cons_append, Legacy.readBody, if_pos hopen, hline, ih]
    rfl
  | removed hopen hline _ ih =>
    rw [List.cons_append, Legacy.readBody, if_pos (.inl hopen), hline, ih]
    exact if_neg (by omega)
  | added hopen hline _ ih =>
    rw [List.cons_append, Legacy.readBody, if_pos (.inr hopen), hline, ih]
    exact if_neg (by omega)

end Reading

/-- A text that is read without losing a line of an edit, by its lines and the counts that are open: a context line
comes while both are, and a line where none is begins a hunk, is a file header or is blank. -/
def Tidy : ℕ → ℕ → List Line → Prop
  | _, _, [] => True
  | old, new, line :: rest =>
    if 0 < old ∨ 0 < new then
      match line.head? with
      | some ' ' => 0 < old ∧ 0 < new ∧ Tidy (old - 1) (new - 1) rest
      | some '-' => 0 < old ∧ Tidy (old - 1) new rest
      | some '+' => 0 < new ∧ Tidy old (new - 1) rest
      | _ => False
    else if isHunkLine line then
      match readHeader line with
      | .ok header => Tidy header.oldCount header.newCount rest
      | .error _ => False
    else (isFileHeader line ∨ isBlank line) ∧ Tidy 0 0 rest

/-- A hunk has as many lines of both texts as its header says. -/
def PatchHunk.Exact (hunk : PatchHunk) : Prop :=
  hunk.lines.countP isOldLine = hunk.oldCount ∧ hunk.lines.countP isNewLine = hunk.newCount

/-- How the lines of a patch are divided among its hunks: a hunk has the lines after its header, and only file headers
and blank lines are outside. -/
inductive Laid : List Line → List PatchHunk → Prop where
  | done : Laid [] []
  | outside {line : Line} {rest : List Line} {hunks : List PatchHunk} (hline : isFileHeader line ∨ isBlank line)
    (hrest : Laid rest hunks) : Laid (line :: rest) hunks
  | hunk {line : Line} {rest : List Line} {hunk : PatchHunk} {hunks : List PatchHunk} (hline : isHunkLine line)
    (hrest : Laid rest hunks) : Laid (line :: (hunk.lines ++ rest)) (hunk :: hunks)

section Strict

variable {oldCount newCount oldSeen newSeen : ℕ} {line : Line} {lines body rest : List Line}
  {hunk : PatchHunk} {hunks : List PatchHunk}

/-- A context line needs both counts. -/
theorem tidy_context {old new : ℕ} (hopen : 0 < old ∨ 0 < new) (hline : line.head? = some ' ') :
    Tidy old new (line :: rest) ↔ 0 < old ∧ 0 < new ∧ Tidy (old - 1) (new - 1) rest := by
  rw [Tidy, if_pos hopen, hline]
  rfl

/-- A removed line needs the count of the old text. -/
theorem tidy_removed {old new : ℕ} (hopen : 0 < old) (hline : line.head? = some '-') :
    Tidy old new (line :: rest) ↔ Tidy (old - 1) new rest := by
  rw [Tidy, if_pos (.inl hopen), hline]
  exact and_iff_right hopen

/-- An added line needs the count of the new text. -/
theorem tidy_added {old new : ℕ} (hopen : 0 < new) (hline : line.head? = some '+') :
    Tidy old new (line :: rest) ↔ Tidy old (new - 1) rest := by
  rw [Tidy, if_pos (.inr hopen), hline]
  exact and_iff_right hopen

/-- Reading a hunk is tidy when its lines are counted as its header says, and the rest is. -/
theorem BodyOf.tidy_iff (h : BodyOf oldCount newCount oldSeen newSeen body) (hold : oldSeen ≤ oldCount)
    (hnew : newSeen ≤ newCount) (rest : List Line) :
    Tidy (oldCount - oldSeen) (newCount - newSeen) (body ++ rest) ↔
      (oldSeen + body.countP isOldLine = oldCount ∧ newSeen + body.countP isNewLine = newCount) ∧ Tidy 0 0 rest := by
  induction h with
  | done holdDone hnewDone =>
    rw [le_antisymm hold holdDone, le_antisymm hnew hnewDone, Nat.sub_self, Nat.sub_self]
    simp
  | @context oldSeen newSeen line body hopen hline _ ih =>
    have hsides := sides_context hline
    rw [List.cons_append, tidy_context (by omega) hline, List.countP_cons_of_pos hsides.1,
      List.countP_cons_of_pos hsides.2]
    by_cases hboth : oldSeen < oldCount ∧ newSeen < newCount
    · rw [Nat.sub_sub, Nat.sub_sub, ih hboth.1 hboth.2, Nat.add_right_comm oldSeen, Nat.add_right_comm newSeen]
      simp only [Nat.sub_pos_of_lt hboth.1, Nat.sub_pos_of_lt hboth.2, true_and]
      rfl
    · constructor
      · rintro ⟨hfirst, hsecond, -⟩
        omega
      · rintro ⟨⟨hfirst, hsecond⟩, -⟩
        omega
  | removed hopen hline _ ih =>
    have hsides := sides_removed hline
    rw [List.cons_append, tidy_removed (Nat.sub_pos_of_lt hopen) hline, List.countP_cons_of_pos hsides.1,
      List.countP_cons_of_neg (by simp [hsides.2]), Nat.sub_sub, ih hopen hnew, Nat.add_right_comm]
    rfl
  | added hopen hline _ ih =>
    have hsides := sides_added hline
    rw [List.cons_append, tidy_added (Nat.sub_pos_of_lt hopen) hline, List.countP_cons_of_neg (by simp [hsides.1]),
      List.countP_cons_of_pos hsides.2, Nat.sub_sub, ih hold hopen, Nat.add_right_comm]
    rfl

/-- The lines that a hunk has taken are passed over. -/
theorem readHunks_append (body rest : List Line) : readHunks body.length (body ++ rest) = readHunks 0 rest := by
  induction body with
  | nil => rfl
  | cons line body ih => exact ih

/-- What reading a hunk finds: a header, as many lines as it asks for, and the other hunks. -/
theorem readHunks_hunk (hline : isHunkLine line = true) (h : readHunks 0 (line :: lines) = .ok hunks) :
    ∃ header body rest others, readHeader line = .ok header ∧ lines = body ++ rest ∧
      BodyOf header.oldCount header.newCount 0 0 body ∧ readHunks 0 rest = .ok others ∧
      hunks = { header with lines := body } :: others := by
  rw [readHunks, if_pos hline] at h
  obtain ⟨header, hheader, hafter⟩ := PatchFailure.bind_eq_ok h
  obtain ⟨body, hread, hafter⟩ := PatchFailure.bind_eq_ok hafter
  obtain ⟨others, hothers, hfound⟩ := PatchFailure.bind_eq_ok hafter
  obtain ⟨rest, rfl, hbody⟩ := readBody_sound hread
  rw [readHunks_append] at hothers
  cases hfound
  exact ⟨header, body, rest, others, hheader, rfl, hbody, hothers, rfl⟩

/-- A header with the lines that it asks for is read as a hunk. -/
theorem readHunks_of_hunk {header : PatchHunk} {others : List PatchHunk} (hline : isHunkLine line = true)
    (hheader : readHeader line = .ok header) (hbody : BodyOf header.oldCount header.newCount 0 0 body)
    (hothers : readHunks 0 rest = .ok others) :
    readHunks 0 (line :: (body ++ rest)) = .ok ({ header with lines := body } :: others) := by
  rw [readHunks, if_pos hline, hheader]
  change (readBody header.oldCount header.newCount 0 0 (body ++ rest) >>= _) = _
  rw [hbody.readBody]
  change (readHunks body.length (body ++ rest) >>= _) = _
  rw [readHunks_append, hothers]
  rfl

/-- The sign of a hunk begins neither a file header nor a blank line. -/
theorem solid_of_isHunkLine (h : isHunkLine line = true) : ¬(isFileHeader line = true ∨ isBlank line = true) := by
  obtain ⟨rest, rfl⟩ : ['@', '@'] <+: line := List.isPrefixOf_iff_prefix.mp h
  rintro (hfile | hblank)
  · simp [isFileHeader] at hfile
  · simp [isBlank, Predicate.isSpace] at hblank

/-- A line of a text that is read begins a hunk or is passed over. -/
theorem laid_hunk_iff {header : PatchHunk} (hline : isHunkLine line = true) :
    Laid (line :: (body ++ rest)) ({ header with lines := body } :: hunks) ↔ Laid rest hunks := by
  constructor
  · intro h
    generalize hall : line :: (body ++ rest) = all at h
    generalize hfound : { header with lines := body } :: hunks = found at h
    cases h with
    | done => cases hfound
    | outside houtside _ =>
      cases hall
      exact absurd houtside (solid_of_isHunkLine hline)
    | hunk _ hrest =>
      cases hfound
      obtain ⟨-, hsame⟩ := List.cons.inj hall
      rwa [List.append_cancel_left hsame]
  · intro h
    exact @Laid.hunk line rest { header with lines := body } hunks hline h

/-- A line that begins no hunk is outside. -/
theorem laid_outside_iff (hline : isHunkLine line = false) :
    Laid (line :: rest) hunks ↔ (isFileHeader line ∨ isBlank line) ∧ Laid rest hunks := by
  constructor
  · intro h
    generalize hall : line :: rest = all at h
    cases h with
    | done => cases hall
    | outside houtside hrest =>
      cases hall
      exact ⟨houtside, hrest⟩
    | hunk hhunk _ =>
      cases hall
      exact absurd hhunk (by simp [hline])
  · exact fun h => .outside h.1 h.2

/-- A text is read without losing a line of an edit exactly when it is tidy. -/
theorem exact_laid_iff (h : readHunks 0 lines = .ok hunks) :
    ((∀ hunk ∈ hunks, hunk.Exact) ∧ Laid lines hunks) ↔ Tidy 0 0 lines := by
  induction hlength : lines.length using Nat.strong_induction_on generalizing lines hunks with
  | _ length ih =>
    subst hlength
    cases lines with
    | nil =>
      cases h
      simp [Tidy, Laid.done]
    | cons line lines =>
      cases hline : isHunkLine line with
      | true =>
        obtain ⟨header, body, rest, others, hheader, rfl, hbody, hothers, rfl⟩ := readHunks_hunk hline h
        have hrest := ih rest.length (by rw [List.length_cons, List.length_append]; omega) hothers rfl
        have htidy := hbody.tidy_iff (Nat.zero_le _) (Nat.zero_le _) rest
        simp only [Nat.sub_zero, Nat.zero_add] at htidy
        rw [Tidy, if_neg (by simp), if_pos hline, hheader, laid_hunk_iff hline, List.forall_mem_cons, and_assoc, hrest]
        exact htidy.symm
      | false =>
        rw [readHunks, if_neg (by simp [hline])] at h
        have hrest := ih lines.length (by simp) h rfl
        rw [Tidy, if_neg (by simp), if_neg (by simp [hline]), laid_outside_iff hline, ← hrest]
        exact and_left_comm

end Strict

/-- Where the new lines of a hunk come from whose old lines are matched from an index on: a line of the content, or
the patch. -/
def bodyOrigins : ℕ → List Line → List (Option ℕ)
  | _, [] => []
  | idx, line :: rest =>
    let next := bodyOrigins (if isOldLine line then idx + 1 else idx) rest
    if isNewLine line then (if isOldLine line then some idx else none) :: next else next

/-- Where the lines come from that are out after a hunk, and the index up to which the content is consumed. -/
def trackHunk (length : ℕ) (state : List (Option ℕ) × ℕ) (hunk : PatchHunk) : List (Option ℕ) × ℕ :=
  if hunk.isNewFile then ((hunk.lines.filter (·.head? = some '+')).map fun _ => none, state.2)
  else
    let pos := hunk.oldStart - 1
    (state.1 ++ (((List.range length).take pos).drop state.2).map some ++ bodyOrigins pos hunk.lines,
      pos + hunk.lines.countP isOldLine)

/-- Where the lines of the result come from. -/
def track (length : ℕ) (hunks : List PatchHunk) : List (Option ℕ) :=
  let state := hunks.foldl (trackHunk length) ([], 0)
  state.1 ++ ((List.range length).drop state.2).map some

/-- Lines are those of the content that they are said to come from. -/
def Traced (oldLines : List Line) (origins : List (Option ℕ)) (out : List Line) : Prop :=
  List.Forall₂ (fun origin line => ∀ i, origin = some i → oldLines[i]? = some line) origins out

/-- The old range of a hunk, by indices of the content. -/
def PatchHunk.Covers (hunk : PatchHunk) (i : ℕ) : Prop :=
  hunk.oldStart - 1 ≤ i ∧ i < hunk.oldStart - 1 + hunk.oldCount

/-- The end of a hunk, past the lines that it matches. -/
def PatchHunk.oldEnd (hunk : PatchHunk) : ℕ := hunk.oldStart - 1 + hunk.lines.countP isOldLine

/-- The result keeps every line of the content outside the old ranges of the hunks. -/
def Keeps (oldLines : List Line) (hunks : List PatchHunk) (result : List Char) : Prop :=
  ∃ out, joinLines out = result ∧ Traced oldLines (track oldLines.length hunks) out ∧
    ∀ i < oldLines.length, (∀ hunk ∈ hunks, ¬hunk.Covers i) → some i ∈ track oldLines.length hunks

/-- No hunk claims a new file after others, unless the lines of the content up to their end are in old ranges. -/
def Unlost (length : ℕ) (hunks : List PatchHunk) : Prop :=
  ∀ before newFile after, hunks = before ++ newFile :: after → newFile.isNewFile = true →
    ∀ earlier ∈ before, earlier.isNewFile = false →
      ∀ i < earlier.oldEnd, i < length → ∃ hunk ∈ hunks, hunk.Covers i

section Tracing

variable {content : List Char} {oldLines out : List Line} {origins : List (Option ℕ)} {cursor idx after : ℕ}
  {hunk : PatchHunk} {hunks : List PatchHunk} {lines : List Line}

/-- The new lines of a hunk that matches are those of the content and of the patch. -/
theorem traced_matchLines (h : matchLines hunk oldLines idx lines = .ok after) :
    after = idx + lines.countP isOldLine ∧
      Traced oldLines (bodyOrigins idx lines) ((lines.filter isNewLine).map List.tail) := by
  induction lines generalizing idx with
  | nil =>
    cases h
    exact ⟨rfl, .nil⟩
  | cons line lines ih =>
    rw [matchLines] at h
    rw [bodyOrigins]
    by_cases hold : isOldLine line = true
    · rw [if_pos hold] at h
      split at h
      next hmatch =>
        obtain ⟨rfl, htraced⟩ := ih h
        refine ⟨by rw [List.countP_cons_of_pos hold]; omega, ?_⟩
        simp only [hold, if_true]
        by_cases hnew : isNewLine line = true
        · rw [if_pos hnew, List.filter_cons_of_pos hnew]
          refine .cons ?_ htraced
          rintro i ⟨⟩
          exact hmatch
        · rwa [if_neg hnew, List.filter_cons_of_neg hnew]
      · cases h
    · rw [if_neg hold] at h
      obtain ⟨rfl, htraced⟩ := ih h
      refine ⟨by rw [List.countP_cons_of_neg hold], ?_⟩
      rw [if_neg hold, if_neg hold]
      by_cases hnew : isNewLine line = true
      · rw [if_pos hnew, List.filter_cons_of_pos hnew]
        exact .cons (fun i hnone => by cases hnone) htraced
      · rwa [if_neg hnew, List.filter_cons_of_neg hnew]

/-- Lines that are copied come from the content. -/
theorem traced_range (oldLines : List Line) :
    Traced oldLines ((List.range oldLines.length).map some) oldLines := by
  apply List.forall₂_iff_get.mpr
  refine ⟨by simp, ?_⟩
  intro i hlength hi j hj
  simp only [List.get_eq_getElem, List.getElem_map, List.getElem_range, Option.some.injEq] at hj
  subst hj
  simp

/-- So do some of them. -/
theorem Traced.slice (h : Traced oldLines origins out) (pos cursor : ℕ) :
    Traced oldLines ((origins.take pos).drop cursor) ((out.take pos).drop cursor) :=
  List.forall₂_drop _ (List.forall₂_take _ h)

/-- What applying a hunk does: it begins anew, or goes on at the line of the hunk. -/
theorem applyHunk_cases {state : List Line × ℕ} (h : applyHunk content oldLines (out, cursor) hunk = .ok state) :
    (hunk.isNewFile = true ∧ state = ((hunk.lines.filter (·.head? = some '+')).map List.tail, cursor)) ∨
      (hunk.isNewFile = false ∧ cursor ≤ hunk.oldStart - 1 ∧
        ∃ after, matchLines hunk oldLines (hunk.oldStart - 1) hunk.lines = .ok after ∧
          state = (out ++ (oldLines.take (hunk.oldStart - 1)).drop cursor ++
            (hunk.lines.filter isNewLine).map List.tail, after)) := by
  rw [applyHunk] at h
  split at h
  next hnew =>
    split at h
    · cases h
    · split at h
      · cases h
      · cases h
        exact .inl ⟨hnew, rfl⟩
  next hnew =>
    split at h
    · cases h
    next hpos =>
      obtain ⟨after, hmatch, hresult⟩ := PatchFailure.bind_eq_ok h
      cases hresult
      exact .inr ⟨by simpa using hnew, by omega, after, hmatch, rfl⟩

/-- The lines that are out after a hunk come from where they are tracked to. -/
theorem Traced.applyHunk {state : List Line × ℕ} (htraced : Traced oldLines origins out)
    (h : applyHunk content oldLines (out, cursor) hunk = .ok state) :
    Traced oldLines (trackHunk oldLines.length (origins, cursor) hunk).1 state.1 ∧
      (trackHunk oldLines.length (origins, cursor) hunk).2 = state.2 := by
  rw [trackHunk]
  rcases applyHunk_cases h with ⟨hnew, rfl⟩ | ⟨hnew, -, after, hmatch, rfl⟩
  · rw [if_pos hnew]
    refine ⟨?_, rfl⟩
    apply List.forall₂_map_left_iff.mpr
    apply List.forall₂_map_right_iff.mpr
    exact List.forall₂_same.mpr fun line _ i hnone => by cases hnone
  · obtain ⟨rfl, hbody⟩ := traced_matchLines hmatch
    rw [if_neg (by simp [hnew])]
    refine ⟨?_, rfl⟩
    have hgap := (traced_range oldLines).slice (hunk.oldStart - 1) cursor
    rw [← List.map_take, ← List.map_drop] at hgap
    exact List.rel_append (List.rel_append htraced hgap) hbody

/-- So do those after all hunks. -/
theorem Traced.applyHunks {state : List Line × ℕ} (htraced : Traced oldLines origins out)
    (h : applyHunks content oldLines (out, cursor) hunks = .ok state) :
    Traced oldLines (hunks.foldl (trackHunk oldLines.length) (origins, cursor)).1 state.1 ∧
      (hunks.foldl (trackHunk oldLines.length) (origins, cursor)).2 = state.2 := by
  induction hunks generalizing origins out cursor with
  | nil =>
    cases h
    exact ⟨htraced, rfl⟩
  | cons hunk hunks ih =>
    rw [Legacy.applyHunks, List.foldlM_cons] at h
    obtain ⟨⟨next, position⟩, hhunk, hrest⟩ := PatchFailure.bind_eq_ok h
    obtain ⟨hnext, hposition⟩ := htraced.applyHunk hhunk
    have hstate : trackHunk oldLines.length (origins, cursor) hunk =
        ((trackHunk oldLines.length (origins, cursor) hunk).1, position) := Prod.ext rfl hposition
    rw [List.foldl_cons, hstate]
    exact ih hnext hrest

end Tracing

section Keeping

variable {content : List Char} {oldLines out : List Line} {origins : List (Option ℕ)} {cursor idx i : ℕ}
  {hunk : PatchHunk} {hunks : List PatchHunk} {lines : List Line}

/-- A line of the content that a hunk leaves is at or after its first. -/
theorem le_of_mem_bodyOrigins (h : some i ∈ bodyOrigins idx lines) : idx ≤ i := by
  induction lines generalizing idx with
  | nil => exact absurd h List.not_mem_nil
  | cons line lines ih =>
    rw [bodyOrigins] at h
    have hnext (hmem : some i ∈ bodyOrigins (if isOldLine line then idx + 1 else idx) lines) : idx ≤ i := by
      have hle := ih hmem
      split at hle <;> omega
    split at h
    · rcases List.mem_cons.mp h with hhead | hmem
      · split at hhead
        · exact le_of_eq (Option.some.inj hhead).symm
        · cases hhead
      · exact hnext hmem
    · exact hnext h

/-- A hunk leaves the lines that it matches past its old range: they are context. -/
theorem BodyOf.mem_bodyOrigins {oldCount newCount oldSeen newSeen : ℕ}
    (h : BodyOf oldCount newCount oldSeen newSeen lines) (base : ℕ) (hrange : base + oldCount ≤ i)
    (hfirst : base + oldSeen ≤ i) (hlast : i < base + oldSeen + lines.countP isOldLine) :
    some i ∈ bodyOrigins (base + oldSeen) lines := by
  induction h with
  | done =>
    rw [List.countP_nil] at hlast
    omega
  | context hopen hline _ ih =>
    have hsides := sides_context hline
    rw [List.countP_cons_of_pos hsides.1] at hlast
    rw [bodyOrigins, if_pos hsides.2, if_pos hsides.1, if_pos hsides.1, List.mem_cons]
    rcases hfirst.eq_or_lt with rfl | hlater
    · exact .inl rfl
    · exact .inr (ih (by omega) (by omega))
  | removed hopen hline _ ih =>
    have hsides := sides_removed hline
    rw [List.countP_cons_of_pos hsides.1] at hlast
    rw [bodyOrigins, if_neg (by simp [hsides.2]), if_pos hsides.1]
    exact ih (by omega) (by omega)
  | added hopen hline _ ih =>
    have hsides := sides_added hline
    rw [List.countP_cons_of_neg (by simp [hsides.1])] at hlast
    rw [bodyOrigins, if_pos hsides.2, if_neg (by simp [hsides.1]), if_neg (by simp [hsides.1]), List.mem_cons]
    exact .inr (ih hfirst hlast)

/-- The lines before a hunk that are not consumed are copied. -/
theorem mem_gap {length pos : ℕ} (hcursor : cursor ≤ i) (hpos : i < pos) (hlength : i < length) :
    some i ∈ (((List.range length).take pos).drop cursor).map some := by
  apply List.mem_map_of_mem
  rw [List.take_range, List.mem_drop_iff_getElem]
  exact ⟨i - cursor, by simp; omega, by simp; omega⟩

/-- Lines that are consumed are not copied. -/
theorem le_of_mem_gap {length : ℕ} {xs : List ℕ} (hxs : xs <+: List.range length)
    (h : some i ∈ (xs.drop cursor).map some) : cursor ≤ i := by
  obtain ⟨j, hj, hsame⟩ := List.mem_map.mp h
  cases hsame
  obtain ⟨k, hk, rfl⟩ := List.mem_drop_iff_getElem.mp hj
  rw [hxs.getElem, List.getElem_range]
  exact Nat.le_add_right cursor k

/-- A line outside the old ranges stays, if no hunk begins anew once it is consumed. -/
theorem mem_of_applyHunks {state : List Line × ℕ}
    (hbodies : ∀ hunk ∈ hunks, BodyOf hunk.oldCount hunk.newCount 0 0 hunk.lines)
    (hrun : applyHunks content oldLines (out, cursor) hunks = .ok state) (hi : i < oldLines.length)
    (hfree : ∀ hunk ∈ hunks, ¬hunk.Covers i)
    (hreset : ∀ before newFile after, hunks = before ++ newFile :: after → newFile.isNewFile = true →
      ∀ earlier ∈ before, earlier.isNewFile = false → earlier.oldEnd ≤ i)
    (hplace : cursor ≤ i ∨ some i ∈ origins ∧ ∀ hunk ∈ hunks, hunk.isNewFile = false) :
    some i ∈ (hunks.foldl (trackHunk oldLines.length) (origins, cursor)).1 ∨
      (hunks.foldl (trackHunk oldLines.length) (origins, cursor)).2 ≤ i := by
  induction hunks generalizing out cursor origins with
  | nil => exact hplace.symm.imp And.left id
  | cons hunk hunks ih =>
    rw [applyHunks, List.foldlM_cons] at hrun
    obtain ⟨⟨next, position⟩, hhunk, hrest⟩ := PatchFailure.bind_eq_ok hrun
    have hbodiesRest := fun other hother => hbodies other (List.mem_cons_of_mem hunk hother)
    have hfreeRest := fun other hother => hfree other (List.mem_cons_of_mem hunk hother)
    have hresetRest (before : List PatchHunk) (newFile : PatchHunk) (after : List PatchHunk)
        (hsplit : hunks = before ++ newFile :: after) (hnew : newFile.isNewFile = true) (earlier : PatchHunk)
        (hmem : earlier ∈ before) : earlier.isNewFile = false → earlier.oldEnd ≤ i :=
      hreset (hunk :: before) newFile after (by rw [hsplit, List.cons_append]) hnew earlier
        (List.mem_cons_of_mem hunk hmem)
    rw [List.foldl_cons, trackHunk]
    rcases applyHunk_cases hhunk with ⟨hnew, hstate⟩ | ⟨hnew, hcursor, after, hmatch, hstate⟩
    · -- the content goes on where the hunk before ended
      obtain ⟨rfl, rfl⟩ := Prod.mk.inj hstate
      have hle : position ≤ i := hplace.resolve_right fun h => by simp [h.2 hunk List.mem_cons_self] at hnew
      rw [if_pos hnew]
      exact ih hbodiesRest hrest hfreeRest hresetRest (.inl hle)
    · obtain ⟨rfl, rfl⟩ := Prod.mk.inj hstate
      obtain ⟨rfl, -⟩ := traced_matchLines hmatch
      rw [if_neg (by simp [hnew])]
      apply ih hbodiesRest hrest hfreeRest hresetRest
      by_cases hend : hunk.oldEnd ≤ i
      · exact .inl hend
      -- the line is before the end of the hunk, so nothing begins anew after it
      right
      have hlast : ∀ other ∈ hunks, other.isNewFile = false := by
        intro other hother
        obtain ⟨before, after, rfl⟩ := List.append_of_mem hother
        by_contra hother
        exact hend (hreset (hunk :: before) other after rfl (by simpa using hother) hunk List.mem_cons_self hnew)
      refine ⟨?_, hlast⟩
      rw [List.mem_append, List.mem_append]
      rcases hplace with hle | ⟨hmem, -⟩
      · rcases Nat.lt_or_ge i (hunk.oldStart - 1) with hgap | hpos
        · exact .inl (.inr (mem_gap hle hgap hi))
        · have hpast := hfree hunk List.mem_cons_self
          rw [PatchHunk.Covers] at hpast
          rw [PatchHunk.oldEnd] at hend
          exact .inr ((hbodies hunk List.mem_cons_self).mem_bodyOrigins (hunk.oldStart - 1) (by omega) hpos (by omega))
      · exact .inl (.inl hmem)

/-- A line that is consumed and not out does not come back. -/
theorem not_mem_of_applyHunks {state : List Line × ℕ}
    (hrun : applyHunks content oldLines (out, cursor) hunks = .ok state) (hi : i < cursor) (hnot : some i ∉ origins) :
    some i ∉ (hunks.foldl (trackHunk oldLines.length) (origins, cursor)).1 ∧
      i < (hunks.foldl (trackHunk oldLines.length) (origins, cursor)).2 := by
  induction hunks generalizing out cursor origins with
  | nil => exact ⟨hnot, hi⟩
  | cons hunk hunks ih =>
    rw [applyHunks, List.foldlM_cons] at hrun
    obtain ⟨⟨next, position⟩, hhunk, hrest⟩ := PatchFailure.bind_eq_ok hrun
    rw [List.foldl_cons, trackHunk]
    rcases applyHunk_cases hhunk with ⟨hnew, hstate⟩ | ⟨hnew, hcursor, after, hmatch, hstate⟩
    · obtain ⟨rfl, rfl⟩ := Prod.mk.inj hstate
      rw [if_pos hnew]
      apply ih hrest hi
      simp
    · obtain ⟨rfl, rfl⟩ := Prod.mk.inj hstate
      obtain ⟨rfl, -⟩ := traced_matchLines hmatch
      rw [if_neg (by simp [hnew])]
      apply ih hrest (by omega)
      rw [List.mem_append, List.mem_append]
      rintro ((hmem | hgap) | hbody)
      · exact hnot hmem
      · exact absurd (le_of_mem_gap (List.take_prefix _ _) hgap) (by omega)
      · exact absurd (le_of_mem_bodyOrigins hbody) (by omega)

/-- Everything up to the end of a hunk is consumed after it. -/
theorem oldEnd_le {state : List Line × ℕ} (hrun : applyHunks content oldLines (out, cursor) hunks = .ok state) :
    cursor ≤ state.2 ∧ ∀ hunk ∈ hunks, hunk.isNewFile = false → hunk.oldEnd ≤ state.2 := by
  induction hunks generalizing out cursor with
  | nil =>
    cases hrun
    exact ⟨le_rfl, fun hunk hmem => absurd hmem List.not_mem_nil⟩
  | cons hunk hunks ih =>
    rw [applyHunks, List.foldlM_cons] at hrun
    obtain ⟨⟨next, position⟩, hhunk, hrest⟩ := PatchFailure.bind_eq_ok hrun
    obtain ⟨hposition, hothers⟩ := ih hrest
    rw [List.forall_mem_cons]
    rcases applyHunk_cases hhunk with ⟨hnew, hstate⟩ | ⟨-, hcursor, after, hmatch, hstate⟩
    · obtain ⟨rfl, rfl⟩ := Prod.mk.inj hstate
      exact ⟨hposition, fun hordinary => absurd hnew (by simp [hordinary]), hothers⟩
    · obtain ⟨rfl, rfl⟩ := Prod.mk.inj hstate
      obtain ⟨rfl, -⟩ := traced_matchLines hmatch
      exact ⟨by omega, fun _ => hposition, hothers⟩

/-- Every line outside the old ranges stays exactly when nothing is lost to a hunk that claims a new file. -/
theorem keeps_iff {state : List Line × ℕ}
    (hbodies : ∀ hunk ∈ hunks, BodyOf hunk.oldCount hunk.newCount 0 0 hunk.lines)
    (hrun : applyHunks content oldLines ([], 0) hunks = .ok state) :
    (∀ i < oldLines.length, (∀ hunk ∈ hunks, ¬hunk.Covers i) → some i ∈ track oldLines.length hunks) ↔
      Unlost oldLines.length hunks := by
  constructor
  · intro hkeeps before newFile after hsplit hnew earlier hearlier hordinary i hend hlength
    by_contra hfree
    have hmem := hkeeps i hlength fun hunk hhunk hcovers => hfree ⟨hunk, hhunk, hcovers⟩
    rw [hsplit, applyHunks, List.foldlM_append] at hrun
    obtain ⟨⟨first, consumed⟩, hbefore, hrest⟩ := PatchFailure.bind_eq_ok hrun
    rw [List.foldlM_cons] at hrest
    obtain ⟨⟨next, position⟩, hhunk, hafter⟩ := PatchFailure.bind_eq_ok hrest
    have hi : i < consumed := hend.trans_le ((oldEnd_le hbefore).2 earlier hearlier hordinary)
    have htracked := (Traced.applyHunks (List.Forall₂.nil : Traced oldLines [] []) hbefore).2
    rcases applyHunk_cases hhunk with ⟨-, hstate⟩ | ⟨hother, -⟩
    · obtain ⟨rfl, rfl⟩ := Prod.mk.inj hstate
      have hreset : some i ∉ (newFile.lines.filter (·.head? = some '+')).map fun _ => (none : Option ℕ) := by simp
      obtain ⟨hnot, hconsumed⟩ := not_mem_of_applyHunks hafter hi hreset
      rw [track, hsplit, List.foldl_append, List.foldl_cons, trackHunk, if_pos hnew, htracked, List.mem_append] at hmem
      rcases hmem with hmem | hrest
      · exact hnot hmem
      · exact absurd (le_of_mem_gap List.prefix_rfl hrest) (not_le_of_gt hconsumed)
    · simp [hnew] at hother
  · intro hunlost i hlength hfree
    have hreset (before : List PatchHunk) (newFile : PatchHunk) (after : List PatchHunk)
        (hsplit : hunks = before ++ newFile :: after) (hnew : newFile.isNewFile = true) (earlier : PatchHunk)
        (hmem : earlier ∈ before) (hordinary : earlier.isNewFile = false) : earlier.oldEnd ≤ i := by
      by_contra hend
      have hlost := hunlost before newFile after hsplit hnew earlier hmem hordinary i (by omega) hlength
      obtain ⟨hunk, hhunk, hcovers⟩ := hlost
      exact hfree hunk hhunk hcovers
    rw [track, List.mem_append]
    have hplace : 0 ≤ i ∨ some i ∈ ([] : List (Option ℕ)) ∧ ∀ hunk ∈ hunks, hunk.isNewFile = false :=
      .inl (Nat.zero_le i)
    rcases mem_of_applyHunks hbodies hrun hlength hfree hreset hplace with hmem | hle
    · exact .inl hmem
    · right
      have hgap := mem_gap hle hlength hlength
      rwa [List.take_of_length_le (by simp)] at hgap

end Keeping

section Whole

variable {text content : List Char} {hunks : List PatchHunk}

/-- The hunks of a patch are read from its lines, past the file headers at the beginning. -/
theorem readHunks_of_parse (h : parseUnifiedPatch text = .ok hunks) :
    readHunks 0 ((splitlines text).dropWhile isFileHeader) = .ok hunks := by
  rw [parseUnifiedPatch] at h
  split at h
  · cases h
  · obtain ⟨found, hread, hfound⟩ := PatchFailure.bind_eq_ok h
    split at hfound
    · cases hfound
    · cases hfound
      exact hread

/-- File headers begin no hunk. -/
theorem isHunkLine_of_isFileHeader {line : Line} (h : isFileHeader line = true) : isHunkLine line = false := by
  by_contra hhunk
  exact solid_of_isHunkLine (by simpa using hhunk) (.inl h)

/-- They are passed over like other lines. -/
theorem readHunks_dropWhile (lines : List Line) : readHunks 0 (lines.dropWhile isFileHeader) = readHunks 0 lines := by
  induction lines with
  | nil => rfl
  | cons line lines ih =>
    by_cases hline : isFileHeader line = true
    · rw [List.dropWhile_cons_of_pos hline, ih, readHunks, if_neg (by simp [isHunkLine_of_isFileHeader hline])]
    · rw [List.dropWhile_cons_of_neg hline]

/-- The lines of every hunk are read by its counts. -/
theorem bodyOf_of_readHunks {lines : List Line} (h : readHunks 0 lines = .ok hunks) :
    ∀ hunk ∈ hunks, BodyOf hunk.oldCount hunk.newCount 0 0 hunk.lines := by
  induction hlength : lines.length using Nat.strong_induction_on generalizing lines hunks with
  | _ length ih =>
    subst hlength
    cases lines with
    | nil =>
      cases h
      exact fun hunk hmem => absurd hmem List.not_mem_nil
    | cons line lines =>
      cases hline : isHunkLine line with
      | true =>
        obtain ⟨header, body, rest, others, -, rfl, hbody, hothers, rfl⟩ := readHunks_hunk hline h
        have hshorter : rest.length < (line :: (body ++ rest)).length := by
          rw [List.length_cons, List.length_append]
          omega
        exact List.forall_mem_cons.mpr ⟨hbody, ih rest.length hshorter hothers rfl⟩
      | false =>
        rw [readHunks, if_neg (by simp [hline])] at h
        exact ih lines.length (by simp) h rfl

/-- Applying a patch that is read applies its hunks. -/
theorem applyPatch_eq (h : parseUnifiedPatch text = .ok hunks) : applyPatch content text =
    (applyHunks content (splitlines content) ([], 0) hunks).map fun state =>
      joinLines (state.1 ++ (splitlines content).drop state.2) := by
  rw [applyPatch, h]
  change (applyHunks content (splitlines content) ([], 0) hunks >>= _) = _
  cases applyHunks content (splitlines content) ([], 0) hunks <;> rfl

/-- The result of a patch that is applied keeps the lines outside its old ranges exactly when none is lost to a hunk
that claims a new file. -/
theorem keeps_iff_unlost {result : List Char} (hparse : parseUnifiedPatch text = .ok hunks)
    (happly : applyPatch content text = .ok result) :
    Keeps (splitlines content) hunks result ↔ Unlost (splitlines content).length hunks := by
  rw [applyPatch_eq hparse] at happly
  cases hrun : applyHunks content (splitlines content) ([], 0) hunks with
  | error e =>
    rw [hrun] at happly
    cases happly
  | ok state =>
    rw [hrun] at happly
    cases happly
    rw [← keeps_iff (bodyOf_of_readHunks (readHunks_of_parse hparse)) hrun, Keeps]
    constructor
    · rintro ⟨-, -, -, hkeeps⟩
      exact hkeeps
    · intro hkeeps
      obtain ⟨htraced, hconsumed⟩ := Traced.applyHunks (List.Forall₂.nil : Traced (splitlines content) [] []) hrun
      refine ⟨_, rfl, ?_, hkeeps⟩
      have hrest := List.forall₂_drop state.2 (traced_range (splitlines content))
      rw [← List.map_drop] at hrest
      rw [track, hconsumed]
      exact List.rel_append htraced hrest

/-- For every text that is read as hunks, and every content: each hunk has exactly the lines that its header counts,
every line of the text that is no file header, no hunk header and not blank is of one hunk, and applying keeps every
line outside the old ranges, exactly when the text is tidy and no line that is consumed is lost to a hunk that claims
a new file. -/
theorem strict_iff (hparse : parseUnifiedPatch text = .ok hunks) :
    (((∀ hunk ∈ hunks, hunk.Exact) ∧ Laid (splitlines text) hunks) ∧
        ∀ result, applyPatch content text = .ok result → Keeps (splitlines content) hunks result) ↔
      Tidy 0 0 (splitlines text) ∧
        ∀ result, applyPatch content text = .ok result → Unlost (splitlines content).length hunks := by
  have hread := readHunks_of_parse hparse
  rw [readHunks_dropWhile] at hread
  apply and_congr (exact_laid_iff hread)
  exact forall_congr' fun result => forall_congr' fun happly => keeps_iff_unlost hparse happly

end Whole

/-- A patch that replaces a line is read and applied without loss. -/
theorem strict_iff_replacement :
    ((∀ hunk ∈ [(⟨2, 1, 2, 1, ["-b".toList, "+c".toList]⟩ : PatchHunk)], hunk.Exact) ∧
        Laid (splitlines "--- a\n@@ -2 +2 @@\n-b\n+c".toList) [⟨2, 1, 2, 1, ["-b".toList, "+c".toList]⟩]) ∧
      ∀ result, applyPatch "a\nb".toList "--- a\n@@ -2 +2 @@\n-b\n+c".toList = .ok result →
        Keeps (splitlines "a\nb".toList) [⟨2, 1, 2, 1, ["-b".toList, "+c".toList]⟩] result := by
  have hparse : parseUnifiedPatch "--- a\n@@ -2 +2 @@\n-b\n+c".toList =
    .ok [⟨2, 1, 2, 1, ["-b".toList, "+c".toList]⟩] := by decide +kernel
  apply (strict_iff hparse).mpr
  refine ⟨?_, ?_⟩
  · have hlines : splitlines "--- a\n@@ -2 +2 @@\n-b\n+c".toList =
      ["--- a".toList, "@@ -2 +2 @@".toList, "-b".toList, "+c".toList] := by decide +kernel
    have hheader : readHeader "@@ -2 +2 @@".toList = .ok ⟨2, 1, 2, 1, []⟩ := by decide +kernel
    rw [hlines, Tidy, if_neg (by decide), if_neg (by decide +kernel), Tidy, if_neg (by decide),
      if_pos (by decide +kernel), hheader]
    exact ⟨.inl (by decide +kernel), by decide, by decide, trivial⟩
  · rintro - - before newFile after hsplit hnew
    have hmem : newFile ∈ before ++ newFile :: after := List.mem_append_right before List.mem_cons_self
    rw [← hsplit, List.mem_singleton] at hmem
    rw [hmem] at hnew
    exact absurd hnew (by decide)

/-- A line of an edit after the last line of its hunk is dropped; a context line is read past the count of the old text,
which then has a line too many; and the first line of a blank text is lost to a hunk that claims a new file. -/
theorem lines_lost :
    (∃ hunks, parseUnifiedPatch "@@ -1 +1 @@\n-a\n+c\n+b".toList = .ok hunks ∧
        ¬Laid (splitlines "@@ -1 +1 @@\n-a\n+c\n+b".toList) hunks) ∧
      (∃ hunks, parseUnifiedPatch "@@ -1 +1,2 @@\n-a\n b\n+c".toList = .ok hunks ∧ ∃ hunk ∈ hunks, ¬hunk.Exact) ∧
      ∃ hunks result, parseUnifiedPatch "@@ -2 +2 @@\n-\n+\n@@ -0,0 +1 @@\n+x".toList = .ok hunks ∧
        applyPatch "\n\n".toList "@@ -2 +2 @@\n-\n+\n@@ -0,0 +1 @@\n+x".toList = .ok result ∧
        ¬Keeps (splitlines "\n\n".toList) hunks result := by
  refine ⟨⟨[⟨1, 1, 1, 1, ["-a".toList, "+c".toList]⟩], by decide +kernel, ?_⟩,
    ⟨[⟨1, 1, 1, 2, ["-a".toList, " b".toList, "+c".toList]⟩], by decide +kernel, ?_⟩,
    [⟨2, 1, 2, 1, ["-".toList, "+".toList]⟩, ⟨0, 0, 1, 1, ["+x".toList]⟩], "x".toList, ?_⟩
  · have hlines : splitlines "@@ -1 +1 @@\n-a\n+c\n+b".toList =
      "@@ -1 +1 @@".toList :: (["-a".toList, "+c".toList] ++ ["+b".toList]) := by decide +kernel
    have hiff := @laid_hunk_iff "@@ -1 +1 @@".toList ["-a".toList, "+c".toList] ["+b".toList] []
      ⟨1, 1, 1, 1, []⟩ (by decide +kernel)
    rw [hlines, hiff, laid_outside_iff (by decide +kernel)]
    rintro ⟨hfile | hblank, -⟩
    · exact absurd hfile (by decide +kernel)
    · exact absurd hblank (by decide +kernel)
  · refine ⟨_, List.mem_singleton_self _, ?_⟩
    rintro ⟨hold, -⟩
    exact absurd hold (by decide)
  · have hparse : parseUnifiedPatch "@@ -2 +2 @@\n-\n+\n@@ -0,0 +1 @@\n+x".toList =
      .ok [⟨2, 1, 2, 1, ["-".toList, "+".toList]⟩, ⟨0, 0, 1, 1, ["+x".toList]⟩] := by decide +kernel
    have happly : applyPatch "\n\n".toList "@@ -2 +2 @@\n-\n+\n@@ -0,0 +1 @@\n+x".toList = .ok "x".toList := by
      decide +kernel
    refine ⟨hparse, happly, ?_⟩
    rw [keeps_iff_unlost hparse happly]
    intro hunlost
    obtain ⟨hunk, hmem, hfirst, hlast⟩ := hunlost [⟨2, 1, 2, 1, ["-".toList, "+".toList]⟩]
      ⟨0, 0, 1, 1, ["+x".toList]⟩ [] rfl (by decide) _ List.mem_cons_self (by decide) 0 (by decide) (by decide +kernel)
    simp only [List.mem_cons, List.not_mem_nil, or_false] at hmem
    rcases hmem with rfl | rfl <;> simp at hfirst hlast

end MyTeam.Legacy
