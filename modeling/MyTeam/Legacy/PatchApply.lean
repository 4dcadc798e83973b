import MyTeam.Legacy.PatchScript

/-!
# Applying the patch of a script

The header of a block without lines of the old text names the line before the block, and applying takes it for the
line at the block: the block comes a line too early, or not at all where that line is of a hunk before it. So the
patch of a script gives the new text only if such blocks repeat the line that they stand after, or make up a new
file. An empty last line of the old text is lost as well, since the text is the same without it.
-/

namespace MyTeam.Legacy

open MyTeam.Py

section Step

variable {content : List Char} {oldLines consumed waiting rest out : List Line} {block : Block} {edits : List Edit}
  {newBefore : ℕ} {hunk : PatchHunk}

/-- A line that is where it is expected is matched. -/
theorem matchLines_of_old {line : Line} {lines : List Line} {idx : ℕ} (hline : isOldLine line = true)
    (hhere : oldLines[idx]? = some line.tail) :
    matchLines hunk oldLines idx (line :: lines) = matchLines hunk oldLines (idx + 1) lines := by
  rw [matchLines, if_pos hline, if_pos hhere]

/-- The lines of a hunk are matched with the lines that they stand for. -/
theorem matchLines_print (hunk : PatchHunk) (before rest : List Line) (edits : List Edit) :
    matchLines hunk (before ++ (edits.filterMap Edit.oldLine ++ rest)) before.length (edits.map Edit.print) =
      .ok (before.length + (edits.filterMap Edit.oldLine).length) := by
  induction edits generalizing before with
  | nil => rfl
  | cons edit edits ih =>
    have hkeep (line : Line) : matchLines hunk (before ++ (line :: edits.filterMap Edit.oldLine ++ rest))
        (before.length + 1) (edits.map Edit.print) =
        .ok (before.length + 1 + (edits.filterMap Edit.oldLine).length) := by
      have hnext := ih (before ++ [line])
      rwa [List.length_append, List.length_singleton, List.append_assoc] at hnext
    have hhere (line : Line) :
        (before ++ (line :: edits.filterMap Edit.oldLine ++ rest))[before.length]? = some line := by
      simp
    cases edit with
    | context line =>
      change matchLines hunk (before ++ (line :: edits.filterMap Edit.oldLine ++ rest)) before.length
        ((' ' :: line) :: edits.map Edit.print) = .ok (before.length + ((edits.filterMap Edit.oldLine).length + 1))
      rw [matchLines_of_old rfl (hhere line), hkeep, Nat.add_right_comm, Nat.add_assoc]
    | removed line =>
      change matchLines hunk (before ++ (line :: edits.filterMap Edit.oldLine ++ rest)) before.length
        (('-' :: line) :: edits.map Edit.print) = .ok (before.length + ((edits.filterMap Edit.oldLine).length + 1))
      rw [matchLines_of_old rfl (hhere line), hkeep, Nat.add_right_comm, Nat.add_assoc]
    | added line => exact ih before

/-- The new lines of a hunk are those of its edits. -/
theorem filter_print (edits : List Edit) :
    ((edits.map Edit.print).filter isNewLine).map List.tail = edits.filterMap Edit.newLine := by
  induction edits with
  | nil => rfl
  | cons edit edits ih =>
    cases edit with
    | context line => exact congrArg (line :: ·) ih
    | removed line => exact ih
    | added line => exact congrArg (line :: ·) ih

/-- So are its old lines. -/
theorem countP_print (edits : List Edit) :
    (edits.map Edit.print).countP isOldLine = (edits.filterMap Edit.oldLine).length := by
  induction edits with
  | nil => rfl
  | cons edit edits ih =>
    cases edit with
    | context line => exact (List.countP_cons_of_pos rfl).trans (congrArg (· + 1) ih)
    | removed line => exact (List.countP_cons_of_pos rfl).trans (congrArg (· + 1) ih)
    | added line => exact (List.countP_cons_of_neg (by simp [Edit.print, isOldLine])).trans ih

/-- A block without old lines only adds lines. -/
theorem added_of_old_nil (h : edits.filterMap Edit.oldLine = []) :
    (edits.map Edit.print).any isOldLine = false ∧
      ((edits.map Edit.print).filter (·.head? = some '+')).map List.tail = edits.filterMap Edit.newLine := by
  induction edits with
  | nil => exact ⟨rfl, rfl⟩
  | cons edit edits ih =>
    cases edit with
    | context line => cases h
    | removed line => cases h
    | added line =>
      obtain ⟨hany, hadded⟩ := ih h
      exact ⟨hany, congrArg (line :: ·) hadded⟩

/-- A block without old lines adds a line. -/
theorem Block.new_ne_nil (h : block.old = []) : block.new ≠ [] := by
  intro hnew
  obtain ⟨edit, edits, hedits⟩ := List.exists_cons_of_ne_nil block.edits_ne
  rw [Block.old, hedits] at h
  rw [Block.new, hedits] at hnew
  cases edit with
  | context line => cases h
  | removed line => cases h
  | added line => cases hnew

/-- A hunk with old lines is applied where it belongs. -/
theorem applyHunk_old (h : block.old ≠ []) (content : List Char) (consumed waiting rest out : List Line)
    (newBefore : ℕ) :
    applyHunk content (consumed ++ (waiting ++ (block.old ++ rest))) (out, consumed.length)
        (block.hunk (consumed.length + waiting.length) newBefore) =
      .ok (out ++ waiting ++ block.new, consumed.length + waiting.length + block.old.length) := by
  have hcount : block.old.length ≠ 0 := fun hzero => h (List.length_eq_zero_iff.mp hzero)
  have hstart : (block.hunk (consumed.length + waiting.length) newBefore).oldStart =
      consumed.length + waiting.length + 1 := if_neg hcount
  have hnew : (block.hunk (consumed.length + waiting.length) newBefore).isNewFile = false := by
    simp [PatchHunk.isNewFile, hstart]
  have hmatch := matchLines_print (block.hunk (consumed.length + waiting.length) newBefore) (consumed ++ waiting) rest
    block.edits
  rw [List.length_append, List.append_assoc] at hmatch
  have hslice : ((consumed ++ (waiting ++ (block.old ++ rest))).take (consumed.length + waiting.length)).drop
      consumed.length = waiting := by
    simp [List.take_append]
  rw [applyHunk, hnew, if_neg Bool.false_ne_true, hstart, if_neg (by omega), Nat.add_sub_cancel]
  change (matchLines _ _ _ (block.edits.map Edit.print) >>= _) = _
  rw [Block.old, hmatch]
  change Except.ok _ = _
  rw [← Block.old, hslice]
  exact congrArg (fun new => Except.ok (out ++ waiting ++ new, _)) (filter_print block.edits)

/-- A hunk without old lines is applied before the line that it stands after. -/
theorem applyHunk_added (h : block.old = []) (content : List Char) (consumed waiting rest out : List Line) (line : Line)
    (newBefore : ℕ) :
    applyHunk content (consumed ++ (waiting ++ line :: rest)) (out, consumed.length)
        (block.hunk (consumed.length + waiting.length + 1) newBefore) =
      .ok (out ++ waiting ++ block.new, consumed.length + waiting.length) := by
  have hstart : (block.hunk (consumed.length + waiting.length + 1) newBefore).oldStart =
      consumed.length + waiting.length + 1 := if_pos (List.length_eq_zero_iff.mpr h)
  have hnew : (block.hunk (consumed.length + waiting.length + 1) newBefore).isNewFile = false := by
    simp [PatchHunk.isNewFile, hstart]
  have hslice : ((consumed ++ (waiting ++ line :: rest)).take (consumed.length + waiting.length)).drop
      consumed.length = waiting := by
    simp [List.take_append]
  have hmatch := matchLines_print (block.hunk (consumed.length + waiting.length + 1) newBefore)
    (consumed ++ waiting) (line :: rest) block.edits
  rw [← Block.old, h, List.nil_append, List.append_assoc, List.length_append, List.length_nil, Nat.add_zero] at hmatch
  rw [applyHunk, hnew, if_neg Bool.false_ne_true, hstart, if_neg (by omega), Nat.add_sub_cancel]
  change (matchLines _ _ _ (block.edits.map Edit.print) >>= _) = _
  rw [hmatch]
  change Except.ok _ = _
  rw [hslice]
  exact congrArg (fun new => Except.ok (out ++ waiting ++ new, _)) (filter_print block.edits)

/-- It is not applied after a hunk that has this line. -/
theorem applyHunk_adjacent (h : block.old = []) (hne : consumed ≠ []) (content : List Char) (rest out : List Line)
    (newBefore : ℕ) {state : List Line × ℕ} :
    applyHunk content (consumed ++ rest) (out, consumed.length) (block.hunk consumed.length newBefore) ≠ .ok state := by
  have hlength : consumed.length ≠ 0 := fun hzero => hne (List.length_eq_zero_iff.mp hzero)
  have hstart : (block.hunk consumed.length newBefore).oldStart = consumed.length :=
    if_pos (List.length_eq_zero_iff.mpr h)
  intro happly
  rcases applyHunk_cases happly with ⟨hnew, -⟩ | ⟨-, hcursor, -⟩
  · simp [PatchHunk.isNewFile, hstart, hlength] at hnew
  · rw [hstart] at hcursor
    omega

/-- At the beginning it claims a new file. -/
theorem applyHunk_newFile (h : block.old = []) (content : List Char) (oldLines out : List Line) (newBefore : ℕ)
    {state : List Line × ℕ} :
    applyHunk content oldLines (out, 0) (block.hunk 0 newBefore) = .ok state ↔
      isBlank content = true ∧ state = (block.new, 0) := by
  have hnew : (block.hunk 0 newBefore).isNewFile = true := by
    simp [PatchHunk.isNewFile, Block.hunk, rangeStart, h]
  obtain ⟨hany, hadded⟩ := added_of_old_nil h
  rw [applyHunk, if_pos hnew]
  change (if !isBlank content then _ else if (block.edits.map Edit.print).any isOldLine then _ else
    Except.ok (((block.edits.map Edit.print).filter (·.head? = some '+')).map List.tail, 0)) = _ ↔ _
  rw [hany, hadded]
  cases isBlank content with
  | true => simpa [Block.new] using eq_comm
  | false => simp

end Step

/-- The old lines of blocks. -/
def oldOf (blocks : List Block) : List Line := blocks.flatMap fun block => block.gap ++ block.old

/-- The new lines of blocks. -/
def newOf (blocks : List Block) : List Line := blocks.flatMap fun block => block.gap ++ block.new

/-- Blocks without old lines repeat a line that they stand after and that no block before them has, or there are no
such blocks. The line may be waiting from before. -/
def Anchored : List Line → List Block → Prop
  | _, [] => True
  | waiting, block :: rest =>
    if block.old = [] then
      ∃ line, (waiting ++ block.gap).getLast? = some line ∧ (∀ added ∈ block.new, added = line) ∧ Anchored [line] rest
    else Anchored [] rest

section Run

variable {content : List Char} {oldLines consumed waiting tail out : List Line} {blocks : List Block} {hunk : PatchHunk}
  {hunks : List PatchHunk} {oldBefore newBefore cursor : ℕ}

/-- A hunk after a line claims no new file. -/
theorem isNewFile_hunksOf (hbefore : 0 < oldBefore) (h : hunk ∈ hunksOf oldBefore newBefore blocks) :
    hunk.isNewFile = false := by
  induction blocks generalizing oldBefore newBefore with
  | nil => exact absurd h List.not_mem_nil
  | cons block blocks ih =>
    rw [hunksOf, List.mem_cons] at h
    rcases h with rfl | hrest
    · have hstart : rangeStart (oldBefore + block.gap.length) block.old.length ≠ 0 := by
        rw [rangeStart]
        split <;> omega
      simp [PatchHunk.isNewFile, Block.hunk, hstart]
    · exact ih (by omega) hrest

/-- Lines that are out stay, if no hunk claims a new file. -/
theorem prefix_of_applyHunks {state : List Line × ℕ} (hordinary : ∀ hunk ∈ hunks, hunk.isNewFile = false)
    (hrun : applyHunks content oldLines (out, cursor) hunks = .ok state) : out <+: state.1 := by
  induction hunks generalizing out cursor with
  | nil =>
    cases hrun
    exact List.prefix_rfl
  | cons hunk hunks ih =>
    obtain ⟨hfirst, hrest⟩ := List.forall_mem_cons.mp hordinary
    rw [applyHunks, List.foldlM_cons] at hrun
    obtain ⟨⟨next, position⟩, hhunk, hafter⟩ := PatchFailure.bind_eq_ok hrun
    rcases applyHunk_cases hhunk with ⟨hnew, -⟩ | ⟨-, -, after, -, hstate⟩
    · simp [hfirst] at hnew
    · obtain ⟨rfl, rfl⟩ := Prod.mk.inj hstate
      rw [List.append_assoc] at hafter
      exact (List.prefix_append out _).trans (ih hrest hafter)

/-- Lines that come before a line instead of after it repeat it. -/
theorem repeats_iff {line : Line} {added rest others : List Line} :
    added ++ rest = line :: (added ++ others) ↔ (∀ other ∈ added, other = line) ∧ rest = line :: others := by
  induction added with
  | nil => simp
  | cons first added ih =>
    rw [List.cons_append, List.cons_append, List.cons.injEq, List.forall_mem_cons, and_assoc, ← ih]
    exact and_congr_right fun hfirst => by rw [hfirst]

/-- The hunks after one that is applied are applied to what it leaves. -/
theorem applyHunks_cons {state next : List Line × ℕ} (h : applyHunk content oldLines state hunk = .ok next) :
    applyHunks content oldLines state (hunk :: hunks) = applyHunks content oldLines next hunks := by
  rw [applyHunks, List.foldlM_cons, h]
  rfl

/-- Applying the hunks of blocks, with some lines consumed and some waiting to be copied, gives the new lines exactly
when the blocks are anchored. -/
theorem applyHunks_iff (hstart : ∀ block ∈ blocks.head?, consumed ++ (waiting ++ (block.gap ++ block.old)) ≠ []) :
    (∃ state, applyHunks content (consumed ++ (waiting ++ (oldOf blocks ++ tail))) (out, consumed.length)
        (hunksOf (consumed.length + waiting.length) newBefore blocks) = .ok state ∧
      state.1 ++ (consumed ++ (waiting ++ (oldOf blocks ++ tail))).drop state.2 =
        out ++ (waiting ++ (newOf blocks ++ tail))) ↔ Anchored waiting blocks := by
  induction blocks generalizing consumed waiting out newBefore with
  | nil =>
    refine iff_of_true ⟨(out, consumed.length), rfl, ?_⟩ trivial
    rw [List.drop_left]
    rfl
  | cons block blocks ih =>
    have hold : consumed ++ (waiting ++ (oldOf (block :: blocks) ++ tail)) =
        consumed ++ ((waiting ++ block.gap) ++ (block.old ++ (oldOf blocks ++ tail))) := by
      simp only [oldOf, List.flatMap_cons, List.append_assoc]
    have hnew : out ++ (waiting ++ (newOf (block :: blocks) ++ tail)) =
        out ++ ((waiting ++ block.gap) ++ (block.new ++ (newOf blocks ++ tail))) := by
      simp only [newOf, List.flatMap_cons, List.append_assoc]
    have hbefore : consumed.length + waiting.length + block.gap.length =
        consumed.length + (waiting ++ block.gap).length := by
      rw [List.length_append, Nat.add_assoc]
    have hfirst := hstart block rfl
    rw [hold, hnew, hunksOf, Anchored, hbefore]
    rw [← List.append_assoc waiting] at hfirst
    by_cases hadded : block.old = []
    · rw [if_pos hadded]
      rcases List.eq_nil_or_concat (waiting ++ block.gap) with hnone | ⟨copied, line, hline⟩
      · -- the line before the block is consumed already
        rw [hnone, hadded, List.nil_append, List.append_nil] at hfirst
        rw [hnone]
        refine iff_of_false ?_ ?_
        · rintro ⟨state, hrun, -⟩
          rw [applyHunks, List.foldlM_cons] at hrun
          obtain ⟨next, hhunk, -⟩ := PatchFailure.bind_eq_ok hrun
          exact applyHunk_adjacent hadded hfirst content _ out _ hhunk
        · rintro ⟨line, hlast, -⟩
          cases hlast
      · rw [List.concat_eq_append] at hline
        have hlines : consumed ++ ((waiting ++ block.gap) ++ (block.old ++ (oldOf blocks ++ tail))) =
            consumed ++ (copied ++ line :: (oldOf blocks ++ tail)) := by
          rw [hline, hadded, List.append_assoc]
          rfl
        have hnext : consumed ++ (copied ++ line :: (oldOf blocks ++ tail)) =
            (consumed ++ copied) ++ ([line] ++ (oldOf blocks ++ tail)) := by
          rw [List.append_assoc]
          rfl
        have hcount : consumed.length + (waiting ++ block.gap).length = consumed.length + copied.length + 1 := by
          rw [hline, List.length_append, List.length_singleton, Nat.add_assoc]
        have hrest := @ih (consumed ++ copied) [line] (out ++ copied ++ block.new)
          (newBefore + block.gap.length + block.new.length) (fun _ _ => by simp)
        rw [← hnext, List.length_append] at hrest
        rw [hlines, hcount, applyHunks_cons (applyHunk_added hadded content consumed copied _ out line _), hadded]
        constructor
        · rintro ⟨state, hrun, hresult⟩
          obtain ⟨more, hmore⟩ := prefix_of_applyHunks (fun hunk hmem => isNewFile_hunksOf (by simp) hmem) hrun
          rw [hline, ← hmore] at hresult
          simp only [List.append_assoc, List.append_cancel_left_eq] at hresult
          obtain ⟨hall, hlast⟩ := repeats_iff.mp hresult
          refine ⟨line, by rw [hline, List.getLast?_concat], hall, hrest.mp ⟨state, hrun, ?_⟩⟩
          rw [← hmore, List.append_assoc, hlast]
          rfl
        · rintro ⟨other, hlast, hall, hanchored⟩
          rw [hline, List.getLast?_concat] at hlast
          cases hlast
          obtain ⟨state, hrun, hresult⟩ := hrest.mpr hanchored
          refine ⟨state, hrun, ?_⟩
          rw [hresult, hline]
          simp only [List.append_assoc, List.append_cancel_left_eq]
          exact repeats_iff.mpr ⟨hall, rfl⟩
    · rw [if_neg hadded, applyHunks_cons (applyHunk_old hadded content consumed (waiting ++ block.gap) _ out _)]
      have hrest := @ih (consumed ++ ((waiting ++ block.gap) ++ block.old)) []
        (out ++ (waiting ++ block.gap) ++ block.new)
        (newBefore + block.gap.length + block.new.length) (fun _ _ => by simp [hadded])
      simpa only [List.append_assoc, List.nil_append, List.length_append, List.length_nil, Nat.add_zero, Nat.add_assoc]
        using hrest

/-- Lines that are matched are there. -/
theorem le_length_of_matchLines {idx after : ℕ} {lines : List Line} (hidx : idx ≤ oldLines.length)
    (h : matchLines hunk oldLines idx lines = .ok after) : after ≤ oldLines.length := by
  induction lines generalizing idx with
  | nil =>
    cases h
    exact hidx
  | cons line lines ih =>
    rw [matchLines] at h
    split at h
    · split at h
      next hhere => exact ih (List.getElem?_eq_some_iff.mp hhere).1 h
      · cases h
    · exact ih hidx h

/-- What applying the hunk of a block leaves. -/
theorem applyHunk_block {block : Block} {state : List Line × ℕ} (hcursor : cursor ≤ oldLines.length)
    (hend : oldBefore + block.old.length ≤ oldLines.length + 1)
    (h : applyHunk content oldLines (out, cursor) (block.hunk oldBefore newBefore) = .ok state) :
    (block.old = [] ∧ state = (block.new, cursor)) ∨
      ∃ copied : List Line, cursor + copied.length + block.old.length = state.2 ∧ state.2 ≤ oldLines.length ∧
        state.1 = out ++ copied ++ block.new ∧ (block.old ≠ [] → cursor + copied.length = oldBefore) := by
  have hlines : ((block.hunk oldBefore newBefore).lines.filter isNewLine).map List.tail = block.new :=
    filter_print block.edits
  have hcount : (block.hunk oldBefore newBefore).lines.countP isOldLine = block.old.length :=
    countP_print block.edits
  rcases applyHunk_cases h with ⟨hnew, rfl⟩ | ⟨-, hpos, after, hmatch, rfl⟩
  · left
    have hold : block.old = [] := by
      have hzero : rangeStart oldBefore block.old.length = 0 ∧ block.old.length = 0 := of_decide_eq_true hnew
      exact List.length_eq_zero_iff.mp hzero.2
    exact ⟨hold, congrArg (·, cursor) (added_of_old_nil hold).2⟩
  · right
    have hstart : (block.hunk oldBefore newBefore).oldStart - 1 ≤ oldLines.length ∧
        (block.old ≠ [] → (block.hunk oldBefore newBefore).oldStart - 1 = oldBefore) := by
      change rangeStart oldBefore block.old.length - 1 ≤ _ ∧ (_ → rangeStart oldBefore block.old.length - 1 = _)
      rw [rangeStart, ← List.length_pos_iff_ne_nil]
      split <;> omega
    have hafter := le_length_of_matchLines hstart.1 hmatch
    obtain ⟨rfl, -⟩ := traced_matchLines hmatch
    refine ⟨(oldLines.take ((block.hunk oldBefore newBefore).oldStart - 1)).drop cursor, ?_, hafter, ?_, ?_⟩
    · rw [hcount, List.length_drop, List.length_take]
      omega
    · rw [hlines]
    · intro hne
      have hexact := hstart.2 hne
      rw [List.length_drop, List.length_take]
      omega

/-- No more lines are out than the blocks leave. -/
theorem length_applyHunks_le {state : List Line × ℕ} (hcursor : cursor ≤ oldLines.length)
    (hend : oldBefore + (oldOf blocks).length ≤ oldLines.length + 1)
    (hrun : applyHunks content oldLines (out, cursor) (hunksOf oldBefore newBefore blocks) = .ok state) :
    state.2 ≤ oldLines.length ∧ state.1.length + (oldLines.length - state.2) + (oldOf blocks).length ≤
      out.length + (oldLines.length - cursor) + (newOf blocks).length := by
  induction blocks generalizing out cursor oldBefore newBefore with
  | nil =>
    cases hrun
    exact ⟨hcursor, by simp [oldOf, newOf]⟩
  | cons block blocks ih =>
    rw [oldOf, List.flatMap_cons, List.length_append, List.length_append, ← oldOf] at hend
    rw [hunksOf, applyHunks, List.foldlM_cons] at hrun
    obtain ⟨⟨next, position⟩, hhunk, hrest⟩ := PatchFailure.bind_eq_ok hrun
    rw [oldOf, newOf, List.flatMap_cons, List.flatMap_cons, ← oldOf, ← newOf]
    simp only [List.length_append]
    rcases applyHunk_block hcursor (by omega) hhunk with ⟨hold, hstate⟩ | ⟨copied, hcount, hposition, hout, -⟩
    · obtain ⟨rfl, rfl⟩ := Prod.mk.inj hstate
      obtain ⟨hle, hlength⟩ := ih hcursor (by omega) hrest
      refine ⟨hle, ?_⟩
      rw [hold, List.length_nil]
      omega
    · dsimp only at hcount hposition hout
      obtain ⟨hle, hlength⟩ := ih hposition (by omega) hrest
      refine ⟨hle, ?_⟩
      rw [hout, List.length_append, List.length_append] at hlength
      omega

/-- Where no line is out in the end, the blocks leave none. -/
theorem removed_of_applyHunks {state : List Line × ℕ} (hcursor : cursor ≤ oldLines.length)
    (hend : oldBefore + (oldOf blocks).length ≤ oldLines.length + 1)
    (hrun : applyHunks content oldLines (out, cursor) (hunksOf oldBefore newBefore blocks) = .ok state)
    (hnone : state.1 = []) : out = [] ∧ ∀ block ∈ blocks, block.new = [] := by
  induction blocks generalizing out cursor oldBefore newBefore with
  | nil =>
    cases hrun
    exact ⟨hnone, fun block hmem => absurd hmem List.not_mem_nil⟩
  | cons block blocks ih =>
    rw [oldOf, List.flatMap_cons, List.length_append, List.length_append, ← oldOf] at hend
    rw [hunksOf, applyHunks, List.foldlM_cons] at hrun
    obtain ⟨⟨next, position⟩, hhunk, hrest⟩ := PatchFailure.bind_eq_ok hrun
    rcases applyHunk_block hcursor (by omega) hhunk with ⟨hold, hstate⟩ | ⟨copied, -, hposition, hout, -⟩
    · obtain ⟨rfl, rfl⟩ := Prod.mk.inj hstate
      exact absurd (ih hcursor (by omega) hrest).1 (Block.new_ne_nil hold)
    · obtain ⟨hempty, hothers⟩ := ih hposition (by omega) hrest
      dsimp only at hout
      rw [hempty, eq_comm, List.append_eq_nil_iff, List.append_eq_nil_iff] at hout
      exact ⟨hout.1.1, List.forall_mem_cons.mpr ⟨hout.2, hothers⟩⟩

/-- Nor do they leave lines alone. -/
theorem gap_of_applyHunks {state : List Line × ℕ} (hend : oldBefore + (oldOf blocks).length ≤ oldLines.length + 1)
    (hcursor : oldBefore ≤ oldLines.length)
    (hrun : applyHunks content oldLines (out, oldBefore) (hunksOf oldBefore newBefore blocks) = .ok state)
    (hnone : state.1 = []) : ∀ block ∈ blocks, block.gap = [] := by
  have hnew := (removed_of_applyHunks hcursor hend hrun hnone).2
  induction blocks generalizing out oldBefore newBefore with
  | nil => exact fun block hmem => absurd hmem List.not_mem_nil
  | cons block blocks ih =>
    have hold : block.old ≠ [] := fun hold => Block.new_ne_nil hold (hnew block List.mem_cons_self)
    rw [oldOf, List.flatMap_cons, List.length_append, List.length_append, ← oldOf] at hend
    rw [hunksOf, applyHunks, List.foldlM_cons] at hrun
    obtain ⟨⟨next, position⟩, hhunk, hrest⟩ := PatchFailure.bind_eq_ok hrun
    rcases applyHunk_block hcursor (by omega) hhunk with ⟨hempty, -⟩ | ⟨copied, hcount, hposition, hout, hexact⟩
    · exact absurd hempty hold
    · have hplace := hexact hold
      dsimp only at hcount hposition hout
      obtain rfl : position = oldBefore + block.gap.length + block.old.length := by omega
      obtain ⟨hempty, -⟩ := removed_of_applyHunks hposition (by omega) hrest hnone
      rw [hempty, eq_comm, List.append_eq_nil_iff, List.append_eq_nil_iff] at hout
      rw [hout.1.2, List.length_nil] at hplace
      refine List.forall_mem_cons.mpr ⟨List.length_eq_zero_iff.mp (by omega), ?_⟩
      exact ih (by omega) hposition hrest fun other hother => hnew other (List.mem_cons_of_mem block hother)

/-- Lines that are out are of the content or of the blocks. -/
theorem mem_of_applyHunks_blocks {state : List Line × ℕ} {line : Line}
    (hrun : applyHunks content oldLines (out, cursor) (hunksOf oldBefore newBefore blocks) = .ok state)
    (hline : line ∈ state.1) : line ∈ out ∨ line ∈ oldLines ∨ line ∈ newOf blocks := by
  induction blocks generalizing out cursor oldBefore newBefore with
  | nil =>
    cases hrun
    exact .inl hline
  | cons block blocks ih =>
    rw [hunksOf, applyHunks, List.foldlM_cons] at hrun
    obtain ⟨⟨next, position⟩, hhunk, hrest⟩ := PatchFailure.bind_eq_ok hrun
    have hnew : ∀ other ∈ block.new ++ newOf blocks, other ∈ newOf (block :: blocks) := by
      intro other hother
      rw [newOf, List.flatMap_cons, List.append_assoc]
      exact List.mem_append_right _ hother
    rcases ih hrest with hnext | hold | hlater
    · rcases applyHunk_cases hhunk with ⟨hfile, hstate⟩ | ⟨-, -, after, -, hstate⟩
      · obtain ⟨rfl, -⟩ := Prod.mk.inj hstate
        have hempty : rangeStart (oldBefore + block.gap.length) block.old.length = 0 ∧ block.old.length = 0 :=
          of_decide_eq_true hfile
        have hadded : ((block.edits.map Edit.print).filter (·.head? = some '+')).map List.tail = block.new :=
          (added_of_old_nil (List.length_eq_zero_iff.mp hempty.2)).2
        have hmem : line ∈ block.new := hadded ▸ hnext
        exact .inr (.inr (hnew line (List.mem_append_left _ hmem)))
      · obtain ⟨rfl, -⟩ := Prod.mk.inj hstate
        have hlines : ((block.edits.map Edit.print).filter isNewLine).map List.tail = block.new :=
          filter_print block.edits
        rcases List.mem_append.mp hnext with hkept | hadded
        · rcases List.mem_append.mp hkept with hout | hcopied
          · exact .inl hout
          · exact .inr (.inl (List.mem_of_mem_take (List.mem_of_mem_drop hcopied)))
        · have hmem : line ∈ block.new := hlines ▸ hadded
          exact .inr (.inr (hnew line (List.mem_append_left _ hmem)))
    · exact .inr (.inl hold)
    · exact .inr (.inr (hnew line (List.mem_append_right _ hlater)))

/-- A second block that makes up a new file loses the first. -/
theorem applyHunks_newFile {block other : Block} {rest : List Block} (hadded : block.new ≠ []) (hgap : other.gap = [])
    (hold : other.old = []) {state : List Line × ℕ}
    (hrun : applyHunks content (oldOf (other :: rest) ++ tail) (block.new, 0) (hunksOf 0 newBefore (other :: rest)) =
      .ok state) :
    state.1 ++ (oldOf (other :: rest) ++ tail).drop state.2 ≠ block.new ++ (newOf (other :: rest) ++ tail) := by
  intro hresult
  have holdLines : oldOf (other :: rest) = oldOf rest := by
    rw [oldOf, List.flatMap_cons, hgap, hold]
    rfl
  have hnewLines : newOf (other :: rest) = other.new ++ newOf rest := by
    rw [newOf, List.flatMap_cons, hgap]
    rfl
  rw [holdLines, hunksOf, hgap, hold, applyHunks, List.foldlM_cons] at hrun
  obtain ⟨next, hhunk, hrest⟩ := PatchFailure.bind_eq_ok hrun
  obtain ⟨-, rfl⟩ := (applyHunk_newFile hold content _ block.new _).mp hhunk
  have hend : 0 + ([] : List Line).length + ([] : List Line).length + (oldOf rest).length ≤
      (oldOf rest ++ tail).length + 1 := by
    simp only [List.length_append, List.length_nil]
    omega
  obtain ⟨hle, hlength⟩ := length_applyHunks_le (Nat.zero_le _) hend hrest
  have hsame := congrArg List.length hresult
  have hpositive := List.length_pos_iff_ne_nil.mpr hadded
  rw [holdLines, hnewLines] at hsame
  simp only [List.length_append, List.length_drop] at hsame hlength
  omega

/-- Applying the hunks of blocks from the beginning gives the new lines exactly when the blocks are anchored, or are
after a first one that makes up a new file. -/
theorem applyHunks_first_iff :
    (∃ state, applyHunks content (oldOf blocks ++ tail) ([], 0) (hunksOf 0 0 blocks) = .ok state ∧
      state.1 ++ (oldOf blocks ++ tail).drop state.2 = newOf blocks ++ tail) ↔
      Anchored [] blocks ∨ ∃ block rest, blocks = block :: rest ∧ block.gap = [] ∧ block.old = [] ∧
        isBlank content = true ∧ Anchored [] rest := by
  cases blocks with
  | nil => exact iff_of_true ⟨([], 0), rfl, rfl⟩ (.inl trivial)
  | cons block rest =>
    by_cases hfile : block.gap = [] ∧ block.old = []
    · obtain ⟨hgap, hold⟩ := hfile
      have hanchored : ¬Anchored [] (block :: rest) := by
        rw [Anchored, if_pos hold, hgap]
        rintro ⟨line, hlast, -⟩
        cases hlast
      have holdLines : oldOf (block :: rest) = oldOf rest := by
        rw [oldOf, List.flatMap_cons, hgap, hold]
        rfl
      have hnewLines : newOf (block :: rest) ++ tail = block.new ++ (newOf rest ++ tail) := by
        rw [newOf, List.flatMap_cons, hgap, List.append_assoc, List.append_assoc]
        rfl
      have hrun (hblank : isBlank content = true) :
          applyHunks content (oldOf rest ++ tail) ([], 0) (hunksOf 0 0 (block :: rest)) =
            applyHunks content (oldOf rest ++ tail) (block.new, 0) (hunksOf 0 block.new.length rest) := by
        have hhunks : hunksOf 0 0 (block :: rest) = block.hunk 0 0 :: hunksOf 0 block.new.length rest := by
          rw [hunksOf, hgap, hold, List.length_nil, Nat.zero_add, Nat.zero_add]
        rw [hhunks, applyHunks_cons ((applyHunk_newFile hold content _ [] _).mpr ⟨hblank, rfl⟩)]
      have hrest : (∃ state, applyHunks content (oldOf rest ++ tail) (block.new, 0)
          (hunksOf 0 block.new.length rest) = .ok state ∧
            state.1 ++ (oldOf rest ++ tail).drop state.2 = block.new ++ (newOf rest ++ tail)) ↔ Anchored [] rest := by
        by_cases hfirst : ∃ other others, rest = other :: others ∧ other.gap = [] ∧ other.old = []
        · obtain ⟨other, others, rfl, hotherGap, hotherOld⟩ := hfirst
          refine iff_of_false ?_ ?_
          · rintro ⟨state, hstate, hresult⟩
            exact applyHunks_newFile (Block.new_ne_nil hold) hotherGap hotherOld hstate hresult
          · rw [Anchored, if_pos hotherOld, hotherGap]
            rintro ⟨line, hlast, -⟩
            cases hlast
        · apply @applyHunks_iff content [] [] tail block.new rest block.new.length
          intro other hother hempty
          obtain ⟨others, rfl⟩ : ∃ others, rest = other :: others := by
            cases rest with
            | nil => cases hother
            | cons first others =>
              cases hother
              exact ⟨others, rfl⟩
          exact hfirst ⟨other, others, rfl, by simpa using hempty⟩
      rw [holdLines, hnewLines, or_iff_right hanchored]
      constructor
      · rintro ⟨state, hstate, hresult⟩
        have hblank : isBlank content = true := by
          rw [hunksOf, hgap, applyHunks, List.foldlM_cons] at hstate
          obtain ⟨next, hhunk, -⟩ := PatchFailure.bind_eq_ok hstate
          exact ((applyHunk_newFile hold content _ [] _).mp hhunk).1
        rw [hrun hblank] at hstate
        exact ⟨block, rest, rfl, hgap, hold, hblank, hrest.mp ⟨state, hstate, hresult⟩⟩
      · rintro ⟨first, others, heq, -, -, hblank, hothers⟩
        obtain ⟨rfl, rfl⟩ := List.cons.inj heq
        rw [hrun hblank]
        exact hrest.mpr hothers
    · have hnone : ¬∃ first others, block :: rest = first :: others ∧ first.gap = [] ∧ first.old = [] ∧
          isBlank content = true ∧ Anchored [] others := by
        rintro ⟨first, others, heq, hgap, hold, -⟩
        obtain ⟨rfl, rfl⟩ := List.cons.inj heq
        exact hfile ⟨hgap, hold⟩
      rw [or_iff_left hnone]
      apply @applyHunks_iff content [] [] tail [] (block :: rest) 0
      rintro other ⟨⟩ hempty
      exact hfile (by simpa using hempty)

end Run

/-- When the patch of a script gives its new text: it has a hunk, and the numbers of its headers are short enough to
be read; and either the old text ends with a line that is not empty, and every block without old lines repeats a line
that it stands after and that no block before it has, except for a first one at the beginning of a blank text; or all
lines but the empty last one are removed. -/
def Script.Fits (script : Script) : Prop :=
  script.blocks ≠ [] ∧ LegibleAll 0 0 script.blocks ∧
    (script.old.getLast? ≠ some [] ∧
        (Anchored [] script.blocks ∨ ∃ block rest, script.blocks = block :: rest ∧ block.gap = [] ∧ block.old = [] ∧
          isBlank (joinLines script.old) = true ∧ Anchored [] rest) ∨
      script.tail = [[]] ∧ ∀ block ∈ script.blocks, block.gap = [] ∧ block.new = [])

section Whole

variable {script : Script} {fileHeaders oldLines : List Line} {state : List Line × ℕ} {content : List Char}

/-- Blocks that leave nothing have old lines. -/
theorem anchored_of_removed {blocks : List Block} (h : ∀ block ∈ blocks, block.new = []) : Anchored [] blocks := by
  induction blocks with
  | nil => trivial
  | cons block blocks ih =>
    obtain ⟨hblock, hrest⟩ := List.forall_mem_cons.mp h
    rw [Anchored, if_neg fun hold => Block.new_ne_nil hold hblock]
    exact ih hrest

/-- Where blocks leave nothing, there are no new lines of them. -/
theorem newOf_of_removed {blocks : List Block} (h : ∀ block ∈ blocks, block.gap = [] ∧ block.new = []) :
    newOf blocks = [] := by
  apply List.flatMap_eq_nil_iff.mpr
  intro block hblock
  obtain ⟨hgap, hnew⟩ := h block hblock
  rw [hgap, hnew]
  rfl

/-- A result that is empty has nothing of any block. -/
theorem removed_of_empty {blocks : List Block} (hend : 0 + (oldOf blocks).length ≤ oldLines.length + 1)
    (hrun : applyHunks content oldLines ([], 0) (hunksOf 0 0 blocks) = .ok state)
    (hresult : state.1 ++ oldLines.drop state.2 = []) : ∀ block ∈ blocks, block.gap = [] ∧ block.new = [] := by
  obtain ⟨hout, -⟩ := List.append_eq_nil_iff.mp hresult
  intro block hblock
  exact ⟨gap_of_applyHunks hend (Nat.zero_le _) hrun hout block hblock,
    (removed_of_applyHunks (Nat.zero_le _) hend hrun hout).2 block hblock⟩

/-- A result has at most as many lines as the new text, and one less if an empty last line is left out. -/
theorem Script.length_result_le {lines last : List Line} (hold : script.old = lines ++ last) (hlast : last.length ≤ 1)
    (hrun : applyHunks content lines ([], 0) (hunksOf 0 0 script.blocks) = .ok state) :
    0 + (oldOf script.blocks).length ≤ lines.length + 1 ∧
      (state.1 ++ lines.drop state.2).length + last.length ≤ script.new.length := by
  have htotal := congrArg List.length hold
  rw [Script.old, ← oldOf, List.length_append, List.length_append] at htotal
  have hend : 0 + (oldOf script.blocks).length ≤ lines.length + 1 := by omega
  refine ⟨hend, ?_⟩
  obtain ⟨-, hlength⟩ := length_applyHunks_le (Nat.zero_le _) hend hrun
  rw [Script.new, ← newOf, List.length_append, List.length_append, List.length_drop]
  rw [List.length_nil] at hlength
  omega

/-- The lines of a result are not broken. -/
theorem Script.Plain.unbroken_result (h : script.Plain fileHeaders) {lines last : List Line}
    (hold : script.old = lines ++ last)
    (hrun : applyHunks content lines ([], 0) (hunksOf 0 0 script.blocks) = .ok state) :
    ∀ line ∈ state.1 ++ lines.drop state.2, Unbroken line := by
  have holdLines : ∀ line ∈ lines, Unbroken line :=
    fun line hline => h.old line (hold ▸ List.mem_append_left last hline)
  intro line hline
  rcases List.mem_append.mp hline with hout | hrest
  · rcases mem_of_applyHunks_blocks hrun hout with hnone | hkept | hadded
    · exact absurd hnone List.not_mem_nil
    · exact holdLines line hkept
    · exact h.new line (List.mem_append_left _ hadded)
  · exact holdLines line (List.mem_of_mem_drop hrest)

/-- A result with the text of the new lines is the new lines, or the new text is one empty line of which no block
is. -/
theorem Script.Plain.result_eq (h : script.Plain fileHeaders) {lines last : List Line}
    (hold : script.old = lines ++ last) (hlast : last.length ≤ 1)
    (hrun : applyHunks content lines ([], 0) (hunksOf 0 0 script.blocks) = .ok state)
    (hresult : joinLines (state.1 ++ lines.drop state.2) = joinLines script.new) :
    state.1 ++ lines.drop state.2 = script.new ∨
      script.tail = [[]] ∧ ∀ block ∈ script.blocks, block.gap = [] ∧ block.new = [] := by
  obtain ⟨hend, hlength⟩ := Script.length_result_le hold hlast hrun
  by_cases hfound : state.1 ++ lines.drop state.2 = []
  · rw [hfound] at hresult
    rcases eq_nil_of_joinLines hresult.symm with hnone | hone
    · exact .inl (hfound.trans hnone.symm)
    · have hremoved := removed_of_empty hend hrun hfound
      rw [Script.new, ← newOf, newOf_of_removed hremoved] at hone
      exact .inr ⟨hone, hremoved⟩
  · have hne : script.new ≠ [] := by
      intro hnone
      rw [hnone, List.length_nil] at hlength
      exact hfound (List.length_eq_zero_iff.mp (by omega))
    exact .inl (eq_of_joinLines (h.unbroken_result hold hrun) h.new hfound hne hresult)

/-- Without the last line, which is empty, the result has the text of the new lines exactly when all lines but that one
are removed. -/
theorem Script.Plain.removed_iff (h : script.Plain fileHeaders) {lines : List Line}
    (hold : script.old = lines ++ [[]]) :
    (∃ state, applyHunks content lines ([], 0) (hunksOf 0 0 script.blocks) = .ok state ∧
      joinLines (state.1 ++ lines.drop state.2) = joinLines script.new) ↔
      script.tail = [[]] ∧ ∀ block ∈ script.blocks, block.gap = [] ∧ block.new = [] := by
  constructor
  · rintro ⟨state, hrun, hresult⟩
    obtain ⟨-, hlength⟩ := Script.length_result_le hold le_rfl hrun
    rcases h.result_eq hold le_rfl hrun hresult with hsame | hremoved
    · rw [hsame, List.length_singleton] at hlength
      omega
    · exact hremoved
  · rintro ⟨htail, hblocks⟩
    have hlines : lines = oldOf script.blocks := by
      rw [Script.old, htail, ← oldOf] at hold
      exact (List.append_cancel_right hold).symm
    obtain ⟨state, hrun, hresult⟩ := (@applyHunks_first_iff content [] script.blocks).mpr
      (.inl (anchored_of_removed fun block hblock => (hblocks block hblock).2))
    rw [List.append_nil] at hrun hresult
    refine ⟨state, by rw [hlines]; exact hrun, ?_⟩
    rw [hlines, hresult, Script.new, ← newOf, newOf_of_removed hblocks, htail]
    rfl

/-- For every script and every patch of it: applying the patch to the old text gives the new text exactly when the
script fits. -/
theorem Script.Plain.apply_iff (h : script.Plain fileHeaders) (ended : Bool) :
    applyPatch (joinLines script.old) (script.patch fileHeaders ended) = .ok (joinLines script.new) ↔ script.Fits := by
  rw [Script.Fits]
  by_cases hread : script.blocks ≠ [] ∧ LegibleAll 0 0 script.blocks
  · rw [applyPatch_eq ((h.parse_patch ended).mpr ⟨hread.1, hread.2, rfl⟩), PatchFailure.map_eq_ok,
      and_iff_right hread.1, and_iff_right hread.2]
    by_cases hlast : script.old.getLast? = some []
    · obtain ⟨lines, hold⟩ := List.getLast?_eq_some_iff.mp hlast
      have hunbroken : ∀ line ∈ lines, Unbroken line := fun line hline =>
        h.old line (by rw [hold]; exact List.mem_append_left _ hline)
      rw [or_iff_right fun hfirst => hfirst.1 hlast, ← h.removed_iff hold]
      rw [hold, splitlines_joinLines_append_nil hunbroken]
    · have hne : ¬(script.tail = [[]] ∧ ∀ block ∈ script.blocks, block.gap = [] ∧ block.new = []) := by
        rintro ⟨htail, -⟩
        rw [Script.old, htail, List.getLast?_append] at hlast
        exact hlast rfl
      rw [or_iff_left hne, and_iff_right hlast, splitlines_joinLines h.old hlast]
      refine Iff.trans ?_ (@applyHunks_first_iff (joinLines script.old) script.tail script.blocks)
      refine exists_congr fun state => and_congr_right fun hrun => ⟨fun hresult => ?_, fun hresult => ?_⟩
      · exact (h.result_eq (List.append_nil _).symm (Nat.zero_le 1) hrun hresult).resolve_right hne
      · exact congrArg joinLines hresult
  · refine iff_of_false ?_ fun hfits => hread ⟨hfits.1, hfits.2.1⟩
    intro happly
    obtain ⟨hunks, hparse, -⟩ := PatchFailure.bind_eq_ok happly
    obtain ⟨hne, hlegible, -⟩ := (h.parse_patch ended).mp hparse
    exact hread ⟨hne, hlegible⟩

/-- A block with a line of context is applied, in a patch with a heading and without the counts of one. -/
theorem Script.apply_iff_context :
    applyPatch "a".toList "--- x\n@@ -1 +1,2 @@ f\n a\n+b\n".toList = .ok "a\nb".toList := by
  have hplain : (⟨[⟨[], [.context ['a'], .added ['b']], by decide, true, true, [' ', 'f']⟩], []⟩ : Script).Plain
      ["--- x".toList] :=
    ⟨by decide, by decide, by decide, by decide⟩
  have happlied := (hplain.apply_iff true).mpr
    ⟨by decide, ⟨by decide, trivial⟩, .inl ⟨by decide, .inl ((if_neg (by decide)).mpr trivial)⟩⟩
  exact happlied

/-- A line that is added after the only line comes before it. -/
theorem Script.added_before :
    applyPatch "a".toList "@@ -1,0 +2 @@\n+b".toList = .ok "b\na".toList ∧
      ∃ script : Script, script.Plain [] ∧ script.blocks ≠ [] ∧ joinLines script.old = "a".toList ∧
        script.patch [] false = "@@ -1,0 +2 @@\n+b".toList ∧ joinLines script.new = "a\nb".toList := by
  have hplain : (⟨[⟨[['a']], [.added ['b']], by simp, true, true, []⟩], []⟩ : Script).Plain [] :=
    ⟨by decide, by decide, by decide, by decide⟩
  exact ⟨by decide +kernel, _, hplain, List.cons_ne_nil _ _, rfl, by decide, rfl⟩

end Whole

end MyTeam.Legacy
