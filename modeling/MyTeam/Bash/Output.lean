import MyTeam.Bash.Ledger

/-!
# The output of a job

The buffer of a job is the end of its output, up to the cap, and the bytes that were trimmed complete
it: provided that the cap is not zero, since a slice from `-0` on is the whole buffer. A result tells
whether its preview is shorter than the output by a limit of its own, which agrees with what is
cut unless the cap is below that limit and cuts an output that is not above it.
-/

namespace MyTeam.Bash

open MyTeam.Py

/-- The last elements of a list. -/
theorem length_lastOf {α : Type} {n : ℕ} (xs : List α) (positive : 0 < n) : (lastOf n xs).length = min n xs.length := by
  rw [lastOf, if_neg positive.ne', List.length_drop]
  omega

namespace Job

/-- The chunks of an output, appended one after the other. -/
def appendAll (outputCap : ℕ) (chunks : List (List UInt8)) (job : Job) : Job :=
  chunks.foldl (fun job chunk => job.append outputCap chunk) job

/-- A job before any output. -/
def silent (job : Job) : Job := { job with buffer := [], trimmed := 0 }

/-- The buffer of a job is the end of its output, and what was trimmed is the rest. -/
structure Holds (outputCap : ℕ) (output : List UInt8) (job : Job) : Prop where
  buffer : job.buffer = output.drop (output.length - outputCap)
  total : job.trimmed + job.buffer.length = output.length

variable {outputCap : ℕ} {output chunk : List UInt8} {job : Job}

/-- A job before any output holds the empty output. -/
theorem holds_silent : job.silent.Holds outputCap [] :=
  ⟨by simp [silent], rfl⟩

/-- A job that got another chunk, with the length of its buffer. -/
theorem Holds.length_buffer (h : job.Holds outputCap output) : job.buffer.length = min outputCap output.length := by
  rw [h.buffer, List.length_drop]
  omega

/-- A chunk is appended. -/
theorem Holds.append (h : job.Holds outputCap output) (positive : 0 < outputCap) :
    (job.append outputCap chunk).Holds outputCap (output ++ chunk) := by
  have hlength := h.length_buffer
  have htotal := h.total
  have hjoined : job.buffer ++ chunk = (output ++ chunk).drop (output.length - outputCap) := by
    rw [h.buffer, List.drop_append_of_le_length (Nat.sub_le _ _)]
  unfold Job.append
  dsimp only
  split
  next hover =>
    rw [List.length_append] at hover
    have hbuffer : lastOf outputCap (job.buffer ++ chunk) =
        (output ++ chunk).drop ((output ++ chunk).length - outputCap) := by
      rw [lastOf, if_neg positive.ne', List.length_append, hjoined, List.drop_drop, List.length_append]
      congr 1
      omega
    refine ⟨hbuffer, ?_⟩
    dsimp only
    rw [length_lastOf _ positive, List.length_append, List.length_append]
    omega
  next hunder =>
    rw [List.length_append] at hunder
    refine ⟨?_, ?_⟩
    · change job.buffer ++ chunk = _
      rw [hjoined, List.length_append]
      congr 1
      omega
    · dsimp only
      rw [List.length_append, List.length_append]
      omega

/-- Chunks are appended. -/
theorem Holds.appendAll {chunks : List (List UInt8)} (h : job.Holds outputCap output) (positive : 0 < outputCap) :
    (job.appendAll outputCap chunks).Holds outputCap (output ++ chunks.flatten) := by
  induction chunks generalizing job output with
  | nil => simpa [Job.appendAll] using h
  | cons chunk chunks ih =>
    rw [List.flatten_cons, ← List.append_assoc]
    exact ih (h.append positive)

/-- Chunks that hold nothing. -/
theorem appendAll_of_flatten_eq_nil {chunks : List (List UInt8)} (h : chunks.flatten = []) (hbuffer : job.buffer = []) :
    job.appendAll outputCap chunks = job := by
  induction chunks with
  | nil => rfl
  | cons chunk chunks ih =>
    rw [List.flatten_cons, List.append_eq_nil_iff] at h
    have hchunk : job.append outputCap chunk = job := by
      rw [h.1]
      simp [Job.append, hbuffer]
      rw [← hbuffer]
    rw [Job.appendAll, List.foldl_cons, hchunk]
    exact ih h.2

/-- With a cap of zero nothing leaves the buffer. -/
theorem buffer_appendAll_zero {chunks : List (List UInt8)} :
    (job.appendAll 0 chunks).buffer = job.buffer ++ chunks.flatten := by
  induction chunks generalizing job with
  | nil => simp [Job.appendAll]
  | cons chunk chunks ih =>
    have hchunk : (job.append 0 chunk).buffer = job.buffer ++ chunk := by
      unfold Job.append
      dsimp only
      split <;> rfl
    rw [Job.appendAll, List.foldl_cons, List.flatten_cons, ← List.append_assoc, ← hchunk]
    exact ih

/-- What appending makes of the output depends on the output alone. -/
theorem append_congr {other : Job} (hbuffer : job.buffer = other.buffer) (htrimmed : job.trimmed = other.trimmed) :
    (job.append outputCap chunk).buffer = (other.append outputCap chunk).buffer ∧
      (job.append outputCap chunk).trimmed = (other.append outputCap chunk).trimmed := by
  unfold Job.append
  dsimp only
  rw [hbuffer, htrimmed]
  split <;> exact ⟨rfl, rfl⟩

end Job

namespace BashDevice

/-- A device where a job has got the chunks of its output. -/
def received (d : BashDevice) (id : ℕ) (chunks : List (List UInt8)) : BashDevice :=
  d.edit id fun job => job.silent.appendAll d.outputCap chunks

/-- The buffer of a job, and the flag of a result of it, for an output. -/
structure Bookkept (d : BashDevice) (id : ℕ) (output : List UInt8) : Prop where
  buffer : (d.table id).buffer = output.drop (output.length - d.outputCap)
  total : (d.table id).trimmed + (d.table id).buffer.length = output.length
  truncated : ∀ error result, d.result id error = .result result →
    (result.truncated = true ↔ result.content.length < output.length)

variable {d : BashDevice} {id : ℕ}

/-- The record of the job. -/
theorem table_received {chunks : List (List UInt8)} :
    (d.received id chunks).table id = (d.table id).silent.appendAll d.outputCap chunks := by
  simp [received, edit]

/-- In every run the output of a job comes from the chunks that it got. -/
theorem Reachable.exists_received {rule : BashDevice → Move → Prop} (h : Reachable rule d) : ∀ id < d.seq, ∃ chunks,
    (d.table id).buffer = ((d.received id chunks).table id).buffer ∧
      (d.table id).trimmed = ((d.received id chunks).table id).trimmed := by
  have hbooks : ∀ id < d.books.seq, ∃ chunks, ∀ job : Job,
      (d.books.entries id).buffer = (job.silent.appendAll d.books.outputCap chunks).buffer ∧
        (d.books.entries id).trimmed = (job.silent.appendAll d.books.outputCap chunks).trimmed := by
    induction h with
    | new made =>
      unfold BashDevice.new at made
      split at made
      · cases made
        exact fun id hid => absurd hid (Nat.not_lt_zero id)
      · cases made
    | @step d d' move reached allowed moved ih =>
      have hposting := posting_step moved
      generalize d'.books = b at hposting
      cases hposting with
      | still => exact ih
      | opened within positive ordered =>
        intro id hid
        dsimp only at hid ⊢
        rcases Nat.lt_succ_iff_lt_or_eq.mp hid with hlt | rfl
        · rw [Function.update_of_ne hlt.ne]
          exact ih id hlt
        · rw [Function.update_self]
          exact ⟨[], fun job => ⟨rfl, rfl⟩⟩
      | @extended source job changed extra found running positive within =>
        intro id hid
        dsimp only
        by_cases hsame : id = changed
        · subst hsame
          rw [Function.update_self]
          exact ih id hid
        · rw [Function.update_of_ne hsame]
          exact ih id hid
      | @appended changed chunk reading some =>
        intro id hid
        dsimp only
        by_cases hsame : id = changed
        · subst hsame
          rw [Function.update_self]
          obtain ⟨chunks, hchunks⟩ := ih id hid
          refine ⟨chunks ++ [chunk], fun job => ?_⟩
          rw [Job.appendAll, List.foldl_append]
          exact Job.append_congr (hchunks job).1 (hchunks job).2
        · rw [Function.update_of_ne hsame]
          exact ih id hid
  intro id hid
  obtain ⟨chunks, hchunks⟩ := hbooks id hid
  refine ⟨chunks, ?_⟩
  rw [table_received]
  exact hchunks (d.table id)

/-- What the flag of a result has to tell. -/
theorem bookkept_iff_flag {output : List UInt8} (h : (d.table id).Holds d.outputCap output) :
    d.Bookkept id output ↔
    (resultPreview < output.length ↔ (lastOf resultPreview (d.table id).buffer).length < output.length) := by
  have hflag : (∀ error result, d.result id error = .result result →
      (result.truncated = true ↔ result.content.length < output.length)) ↔
      (resultPreview < output.length ↔ (lastOf resultPreview (d.table id).buffer).length < output.length) := by
    unfold BashDevice.result
    simp only [Sent.result.injEq, forall_eq', decide_eq_true_eq, h.total, forall_const]
  exact ⟨fun hkept => hflag.mp hkept.truncated, fun hagree => ⟨h.buffer, h.total, hflag.mpr hagree⟩⟩

/-- The books are in order exactly if there is no output, or the cap is positive and does not cut an output that a
result would show as a whole. -/
theorem bookkept_iff (d : BashDevice) (id : ℕ) (chunks : List (List UInt8)) :
    (d.received id chunks).Bookkept id chunks.flatten ↔
      chunks.flatten = [] ∨ 0 < d.outputCap ∧
      ¬(d.outputCap < chunks.flatten.length ∧ chunks.flatten.length ≤ resultPreview) := by
  have hpreview : 0 < resultPreview := by decide
  by_cases hempty : chunks.flatten = []
  · have hholds : ((d.received id chunks).table id).Holds d.outputCap [] := by
      rw [table_received, Job.appendAll_of_flatten_eq_nil hempty rfl]
      exact Job.holds_silent
    rw [hempty]
    refine iff_of_true ((bookkept_iff_flag hholds).mpr ?_) (Or.inl rfl)
    exact iff_of_false (Nat.not_lt_zero _) (Nat.not_lt_zero _)
  · rw [or_iff_right hempty]
    rcases Nat.eq_zero_or_pos d.outputCap with hzero | hpositive
    · refine iff_of_false (fun hkept => ?_) fun h => h.1.ne' hzero
      have hbuffer := hkept.buffer
      have hcap : (d.received id chunks).outputCap = 0 := hzero
      rw [table_received, hzero, Job.buffer_appendAll_zero, hcap, Nat.sub_zero, List.drop_length] at hbuffer
      exact hempty (List.append_eq_nil_iff.mp hbuffer).2
    · have hholds : ((d.received id chunks).table id).Holds d.outputCap chunks.flatten := by
        rw [table_received]
        exact (Job.holds_silent.appendAll hpositive)
      refine (bookkept_iff_flag hholds).trans ?_
      rw [length_lastOf _ hpreview, hholds.length_buffer]
      have hlength : 0 < chunks.flatten.length := List.length_pos_of_ne_nil hempty
      omega

/-- The cap of a device is below the preview of a result, and cuts the output of a job: its result is not marked
as truncated. -/
theorem cut_unmarked : ∃ d, Reachable (fun _ _ => True) d ∧ 0 < d.seq ∧
    ¬ (d.received 0 [[97], [98]]).Bookkept 0 [97, 98] := by
  have hrun : ((new 8 (.finite 30) (.finite 60) (.finite 300) 1 64 .none 0).bind (·.run (fun _ _ => True)
      [.request "a" (bashRun "printf ab")])).any (fun d => 0 < d.seq ∧
        (lastOf resultPreview ((d.received 0 [[97], [98]]).table 0).buffer).length = 1) = true := by
    decide +kernel
  obtain ⟨d, h, hseq, hlength⟩ := Reachable.of_run _ _ hrun
  refine ⟨d, h, hseq, fun hkept => ?_⟩
  have htruncated := hkept.truncated none
  unfold BashDevice.result at htruncated
  simp only [Sent.result.injEq, forall_eq', decide_eq_true_eq, hkept.total, hlength] at htruncated
  exact absurd (htruncated.mpr (by decide)) (by decide)

end BashDevice

end MyTeam.Bash
