import MyTeam.Bash.Ledger

/-!
# The cap on deadlines

The deadline of a job lies between its creation and the cap of the device, and only moves forward:
provided that no job is extended by `nan`. The checks on a request refuse what is too small or too
large, and `nan` is neither. The checks on a new job ask for what is in order, so that
`nan` does not pass them.
-/

namespace MyTeam.Bash

open MyTeam.Py

/-- A deadline between the creation of the job and the cap. -/
def Entry.Capped (maxDeadline : Number) (entry : Entry) : Prop :=
  (Number.finite entry.createdAt).le entry.deadlineAt = true ∧
    (entry.deadlineAt.sub (.finite entry.createdAt)).le maxDeadline = true

/-- All deadlines are capped, by a number. -/
structure Books.Capped (b : Books) : Prop where
  number : b.maxDeadline ≠ .nan
  capped : ∀ id < b.seq, (b.entries id).Capped b.maxDeadline

namespace BashDevice

/-- The hard cap holds of every job, and no deadline moves back. -/
structure DeadlinesCapped (rule : BashDevice → Move → Prop) (d : BashDevice) : Prop where
  created : ∀ id < d.seq, (Number.finite (d.table id).createdAt).le (d.table id).deadlineAt = true
  capped : ∀ id < d.seq,
    ((d.table id).deadlineAt.sub (.finite (d.table id).createdAt)).le d.maxDeadline = true
  forward : ∀ move d', rule d move → d.step move = some d' →
    ∀ id < d.seq, (d.table id).deadlineAt.le (d'.table id).deadlineAt = true

/-- A request names a running job of its source. -/
def Extendable (d : BashDevice) (source : String) (job : Option ℕ) : Prop :=
  ∃ id ∈ d.findOwned source job, (d.table id).state = .running

instance (d : BashDevice) (source : String) (job : Option ℕ) : Decidable (d.Extendable source job) :=
  inferInstanceAs (Decidable (∃ id ∈ d.findOwned source job, _))

/-- No running job is extended by `nan`. -/
def Comparable (d : BashDevice) : Move → Prop
  | .request source (.extend job (.number .nan)) => ¬ d.Extendable source job
  | _ => True

instance (d : BashDevice) (move : Move) : Decidable (d.Comparable move) := by
  unfold Comparable
  split <;> infer_instance

variable {d d' : BashDevice}

/-- A deadline that passed the checks of a new job. -/
theorem capped_opened {now : ℚ} {maxDeadline timeout deadline : Number} {buffer : List UInt8} {trimmed : ℕ}
    (number : maxDeadline ≠ .nan) (within : maxDeadline.lt deadline = false)
    (positive : (Number.finite 0).le timeout = true) (ordered : timeout.le deadline = true) :
    Entry.Capped maxDeadline ⟨now, (Number.finite now).add deadline, buffer, trimmed⟩ := by
  have hpositive := Number.le_trans positive ordered
  have hwithin := Number.le_of_lt_eq_false number (Number.ne_nan_of_le hpositive).2 within
  cases deadline with
  | finite q =>
    refine ⟨by simpa [Number.add, Number.le] using hpositive, ?_⟩
    simpa [Number.add, Number.sub, Number.neg] using hwithin
  | posInf => exact ⟨rfl, hwithin⟩
  | negInf => simp [Number.le] at hpositive
  | nan => simp [Number.le] at hpositive

/-- A deadline that passed the checks of an extension. -/
theorem capped_extended {maxDeadline extra : Number} {entry : Entry} (h : entry.Capped maxDeadline)
    (hextra : extra ≠ .nan)
    (positive : extra.le (.finite 0) = false)
    (within : maxDeadline.lt ((entry.deadlineAt.add extra).sub (.finite entry.createdAt)) = false) :
    Entry.Capped maxDeadline { entry with deadlineAt := entry.deadlineAt.add extra } ∧
      entry.deadlineAt.le (entry.deadlineAt.add extra) = true := by
  obtain ⟨createdAt, deadlineAt, buffer, trimmed⟩ := entry
  obtain ⟨hcreated, hcapped⟩ := h
  have hnumber := (Number.ne_nan_of_le hcapped).2
  have hforward : deadlineAt.le (deadlineAt.add extra) = true ∧
      (deadlineAt.add extra).sub (.finite createdAt) ≠ .nan := by
    cases deadlineAt <;> cases extra <;> simp_all [Number.le, Number.add, Number.sub, Number.neg]
    exact positive.le
  exact ⟨⟨Number.le_trans hcreated hforward.1, Number.le_of_lt_eq_false hnumber hforward.2 within⟩, hforward.1⟩

/-- One move keeps the deadlines under the cap and moves none back. -/
theorem Posting.capped {move : Move} {b : Books} (hmove : d.Comparable move) (h : d.books.Capped)
    (hposting : Posting d move b) :
    b.Capped ∧ ∀ id < d.seq, (d.table id).deadlineAt.le (b.entries id).deadlineAt = true := by
  have hself (id : ℕ) (hid : id < d.seq) : (d.table id).deadlineAt.le (d.table id).deadlineAt = true :=
    Number.le_self (Number.ne_nan_of_le (h.capped id hid).1).2
  cases hposting with
  | still => exact ⟨h, hself⟩
  | opened within positive ordered =>
    refine ⟨⟨h.number, fun id hid => ?_⟩, fun id hid => ?_⟩
    · dsimp only
      rcases Nat.lt_succ_iff_lt_or_eq.mp hid with hlt | rfl
      · rw [Function.update_of_ne hlt.ne]
        exact h.capped id hlt
      · rw [Function.update_self]
        exact capped_opened h.number within positive ordered
    · dsimp only
      rw [Function.update_of_ne hid.ne]
      exact hself id hid
  | @extended source job id extra found running positive within =>
    have hextra : extra ≠ .nan := by
      rintro rfl
      exact hmove ⟨id, found, running⟩
    have hentry (other : ℕ) (hother : other < d.seq) : Entry.Capped d.maxDeadline
        (Function.update d.books.entries id
          { (d.table id).entry with deadlineAt := (d.table id).deadlineAt.add extra } other) ∧
        (d.table other).deadlineAt.le (Function.update d.books.entries id
          { (d.table id).entry with deadlineAt := (d.table id).deadlineAt.add extra } other).deadlineAt = true := by
      by_cases hsame : other = id
      · subst hsame
        rw [Function.update_self]
        exact capped_extended (h.capped other hother) hextra positive within
      · rw [Function.update_of_ne hsame]
        exact ⟨h.capped other hother, hself other hother⟩
    exact ⟨⟨h.number, fun other hother => (hentry other hother).1⟩, fun other hother => (hentry other hother).2⟩
  | @appended id chunk reading some =>
    have htimes : (((d.table id).append d.outputCap chunk).entry).createdAt = (d.table id).createdAt ∧
        (((d.table id).append d.outputCap chunk).entry).deadlineAt = (d.table id).deadlineAt := by
      unfold Job.append
      dsimp only
      split <;> exact ⟨rfl, rfl⟩
    have hentry (other : ℕ) (hother : other < d.seq) : Entry.Capped d.maxDeadline
        (Function.update d.books.entries id ((d.table id).append d.outputCap chunk).entry other) ∧
        (d.table other).deadlineAt.le
          (Function.update d.books.entries id ((d.table id).append d.outputCap chunk).entry other).deadlineAt =
          true := by
      by_cases hsame : other = id
      · subst hsame
        rw [Function.update_self]
        unfold Entry.Capped
        rw [htimes.1, htimes.2]
        exact ⟨h.capped other hother, hself other hother⟩
      · rw [Function.update_of_ne hsame]
        exact ⟨h.capped other hother, hself other hother⟩
    exact ⟨⟨h.number, fun other hother => (hentry other hother).1⟩, fun other hother => (hentry other hother).2⟩

/-- The deadlines are capped in every run in which no job is extended by `nan`. -/
theorem Reachable.books_capped (h : Reachable Comparable d) : d.books.Capped := by
  induction h with
  | new made =>
    unfold BashDevice.new at made
    split at made
    next hordered =>
      cases made
      rw [Bool.and_eq_true] at hordered
      exact ⟨(Number.ne_nan_of_le hordered.2).2, fun id hid => absurd hid (Nat.not_lt_zero id)⟩
    next => cases made
  | step reached allowed moved ih => exact ((posting_step moved).capped allowed ih).1

/-- The hard cap holds in every run in which no job is extended by `nan`. -/
theorem Reachable.deadlinesCapped (h : Reachable Comparable d) : d.DeadlinesCapped Comparable := by
  have hcapped := h.books_capped
  exact ⟨fun id hid => (hcapped.capped id hid).1, fun id hid => (hcapped.capped id hid).2,
    fun move d' allowed moved id hid => ((posting_step moved).capped allowed hcapped).2 id hid⟩

/-- A job is extended twice: its deadline comes closer to the cap, and a third extension is refused. -/
theorem deadlinesCapped_extended : ∃ d, Reachable Comparable d ∧
    (0 < d.seq ∧ (d.table 0).deadlineAt = .finite 260 ∧ d.maxDeadline = .finite 300) ∧
    d.DeadlinesCapped Comparable := by
  have hrun : (defaultDevice.bind (·.run Comparable [.request "a" (bashRun "sleep 100"), .start 0, .launch 0,
      .request "a" (.extend (some 0) (.number (.finite 100))), .request "a" (.extend (some 0) (.number (.finite 100))),
      .request "a" (.extend (some 0) (.number (.finite 100)))])).any
        (fun d => 0 < d.seq ∧ (d.table 0).deadlineAt = .finite 260 ∧ d.maxDeadline = .finite 300) = true := by
    decide +kernel
  obtain ⟨d, h, hend⟩ := Reachable.of_run _ _ hrun
  exact ⟨d, h, hend, h.deadlinesCapped⟩

/-- A job is extended by `nan`, and has no deadline from then on. -/
theorem deadline_lost : ∃ d, Reachable (fun _ _ => True) d ∧ ¬ d.DeadlinesCapped fun _ _ => True := by
  have hrun : (defaultDevice.bind (·.run (fun _ _ => True) [.request "a" (bashRun "sleep 100"), .start 0, .launch 0,
      .request "a" (.extend (some 0) (.number .nan))])).any (fun d => 0 < d.seq ∧ (d.table 0).deadlineAt = .nan) =
        true := by
    decide +kernel
  obtain ⟨d, h, hseq, hnan⟩ := Reachable.of_run _ _ hrun
  refine ⟨d, h, fun hcapped => ?_⟩
  exact (Number.ne_nan_of_le (hcapped.created 0 hseq)).2 hnan

end BashDevice

end MyTeam.Bash
