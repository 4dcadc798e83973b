import MyTeam.Bash.Results

/-!
# Deadlines and output

Every move of the device seen from what it records of the times and the output of jobs: a new job
begins with its deadline and no output, an extension moves the deadline of a job, and output is
appended to its buffer. No other move writes these fields.
-/

namespace MyTeam.Bash

open MyTeam.Py

/-- What a record says about the times and the output of its job. -/
structure Entry where
  createdAt : ℚ
  deadlineAt : Number
  buffer : List UInt8
  trimmed : ℕ

/-- The entry of a record. -/
def Job.entry (job : Job) : Entry :=
  ⟨job.createdAt, job.deadlineAt, job.buffer, job.trimmed⟩

/-- What a device records of all jobs, with the limits that it goes by. -/
structure Books where
  seq : ℕ
  maxDeadline : Number
  outputCap : ℕ
  entries : ℕ → Entry

namespace BashDevice

variable {d d' : BashDevice} {id : ℕ}

/-- The books of the device. -/
def books (d : BashDevice) : Books :=
  ⟨d.seq, d.maxDeadline, d.outputCap, fun id => (d.table id).entry⟩

/-- What a move can do to the books. -/
inductive Posting (d : BashDevice) : Move → Books → Prop where
  | still {move : Move} : Posting d move d.books
  | opened {source : String} {request : Request} {timeout deadline : Number}
      (within : d.maxDeadline.lt deadline = false)
      (positive : (Number.finite 0).le timeout = true) (ordered : timeout.le deadline = true) :
      Posting d (.request source request) { d.books with
        seq := d.seq + 1
        entries := Function.update d.books.entries d.seq ⟨d.now, (Number.finite d.now).add deadline, [], 0⟩ }
  | extended {source : String} {job : Option ℕ} {id : ℕ} {extra : Number} (found : d.findOwned source job = some id)
      (running : (d.table id).state = .running) (positive : extra.le (.finite 0) = false)
      (within : d.maxDeadline.lt (((d.table id).deadlineAt.add extra).sub (.finite (d.table id).createdAt)) = false) :
      Posting d (.request source (.extend job (.number extra))) { d.books with
        entries := Function.update d.books.entries id
          { (d.table id).entry with deadlineAt := (d.table id).deadlineAt.add extra } }
  | appended {id : ℕ} {chunk : List UInt8}
      (reading : d.drivers id = .window .reading ∨ d.drivers id = .background .reading) (some : chunk ≠ []) :
      Posting d (.output id chunk) { d.books with
        entries := Function.update d.books.entries id ((d.table id).append d.outputCap chunk).entry }

section Updates

variable {f : Job → Job} {event : Sent}

/-- A record is changed. -/
theorem books_edit : (d.edit id f).books =
    { d.books with entries := Function.update d.books.entries id (f (d.table id)).entry } := by
  unfold books edit
  congr 1
  funext other
  by_cases h : other = id
  · subst h
    simp
  · simp [h]

/-- A record is changed in other fields. -/
theorem books_edit_of_same (same : (f (d.table id)).entry = (d.table id).entry) : (d.edit id f).books = d.books := by
  rw [books_edit, same]
  have hsame : Function.update d.books.entries id (d.table id).entry = d.books.entries := Function.update_eq_self id _
  rw [hsame]

/-- An event is sent. -/
@[simp] theorem books_emit : (d.emit event).books = d.books := rfl

/-- A driver moves. -/
@[simp] theorem books_drive {driver : Driver} : (d.drive id driver).books = d.books := rfl

/-- A watch moves. -/
@[simp] theorem books_watch {watch : Watch} : (d.watch id watch).books = d.books := rfl

/-- An answer is given. -/
@[simp] theorem books_deliver : (d.deliver id event).books = d.books := by
  unfold deliver
  split <;> rfl

/-- Handing a source over changes no more than a state. -/
@[simp] theorem books_wakeSource {source : String} : (d.wakeSource source).books = d.books := by
  unfold wakeSource
  split
  · rfl
  next next rest _ =>
    have hedit : (edit { d with pending := Function.update d.pending source rest, jobs := d.jobs ++ [next] } next
        ({ · with state := .running })).books = d.books := books_edit_of_same rfl
    exact hedit

/-- A driver concludes. -/
theorem books_conclude {send : BashDevice → Sent → BashDevice} (same : ∀ {d event}, (send d event).books = d.books)
    {error : Option String} : (d.conclude id send error).books = d.books := by
  unfold conclude
  rw [books_drive, books_wakeSource, same]
  rfl

/-- Reading raised an exception. -/
theorem books_readFails {message : String} : (d.readFails id message).books = d.books := by
  have hconclude : (d.conclude id emit (some message)).books = d.books := books_conclude books_emit
  unfold readFails
  dsimp only
  split
  · exact (books_edit_of_same rfl).trans hconclude
  · exact hconclude

/-- The output has ended. -/
theorem books_reachEof {driver : Driver} : (d.reachEof id driver).books = d.books := by
  unfold reachEof
  rw [books_drive]
  exact books_edit_of_same rfl

/-- A subprocess was started. -/
theorem books_launch : (d.launch id).books = d.books := by
  have hedit : (d.edit id ({ · with proc := some .started })).books = d.books := books_edit_of_same rfl
  unfold launch
  dsimp only
  split
  · exact hedit
  · rw [books_drive, books_deliver, hedit]

/-- A round of the watch. -/
theorem books_watchRound : (d.watchRound id).books = d.books := by
  unfold watchRound
  dsimp only
  split
  · split
    · rw [books_watch]
      exact books_edit_of_same rfl
    · split
      · have hedit : ((d.dequeue id).edit id ({ · with state := .expired })).books = (d.dequeue id).books :=
          books_edit_of_same rfl
        rw [books_watch, books_emit, hedit]
        rfl
      · rfl
  · rfl

end Updates

/-- A new job. -/
theorem posting_accept {source sender cmd : String} {cwd toolCallId : Value} {timeout deadline : Number}
    {request : Request} (within : d.maxDeadline.lt deadline = false) (positive : (Number.finite 0).le timeout = true)
    (ordered : timeout.le deadline = true) :
    Posting d (.request sender request) (d.accept source cmd cwd toolCallId timeout deadline).books := by
  have hbooks : (d.accept source cmd cwd toolCallId timeout deadline).books = { d.books with
      seq := d.seq + 1
      entries := Function.update d.books.entries d.seq ⟨d.now, (Number.finite d.now).add deadline, [], 0⟩ } := by
    unfold accept
    split
    all_goals
      unfold books enlist
      congr 1
      funext other
      by_cases h : other = d.seq
      · subst h
        simp [Job.entry]
      · simp [h]
  rw [hbooks]
  exact .opened within positive ordered

/-- Every request. -/
theorem posting_respond {source : String} {request : Request} :
    Posting d (.request source request) (d.respond source request).books := by
  cases request with
  | run cmd cwd toolCallId timeout deadline =>
    simp only [respond]
    unfold onRun
    split
    · exact .still
    split
    · exact .still
    split
    · exact .still
    split
    · split
      · exact .still
      next hwithin =>
        split
        · exact .still
        next hordered =>
          rw [Bool.not_eq_true', Bool.not_eq_false, Bool.and_eq_true] at hordered
          exact posting_accept (Bool.eq_false_iff.mpr hwithin) hordered.1 hordered.2
    · exact .still
  | status job offset =>
    simp only [respond]
    unfold onStatus
    split
    · exact .still
    dsimp only
    split
    · exact .still
    split
    · exact .still
    · exact .still
  | kill job =>
    simp only [respond]
    unfold onKill
    split
    · exact .still
    split
    · exact .still
    · rw [books_edit_of_same rfl]
      exact .still
  | extend job seconds =>
    simp only [respond]
    unfold onExtend
    split
    · exact .still
    next id hfound =>
      dsimp only
      split
      · exact .still
      next hrunning =>
        split
        next extra =>
          split
          · exact .still
          next hpositive =>
            split
            · exact .still
            next hwithin =>
              rw [books_edit]
              exact .extended hfound (not_not.mp hrunning) (Bool.eq_false_iff.mpr hpositive)
                (Bool.eq_false_iff.mpr hwithin)
        next => exact .still
  | unknown command => exact .still

/-- Every move, in the books. -/
theorem posting_step {move : Move} (moved : d.step move = some d') : Posting d move d'.books := by
  have hstill (h : d'.books = d.books) : Posting d move d'.books := by
    rw [h]
    exact .still
  cases move with
  | request source request =>
    cases moved
    exact posting_respond
  | advance now =>
    simp only [step] at moved
    split at moved
    · cases moved
      exact .still
    · cases moved
  | watch id =>
    simp only [step] at moved
    split at moved
    · cases moved
      exact hstill books_watchRound
    · split at moved
      · cases moved
      · cases moved
        exact hstill books_watchRound
    · cases moved
  | start id =>
    simp only [step] at moved
    split at moved
    · cases moved
      exact .still
    · cases moved
  | launch id =>
    simp only [step] at moved
    split at moved
    · cases moved
      exact hstill books_launch
    · cases moved
  | launchFails id message =>
    simp only [step] at moved
    split at moved
    · cases moved
      exact hstill (books_conclude books_deliver)
    · cases moved
  | launchRaises id =>
    simp only [step] at moved
    split at moved
    · cases moved
      exact .still
    · cases moved
  | output id chunk =>
    have hedit (hreading : d.drivers id = .window .reading ∨ d.drivers id = .background .reading) (hsome : chunk ≠ []) :
        Posting d (.output id chunk) (d.edit id (Job.append d.outputCap chunk)).books := by
      rw [books_edit]
      exact .appended hreading hsome
    simp only [step] at moved
    split at moved
    next hdriver =>
      split at moved
      · cases moved
      next hsome =>
        cases moved
        exact hedit (Or.inl hdriver) hsome
    next hdriver =>
      split at moved
      · cases moved
      next hsome =>
        cases moved
        exact hedit (Or.inr hdriver) hsome
    · cases moved
  | eof id =>
    simp only [step] at moved
    split at moved
    · cases moved
      exact hstill books_reachEof
    · cases moved
      exact hstill books_reachEof
    · cases moved
  | readRaises id message =>
    simp only [step] at moved
    split at moved
    · cases moved
      exact hstill books_readFails
    · cases moved
      exact hstill books_readFails
    · cases moved
  | timeout id =>
    simp only [step] at moved
    split at moved
    · cases moved
      exact hstill (by rw [books_drive, books_deliver])
    · cases moved
  | exit id code =>
    simp only [step] at moved
    split at moved
    · split at moved
      · cases moved
        exact hstill (books_edit_of_same rfl)
      · cases moved
    · cases moved
  | reap id =>
    simp only [step] at moved
    split at moved
    · split at moved
      · cases moved
      · cases moved
        exact hstill (books_edit_of_same rfl)
    · cases moved
  | resume id =>
    simp only [step] at moved
    split at moved
    · cases moved
    split at moved
    · cases moved
      exact hstill (books_conclude books_deliver)
    · cases moved
      exact hstill (books_conclude books_emit)
    · cases moved

end BashDevice

end MyTeam.Bash
