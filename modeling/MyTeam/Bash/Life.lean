import MyTeam.Bash.Pool

/-!
# The life of a job

Every move of the device seen from one job: what it can do to the state of the job, its
subprocess, its two tasks and its window. An invariant of a job is checked on these turns, and
not again on every branch of the device.
-/

namespace MyTeam.Bash

open MyTeam.Py

/-- What a job and its tasks are doing. -/
structure Life where
  state : JobState
  proc : Option Proc
  driver : Driver
  watch : Watch
  window : Window

/-- An answered window is not open. -/
theorem Window.answer_ne_pending (window : Window) : window.answer ≠ .pending := by
  cases window <;> nofun

namespace BashDevice

/-- The life of a job of the device. -/
def life (d : BashDevice) (id : ℕ) : Life :=
  ⟨(d.table id).state, (d.table id).proc, d.drivers id, d.watches id, d.windows id⟩

/-- The deadline of a job has passed. -/
def Due (d : BashDevice) (id : ℕ) : Prop :=
  ((d.table id).deadlineAt.sub (.finite d.now)).le (.finite 0) = true

/-- What a move can do to a job. -/
inductive Turn (d : BashDevice) (id : ℕ) : Move → Life → Prop where
  | still {move : Move} : Turn d id move (d.life id)
  | enqueue {source : String} {request : Request} (fresh : id = d.seq) :
      Turn d id (.request source request)
        { d.life id with state := .queued, proc := none, watch := .ready }
  | begin {source : String} {request : Request} (fresh : id = d.seq) :
      Turn d id (.request source request) ⟨.running, none, .ready, .ready, .pending⟩
  | kill {source : String} {request : Request} (running : (d.table id).state = .running) :
      Turn d id (.request source request)
        { d.life id with state := .killed, proc := (d.table id).proc.map Proc.killpg }
  | wake {move : Move} (lt : id < d.seq) (queued : (d.table id).state = .queued) :
      Turn d id move { d.life id with state := .running, driver := .ready }
  | start (ready : d.drivers id = .ready) :
      Turn d id (.start id) { d.life id with driver := .launching }
  | launchWindow (launching : d.drivers id = .launching) :
      Turn d id (.launch id) { d.life id with proc := some .started, driver := .window .reading }
  | launchBackground (launching : d.drivers id = .launching) :
      Turn d id (.launch id) { d.life id with
        proc := some .started, driver := .background .reading, window := (d.windows id).answer }
  | launchFails {message : String} (launching : d.drivers id = .launching) :
      Turn d id (.launchFails id message)
        { d.life id with driver := .returned, window := (d.windows id).answer }
  | launchRaises (launching : d.drivers id = .launching) :
      Turn d id (.launchRaises id) { d.life id with driver := .raised }
  | eofWindow (reading : d.drivers id = .window .reading) :
      Turn d id (.eof id) { d.life id with
        state := if (d.table id).state = .running then .done else (d.table id).state
        driver := .window .waiting }
  | eofBackground (reading : d.drivers id = .background .reading) :
      Turn d id (.eof id) { d.life id with
        state := if (d.table id).state = .running then .done else (d.table id).state
        driver := .background .waiting }
  | readRaises {message : String}
      (reading : d.drivers id = .window .reading ∨ d.drivers id = .background .reading) :
      Turn d id (.readRaises id message) { d.life id with
        proc := if (d.table id).returncode = none then (d.table id).proc.map Proc.killpg
          else (d.table id).proc
        driver := .returned }
  | timeout {drain : Drain} (draining : d.drivers id = .window drain) :
      Turn d id (.timeout id)
        { d.life id with driver := .background drain, window := (d.windows id).answer }
  | exit {code : ℤ} {p : Proc} (proc : (d.table id).proc = some p) (alive : p.alive = true) :
      Turn d id (.exit id code) { d.life id with proc := some { p with exited := some code } }
  | reap {p : Proc} (proc : (d.table id).proc = some p) (dead : p.alive = false) :
      Turn d id (.reap id) { d.life id with proc := some { p with returncode := p.exited } }
  | resumeWindow (waiting : d.drivers id = .window .waiting) (reaped : (d.table id).returncode ≠ none) :
      Turn d id (.resume id)
        { d.life id with driver := .returned, window := (d.windows id).answer }
  | resumeBackground (waiting : d.drivers id = .background .waiting)
      (reaped : (d.table id).returncode ≠ none) :
      Turn d id (.resume id) { d.life id with driver := .returned }
  | expireRunning (due : d.Due id) (running : (d.table id).state = .running)
      (started : (d.table id).proc.isSome) :
      Turn d id (.watch id) { d.life id with
        state := .expired, proc := (d.table id).proc.map Proc.killpg, watch := .returned }
  | expireQueued (lt : id < d.seq) (due : d.Due id) (queued : (d.table id).state = .queued) :
      Turn d id (.watch id) { d.life id with state := .expired, watch := .returned }
  | giveUp (due : d.Due id) (queued : (d.table id).state ≠ .queued)
      (idle : ¬ ((d.table id).state = .running ∧ (d.table id).proc.isSome ∧
        (d.table id).returncode = none)) :
      Turn d id (.watch id) { d.life id with watch := .returned }
  | sleep {wake : Py.Number} : Turn d id (.watch id) { d.life id with watch := .sleeping wake }

variable {d d' : BashDevice} {id : ℕ}

section Updates

variable {other : ℕ} {f : Job → Job} {driver : Driver} {watch : Watch} {event : Sent}

/-- A driver moves. -/
@[simp] theorem life_drive_self : (d.drive id driver).life id = { d.life id with driver } := by
  simp [life, drive]

/-- Another driver moves. -/
theorem life_drive_of_ne (h : other ≠ id) : (d.drive id driver).life other = d.life other := by
  simp [life, drive, h]

/-- A watch moves. -/
@[simp] theorem life_watch_self : (d.watch id watch).life id = { d.life id with watch } := by
  simp [life, BashDevice.watch]

/-- Another watch moves. -/
theorem life_watch_of_ne (h : other ≠ id) : (d.watch id watch).life other = d.life other := by
  simp [life, BashDevice.watch, h]

/-- A record is changed. -/
@[simp] theorem life_edit_self : (d.edit id f).life id =
    { d.life id with state := (f (d.table id)).state, proc := (f (d.table id)).proc } := by
  simp [life, edit]

/-- Another record is changed. -/
theorem life_edit_of_ne (h : other ≠ id) : (d.edit id f).life other = d.life other := by
  simp [life, edit, h]

/-- An event is sent. -/
@[simp] theorem life_emit : (d.emit event).life other = d.life other := rfl

/-- An answer is given. -/
@[simp] theorem life_deliver_self :
    (d.deliver id event).life id = { d.life id with window := (d.windows id).answer } := by
  have hsends : d.deliver id event = _ := sends_deliver id d event
  simp [hsends, life]

/-- Another answer is given. -/
theorem life_deliver_of_ne (h : other ≠ id) : (d.deliver id event).life other = d.life other := by
  have hsends : d.deliver id event = _ := sends_deliver id d event
  simp [hsends, life, h]

end Updates

/-- Handing a source over starts at most one job, and that was queued. -/
theorem life_wakeSource (source : String) (other : ℕ) :
    (d.wakeSource source).life other = d.life other ∨
    other ∈ d.pending source ∧
      (d.wakeSource source).life other = { d.life other with state := .running, driver := .ready } := by
  cases hpending : d.pending source with
  | nil =>
    rw [wakeSource_nil hpending]
    exact Or.inl rfl
  | cons next rest =>
    rw [wakeSource_cons hpending]
    by_cases hnext : other = next
    · subst hnext
      exact Or.inr ⟨List.mem_cons_self, by simp [life]⟩
    · exact Or.inl (by simp [life, hnext])

section Conclude

variable {send : BashDevice → Sent → BashDevice} {answer : Window → Window} {error : Option String}

/-- The job whose driver returns. -/
theorem Sound.life_conclude (h : d.Sound) (hid : (d.drivers id).phase = .holding)
    (hsend : Sends id send answer) : (d.conclude id send error).life id =
      { d.life id with driver := .returned, window := answer (d.windows id) } := by
  have hnot : id ∉ d.pending (d.table id).source := fun hmem => by
    obtain ⟨hlt, -, hq⟩ := (h.queues id _).mp hmem
    simp [(h.queued id hlt hq).1] at hid
  unfold BashDevice.conclude
  simp only [hsend (d.finish id)]
  generalize hreported : ({ d.finish id with
    windows := Function.update (d.finish id).windows id (answer ((d.finish id).windows id))
    sent := (d.finish id).sent ++ [(d.finish id).result id error] } : BashDevice) = reported
  have hlife : (reported.wakeSource (d.table id).source).life id = reported.life id := by
    rcases life_wakeSource (d := reported) (d.table id).source id with hsame | ⟨hmem, -⟩
    · exact hsame
    · rw [← hreported] at hmem
      exact absurd hmem hnot
  rw [life_drive_self, hlife, ← hreported]
  simp [life, BashDevice.finish]

/-- The other jobs. -/
theorem Sound.turn_conclude (h : d.Sound) (hsend : Sends id send answer) {other : ℕ} (hother : other ≠ id)
    {move : Move} : Turn d other move ((d.conclude id send error).life other) := by
  unfold BashDevice.conclude
  simp only [hsend (d.finish id)]
  generalize hreported : ({ d.finish id with
    windows := Function.update (d.finish id).windows id (answer ((d.finish id).windows id))
    sent := (d.finish id).sent ++ [(d.finish id).result id error] } : BashDevice) = reported
  have hlife : reported.life other = d.life other := by
    rw [← hreported]
    simp [life, BashDevice.finish, hother]
  rw [life_drive_of_ne hother]
  rcases life_wakeSource (d := reported) (d.table id).source other with hsame | ⟨hmem, hwoken⟩
  · rw [hsame, hlife]
    exact .still
  · rw [← hreported] at hmem
    obtain ⟨hlt, -, hq⟩ := (h.queues other _).mp hmem
    rw [hwoken, hlife]
    exact .wake hlt hq

end Conclude

/-- A change of the record of one job that is a turn of this job is a turn of every job. -/
theorem turn_of_life (id : ℕ) {move : Move} (hself : Turn d id move (d'.life id))
    (hothers : ∀ other ≠ id, d'.life other = d.life other) (other : ℕ) : Turn d other move (d'.life other) := by
  by_cases hother : other = id
  · exact hother ▸ hself
  · rw [hothers other hother]
    exact .still

/-- An accepted request. -/
theorem turn_accept {source cmd : String} {cwd toolCallId : Value} {timeout deadline : Number}
    {sender : String} {request : Request} (other : ℕ) :
    Turn d other (.request sender request) ((d.accept source cmd cwd toolCallId timeout deadline).life other) := by
  unfold accept
  split
  · refine turn_of_life d.seq ?_ (fun other hother => ?_) other
    · convert Turn.enqueue (d := d) rfl using 1
      simp [life, enlist]
    · simp [life, enlist, hother]
  · refine turn_of_life d.seq ?_ (fun other hother => ?_) other
    · convert Turn.begin (d := d) rfl using 1
      simp [life, enlist]
    · simp [life, enlist, hother]

/-- Every request, seen from every job. -/
theorem turn_respond {source : String} {request : Request} (other : ℕ) :
    Turn d other (.request source request) ((d.respond source request).life other) := by
  cases request with
  | run cmd cwd toolCallId timeout deadline =>
    simp only [respond]
    unfold onRun
    split
    · exact .still
    split
    · exact .still
    split
    · exact .still
    split
    · split
      · exact .still
      split
      · exact .still
      · exact turn_accept other
    · exact .still
  | status job offset =>
    simp only [respond]
    unfold onStatus
    split
    · exact .still
    dsimp only
    split
    · exact .still
    split
    · exact .still
    · exact .still
  | kill job =>
    simp only [respond]
    unfold onKill
    split
    · exact .still
    next id _ =>
      split
      · exact .still
      next hrunning =>
        refine turn_of_life id ?_ (fun other hother => life_edit_of_ne hother) other
        rw [life_edit_self]
        exact .kill (not_not.mp hrunning)
  | extend job seconds =>
    simp only [respond]
    unfold onExtend
    split
    · exact .still
    next id _ =>
      dsimp only
      split
      · exact .still
      split
      · split
        · exact .still
        split
        · exact .still
        · refine turn_of_life id ?_ (fun other hother => life_edit_of_ne hother) other
          rw [life_edit_self]
          exact .still
      · exact .still
  | unknown command => exact .still

/-- A subprocess was started. -/
theorem turn_launch (hid : d.drivers id = .launching) (other : ℕ) :
    Turn d other (.launch id) ((d.launch id).life other) := by
  unfold launch
  dsimp only
  split
  · refine turn_of_life id ?_ (fun other hother => ?_) other
    · rw [life_drive_self, life_edit_self]
      exact .launchWindow hid
    · rw [life_drive_of_ne hother, life_edit_of_ne hother]
  · refine turn_of_life id ?_ (fun other hother => ?_) other
    · rw [life_drive_self, life_deliver_self, life_edit_self]
      exact .launchBackground hid
    · rw [life_drive_of_ne hother, life_deliver_of_ne hother, life_edit_of_ne hother]

/-- Reading raised an exception. -/
theorem Sound.turn_readFails (h : d.Sound) {message : String}
    (hid : d.drivers id = .window .reading ∨ d.drivers id = .background .reading) (other : ℕ) :
    Turn d other (.readRaises id message) ((d.readFails id message).life other) := by
  have hholding : (d.drivers id).phase = .holding := by
    rcases hid with hid | hid <;> simp [hid, Driver.phase]
  have hself : (d.conclude id BashDevice.emit (some message)).life id = _ :=
    h.life_conclude hholding (sends_emit id)
  unfold BashDevice.readFails
  dsimp only
  by_cases hother : other = id
  · subst hother
    split
    next hcode =>
      have hkill (e : BashDevice) : (e.edit other Job.killpg).life other =
          { e.life other with proc := (e.life other).proc.map Proc.killpg } := life_edit_self
      rw [hkill, hself]
      simpa [hcode, life] using Turn.readRaises (d := d) hid
    next hcode =>
      rw [hself]
      simpa [hcode, life] using Turn.readRaises (d := d) hid
  · split
    · rw [life_edit_of_ne hother]
      exact h.turn_conclude (sends_emit id) hother
    · exact h.turn_conclude (sends_emit id) hother

/-- A round of the watch. -/
theorem turn_watchRound (hid : id < d.seq) (other : ℕ) : Turn d other (.watch id) ((d.watchRound id).life other) := by
  unfold watchRound
  dsimp only
  split
  next hdue =>
    split
    next hrunning =>
      obtain ⟨hrunning, hproc, -⟩ := hrunning
      refine turn_of_life id ?_ (fun other hother => ?_) other
      · rw [life_watch_self, life_edit_self]
        exact .expireRunning hdue hrunning hproc
      · rw [life_watch_of_ne hother, life_edit_of_ne hother]
    next hidle =>
      split
      next hq =>
        refine turn_of_life id ?_ (fun other hother => ?_) other
        · rw [life_watch_self, life_emit, life_edit_self]
          exact .expireQueued hid hdue hq
        · rw [life_watch_of_ne hother, life_emit, life_edit_of_ne hother]
          rfl
      next hq =>
        refine turn_of_life id ?_ (fun other hother => life_watch_of_ne hother) other
        rw [life_watch_self]
        exact .giveUp hdue hq hidle
  next =>
    refine turn_of_life id ?_ (fun other hother => life_watch_of_ne hother) other
    rw [life_watch_self]
    exact .sleep

/-- Every move, seen from every job. -/
theorem Sound.turn (h : d.Sound) {move : Move} (moved : d.step move = some d') (other : ℕ) :
    Turn d other move (d'.life other) := by
  cases move with
  | request source request =>
    cases moved
    exact turn_respond other
  | advance now =>
    simp only [BashDevice.step] at moved
    split at moved
    · cases moved
      exact .still
    · cases moved
  | watch id =>
    have hid (hwatch : d.watches id ≠ .absent) : id < d.seq := not_le.mp ((h.watched id).not.mp hwatch)
    simp only [BashDevice.step] at moved
    split at moved
    next hwatch =>
      cases moved
      exact turn_watchRound (hid (by simp [hwatch])) other
    next hwatch =>
      split at moved
      · cases moved
      · cases moved
        exact turn_watchRound (hid (by simp [hwatch])) other
    next => cases moved
  | start id =>
    simp only [BashDevice.step] at moved
    split at moved
    next hdriver =>
      cases moved
      refine turn_of_life id ?_ (fun other hother => life_drive_of_ne hother) other
      rw [life_drive_self]
      exact .start hdriver
    next => cases moved
  | launch id =>
    simp only [BashDevice.step] at moved
    split at moved
    next hdriver =>
      cases moved
      exact turn_launch hdriver other
    next => cases moved
  | launchFails id message =>
    simp only [BashDevice.step] at moved
    split at moved
    next hdriver =>
      cases moved
      by_cases hother : other = id
      · subst hother
        rw [h.life_conclude (by rw [hdriver]; rfl) (sends_deliver other)]
        exact .launchFails hdriver
      · exact h.turn_conclude (sends_deliver id) hother
    next => cases moved
  | launchRaises id =>
    simp only [BashDevice.step] at moved
    split at moved
    next hdriver =>
      cases moved
      refine turn_of_life id ?_ (fun other hother => life_drive_of_ne hother) other
      rw [life_drive_self]
      exact .launchRaises hdriver
    next => cases moved
  | output id chunk =>
    have hedit : Turn d other (.output id chunk) ((d.edit id (Job.append d.outputCap chunk)).life other) := by
      refine turn_of_life id ?_ (fun other hother => life_edit_of_ne hother) other
      rw [life_edit_self]
      have happend : ((d.table id).append d.outputCap chunk).state = (d.table id).state ∧
          ((d.table id).append d.outputCap chunk).proc = (d.table id).proc := by
        unfold Job.append
        dsimp only
        split <;> simp
      rw [happend.1, happend.2]
      exact .still
    simp only [BashDevice.step] at moved
    split at moved
    · split at moved
      · cases moved
      · cases moved
        exact hedit
    · split at moved
      · cases moved
      · cases moved
        exact hedit
    · cases moved
  | eof id =>
    have hothers (driver : Driver) (other : ℕ) (hother : other ≠ id) :
        (d.reachEof id driver).life other = d.life other := by
      rw [BashDevice.reachEof, life_drive_of_ne hother, life_edit_of_ne hother]
    simp only [BashDevice.step] at moved
    split at moved
    next hdriver =>
      cases moved
      refine turn_of_life id ?_ (hothers _) other
      rw [BashDevice.reachEof, life_drive_self, life_edit_self]
      exact .eofWindow hdriver
    next hdriver =>
      cases moved
      refine turn_of_life id ?_ (hothers _) other
      rw [BashDevice.reachEof, life_drive_self, life_edit_self]
      exact .eofBackground hdriver
    next => cases moved
  | readRaises id message =>
    simp only [BashDevice.step] at moved
    split at moved
    next hdriver =>
      cases moved
      exact h.turn_readFails (Or.inl hdriver) other
    next hdriver =>
      cases moved
      exact h.turn_readFails (Or.inr hdriver) other
    next => cases moved
  | timeout id =>
    simp only [BashDevice.step] at moved
    split at moved
    next drain hdriver =>
      cases moved
      refine turn_of_life id ?_ (fun other hother => ?_) other
      · rw [life_drive_self, life_deliver_self]
        exact .timeout hdriver
      · rw [life_drive_of_ne hother, life_deliver_of_ne hother]
    next => cases moved
  | exit id code =>
    simp only [BashDevice.step] at moved
    split at moved
    next p hproc =>
      split at moved
      next halive =>
        cases moved
        refine turn_of_life id ?_ (fun other hother => life_edit_of_ne hother) other
        rw [life_edit_self]
        exact .exit hproc halive
      next => cases moved
    next => cases moved
  | reap id =>
    simp only [BashDevice.step] at moved
    split at moved
    next p hproc =>
      split at moved
      next => cases moved
      next hdead =>
        cases moved
        refine turn_of_life id ?_ (fun other hother => life_edit_of_ne hother) other
        rw [life_edit_self]
        exact .reap hproc (Bool.eq_false_iff.mpr fun halive => hdead (Or.inl halive))
    next => cases moved
  | resume id =>
    simp only [BashDevice.step] at moved
    split at moved
    · cases moved
    next hcode =>
      split at moved
      next hdriver =>
        cases moved
        by_cases hother : other = id
        · subst hother
          rw [h.life_conclude (by rw [hdriver]; rfl) (sends_deliver other)]
          exact .resumeWindow hdriver hcode
        · exact h.turn_conclude (sends_deliver id) hother
      next hdriver =>
        cases moved
        by_cases hother : other = id
        · subst hother
          rw [h.life_conclude (by rw [hdriver]; rfl) (sends_emit other)]
          exact .resumeBackground hdriver hcode
        · exact h.turn_conclude (sends_emit id) hother
      next => cases moved

/-- What holds of a life that has not begun, and is kept by every turn, holds of every job in
every run. -/
theorem Reachable.lives {rule : BashDevice → Move → Prop} {I : Life → Prop} (h : Reachable rule d)
    (hfresh : I ⟨.running, none, .absent, .absent, .absent⟩)
    (hturn : ∀ (d : BashDevice) (id : ℕ) (move : Move) (v : Life), d.Sound → rule d move →
      I (d.life id) → Turn d id move v → I v) : ∀ id, I (d.life id) := by
  induction h with
  | new made =>
    intro id
    unfold BashDevice.new at made
    split at made
    · cases made
      exact hfresh
    · cases made
  | step reached allowed moved ih =>
    intro id
    exact hturn _ id _ _ reached.sound allowed (ih id) (reached.sound.turn moved id)

end BashDevice

end MyTeam.Bash
