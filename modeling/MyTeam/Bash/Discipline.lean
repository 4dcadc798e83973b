import MyTeam.Bash.Results

/-!
# The discipline of the pool

No more jobs have a slot than the device allows, no two of them belong to one source, and a
queue exists only behind a job with a slot. The jobs of a source start in the order of their
numbers, which is the order in which their requests were accepted: a queue is sorted, all that
waits in it is younger than all that has started, and only its head is started. A job that is
passed over has expired in the queue.
-/

namespace MyTeam.Bash

open MyTeam.Py

/-- What is due stays due. -/
theorem Number.sub_le_zero_mono {deadline : Number} {now later : ℚ} (hle : now ≤ later)
    (h : (deadline.sub (.finite now)).le (.finite 0) = true) :
    (deadline.sub (.finite later)).le (.finite 0) = true := by
  cases deadline with
  | finite q =>
    simp only [Number.sub, Number.neg, Number.add, Number.le, decide_eq_true_eq] at h ⊢
    exact (add_le_add_right (neg_le_neg hle) q).trans h
  | posInf => exact h
  | negInf => exact h
  | nan => exact h

namespace BashDevice

/-- A driver was made for the job. -/
def Started (d : BashDevice) (id : ℕ) : Prop := (d.drivers id).phase ≠ .absent

/-- What no move changes: a job keeps its source, and its deadline unless it is running; a new job
has not expired. -/
structure Frame (d d' : BashDevice) : Prop where
  maxJobs : d'.maxJobs = d.maxJobs
  now : d.now ≤ d'.now
  source : ∀ id < d.seq, (d'.table id).source = (d.table id).source
  deadline : ∀ id < d.seq, (d.table id).state ≠ .running → (d'.table id).deadlineAt = (d.table id).deadlineAt
  fresh : ∀ id < d'.seq, d.seq ≤ id → (d'.table id).state ≠ .expired

/-- How a move changes the slots and the queues, and which job it starts. -/
inductive Flow (d d' : BashDevice) : Prop where
  | keep (jobs : d'.jobs = d.jobs) (pending : d'.pending = d.pending)
      (started : ∀ id, d'.Started id ↔ d.Started id)
  | enqueue (source : String) (jobs : d'.jobs = d.jobs)
      (pending : d'.pending = Function.update d.pending source (d.pending source ++ [d.seq]))
      (started : ∀ id, d'.Started id ↔ d.Started id)
  | begin (room : (d.jobs.length : ℤ) < d.maxJobs) (jobs : d'.jobs = d.jobs ++ [d.seq])
      (pending : d'.pending = d.pending) (idle : d.pending (d'.table d.seq).source = [])
      (started : ∀ id, d'.Started id ↔ d.Started id ∨ id = d.seq)
  | release (id : ℕ) (held : id ∈ d.jobs) (jobs : d'.jobs = d.jobs.filter (· ≠ id))
      (pending : d'.pending = d.pending) (started : ∀ id, d'.Started id ↔ d.Started id)
  | handOver (id next : ℕ) (rest : List ℕ) (source : String) (held : id ∈ d.jobs)
      (queue : d.pending source = next :: rest) (jobs : d'.jobs = d.jobs.filter (· ≠ id) ++ [next])
      (pending : d'.pending = Function.update d.pending source rest)
      (started : ∀ id, d'.Started id ↔ d.Started id ∨ id = next)
  | expire (id : ℕ) (source : String) (jobs : d'.jobs = d.jobs)
      (pending : d'.pending = Function.update d.pending source ((d.pending source).erase id))
      (started : ∀ id, d'.Started id ↔ d.Started id)

variable {d d' : BashDevice} {id : ℕ}

/-- Nothing has changed but what is kept anyway. -/
theorem Frame.of_table (maxJobs : d'.maxJobs = d.maxJobs) (seq : d'.seq = d.seq) (now : d.now ≤ d'.now)
    (table : d'.table = d.table) : Frame d d' :=
  ⟨maxJobs, now, fun _ _ => by rw [table], fun _ _ _ => by rw [table],
    fun _ hnew hold => absurd (seq ▸ hnew) (not_lt.mpr hold)⟩

/-- A change of one record that keeps the source and the deadline. -/
theorem Frame.of_update {job : Job} (maxJobs : d'.maxJobs = d.maxJobs) (seq : d'.seq = d.seq) (now : d'.now = d.now)
    (table : d'.table = Function.update d.table id job) (source : job.source = (d.table id).source)
    (deadline : (d.table id).state ≠ .running → job.deadlineAt = (d.table id).deadlineAt) : Frame d d' := by
  refine ⟨maxJobs, now.ge, fun other _ => ?_, fun other _ hstate => ?_,
    fun _ hnew hold => absurd (seq ▸ hnew) (not_lt.mpr hold)⟩
  · by_cases hother : other = id
    · rw [table, hother, Function.update_self, source]
    · rw [table, Function.update_of_ne hother]
  · by_cases hother : other = id
    · subst hother
      rw [table, Function.update_self, deadline hstate]
    · rw [table, Function.update_of_ne hother]

/-- A record is changed afterwards. -/
theorem Frame.edit {f : Job → Job} (h : Frame d d') (source : ∀ job, (f job).source = job.source)
    (deadline : ∀ job, (f job).deadlineAt = job.deadlineAt) (state : ∀ job, (f job).state = job.state) :
    Frame d (d'.edit id f) := by
  refine ⟨h.maxJobs, h.now, fun other hother => ?_, fun other hother hstate => ?_, fun other hnew hold => ?_⟩
  · rw [← h.source other hother]
    by_cases hself : other = id <;> simp [BashDevice.edit, hself, source]
  · rw [← h.deadline other hother hstate]
    by_cases hself : other = id <;> simp [BashDevice.edit, hself, deadline]
  · have hfresh := h.fresh other hnew hold
    by_cases hself : other = id
    · subst hself
      simpa [BashDevice.edit, state] using hfresh
    · simpa [BashDevice.edit, hself] using hfresh

/-- A record is changed afterwards. -/
theorem Flow.edit {f : Job → Job} (h : Flow d d') (source : ∀ job, (f job).source = job.source) :
    Flow d (d'.edit id f) := by
  cases h with
  | keep jobs pending started => exact .keep jobs pending started
  | enqueue source jobs pending started => exact .enqueue source jobs pending started
  | begin room jobs pending idle started =>
    refine .begin room jobs pending ?_ started
    by_cases hself : d.seq = id <;> simpa [BashDevice.edit, hself, source] using idle
  | release other held jobs pending started => exact .release other held jobs pending started
  | handOver other next rest source held queue jobs pending started =>
    exact .handOver other next rest source held queue jobs pending started
  | expire other source jobs pending started => exact .expire other source jobs pending started

/-- A driver that moves on was started before. -/
theorem started_drive {driver : Driver} (hdriver : driver.phase ≠ .absent) (hid : d.Started id) (other : ℕ) :
    (d.drive id driver).Started other ↔ d.Started other := by
  by_cases hother : other = id
  · subst hother
    simpa [Started, BashDevice.drive, hdriver] using hid
  · simp [Started, BashDevice.drive, hother]

/-- A way to send leaves the slots, the queues and the drivers alone. -/
theorem Sends.jobs {send : BashDevice → Sent → BashDevice} {answer : Window → Window} (h : Sends id send answer)
    (d : BashDevice) (event : Sent) : (send d event).jobs = d.jobs ∧ (send d event).pending = d.pending ∧
      (send d event).drivers = d.drivers ∧ (send d event).table = d.table ∧
      (send d event).maxJobs = d.maxJobs ∧ (send d event).seq = d.seq ∧ (send d event).now = d.now := by
  rw [h]
  exact ⟨rfl, rfl, rfl, rfl, rfl, rfl, rfl⟩

/-- A driver concludes: its slot is free, or goes to the first job in the queue. -/
theorem Sound.flow_conclude (h : d.Sound) (hid : (d.drivers id).phase = .holding)
    {send : BashDevice → Sent → BashDevice} {answer : Window → Window} (hsend : Sends id send answer)
    (error : Option String) : Frame d (d.conclude id send error) ∧ Flow d (d.conclude id send error) := by
  have hheld : id ∈ d.jobs := (h.slots id).mpr hid
  have hreturned (e : BashDevice) (hstarted : e.Started id) (other : ℕ) :
      (e.drive id .returned).Started other ↔ e.Started other := started_drive (by simp [Driver.phase]) hstarted other
  have hstarted : d.Started id := by simp [Started, hid]
  unfold BashDevice.conclude
  dsimp only
  obtain ⟨hjobs, hpendings, hdrivers, htable, hmax, hseq, hnow⟩ :=
    hsend.jobs (d.finish id) ((d.finish id).result id error)
  generalize send (d.finish id) ((d.finish id).result id error) = reported at *
  have hsame (other : ℕ) : reported.Started other ↔ d.Started other := by
    rw [Started, Started, hdrivers]
    rfl
  cases hpending : d.pending (d.table id).source with
  | nil =>
    rw [wakeSource_nil (by rw [hpendings]; exact hpending)]
    refine ⟨.of_table hmax hseq hnow.ge htable, .release id hheld hjobs hpendings fun other => ?_⟩
    exact (hreturned _ ((hsame id).mpr hstarted) other).trans (hsame other)
  | cons next rest =>
    rw [wakeSource_cons (by rw [hpendings]; exact hpending)]
    have hrunning : Function.update reported.table next { reported.table next with state := .running } =
        Function.update d.table next { reported.table next with state := .running } := by
      rw [htable]
      rfl
    refine ⟨.of_update hmax hseq hnow hrunning ?_ ?_, .handOver id next rest (d.table id).source hheld hpending ?_ ?_
      fun other => ?_⟩
    · rw [htable]
      rfl
    · rw [htable]
      exact fun _ => rfl
    · simp [BashDevice.drive, hjobs, BashDevice.finish]
    · simp [BashDevice.drive, hpendings, BashDevice.finish]
    · have hwoken (other : ℕ) : Started { reported with
          pending := Function.update reported.pending (d.table id).source rest
          jobs := reported.jobs ++ [next]
          table := Function.update reported.table next { reported.table next with state := .running }
          drivers := Function.update reported.drivers next .ready } other ↔
            d.Started other ∨ other = next := by
        by_cases hother : other = next
        · simp [Started, hother, Driver.phase]
        · simpa [Started, hother] using hsame other
      exact (hreturned _ ((hwoken id).mpr (Or.inl hstarted)) other).trans (hwoken other)

/-- A move that leaves the slots and the queues alone. -/
theorem still_emit {event : Sent} : Frame d (d.emit event) ∧ Flow d (d.emit event) :=
  ⟨.of_table rfl rfl le_rfl rfl, .keep rfl rfl fun _ => Iff.rfl⟩

/-- A change of one record that keeps its source, and its deadline unless it is running. -/
theorem still_edit {f : Job → Job} (source : (f (d.table id)).source = (d.table id).source)
    (deadline : (d.table id).state ≠ .running → (f (d.table id)).deadlineAt = (d.table id).deadlineAt) :
    Frame d (d.edit id f) ∧ Flow d (d.edit id f) :=
  ⟨.of_update rfl rfl rfl rfl source deadline, .keep rfl rfl fun _ => Iff.rfl⟩

/-- An accepted request. -/
theorem Sound.flow_accept (h : d.Sound) {source cmd : String} {cwd toolCallId : Value} {timeout deadline : Number}
    (room : (d.jobs.length : ℤ) < d.maxJobs) :
    Frame d (d.accept source cmd cwd toolCallId timeout deadline) ∧
      Flow d (d.accept source cmd cwd toolCallId timeout deadline) := by
  have hne {other : ℕ} (hother : other < d.seq) : other ≠ d.seq := Nat.ne_of_lt hother
  have hlast {other : ℕ} (hnew : other < d.seq + 1) (hold : d.seq ≤ other) : other = d.seq := by omega
  unfold BashDevice.accept
  split
  next hbusy =>
    refine ⟨⟨rfl, le_rfl, fun other hother => ?_, fun other hother _ => ?_, fun other hnew hold => ?_⟩,
      .enqueue source rfl rfl fun _ => Iff.rfl⟩
    · simp [enlist, hne hother]
    · simp [enlist, hne hother]
    · simp [enlist, hlast hnew hold]
  next hbusy =>
    refine ⟨⟨rfl, le_rfl, fun other hother => ?_, fun other hother _ => ?_, fun other hnew hold => ?_⟩,
      .begin room rfl rfl ?_ fun other => ?_⟩
    · simp [enlist, hne hother]
    · simp [enlist, hne hother]
    · simp [enlist, hlast hnew hold]
    · by_contra hqueue
      exact hbusy (h.waiting source (by simpa [enlist] using hqueue))
    · by_cases hother : other = d.seq
      · simp [Started, hother, Driver.phase]
      · simp [Started, hother]

/-- Every request. -/
theorem Sound.flow_respond (h : d.Sound) {source : String} {request : Request} :
    Frame d (d.respond source request) ∧ Flow d (d.respond source request) := by
  cases request with
  | run cmd cwd toolCallId timeout deadline =>
    simp only [BashDevice.respond]
    unfold BashDevice.onRun
    split
    · exact still_emit
    next hroom =>
    split
    · exact still_emit
    split
    · exact still_emit
    split
    · split
      · exact still_emit
      split
      · exact still_emit
      · exact h.flow_accept (not_le.mp hroom)
    · exact still_emit
  | status job offset =>
    simp only [BashDevice.respond]
    unfold BashDevice.onStatus
    split
    · exact still_emit
    dsimp only
    split
    · exact still_emit
    split
    · exact still_emit
    · exact still_emit
  | kill job =>
    simp only [BashDevice.respond]
    unfold BashDevice.onKill
    split
    · exact still_emit
    split
    · exact still_emit
    · exact still_edit rfl fun _ => rfl
  | extend job seconds =>
    simp only [BashDevice.respond]
    unfold BashDevice.onExtend
    split
    · exact still_emit
    dsimp only
    split
    · exact still_emit
    next hrunning =>
    split
    · split
      · exact still_emit
      split
      · exact still_emit
      · exact still_edit rfl fun hstate => absurd hstate hrunning
    · exact still_emit
  | unknown command => exact still_emit

/-- A driver under way moves on. -/
theorem still_drive (hid : (d.drivers id).phase = .holding) {driver : Driver} (hdriver : driver.phase = .holding) :
    Frame d (d.drive id driver) ∧ Flow d (d.drive id driver) :=
  ⟨.of_table rfl rfl le_rfl rfl,
    .keep rfl rfl (started_drive (by simp [hdriver]) (by simp [Started, hid]))⟩

/-- A subprocess was started. -/
theorem still_launch (hid : (d.drivers id).phase = .holding) : Frame d (d.launch id) ∧ Flow d (d.launch id) := by
  have hstarted : d.Started id := by simp [Started, hid]
  unfold BashDevice.launch
  dsimp only
  split
  · exact ⟨.of_update rfl rfl rfl rfl rfl fun _ => rfl,
      .keep rfl rfl (started_drive (by simp [Driver.phase]) hstarted)⟩
  · have hsends : ∀ e event, BashDevice.deliver e id event = _ := sends_deliver id
    rw [hsends]
    exact ⟨.of_update rfl rfl rfl rfl rfl fun _ => rfl,
      .keep rfl rfl (started_drive (by simp [Driver.phase]) hstarted)⟩

/-- The output has ended. -/
theorem still_reachEof (hid : (d.drivers id).phase = .holding) {driver : Driver}
    (hdriver : driver.phase = .holding) : Frame d (d.reachEof id driver) ∧ Flow d (d.reachEof id driver) :=
  ⟨.of_update rfl rfl rfl rfl rfl fun _ => rfl,
    .keep rfl rfl (started_drive (by simp [hdriver]) (by simp [Started, BashDevice.edit, hid]))⟩

/-- Reading raised an exception. -/
theorem Sound.flow_readFails (h : d.Sound) (hid : (d.drivers id).phase = .holding) {message : String} :
    Frame d (d.readFails id message) ∧ Flow d (d.readFails id message) := by
  have hconcluded := h.flow_conclude hid (sends_emit id) (some message)
  unfold BashDevice.readFails
  dsimp only
  split
  · exact ⟨hconcluded.1.edit (fun _ => rfl) (fun _ => rfl) fun _ => rfl, hconcluded.2.edit fun _ => rfl⟩
  · exact hconcluded

/-- A round of the watch. -/
theorem flow_watchRound : Frame d (d.watchRound id) ∧ Flow d (d.watchRound id) := by
  unfold BashDevice.watchRound
  dsimp only
  split
  · split
    · exact ⟨.of_update rfl rfl rfl rfl rfl fun _ => rfl, .keep rfl rfl fun _ => Iff.rfl⟩
    · split
      · exact ⟨.of_update rfl rfl rfl rfl rfl fun _ => rfl,
          .expire id (d.table id).source rfl rfl fun _ => Iff.rfl⟩
      · exact ⟨.of_table rfl rfl le_rfl rfl, .keep rfl rfl fun _ => Iff.rfl⟩
  · exact ⟨.of_table rfl rfl le_rfl rfl, .keep rfl rfl fun _ => Iff.rfl⟩

/-- Every move. -/
theorem Sound.flow (h : d.Sound) {move : Move} (moved : d.step move = some d') : Frame d d' ∧ Flow d d' := by
  cases move with
  | request source request =>
    cases moved
    exact h.flow_respond
  | advance now =>
    simp only [BashDevice.step] at moved
    split at moved
    next hle =>
      cases moved
      exact ⟨.of_table rfl rfl hle rfl, .keep rfl rfl fun _ => Iff.rfl⟩
    next => cases moved
  | watch id =>
    simp only [BashDevice.step] at moved
    split at moved
    · cases moved
      exact flow_watchRound
    · split at moved
      · cases moved
      · cases moved
        exact flow_watchRound
    · cases moved
  | start id =>
    simp only [BashDevice.step] at moved
    split at moved
    next hdriver =>
      cases moved
      exact still_drive (by rw [hdriver]; rfl) rfl
    next => cases moved
  | launch id =>
    simp only [BashDevice.step] at moved
    split at moved
    next hdriver =>
      cases moved
      exact still_launch (by rw [hdriver]; rfl)
    next => cases moved
  | launchFails id message =>
    simp only [BashDevice.step] at moved
    split at moved
    next hdriver =>
      cases moved
      exact h.flow_conclude (by rw [hdriver]; rfl) (sends_deliver id) (some message)
    next => cases moved
  | launchRaises id =>
    simp only [BashDevice.step] at moved
    split at moved
    next hdriver =>
      cases moved
      exact still_drive (by rw [hdriver]; rfl) rfl
    next => cases moved
  | output id chunk =>
    have happend : ((d.table id).append d.outputCap chunk).source = (d.table id).source ∧
        ((d.table id).append d.outputCap chunk).deadlineAt = (d.table id).deadlineAt := by
      unfold Job.append
      dsimp only
      split <;> simp
    have hedit := still_edit (d := d) happend.1 fun _ => happend.2
    simp only [BashDevice.step] at moved
    split at moved
    · split at moved
      · cases moved
      · cases moved
        exact hedit
    · split at moved
      · cases moved
      · cases moved
        exact hedit
    · cases moved
  | eof id =>
    simp only [BashDevice.step] at moved
    split at moved
    next hdriver =>
      cases moved
      exact still_reachEof (by rw [hdriver]; rfl) rfl
    next hdriver =>
      cases moved
      exact still_reachEof (by rw [hdriver]; rfl) rfl
    next => cases moved
  | readRaises id message =>
    simp only [BashDevice.step] at moved
    split at moved
    next hdriver =>
      cases moved
      exact h.flow_readFails (by rw [hdriver]; rfl)
    next hdriver =>
      cases moved
      exact h.flow_readFails (by rw [hdriver]; rfl)
    next => cases moved
  | timeout id =>
    simp only [BashDevice.step] at moved
    split at moved
    next drain hdriver =>
      cases moved
      have hsends : d.deliver id _ = _ := sends_deliver id d (.backgrounded id)
      rw [hsends]
      exact ⟨.of_table rfl rfl le_rfl rfl,
        .keep rfl rfl (started_drive (by simp [Driver.phase]) (by simp [Started, hdriver, Driver.phase]))⟩
    next => cases moved
  | exit id code =>
    simp only [BashDevice.step] at moved
    split at moved
    · split at moved
      · cases moved
        exact still_edit rfl fun _ => rfl
      · cases moved
    · cases moved
  | reap id =>
    simp only [BashDevice.step] at moved
    split at moved
    · split at moved
      · cases moved
      · cases moved
        exact still_edit rfl fun _ => rfl
    · cases moved
  | resume id =>
    simp only [BashDevice.step] at moved
    split at moved
    · cases moved
    split at moved
    next hdriver =>
      cases moved
      exact h.flow_conclude (by rw [hdriver]; rfl) (sends_deliver id) none
    next hdriver =>
      cases moved
      exact h.flow_conclude (by rw [hdriver]; rfl) (sends_emit id) none
    next => cases moved

/-- The slots are bounded; a queue is sorted and all in it is younger than what has started; a job
that expired before it was started is due. -/
structure Lined (d : BashDevice) : Prop where
  room : (d.jobs.length : ℤ) ≤ max d.maxJobs 0
  nodup : d.jobs.Nodup
  sorted : ∀ source, (d.pending source).Pairwise (· < ·)
  younger : ∀ source, ∀ id ∈ d.pending source, ∀ other, d.Started other →
    (d.table other).source = source → other < id
  lapsed : ∀ id < d.seq, ¬ d.Started id → (d.table id).state = .expired → d.Due id

/-- A job that was started exists. -/
theorem Sound.lt_of_started (h : d.Sound) (hid : d.Started id) : id < d.seq := by
  by_contra hnot
  exact hid (h.fresh id (not_lt.mp hnot))

/-- A new device has no jobs. -/
theorem Lined.new {maxJobs : ℤ} {timeout deadline maxDeadline : Number} {outputCap completedCap : ℕ}
    {defaultCwd : Value} {now : ℚ}
    (made : new maxJobs timeout deadline maxDeadline outputCap completedCap defaultCwd now = some d) :
    d.Lined := by
  unfold BashDevice.new at made
  split at made
  · cases made
    constructor <;> simp
  · cases made

/-- A slot is given up. -/
theorem Lined.room_filter (h : d.Lined) (hid : id ∈ d.jobs) :
    (d.jobs.filter (· ≠ id)).length + 1 = d.jobs.length := by
  have herase : d.jobs.filter (· ≠ id) = d.jobs.erase id := by
    rw [h.nodup.erase_eq_filter]
    exact List.filter_congr fun other _ => by by_cases hother : other = id <;> simp [hother]
  rw [herase, List.length_erase_of_mem hid]
  exact Nat.sub_add_cancel (List.length_pos_of_mem hid)

/-- No more slots are taken than there are. -/
theorem Lined.room_flow (h : d.Lined) (hframe : Frame d d') (hflow : Flow d d') :
    (d'.jobs.length : ℤ) ≤ max d'.maxJobs 0 := by
  have hroom := h.room
  rw [hframe.maxJobs]
  cases hflow with
  | keep jobs pending started => rwa [jobs]
  | enqueue source jobs pending started => rwa [jobs]
  | begin room jobs pending idle started =>
    rw [jobs, List.length_append, List.length_singleton]
    omega
  | release id held jobs pending started =>
    have hfree := h.room_filter held
    rw [jobs]
    omega
  | handOver id next rest source held queue jobs pending started =>
    have hfree := h.room_filter held
    rw [jobs, List.length_append, List.length_singleton]
    omega
  | expire id source jobs pending started => rwa [jobs]

/-- Every slot is taken by one job. -/
theorem Lined.nodup_flow (h : d.Lined) (hsound : d.Sound) (hflow : Flow d d') : d'.jobs.Nodup := by
  cases hflow with
  | keep jobs pending started => rw [jobs]; exact h.nodup
  | enqueue source jobs pending started => rw [jobs]; exact h.nodup
  | begin room jobs pending idle started =>
    rw [jobs, List.nodup_append]
    refine ⟨h.nodup, List.nodup_singleton _, fun id hid other hother => ?_⟩
    rw [List.mem_singleton.mp hother]
    exact (hsound.lt_of_holding ((hsound.slots id).mp hid)).ne
  | release id held jobs pending started => rw [jobs]; exact h.nodup.filter _
  | handOver id next rest source held queue jobs pending started =>
    rw [jobs, List.nodup_append]
    refine ⟨h.nodup.filter _, List.nodup_singleton _, fun other hother waiting hwaiting heq => ?_⟩
    rw [List.mem_singleton.mp hwaiting] at heq
    have hholding := (hsound.slots other).mp (List.mem_filter.mp hother).1
    obtain ⟨hlt, -, hq⟩ := (hsound.queues next source).mp (by simp [queue])
    simp [heq, (hsound.queued next hlt hq).1] at hholding
  | expire id source jobs pending started => rw [jobs]; exact h.nodup

/-- The queues stay sorted. -/
theorem Lined.sorted_flow (h : d.Lined) (hsound : d.Sound) (hflow : Flow d d') (name : String) :
    (d'.pending name).Pairwise (· < ·) := by
  have hsorted := h.sorted name
  cases hflow with
  | keep jobs pending started => rwa [pending]
  | enqueue source jobs pending started =>
    rw [pending]
    by_cases hname : name = source
    · subst hname
      rw [Function.update_self, List.pairwise_append]
      refine ⟨hsorted, List.pairwise_singleton _ _, fun id hid other hother => ?_⟩
      rw [List.mem_singleton.mp hother]
      exact ((hsound.queues id name).mp hid).1
    · rwa [Function.update_of_ne hname]
  | begin room jobs pending idle started => rwa [pending]
  | release id held jobs pending started => rwa [pending]
  | handOver id next rest source held queue jobs pending started =>
    rw [pending]
    by_cases hname : name = source
    · subst hname
      rw [Function.update_self]
      rw [queue] at hsorted
      exact (List.pairwise_cons.mp hsorted).2
    · rwa [Function.update_of_ne hname]
  | expire id source jobs pending started =>
    rw [pending]
    by_cases hname : name = source
    · subst hname
      rw [Function.update_self]
      exact hsorted.sublist List.erase_sublist
    · rwa [Function.update_of_ne hname]

/-- What waits stays younger than what has started. -/
theorem Lined.younger_flow (h : d.Lined) (hsound : d.Sound) (hframe : Frame d d') (hflow : Flow d d')
    (name : String) (id : ℕ) (hid : id ∈ d'.pending name) (other : ℕ) (hstarted : d'.Started other)
    (hsource : (d'.table other).source = name) : other < id := by
  have hbefore (hother : d.Started other) : (d.table other).source = name :=
    (hframe.source other (hsound.lt_of_started hother)).symm.trans hsource
  have hkept (hother : d.Started other) (hmem : id ∈ d.pending name) : other < id :=
    h.younger name id hmem other hother (hbefore hother)
  cases hflow with
  | keep jobs pending started => exact hkept ((started other).mp hstarted) (pending ▸ hid)
  | enqueue source jobs pending started =>
    have hother := (started other).mp hstarted
    rw [pending] at hid
    by_cases hname : name = source
    · subst hname
      rw [Function.update_self, List.mem_append, List.mem_singleton] at hid
      rcases hid with hmem | rfl
      · exact hkept hother hmem
      · exact hsound.lt_of_started hother
    · rw [Function.update_of_ne hname] at hid
      exact hkept hother hid
  | begin room jobs pending idle started =>
    rw [pending] at hid
    rcases (started other).mp hstarted with hother | rfl
    · exact hkept hother hid
    · rw [← hsource, idle] at hid
      cases hid
  | release done held jobs pending started => exact hkept ((started other).mp hstarted) (pending ▸ hid)
  | handOver done next rest source held queue jobs pending started =>
    rw [pending] at hid
    by_cases hname : name = source
    · subst hname
      rw [Function.update_self] at hid
      rcases (started other).mp hstarted with hother | rfl
      · exact hkept hother (by rw [queue]; exact List.mem_cons_of_mem _ hid)
      · have hsorted := h.sorted name
        rw [queue] at hsorted
        exact (List.pairwise_cons.mp hsorted).1 id hid
    · rw [Function.update_of_ne hname] at hid
      rcases (started other).mp hstarted with hother | rfl
      · exact hkept hother hid
      · obtain ⟨hlt, hown, -⟩ := (hsound.queues other source).mp (by simp [queue])
        exact absurd (hsource.symm.trans ((hframe.source other hlt).trans hown)) hname
  | expire done source jobs pending started =>
    have hother := (started other).mp hstarted
    rw [pending] at hid
    by_cases hname : name = source
    · subst hname
      rw [Function.update_self] at hid
      exact hkept hother (List.mem_of_mem_erase hid)
    · rw [Function.update_of_ne hname] at hid
      exact hkept hother hid

/-- A job that is due and not running stays due. -/
theorem Frame.due (h : Frame d d') (hid : id < d.seq) (hstate : (d.table id).state ≠ .running) (hdue : d.Due id) :
    d'.Due id := by
  unfold Due at hdue ⊢
  rw [h.deadline id hid hstate]
  exact Number.sub_le_zero_mono h.now hdue

/-- A job that expired before it was started is due. -/
theorem Lined.lapsed_turn (h : d.Lined) (hsound : d.Sound) (hframe : Frame d d') {move : Move}
    (hturn : Turn d id move (d'.life id)) (hid : id < d.seq) (hstarted : ¬ d'.Started id)
    (hexpired : (d'.table id).state = .expired) : d'.Due id := by
  have hwas (hd : ¬ d.Started id) (he : (d.table id).state = .expired) : d'.Due id :=
    hframe.due hid (by simp [he]) (h.lapsed id hid hd he)
  generalize hlife : d'.life id = v at hturn
  have hdriver : d'.drivers id = v.driver := congrArg Life.driver hlife
  have hstate : (d'.table id).state = v.state := congrArg Life.state hlife
  rw [Started, hdriver] at hstarted
  rw [hstate] at hexpired
  cases hturn with
  | still => exact hwas hstarted hexpired
  | enqueue fresh => exact absurd hid (by simp [fresh])
  | begin fresh => exact absurd hid (by simp [fresh])
  | kill running => cases hexpired
  | wake lt queued => cases hexpired
  | start ready => simp [Driver.phase] at hstarted
  | launchWindow launching => simp [Driver.phase] at hstarted
  | launchBackground launching => simp [Driver.phase] at hstarted
  | launchFails launching => simp [Driver.phase] at hstarted
  | launchRaises launching => simp [Driver.phase] at hstarted
  | eofWindow reading => simp [Driver.phase] at hstarted
  | eofBackground reading => simp [Driver.phase] at hstarted
  | readRaises reading => simp [Driver.phase] at hstarted
  | timeout draining => simp [Driver.phase] at hstarted
  | exit proc alive => exact hwas hstarted hexpired
  | reap proc dead => exact hwas hstarted hexpired
  | resumeWindow waiting reaped => simp [Driver.phase] at hstarted
  | resumeBackground waiting reaped => simp [Driver.phase] at hstarted
  | expireRunning due running started =>
    exact absurd (hsound.driven hid (by simp [running]) (by simp [running])) hstarted
  | expireQueued lt due queued => exact hframe.due hid (by simp [queued]) due
  | giveUp due queued idle => exact hwas hstarted hexpired
  | sleep => exact hwas hstarted hexpired

/-- Every move keeps the jobs lined up. -/
theorem Lined.step (h : d.Lined) (hsound : d.Sound) {move : Move} (moved : d.step move = some d') : d'.Lined := by
  obtain ⟨hframe, hflow⟩ := hsound.flow moved
  refine ⟨h.room_flow hframe hflow, h.nodup_flow hsound hflow, h.sorted_flow hsound hflow,
    h.younger_flow hsound hframe hflow, fun id hid hstarted hexpired => ?_⟩
  by_cases hlt : id < d.seq
  · exact h.lapsed_turn hsound hframe (hsound.turn moved id) hlt hstarted hexpired
  · exact absurd hexpired (hframe.fresh id hid (not_lt.mp hlt))

end BashDevice

end MyTeam.Bash
