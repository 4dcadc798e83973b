import MyTeam.Bash.Output
import MyTeam.Py.Utf8

/-!
# Reading the output on

The owner of a job reads its output while it arrives, from the start, and passes back the offset of
each reply. The replies are the slices of the whole output between the offsets; what was trimmed is
skipped by a reply that only says where the buffer begins. Each reply is decoded on its own, so that the
texts are those of the output exactly if no read that returns anything starts within a character.
-/

namespace MyTeam.Bash

open MyTeam.Py

/-- The text of a reply. -/
def Status.text (reply : Status) : List Char := Utf8.decode reply.output

/-- What happens at a job: more output arrives, or its owner reads on. -/
inductive Access where
  | output (chunk : List UInt8)
  | read

/-- The output that arrives. -/
def outputs : List Access → List UInt8
  | [] => []
  | .output chunk :: accesses => chunk ++ outputs accesses
  | .read :: accesses => outputs accesses

/-- The number of reads. -/
def reads : List Access → ℕ
  | [] => 0
  | .output _ :: accesses => reads accesses
  | .read :: accesses => reads accesses + 1

/-- A read with its reply, and the output that had arrived by then. -/
structure Reading where
  requested : ℕ
  reply : Status
  stream : List UInt8

/-- A reading against the whole output: a slice of it, or the place where the buffer begins. The mark says
that the slice ends before the output that had arrived. -/
structure Reading.Exact (outputCap : ℕ) (whole : List UInt8) (reading : Reading) : Prop where
  arrived : reading.stream <+: whole
  served : reading.reply.reset = false → reading.requested ≤ reading.reply.offset ∧
    reading.reply.offset ≤ reading.stream.length ∧
    reading.reply.output = (whole.take reading.reply.offset).drop reading.requested
  restarted : reading.reply.reset = true → reading.reply.output = [] ∧
    reading.reply.offset = reading.stream.length - outputCap ∧
    (reading.requested < reading.reply.offset ∨ reading.stream.length < reading.requested)
  truncated : reading.reply.truncated = true ↔
    reading.reply.reset = false ∧ reading.reply.offset < reading.stream.length

/-- Every read passes the offset of the reply before it. -/
def Resumes : ℕ → List Reading → ℕ → Prop
  | first, [], last => first = last
  | first, reading :: rest, last => reading.requested = first ∧ Resumes reading.reply.offset rest last

/-- One more read. -/
theorem Resumes.concat {first last : ℕ} {readings : List Reading} {reading : Reading} (h : Resumes first readings last)
    (hlast : reading.requested = last) : Resumes first (readings ++ [reading]) reading.reply.offset := by
  induction readings generalizing first with
  | nil => exact ⟨hlast.trans (Eq.symm h), rfl⟩
  | cons earlier rest ih => exact ⟨h.1, ih h.2⟩

/-- How a read is answered. -/
inductive Replies (job : Job) (requested : ℕ) (reply : Status) : Prop where
  | restarts (outside : requested < job.trimmed ∨ job.trimmed + job.buffer.length < requested)
      (output : reply.output = [])
      (offset : reply.offset = job.trimmed) (reset : reply.reset = true) (truncated : reply.truncated = false)
  | serves (low : job.trimmed ≤ requested) (high : requested ≤ job.trimmed + job.buffer.length)
      (output : reply.output = (job.buffer.drop (requested - job.trimmed)).take statusChunk)
      (offset : reply.offset = requested + reply.output.length) (reset : reply.reset = false)
      (truncated : reply.truncated = true ↔ reply.offset < job.trimmed + job.buffer.length)

/-- The owner of a job who reads its output, with the device. -/
structure Reader where
  device : BashDevice
  offset : ℕ
  stream : List UInt8
  readings : List Reading

namespace Reader

/-- Before there is any output. -/
def start (d : BashDevice) (id : ℕ) : Reader := ⟨d.received id [], 0, [], []⟩

section Definitions

variable (source : String) (id : ℕ)

/-- Output arrives or is read. -/
def access (r : Reader) : Access → Reader
  | .output chunk =>
    { r with device := r.device.edit id (·.append r.device.outputCap chunk), stream := r.stream ++ chunk }
  | .read =>
    let device := r.device.onStatus source (some id) (some r.offset)
    match device.sent.getLast? with
    | some (.status reply) =>
      { r with device, offset := reply.offset, readings := r.readings ++ [⟨r.offset, reply, r.stream⟩] }
    | _ => { r with device }

/-- One after the other. -/
def accessAll (r : Reader) (accesses : List Access) : Reader := accesses.foldl (access source id) r

end Definitions

/-- The texts of all replies. -/
def text (r : Reader) : List Char := r.readings.flatMap (·.reply.text)

variable {r : Reader} {d : BashDevice} {source : String} {id : ℕ} {accesses : List Access}

/-- A status request of the owner. -/
theorem onStatus_owned (found : d.findOwned source (some id) = some id) (offset : ℕ) : ∃ reply,
    d.onStatus source (some id) (some offset) = d.emit (.status reply) ∧ Replies (d.table id) offset reply := by
  unfold BashDevice.onStatus
  simp only [found]
  split
  next houtside => exact ⟨_, rfl, .restarts (by omega) rfl rfl rfl rfl⟩
  next hinside => exact ⟨_, rfl, .serves (by omega) (by omega) rfl rfl rfl decide_eq_true_iff⟩

/-- A read is answered. -/
theorem access_read (found : r.device.findOwned source (some id) = some id) : ∃ reply,
    r.access source id .read = { r with
      device := r.device.emit (.status reply), offset := reply.offset
      readings := r.readings ++ [⟨r.offset, reply, r.stream⟩] } ∧ Replies (r.device.table id) r.offset reply := by
  obtain ⟨reply, hstatus, hreplies⟩ := onStatus_owned found r.offset
  refine ⟨reply, ?_, hreplies⟩
  unfold access
  simp only [hstatus, BashDevice.emit, List.getLast?_concat]

/-- A read of a job that is not there or of another owner is refused. -/
theorem access_read_of_none (missing : r.device.findOwned source (some id) = none) :
    r.access source id .read = { r with device := r.device.refuse source .unknownJob } := by
  unfold access BashDevice.onStatus
  simp [missing, BashDevice.refuse, BashDevice.emit]

/-- Only the owner finds the job, and finds this one. -/
theorem findOwned_eq {d : BashDevice} :
    d.findOwned source (some id) = some id ∨ d.findOwned source (some id) = none := by
  unfold BashDevice.findOwned
  rw [Option.filter_some]
  split
  · exact Or.inl rfl
  · exact Or.inr rfl

/-- The job is still found. -/
theorem findOwned_access {a : Access} :
    (r.access source id a).device.findOwned source (some id) = r.device.findOwned source (some id) := by
  cases a with
  | output chunk =>
    have hsource : (((r.device.table id).append r.device.outputCap chunk)).source = (r.device.table id).source := by
      unfold Job.append
      dsimp only
      split <;> rfl
    unfold access BashDevice.findOwned BashDevice.edit
    simp only [Option.filter_some, Function.update_self, hsource]
  | read =>
    rcases @findOwned_eq source id r.device with hfound | hmissing
    · obtain ⟨reply, hread, -⟩ := access_read hfound
      rw [hread]
      rfl
    · rw [access_read_of_none hmissing]
      rfl

/-- What a served read returns is the slice between the offsets. -/
theorem slice_of_length {stream : List UInt8} {n m : ℕ} :
    (stream.drop n).take m = (stream.take (n + ((stream.drop n).take m).length)).drop n := by
  rw [List.drop_take, Nat.add_sub_cancel_left]
  exact List.take_eq_take_iff.mpr (by simp)

/-- An answered read, against the output that has arrived. -/
theorem exact_of_replies {job : Job} {outputCap requested : ℕ} {stream : List UInt8} {reply : Status}
    (held : job.Holds outputCap stream) (replies : Replies job requested reply) :
    (Reading.mk requested reply stream).Exact outputCap stream := by
  have hlength := held.length_buffer
  have htotal := held.total
  have htrimmed : job.trimmed = stream.length - outputCap := by omega
  cases replies with
  | restarts outside output offset reset truncated =>
    refine ⟨List.prefix_refl _, fun h => ?_, fun _ => ⟨output, offset.trans htrimmed, ?_⟩, ?_⟩
    · cases reset.symm.trans h
    · dsimp only
      omega
    · simp [reset, truncated]
  | serves low high output offset reset truncated =>
    have hslice : reply.output = (stream.drop requested).take statusChunk := by
      rw [output, held.buffer, List.drop_drop, ← htrimmed, Nat.add_sub_cancel' low]
    have hshort : reply.output.length ≤ stream.length - requested := by
      rw [hslice, List.length_take, List.length_drop]
      exact Nat.min_le_right _ _
    refine ⟨List.prefix_refl _, fun _ => ⟨?_, ?_, ?_⟩, fun h => ?_, ?_⟩
    · exact offset.symm ▸ Nat.le_add_right _ _
    · dsimp only
      omega
    · dsimp only
      rw [offset, hslice]
      exact slice_of_length
    · cases reset.symm.trans h
    · rw [truncated, htotal, and_iff_right reset]

/-- A reading stays exact when more output arrives. -/
theorem exact_append {outputCap : ℕ} {whole chunk : List UInt8} {reading : Reading}
    (h : reading.Exact outputCap whole) :
    reading.Exact outputCap (whole ++ chunk) := by
  refine ⟨h.arrived.trans (List.prefix_append _ _), fun hreset => ?_, h.restarted, h.truncated⟩
  obtain ⟨hfrom, hto, hslice⟩ := h.served hreset
  refine ⟨hfrom, hto, ?_⟩
  rw [hslice, List.take_append_of_le_length (hto.trans h.arrived.length_le)]

/-- The reader follows the output. -/
structure Follows (outputCap id : ℕ) (r : Reader) : Prop where
  cap : r.device.outputCap = outputCap
  held : (r.device.table id).Holds outputCap r.stream
  exact : ∀ reading ∈ r.readings, reading.Exact outputCap r.stream
  resumes : Resumes 0 r.readings r.offset

/-- Before there is any output. -/
theorem follows_start : (start d id).Follows d.outputCap id := by
  refine ⟨rfl, ?_, fun reading h => (by cases h), rfl⟩
  have htable : (start d id).device.table id = (d.table id).silent := by
    unfold start
    rw [BashDevice.table_received]
    rfl
  rw [htable]
  exact Job.holds_silent

/-- More output, or a read. -/
theorem Follows.access {outputCap : ℕ} {a : Access} (h : r.Follows outputCap id) (positive : 0 < outputCap) :
    (r.access source id a).Follows outputCap id := by
  cases a with
  | output chunk =>
    refine ⟨h.cap, ?_, fun reading hreading => exact_append (h.exact reading hreading), h.resumes⟩
    have htable : (r.access source id (.output chunk)).device.table id =
        (r.device.table id).append r.device.outputCap chunk := by
      simp [Reader.access, BashDevice.edit]
    rw [htable, h.cap]
    exact h.held.append positive
  | read =>
    rcases @findOwned_eq source id r.device with hfound | hmissing
    · obtain ⟨reply, hread, hreplies⟩ := access_read hfound
      rw [hread]
      refine ⟨h.cap, h.held, fun reading hreading => ?_, h.resumes.concat rfl⟩
      rcases List.mem_append.mp hreading with hearlier | hlast
      · exact h.exact reading hearlier
      · rw [List.mem_singleton.mp hlast]
        exact exact_of_replies h.held hreplies
    · rw [access_read_of_none hmissing]
      exact ⟨h.cap, h.held, h.exact, h.resumes⟩

/-- The whole run. -/
theorem Follows.accessAll {outputCap : ℕ} (h : r.Follows outputCap id) (positive : 0 < outputCap) :
    (r.accessAll source id accesses).Follows outputCap id := by
  induction accesses generalizing r with
  | nil => exact h
  | cons a accesses ih => exact ih (h.access positive)

/-- All output arrives. -/
theorem stream_accessAll : (r.accessAll source id accesses).stream = r.stream ++ outputs accesses := by
  induction accesses generalizing r with
  | nil => exact (List.append_nil _).symm
  | cons a accesses ih =>
    refine (ih (r := r.access source id a)).trans ?_
    cases a with
    | output chunk => exact List.append_assoc _ _ _
    | read =>
      rcases @findOwned_eq source id r.device with hfound | hmissing
      · obtain ⟨reply, hread, -⟩ := access_read hfound
        rw [hread]
        rfl
      · rw [access_read_of_none hmissing]
        rfl

/-- Every read of the owner is answered. -/
theorem length_readings (found : r.device.findOwned source (some id) = some id) :
    (r.accessAll source id accesses).readings.length = r.readings.length + reads accesses := by
  induction accesses generalizing r with
  | nil => rfl
  | cons a accesses ih =>
    refine (ih (r := r.access source id a) (findOwned_access.trans found)).trans ?_
    cases a with
    | output chunk => rfl
    | read =>
      obtain ⟨reply, hread, -⟩ := access_read found
      rw [hread, reads, List.length_append, List.length_singleton]
      omega

/-- The job is found from the start. -/
theorem findOwned_start : (start d id).device.findOwned source (some id) = d.findOwned source (some id) := by
  have hsource : ((d.table id).silent.appendAll d.outputCap []).source = (d.table id).source := rfl
  unfold start BashDevice.received BashDevice.findOwned BashDevice.edit
  simp only [Option.filter_some, Function.update_self, hsource]

/-- What the owner of a job gets of its output. -/
structure Paged (d : BashDevice) (source : String) (id : ℕ) (accesses : List Access) (r : Reader) : Prop where
  stream : r.stream = outputs accesses
  exact : ∀ reading ∈ r.readings, reading.Exact d.outputCap (outputs accesses)
  resumes : Resumes 0 r.readings r.offset
  answered : d.findOwned source (some id) = some id → r.readings.length = reads accesses

/-- Reading on delivers the output, apart from what was trimmed before it was read. -/
theorem paged (d : BashDevice) (source : String) (id : ℕ) (accesses : List Access) (positive : 0 < d.outputCap) :
    Paged d source id accesses ((start d id).accessAll source id accesses) := by
  have hfollows : ((start d id).accessAll source id accesses).Follows d.outputCap id := follows_start.accessAll positive
  have hstream : ((start d id).accessAll source id accesses).stream = outputs accesses := stream_accessAll
  refine ⟨hstream, fun reading hreading => hstream ▸ hfollows.exact reading hreading, hfollows.resumes,
    fun hfound => ?_⟩
  exact (length_readings (findOwned_start.trans hfound)).trans (Nat.zero_add _)

/-- A job with a buffer of two bytes of which three arrive before they are read. -/
theorem paged_trimmed : ∃ d, BashDevice.Reachable (fun _ _ => True) d ∧ d.findOwned "a" (some 0) = some 0 ∧
    Paged d "a" 0 [.output [97, 98], .output [99], .read, .read]
      ((start d 0).accessAll "a" 0 [.output [97, 98], .output [99], .read, .read]) := by
  have hrun : ((BashDevice.new 8 (.finite 30) (.finite 60) (.finite 300) 2 64 .none 0).bind
      (·.run (fun _ _ => True) [.request "a" (BashDevice.bashRun "printf abc")])).any
      (fun d => d.findOwned "a" (some 0) = some 0 ∧ 0 < d.outputCap) = true := by
    decide +kernel
  obtain ⟨d, h, hfound, hpositive⟩ := BashDevice.Reachable.of_run _ _ hrun
  exact ⟨d, h, hfound, paged d "a" 0 _ hpositive⟩

/-- A reply that restarts is not marked, though there is more to read. -/
theorem restart_unmarked : ∃ d, BashDevice.Reachable (fun _ _ => True) d ∧ 0 < d.outputCap ∧
    ¬ ∀ reading ∈ ((start d 0).accessAll "a" 0 [.output [97, 98], .read]).readings,
      (reading.reply.truncated = true ↔ reading.reply.offset < reading.stream.length) := by
  have hrun : ((BashDevice.new 8 (.finite 30) (.finite 60) (.finite 300) 1 64 .none 0).bind
      (·.run (fun _ _ => True) [.request "a" (BashDevice.bashRun "printf ab")])).any
      (fun d => 0 < d.outputCap ∧ ¬ ∀ reading ∈ ((start d 0).accessAll "a" 0 [.output [97, 98], .read]).readings,
        (reading.reply.truncated = true ↔ reading.reply.offset < reading.stream.length)) = true := by
    decide +kernel
  exact BashDevice.Reachable.of_run _ _ hrun

/-- Every read that returns anything starts between two characters. A read goes on where the one before it ended:
after a page, or at the end of what had arrived. -/
def Aligned (text : List Char) : ℕ → ℕ → List Access → Prop
  | _, _, [] => True
  | position, arrived, .output chunk :: accesses => Aligned text position (arrived + chunk.length) accesses
  | position, arrived, .read :: accesses =>
    (position < arrived → Utf8.Boundary text position) ∧
      Aligned text (min (position + statusChunk) arrived) arrived accesses

/-- The buffer of the job is all of its output. -/
structure Keeps (source : String) (id : ℕ) (r : Reader) : Prop where
  found : r.device.findOwned source (some id) = some id
  buffer : (r.device.table id).buffer = r.stream
  trimmed : (r.device.table id).trimmed = 0
  offset : r.offset ≤ r.stream.length

/-- More output that the cap leaves room for. -/
theorem Keeps.output {chunk : List UInt8} (h : r.Keeps source id)
    (fits : (r.stream ++ chunk).length ≤ r.device.outputCap) :
    (r.access source id (.output chunk)).Keeps source id := by
  have htable : (r.access source id (.output chunk)).device.table id =
      { r.device.table id with buffer := r.stream ++ chunk } := by
    have happend : (r.device.table id).append r.device.outputCap chunk =
        { r.device.table id with buffer := r.stream ++ chunk } := by
      unfold Job.append
      dsimp only
      rw [h.buffer, if_neg (Nat.not_lt.mpr fits)]
    simp only [access, BashDevice.edit, Function.update_self, happend]
  refine ⟨findOwned_access.trans h.found, by rw [htable]; rfl, by rw [htable]; exact h.trimmed, ?_⟩
  change r.offset ≤ (r.stream ++ chunk).length
  rw [List.length_append]
  exact h.offset.trans (Nat.le_add_right _ _)

/-- A read returns the output from the offset on, up to a page. -/
theorem Keeps.read (h : r.Keeps source id) : ∃ slice, slice = (r.stream.drop r.offset).take statusChunk ∧
    (r.access source id .read).Keeps source id ∧ (r.access source id .read).stream = r.stream ∧
    (r.access source id .read).device.outputCap = r.device.outputCap ∧
    (r.access source id .read).offset = r.offset + slice.length ∧
    (r.access source id .read).text = r.text ++ Utf8.decode slice := by
  obtain ⟨reply, hread, hreplies⟩ := access_read h.found
  have hoffset := h.offset
  cases hreplies with
  | restarts outside output offset reset truncated =>
    rw [h.buffer, h.trimmed] at outside
    omega
  | serves low high output offset reset truncated =>
    rw [h.buffer, h.trimmed, Nat.sub_zero] at output
    have hshort : reply.output.length ≤ r.stream.length - r.offset := by
      rw [output, List.length_take, List.length_drop]
      exact Nat.min_le_right _ _
    have hle : reply.offset ≤ r.stream.length := by omega
    refine ⟨reply.output, output, ?_⟩
    rw [hread]
    refine ⟨⟨h.found, h.buffer, h.trimmed, hle⟩, rfl, rfl, offset, ?_⟩
    unfold text
    rw [List.flatMap_append, List.flatMap_singleton]
    rfl

/-- The texts are right at the end exactly if they are right so far and no read that is still to come and returns
anything starts within a character. -/
theorem text_accessAll_iff {whole : List Char} (keeps : r.Keeps source id)
    (complete : r.stream ++ outputs accesses = Utf8.encode whole)
    (fits : (Utf8.encode whole).length ≤ r.device.outputCap)
    (longer : (Utf8.decode ((Utf8.encode whole).take r.offset)).length ≤ r.text.length) :
    (r.accessAll source id accesses).text =
        Utf8.decode ((Utf8.encode whole).take (r.accessAll source id accesses).offset) ↔
      r.text = Utf8.decode ((Utf8.encode whole).take r.offset) ∧ Aligned whole r.offset r.stream.length accesses := by
  induction accesses generalizing r with
  | nil => exact (and_iff_left trivial).symm
  | cons a accesses ih =>
    cases a with
    | output chunk =>
      have hcomplete : (r.stream ++ chunk) ++ outputs accesses = Utf8.encode whole :=
        (List.append_assoc _ _ _).trans complete
      have hfits : (r.stream ++ chunk).length ≤ r.device.outputCap := by
        rw [← hcomplete, List.length_append] at fits
        omega
      refine (ih (keeps.output hfits) hcomplete fits longer).trans ?_
      have hlength : (r.access source id (.output chunk)).stream.length = r.stream.length + chunk.length :=
        List.length_append
      rw [hlength]
      exact Iff.rfl
    | read =>
      obtain ⟨slice, hslice, hkeeps, hstream, hcap, hoffset, htext⟩ := keeps.read
      have hwhole : ((Utf8.encode whole).take (r.offset + slice.length)).drop r.offset = slice := by
        have hshort : r.offset + slice.length ≤ r.stream.length := hoffset ▸ hstream ▸ hkeeps.offset
        have hcut : slice = (r.stream.take (r.offset + slice.length)).drop r.offset := hslice ▸ slice_of_length
        rw [← complete, List.take_append_of_le_length hshort]
        exact hcut.symm
      have hposition : r.offset + slice.length = min (r.offset + statusChunk) r.stream.length := by
        have hoffset := keeps.offset
        rw [hslice, List.length_take, List.length_drop]
        omega
      have hmore : r.offset < r.stream.length ↔ 0 < slice.length := by
        rw [hslice, List.length_take, List.length_drop, lt_min_iff, Nat.sub_pos_iff_lt]
        exact (and_iff_right (by decide)).symm
      have harrived : r.stream.length ≤ (Utf8.encode whole).length := by
        rw [← complete, List.length_append]
        exact Nat.le_add_right _ _
      have hrest := ih hkeeps (by rw [hstream]; exact complete) (hcap ▸ fits)
      rw [hoffset, htext, hstream, List.length_append] at hrest
      rw [accessAll, List.foldl_cons, ← accessAll, Aligned, ← hposition, hmore]
      by_cases hbetween : Utf8.Boundary whole r.offset
      · have hdecode := @Utf8.decode_take_of_boundary _ _ (r.offset + slice.length) hbetween (Nat.le_add_right _ _)
        rw [hwhole] at hdecode
        rw [hdecode, List.length_append, List.append_left_inj] at hrest
        rw [hrest (Nat.add_le_add_right longer _), and_iff_right fun _ => hbetween]
      · obtain hnone | hsome := Nat.eq_zero_or_pos slice.length
        · have hnothing : r.text ++ Utf8.decode slice = r.text := by
            rw [List.eq_nil_of_length_eq_zero hnone]
            exact List.append_nil _
          rw [hnothing, ← List.length_append, hnothing] at hrest
          rw [hnone, Nat.add_zero] at hrest ⊢
          rw [hrest longer, and_iff_right fun h => absurd h (Nat.lt_irrefl 0)]
        · obtain hb | ⟨before, c, after, hwithin⟩ := Utf8.boundary_or_within (keeps.offset.trans harrived)
          · exact absurd hb hbetween
          have hlonger := Utf8.length_decode_of_within hwithin (Nat.lt_add_of_pos_right hsome)
          rw [hwhole] at hlonger
          rw [hrest (by omega)]
          refine iff_of_false (fun h => ?_) fun h => hbetween (h.2.1 hsome)
          have hlength := congrArg List.length h.1
          rw [List.length_append] at hlength
          omega

/-- The texts of the replies are the text of what was read exactly if no read that returns anything starts within a
character. -/
theorem text_eq_iff (d : BashDevice) (source : String) (id : ℕ) (accesses : List Access) (whole : List Char)
    (found : d.findOwned source (some id) = some id) (complete : outputs accesses = Utf8.encode whole)
    (fits : (outputs accesses).length ≤ d.outputCap) :
    ((start d id).accessAll source id accesses).text =
        Utf8.decode ((outputs accesses).take ((start d id).accessAll source id accesses).offset) ↔
      Aligned whole 0 0 accesses := by
  have htable : (start d id).device.table id = (d.table id).silent := BashDevice.table_received
  have hkeeps : (start d id).Keeps source id :=
    ⟨findOwned_start.trans found, congrArg Job.buffer htable, congrArg Job.trimmed htable, Nat.le_refl 0⟩
  have hrun := @text_accessAll_iff _ _ _ accesses _ hkeeps complete (complete ▸ fits) (Nat.le_refl 0)
  rw [complete, hrun]
  exact and_iff_right rfl

/-- A job that writes `né`, and is read after the first character. -/
theorem text_eq_iff_between : ∃ d, BashDevice.Reachable (fun _ _ => True) d ∧
    (((start d 0).accessAll "a" 0 [.output [0x6E], .read, .output [0xC3, 0xA9], .read]).text =
      Utf8.decode ([0x6E, 0xC3, 0xA9].take
        ((start d 0).accessAll "a" 0 [.output [0x6E], .read, .output [0xC3, 0xA9], .read]).offset) ↔
      Aligned ['n', 'é'] 0 0 [.output [0x6E], .read, .output [0xC3, 0xA9], .read]) := by
  have hrun : ((BashDevice.new 8 (.finite 30) (.finite 60) (.finite 300) 3 64 .none 0).bind
      (·.run (fun _ _ => True) [.request "a" (BashDevice.bashRun "printf né")])).any
      (fun d => d.findOwned "a" (some 0) = some 0 ∧ 3 ≤ d.outputCap) = true := by
    decide +kernel
  obtain ⟨d, h, hfound, hfits⟩ := BashDevice.Reachable.of_run _ _ hrun
  exact ⟨d, h, text_eq_iff d "a" 0 _ _ hfound (by decide +kernel) hfits⟩

/-- A job that writes `é`, and is read after the first byte of it: two replacement characters are returned. -/
theorem character_split : ∃ d, BashDevice.Reachable (fun _ _ => True) d ∧ d.findOwned "a" (some 0) = some 0 ∧
    Utf8.encode ['é'] = [0xC3, 0xA9] ∧ 2 ≤ d.outputCap ∧
    ¬ ((start d 0).accessAll "a" 0 [.output [0xC3], .read, .output [0xA9], .read]).text =
      Utf8.decode ([0xC3, 0xA9].take
        ((start d 0).accessAll "a" 0 [.output [0xC3], .read, .output [0xA9], .read]).offset) := by
  have hrun : ((BashDevice.new 8 (.finite 30) (.finite 60) (.finite 300) 2 64 .none 0).bind
      (·.run (fun _ _ => True) [.request "a" (BashDevice.bashRun "printf é")])).any
      (fun d => d.findOwned "a" (some 0) = some 0 ∧ Utf8.encode ['é'] = [0xC3, 0xA9] ∧ 2 ≤ d.outputCap ∧
        ¬ ((start d 0).accessAll "a" 0 [.output [0xC3], .read, .output [0xA9], .read]).text =
          Utf8.decode ([0xC3, 0xA9].take
            ((start d 0).accessAll "a" 0 [.output [0xC3], .read, .output [0xA9], .read]).offset)) = true := by
    decide +kernel
  exact BashDevice.Reachable.of_run _ _ hrun

end Reader

end MyTeam.Bash
