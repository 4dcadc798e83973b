import MyTeam.Py.Number
import MyTeam.Py.Value

/-!
# The bash device

A request starts a job or queues it behind the job of the same source. A job has two tasks: the
driver starts the subprocess, reads its output and reports the result; the watch waits for the
deadline. The tasks, the requests and the subprocesses take their steps in any order; a step
runs from one point where a task gives up control to the next.

The answer of a request that starts a job is given through a future, its window: the result, if
the job ends in time, else the notice that it goes on in the background.
-/

namespace MyTeam.Bash

open MyTeam.Py

/-- `Job.state`. -/
inductive JobState where
  | queued
  | running
  | done
  | killed
  | expired
deriving DecidableEq

/-- A subprocess: how it exited, whether its group was sent SIGKILL before, and what asyncio
has been told of its exit. -/
structure Proc where
  exited : Option ℤ
  signalled : Bool
  returncode : Option ℤ

/-- `Job`. Jobs are numbered: the job with the identifier `j3` is job 3. -/
structure Job where
  source : String
  toolCallId : Value
  cmd : String
  cwd : Value
  createdAt : ℚ
  deadlineAt : Number
  timeout : Number
  proc : Option Proc
  buffer : List UInt8
  trimmed : ℕ
  state : JobState

/-- What `_drain` waits for: output, or the exit of the subprocess. -/
inductive Drain where
  | reading
  | waiting
deriving DecidableEq

/-- Where the driver of a job is. `window` and `background` are the two calls of `_drain`. -/
inductive Driver where
  | absent
  | ready
  | launching
  | window (drain : Drain)
  | background (drain : Drain)
  | returned
  | raised
deriving DecidableEq

/-- Where the deadline watch of a job is. -/
inductive Watch where
  | absent
  | ready
  | sleeping (wake : Number)
  | returned
deriving DecidableEq

/-- The future that a request waits for. -/
inductive Window where
  | absent
  | pending
  | answered
deriving DecidableEq

/-- The payload of `bash_result`; the content is the bytes that are decoded. -/
structure Result where
  job : ℕ
  target : String
  ok : Bool
  content : List UInt8
  exitCode : Option ℤ
  expired : Bool
  killed : Bool
  truncated : Bool
  duration : ℚ
  error : Option String
  toolCallId : Value

/-- The payload of `bash_status_result`. -/
structure Status where
  job : ℕ
  target : String
  state : JobState
  output : List UInt8
  offset : ℕ
  reset : Bool
  truncated : Bool

/-- The reasons of `bash_error`. -/
inductive Refusal where
  | unknownCommand (command : String)
  | tooManyJobs (maxJobs : ℤ)
  | missingCmd
  | notNumbers
  | overMaxDeadline (maxDeadline : Number)
  | badTimeout
  | unknownJob
  | terminal (state : JobState)
  | badSeconds

/-- What the device sends. -/
inductive Sent where
  | result (result : Result)
  | backgrounded (job : ℕ)
  | status (status : Status)
  | error (target : String) (refusal : Refusal)

/-- An argument that should be a number. -/
inductive Arg where
  | missing
  | other
  | number (value : Number)

/-- The requests. A field of another type than expected is `none`. -/
inductive Request where
  | run (cmd : Option String) (cwd toolCallId : Value) (timeout deadline : Arg)
  | status (job : Option ℕ) (offset : Option ℤ)
  | kill (job : Option ℕ)
  | extend (job : Option ℕ) (seconds : Arg)
  | unknown (command : String)

/-- The state of a `BashDevice`, with all jobs that were ever made and their tasks. -/
structure BashDevice where
  maxJobs : ℤ
  defaultTimeout : Number
  defaultDeadline : Number
  maxDeadline : Number
  outputCap : ℕ
  completedCap : ℕ
  defaultCwd : Value
  now : ℚ
  seq : ℕ
  table : ℕ → Job
  jobs : List ℕ
  pending : String → List ℕ
  sourceBusy : String → Bool
  completed : List ℕ
  drivers : ℕ → Driver
  watches : ℕ → Watch
  windows : ℕ → Window
  sent : List Sent

/-- `RESULT_PREVIEW`. -/
def resultPreview : ℕ := 64 * 1024

/-- `STATUS_CHUNK`. -/
def statusChunk : ℕ := 64 * 1024

/-- `xs[-n:]`. -/
def lastOf {α : Type} (n : ℕ) (xs : List α) : List α := if n = 0 then xs else xs.drop (xs.length - n)

/-- A character that `str.strip` removes. -/
def isSpace (c : Char) : Bool :=
  let n := c.toNat
  9 ≤ n && n ≤ 13 || 28 ≤ n && n ≤ 32 || n = 133 || n = 160 || n = 5760 || 8192 ≤ n && n ≤ 8202 ||
    n = 8232 || n = 8233 || n = 8239 || n = 8287 || n = 12288

/-- The subprocess has not exited. -/
def Proc.alive (p : Proc) : Bool := p.exited.isNone

/-- `os.killpg(pid, SIGKILL)`; a process that is gone is not found. -/
def Proc.killpg (p : Proc) : Proc := { p with signalled := p.signalled || p.alive }

/-- A subprocess that has just been started. -/
def Proc.started : Proc := ⟨none, false, none⟩

namespace Job

/-- `_append`. -/
def append (outputCap : ℕ) (chunk : List UInt8) (job : Job) : Job :=
  let buffer := job.buffer ++ chunk
  if outputCap < buffer.length then
    { job with trimmed := job.trimmed + (buffer.length - outputCap), buffer := lastOf outputCap buffer }
  else { job with buffer }

/-- Send SIGKILL to the group of the subprocess, if there is one. -/
def killpg (job : Job) : Job := { job with proc := job.proc.map Proc.killpg }

/-- `job.proc.returncode`. -/
def returncode (job : Job) : Option ℤ := job.proc.bind Proc.returncode

end Job

namespace BashDevice

/-- A device that was just constructed; `timeout < deadline <= max_deadline` is checked. -/
def new (maxJobs : ℤ) (timeout deadline maxDeadline : Number) (outputCap completedCap : ℕ)
    (defaultCwd : Value) (now : ℚ) : Option BashDevice :=
  if timeout.lt deadline && deadline.le maxDeadline then
    some {
      maxJobs, defaultTimeout := timeout, defaultDeadline := deadline, maxDeadline, outputCap,
      completedCap, defaultCwd, now
      seq := 0
      table := fun _ => ⟨"", .none, "", .none, 0, .nan, .nan, none, [], 0, .running⟩
      jobs := []
      pending := fun _ => []
      sourceBusy := fun _ => false
      completed := []
      drivers := fun _ => .absent
      watches := fun _ => .absent
      windows := fun _ => .absent
      sent := [] }
  else none

section Updates

variable (d : BashDevice)

/-- Change the record of a job. -/
def edit (id : ℕ) (f : Job → Job) : BashDevice :=
  { d with table := Function.update d.table id (f (d.table id)) }

/-- Move the driver of a job. -/
def drive (id : ℕ) (driver : Driver) : BashDevice :=
  { d with drivers := Function.update d.drivers id driver }

/-- Move the watch of a job. -/
def watch (id : ℕ) (watch : Watch) : BashDevice :=
  { d with watches := Function.update d.watches id watch }

/-- `self.emit`, and what a request returns. -/
def emit (event : Sent) : BashDevice := { d with sent := d.sent ++ [event] }

/-- `_result`. -/
def result (id : ℕ) (error : Option String) : Sent :=
  let job := d.table id
  .result {
    job := id
    target := job.source
    ok := job.state = .done && job.returncode = some 0
    content := lastOf resultPreview job.buffer
    exitCode := job.returncode
    expired := job.state = .expired
    killed := job.state = .killed
    truncated := resultPreview < job.trimmed + job.buffer.length
    duration := d.now - job.createdAt
    error
    toolCallId := job.toolCallId }

/-- `_finish`; `completed` is a deque of bounded length. -/
def finish (id : ℕ) : BashDevice :=
  { d with
    jobs := d.jobs.filter (· ≠ id)
    completed := (d.completed ++ [id]).drop (d.completed.length + 1 - d.completedCap) }

/-- `_deliver`: the answer to the window, or to the bus. -/
def deliver (id : ℕ) (event : Sent) : BashDevice :=
  if d.windows id = .pending then
    { d.emit event with windows := Function.update d.windows id .answered }
  else d.emit event

/-- `_wake_source`: start the next job of a source, or release it. -/
def wakeSource (source : String) : BashDevice :=
  match d.pending source with
  | [] => { d with sourceBusy := Function.update d.sourceBusy source false }
  | id :: rest =>
    ({ d with
      pending := Function.update d.pending source rest
      jobs := d.jobs ++ [id] }.edit id ({ · with state := .running })).drive id .ready

end Updates

section Requests

variable (d : BashDevice) (source : String)

/-- `_error`. -/
def refuse (refusal : Refusal) : BashDevice := d.emit (.error source refusal)

/-- The number that an argument stands for; `none` if it is no number. -/
def argument (default : Number) : Arg → Option Number
  | .missing => some default
  | .other => none
  | .number value => some value

/-- Make the job of a request, and its watch. -/
def enlist (cmd : String) (cwd toolCallId : Value) (timeout deadline : Number) (state : JobState) :
    BashDevice :=
  { d with
    seq := d.seq + 1
    table := Function.update d.table d.seq {
      source, toolCallId, cmd, timeout, state
      cwd := if cwd.truthy then cwd else d.defaultCwd
      createdAt := d.now
      deadlineAt := (Number.finite d.now).add deadline
      proc := none
      buffer := []
      trimmed := 0 }
    watches := Function.update d.watches d.seq .ready }

/-- `_on_run`, after the checks: queue the job behind the job of its source, or start a driver
and wait for the window. -/
def accept (cmd : String) (cwd toolCallId : Value) (timeout deadline : Number) : BashDevice :=
  if d.sourceBusy source then
    { d.enlist source cmd cwd toolCallId timeout deadline .queued with
      pending := Function.update d.pending source (d.pending source ++ [d.seq]) }
  else
    { d.enlist source cmd cwd toolCallId timeout deadline .running with
      jobs := d.jobs ++ [d.seq]
      sourceBusy := Function.update d.sourceBusy source true
      windows := Function.update d.windows d.seq .pending
      drivers := Function.update d.drivers d.seq .ready }

/-- `_on_run`. -/
def onRun (cmd : Option String) (cwd toolCallId : Value) (timeout deadline : Arg) : BashDevice :=
  if d.maxJobs ≤ d.jobs.length then d.refuse source (.tooManyJobs d.maxJobs)
  else match cmd with
  | none => d.refuse source .missingCmd
  | some cmd =>
    if cmd.toList.all isSpace then d.refuse source .missingCmd
    else match argument d.defaultTimeout timeout, argument d.defaultDeadline deadline with
    | some timeout, some deadline =>
      if d.maxDeadline.lt deadline then d.refuse source (.overMaxDeadline d.maxDeadline)
      else if !((Number.finite 0).le timeout && timeout.le deadline) then d.refuse source .badTimeout
      else d.accept source cmd cwd toolCallId timeout deadline
    | _, _ => d.refuse source .notNumbers

/-- `_find_owned`. -/
def findOwned (job : Option ℕ) : Option ℕ :=
  job.filter fun id => (id ∈ d.jobs ∨ id ∈ d.completed) ∧ (d.table id).source = source

/-- `_on_kill`. If the subprocess was not started yet, `job.proc.pid` raises after the state
has been set. -/
def onKill (job : Option ℕ) : BashDevice :=
  match d.findOwned source job with
  | none => d.refuse source .unknownJob
  | some id =>
    if (d.table id).state ≠ .running then d.refuse source (.terminal (d.table id).state)
    else d.edit id fun job => { job.killpg with state := .killed }

/-- `_on_extend`. -/
def onExtend (job : Option ℕ) (seconds : Arg) : BashDevice :=
  match d.findOwned source job with
  | none => d.refuse source .unknownJob
  | some id =>
    let job := d.table id
    if job.state ≠ .running then d.refuse source (.terminal job.state)
    else match seconds with
    | .number extra =>
      if extra.le (.finite 0) then d.refuse source .badSeconds
      else if d.maxDeadline.lt ((job.deadlineAt.add extra).sub (.finite job.createdAt)) then
        d.refuse source (.overMaxDeadline d.maxDeadline)
      else d.edit id fun job => { job with deadlineAt := job.deadlineAt.add extra }
    | _ => d.refuse source .badSeconds

/-- `_on_status`; an offset that is no int is out of range. -/
def onStatus (job : Option ℕ) (offset : Option ℤ) : BashDevice :=
  match d.findOwned source job with
  | none => d.refuse source .unknownJob
  | some id =>
    let job := d.table id
    let total := job.trimmed + job.buffer.length
    let reply (output : List UInt8) (offset : ℕ) (reset truncated : Bool) : BashDevice :=
      d.emit (.status ⟨id, job.source, job.state, output, offset, reset, truncated⟩)
    match offset with
    | none => reply [] job.trimmed true false
    | some offset =>
      if offset < job.trimmed ∨ (total : ℤ) < offset then reply [] job.trimmed true false
      else
        let chunk := (job.buffer.drop (offset.toNat - job.trimmed)).take statusChunk
        reply chunk (offset.toNat + chunk.length) false (offset.toNat + chunk.length < total)

/-- `respond`, up to its first wait. -/
def respond : Request → BashDevice
  | .run cmd cwd toolCallId timeout deadline => d.onRun source cmd cwd toolCallId timeout deadline
  | .status job offset => d.onStatus source job offset
  | .kill job => d.onKill source job
  | .extend job seconds => d.onExtend source job seconds
  | .unknown command => d.refuse source (.unknownCommand command)

end Requests

section Tasks

variable (d : BashDevice) (id : ℕ)

/-- The last steps of a driver: free the slot, report the result, hand the source over. -/
def conclude (send : BashDevice → Sent → BashDevice) (error : Option String) : BashDevice :=
  let finished := d.finish id
  ((send finished (finished.result id error)).wakeSource (d.table id).source).drive id .returned

/-- The subprocess has been started: the driver reads its output, in the window or, if there is
none, in the background. -/
def launch : BashDevice :=
  let launched := d.edit id ({ · with proc := some .started })
  if (Number.finite 0).lt (d.table id).timeout then launched.drive id (.window .reading)
  else (launched.deliver id (.backgrounded id)).drive id (.background .reading)

/-- The output has ended. -/
def reachEof (driver : Driver) : BashDevice :=
  (d.edit id fun job => { job with state := if job.state = .running then .done else job.state }).drive
    id driver

/-- Reading raised an exception: the driver reports it and the group is killed. -/
def readFails (message : String) : BashDevice :=
  let concluded := d.conclude id BashDevice.emit (some message)
  if (d.table id).returncode = none then concluded.edit id Job.killpg else concluded

/-- Take a job out of the queue of its source. -/
def dequeue : BashDevice :=
  let source := (d.table id).source
  { d with pending := Function.update d.pending source ((d.pending source).erase id) }

/-- One round of `_deadline_watch`. -/
def watchRound : BashDevice :=
  let job := d.table id
  let wait := job.deadlineAt.sub (.finite d.now)
  if wait.le (.finite 0) then
    if job.state = .running ∧ job.proc.isSome ∧ job.returncode = none then
      (d.edit id fun job => { job.killpg with state := .expired }).watch id .returned
    else if job.state = .queued then
      let expired := (d.dequeue id).edit id ({ · with state := .expired })
      (expired.emit (expired.result id none)).watch id .returned
    else d.watch id .returned
  else d.watch id (.sleeping ((Number.finite d.now).add wait))

end Tasks

/-- What happens next. -/
inductive Move where
  | request (source : String) (request : Request)
  | advance (now : ℚ)
  | watch (id : ℕ)
  | start (id : ℕ)
  | launch (id : ℕ)
  | launchFails (id : ℕ) (message : String)
  | launchRaises (id : ℕ)
  | output (id : ℕ) (chunk : List UInt8)
  | eof (id : ℕ)
  | readRaises (id : ℕ) (message : String)
  | timeout (id : ℕ)
  | exit (id : ℕ) (code : ℤ)
  | reap (id : ℕ)
  | resume (id : ℕ)

/-- Make a move, if it is possible. `launchFails` is an `OSError`, `launchRaises` any other
exception; `timeout` ends the window, also if reading raised a `TimeoutError`. -/
def step (d : BashDevice) : Move → Option BashDevice
  | .request source request => some (d.respond source request)
  | .advance now => if d.now ≤ now then some { d with now } else none
  | .watch id =>
    match d.watches id with
    | .ready => some (d.watchRound id)
    | .sleeping wake => if (Number.finite d.now).lt wake then none else some (d.watchRound id)
    | _ => none
  | .start id =>
    match d.drivers id with
    | .ready => some (d.drive id .launching)
    | _ => none
  | .launch id =>
    match d.drivers id with
    | .launching => some (d.launch id)
    | _ => none
  | .launchFails id message =>
    match d.drivers id with
    | .launching => some (d.conclude id (·.deliver id) (some message))
    | _ => none
  | .launchRaises id =>
    match d.drivers id with
    | .launching => some (d.drive id .raised)
    | _ => none
  | .output id chunk =>
    match d.drivers id with
    | .window .reading | .background .reading =>
      if chunk = [] then none else some (d.edit id (Job.append d.outputCap chunk))
    | _ => none
  | .eof id =>
    match d.drivers id with
    | .window .reading => some (d.reachEof id (.window .waiting))
    | .background .reading => some (d.reachEof id (.background .waiting))
    | _ => none
  | .readRaises id message =>
    match d.drivers id with
    | .window .reading | .background .reading => some (d.readFails id message)
    | _ => none
  | .timeout id =>
    match d.drivers id with
    | .window drain => some ((d.deliver id (.backgrounded id)).drive id (.background drain))
    | _ => none
  | .exit id code =>
    match (d.table id).proc with
    | some p => if p.alive then some (d.edit id ({ · with proc := some { p with exited := some code } }))
      else none
    | none => none
  | .reap id =>
    match (d.table id).proc with
    | some p => if p.alive ∨ p.returncode.isSome then none
      else some (d.edit id ({ · with proc := some { p with returncode := p.exited } }))
    | none => none
  | .resume id =>
    if (d.table id).returncode = none then none
    else match d.drivers id with
    | .window .waiting => some (d.conclude id (·.deliver id) none)
    | .background .waiting => some (d.conclude id BashDevice.emit none)
    | _ => none

/-- The states of the runs of a device whose moves obey a rule. -/
inductive Reachable (rule : BashDevice → Move → Prop) : BashDevice → Prop where
  | new {maxJobs : ℤ} {timeout deadline maxDeadline : Number} {outputCap completedCap : ℕ}
      {defaultCwd : Value} {now : ℚ} {d : BashDevice}
      (made : new maxJobs timeout deadline maxDeadline outputCap completedCap defaultCwd now = some d) :
      Reachable rule d
  | step {d d' : BashDevice} {move : Move} (reached : Reachable rule d) (allowed : rule d move)
      (moved : d.step move = some d') : Reachable rule d'

section Run

variable (rule : BashDevice → Move → Prop) [∀ d move, Decidable (rule d move)]

/-- Make the moves one after the other, as long as they obey the rule. -/
def run (d : BashDevice) : List Move → Option BashDevice
  | [] => some d
  | move :: moves => if rule d move then (d.step move).bind (run · moves) else none

variable {rule}

/-- A run reaches its last state. -/
theorem Reachable.run {moves : List Move} {d d' : BashDevice} (h : Reachable rule d)
    (hrun : d.run rule moves = some d') : Reachable rule d' := by
  induction moves generalizing d with
  | nil => exact Option.some.inj hrun ▸ h
  | cons move moves ih =>
    simp only [BashDevice.run] at hrun
    split at hrun
    next hallowed =>
      obtain ⟨next, hnext, hrest⟩ := Option.bind_eq_some_iff.mp hrun
      exact ih (h.step hallowed hnext) hrest
    next => cases hrun

/-- What is found at the end of a run of a new device is found in a state that is reached. -/
theorem Reachable.of_run {maxJobs : ℤ} {timeout deadline maxDeadline : Number} {outputCap completedCap : ℕ}
    {defaultCwd : Value} {now : ℚ} (moves : List Move) (P : BashDevice → Prop) [DecidablePred P]
    (h : ((BashDevice.new maxJobs timeout deadline maxDeadline outputCap completedCap defaultCwd now).bind
      (·.run rule moves)).any (P ·) = true) : ∃ d, Reachable rule d ∧ P d := by
  obtain ⟨d, hrun, hP⟩ := (Option.any_eq_true _ _).mp h
  obtain ⟨first, hfirst, hrest⟩ := Option.bind_eq_some_iff.mp hrun
  exact ⟨d, (Reachable.new hfirst).run hrest, of_decide_eq_true hP⟩

end Run

end BashDevice

end MyTeam.Bash
