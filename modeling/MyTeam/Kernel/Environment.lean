import MyTeam.Dispatch.Workers
import MyTeam.Kernel.Processing

/-!
# What happens beside the event loop

While the loop is idle or a command waits, child processes send, receive and die, reader
threads put events on the bus, the host program puts events of its own, files change, and
the worker tasks of the kernel-mode devices serve their buckets. A worker does not give up
control between taking an event and emitting the answer, so one round is one step.

All this is calm: no registration and no handle changes, and a process at most dies, loses
its channel or is delivered events that do not stop it.
-/

namespace MyTeam.Kernel

open MyTeam.Py MyTeam.Async MyTeam.Dispatch Coroutine

/-- An event that the kernel emits for one of its identities. -/
def emission (source : String) (target : Value) (payload : List (String × Value)) : Value :=
  .dict [("target", target), ("kind", .str "application"), ("payload", .dict payload),
    ("source", .str source)]

section Emission

variable (source : String) (target : Value) (payload : List (String × Value))

@[simp] theorem emission_source : (emission source target payload).field "source" = .str source := by
  simp [emission, Value.field, List.lookup_cons]

@[simp] theorem emission_target : (emission source target payload).field "target" = target := by
  simp [emission, Value.field]

@[simp] theorem emission_kind :
    (emission source target payload).field "kind" = .str "application" := by
  simp [emission, Value.field, List.lookup_cons]

@[simp] theorem emission_payload :
    (emission source target payload).field "payload" = .dict payload := by
  simp [emission, Value.field, List.lookup_cons]

end Emission

namespace AgentOS

/-- What becomes of an emitted event: an outcome of `Processed`, or a report that the kernel
does not know the command. -/
inductive Emitted (source : String) (event : Value) (os : AgentOS) :
    Except Exc Unit → AgentOS → Prop where
  | routed {r : Except Exc Unit} {os' : AgentOS} (processed : Processed (.kernel source) event os r os') :
      Emitted source event os r os'
  | served {sender : String} (valid : os.validate event = .accepted)
      (accepted : Accepted os.registered event sender "kernel") :
      Emitted source event os (.ok ()) (os.observe (.kernel source) event event)

/-- Emitting an event. -/
theorem wp_kernelEmit {c : Contract AgentOS} {start os : AgentOS} {source : String} {target : Value}
    {payload : List (String × Value)} {Q : AgentOS → Except Exc Unit → AgentOS → Prop}
    (hw : os.Wired)
    (h : ∀ r os', Emitted source (emission source target payload) os r os' → Q start r os') :
    wp c (kernelEmit source (applicationEvent target payload)) Q start os := by
  have hstamp : (applicationEvent target payload).setItem "source" (.str source) =
      .ok (emission source target payload) := by
    simp [applicationEvent, Value.setItem, assign, emission]
  simp only [kernelEmit, wp_bind, wp_ofExcept, hstamp]
  refine wp_processWith hw (fun r os' hp => h r os' (.routed hp)) fun sender valid accepted => ?_
  have hpayload : (emission source target payload).item "payload" = .ok (.dict payload) :=
    Value.item_eq_field (emission_payload _ _ _) (by simp)
  simp only [onKernelWith, wp_bind, wp_ofExcept, hpayload, Value.get]
  split
  · exact h _ _ (.served valid accepted)
  · exact h _ _ (.served valid accepted)

/-- Replace the tasks of a device's dispatcher. -/
def setTasks (os : AgentOS) (device : Device) (tasks : BucketDispatcher Value Value) : AgentOS :=
  { os with dispatchers := Function.update os.dispatchers device tasks }

/-- Replace a process. -/
def setProc (os : AgentOS) (pid : ℕ) (p : Proc) : AgentOS :=
  { os with procs := Function.update os.procs pid p }

/-- How a returned value is understood by the dispatcher. -/
def replyOf : Value → Reply Value
  | .none => .none
  | v => if v.isStr "VOID" then .void else .event v

/-- A kernel-mode device answers an event; it is unchanged if it raises. -/
def respondAs (os : AgentOS) (device : Device) (event : Value) : AgentOS × Reply Value :=
  match device with
  | .authority =>
    match os.authority.respond event with
    | .ok (authority, reply) => ({ os with authority }, replyOf reply)
    | .error _ => (os, .exception)
  | .journal =>
    match os.journal.respond os.clock event with
    | .ok (journal, reply) => ({ os with journal }, replyOf reply)
    | .error _ => (os, .exception)

/-- Emit from a worker: the new state, and whether `emit` raised. -/
def emitFrom (os : AgentOS) (device : Device) (event : Value) : Option (AgentOS × Bool) :=
  match kernelEmit device.identity event os with
  | .returned _ os' => some (os', false)
  | .raised _ os' => some (os', true)
  | .waiting _ _ _ => none

/-- The event that a worker is answering. -/
def responding (tasks : BucketDispatcher Value Value) (i : ℕ) : Option Value :=
  match tasks.workers[i]? with
  | some ⟨_, .responding job⟩ => some job.event
  | _ => none

/-- Emit what worker `i` has to say, if it has, and end its round. -/
def emitAnswer (os : AgentOS) (device : Device) (i : ℕ) : Option Value → Option AgentOS
  | none => some os
  | some result => do
    let emitted ← os.emitFrom device result
    let done ← (emitted.1.dispatchers device).step protocol (.emitReturns i emitted.2)
    return emitted.1.setTasks device done

/-- One round of worker `i`: take the next event of its bucket, answer it, emit the answer. -/
def round (os : AgentOS) (device : Device) (i : ℕ) : Option AgentOS := do
  let taken ← (os.dispatchers device).step protocol (.get i)
  let event ← responding taken i
  let answer := os.respondAs device event
  let answered ← taken.step protocol (.respondReturns i answer.2)
  (answer.1.setTasks device answered).emitAnswer device i (answer.2.emits protocol.receipt event)

/-- A step of the rest of the system. -/
inductive Background (os : AgentOS) : AgentOS → Prop where
  | send (pid : ℕ) (value : Value) (connected : (os.procs pid).connected = true) :
      Background os (os.setProc pid { os.procs pid with outbox := (os.procs pid).outbox ++ [value] })
  | serve {pid : ℕ} {p : Proc} (served : (os.procs pid).serve = some p) :
      Background os (os.setProc pid p)
  | exit (pid : ℕ) : Background os (os.setProc pid { os.procs pid with alive := false })
  | close (pid : ℕ) : Background os (os.setProc pid { os.procs pid with connected := false })
  | read {pid : ℕ} {p : Proc} {event : Option Value} (reads : (os.procs pid).read = some (p, event)) :
      Background os { os.setProc pid p with
        eventBus := os.eventBus ++ event.toList.map fun event => (.process pid, event) }
  | put (event : Value) : Background os { os with eventBus := os.eventBus ++ [(.host, event)] }
  | edit (disk : Disk) : Background os { os with disk }
  | tick (clock : String) : Background os { os with clock }
  | begin {device : Device} {i : ℕ} {tasks : BucketDispatcher Value Value}
      (begins : (os.dispatchers device).step protocol (.start i) = some tasks) :
      Background os (os.setTasks device tasks)
  | round {device : Device} {i : ℕ} {os' : AgentOS} (serves : os.round device i = some os') :
      Background os os'

/-- The event loop of the kernel. -/
def loop : EventLoop AgentOS (Producer × Value) Exc where
  next os :=
    match os.eventBus with
    | [] => none
    | item :: rest => some (item, { os with eventBus := rest })
  body item := processEvent item.1 item.2
  background := Background

/-- `setup` accepts the configuration and leaves the kernel in this state. -/
def Boots (config : Value) (os : AgentOS) : Prop :=
  ∃ runtimeRoot disk clock limits, setup config (.new runtimeRoot disk clock limits) = .returned () os

/-- The states of the kernel's runs from a configuration. -/
def Reachable (config : Value) (rules : Rules AgentOS (Producer × Value))
    (l : LoopState AgentOS (Producer × Value) Exc) : Prop :=
  loop.Reachable rules (Boots config) l

section Scenarios

/-- A background step to perform. -/
inductive Ambient where
  | send (pid : ℕ) (value : Value)
  | serve (pid : ℕ)
  | exit (pid : ℕ)
  | close (pid : ℕ)
  | read (pid : ℕ)
  | put (event : Value)
  | begin (device : Device) (i : ℕ)
  | round (device : Device) (i : ℕ)

/-- Perform a background step. -/
def perform (os : AgentOS) : Ambient → Option AgentOS
  | .send pid value =>
    if (os.procs pid).connected then
      some (os.setProc pid { os.procs pid with outbox := (os.procs pid).outbox ++ [value] })
    else none
  | .serve pid => (os.procs pid).serve.map fun p => os.setProc pid p
  | .exit pid => some (os.setProc pid { os.procs pid with alive := false })
  | .close pid => some (os.setProc pid { os.procs pid with connected := false })
  | .read pid => (os.procs pid).read.map fun (p, event) => { os.setProc pid p with
      eventBus := os.eventBus ++ event.toList.map fun event => (.process pid, event) }
  | .put event => some { os with eventBus := os.eventBus ++ [(.host, event)] }
  | .begin device i => ((os.dispatchers device).step protocol (.start i)).map (os.setTasks device)
  | .round device i => os.round device i

/-- What is performed is a background step. -/
theorem background_of_perform (b : Ambient) (os os' : AgentOS) (h : os.perform b = some os') :
    Background os os' := by
  cases b with
  | send pid value =>
    simp only [perform] at h
    split at h
    next connected => exact Option.some.inj h ▸ .send pid value connected
    · simp at h
  | serve pid =>
    obtain ⟨p, served, rfl⟩ := Option.map_eq_some_iff.mp h
    exact .serve served
  | exit pid => exact Option.some.inj h ▸ .exit pid
  | close pid => exact Option.some.inj h ▸ .close pid
  | read pid =>
    obtain ⟨⟨p, event⟩, reads, rfl⟩ := Option.map_eq_some_iff.mp h
    exact .read reads
  | put event => exact Option.some.inj h ▸ .put event
  | begin device i =>
    obtain ⟨tasks, begins, rfl⟩ := Option.map_eq_some_iff.mp h
    exact .begin begins
  | round device i => exact .round h

/-- A process sends an event, and its reader puts it on the bus. -/
def sends (pid : ℕ) (event : Value) : List (EventLoop.Move Ambient) :=
  [.act (.send pid event), .act (.read pid), .act (.read pid), .act (.read pid), .act (.read pid)]

/-- The entry of an agent in a configuration. -/
def agentSpec (identity position : String) : Value :=
  .dict [("identity", .str identity), ("type", .str "agent"),
    ("options", .dict [("position", .str position)])]

/-- No sources and no homes. -/
def emptyDisk : Disk := ⟨fun _ => false, fun _ => .missing, fun _ => .missing⟩

/-- Every device has a source that declares nothing. -/
def plainDisk : Disk := ⟨fun _ => false, fun _ => .exports none none, fun _ => .missing⟩

/-- Every source exists and declares nothing. -/
def sourceDisk : Disk := ⟨fun _ => false, fun _ => .missing, fun _ => .exports none none⟩

/-- Boot from a configuration with this disk. -/
def boot (config : Value) (disk : Disk) : Option AgentOS :=
  match setup config (.new "/runtime" disk "" usualLimits) with
  | .returned _ os => some os
  | _ => none

/-- Boot, and play a scenario. -/
def scenario (config : Value) (disk : Disk) (moves : List (EventLoop.Move Ambient)) :
    Option (LoopState AgentOS (Producer × Value) Exc) :=
  (boot config disk).bind fun os => loop.play (fun b os => os.perform b) moves ⟨os, .idle⟩

/-- What `f` observes of a scenario. -/
def scenarioObserved {γ : Type} (config : Value) (disk : Disk) (moves : List (EventLoop.Move Ambient))
    (f : EventLoop.Move Ambient → LoopState AgentOS (Producer × Value) Exc → List γ) : List γ :=
  (boot config disk).toList.flatMap fun os =>
    loop.observed (fun b os => os.perform b) f moves ⟨os, .idle⟩

/-- The events that a scenario takes. -/
def scenarioTaken (config : Value) (disk : Disk) (moves : List (EventLoop.Move Ambient)) :
    List (AgentOS × Producer × Value) :=
  scenarioObserved config disk moves loop.takes

/-- Booting is booting. -/
theorem boots_of_boot {config : Value} {disk : Disk} {os : AgentOS} (h : boot config disk = some os) :
    Boots config os := by
  unfold boot at h
  split at h
  next os' hsetup => exact ⟨_, _, _, _, Option.some.inj h ▸ hsetup⟩
  · simp at h

/-- A scenario that obeys the rules is a run. -/
theorem reachable_of_play {config : Value} {disk : Disk} {moves : List (EventLoop.Move Ambient)}
    {rules : Rules AgentOS (Producer × Value)} {l : LoopState AgentOS (Producer × Value) Exc}
    (h : scenario config disk moves = some l)
    (htakes : ∀ taken ∈ scenarioTaken config disk moves, rules.take taken.1 taken.2)
    (hruns : ∀ run ∈ scenarioObserved config disk moves loop.runs, rules.segment run.1 run.2) :
    Reachable config rules l := by
  obtain ⟨os, hboot, hplay⟩ := Option.bind_eq_some_iff.mp h
  simp only [scenarioTaken, scenarioObserved, hboot, Option.toList_some, List.flatMap_singleton]
    at htakes hruns
  exact (EventLoop.Reachable.init (boots_of_boot hboot)).play background_of_perform htakes hruns hplay

/-- A scenario that takes allowed events is a run. -/
theorem reachable_of_scenario {config : Value} {disk : Disk} {moves : List (EventLoop.Move Ambient)}
    {take : AgentOS → Producer × Value → Prop} {l : LoopState AgentOS (Producer × Value) Exc}
    (h : scenario config disk moves = some l)
    (hallowed : ∀ taken ∈ scenarioTaken config disk moves, take taken.1 taken.2) :
    Reachable config (.taking take) l :=
  reachable_of_play h hallowed fun _ _ => trivial

/-- Every scenario is a run. -/
theorem reachable_free_of_scenario {config : Value} {disk : Disk}
    {moves : List (EventLoop.Move Ambient)} {l : LoopState AgentOS (Producer × Value) Exc}
    (h : scenario config disk moves = some l) : Reachable config .free l :=
  reachable_of_play h (fun _ _ => trivial) fun _ _ => trivial

end Scenarios

end AgentOS

/-- What may become of a process while it is not stopped by the kernel. -/
structure Proc.Later (p p' : Proc) : Prop where
  handle : p'.handle = p.handle
  spec : p'.spec = p.spec
  killed : p'.killed = p.killed
  alive : p'.alive = true → p.alive = true
  connected : p'.connected = true → p.connected = true
  delivered : ∃ events, p'.delivered = p.delivered ++ events ∧ ∀ event ∈ events, stops event = false

namespace AgentOS

/-- No registration and no handle changes, and no process is stopped by the kernel. -/
structure Calm (os os' : AgentOS) : Prop where
  runtimeRoot : os'.runtimeRoot = os.runtimeRoot
  entities : os'.entities = os.entities
  agentIds : os'.agentIds = os.agentIds
  handles : os'.handles = os.handles
  nextHandle : os'.nextHandle = os.nextHandle
  nextPid : os'.nextPid = os.nextPid
  retiring : os'.retiring = os.retiring
  procs : ∀ pid, (os.procs pid).Later (os'.procs pid)

/-- Nothing is registered, retired or started, whatever is delivered or killed. -/
structure Steady (os os' : AgentOS) : Prop where
  entities : os'.entities = os.entities
  agentIds : os'.agentIds = os.agentIds
  handles : os'.handles = os.handles
  nextHandle : os'.nextHandle = os.nextHandle
  nextPid : os'.nextPid = os.nextPid
  retiring : os'.retiring = os.retiring
  procs : ∀ pid, (os'.procs pid).handle = (os.procs pid).handle ∧
    (os'.procs pid).spec = (os.procs pid).spec ∧
    ((os'.procs pid).alive = true → (os.procs pid).alive = true)

/-- Besides, nothing is sent, read or taken from the bus, and nobody dies. -/
structure Still (os os' : AgentOS) : Prop extends Steady os os' where
  eventBus : os'.eventBus = os.eventBus
  same : ∀ pid, os'.procs pid = { os.procs pid with
    delivered := (os'.procs pid).delivered, killed := (os'.procs pid).killed }

end AgentOS

/-- An application event does not stop its receiver. -/
theorem stops_application {event : Value} (hdict : ∃ kvs, event = .dict kvs)
    (hkind : event.field "kind" = .str "application") : stops event = false := by
  obtain ⟨kvs, rfl⟩ := hdict
  have hget : (Value.dict kvs).get "kind" .none = .ok (.str "application") := by
    rw [← hkind]
    rfl
  simp [stops, terminates, hget, Value.isStr, pure, Except.pure]

namespace Proc.Later

/-- Nothing happened. -/
theorem refl (p : Proc) : p.Later p :=
  ⟨rfl, rfl, rfl, id, id, [], by simp, by simp⟩

/-- One thing after another. -/
theorem trans {p p' p'' : Proc} (h : p.Later p') (h' : p'.Later p'') : p.Later p'' := by
  obtain ⟨events, hevents, hstops⟩ := h.delivered
  obtain ⟨events', hevents', hstops'⟩ := h'.delivered
  refine ⟨h'.handle.trans h.handle, h'.spec.trans h.spec, h'.killed.trans h.killed,
    fun ha => h.alive (h'.alive ha), fun hc => h.connected (h'.connected hc),
    events ++ events', by rw [hevents', hevents, List.append_assoc], fun event hevent => ?_⟩
  rcases List.mem_append.mp hevent with hevent | hevent
  · exact hstops event hevent
  · exact hstops' event hevent

/-- A delivery of something that does not stop the process. -/
theorem push {p : Proc} {event : Value} (h : stops event = false) :
    p.Later { p with delivered := p.delivered ++ [event] } :=
  ⟨rfl, rfl, rfl, id, id, [event], rfl, by simpa using h⟩

/-- A round of the serve loop. -/
theorem serve {p p' : Proc} (h : p.serve = some p') : p.Later p' := by
  unfold Proc.serve at h
  split at h
  next halive =>
    split at h
    next event =>
      obtain rfl := Option.some.inj h
      exact ⟨rfl, rfl, rfl, fun _ => halive, id, [], by simp, by simp⟩
    next => simp at h
  next => simp at h

/-- A step of the reader. -/
theorem read {p p' : Proc} {event : Option Value} (h : p.read = some (p', event)) : p.Later p' := by
  have hfields : p' = { p with outbox := p'.outbox, reader := p'.reader } := by
    unfold Proc.read at h
    split at h
    · obtain ⟨rfl, -⟩ := Prod.mk.inj (Option.some.inj h)
      rfl
    · split at h <;>
        · obtain ⟨rfl, -⟩ := Prod.mk.inj (Option.some.inj h)
          rfl
    · split at h
      · split at h
        · simp at h
        · obtain ⟨rfl, -⟩ := Prod.mk.inj (Option.some.inj h)
          rfl
      · split at h <;>
          · obtain ⟨rfl, -⟩ := Prod.mk.inj (Option.some.inj h)
            rfl
    · obtain ⟨rfl, -⟩ := Prod.mk.inj (Option.some.inj h)
      rfl
    · simp at h
  rw [hfields]
  exact ⟨rfl, rfl, rfl, id, id, [], by simp, by simp⟩

end Proc.Later

namespace AgentOS

namespace Steady

/-- One thing after another. -/
theorem trans {os os' os'' : AgentOS} (h : Steady os os') (h' : Steady os' os'') : Steady os os'' :=
  ⟨h'.entities.trans h.entities, h'.agentIds.trans h.agentIds, h'.handles.trans h.handles,
    h'.nextHandle.trans h.nextHandle, h'.nextPid.trans h.nextPid, h'.retiring.trans h.retiring,
    fun pid => ⟨(h'.procs pid).1.trans (h.procs pid).1, (h'.procs pid).2.1.trans (h.procs pid).2.1,
      fun halive => (h.procs pid).2.2 ((h'.procs pid).2.2 halive)⟩⟩

/-- The wiring is not touched. -/
theorem wired {os os' : AgentOS} (h : Steady os os') (hw : os.Wired) : os'.Wired where
  kernel := by rw [h.entities]; exact hw.kernel
  kernel_only := by rw [h.entities]; exact hw.kernel_only
  kernelMode := by rw [h.entities]; exact hw.kernelMode
  registered := by rw [h.entities, h.nextHandle, h.handles]; exact hw.registered
  process := by
    intro handle pid hpid
    rw [h.handles] at hpid
    rw [h.nextPid, (h.procs pid).1]
    exact hw.process hpid
  spec := by
    intro pid hpid
    rw [h.nextPid] at hpid
    rw [h.handles, h.nextHandle, (h.procs pid).1, (h.procs pid).2.1]
    exact hw.spec hpid
  fresh := by
    intro pid hpid
    rw [h.nextPid] at hpid
    by_contra halive
    have := (h.procs pid).2.2 (Bool.of_not_eq_false halive)
    exact absurd (hw.fresh hpid) (by simp [this])

end Steady

namespace Calm

/-- Nothing happened. -/
theorem refl (os : AgentOS) : Calm os os :=
  ⟨rfl, rfl, rfl, rfl, rfl, rfl, rfl, fun _ => .refl _⟩

/-- One thing after another. -/
theorem trans {os os' os'' : AgentOS} (h : Calm os os') (h' : Calm os' os'') : Calm os os'' :=
  ⟨h'.runtimeRoot.trans h.runtimeRoot, h'.entities.trans h.entities, h'.agentIds.trans h.agentIds,
    h'.handles.trans h.handles, h'.nextHandle.trans h.nextHandle, h'.nextPid.trans h.nextPid,
    h'.retiring.trans h.retiring, fun pid => (h.procs pid).trans (h'.procs pid)⟩

/-- One process moves on. -/
theorem setProc {os : AgentOS} {pid : ℕ} {p : Proc} (h : (os.procs pid).Later p) :
    Calm os (os.setProc pid p) := by
  refine ⟨rfl, rfl, rfl, rfl, rfl, rfl, rfl, fun other => ?_⟩
  by_cases hpid : other = pid
  · subst hpid
    simpa [AgentOS.setProc] using h
  · simpa [AgentOS.setProc, hpid] using Proc.Later.refl _

/-- Nothing calm registers, retires or starts anything. -/
theorem steady {os os' : AgentOS} (h : Calm os os') : Steady os os' :=
  ⟨h.entities, h.agentIds, h.handles, h.nextHandle, h.nextPid, h.retiring, fun pid =>
    ⟨(h.procs pid).handle, (h.procs pid).spec, (h.procs pid).alive⟩⟩

/-- The wiring is not touched. -/
theorem wired {os os' : AgentOS} (h : Calm os os') (hw : os.Wired) : os'.Wired :=
  h.steady.wired hw

end Calm

/-- What is left alone by processing an event that is not a kernel command. -/
structure Aside (os os' : AgentOS) : Prop where
  authority : os'.authority = os.authority
  eventBus : os'.eventBus = os.eventBus
  disk : os'.disk = os.disk
  clock : os'.clock = os.clock

/-- Processing leaves the tables, the bus and the disk alone. -/
theorem Processed.aside {producer : Producer} {event : Value} {os os' : AgentOS}
    {r : Except Exc Unit} (h : Processed producer event os r os') : Aside os os' := by
  cases h <;> exact ⟨rfl, rfl, rfl, rfl⟩

namespace Still

/-- One thing after another. -/
theorem trans {os os' os'' : AgentOS} (h : Still os os') (h' : Still os' os'') : Still os os'' := by
  refine ⟨h.toSteady.trans h'.toSteady, h'.eventBus.trans h.eventBus, fun pid => ?_⟩
  rw [h'.same pid, h.same pid]

/-- Only other tables have changed. -/
theorem of_eq {os os' : AgentOS} (entities : os'.entities = os.entities)
    (agentIds : os'.agentIds = os.agentIds) (handles : os'.handles = os.handles)
    (nextHandle : os'.nextHandle = os.nextHandle) (nextPid : os'.nextPid = os.nextPid)
    (retiring : os'.retiring = os.retiring) (procs : os'.procs = os.procs)
    (eventBus : os'.eventBus = os.eventBus) : Still os os' :=
  ⟨⟨entities, agentIds, handles, nextHandle, nextPid, retiring, fun pid => by simp [procs]⟩,
    eventBus, fun pid => by simp [procs]⟩

/-- A process of which only the messages change. -/
theorem setProc {os : AgentOS} {pid : ℕ} {p : Proc} (hsame : p = { os.procs pid with
    delivered := p.delivered, killed := p.killed }) : Still os (os.setProc pid p) := by
  have hprocs (other : ℕ) : (os.setProc pid p).procs other = { os.procs other with
      delivered := ((os.setProc pid p).procs other).delivered
      killed := ((os.setProc pid p).procs other).killed } := by
    by_cases hpid : other = pid
    · subst hpid
      simpa [AgentOS.setProc] using hsame
    · simp [AgentOS.setProc, hpid]
  refine ⟨⟨rfl, rfl, rfl, rfl, rfl, rfl, fun other => ?_⟩, rfl, hprocs⟩
  rw [hprocs other]
  exact ⟨rfl, rfl, id⟩

/-- A delivery. -/
theorem push (os : AgentOS) (pid : ℕ) (event : Value) : Still os (os.push pid event) :=
  setProc rfl

/-- A kill; the process dies later. -/
theorem kill (os : AgentOS) (pid : ℕ) : Still os (os.kill pid) :=
  setProc rfl

end Still

/-- Processing registers, retires and starts nothing. -/
theorem Processed.still {producer : Producer} {event : Value} {os os' : AgentOS}
    {r : Except Exc Unit} (h : Processed producer event os r os') : Still os os' := by
  cases h with
  | @pushed _ _ _ pid event' =>
    have hobserve : Still os (os.observe producer event event') :=
      .of_eq rfl rfl rfl rfl rfl rfl rfl rfl
    exact hobserve.trans (.push _ _ _)
  | _ => exact .of_eq rfl rfl rfl rfl rfl rfl rfl rfl

/-- Emitting registers, retires and starts nothing. -/
theorem Emitted.still {source : String} {event : Value} {os os' : AgentOS} {r : Except Exc Unit}
    (h : Emitted source event os r os') : Still os os' := by
  cases h with
  | routed processed => exact processed.still
  | served valid accepted => exact .of_eq rfl rfl rfl rfl rfl rfl rfl rfl

/-- Processing an application event is calm. -/
theorem Processed.calm {producer : Producer} {event : Value} {os os' : AgentOS}
    {r : Except Exc Unit} (h : Processed producer event os r os')
    (hkind : event.field "kind" = .str "application") : Calm os os' := by
  cases h with
  | @pushed _ _ _ pid event' valid accepted entity process opened known =>
    obtain ⟨hdict, hfields⟩ := enriched_fields known accepted.dict
    have hstops := stops_application hdict ((hfields "kind" (by decide)).trans hkind)
    have hobserve : Calm os (os.observe producer event event') :=
      ⟨rfl, rfl, rfl, rfl, rfl, rfl, rfl, fun _ => .refl _⟩
    exact hobserve.trans (.setProc (.push hstops))
  | _ => exact ⟨rfl, rfl, rfl, rfl, rfl, rfl, rfl, fun _ => .refl _⟩

/-- Emitting is calm. -/
theorem Emitted.calm {source : String} {target : Value} {payload : List (String × Value)}
    {os os' : AgentOS} {r : Except Exc Unit}
    (h : Emitted source (emission source target payload) os r os') : Calm os os' := by
  cases h with
  | routed processed => exact processed.calm (emission_kind _ _ _)
  | served valid accepted => exact ⟨rfl, rfl, rfl, rfl, rfl, rfl, rfl, fun _ => .refl _⟩

/-- Emitting leaves the tables, the bus and the disk alone. -/
theorem Emitted.aside {source : String} {event : Value} {os os' : AgentOS} {r : Except Exc Unit}
    (h : Emitted source event os r os') : Aside os os' := by
  cases h with
  | routed processed => exact processed.aside
  | served valid accepted => exact ⟨rfl, rfl, rfl, rfl⟩

/-- A worker's emission is an `Emitted`. -/
theorem emitted_of_emitFrom {os os' : AgentOS} {device : Device} {target : Value}
    {payload : List (String × Value)} {raised : Bool} (hw : os.Wired)
    (h : os.emitFrom device (applicationEvent target payload) = some (os', raised)) :
    ∃ r, Emitted device.identity (emission device.identity target payload) os r os' := by
  have hwp : wp ⟨fun _ _ _ => False, fun _ _ => False⟩
      (kernelEmit device.identity (applicationEvent target payload))
      (fun _ r os' => Emitted device.identity (emission device.identity target payload) os r os')
      os os := wp_kernelEmit hw fun _ _ h => h
  unfold emitFrom at h
  unfold wp at hwp
  split at h
  next value os'' hrun =>
    rw [hrun] at hwp
    obtain ⟨rfl, -⟩ := Prod.mk.inj (Option.some.inj h)
    exact ⟨_, hwp⟩
  next error os'' hrun =>
    rw [hrun] at hwp
    obtain ⟨rfl, -⟩ := Prod.mk.inj (Option.some.inj h)
    exact ⟨_, hwp⟩
  next => simp at h

/-- The receipt of an event goes back to its source. -/
theorem receipt_spoken {event result : Value} (h : protocol.receipt event = some result) :
    ∃ target payload, result = applicationEvent target payload ∧
      ((event.field "source").hashable = true → Spoken target payload) := by
  simp only [protocol] at h
  split at h
  · refine ⟨_, _, (Option.some.inj h).symm, fun hhash => ⟨hhash, Or.inr ⟨"receipt", by decide, ?_⟩⟩⟩
    simp [Value.field]
  · simp at h

/-- A value that a device returns is understood as an event, or as silence. -/
theorem replyOf_emits {reply event result : Value}
    (hreply : reply = void ∨ ∃ target payload, reply = applicationEvent target payload ∧
      ((event.field "source").hashable = true → Spoken target payload))
    (h : (replyOf reply).emits protocol.receipt event = some result) :
    ∃ target payload, result = applicationEvent target payload ∧
      ((event.field "source").hashable = true → Spoken target payload) := by
  rcases hreply with rfl | ⟨target, payload, rfl, hspoken⟩
  · exact receipt_spoken (by simpa [replyOf, void, Value.isStr, Reply.emits] using h)
  · simp only [replyOf, applicationEvent, Value.isStr, Reply.emits, Bool.false_eq_true,
      if_false, Option.some.injEq] at h
    exact ⟨target, payload, h.symm, hspoken⟩

/-- The Journal answers with silence. -/
theorem journal_respond_void {j j' : Journal} {ts : String} {event reply : Value}
    (h : j.respond ts event = .ok (j', reply)) : reply = void := by
  obtain ⟨payload, -, h⟩ := bind_eq_ok.mp h
  obtain ⟨command, -, h⟩ := bind_eq_ok.mp h
  split at h
  · simp only [bind_eq_ok] at h
    obtain ⟨_, -, _, -, _, -, _, -, h⟩ := h
    exact (Prod.mk.inj (Except.ok.inj h)).2.symm
  · exact (Prod.mk.inj (Except.ok.inj h)).2.symm

/-- What a kernel-mode device makes its worker emit is an application event. -/
theorem respondAs_emits {os : AgentOS} {device : Device} {event result : Value}
    (h : (os.respondAs device event).2.emits protocol.receipt event = some result) :
    ∃ target payload, result = applicationEvent target payload ∧
      ((event.field "source").hashable = true → Spoken target payload) := by
  cases device with
  | authority =>
    simp only [respondAs] at h
    split at h
    next authority reply hrespond => exact replyOf_emits (Authority.respond_cases hrespond).1 h
    next => simp [Reply.emits] at h
  | journal =>
    simp only [respondAs] at h
    split at h
    next journal reply hrespond =>
      exact replyOf_emits (Or.inl (journal_respond_void hrespond)) h
    next => simp [Reply.emits] at h

/-- Answering an event is calm. -/
theorem respondAs_calm (os : AgentOS) (device : Device) (event : Value) :
    Calm os (os.respondAs device event).1 := by
  cases device with
  | authority =>
    simp only [respondAs]
    split <;> exact ⟨rfl, rfl, rfl, rfl, rfl, rfl, rfl, fun _ => .refl _⟩
  | journal =>
    simp only [respondAs]
    split <;> exact ⟨rfl, rfl, rfl, rfl, rfl, rfl, rfl, fun _ => .refl _⟩

/-- Changing the tasks is calm. -/
theorem setTasks_calm (os : AgentOS) (device : Device) (tasks : BucketDispatcher Value Value) :
    Calm os (os.setTasks device tasks) :=
  ⟨rfl, rfl, rfl, rfl, rfl, rfl, rfl, fun _ => .refl _⟩

/-- What one round of a worker does: an event from a bucket is answered, and the answer may
be emitted. Nothing is put into a bucket except by that emission. -/
inductive Rounds (device : Device) (os : AgentOS) : AgentOS → Prop where
  | silent {source : String} {job : Job Value} {tasks : BucketDispatcher Value Value}
      (queued : job ∈ (os.dispatchers device).queues source)
      (queues : ∀ s, tasks.queues s <:+ (os.dispatchers device).queues s) :
      Rounds device os ((os.respondAs device job.event).1.setTasks device tasks)
  | emitting {source : String} {job : Job Value} {tasks done : BucketDispatcher Value Value}
      {target : Value} {payload : List (String × Value)} {r : Except Exc Unit} {os' : AgentOS}
      (queued : job ∈ (os.dispatchers device).queues source)
      (queues : ∀ s, tasks.queues s <:+ (os.dispatchers device).queues s)
      (spoken : (job.event.field "source").hashable = true → Spoken target payload)
      (emitted : Emitted device.identity (emission device.identity target payload)
        ((os.respondAs device job.event).1.setTasks device tasks) r os')
      (ends : ∀ s, done.queues s <:+ (os'.dispatchers device).queues s)
      (answered : (os.respondAs device job.event).2.emits protocol.receipt job.event =
        some (applicationEvent target payload)) :
      Rounds device os (os'.setTasks device done)

/-- Every round is one of these. -/
theorem rounds_of_round {os os' : AgentOS} {device : Device} {i : ℕ} (hw : os.Wired)
    (h : os.round device i = some os') : Rounds device os os' := by
  obtain ⟨taken, htaken, h⟩ := Option.bind_eq_some_iff.mp h
  obtain ⟨event, hevent, h⟩ := Option.bind_eq_some_iff.mp h
  obtain ⟨answered, hanswered, h⟩ := Option.bind_eq_some_iff.mp h
  obtain ⟨source, job, hat, rfl⟩ : ∃ source job, taken.workers[i]? = some ⟨source, .responding job⟩ ∧
      job.event = event := by
    unfold responding at hevent
    split at hevent
    next source job hat => exact ⟨source, job, hat, Option.some.inj hevent⟩
    next => simp at hevent
  have hqueued := BucketDispatcher.step_get htaken hat
  have hqueues (s : String) : answered.queues s <:+ (os.dispatchers device).queues s :=
    (BucketDispatcher.step_queues hanswered (by simp) s).trans
      (BucketDispatcher.step_queues htaken (by simp) s)
  unfold emitAnswer at h
  split at h
  next => exact Option.some.inj h ▸ .silent hqueued hqueues
  next result hresult =>
    obtain ⟨target, payload, rfl, hspoken⟩ := respondAs_emits hresult
    obtain ⟨⟨os₁, raised⟩, hemit, hrest⟩ := Option.bind_eq_some_iff.mp h
    obtain ⟨done, hdone, hend⟩ := Option.bind_eq_some_iff.mp hrest
    have hmid : ((os.respondAs device job.event).1.setTasks device answered).Wired :=
      ((respondAs_calm os device job.event).trans (setTasks_calm _ _ _)).wired hw
    obtain ⟨r, hemitted⟩ := emitted_of_emitFrom hmid hemit
    exact Option.some.inj hend ▸
      .emitting hqueued hqueues hspoken hemitted (BucketDispatcher.step_queues hdone (by simp)) hresult

/-- A round is calm. -/
theorem Rounds.calm {device : Device} {os os' : AgentOS} (h : Rounds device os os') : Calm os os' := by
  cases h with
  | silent => exact (respondAs_calm os device _).trans (setTasks_calm _ _ _)
  | emitting queued queues spoken emitted ends =>
    exact (((respondAs_calm os device _).trans (setTasks_calm _ _ _)).trans emitted.calm).trans
      (setTasks_calm _ _ _)

/-- Everything that happens beside the event loop is calm. -/
theorem Background.calm {os os' : AgentOS} (h : Background os os') (hw : os.Wired) : Calm os os' := by
  cases h with
  | send pid value connected => exact .setProc ⟨rfl, rfl, rfl, id, id, [], by simp, by simp⟩
  | serve served => exact .setProc (.serve served)
  | exit pid => exact .setProc ⟨rfl, rfl, rfl, by simp, id, [], by simp, by simp⟩
  | close pid => exact .setProc ⟨rfl, rfl, rfl, id, by simp, [], by simp, by simp⟩
  | @read pid p event reads =>
    exact (Calm.setProc (.read reads)).trans ⟨rfl, rfl, rfl, rfl, rfl, rfl, rfl, fun _ => .refl _⟩
  | put event => exact ⟨rfl, rfl, rfl, rfl, rfl, rfl, rfl, fun _ => .refl _⟩
  | edit disk => exact ⟨rfl, rfl, rfl, rfl, rfl, rfl, rfl, fun _ => .refl _⟩
  | tick clock => exact ⟨rfl, rfl, rfl, rfl, rfl, rfl, rfl, fun _ => .refl _⟩
  | begin begins => exact setTasks_calm _ _ _
  | round serves => exact (rounds_of_round hw serves).calm

/-- So is any number of such steps. -/
theorem calm_of_background {os os' : AgentOS} (h : Relation.ReflTransGen Background os os')
    (hw : os.Wired) : Calm os os' := by
  induction h with
  | refl => exact .refl os
  | tail _ hstep ih => exact ih.trans (hstep.calm (ih.wired hw))

end AgentOS

end MyTeam.Kernel
