import MyTeam.Kernel.Routing

/-!
# What agents remember

The Authority keeps the view that it injected into an agent last, and sends the agent what has
changed. An agent that has processed everything sent to it remembers exactly that view, as long
as its injections arrive: they are sent in the Authority's own name, so they are dropped if
that name is given to a process and then taken away. Every command that changes the tables
shows all agents what they may see now.
-/

namespace MyTeam.Kernel

open MyTeam.Py MyTeam.Async MyTeam.Dispatch MyTeam.Agent Coroutine Relation

namespace Authority

variable {a : Authority} {granted : List Grant} {actor : String} {old new : Info}

/-- The grants of the holder of a position. -/
def grantsOf (a : Authority) (position : Value) : List Grant :=
  a.grants.filter fun grant => position.hasKey grant.position

/-- What the holder of a position is to know by a name: the explanation of a scope or else a
tool; of several the last one. -/
def known (a : Authority) (position : Value) (name : Key) : Option Value :=
  (a.visible (a.grantsOf position)).reverse.lookup name

/-- What was injected into the agents is what they are to know. -/
def Presented (a : Authority) : Prop :=
  ∀ name info, a.identities.lookup (.str name) = some info → info.agent = true →
    ∀ key, (a.snapshot (.str name)).lookup key = a.known info.position key

/-- What is known depends on the identities and the grants. -/
theorem known_congr {b : Authority} (hidentities : b.identities = a.identities) (hgrants : b.grants = a.grants)
    (position : Value) (name : Key) : b.known position name = a.known position name := by
  simp only [known, grantsOf, visible, hidentities, hgrants]

/-- The presentation depends on the tables. -/
theorem Presented.of_eq {b : Authority} (h : a.Presented) (hidentities : b.identities = a.identities)
    (hgrants : b.grants = a.grants) (hinjected : b.injected = a.injected) : b.Presented := by
  intro name info hinfo hagent key
  rw [snapshot, hinjected, known_congr hidentities hgrants]
  exact h name info (hidentities ▸ hinfo) hagent key

/-- An agent that has been shown what it may see has been shown what it is to know. -/
theorem Shown.known {name : String} {info : Info} (h : a.Shown (.str name))
    (hinfo : a.identities.lookup (.str name) = some info) (key : Key) :
    (a.snapshot (.str name)).lookup key = a.known info.position key := by
  obtain ⟨agent, new, hkey, hview, hinjected⟩ := h
  obtain rfl := Except.ok.inj hkey
  obtain ⟨agent', info', position, hkey', hinfo', hposition, rfl⟩ := view_eq hview
  obtain rfl := Except.ok.inj hkey'
  obtain rfl := Option.some.inj (hinfo.symm.trans hinfo')
  have hgrants : a.grants.filter (fun grant => grant.position = position) = a.grantsOf info.position := by
    refine List.filter_congr fun grant _ => ?_
    simp [Value.hasKey, hposition, eq_comm]
  rw [snapshot, hinjected, Option.getD_some, lookup_update, hgrants, Authority.known]
  simp

section Agents

/-- An agent is registered again, as an agent. -/
theorem filter_assign_agent {identities : List (Key × Info)} {key : Key}
    (hold : identities.lookup key = some old) (holdAgent : old.agent = true) (hnewAgent : new.agent = true) :
    (assign key new identities).filter (isVisible granted) = identities.filter (isVisible granted) := by
  induction identities with
  | nil => simp at hold
  | cons first rest ih =>
    obtain ⟨name, info⟩ := first
    rw [assign]
    split
    next hname =>
      subst hname
      obtain rfl : info = old := by simpa using hold
      rw [List.filter_cons_of_neg (by simp [isVisible, hnewAgent]),
        List.filter_cons_of_neg (by simp [isVisible, holdAgent])]
    next hname =>
      have hne : (key == name) = false := beq_false_of_ne (Ne.symm hname)
      rw [List.lookup_cons, hne] at hold
      rw [List.filter_cons, List.filter_cons, ih hold]

/-- What is visible does not depend on how an agent is registered. -/
theorem visible_enroll_agent (hold : a.identities.lookup (.str actor) = some old) (holdAgent : old.agent = true)
    (hnewAgent : new.agent = true) : (a.enroll actor new).visible granted = a.visible granted := by
  simp only [visible, enroll, filter_assign_agent hold holdAgent hnewAgent, lookup_assign]
  congr 1
  refine List.flatMap_congr fun device _ => ?_
  by_cases hdevice : device = .str actor
  · subst hdevice
    simp [hold, holdAgent, hnewAgent]
  · simp [hdevice]

/-- An agent that is registered again at its position is to know what it did. -/
theorem Presented.rehire (h : a.Presented) (hold : a.identities.lookup (.str actor) = some old)
    (holdAgent : old.agent = true) (hnewAgent : new.agent = true) (hposition : new.position = old.position) :
    (a.enroll actor new).Presented := by
  intro name info hinfo hagent key
  have hknown (position : Value) : (a.enroll actor new).known position key = a.known position key := by
    rw [known, visible_enroll_agent hold holdAgent hnewAgent]
    rfl
  rw [hknown]
  rw [enroll, lookup_assign] at hinfo
  split at hinfo
  next hname =>
    obtain rfl := Option.some.inj hinfo
    obtain rfl := Key.str.inj hname
    rw [hposition]
    exact h name old hold holdAgent key
  · exact h name info hinfo hagent key

/-- Where there are only agents there is nothing to see. -/
theorem presented_of_agents (hagents : ∀ entry ∈ a.identities, entry.2.agent = true) (hinjected : a.injected = []) :
    a.Presented := by
  intro name info hinfo hagent key
  have htools (granted : List Grant) : a.identities.filter (isVisible granted) = [] :=
    List.filter_eq_nil_iff.mpr fun entry hentry => by simp [isVisible, hagents entry hentry]
  have hvisible (granted : List Grant) : a.visible granted = [] := by
    simp only [visible, htools, List.flatMap_nil, List.nil_append, List.flatMap_eq_nil_iff]
    intro device _
    split
    next info' hinfo' => rw [if_pos (hagents _ (mem_of_lookup hinfo'))]
    · rfl
  simp [snapshot, hinjected, known, hvisible]

end Agents

end Authority

namespace AgentOS

variable {commands : List String} {os os' entry : AgentOS} {event : Value} {config : Value}

/-- The Authority stands under its own name. -/
def Attended (os : AgentOS) : Prop := os.entities "authority" = some (.kernelMode .authority)

/-- An agent that has processed what was delivered to it remembers what was injected last. Only
agents that can be reached count, and only those that have not been replaced. -/
def Remembers (os : AgentOS) : Prop :=
  ∀ name handle pid options, os.entities name = some (.process handle) →
    (os.handles handle).process = some pid → (os.handles handle).spawn = .agent name options →
    (os.procs pid).open = true →
    ∀ key, (recollect (os.procs pid).delivered).lookup key = (os.authority.snapshot (.str name)).lookup key

/-- The memories depend on the processes that can be reached and on what was injected. -/
theorem Remembers.of_same (h : os.Remembers) (injected : os'.authority.injected = os.authority.injected)
    (same : ∀ {name handle pid}, os'.entities name = some (.process handle) →
      (os'.handles handle).process = some pid → os.entities name = some (.process handle) ∧
        os'.handles handle = os.handles handle ∧
        recollect (os'.procs pid).delivered = recollect (os.procs pid).delivered ∧
        ((os'.procs pid).open = true → (os.procs pid).open = true)) : os'.Remembers := by
  intro name handle pid options entity process spawn opened key
  obtain ⟨entity', hhandle, hrecall, hopen⟩ := same entity process
  rw [hrecall, Authority.snapshot, injected]
  rw [hhandle] at process spawn
  exact h name handle pid options entity' process spawn (hopen opened) key

section Events

variable {producer : Producer} {r : Except Exc Unit}

/-- An event that is no injection leaves every memory as it is. -/
theorem Processed.recollect (h : Processed producer event os r os')
    (hother : os.validate event = .accepted → (event.field "payload").field "command" ≠ .str "inject") (pid : ℕ) :
    recollect (os'.procs pid).delivered = Agent.recollect (os.procs pid).delivered ∧
      (os'.procs pid).open = (os.procs pid).open := by
  cases h with
  | @pushed source target handle pid' event' valid accepted entity process opened known =>
    by_cases hpid : pid = pid'
    · subst hpid
      obtain ⟨-, hfields⟩ := enriched_fields known accepted.dict
      have hpayload := hfields "payload" (by decide)
      refine ⟨?_, by simp [push, observe, note, log, Proc.open]⟩
      have hdelivered : (((os.observe producer event event').push pid event').procs pid).delivered =
          (os.procs pid).delivered ++ [event'] := by simp [push, observe, note, log]
      rw [hdelivered]
      exact recollect_other (hpayload ▸ hother valid)
    · simp [push, observe, note, log, hpid]
  | _ => exact ⟨rfl, rfl⟩

/-- So does an event of the kernel. -/
theorem Emitted.recollect {source : String} {target : Value} {payload : List (String × Value)}
    (h : Emitted source (emission source target payload) os r os')
    (hother : Value.field (.dict payload) "command" ≠ .str "inject") (pid : ℕ) :
    recollect (os'.procs pid).delivered = Agent.recollect (os.procs pid).delivered ∧
      (os'.procs pid).open = (os.procs pid).open := by
  cases h with
  | routed processed => exact processed.recollect (fun _ => by rwa [emission_payload]) pid
  | served valid accepted => exact ⟨rfl, rfl⟩

/-- Events that are no injections leave what agents remember. -/
theorem Remembers.still (h : os.Remembers) (hs : Still os os')
    (injected : os'.authority.injected = os.authority.injected)
    (hrecall : ∀ pid, Agent.recollect (os'.procs pid).delivered = Agent.recollect (os.procs pid).delivered ∧
      (os'.procs pid).open = (os.procs pid).open) : os'.Remembers :=
  h.of_same injected fun entity _ => ⟨hs.entities ▸ entity, by rw [hs.handles], (hrecall _).1, by
    rw [(hrecall _).2]
    exact id⟩

/-- A worker of the Authority sends no injection, unless it is asked for one in the kernel's name. -/
theorem answer_other {device : Device} {target : Value} {payload : List (String × Value)}
    (h : (os.respondAs device event).2.emits protocol.receipt event = some (applicationEvent target payload))
    (hunasked : Unasked commands device event) (hinject : "inject_request" ∈ commands) :
    Value.field (.dict payload) "command" ≠ .str "inject" := by
  have hreceipt (hresult : protocol.receipt event = some (applicationEvent target payload)) :
      Value.field (.dict payload) "command" ≠ .str "inject" := by
    simp only [protocol] at hresult
    split at hresult
    · simp only [applicationEvent, Option.some.injEq, Value.dict.injEq, List.cons.injEq, Prod.mk.injEq, true_and,
        and_true] at hresult
      rw [← hresult.2]
      simp [Value.field]
    · simp at hresult
  have hreply (reply : Value) (hnone : (reply.field "payload").field "command" ≠ .str "inject")
      (hemits : (replyOf reply).emits protocol.receipt event = some (applicationEvent target payload)) :
      Value.field (.dict payload) "command" ≠ .str "inject" := by
    unfold replyOf at hemits
    split at hemits
    · simp [Reply.emits] at hemits
    · by_cases hvoid : reply.isStr "VOID" = true
      · rw [if_pos hvoid] at hemits
        exact hreceipt hemits
      · rw [if_neg hvoid] at hemits
        obtain rfl : reply = applicationEvent target payload := Option.some.inj hemits
        simpa [applicationEvent, Value.field, List.lookup_cons] using hnone
  cases device with
  | authority =>
    simp only [respondAs] at h
    split at h
    next authority reply hrespond =>
      have hmutates : ¬ Authority.Mutates event ["inject_request"] :=
        fun hm => hunasked (hm.mono (by simpa using hinject))
      exact hreply reply ((Authority.injects_of_respond hrespond).resolve_right fun hm => hmutates hm.1).2 h
    next => simp [Reply.emits] at h
  | journal =>
    simp only [respondAs] at h
    split at h
    next journal reply hrespond =>
      obtain rfl := journal_respond_void hrespond
      exact hreply void (by simp [void, Value.field]) h
    next => simp [Reply.emits] at h

end Events

section Processes

variable {p : Proc} {pid : ℕ}

/-- Serving delivers nothing. -/
theorem delivered_of_serve {p p' : Proc} (h : p.serve = some p') : p'.delivered = p.delivered := by
  simp only [Proc.serve] at h
  split at h
  · split at h
    · rw [← Option.some.inj h]
    · simp at h
  · simp at h

/-- Serving leaves the channel as it is. -/
theorem open_of_serve {p p' : Proc} (h : p.serve = some p') : p'.open = true → p.open = true := by
  simp only [Proc.serve] at h
  split at h
  · split at h
    · rw [← Option.some.inj h]
      exact id
    · simp at h
  · simp at h

/-- Reading delivers nothing. -/
theorem delivered_of_read {p p' : Proc} {handed : Option Value} (h : p.read = some (p', handed)) :
    p'.delivered = p.delivered := by
  simp only [Proc.read] at h
  split at h
  · rw [← (Prod.mk.inj (Option.some.inj h)).1]
  · split at h <;> rw [← (Prod.mk.inj (Option.some.inj h)).1]
  · split at h
    · split at h
      · simp at h
      · rw [← (Prod.mk.inj (Option.some.inj h)).1]
    · split at h <;> rw [← (Prod.mk.inj (Option.some.inj h)).1]
  · rw [← (Prod.mk.inj (Option.some.inj h)).1]
  · simp at h

/-- A reader that has exited does not read, so a closed channel stays closed. -/
theorem open_of_read {p p' : Proc} {handed : Option Value} (h : p.read = some (p', handed)) :
    p'.open = true → p.open = true := by
  intro hopen
  simp only [Proc.open, Bool.and_eq_true] at hopen ⊢
  refine ⟨(Proc.Later.read h).connected hopen.1, ?_⟩
  split
  next hexited => simp [Proc.read_exited hexited] at h
  · rfl

/-- A process whose channel has taken nothing new remembers what it did. -/
theorem setProc_recollect {pid' : ℕ} (hdelivered : p.delivered = (os.procs pid').delivered)
    (hopen : p.open = true → (os.procs pid').open = true) (pid : ℕ) :
    recollect ((os.setProc pid' p).procs pid).delivered = recollect (os.procs pid).delivered ∧
      (((os.setProc pid' p).procs pid).open = true → (os.procs pid).open = true) := by
  by_cases hpid : pid = pid'
  · subst hpid
    simpa [setProc, hdelivered] using hopen
  · simp [setProc, hpid]

/-- Answering leaves the processes. -/
theorem respondAs_procs (os : AgentOS) (device : Device) (event : Value) :
    (os.respondAs device event).1.procs = os.procs := by
  cases device with
  | authority =>
    simp only [respondAs]
    split <;> rfl
  | journal =>
    simp only [respondAs]
    split <;> rfl

/-- The tasks of a device are none of the processes. -/
theorem setTasks_procs (os : AgentOS) (device : Device) (tasks : BucketDispatcher Value Value) :
    (os.setTasks device tasks).procs = os.procs := rfl

end Processes

/-- What happens beside the event loop leaves what agents remember. -/
theorem Remembers.background (h : os.Remembers) (hw : os.Wired) (hfiled : Filed (Unasked commands) os)
    (hregistry : Authority.registryCommands ⊆ commands) (hinject : "inject_request" ∈ commands)
    (hb : Background os os') : os'.Remembers := by
  have hinjected := (agree_background hregistry hw hfiled hb).injected hinject
  have hcalm := hb.calm hw
  -- only a worker delivers anything, and a process that was closed stays closed
  have hprocs (pid : ℕ) : recollect (os'.procs pid).delivered = recollect (os.procs pid).delivered ∧
      ((os'.procs pid).open = true → (os.procs pid).open = true) := by
    cases hb with
    | send pid' value connected =>
      refine setProc_recollect ?_ ?_ pid
      · rfl
      · exact id
    | serve served => exact setProc_recollect (delivered_of_serve served) (open_of_serve served) pid
    | exit pid' =>
      refine setProc_recollect ?_ ?_ pid
      · rfl
      · exact id
    | close pid' =>
      refine setProc_recollect ?_ ?_ pid
      · rfl
      · simp [Proc.open]
    | read reads => exact setProc_recollect (delivered_of_read reads) (open_of_read reads) pid
    | round serves =>
      cases rounds_of_round hw serves with
      | silent queued queues =>
        rw [setTasks_procs, respondAs_procs]
        exact ⟨rfl, id⟩
      | @emitting source job tasks done target payload r os₁ queued queues spoken emitted ends answered =>
        have hunasked := (hfiled _ _ ⟨source, job, queued, rfl⟩).2
        have hrecall := emitted.recollect (answer_other answered hunasked hinject) pid
        rw [setTasks_procs, respondAs_procs] at hrecall
        rw [setTasks_procs]
        exact ⟨hrecall.1, by rw [hrecall.2]; exact id⟩
    | _ => exact ⟨rfl, id⟩
  exact h.of_same hinjected fun {name handle pid} entity _ =>
    ⟨hcalm.entities ▸ entity, by rw [hcalm.handles], (hprocs pid).1, (hprocs pid).2⟩

section Injection

variable {producer : Producer} {r : Except Exc Unit}

/-- An event reaches no other process than the one that it is addressed to. -/
theorem Processed.procs_other (h : Processed producer event os r os') {pid : ℕ}
    (hother : ∀ target handle, event.field "target" = .str target → os.entities target = some (.process handle) →
      (os.handles handle).process ≠ some pid) : os'.procs pid = os.procs pid := by
  cases h with
  | @pushed source target handle pid' event' valid accepted entity process opened known =>
    have hpid : pid ≠ pid' := by
      rintro rfl
      exact hother target handle accepted.target_eq entity process
    simp [push, observe, note, log, hpid]
  | _ => rfl

/-- Two names do not share a process. -/
theorem Wired.name_unique (hw : os.Wired) {name other : String} {handle handle' pid : ℕ}
    (entity : os.entities name = some (.process handle)) (entity' : os.entities other = some (.process handle'))
    (process : (os.handles handle).process = some pid) (process' : (os.handles handle').process = some pid) :
    name = other := by
  obtain rfl : handle = handle' := (hw.process process).2.symm.trans (hw.process process').2
  exact (hw.registered entity).2.1.symm.trans (hw.registered entity').2.1

/-- An injection for an agent that can be reached is delivered. -/
theorem delivered_inject (hw : os.Wired) (hattended : os.Attended) {name : String} {handle pid : ℕ}
    {payload : List (String × Value)} (entity : os.entities name = some (.process handle))
    (process : (os.handles handle).process = some pid)
    (emitted : Emitted "authority" (emission "authority" (.str name) payload) os (.ok ()) os')
    (opened : (os'.procs pid).open = true) :
    ∃ event', event'.field "payload" = .dict payload ∧
      (os'.procs pid).delivered = (os.procs pid).delivered ++ [event'] ∧ (os.procs pid).open = true := by
  obtain ⟨hempty, hkernel⟩ := hw.named entity
  have hvalid : os.validate (emission "authority" (.str name) payload) = .accepted := by
    have haccepted : Accepted os.registered (emission "authority" (.str name) payload) "authority" name := by
      refine ⟨⟨_, rfl⟩, emission_source _ _ _, emission_target _ _ _, ?_, ?_, Or.inl (emission_kind _ _ _)⟩
      · simp [AgentOS.registered, show os.entities "authority" = _ from hattended]
      · simp [AgentOS.registered, entity]
    exact haccepted.validateEvent (by decide) hempty
  have htarget {target : String} (h : (emission "authority" (.str name) payload).field "target" = .str target) :
      name = target := Value.str.inj ((emission_target _ _ _).symm.trans h)
  cases emitted with
  | served valid accepted => exact absurd (htarget accepted.target_eq) hkernel
  | routed processed =>
    generalize hr : (.ok () : Except Exc Unit) = r at processed
    cases processed with
    | raised invalid => simp [hvalid] at invalid
    | unrecorded invalid unbound => simp [hvalid] at invalid
    | dropped invalid inserted => simp [hvalid] at invalid
    | unwritten valid accepted known unbound => simp at hr
    | unauthenticated valid accepted other unknown => simp at hr
    | submitted valid accepted entity' =>
      rw [← htarget accepted.target_eq, entity] at entity'
      simp at entity'
    | @pushed source target handle' pid' event' valid accepted entity' process' opened' known =>
      obtain rfl := htarget accepted.target_eq
      obtain rfl := Entity.process.inj (Option.some.inj (entity.symm.trans entity'))
      obtain rfl := Option.some.inj (process.symm.trans process')
      obtain ⟨-, hfields⟩ := enriched_fields known accepted.dict
      exact ⟨event', (hfields "payload" (by decide)).trans (emission_payload _ _ _),
        by simp [push, observe, note, log], opened'⟩
    | @closed source target handle' pid' event' valid accepted entity' process' shut known =>
      obtain rfl := htarget accepted.target_eq
      obtain rfl := Entity.process.inj (Option.some.inj (entity.symm.trans entity'))
      obtain rfl := Option.some.inj (process.symm.trans process')
      exact absurd (show (os.procs pid).open = true from opened) (by simp [shut])

/-- An injection is remembered, and the other agents remember what they did. -/
theorem Remembers.inject (h : os.Remembers) (hw : os.Wired) (hattended : os.Attended) {agent : Value} {key : Key}
    {new : Entries} (hkey : agent.key = .ok key) (hview : os.authority.view agent = .ok new)
    (emitted : Emitted "authority" (emission "authority" agent (injectPayload (os.authority.snapshot key) new))
      { os with authority := { os.authority with injected := assign key new os.authority.injected } } (.ok ()) os') :
    os'.Remembers := by
  intro name handle pid options entity process spawn opened k
  have hs := emitted.still
  have hsnapshot : os'.authority.snapshot (.str name) =
      if .str name = key then new else os.authority.snapshot (.str name) := by
    rw [emitted.aside.authority, Authority.snapshot, lookup_assign]
    split <;> rfl
  rw [hs.entities] at entity
  rw [hs.handles] at process spawn
  rw [hsnapshot]
  split
  next hname =>
    obtain rfl := key_eq_str.mp (hname ▸ hkey)
    obtain ⟨event', hpayload, hdelivered, hopen⟩ := delivered_inject
      (wired_setAuthority hw { os.authority with injected := assign key new os.authority.injected }) hattended entity
      process emitted opened
    rw [hdelivered]
    refine recollect_inject hpayload (Authority.named_view hview) (Authority.nodup_view hview) (fun other => ?_) k
    rw [← hname]
    exact h name handle pid options entity process spawn hopen other
  next hname =>
    have hprocs : os'.procs pid = os.procs pid := by
      cases emitted with
      | served valid accepted => rfl
      | routed processed =>
        refine processed.procs_other fun target handle' htarget entity' process' => hname ?_
        rw [emission_target] at htarget
        rw [htarget] at hkey
        rw [hw.name_unique entity entity' process process', Except.ok.inj hkey.symm]
    rw [hprocs] at opened ⊢
    exact h name handle pid options entity process spawn opened k

/-- A new process has heard nothing, and nothing was injected into an agent that is new. -/
theorem Remembers.spawned (h : os.Remembers) (hw : os.Wired) {identity : String} {spawn : Spawn} {spec : Spec}
    {agent : Bool}
    (hnew : ∀ options, spawn = .agent identity options → os.authority.injected.lookup (.str identity) = none) :
    (os.spawned identity spawn spec agent).Remembers := by
  intro name handle pid options entity process hspawn opened key
  rw [spawned_entities] at entity
  rw [spawned_handles] at process hspawn
  rw [spawned_procs] at opened ⊢
  rw [show (os.spawned identity spawn spec agent).authority = os.authority from rfl]
  by_cases hname : name = identity
  · subst hname
    obtain rfl : os.nextHandle = handle := by simpa using entity
    rw [Function.update_self] at process hspawn
    obtain rfl : os.nextPid = pid := Option.some.inj process
    rw [Function.update_self, Authority.snapshot, hnew options hspawn]
    rfl
  · rw [Function.update_of_ne hname] at entity
    obtain ⟨hlt, -⟩ := hw.registered entity
    rw [Function.update_of_ne hlt.ne] at process hspawn
    have hpid : pid ≠ os.nextPid := (hw.process process).1.ne
    rw [Function.update_of_ne hpid] at opened ⊢
    exact h name handle pid options entity process hspawn opened key

end Injection

section Lasting

/-- The commands that change the tables or what was injected. -/
def memoryCommands : List String := tableCommands ++ ["inject_request"]

/-- What agents remember lasts while a command is carried out. -/
theorem lasting_remembers : Lasting memoryCommands fun os => os.Attended → os.Remembers where
  unheard _ hM hu hattended :=
    (hM (hu.kernelMode hattended)).of_same hu.injected fun entity process =>
      have hsame := hu.same entity process
      ⟨hsame.1, hsame.2.1, by rw [hsame.2.2.1], hsame.2.2.2⟩
  background {os os'} hw hfiled hM hb hattended := by
    have hattended' : os.Attended := (congrFun (hb.calm hw).entities "authority").symm.trans hattended
    exact (hM hattended').background hw hfiled (by decide) (by decide) hb
  injected {os os' agent key new} hw hM hkey hview emitted hattended := by
    have hattended' : os.Attended := (congrFun emitted.still.entities "authority").symm.trans hattended
    exact (hM hattended').inject hw hattended' hkey hview emitted
  spawned {os identity spawn spec agent} hw hM hnew call named hattended := by
    have hname : "authority" ≠ identity := by
      rintro rfl
      simp [Attended] at hattended
    have hattended' : os.Attended := by simpa [Attended, hname] using hattended
    exact (hM hattended').spawned hw hnew
  acknowledged {os os' target payload r} hw hM hcommand emitted hattended := by
    have hattended' : os.Attended := (congrFun emitted.still.entities "authority").symm.trans hattended
    obtain ⟨command, hfield, hother⟩ := hcommand
    refine (hM hattended').still emitted.still (congrArg Authority.injected emitted.aside.authority) fun pid =>
      emitted.recollect ?_ pid
    simpa [hfield] using hother

/-- A condition on the state in which a command began may be assumed, and what has been handled
since then is added to what was handled before. -/
theorem Lasting.since {M : AgentOS → Prop} (hM : Lasting commands M) (p : Prop) :
    Lasting commands fun os => entry.handled <+: os.handled ∧ (p → M os) where
  unheard hw h hu := ⟨h.1.trans hu.handled, fun hp => hM.unheard hw (h.2 hp) hu⟩
  background {os os'} hw hfiled h hb := by
    refine ⟨h.1.trans ?_, fun hp => hM.background hw hfiled (h.2 hp) hb⟩
    have hsilent : Silent os os := ⟨[], by simp, by simp⟩
    obtain ⟨since, hsince, -⟩ := hsilent.background hw hb
    rw [hsince]
    exact List.prefix_append _ _
  injected hw h hkey hview emitted := by
    refine ⟨h.1.trans ?_, fun hp => hM.injected hw (h.2 hp) hkey hview emitted⟩
    rw [emitted.handled]
    exact List.prefix_append _ _
  spawned hw h hnew call named := ⟨h.1, fun hp => hM.spawned hw (h.2 hp) hnew call named⟩
  acknowledged hw h hcommand emitted := by
    refine ⟨h.1.trans ?_, fun hp => hM.acknowledged hw (h.2 hp) hcommand emitted⟩
    rw [emitted.handled]
    exact List.prefix_append _ _

end Lasting

/-- Every command so far was acknowledged as successful. -/
def Succeeding (os : AgentOS) : Prop :=
  ∀ h ∈ os.handled, h.producer = .kernel "kernel" → (h.event.field "payload").field "ok" = .bool true

/-- What is acknowledged later does not matter to what was acknowledged before. -/
theorem Succeeding.before (h : os'.Succeeding) (hhandled : os.handled <+: os'.handled) : os.Succeeding :=
  fun handled hmem => h handled (hhandled.subset hmem)

/-- Of the events that are accepted, none commands the Authority in the kernel's name, and none
brings an injection of its own. -/
def leavesMemory (entry : AgentOS) (item : Producer × Value) : Prop :=
  entry.validate item.2 = .accepted →
    ¬ Asks memoryCommands item.2 ∧ (item.2.field "payload").field "command" ≠ .str "inject"

/-- Nobody becomes an agent except by a maintenance session. -/
theorem Effect.agents {ok : Bool} {T : Tables} {name : String} (h : Effect entry event ok T)
    (hother : commandOf event ≠ some .maintenanceSession) (hagent : T.authority.records name = true) :
    entry.authority.records name = true := by
  have hwithdraw {a : Authority} {identity : String} (h : (a.withdraw identity).records name = true) :
      a.records name = true := by
    have hne : name ≠ identity := by
      rintro rfl
      simp [Authority.records_withdraw_self] at h
    rwa [Authority.records_withdraw hne] at h
  have hrelease {T : Tables} {identity : String} (h : (T.release identity).authority.records name = true) :
      T.authority.records name = true := by
    unfold Tables.release at h
    split at h
    · exact hwithdraw h
    · exact h
  have henroll {T : Tables} {identity : String} {tools scopes : Value}
      (h : (T.enroll identity (registration tools scopes false .none)).authority.records name = true) :
      T.authority.records name = true := by
    have h' := (Authority.records_enroll _).symm.trans h
    split at h'
    · simp [registration] at h'
    · exact h'
  have hgrant {a : Authority} {grants : List Grant} (h : (grants.foldl Authority.addGrant a).records name = true) :
      a.records name = true :=
    (Authority.records_congr (Authority.addGrants_identities a grants) name).symm.trans h
  cases h with
  | refused => exact hagent
  | @orphaned identity positions tools scopes tokens installing unfit =>
    have hreleased : (entry.tables.release identity).authority.records name = true := henroll hagent
    exact hrelease hreleased
  | @installed identity positions tools scopes tokens handle injected ok installing =>
    have hreleased : (entry.tables.release identity).authority.records name = true := henroll (hgrant hagent)
    exact hrelease hreleased
  | uninstalled carries checked => exact hwithdraw (hgrant hagent)
  | deserted carries checked unfit => exact absurd carries hother
  | maintained carries checked => exact absurd carries hother
  | granted carries checked => exact hgrant hagent
  | revoked carries checked => exact hagent

/-- Every command leaves positions to agents only. -/
theorem Effect.seated {ok : Bool} {T : Tables} (h : Effect entry event ok T) (hseated : entry.authority.Seated) :
    T.authority.Seated := by
  have hrelease (identity : String) : (entry.tables.release identity).authority.Seated := by
    unfold Tables.release
    split
    · exact hseated.withdraw
    · exact hseated
  cases h with
  | refused => exact hseated
  | @orphaned identity positions tools scopes tokens installing unfit =>
    exact (hrelease identity).enroll (by simp [registration])
  | @installed identity positions tools scopes tokens handle injected ok installing =>
    exact ((hrelease identity).enroll (by simp [registration])).of_eq (Authority.addGrants_identities _ _)
  | uninstalled carries checked => exact hseated.withdraw.of_eq (Authority.addGrants_identities _ _)
  | deserted carries checked unfit => exact hseated
  | maintained carries checked =>
    refine hseated.enroll ?_
    simpa [registration, Value.truthy] using hseated.ne_empty checked.positioned
  | granted carries checked => exact hseated.of_eq (Authority.addGrants_identities _ _)
  | revoked carries checked => exact hseated

/-- Whoever holds a position is an agent. -/
theorem agent_of_position {a : Authority} (hseated : a.Seated) {actor position : String}
    (hposition : a.positionOf (.str actor) = .ok (.str position)) :
    ∃ info, a.identities.lookup (.str actor) = some info ∧ info.agent = true ∧ info.position = .str position := by
  simp only [Authority.positionOf, Value.key_str, ok_bind] at hposition
  replace hposition := Except.ok.inj hposition
  split at hposition
  next info hinfo =>
    refine ⟨info, hinfo, ?_, hposition⟩
    by_contra hdevice
    have hnone := hseated _ info hinfo
    rw [if_neg hdevice, hposition] at hnone
    simp at hnone
  · simp at hposition

/-- What is recorded as an agent is among the agents. -/
theorem mem_agents_of_records {a : Authority} {name : String} (h : a.records name = true) : .str name ∈ a.agents := by
  unfold Authority.records at h
  split at h
  next info hinfo =>
    exact List.mem_map.mpr ⟨(.str name, info), List.mem_filter.mpr ⟨mem_of_lookup hinfo, by simpa using h⟩, rfl⟩
  · simp at h

/-- What holds between two events, while every command succeeds. -/
structure Informed (os : AgentOS) : Prop where
  seated : os.authority.Seated
  remembers : os.Succeeding → os.Attended → os.Remembers
  presented : os.Succeeding → os.authority.Presented

/-- The agents are informed when runs begin. -/
theorem informed_of_boots (h : Boots config os) : os.Informed := by
  let A (os : AgentOS) : Prop :=
    os.authority.Seated ∧ (∀ entry ∈ os.authority.identities, entry.2.agent = true) ∧ os.authority.injected = []
  let D (os : AgentOS) : Prop := os.authority.Seated ∧ os.authority.Presented
  have hnew (runtimeRoot : String) (disk : Disk) (clock : String) (limits : Limits) :
      ((AgentOS.new runtimeRoot disk clock limits).Attended → (AgentOS.new runtimeRoot disk clock limits).Remembers) ∧
        A (.new runtimeRoot disk clock limits) := by
    refine ⟨fun _ => ?_, ?_, ?_, rfl⟩
    · intro name handle pid options entity process
      simp [AgentOS.new] at process
    · intro key info hinfo
      simp [AgentOS.new, Authority.new] at hinfo
    · simp [AgentOS.new, Authority.new]
  have hagent : HiresInto memoryCommands (fun os => os.Attended → os.Remembers) config A := by
    intro os os' name position handle _ hposition hA hinjected hcourse
    obtain ⟨hseated, hagents, hfresh⟩ := hA
    have hidentities := hcourse.authority.identities
    refine ⟨(hseated.enroll ?_).of_eq hidentities, fun entry hmem => ?_, hinjected.trans hfresh⟩
    · simpa [registration] using hposition
    · rw [hidentities] at hmem
      rcases mem_items_assign hmem with rfl | hmem
      · rfl
      · exact hagents entry hmem
  have hdevice : InstallsInto memoryCommands (fun os => os.Attended → os.Remembers) config D := by
    intro os os' name tools scopes handle grants injected _ hD hcourse hshown
    have hidentities := hcourse.authority.identities.trans (Authority.addGrants_identities _ _)
    refine ⟨(hD.1.enroll (by simp [registration])).of_eq hidentities, fun agent info hinfo hagent key => ?_⟩
    refine (hshown (.str agent) ?_).known hinfo key
    exact List.mem_map.mpr ⟨_, List.mem_filter.mpr ⟨mem_of_lookup hinfo, by simpa using hagent⟩, rfl⟩
  have hbetween {os : AgentOS} (hA : A os) : D os := ⟨hA.1, Authority.presented_of_agents hA.2.1 hA.2.2⟩
  obtain ⟨hcourse, hseated, hpresented⟩ := h.ledger lasting_remembers hnew hagent hbetween hdevice
  exact ⟨hseated, fun _ => hcourse.extra, fun _ => hpresented⟩

variable {l : LoopState AgentOS (Producer × Value) Exc}

/-- A command that is served leaves the agents informed. -/
theorem Served.informed {ok : Bool} (h : entry.Informed)
    (hserved : Served memoryCommands
      (fun os => entry.handled <+: os.handled ∧ (entry.Succeeding → os.Attended → os.Remembers)) entry event ok os) :
    os.Informed := by
  obtain ⟨T, heffect, hcourse⟩ := hserved.tables
  have hidentities := hcourse.authority.identities
  have hgrants := hcourse.authority.grants (by simp [memoryCommands])
  have hinjected := hcourse.authority.injected (by simp [memoryCommands])
  -- if the command failed then not every command has succeeded
  have hok (hall : os.Succeeding) : ok = true := by
    obtain ⟨ack, hlast, hproducer, hack⟩ := hserved.acknowledged
    have htrue := hall ack (List.mem_of_getLast? hlast) hproducer
    exact Value.bool.inj (hack.symm.trans htrue)
  refine ⟨(heffect.seated h.seated).of_eq hidentities, fun hall => ?_, fun hall => ?_⟩
  · obtain ⟨⟨hsince, hremembers⟩, -⟩ := hserved.lasted (hok hall)
    exact hremembers (hall.before hsince)
  · obtain ⟨⟨hsince, -⟩, hshown⟩ := hserved.lasted (hok hall)
    by_cases hcommand : commandOf event = some .maintenanceSession
    · have hpresented := h.presented (hall.before hsince)
      refine Authority.Presented.of_eq ?_ hidentities hgrants hinjected
      obtain rfl := hok hall
      cases heffect with
      | installed installing => simp [installing.carries] at hcommand
      | uninstalled carries checked => simp [carries] at hcommand
      | maintained carries checked =>
        obtain ⟨old, hold, hagent, hposition⟩ := agent_of_position h.seated checked.positioned
        exact hpresented.rehire hold hagent rfl hposition.symm
      | granted carries checked => simp [carries] at hcommand
      | revoked carries checked => simp [carries] at hcommand
    · intro name info hinfo hagent key
      have hrecords : T.authority.records name = true := by
        rw [Authority.records, ← hidentities, hinfo]
        exact hagent
      have hentry := heffect.agents hcommand hrecords
      exact (hshown hcommand (.str name) (mem_agents_of_records hentry)).known hinfo key

/-- Between two events the agents are informed. -/
theorem Reachable.informed (h : Reachable config (.taking leavesMemory) l) (hidle : l.control = .idle) :
    l.state.Informed := by
  have hledger := h.ledger (I := Informed)
    (M := fun entry os => entry.handled <+: os.handled ∧ (entry.Succeeding → os.Attended → os.Remembers)) hidle
    (by decide) (fun _ _ hleaves valid => (hleaves valid).1) (fun entry => lasting_remembers.since entry.Succeeding)
    (fun os => informed_of_boots) (fun {os os'} hw hfiled hI hb => ?_) (fun hI rest => ⟨List.prefix_refl _, ?_⟩)
    fun {os item rest os'} hw _ hI _ hleaves htaken => ?_
  · exact hledger.2.2
  · have hagree := agree_background (by decide) hw hfiled hb
    have hsilent : Silent os os := ⟨[], by simp, by simp⟩
    obtain ⟨since, hsince, -⟩ := hsilent.background hw hb
    have hbefore (hall : os'.Succeeding) : os.Succeeding := hall.before (hsince ▸ List.prefix_append _ _)
    refine ⟨hI.seated.of_eq hagree.identities, fun hall hattended => ?_, fun hall => ?_⟩
    · have hattended' : os.Attended := (congrFun (hb.calm hw).entities "authority").symm.trans hattended
      exact (hI.remembers (hbefore hall) hattended').background hw hfiled (by decide) (by decide) hb
    · exact (hI.presented (hbefore hall)).of_eq hagree.identities (hagree.grants (by simp [memoryCommands]))
        (hagree.injected (by simp [memoryCommands]))
  · exact fun hall hattended => (hI.remembers hall hattended).of_same rfl fun entity _ => ⟨entity, rfl, rfl, id⟩
  · cases htaken with
    | routed processed =>
      have hauthority : os'.authority = os.authority := processed.aside.authority
      have hbefore (hall : os'.Succeeding) : os.Succeeding :=
        hall.before (by rw [processed.handled]; exact List.prefix_append _ _)
      refine ⟨hauthority ▸ hI.seated, fun hall hattended => ?_, fun hall => hauthority ▸ hI.presented (hbefore hall)⟩
      have hattended' : os.Attended := (congrFun processed.still.entities "authority").symm.trans hattended
      have hnow : Remembers { os with eventBus := rest } :=
        (hI.remembers (hbefore hall) hattended').of_same rfl fun entity _ => ⟨entity, rfl, rfl, id⟩
      exact hnow.still processed.still (congrArg Authority.injected hauthority)
        (processed.recollect fun valid => (hleaves valid).2)
    | ignored =>
      have hbefore (hall : (observe { os with eventBus := rest } item.1 item.2 item.2).Succeeding) : os.Succeeding :=
        hall.before (List.prefix_append _ _)
      refine ⟨hI.seated, fun hall hattended => ?_, fun hall => hI.presented (hbefore hall)⟩
      exact (hI.remembers (hbefore hall) hattended).of_same rfl fun entity _ => ⟨entity, rfl, rfl, id⟩
    | served valid accepted served =>
      have hentry : Informed { os with eventBus := rest } :=
        ⟨hI.seated, fun hall hattended => (hI.remembers hall hattended).of_same rfl
          fun entity _ => ⟨entity, rfl, rfl, id⟩, hI.presented⟩
      exact served.informed hentry

/-- The Authority stands under its name when runs begin, if the configuration leaves it the name. -/
theorem attended_of_boots (hunclaimed : "authority" ∉ configIdentities config) (h : Boots config os) : os.Attended := by
  have henter {os os' : AgentOS} {T : Tables} {name : String} {handle : ℕ} (hos : os.Attended)
      (hcourse : Course Authority.registryCommands (fun _ => True) T os') (hname : name ∈ configIdentities config)
      (hentities : T.entities = Function.update os.entities name (some (.process handle))) : os'.Attended := by
    have hne : "authority" ≠ name := ne_of_mem_of_not_mem hname hunclaimed |>.symm
    rw [Attended, hcourse.entities, hentities, Function.update_of_ne hne]
    exact hos
  have hagent : HiresInto Authority.registryCommands (fun _ => True) config Attended :=
    fun hname _ hos _ hcourse => henter hos hcourse (List.mem_append_left _ hname) rfl
  have hdevice : InstallsInto Authority.registryCommands (fun _ => True) config Attended :=
    fun hname hos hcourse _ => henter hos hcourse (List.mem_append_right _ hname) rfl
  exact (h.ledger lasting_true (fun _ _ _ _ => ⟨trivial, rfl⟩) hagent id hdevice).2

/-- No command takes the Authority's name from it. -/
theorem Attended.act {producer : Producer} (h : os.Attended) (ha : Act (.item entry producer event) os os') :
    os'.Attended := by
  cases ha with
  | @spawn identity spawn spec agent legal call named allowed =>
    have hne : "authority" ≠ identity := by
      rintro rfl
      have hnone : os.entities "authority" = none := allowed.1
      simp [show os.entities "authority" = _ from h] at hnone
    rw [Attended, spawned_entities, Function.update_of_ne hne]
    exact h
  | @remove identity handle entity vacant allowed =>
    have hne : "authority" ≠ identity := by
      rintro rfl
      simp [show os.entities "authority" = _ from h] at entity
    rw [Attended, AgentOS.remove]
    exact (Function.update_of_ne hne _ _).trans h
  | route warrant processed => exact (congrFun processed.still.entities "authority").trans h
  | emit known spoken emitted => exact (congrFun emitted.still.entities "authority").trans h
  | _ => exact h

/-- The Authority stands under its name for good, if the configuration leaves it the name. -/
theorem Reachable.attended (hunclaimed : "authority" ∉ configIdentities config)
    {take : AgentOS → Producer × Value → Prop} (h : Reachable config (.taking take) l) (hidle : l.control = .idle) :
    l.state.Attended := by
  have hthroughout : Throughout Attended (fun _ _ => Attended) l :=
    h.stepwise (fun _ => attended_of_boots hunclaimed)
      (fun hw h hb => (congrFun (hb.calm hw).entities "authority").trans h) (fun _ _ h _ _ => h)
      (fun _ h ha => h.act ha) (fun hw h hb => (congrFun (hb.calm hw).entities "authority").trans h) fun _ _ h => h
  simp only [Throughout, hidle] at hthroughout
  exact hthroughout.2.2

/-- The memory of an agent is the wiring: an agent that has not been replaced and can be reached,
and has processed everything that was delivered to it, knows of every name what its position is
to know of it now, and nothing else. -/
theorem memory_is_wiring (hunclaimed : "authority" ∉ configIdentities config)
    (h : Reachable config (.taking leavesMemory) l) (hidle : l.control = .idle) (hall : l.state.Succeeding)
    {name : String} {info : Info} {handle pid : ℕ} {options : Value}
    (hinfo : l.state.authority.identities.lookup (.str name) = some info) (hagent : info.agent = true)
    (entity : l.state.entities name = some (.process handle))
    (process : (l.state.handles handle).process = some pid)
    (spawn : (l.state.handles handle).spawn = .agent name options) (opened : (l.state.procs pid).open = true)
    (key : Key) :
    (recollect (l.state.procs pid).delivered).lookup key = l.state.authority.known info.position key := by
  have hinformed := h.informed hidle
  rw [hinformed.remembers hall (h.attended hunclaimed hidle) name handle pid options entity process spawn opened key]
  exact hinformed.presented hall name info hinfo hagent key

section Scenario

/-- An agent at the root, and a device with one tool that `root` may use. -/
def toolConfig (device : String) : Value :=
  .dict [("agents", .list [agentSpec "r" "root"]), ("devices", .list [.dict [("identity", .str device),
    ("source", .str "d.py"), ("grants", .list [.str "root"])]])]

/-- Every source declares the tool `t` and the default scope `use`. -/
def toolDisk : Disk :=
  ⟨fun _ => false, fun _ => .missing, fun _ => .exports (some (.list [.dict [("name", .str "t")]]))
    (some (.list [.dict [("token", .str "use"), ("default", .bool true)]]))⟩

/-- `r` takes the scope from `root`. -/
def revokeUse : List (EventLoop.Move Ambient) :=
  sends 0 (commandBy [("command", .str "revoke_scope"), ("position", .str "root"), ("device", .str "d"),
    ("token", .str "use")]) ++ [.take, .settle]

/-- `r` removes the device that is called `authority`. -/
def removeAuthority : List (EventLoop.Move Ambient) :=
  sends 0 (commandBy [("command", .str "uninstall_device"), ("identity", .str "authority")]) ++
    [.take, .resume, .act (.exit 1), .resume, .settle]

/-- Every command has succeeded, and the agent `r` remembers the tool `t`, or is to know it. -/
def knows (os : AgentOS) (remembered wired : Bool) : Bool :=
  (os.handled.all fun h => !decide (h.producer = .kernel "kernel") || (match (h.event.field "payload").field "ok" with
    | .bool ok => ok
    | _ => false)) &&
  match os.entities "r" with
  | some (.process handle) =>
    match (os.handles handle).process, (os.handles handle).spawn, os.authority.identities.lookup (.str "r") with
    | some pid, .agent "r" _, some info =>
      (os.procs pid).open && info.agent && ((recollect (os.procs pid).delivered).lookup (.str "t")).isSome ==
      remembered &&
        (os.authority.known info.position (.str "t")).isSome == wired
    | _, _, _ => false
  | _ => false

/-- What the observation says. -/
theorem of_knows {remembered wired : Bool} (h : os.knows remembered wired = true) : os.Succeeding ∧
    ∃ handle pid options info, os.entities "r" = some (.process handle) ∧ (os.handles handle).process = some pid ∧
      (os.handles handle).spawn = .agent "r" options ∧ os.authority.identities.lookup (.str "r") = some info ∧
      (os.procs pid).open = true ∧ info.agent = true ∧
      ((recollect (os.procs pid).delivered).lookup (.str "t")).isSome = remembered ∧
      (os.authority.known info.position (.str "t")).isSome = wired := by
  unfold knows at h
  obtain ⟨hacks, h⟩ := Bool.and_eq_true_iff.mp h
  refine ⟨fun handled hmem hproducer => ?_, ?_⟩
  · have hack := List.all_eq_true.mp hacks handled hmem
    simp only [hproducer, decide_true, Bool.not_true, Bool.false_or] at hack
    split at hack
    next ok hok => rw [hok, hack]
    · simp at hack
  · split at h
    next handle entity =>
      split at h
      next pid options info process spawn hinfo =>
        simp only [Bool.and_eq_true, beq_iff_eq] at h
        exact ⟨handle, pid, options, info, entity, process, spawn, hinfo, h.1.1.1, h.1.1.2, h.1.2, h.2⟩
      · simp at h
    · simp at h

/-- When `root` has lost the scope, `r` has forgotten the tool. -/
theorem memory_is_wiring_revoked : ∃ l, Reachable (toolConfig "d") (.taking leavesMemory) l ∧
    l.state.knows false false = true ∧ ∃ pid position, ∀ key,
      (recollect (l.state.procs pid).delivered).lookup key = l.state.authority.known position key := by
  have hplays : (scenario (toolConfig "d") toolDisk revokeUse).any fun l =>
      l.isIdle && l.state.knows false false := by decide +kernel
  have htaken : (scenarioTaken (toolConfig "d") toolDisk revokeUse).all fun taken =>
      (taken.2.2.field "target").isStr "kernel" &&
        ((taken.2.2.field "payload").field "command").isStr "revoke_scope" := by decide +kernel
  have hallowed : ∀ taken ∈ scenarioTaken (toolConfig "d") toolDisk revokeUse, leavesMemory taken.1 taken.2 := by
    intro taken hmem _
    obtain ⟨htarget, hcommand⟩ := Bool.and_eq_true_iff.mp (List.all_eq_true.mp htaken taken hmem)
    refine ⟨fun hasks => ?_, ?_⟩
    · rw [hasks.1] at htarget
      simp [Value.isStr] at htarget
    · rw [Value.isStr_iff.mp hcommand]
      simp
  have hunclaimed : "authority" ∉ configIdentities (toolConfig "d") := by decide +kernel
  obtain ⟨l, hplayed, hl⟩ := (Option.any_eq_true _ _).mp hplays
  obtain ⟨hidle, hknows⟩ := Bool.and_eq_true_iff.mp hl
  have hreachable := reachable_of_scenario hplayed hallowed
  obtain ⟨hall, handle, pid, options, info, entity, process, spawn, hinfo, opened, hagent, -, -⟩ := of_knows hknows
  exact ⟨l, hreachable, hknows, pid, info.position, memory_is_wiring hunclaimed hreachable
    (LoopState.isIdle_iff.mp hidle) hall hinfo hagent entity process spawn opened⟩

/-- A device that is called `authority` is removed, and `r` still remembers its tool. -/
theorem memory_is_stale : ∃ l name info handle pid options key, Reachable (toolConfig "authority") .free l ∧
    l.control = .idle ∧ l.state.Succeeding ∧ l.state.authority.identities.lookup (.str name) = some info ∧
    info.agent = true ∧ l.state.entities name = some (.process handle) ∧
    (l.state.handles handle).process = some pid ∧ (l.state.handles handle).spawn = .agent name options ∧
    (l.state.procs pid).open = true ∧
    (recollect (l.state.procs pid).delivered).lookup key ≠ l.state.authority.known info.position key := by
  have hplays : (scenario (toolConfig "authority") toolDisk removeAuthority).any fun l =>
      l.isIdle && l.state.knows true false := by decide +kernel
  obtain ⟨l, hplayed, hl⟩ := (Option.any_eq_true _ _).mp hplays
  obtain ⟨hidle, hknows⟩ := Bool.and_eq_true_iff.mp hl
  obtain ⟨hall, handle, pid, options, info, entity, process, spawn, hinfo, opened, hagent, hremembered, hwired⟩ :=
    of_knows hknows
  refine ⟨l, "r", info, handle, pid, options, .str "t", reachable_free_of_scenario hplayed,
    LoopState.isIdle_iff.mp hidle,
    hall, hinfo, hagent, entity, process, spawn, opened, fun hsame => ?_⟩
  rw [hsame, hwired] at hremembered
  simp at hremembered

end Scenario

end AgentOS

end MyTeam.Kernel
