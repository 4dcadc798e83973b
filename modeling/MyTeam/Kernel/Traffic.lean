import MyTeam.Kernel.Runs

/-!
# Events on their way

Between a process and the bus an event passes the process's outbox and its reader, which
stamps the identity of the process on it. `Stamped` says that whatever a reader holds or has
put on the bus carries that stamp.
-/

namespace MyTeam.Kernel

open MyTeam.Py MyTeam.Async Coroutine Relation

/-- An event stamped with the identity of a process. -/
structure StampedBy (p : Proc) (event : Value) : Prop where
  dict : ∃ kvs, event = .dict kvs
  source : event.field "source" = .str p.spec.identity

/-- The stamp is that of the process as it was started. -/
theorem StampedBy.of_spec {p p' : Proc} {event : Value} (h : StampedBy p event)
    (hspec : p'.spec = p.spec) : StampedBy p' event :=
  ⟨h.dict, hspec ▸ h.source⟩

/-- Stamping sets the source. -/
theorem stampedBy_of_setItem {p : Proc} {event stamped : Value}
    (h : event.setItem "source" (.str p.spec.identity) = .ok stamped) : StampedBy p stamped :=
  ⟨Value.dict_of_setItem h, Value.field_setItem_self h⟩

/-- What a reader hands over or holds after a step. -/
theorem Proc.read_stamped {p p' : Proc} {handed : Option Value} (h : p.read = some (p', handed))
    (hold : ∀ event, p.reader = .holding event → StampedBy p event) :
    (∀ event, handed = some event → StampedBy p event) ∧
      ∀ event, p'.reader = .holding event → StampedBy p event := by
  unfold Proc.read at h
  split at h
  next hreader =>
    obtain ⟨rfl, rfl⟩ := Prod.mk.inj (Option.some.inj h)
    refine ⟨by simp, fun event hevent => ?_⟩
    split at hevent <;> simp at hevent
  next hreader =>
    split at h <;>
      · obtain ⟨rfl, rfl⟩ := Prod.mk.inj (Option.some.inj h)
        exact ⟨by simp, by simp⟩
  next hreader =>
    split at h
    · split at h
      · simp at h
      · obtain ⟨rfl, rfl⟩ := Prod.mk.inj (Option.some.inj h)
        exact ⟨by simp, by simp⟩
    · split at h
      next stamped hset =>
        obtain ⟨rfl, rfl⟩ := Prod.mk.inj (Option.some.inj h)
        refine ⟨by simp, fun event hevent => ?_⟩
        obtain rfl := Reader.holding.inj hevent
        exact stampedBy_of_setItem hset
      · obtain ⟨rfl, rfl⟩ := Prod.mk.inj (Option.some.inj h)
        exact ⟨by simp, by simp⟩
  next event hreader =>
    obtain ⟨rfl, rfl⟩ := Prod.mk.inj (Option.some.inj h)
    refine ⟨fun other hother => ?_, by simp⟩
    obtain rfl := Option.some.inj hother
    exact hold event hreader
  · simp at h

/-- A process that was never started has nothing to read. -/
theorem Proc.read_exited {p : Proc} (h : p.reader = .exited) : p.read = none := by
  simp [Proc.read, h]

namespace AgentOS

/-- Whatever comes from a process carries its stamp. -/
structure Stamped (os : AgentOS) : Prop where
  bus : ∀ pid event, (.process pid, event) ∈ os.eventBus →
    pid < os.nextPid ∧ StampedBy (os.procs pid) event
  reader : ∀ pid event, (os.procs pid).reader = .holding event → StampedBy (os.procs pid) event
  fresh : ∀ pid, os.nextPid ≤ pid → (os.procs pid).reader = .exited
  outside : ∀ identity event, (.kernel identity, event) ∉ os.eventBus

variable {os os' : AgentOS}

/-- Stamps stay while nothing is sent or read. -/
theorem Stamped.still (h : os.Stamped) (hs : Still os os') : os'.Stamped where
  bus pid event hmem := by
    obtain ⟨hlt, hstamp⟩ := h.bus pid event (hs.eventBus ▸ hmem)
    exact ⟨hs.nextPid ▸ hlt, hstamp.of_spec (hs.procs pid).2.1⟩
  reader pid event hreader := by
    rw [hs.same pid] at hreader
    exact (h.reader pid event hreader).of_spec (hs.procs pid).2.1
  fresh pid hpid := by
    rw [hs.same pid]
    exact h.fresh pid (hs.nextPid ▸ hpid)
  outside identity event := hs.eventBus ▸ h.outside identity event

/-- A new process has a reader that holds nothing. -/
theorem Stamped.spawned (h : os.Stamped) (identity : String) (spawn : Spawn) (spec : Spec)
    (agent : Bool) : (os.spawned identity spawn spec agent).Stamped where
  bus pid event hmem := by
    obtain ⟨hlt, hstamp⟩ := h.bus pid event hmem
    exact ⟨Nat.lt_succ_of_lt hlt, by simpa [hlt.ne] using hstamp⟩
  reader pid event hreader := by
    by_cases hpid : pid = os.nextPid
    · subst hpid
      simp [Proc.started] at hreader
    · simpa [hpid] using h.reader pid event (by simpa [hpid] using hreader)
  fresh pid hpid := by
    have hlt : os.nextPid < pid := hpid
    simpa [hlt.ne'] using h.fresh pid hlt.le
  outside := h.outside

/-- Acts keep the stamps. -/
theorem Stamped.act {w : Warrant} (h : os.Stamped) (ha : Act w os os') : os'.Stamped := by
  rcases ha.still with hs | ⟨identity, spawn, rfl⟩ |
    ⟨identity, spawn, spec, agent, -, -, -, rfl⟩ | ⟨identity, handle, -, -, -, rfl⟩ |
    ⟨handle, pid, -, -, -, -, rfl⟩
  · exact h.still hs
  · exact ⟨h.bus, h.reader, h.fresh, h.outside⟩
  · exact h.spawned identity spawn spec agent
  · exact ⟨h.bus, h.reader, h.fresh, h.outside⟩
  · exact ⟨h.bus, h.reader, h.fresh, h.outside⟩

/-- A process moves on, and its reader may have taken a step. -/
theorem Stamped.setProc {pid : ℕ} {p : Proc} (h : os.Stamped) (hspec : p.spec = (os.procs pid).spec)
    (hreader : ∀ event, p.reader = .holding event → StampedBy (os.procs pid) event)
    (hexited : (os.procs pid).reader = .exited → p.reader = .exited) :
    (os.setProc pid p).Stamped where
  bus other event hmem := by
    obtain ⟨hlt, hstamp⟩ := h.bus other event hmem
    refine ⟨hlt, hstamp.of_spec ?_⟩
    by_cases hpid : other = pid
    · subst hpid
      simpa [AgentOS.setProc] using hspec
    · simp [AgentOS.setProc, hpid]
  reader other event hholds := by
    by_cases hpid : other = pid
    · subst hpid
      have hstamp := hreader event (by simpa [AgentOS.setProc] using hholds)
      exact hstamp.of_spec (by simpa [AgentOS.setProc] using hspec)
    · simpa [AgentOS.setProc, hpid] using h.reader other event (by simpa [AgentOS.setProc, hpid] using hholds)
  fresh other hother := by
    have hold := h.fresh other hother
    by_cases hpid : other = pid
    · subst hpid
      simpa [AgentOS.setProc] using hexited hold
    · simpa [AgentOS.setProc, hpid] using hold
  outside := h.outside

/-- What is left on the bus when an event is taken. -/
theorem Stamped.take {item : Producer × Value} {rest : List (Producer × Value)} (h : os.Stamped)
    (hbus : os.eventBus = item :: rest) : Stamped { os with eventBus := rest } where
  bus pid event hmem := h.bus pid event (hbus ▸ List.mem_cons_of_mem _ hmem)
  reader := h.reader
  fresh := h.fresh
  outside identity event hmem := h.outside identity event (hbus ▸ List.mem_cons_of_mem _ hmem)

/-- Answering and emitting reads and sends nothing. -/
theorem Rounds.still {device : Device} (h : Rounds device os os') : Still os os' := by
  have hanswered (event : Value) (tasks : Dispatch.BucketDispatcher Value Value) :
      Still os ((os.respondAs device event).1.setTasks device tasks) := by
    cases device <;> simp only [respondAs] <;> split <;>
      exact .of_eq rfl rfl rfl rfl rfl rfl rfl rfl
  cases h with
  | silent queued queues => exact hanswered _ _
  | emitting queued queues spoken emitted ends =>
    exact ((hanswered _ _).trans emitted.still).trans (.of_eq rfl rfl rfl rfl rfl rfl rfl rfl)

/-- Everything beside the event loop keeps the stamps. -/
theorem Stamped.background (h : os.Stamped) (hw : os.Wired) (hb : Background os os') : os'.Stamped := by
  cases hb with
  | send pid value connected => exact h.setProc rfl (h.reader pid) id
  | @serve pid p served =>
    have hsame : p.reader = (os.procs pid).reader := by
      unfold Proc.serve at served
      split at served
      · split at served
        · obtain rfl := Option.some.inj served
          rfl
        · simp at served
      · simp at served
    exact h.setProc (Proc.Later.serve served).spec (hsame ▸ h.reader pid) fun hexited => hsame.trans hexited
  | exit pid => exact h.setProc rfl (h.reader pid) id
  | close pid => exact h.setProc rfl (h.reader pid) id
  | @read pid p handed reads =>
    obtain ⟨hhanded, hholds⟩ := Proc.read_stamped reads (h.reader pid)
    have hrunning : (os.procs pid).reader ≠ .exited := fun hexited => by
      simp [Proc.read_exited hexited] at reads
    have hspec := (Proc.Later.read reads).spec
    have hnext : (os.setProc pid p).Stamped :=
      h.setProc hspec hholds fun hexited => absurd hexited hrunning
    refine ⟨fun sender event hmem => ?_, hnext.reader, hnext.fresh, fun identity event hmem => ?_⟩
    case refine_2 =>
      rcases List.mem_append.mp hmem with hmem | hmem
      · exact h.outside identity event hmem
      · obtain ⟨event', -, heq⟩ := List.mem_map.mp hmem
        simp at heq
    rcases List.mem_append.mp hmem with hmem | hmem
    · exact hnext.bus sender event hmem
    · obtain ⟨event', hevent', heq⟩ := List.mem_map.mp hmem
      obtain ⟨hsender, rfl⟩ := Prod.mk.inj heq
      obtain rfl := Producer.process.inj hsender
      have hlt : pid < os.nextPid := by
        by_contra hge
        exact hrunning (h.fresh pid (Nat.le_of_not_lt hge))
      refine ⟨hlt, (hhanded event' (by simpa using hevent')).of_spec ?_⟩
      simpa [AgentOS.setProc] using hspec
  | put event =>
    refine ⟨fun sender event' hmem => h.bus sender event' ?_, h.reader, h.fresh,
      fun identity event' hmem => h.outside identity event' ?_⟩
    · simpa using hmem
    · simpa using hmem
  | edit disk => exact ⟨h.bus, h.reader, h.fresh, h.outside⟩
  | tick clock => exact ⟨h.bus, h.reader, h.fresh, h.outside⟩
  | begin begins => exact ⟨h.bus, h.reader, h.fresh, h.outside⟩
  | round serves => exact h.still (rounds_of_round hw serves).still

/-- Runs begin without an event on its way. -/
theorem stamped_of_boots {config : Value} (h : Boots config os) : os.Stamped := by
  refine h.invariant (fun runtimeRoot disk clock limits => ⟨?_, ?_, fun _ _ => rfl, ?_⟩)
    fun _ hs ha => hs.act ha
  · simp [AgentOS.new]
  · simp [AgentOS.new, Proc.blank]
  · simp [AgentOS.new]

end AgentOS

end MyTeam.Kernel
