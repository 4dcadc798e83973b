import MyTeam.Kernel.Acts

/-!
# What waits for the kernel-mode devices

An event addressed to the Authority or the Journal waits in a bucket until a worker answers
it. `Filed P` says that everything that waits satisfies `P`. It is kept by the whole system
if `P` holds of the events that are accepted for a device and of what the kernel says itself.
-/

namespace MyTeam.Kernel

open MyTeam.Py MyTeam.Async MyTeam.Dispatch Coroutine Relation

namespace AgentOS

/-- An event waits in a bucket of the device. -/
def Queued (os : AgentOS) (device : Device) (event : Value) : Prop :=
  ∃ source job, job ∈ (os.dispatchers device).queues source ∧ job.event = event

/-- Everything that waits for a device has a name for its source and satisfies `P`. -/
def Filed (P : Device → Value → Prop) (os : AgentOS) : Prop :=
  ∀ device event, os.Queued device event → (∃ source, event.field "source" = .str source) ∧
    P device event

/-- What the kernel says itself satisfies `P`. -/
def Says (P : Device → Value → Prop) : Prop :=
  ∀ device source target payload, source = "kernel" ∨ source = "authority" ∨ source = "journal" →
    Spoken target payload → P device (emission source target payload)

/-- The kernel does not speak as `system`. -/
theorem not_mutates_emission {source : String} {target : Value} {payload : List (String × Value)}
    {commands : List String} (known : source = "kernel" ∨ source = "authority" ∨ source = "journal") :
    ¬ Authority.Mutates (emission source target payload) commands := by
  rintro ⟨hsource, -⟩
  rw [emission_source, Value.str.injEq] at hsource
  rcases known with rfl | rfl | rfl <;> simp at hsource

variable {P : Device → Value → Prop} {os os' : AgentOS}

/-- A submitted event waits. -/
theorem queued_submit {device other : Device} {event event' : Value}
    (h : (os.submit device event).Queued other event') :
    os.Queued other event' ∨ other = device ∧ event' = event := by
  obtain ⟨source, job, hmem, rfl⟩ := h
  by_cases hdevice : other = device
  · subst hdevice
    have hqueues : ((os.submit other event).dispatchers other).queues =
        ((os.dispatchers other).put protocol event).queues := by
      simp only [submit, Function.update_self, BucketDispatcher.submit]
      split <;> rfl
    rw [hqueues, BucketDispatcher.put] at hmem
    by_cases hsource : source = protocol.source event
    · subst hsource
      simp only [Function.update_self, List.mem_append, List.mem_singleton] at hmem
      rcases hmem with hmem | rfl
      · exact Or.inl ⟨_, job, hmem, rfl⟩
      · exact Or.inr ⟨rfl, rfl⟩
    · exact Or.inl ⟨source, job, by simpa [hsource] using hmem, rfl⟩
  · exact Or.inl ⟨source, job, by simpa [submit, hdevice] using hmem, rfl⟩

/-- Where the buckets are as they were, nothing else waits. -/
theorem Filed.of_dispatchers (h : Filed P os) (hsame : os'.dispatchers = os.dispatchers) :
    Filed P os' := by
  intro device event hqueued
  rw [Queued, hsame] at hqueued
  exact h device event hqueued

/-- Where a device's buckets only lose events, nothing else waits. -/
theorem Filed.setTasks {device : Device} {tasks : BucketDispatcher Value Value} (h : Filed P os)
    (hqueues : ∀ s, tasks.queues s <:+ (os.dispatchers device).queues s) :
    Filed P (os.setTasks device tasks) := by
  rintro other event ⟨source, job, hmem, rfl⟩
  by_cases hdevice : other = device
  · subst hdevice
    exact h other job.event
      ⟨source, job, (hqueues source).subset (by simpa [AgentOS.setTasks] using hmem), rfl⟩
  · exact h other job.event ⟨source, job, by simpa [AgentOS.setTasks, hdevice] using hmem, rfl⟩

/-- Processing an event files at most that event. -/
theorem Filed.processed {producer : Producer} {event : Value} {r : Except Exc Unit} (h : Filed P os)
    (hw : os.Wired) (hp : Processed producer event os r os')
    (hevent : ∀ device source, os.validate event = .accepted →
      Accepted os.registered event source device.identity → P device event) : Filed P os' := by
  cases hp with
  | @submitted source target device valid accepted entity =>
    have hobserved : Filed P (os.observe producer event event) := h.of_dispatchers rfl
    intro other event' hqueued
    rcases queued_submit hqueued with hold | ⟨rfl, rfl⟩
    · exact hobserved other event' hold
    · obtain rfl := hw.kernelMode entity
      exact ⟨⟨source, accepted.source_eq⟩, hevent other source valid accepted⟩
  | _ => exact h.of_dispatchers rfl

/-- Emitting an event files something the kernel says. -/
theorem Filed.emitted {source : String} {target : Value} {payload : List (String × Value)}
    {r : Except Exc Unit} (h : Filed P os) (hw : os.Wired) (hspeech : Says P)
    (known : source = "kernel" ∨ source = "authority" ∨ source = "journal")
    (spoken : Spoken target payload)
    (he : Emitted source (emission source target payload) os r os') : Filed P os' := by
  cases he with
  | routed processed =>
    exact h.processed hw processed fun device _ _ _ =>
      hspeech device source target payload known spoken
  | served valid accepted => exact h.of_dispatchers rfl

/-- Acts file the event that is processed, and what the kernel says. -/
theorem Filed.act {entry : AgentOS} {producer : Producer} {event : Value} (h : Filed P os)
    (hw : os.Wired) (hspeech : Says P) (ha : Act (.item entry producer event) os os')
    (hevent : ∀ device source, entry.validate event = .accepted →
      Accepted entry.registered event source device.identity → P device event) : Filed P os' := by
  cases ha with
  | route warrant processed =>
    obtain ⟨rfl, rfl, rfl⟩ := Warrant.item.inj warrant
    exact h.processed hw processed hevent
  | emit known spoken emitted =>
    exact h.emitted hw hspeech (known.imp_right Or.inl) spoken emitted
  | _ => exact h.of_dispatchers rfl

/-- The acts of `setup` file what the kernel says. -/
theorem Filed.setup (h : Filed P os) (hw : os.Wired) (hspeech : Says P) (ha : Act .setup os os') :
    Filed P os' := by
  cases ha with
  | route warrant processed => simp at warrant
  | emit known spoken emitted =>
    exact h.emitted hw hspeech (known.imp_right Or.inl) spoken emitted
  | _ => exact h.of_dispatchers rfl

/-- Nothing waits in a fresh kernel. -/
theorem filed_new (runtimeRoot : String) (disk : Disk) (clock : String) (limits : Limits) :
    Filed P (.new runtimeRoot disk clock limits) := by
  rintro device event ⟨source, job, hmem, -⟩
  simp [AgentOS.new, BucketDispatcher.new] at hmem

/-- Answering changes no bucket. -/
theorem respondAs_dispatchers (os : AgentOS) (device : Device) (event : Value) :
    (os.respondAs device event).1.dispatchers = os.dispatchers := by
  cases device <;> simp only [respondAs] <;> split <;> rfl

/-- The names of the devices. -/
theorem identity_known (device : Device) :
    device.identity = "kernel" ∨ device.identity = "authority" ∨ device.identity = "journal" := by
  cases device <;> simp [Device.identity]

/-- A round answers an event that waits; what remains are events that waited, and answers. -/
theorem Filed.rounds {device : Device} (h : Filed P os) (hw : os.Wired) (hspeech : Says P)
    (hr : Rounds device os os') : Filed P os' := by
  have hanswered (event : Value) : Filed P (os.respondAs device event).1 :=
    h.of_dispatchers (respondAs_dispatchers os device event)
  cases hr with
  | @silent source job tasks queued queues =>
    refine (hanswered job.event).setTasks fun s => ?_
    rw [respondAs_dispatchers]
    exact queues s
  | @emitting source job tasks done target payload r os₁ queued queues spoken emitted ends =>
    obtain ⟨⟨sender, hsender⟩, -⟩ := h device job.event ⟨source, job, queued, rfl⟩
    have hfiled : Filed P ((os.respondAs device job.event).1.setTasks device tasks) := by
      refine (hanswered job.event).setTasks fun s => ?_
      rw [respondAs_dispatchers]
      exact queues s
    have hwired := ((respondAs_calm os device job.event).trans (setTasks_calm _ device tasks)).wired hw
    have hspoken := spoken (by rw [hsender]; rfl)
    exact (hfiled.emitted hwired hspeech (identity_known device) hspoken emitted).setTasks ends

/-- Everything beside the event loop files only what the kernel says. -/
theorem Filed.background (h : Filed P os) (hw : os.Wired) (hspeech : Says P)
    (hb : Background os os') : Filed P os' := by
  cases hb with
  | begin begins => exact h.setTasks (BucketDispatcher.step_queues begins (by simp))
  | round serves => exact h.rounds hw hspeech (rounds_of_round hw serves)
  | _ => exact h.of_dispatchers rfl

end AgentOS

end MyTeam.Kernel
