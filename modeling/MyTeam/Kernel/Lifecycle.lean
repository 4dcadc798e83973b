import MyTeam.Kernel.Runs

/-!
# Who may stop a process

The kernel stops a process by delivering a `terminate` event or by killing it, and does both
for `install_device`, `uninstall_device` and `maintenance_session` after `_authorize_device`.
The validator also accepts a `terminate` event from anybody for any target, and routing
delivers it like every other event; processes are safe from each other only in runs in which
nobody sends one.
-/

namespace MyTeam.Kernel

open MyTeam.Py MyTeam.Async Coroutine Relation

/-- The commands that stop and start processes. -/
def AgentOS.Command.lifecycle : AgentOS.Command → Bool
  | .installDevice | .uninstallDevice | .maintenanceSession => true
  | .grantScope | .revokeScope => false

/-- The device a command is about. -/
def concerns (event : Value) : AgentOS.Command → Value
  | .installDevice | .uninstallDevice => (event.field "payload").field "identity"
  | .maintenanceSession => (event.field "payload").field "target_device"
  | .grantScope | .revokeScope => (event.field "payload").field "device"

/-- The event is a command that may stop processes, and its sender passes
`_authorize_device` for the device concerned. -/
def AuthorisedCommand (entry : AgentOS) (event : Value) : Prop :=
  ∃ command device, commandOf event = some command ∧ command.lifecycle = true ∧
    concerns event command = .str device ∧
    entry.authority.authorizesDevice (event.field "source") device = .ok true

/-- The kernel has not asked the process to stop: it was not killed, and nothing that was
delivered stops it. -/
structure Proc.Spared (p p' : Proc) : Prop where
  killed : p'.killed = p.killed
  delivered : ∃ events, p'.delivered = p.delivered ++ events ∧ ∀ event ∈ events, stops event = false

namespace Proc.Spared

/-- Nothing happened. -/
theorem refl (p : Proc) : p.Spared p := ⟨rfl, [], by simp, by simp⟩

/-- Processes move on without being stopped. -/
theorem later {p p' p'' : Proc} (h : p.Spared p') (h' : p'.Later p'') : p.Spared p'' := by
  obtain ⟨events, hevents, hstops⟩ := h.delivered
  obtain ⟨events', hevents', hstops'⟩ := h'.delivered
  refine ⟨h'.killed.trans h.killed, events ++ events',
    by rw [hevents', hevents, List.append_assoc], fun event hevent => ?_⟩
  rcases List.mem_append.mp hevent with hevent | hevent
  · exact hstops event hevent
  · exact hstops' event hevent

end Proc.Spared

/-- Whoever has a warrant to stop processes has given an authorised command. -/
theorem Warrant.Stops.authorised {entry : AgentOS} {producer : Producer} {event : Value}
    (h : (Warrant.item entry producer event).Stops) : AuthorisedCommand entry event := by
  rcases h with ⟨device, hinstalls⟩ | ⟨device, huninstalls⟩ | ⟨actor, device, hmaintains⟩
  · obtain ⟨grants, hchecked⟩ := hinstalls.checked
    exact ⟨_, device, hinstalls.carries, rfl, hchecked.identity_eq, hchecked.authorised⟩
  · obtain ⟨handle, hchecked⟩ := huninstalls.checked
    exact ⟨_, device, huninstalls.carries, rfl, hchecked.identity_eq, hchecked.authorised⟩
  · obtain ⟨handle, position, hchecked⟩ := hmaintains.checked
    exact ⟨_, device, hmaintains.carries, rfl, hchecked.target_eq, hchecked.authorised⟩

namespace AgentOS

/-- A process sends a `terminate` event that is accepted and can be delivered to another
process that is alive. -/
structure Terminates (entry : AgentOS) (sender : ℕ) (event : Value) (pid : ℕ) : Prop where
  other : sender ≠ pid
  valid : entry.validate event = .accepted
  system : event.field "kind" = .str "system"
  target : ∃ target handle, event.field "target" = .str target ∧
    entry.entities target = some (.process handle) ∧ (entry.handles handle).process = some pid
  alive : (entry.procs pid).alive = true
  opened : (entry.procs pid).open = true
  enriched : ∃ event', entry.enriched event = .ok event'

/-- No process sends such an event. -/
def sparesOthers (entry : AgentOS) (item : Producer × Value) : Prop :=
  ∀ sender pid, item.1 = .process sender → ¬ Terminates entry sender item.2 pid

/-- While an event of a process is processed, no other process is asked to stop unless the
event is an authorised command; nothing that happens beside the event loop stops one. -/
def LifecycleGuarded (l : LoopState AgentOS (Producer × Value) Exc) : Prop :=
  (∀ os pid, Background l.state os → (l.state.procs pid).Spared (os.procs pid)) ∧
  match l.control with
  | .idle => True
  | .handling entry item _ => ∀ sender pid, item.1 = .process sender → sender ≠ pid →
    (entry.procs pid).alive = true → ¬ (entry.procs pid).Spared (l.state.procs pid) →
    AuthorisedCommand entry item.2

/-- Routing an event stops another process only if it terminates it. -/
theorem Processed.spared {sender : ℕ} {event : Value} {os os' : AgentOS} {r : Except Exc Unit}
    (h : Processed (.process sender) event os r os') {pid : ℕ} (hother : sender ≠ pid)
    (halive : (os.procs pid).alive = true) (hspares : ¬ Terminates os sender event pid) :
    (os.procs pid).Spared (os'.procs pid) := by
  cases h with
  | @pushed source target handle receiver event' valid accepted entity process opened known =>
    by_cases hpid : pid = receiver
    · subst hpid
      obtain ⟨hdict, hfields⟩ := enriched_fields known accepted.dict
      rcases accepted.kind with hkind | ⟨hkind, -⟩
      · have hstops := stops_application hdict ((hfields "kind" (by decide)).trans hkind)
        refine ⟨?_, [event'], ?_, by simpa using hstops⟩ <;> simp [push, observe, log, note]
      · exact absurd ⟨hother, valid, hkind, ⟨target, handle, accepted.target_eq, entity, process⟩,
          halive, opened, event', known⟩ hspares
    · simpa [push, observe, log, note, hpid] using Proc.Spared.refl _
  | _ => exact .refl _

/-- An act stops no process, unless it has a warrant for that or routes the event. -/
theorem Act.spared {entry os os' : AgentOS} {producer : Producer} {event : Value}
    (h : Act (.item entry producer event) os os') :
    (Warrant.item entry producer event).Stops ∨ (∀ pid, (os.procs pid).Later (os'.procs pid)) ∨
      entry = os ∧ ∃ r, Processed producer event os r os' := by
  cases h with
  | route warrant processed =>
    obtain ⟨rfl, rfl, rfl⟩ := Warrant.item.inj warrant
    exact Or.inr (Or.inr ⟨rfl, _, processed⟩)
  | emit known spoken emitted => exact Or.inr (Or.inl emitted.calm.procs)
  | spawn legal call named allowed =>
    obtain ⟨-, -, -, ⟨options, -, hinstalls⟩ | ⟨target, -, -, -, hmaintains⟩⟩ := allowed
    · exact Or.inl (Or.inl ⟨_, hinstalls⟩)
    · exact Or.inl (Or.inr (Or.inr ⟨_, _, hmaintains⟩))
  | remove entity vacant allowed => exact Or.inl allowed
  | signal retiring process allowed => exact Or.inl allowed
  | kill retiring process allowed => exact Or.inl allowed
  | _ => exact Or.inr (Or.inl fun _ => .refl _)

/-- In every run in which no process sends `terminate` to another one, processes are stopped
only by authorised commands. -/
theorem lifecycle_guarded {config : Value} {l : LoopState AgentOS (Producer × Value) Exc}
    (h : Reachable config (.taking sparesOthers) l) : LifecycleGuarded l := by
  let J (entry : AgentOS) (item : Producer × Value) (os : AgentOS) : Prop :=
    sparesOthers entry item ∧ ((Warrant.item entry item.1 item.2).Stops ∨
      ∀ sender pid, item.1 = .process sender → sender ≠ pid → (entry.procs pid).alive = true →
        (entry.procs pid).Spared (os.procs pid))
  have hact {entry os os' : AgentOS} {item : Producer × Value} (_ : os.Wired) (hJ : J entry item os)
      (ha : Act (.item entry item.1 item.2) os os') : J entry item os' := by
    obtain ⟨hspares, hJ⟩ := hJ
    refine ⟨hspares, ?_⟩
    rcases ha.spared with hstops | hlater | ⟨rfl, r, processed⟩
    · exact Or.inl hstops
    · exact hJ.imp_right fun hspared sender pid hsender hother halive =>
        (hspared sender pid hsender hother halive).later (hlater pid)
    · refine Or.inr fun sender pid hsender hother halive => ?_
      rw [hsender] at processed
      exact processed.spared hother halive (hspares sender pid hsender)
  have hwait {entry os os' : AgentOS} {item : Producer × Value} (hw : os.Wired) (hJ : J entry item os)
      (hb : Background os os') : J entry item os' :=
    ⟨hJ.1, hJ.2.imp_right fun hspared sender pid hsender hother halive =>
      (hspared sender pid hsender hother halive).later ((hb.calm hw).procs pid)⟩
  have hthroughout : Throughout (fun _ => True) J l :=
    h.stepwise (fun _ _ => trivial) (fun _ _ _ => trivial)
      (fun _ _ _ _ htake => ⟨htake, Or.inr fun _ _ _ _ _ => .refl _⟩) hact hwait fun _ _ _ => trivial
  have hbackground (hw : l.state.Wired) (os : AgentOS) (pid : ℕ) (hb : Background l.state os) :
      (l.state.procs pid).Spared (os.procs pid) := (Proc.Spared.refl _).later ((hb.calm hw).procs pid)
  cases hcontrol : l.control with
  | idle =>
    simp only [LifecycleGuarded, hcontrol]
    exact ⟨hbackground (hthroughout.idle hcontrol).1, trivial⟩
  | handling entry item progress =>
    obtain ⟨hw, -, hstops | hspared⟩ := hthroughout.handling hcontrol
    · simp only [LifecycleGuarded, hcontrol]
      exact ⟨hbackground hw, fun _ _ _ _ _ _ => hstops.authorised⟩
    · simp only [LifecycleGuarded, hcontrol]
      exact ⟨hbackground hw, fun sender pid hsender hother halive hstopped =>
        absurd (hspared sender pid hsender hother halive) hstopped⟩

section Scenario

/-- Two agents without privileges. -/
def peersConfig : Value := .dict [("agents", .list [agentSpec "a" "dev", agentSpec "b" "dev"])]

/-- `a` greets `b`. -/
def greetPeer : List (EventLoop.Move Ambient) :=
  sends 0 (applicationEvent (.str "b") [("text", .str "hello")]) ++ [.take]

/-- `a` terminates `b`. -/
def terminatePeer : List (EventLoop.Move Ambient) := sends 0 (terminateEvent "b") ++ [.take]

/-- A greeting. -/
theorem lifecycle_guarded_greeting : ∃ l, scenario peersConfig emptyDisk greetPeer = some l ∧
    (l.state.procs 1).delivered ≠ [] ∧ LifecycleGuarded l := by
  have hplays : (scenario peersConfig emptyDisk greetPeer).any fun l =>
      (l.state.procs 1).delivered.length = 1 := by decide +kernel
  have htaken : (scenarioTaken peersConfig emptyDisk greetPeer).all fun taken =>
      (taken.2.2.field "kind").isStr "system" = false := by decide +kernel
  have hallowed : ∀ taken ∈ scenarioTaken peersConfig emptyDisk greetPeer,
      sparesOthers taken.1 taken.2 := by
    intro taken hmem sender pid _ hterminates
    have hkind := of_decide_eq_true (List.all_eq_true.mp htaken taken hmem)
    rw [hterminates.system] at hkind
    simp [Value.isStr] at hkind
  obtain ⟨l, hplayed, hends⟩ := (Option.any_eq_true _ _).mp hplays
  refine ⟨l, hplayed, ?_, lifecycle_guarded (reachable_of_scenario hplayed hallowed)⟩
  exact List.ne_nil_of_length_pos (by simp [of_decide_eq_true hends])

/-- Every agent can stop every other process. -/
theorem terminate_reaches_peer : ∃ l, Reachable peersConfig .free l ∧ ¬ LifecycleGuarded l := by
  have hplays : (scenario peersConfig emptyDisk terminatePeer).any fun l =>
      match l.control with
      | .idle => false
      | .handling entry item _ =>
        decide (item.1 = .process 0) && (entry.procs 1).alive &&
        decide ((entry.procs 1).delivered.length = 0) && (l.state.procs 1).delivered.any stops &&
        decide (commandOf item.2 = none) := by
    decide +kernel
  obtain ⟨l, hplayed, hends⟩ := (Option.any_eq_true _ _).mp hplays
  refine ⟨l, reachable_free_of_scenario hplayed, fun hguarded => ?_⟩
  obtain ⟨state, control⟩ := l
  cases control with
  | idle => simp at hends
  | handling entry item progress =>
    simp only [Bool.and_eq_true, decide_eq_true_eq] at hends
    obtain ⟨⟨⟨⟨hsender, halive⟩, hbefore⟩, hstopped⟩, hcommand⟩ := hends
    have hnot : ¬ (entry.procs 1).Spared (state.procs 1) := by
      intro hspared
      obtain ⟨events, hevents, hstops⟩ := hspared.delivered
      obtain ⟨event, hmem, hstop⟩ := List.any_eq_true.mp hstopped
      rw [hevents, List.length_eq_zero_iff.mp hbefore, List.nil_append] at hmem
      exact absurd hstop (by simp [hstops event hmem])
    obtain ⟨command, device, hcarries, -⟩ := hguarded.2 0 1 hsender (by decide) halive hnot
    exact absurd (hcommand.symm.trans hcarries) (by simp)

end Scenario

end AgentOS

end MyTeam.Kernel
