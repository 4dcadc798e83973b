import MyTeam.Kernel.Segments

/-!
# Runs of the kernel

`setup` performs acts as well, so every run begins in a wired state. The rule for runs
follows: a property that every act and every background step keeps holds throughout.
-/

namespace MyTeam.Kernel

open MyTeam.Py MyTeam.Async Coroutine Relation

namespace AgentOS

section Setup

variable {start os : AgentOS}

/-- A fresh kernel is wired. -/
theorem wired_new (runtimeRoot : String) (disk : Disk) (clock : String) (limits : Limits) :
    (AgentOS.new runtimeRoot disk clock limits).Wired where
  kernel := rfl
  kernel_only := by
    intro identity h
    by_contra hne
    simp only [AgentOS.new, hne, if_false] at h
    split at h
    · simp at h
    · split at h <;> simp at h
  kernelMode := by
    intro identity device h
    simp only [AgentOS.new] at h
    split at h
    · simp at h
    · split at h
      next hname =>
        obtain rfl : Device.authority = device := by simpa using h
        exact hname
      · split at h
        next hname =>
          obtain rfl : Device.journal = device := by simpa using h
          exact hname
        · simp at h
  registered := by
    intro identity handle h
    simp only [AgentOS.new] at h
    split at h
    · simp at h
    · split at h
      · simp at h
      · split at h <;> simp at h
  process := by simp [AgentOS.new]
  spec := by simp [AgentOS.new]
  fresh := by simp [AgentOS.new, Proc.blank]

/-- Installing a device of the configuration. -/
theorem along_installFromConfig {identity : String} {grants : Value} (h : Clear .setup start os) :
    wp (contract .setup) (installFromConfig identity grants)
      (fun start _ os' => Clear .setup start os') start os := by
  simp only [installFromConfig, wp_bind, wp_get, wp_ofExcept]
  cases hload : loadModule (os.sourceFile identity) (os.disk.module identity) with
  | error error => exact h
  | ok declared =>
    obtain ⟨tools, scopes⟩ := declared
    simp only
    refine wp_imp (along_register rfl (by simp [Spawns]) h) fun start r os' h' => ?_
    cases r with
    | error error => exact h'
    | ok _ =>
      simp only
      cases grants.iter with
      | error error => exact h'
      | ok positions =>
        simp only
        refine wp_imp (along_wire (scopes_of_loadModule hload) trivial h') fun start r os'' h'' => ?_
        cases r with
        | error error => exact h''
        | ok _ =>
          simp only [wp_agents]
          exact along_injectAll h''

/-- Registering an agent of the configuration. -/
theorem along_setupAgent {spec : Value} (h : Clear .setup start os) :
    wp (contract .setup) (setupAgent spec) (fun start _ os' => Clear .setup start os') start os := by
  simp only [setupAgent, wp_bind, wp_ofExcept]
  cases spec.item "identity" with
  | error error => exact h
  | ok identity =>
    simp only
    cases spec.item "type" with
    | error error => exact h
    | ok type =>
      simp only
      split
      · exact h
      simp only [wp_bind, wp_ofExcept]
      cases spec.get "options" (.dict []) with
      | error error => exact h
      | ok options =>
        simp only
        cases options.get "position" .none with
        | error error => exact h
        | ok position =>
          simp only
          cases identityName identity with
          | error error => exact h
          | ok name =>
            simp only
            refine wp_imp (along_register rfl (by simp [Spawns]) h) fun start r os' h' => ?_
            cases r with
            | error error => exact h'
            | ok _ => exact h'.act (.disk _) rfl

/-- Installing a device of the configuration from a copy of its source. -/
theorem along_setupDevice {spec : Value} (h : Clear .setup start os) :
    wp (contract .setup) (setupDevice spec) (fun start _ os' => Clear .setup start os') start os := by
  simp only [setupDevice, wp_bind, wp_ofExcept]
  cases spec.item "identity" with
  | error error => exact h
  | ok identity =>
    simp only
    cases spec.item "source" with
    | error error => exact h
    | ok source =>
      simp only
      cases identityName source with
      | error error => exact h
      | ok source =>
        simp only
        cases identityName identity with
        | error error => exact h
        | ok name =>
          have hhome := h.act (.disk (os.makeHome name).disk) rfl
          simp only [wp_modify, copySource, wp_bind, wp_get]
          split
          · exact hhome
          · simp only [wp_modify]
            have hcopied := hhome.act (.disk { (os.makeHome name).disk with
              module := Function.update os.disk.module name (os.disk.source source) }) rfl
            cases spec.get "grants" (.list []) with
            | error error => exact hcopied
            | ok grants => exact along_installFromConfig hcopied

/-- `setup` performs acts. -/
theorem along_setup {config : Value} (h : Clear .setup start os) :
    wp (contract .setup) (setup config) (fun start _ os' => Clear .setup start os') start os := by
  simp only [setup, wp_bind, wp_ofExcept]
  cases config.get "agents" (.list []) with
  | error error => exact h
  | ok agents =>
    simp only
    cases agents.iter with
    | error error => exact h
    | ok agents =>
      simp only
      refine wp_imp (wp_forEach h fun _ _ _ _ => along_setupAgent) fun start r os' h' => ?_
      cases r with
      | error error => exact h'
      | ok _ =>
        simp only
        cases config.get "devices" (.list []) with
        | error error => exact h'
        | ok devices =>
          simp only
          cases devices.iter with
          | error error => exact h'
          | ok devices => exact wp_forEach h' fun _ _ _ _ => along_setupDevice

/-- The states from which runs begin. -/
theorem clear_of_boots {config : Value} (h : Boots config os) :
    ∃ runtimeRoot disk clock limits, Clear .setup (AgentOS.new runtimeRoot disk clock limits) os := by
  obtain ⟨runtimeRoot, disk, clock, limits, hsetup⟩ := h
  have hnew : Clear .setup (AgentOS.new runtimeRoot disk clock limits) (AgentOS.new runtimeRoot disk clock limits) :=
    ⟨⟨.refl, wired_new runtimeRoot disk clock limits⟩, rfl⟩
  have hwp : wp (contract .setup) (setup config) _ _ _ := along_setup hnew
  unfold wp at hwp
  rw [hsetup] at hwp
  exact ⟨runtimeRoot, disk, clock, limits, hwp⟩

/-- What every act keeps, acts keep. -/
theorem acts_invariant {w : Warrant} {P : AgentOS → Prop} (h : ReflTransGen (Act w) start os)
    (hw : start.Wired) (hP : P start)
    (hact : ∀ {os os'}, os.Wired → P os → Act w os os' → P os') : P os := by
  have hboth : os.Wired ∧ P os := by
    induction h with
    | refl => exact ⟨hw, hP⟩
    | tail _ hstep ih => exact ⟨hstep.wired ih.1, hact ih.1 ih.2 hstep⟩
  exact hboth.2

/-- What holds of a fresh kernel and is kept by the acts of `setup` holds when runs begin. -/
theorem Boots.invariant {config : Value} {P : AgentOS → Prop} (h : Boots config os)
    (hnew : ∀ runtimeRoot disk clock limits, P (.new runtimeRoot disk clock limits))
    (hact : ∀ {os os'}, os.Wired → P os → Act .setup os os' → P os') : P os := by
  obtain ⟨runtimeRoot, disk, clock, limits, hclear⟩ := clear_of_boots h
  exact acts_invariant hclear.acts (wired_new _ _ _ _) (hnew _ _ _ _) hact

end Setup

/-- What is known of a state of a run: `I` between events, `J` while one is processed. -/
def Throughout (I : AgentOS → Prop) (J : AgentOS → Producer × Value → AgentOS → Prop)
    (l : LoopState AgentOS (Producer × Value) Exc) : Prop :=
  match l.control with
  | .idle => l.state.Wired ∧ l.state.retiring = none ∧ I l.state
  | .handling entry item _ => l.state.Wired ∧ J entry item l.state

/-- Between two events. -/
theorem Throughout.idle {I : AgentOS → Prop} {J : AgentOS → Producer × Value → AgentOS → Prop}
    {l : LoopState AgentOS (Producer × Value) Exc} (h : Throughout I J l) (hcontrol : l.control = .idle) :
    l.state.Wired ∧ l.state.retiring = none ∧ I l.state := by
  simpa only [Throughout, hcontrol] using h

/-- While an event is processed. -/
theorem Throughout.handling {I : AgentOS → Prop} {J : AgentOS → Producer × Value → AgentOS → Prop}
    {l : LoopState AgentOS (Producer × Value) Exc} {entry : AgentOS} {item : Producer × Value}
    {progress : Progress AgentOS Exc} (h : Throughout I J l) (hcontrol : l.control = .handling entry item progress) :
    l.state.Wired ∧ J entry item l.state := by
  simpa only [Throughout, hcontrol] using h

/-- The next event is the first one on the bus. -/
theorem eventBus_of_next {os entry : AgentOS} {item : Producer × Value}
    (h : loop.next os = some (item, entry)) :
    ∃ rest, os.eventBus = item :: rest ∧ { os with eventBus := rest } = entry := by
  simp only [loop] at h
  split at h
  · simp at h
  next first rest hbus =>
    obtain ⟨rfl, rfl⟩ := Prod.mk.inj (Option.some.inj h)
    exact ⟨rest, hbus, rfl⟩

/-- The wiring does not depend on the bus. -/
theorem Wired.setEventBus {os : AgentOS} (hw : os.Wired) (eventBus : List (Producer × Value)) :
    AgentOS.Wired { os with eventBus } :=
  ⟨hw.kernel, hw.kernel_only, hw.kernelMode, hw.registered, hw.process, hw.spec, hw.fresh⟩

/-- The rule for runs. A property `I` of the states between events and a property `J` of the
states while an event is processed hold throughout, if background steps keep them, if `J`
holds when an event is taken and is kept by every segment, and if it leaves `I` behind. -/
theorem Reachable.throughout {config : Value} {rules : Rules AgentOS (Producer × Value)}
    {I : AgentOS → Prop} {J : AgentOS → Producer × Value → AgentOS → Prop}
    {l : LoopState AgentOS (Producer × Value) Exc} (h : Reachable config rules l)
    (hboot : ∀ os, Boots config os → I os)
    (hidle : ∀ {os os'}, os.Wired → I os → Background os os' → I os')
    (htake : ∀ {os item rest}, os.Wired → os.retiring = none → I os →
      os.eventBus = item :: rest → rules.take { os with eventBus := rest } item →
      J { os with eventBus := rest } item { os with eventBus := rest })
    (hacts : ∀ {entry item start os}, start.Wired → J entry item start →
      ReflTransGen (Act (.item entry item.1 item.2)) start os → rules.segment start os →
      J entry item os)
    (hwait : ∀ {entry item os os'}, os.Wired → J entry item os → Background os os' →
      J entry item os')
    (hsettle : ∀ {entry item os}, os.Wired → os.retiring = none → J entry item os → I os) :
    Throughout I J l := by
  let c (entry : AgentOS) (item : Producer × Value) : Contract AgentOS :=
    { wait := fun start os => start.Wired ∧ J entry item start ∧
        Along (.item entry item.1 item.2) start os
      rely := fun _ os os' => ReflTransGen Background os os' ∧ os'.Wired ∧ J entry item os' }
  let Q (entry : AgentOS) (item : Producer × Value) (start : AgentOS) (_ : Except Exc Unit)
      (os : AgentOS) : Prop :=
    start.Wired ∧ J entry item start ∧ Clear (.item entry item.1 item.2) start os
  let I' (os : AgentOS) : Prop := os.Wired ∧ os.retiring = none ∧ I os
  have hinit (os : AgentOS) (hb : Boots config os) : I' os := by
    obtain ⟨_, _, _, _, hclear⟩ := clear_of_boots hb
    exact ⟨hclear.wired, hclear.vacant, hboot os hb⟩
  have hbackground (os os' : AgentOS) (hI : I' os) (hb : Background os os') : I' os' :=
    have hcalm := hb.calm hI.1
    ⟨hcalm.wired hI.1, hcalm.retiring.trans hI.2.1, hidle hI.1 hI.2.2 hb⟩
  have hbody (os entry : AgentOS) (item : Producer × Value) (hI : I' os)
      (hnext : loop.next os = some (item, entry)) (hallowed : rules.take entry item) :
      (loop.body item entry).Holds (c entry item) (Q entry item) entry := by
    obtain ⟨rest, hbus, rfl⟩ := eventBus_of_next hnext
    have hw := hI.1.setEventBus rest
    have hJ := htake hI.1 hI.2.1 hI.2.2 hbus hallowed
    have hwp : wp _ (processEvent item.1 item.2) _ _ _ := along_processEvent hw hI.2.1
    let P (s : AgentOS) : Prop := s.Wired ∧ J { os with eventBus := rest } item s
    exact Outcome.Holds.strengthen (P := P) hwp ⟨hw, hJ⟩
      (fun start os hP hwait => ⟨hP.1, hP.2, hwait⟩) (fun _ _ _ _ _ hrely => ⟨hrely.1, hrely.2⟩)
      (fun start r os hP hclear => ⟨hP.1, hP.2, hclear⟩)
  have hmeanwhile (entry : AgentOS) (item : Producer × Value) (start w os os' : AgentOS)
      (hr : (c entry item).rely start w os) (hb : Background os os') :
      (c entry item).rely start w os' :=
    ⟨hr.1.tail hb, (hb.calm hr.2.1).wired hr.2.1, hwait hr.2.1 hr.2.2 hb⟩
  have hwaits (entry : AgentOS) (item : Producer × Value) (start w : AgentOS)
      (hw : (c entry item).wait start w) (hs : rules.segment start w) :
      (c entry item).rely start w w :=
    ⟨.refl, hw.2.2.wired, hacts hw.1 hw.2.1 hw.2.2.acts hs⟩
  have hreturn (entry : AgentOS) (item : Producer × Value) (start os : AgentOS)
      (hQ : Q entry item start (.ok ()) os) (hs : rules.segment start os) : I' os :=
    have hJ := hacts hQ.1 hQ.2.1 hQ.2.2.acts hs
    ⟨hQ.2.2.wired, hQ.2.2.vacant, hsettle hQ.2.2.wired hQ.2.2.vacant hJ⟩
  have hwithin := EventLoop.Reachable.within h hinit hbackground hbody hmeanwhile hwaits hreturn
  unfold EventLoop.Within at hwithin
  unfold Throughout
  split
  next hcontrol => simpa only [hcontrol] using hwithin
  next entry item progress hcontrol =>
    simp only [hcontrol] at hwithin
    cases progress with
    | waiting ready resume =>
      obtain ⟨start, w, -, -, hrely, -⟩ := hwithin
      exact hrely.2
    | returned =>
      obtain ⟨start, hQ, hs⟩ := hwithin
      exact ⟨hQ.2.2.wired, hacts hQ.1 hQ.2.1 hQ.2.2.acts hs⟩
    | raised error =>
      obtain ⟨start, hQ, hs⟩ := hwithin
      exact ⟨hQ.2.2.wired, hacts hQ.1 hQ.2.1 hQ.2.2.acts hs⟩

/-- The tables are wired in every state of every run. -/
theorem Reachable.wired {config : Value} {rules : Rules AgentOS (Producer × Value)}
    {l : LoopState AgentOS (Producer × Value) Exc} (h : Reachable config rules l) : l.state.Wired := by
  have hthroughout : Throughout (fun _ => True) (fun _ _ _ => True) l :=
    h.throughout (fun _ _ => trivial) (fun _ _ _ => trivial) (fun _ _ _ _ _ => trivial)
      (fun _ _ _ _ => trivial) (fun _ _ _ => trivial) fun _ _ _ => trivial
  unfold Throughout at hthroughout
  split at hthroughout <;> exact hthroughout.1

/-- The rule for runs, act by act, where only the choice of events is restricted. -/
theorem Reachable.stepwise {config : Value} {take : AgentOS → Producer × Value → Prop}
    {I : AgentOS → Prop} {J : AgentOS → Producer × Value → AgentOS → Prop}
    {l : LoopState AgentOS (Producer × Value) Exc} (h : Reachable config (.taking take) l)
    (hboot : ∀ os, Boots config os → I os)
    (hidle : ∀ {os os'}, os.Wired → I os → Background os os' → I os')
    (htake : ∀ {os item rest}, os.Wired → os.retiring = none → I os →
      os.eventBus = item :: rest → take { os with eventBus := rest } item →
      J { os with eventBus := rest } item { os with eventBus := rest })
    (hact : ∀ {entry item os os'}, os.Wired → J entry item os →
      Act (.item entry item.1 item.2) os os' → J entry item os')
    (hwait : ∀ {entry item os os'}, os.Wired → J entry item os → Background os os' →
      J entry item os')
    (hsettle : ∀ {entry item os}, os.Wired → os.retiring = none → J entry item os → I os) :
    Throughout I J l := by
  refine h.throughout hboot hidle htake (fun {entry item start os} hw hJ hacts _ => ?_) hwait hsettle
  exact acts_invariant hacts hw hJ hact

end AgentOS

end MyTeam.Kernel
