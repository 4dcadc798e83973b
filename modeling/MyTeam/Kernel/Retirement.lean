import MyTeam.Kernel.Traffic

/-!
# The last words of retired instances

Events carry an identity, not an instance. When an instance is retired, what it has sent may
still be in its channel, in the hands of its reader or on the bus. As long as the identity is
not registered such an event is dropped; once a new instance is registered it is taken for
the new instance's. So nothing of a retired instance is routed only in runs in which a new
instance is registered when nothing of the old one is on its way any more.
-/

namespace MyTeam.Kernel

open MyTeam.Py MyTeam.Async Coroutine Relation

/-- The reader will put nothing on the bus any more. -/
def Proc.silent (p : Proc) : Bool :=
  match p.reader with
  | .exited => true
  | .top => !p.alive
  | .polling | .receiving => p.outbox.isEmpty && !p.connected
  | .holding _ => false

namespace AgentOS

/-- The handle of the process was terminated. -/
def Retired (os : AgentOS) (pid : ℕ) : Prop :=
  pid < os.nextPid ∧ (os.handles (os.procs pid).handle).process = none

/-- Nothing of the process is on its way to the kernel. -/
def Quiet (os : AgentOS) (pid : ℕ) : Prop :=
  (os.procs pid).silent = true ∧ ∀ item ∈ os.eventBus, item.1 ≠ .process pid

instance (os : AgentOS) (pid : ℕ) : Decidable (os.Quiet pid) :=
  inferInstanceAs (Decidable (_ ∧ _))

/-- A handle that was registered since `start` succeeds a retired process. -/
def Succeeds (start os : AgentOS) (handle pid : ℕ) : Prop :=
  start.nextHandle ≤ handle ∧
    os.entities (os.handles handle).identity = some (.process handle) ∧
    (os.handles (os.procs pid).handle).process = none ∧
    (os.procs pid).spec.identity = (os.handles handle).identity

instance (start os : AgentOS) (handle pid : ℕ) : Decidable (Succeeds start os handle pid) :=
  inferInstanceAs (Decidable (_ ∧ _ ∧ _ ∧ _))

/-- Whoever is newly registered between `start` and `os` finds the processes that it succeeds
quiet. -/
def awaitsSilence (start os : AgentOS) : Prop :=
  ∀ handle < os.nextHandle, ∀ pid < start.nextPid, Succeeds start os handle pid → start.Quiet pid

instance (start os : AgentOS) : Decidable (awaitsSilence start os) :=
  inferInstanceAs (Decidable (∀ handle < _, ∀ pid < _, _))

/-- The event being processed, if it comes from a retired instance, was not accepted. -/
def RetiredUnheard (l : LoopState AgentOS (Producer × Value) Exc) : Prop :=
  match l.control with
  | .idle => True
  | .handling entry item _ => ∀ pid, item.1 = .process pid → entry.Retired pid →
    entry.validate item.2 ≠ .accepted

/-- Retired instances of registered identities are quiet. -/
def Settled (os : AgentOS) : Prop :=
  ∀ pid, os.Retired pid → os.registered (os.procs pid).spec.identity = true → os.Quiet pid

/-- Only processes are registered under the identities of processes. -/
def Named (os : AgentOS) : Prop :=
  ∀ pid entity, pid < os.nextPid → os.entities (os.procs pid).spec.identity = some entity →
    ∃ handle, entity = .process handle

variable {start os os' : AgentOS}

section Background

/-- What a quiet process does keeps it quiet. -/
theorem Quiet.setProc {pid other : ℕ} {p : Proc} (h : os.Quiet pid)
    (hsilent : (os.procs other).silent = true → p.silent = true) : (os.setProc other p).Quiet pid := by
  refine ⟨?_, h.2⟩
  by_cases hpid : pid = other
  · subst hpid
    simpa [AgentOS.setProc] using hsilent h.1
  · simpa [AgentOS.setProc, hpid] using h.1

/-- A silent reader hands nothing over and stays silent. -/
theorem silent_read {p p' : Proc} {handed : Option Value} (h : p.silent = true)
    (hread : p.read = some (p', handed)) : p'.silent = true ∧ handed = none := by
  unfold Proc.read at hread
  unfold Proc.silent at h
  split at hread
  next hreader =>
    obtain ⟨rfl, rfl⟩ := Prod.mk.inj (Option.some.inj hread)
    have hdead : p.alive = false := by simpa [hreader] using h
    simp [Proc.silent, hdead]
  next hreader =>
    have hclosed : p.outbox.isEmpty = true ∧ p.connected = false := by simpa [hreader] using h
    split at hread
    next hopen => exact absurd hopen.2 (by simp [hclosed.2])
    · obtain ⟨rfl, rfl⟩ := Prod.mk.inj (Option.some.inj hread)
      simpa [Proc.silent] using hclosed
  next hreader =>
    have hclosed : p.outbox = [] ∧ p.connected = false := by simpa [hreader] using h
    simp only [hclosed.1, hclosed.2, Bool.false_eq_true, if_false] at hread
    obtain ⟨rfl, rfl⟩ := Prod.mk.inj (Option.some.inj hread)
    simp [Proc.silent]
  next event hreader => simp [hreader] at h
  · simp at hread

/-- A quiet process stays quiet. -/
theorem Quiet.background {pid : ℕ} (h : os.Quiet pid) (hw : os.Wired) (hb : Background os os') :
    os'.Quiet pid := by
  cases hb with
  | send other value connected =>
    refine h.setProc fun hsilent => ?_
    unfold Proc.silent at hsilent ⊢
    split at hsilent <;> simp_all
  | @serve other p served =>
    refine h.setProc fun hsilent => ?_
    unfold Proc.serve at served
    split at served
    next halive =>
      split at served
      · obtain rfl := Option.some.inj served
        unfold Proc.silent at hsilent ⊢
        split at hsilent <;> simp_all
      · simp at served
    · simp at served
  | exit other =>
    refine h.setProc fun hsilent => ?_
    unfold Proc.silent at hsilent ⊢
    split at hsilent <;> simp_all
  | close other =>
    refine h.setProc fun hsilent => ?_
    unfold Proc.silent at hsilent ⊢
    split at hsilent <;> simp_all
  | @read other p handed reads =>
    obtain ⟨hsilent, hbus⟩ := h.setProc (p := p) fun hsilent => (silent_read hsilent reads).1
    refine ⟨hsilent, fun item hitem => ?_⟩
    rcases List.mem_append.mp hitem with hitem | hitem
    · exact hbus item hitem
    · obtain ⟨event, hevent, rfl⟩ := List.mem_map.mp hitem
      intro hsender
      obtain rfl := Producer.process.inj hsender
      simp [(silent_read h.1 reads).2] at hevent
  | put event =>
    refine ⟨h.1, fun item hitem => ?_⟩
    rcases List.mem_append.mp hitem with hitem | hitem
    · exact h.2 item hitem
    · simp [List.mem_singleton.mp hitem]
  | edit disk => exact h
  | tick clock => exact h
  | begin begins => exact h
  | round serves =>
    have hs := (rounds_of_round hw serves).still
    refine ⟨?_, hs.eventBus ▸ h.2⟩
    rw [hs.same pid]
    exact h.1

/-- Nobody is registered or retired beside the event loop. -/
theorem Settled.background (h : os.Settled) (hw : os.Wired) (hb : Background os os') : os'.Settled := by
  have hcalm := hb.calm hw
  intro pid hretired hregistered
  rw [Retired, hcalm.handles, hcalm.nextPid, (hcalm.procs pid).handle] at hretired
  rw [registered, hcalm.entities, (hcalm.procs pid).spec] at hregistered
  exact (h pid hretired hregistered).background hw hb

/-- Identities stay with processes. -/
theorem Named.steady (h : os.Named) (hs : Steady os os') : os'.Named := by
  intro pid entity hpid hentity
  rw [hs.entities, (hs.procs pid).2.1] at hentity
  exact h pid entity (hs.nextPid ▸ hpid) hentity

end Background

section Segment

/-- What has happened to the instances since the segment began. -/
structure Since (start os : AgentOS) : Prop where
  nextPid : start.nextPid ≤ os.nextPid
  nextHandle : start.nextHandle ≤ os.nextHandle
  eventBus : os.eventBus = start.eventBus
  same : ∀ pid, pid < start.nextPid → os.procs pid = { start.procs pid with
    delivered := (os.procs pid).delivered, killed := (os.procs pid).killed }
  born : ∀ pid, start.nextPid ≤ pid → pid < os.nextPid → (os.procs pid).alive = true ∧
    (os.handles (os.procs pid).handle).process = some pid
  old : ∀ identity handle, os.entities identity = some (.process handle) →
    handle < start.nextHandle → start.entities identity = some (.process handle)
  retired : ∀ pid, os.Retired pid → start.Retired pid ∨ ∀ handle,
    os.entities (os.procs pid).spec.identity = some (.process handle) → start.nextHandle ≤ handle

/-- The segment has just begun. -/
theorem Since.refl (os : AgentOS) : Since os os where
  nextPid := le_rfl
  nextHandle := le_rfl
  eventBus := rfl
  same _ _ := rfl
  born _ hge hlt := absurd hlt (Nat.not_lt.mpr hge)
  old _ _ hentity _ := hentity
  retired _ hretired := Or.inl hretired

/-- Nothing is registered or retired. -/
theorem Since.still (h : Since start os) (hs : Still os os') : Since start os' where
  nextPid := hs.nextPid ▸ h.nextPid
  nextHandle := hs.nextHandle ▸ h.nextHandle
  eventBus := hs.eventBus.trans h.eventBus
  same pid hpid := by rw [hs.same pid, h.same pid hpid]
  born pid hge hlt := by
    rw [hs.handles, hs.same pid]
    exact h.born pid hge (hs.nextPid ▸ hlt)
  old identity handle hentity := h.old identity handle (hs.entities ▸ hentity)
  retired pid hretired := by
    have hold : os.Retired pid := by
      rw [Retired, hs.handles, hs.nextPid, (hs.procs pid).1] at hretired
      exact hretired
    rw [hs.entities, (hs.procs pid).2.1]
    exact h.retired pid hold

/-- An unused handle. -/
theorem Since.addHandle (h : Since start os) (hw : os.Wired) (identity : String) (spawn : Spawn) :
    Since start (os.addHandle identity spawn) := by
  have hhandle {pid : ℕ} (hpid : pid < os.nextPid) :
      (os.addHandle identity spawn).handles (os.procs pid).handle = os.handles (os.procs pid).handle := by
    have hne : (os.procs pid).handle ≠ os.nextHandle := (hw.spec hpid).1.ne
    simp [AgentOS.addHandle, hne]
  refine ⟨h.nextPid, Nat.le_succ_of_le h.nextHandle, h.eventBus, h.same, fun pid hge hlt => ?_, h.old,
    fun pid hretired => ?_⟩
  · exact (hhandle hlt).symm ▸ h.born pid hge hlt
  · obtain ⟨hlt, hprocess⟩ := hretired
    exact h.retired pid ⟨hlt, (hhandle hlt) ▸ hprocess⟩

/-- A new instance. -/
theorem Since.spawned (h : Since start os) (hw : os.Wired) (identity : String) (spawn : Spawn)
    (spec : Spec) (agent : Bool) : Since start (os.spawned identity spawn spec agent) := by
  have hhandle {pid : ℕ} (hpid : pid < os.nextPid) : (os.procs pid).handle ≠ os.nextHandle :=
    (hw.spec hpid).1.ne
  refine ⟨Nat.le_succ_of_le h.nextPid, Nat.le_succ_of_le h.nextHandle, h.eventBus, fun pid hpid => ?_,
    fun pid hge hlt => ?_, fun name handle hentity hold => ?_, fun pid hretired => ?_⟩
  · have hne : pid ≠ os.nextPid := (lt_of_lt_of_le hpid h.nextPid).ne
    simpa [hne] using h.same pid hpid
  · by_cases hpid : pid = os.nextPid
    · simp [hpid, Proc.started]
    · have hlt : pid < os.nextPid := lt_of_le_of_ne (Nat.lt_succ_iff.mp hlt) hpid
      simpa [hpid, hhandle hlt] using h.born pid hge hlt
  · by_cases hname : name = identity
    · subst hname
      obtain rfl : os.nextHandle = handle := by simpa using hentity
      exact absurd hold (Nat.not_lt.mpr h.nextHandle)
    · exact h.old name handle (by simpa [hname] using hentity) hold
  · obtain ⟨hlt, hprocess⟩ := hretired
    by_cases hpid : pid = os.nextPid
    · simp [hpid, Proc.started] at hprocess
    · have hlt : pid < os.nextPid := lt_of_le_of_ne (Nat.lt_succ_iff.mp hlt) hpid
      have hold : os.Retired pid := ⟨hlt, by simpa [hpid, hhandle hlt] using hprocess⟩
      refine (h.retired pid hold).imp_right fun hnew handle hentity => ?_
      by_cases hname : (os.procs pid).spec.identity = identity
      · obtain rfl : os.nextHandle = handle := by simpa [hpid, hname] using hentity
        exact h.nextHandle
      · exact hnew handle (by simpa [hpid, hname] using hentity)

/-- A handle is taken out. -/
theorem Since.remove (h : Since start os) (identity : String) (handle : ℕ) :
    Since start (os.remove identity handle) := by
  have hentity {name : String} {entity : Entity}
      (hafter : (os.remove identity handle).entities name = some entity) :
      os.entities name = some entity := by
    by_cases hname : name = identity
    · simp [AgentOS.remove, hname] at hafter
    · simpa [AgentOS.remove, hname] using hafter
  exact ⟨h.nextPid, h.nextHandle, h.eventBus, h.same, h.born, fun name other hafter =>
    h.old name other (hentity hafter), fun pid hretired =>
      (h.retired pid hretired).imp_right fun hnew other hafter => hnew other (hentity hafter)⟩

/-- A handle is forgotten; its name is free. -/
theorem Since.forget (h : Since start os) (hw : os.Wired) {handle pid : ℕ}
    (process : (os.handles handle).process = some pid) (dead : (os.procs pid).alive = false)
    (removed : os.entities (os.handles handle).identity = none) : Since start (os.forget handle) := by
  refine ⟨h.nextPid, h.nextHandle, h.eventBus, h.same, fun other hge hlt => ?_, h.old,
    fun other hretired => ?_⟩
  · obtain ⟨halive, hprocess⟩ := h.born other hge hlt
    have hne : (os.procs other).handle ≠ handle := by
      rintro rfl
      obtain rfl := Option.some.inj (process.symm.trans hprocess)
      exact absurd halive (by simp [dead])
    exact ⟨halive, by simpa [AgentOS.forget, hne] using hprocess⟩
  · by_cases hhandle : (os.procs other).handle = handle
    · refine Or.inr fun successor hentity => ?_
      have hname : os.entities (os.procs other).spec.identity = none := by
        rw [(hw.spec hretired.1).2.1, hhandle]
        exact removed
      exact absurd (hentity.symm.trans hname) (by simp)
    · exact h.retired other ⟨hretired.1, by simpa [AgentOS.forget, hhandle] using hretired.2⟩

/-- Acts along a segment. -/
theorem Since.act {w : Warrant} (h : Since start os) (hw : os.Wired) (ha : Act w os os') :
    Since start os' := by
  rcases ha.still with hs | ⟨identity, spawn, rfl⟩ |
    ⟨identity, spawn, spec, agent, -, -, -, rfl⟩ | ⟨identity, handle, -, -, -, rfl⟩ |
    ⟨handle, pid, -, process, dead, removed, rfl⟩
  · exact h.still hs
  · exact h.addHandle hw identity spawn
  · exact h.spawned hw identity spawn spec agent
  · exact h.remove identity handle
  · exact h.forget hw process dead removed

/-- Acts register processes only. -/
theorem Named.act {w : Warrant} (h : os.Named) (ha : Act w os os') : os'.Named := by
  rcases ha.still with hs | ⟨identity, spawn, rfl⟩ |
    ⟨identity, spawn, spec, agent, call, named, -, rfl⟩ | ⟨identity, handle, -, -, -, rfl⟩ |
    ⟨handle, pid, -, -, -, -, rfl⟩
  · exact h.steady hs.toSteady
  · exact h
  · intro pid entity hpid hentity
    by_cases hname : ((os.spawned identity spawn spec agent).procs pid).spec.identity = identity
    · rw [hname] at hentity
      exact ⟨os.nextHandle, by simpa [eq_comm] using hentity⟩
    · have hne : pid ≠ os.nextPid := by
        rintro rfl
        obtain ⟨hidentity, -⟩ := spec_of_call call
        exact hname (by simp [Proc.started, hidentity, named])
      have hlt : pid < os.nextPid := lt_of_le_of_ne (Nat.lt_succ_iff.mp hpid) hne
      have hother : (os.procs pid).spec.identity ≠ identity := by simpa [hne] using hname
      exact h pid entity hlt (by simpa [hne, hother] using hentity)
  · intro pid entity hpid hentity
    by_cases hname : (os.procs pid).spec.identity = identity
    · simp [AgentOS.remove, hname] at hentity
    · exact h pid entity hpid (by simpa [AgentOS.remove, hname] using hentity)
  · exact h

/-- A segment that waits for silence leaves retired instances of registered identities quiet. -/
theorem Settled.segment (h : start.Settled) (hsince : Since start os) (hw : os.Wired) (hnamed : os.Named)
    (hsilence : awaitsSilence start os) : os.Settled := by
  intro pid hretired hregistered
  have hlt : pid < start.nextPid := by
    by_contra hge
    have hborn := (hsince.born pid (Nat.le_of_not_lt hge) hretired.1).2
    exact absurd (hborn.symm.trans hretired.2) (by simp)
  have hsame := hsince.same pid hlt
  have hspec : (os.procs pid).spec = (start.procs pid).spec := by rw [hsame]
  obtain ⟨entity, hentity⟩ := Option.isSome_iff_exists.mp hregistered
  obtain ⟨handle, rfl⟩ := hnamed pid entity hretired.1 hentity
  have hquiet : start.Quiet pid := by
    by_cases hold : handle < start.nextHandle
    · rcases hsince.retired pid hretired with hretired | hnew
      · refine h pid hretired ?_
        rw [registered, ← hspec, hsince.old _ handle hentity hold]
        rfl
      · exact absurd hold (Nat.not_lt.mpr (hnew handle hentity))
    · obtain ⟨hbound, hidentity, -⟩ := hw.registered hentity
      refine hsilence handle hbound pid hlt ⟨Nat.le_of_not_lt hold, ?_, hretired.2, hidentity.symm⟩
      rw [hidentity]
      exact hentity
  refine ⟨?_, hsince.eventBus ▸ hquiet.2⟩
  rw [hsame]
  exact hquiet.1

end Segment

/-- In a settled state an event of a retired instance is not accepted when it is taken. -/
theorem Settled.unheard (h : os.Settled) (hstamped : os.Stamped) {pid : ℕ} {event : Value}
    (hmem : (.process pid, event) ∈ os.eventBus) (hretired : os.Retired pid) :
    os.validate event ≠ .accepted := by
  intro hvalid
  obtain ⟨source, target, accepted⟩ := accepted_of_validateEvent hvalid
  obtain ⟨-, hstamp⟩ := hstamped.bus pid event hmem
  have hsource : (os.procs pid).spec.identity = source := by
    simpa using hstamp.source.symm.trans accepted.source_eq
  exact (h pid hretired (hsource ▸ accepted.source_registered)).2 _ hmem rfl

/-- Runs begin without retired instances. -/
theorem settled_of_boots {config : Value} (h : Boots config os) : os.Settled ∧ os.Named := by
  have hnone : (∀ pid, ¬ os.Retired pid) ∧ os.Named ∧ os.retiring = none := by
    refine h.invariant (P := fun os => (∀ pid, ¬ os.Retired pid) ∧ os.Named ∧ os.retiring = none)
      (fun runtimeRoot disk clock limits => ⟨?_, ?_, rfl⟩) fun {os os'} hw hP ha => ?_
    · simp [Retired, AgentOS.new]
    · simp [Named, AgentOS.new]
    obtain ⟨hretired, hnamed, vacant⟩ := hP
    refine ⟨fun pid hpid => ?_, hnamed.act ha, ?_⟩
    · rcases ha.still with hs | ⟨identity, spawn, rfl⟩ |
        ⟨identity, spawn, spec, agent, -, -, -, rfl⟩ | ⟨identity, handle, -, -, hstops, rfl⟩ |
        ⟨handle, pid, hretiring, -, -, -, rfl⟩
      · rw [Retired, hs.handles, hs.nextPid, (hs.procs pid).1] at hpid
        exact hretired pid hpid
      · have hne : (os.procs pid).handle ≠ os.nextHandle := (hw.spec hpid.1).1.ne
        exact hretired pid ⟨hpid.1, by simpa [AgentOS.addHandle, hne] using hpid.2⟩
      · by_cases hnew : pid = os.nextPid
        · simp [Retired, hnew, Proc.started] at hpid
        · have hlt : pid < os.nextPid := lt_of_le_of_ne (Nat.lt_succ_iff.mp hpid.1) hnew
          have hne : (os.procs pid).handle ≠ os.nextHandle := (hw.spec hlt).1.ne
          exact hretired pid ⟨hlt, by simpa [hnew, hne] using hpid.2⟩
      · exact hstops
      · exact absurd (vacant.symm.trans hretiring) (by simp)
    · rcases ha.still with hs | ⟨identity, spawn, rfl⟩ |
        ⟨identity, spawn, spec, agent, -, -, -, rfl⟩ | ⟨identity, handle, -, -, hstops, rfl⟩ |
        ⟨handle, pid, -, -, -, -, rfl⟩
      · exact hs.retiring.trans vacant
      · exact vacant
      · exact vacant
      · exact hstops.elim
      · rfl
  exact ⟨fun pid hretired => absurd hretired (hnone.1 pid), hnone.2.1⟩

/-- In every run in which new instances wait for the silence of those they succeed, no event
of a retired instance is accepted. -/
theorem retired_unheard {config : Value} {l : LoopState AgentOS (Producer × Value) Exc}
    (h : Reachable config ⟨fun _ _ => True, awaitsSilence⟩ l) : RetiredUnheard l := by
  let I (os : AgentOS) : Prop := os.Settled ∧ os.Named ∧ os.Stamped
  let J (entry : AgentOS) (item : Producer × Value) (os : AgentOS) : Prop :=
    I os ∧ ∀ pid, item.1 = .process pid → entry.Retired pid → entry.validate item.2 ≠ .accepted
  have hbackground {os os' : AgentOS} (hw : os.Wired) (hI : I os) (hb : Background os os') : I os' :=
    ⟨hI.1.background hw hb, hI.2.1.steady (hb.calm hw).steady, hI.2.2.background hw hb⟩
  have htake {os : AgentOS} {item : Producer × Value} {rest : List (Producer × Value)} (hI : I os)
      (hbus : os.eventBus = item :: rest) :
      J { os with eventBus := rest } item { os with eventBus := rest } := by
    have hrest {other : Producer × Value} (hmem : other ∈ rest) : other ∈ os.eventBus :=
      hbus ▸ List.mem_cons_of_mem _ hmem
    refine ⟨⟨fun pid hretired hregistered => ?_, hI.2.1, ?_⟩, fun pid hitem hretired => ?_⟩
    · obtain ⟨hsilent, hquiet⟩ := hI.1 pid hretired hregistered
      exact ⟨hsilent, fun other hmem => hquiet other (hrest hmem)⟩
    · exact hI.2.2.take hbus
    · obtain ⟨producer, event⟩ := item
      obtain rfl : producer = .process pid := hitem
      exact hI.1.unheard hI.2.2 (hbus ▸ List.mem_cons_self) hretired
  have hacts {entry start os : AgentOS} {item : Producer × Value} (hw : start.Wired)
      (hJ : J entry item start) (ha : ReflTransGen (Act (.item entry item.1 item.2)) start os)
      (hsilence : awaitsSilence start os) : J entry item os := by
    let P (os : AgentOS) : Prop := os.Wired ∧ Since start os ∧ os.Named ∧ os.Stamped
    obtain ⟨hwired, hsince, hnamed, hstamped⟩ : P os :=
      acts_invariant (P := P) ha hw ⟨hw, .refl start, hJ.1.2.1, hJ.1.2.2⟩ fun hw hP ha =>
        ⟨ha.wired hw, hP.2.1.act hw ha, hP.2.2.1.act ha, hP.2.2.2.act ha⟩
    exact ⟨⟨hJ.1.1.segment hsince hwired hnamed hsilence, hnamed, hstamped⟩, hJ.2⟩
  have hboot (os : AgentOS) (hboots : Boots config os) : I os :=
    ⟨(settled_of_boots hboots).1, (settled_of_boots hboots).2, stamped_of_boots hboots⟩
  have hthroughout : Throughout I J l :=
    h.throughout hboot hbackground (fun _ _ hI hbus _ => htake hI hbus) hacts
      (fun hw hJ hb => ⟨hbackground hw hJ.1 hb, hJ.2⟩) fun _ _ hJ => hJ.1
  cases hcontrol : l.control with
  | idle => simp only [RetiredUnheard, hcontrol]
  | handling entry item progress =>
    simp only [RetiredUnheard, hcontrol]
    exact (hthroughout.handling hcontrol).2.2

section Scenario

/-- An agent at the root. -/
def rootConfig : Value := .dict [("agents", .list [agentSpec "r" "root"])]

/-- `r` asks for the installation of the device `d`. -/
def askInstall : List (EventLoop.Move Ambient) :=
  sends 0 (applicationEvent (.str "kernel") [("command", .str "install_device"),
    ("identity", .str "d"), ("grants", .list [.str "root"])])

/-- The first process of `d` is terminated and the second one started. -/
def reinstall : List (EventLoop.Move Ambient) := [.take, .resume, .act (.exit 1), .resume]

/-- The first process of `d` says something. -/
def lastWords : List (EventLoop.Move Ambient) := sends 1 (applicationEvent (.str "r") [])

/-- `d` is installed twice, and its first process has said nothing. -/
def quietReinstall : List (EventLoop.Move Ambient) :=
  askInstall ++ [.take, .settle] ++ askInstall ++ reinstall

/-- `d` is installed twice, with an event of its first process on the bus. -/
def hastyReinstall : List (EventLoop.Move Ambient) :=
  askInstall ++ [.take, .settle] ++ askInstall ++ lastWords ++ reinstall ++ [.settle, .take]

/-- A quiet instance is succeeded. -/
theorem retired_unheard_quiet : ∃ l, scenario rootConfig plainDisk quietReinstall = some l ∧
    l.state.Retired 1 ∧ RetiredUnheard l := by
  have hplays : (scenario rootConfig plainDisk quietReinstall).any fun l =>
      1 < l.state.nextPid ∧ (l.state.handles (l.state.procs 1).handle).process = none := by
    decide +kernel
  have hruns : (scenarioObserved rootConfig plainDisk quietReinstall loop.runs).all fun run =>
      awaitsSilence run.1 run.2 := by decide +kernel
  obtain ⟨l, hplayed, hends⟩ := (Option.any_eq_true _ _).mp hplays
  have hretired : l.state.Retired 1 := by simpa [Retired] using hends
  exact ⟨l, hplayed, hretired, retired_unheard (reachable_of_play hplayed (fun _ _ => trivial)
    fun run hrun => of_decide_eq_true (List.all_eq_true.mp hruns run hrun))⟩

/-- The last words of a retired instance are accepted as those of its successor. -/
theorem last_words_routed : ∃ l, Reachable rootConfig .free l ∧ ¬ RetiredUnheard l := by
  have hplays : (scenario rootConfig plainDisk hastyReinstall).any fun l =>
      match l.control with
      | .idle => false
      | .handling entry item _ => decide (item.1 = .process 1) && decide (1 < entry.nextPid) &&
        decide ((entry.handles (entry.procs 1).handle).process = none) &&
        (entry.validate item.2).isAccepted := by
    decide +kernel
  obtain ⟨l, hplayed, hends⟩ := (Option.any_eq_true _ _).mp hplays
  refine ⟨l, reachable_free_of_scenario hplayed, fun hunheard => ?_⟩
  obtain ⟨state, control⟩ := l
  cases control with
  | idle => simp at hends
  | handling entry item progress =>
    simp only [Bool.and_eq_true, decide_eq_true_eq] at hends
    obtain ⟨⟨⟨hsender, hstarted⟩, hretired⟩, hvalid⟩ := hends
    exact hunheard 1 hsender ⟨hstarted, hretired⟩ (Verdict.isAccepted_iff.mp hvalid)

end Scenario

end AgentOS

end MyTeam.Kernel
