import MyTeam.Kernel.Tables
import MyTeam.Kernel.Traffic
import Mathlib.Data.List.Forall2

/-!
# The audit trail

The kernel records every event it handles by a direct call of the Journal. The Journal is
also an identity that processes can address, and it writes a row for whoever asks. And an
event that makes the kernel raise before the record is written leaves no row at all: one that a
rule cannot read, or one that cannot be written as JSON or bound. In runs without such events
the rows are the handled events, one by one.
-/

namespace MyTeam.Kernel

open MyTeam.Py MyTeam.Async Coroutine Relation

/-- The row describes the handled event: its source, target and kind, the verdict, and the
event itself, to which routing may have added the caller's authorization. -/
structure Describes (row : Row) (h : Handled) : Prop where
  source : row.source = h.event.field "source"
  target : row.target = h.event.field "target"
  kind : row.kind = h.event.field "kind"
  content : match h.verdict with
    | .accepted => row.outcome = .str "routed" ∧ row.reason = .none ∧
        ∃ event, row.payload = event.dumps ∧
          (event = h.event ∨ ∃ auth, h.event.setItem "auth" auth = .ok event)
    | .rejected reason => row.outcome = .str "dropped" ∧ row.reason = .str reason.message ∧
        row.payload = (h.event.orElse (.dict [])).dumps
    | .raised _ => False

namespace AgentOS

/-- The source of an event is the identity of whoever produced it: stamped by the reader of a
process, or by the kernel on its own events. The host names any source. -/
def SourceOf (os : AgentOS) (event : Value) : Producer → Prop
  | .process pid => pid < os.nextPid ∧ event.field "source" = .str (os.procs pid).spec.identity
  | .kernel identity => event.field "source" = .str identity
  | .host => True

/-- The rows are exactly the handled events, in order, with their true outcomes and sources. -/
structure Audited (os : AgentOS) : Prop where
  rows : List.Forall₂ Describes os.journal.rows os.handled
  sources : ∀ h ∈ os.handled, os.SourceOf h.event h.producer

/-- The Journal can record every event that was handled, also what the kernel says itself. -/
def Recordable (os : AgentOS) : Prop := ∀ h ∈ os.handled, os.journal.limits.records h.recorded = true

/-- Whatever is handled is recorded, if it can be, and nothing else. -/
structure Records (os os' : AgentOS) : Prop where
  nextPid : os.nextPid ≤ os'.nextPid
  spec : ∀ pid, pid < os.nextPid → (os'.procs pid).spec = (os.procs pid).spec
  limits : os'.journal.limits = os.journal.limits
  trail : ∃ rows handled, os'.journal.rows = os.journal.rows ++ rows ∧
    os'.handled = os.handled ++ handled ∧ (∀ h ∈ handled, os'.SourceOf h.event h.producer) ∧
    ((∀ h ∈ handled, os.journal.limits.records h.recorded = true) → List.Forall₂ Describes rows handled)

variable {os os' os'' : AgentOS}

/-- Processes keep their identities. -/
theorem SourceOf.mono {event : Value} {producer : Producer} (h : os.SourceOf event producer)
    (nextPid : os.nextPid ≤ os'.nextPid)
    (spec : ∀ pid, pid < os.nextPid → (os'.procs pid).spec = (os.procs pid).spec) :
    os'.SourceOf event producer := by
  cases producer with
  | process pid =>
    refine ⟨lt_of_lt_of_le h.1 nextPid, ?_⟩
    rw [spec pid h.1]
    exact h.2
  | host => trivial
  | kernel identity => exact h

/-- Recording keeps the trail. -/
theorem Audited.records (h : os.Recordable → os.Audited) (hr : Records os os') (hall : os'.Recordable) :
    os'.Audited := by
  obtain ⟨rows, handled, hrows, hhandled, hsources, hdescribes⟩ := hr.trail
  have hbefore : os.Recordable := fun entry hmem => by
    rw [← hr.limits]
    exact hall entry (hhandled ▸ List.mem_append_left _ hmem)
  have hafter : ∀ entry ∈ handled, os.journal.limits.records entry.recorded = true := fun entry hmem => by
    rw [← hr.limits]
    exact hall entry (hhandled ▸ List.mem_append_right _ hmem)
  have h := h hbefore
  refine ⟨?_, fun entry hmem => ?_⟩
  · rw [hrows, hhandled]
    exact List.rel_append h.rows (hdescribes hafter)
  · rw [hhandled] at hmem
    rcases List.mem_append.mp hmem with hmem | hmem
    · exact (h.sources entry hmem).mono hr.nextPid hr.spec
    · exact hsources entry hmem

namespace Records

/-- The trail is only appended to. -/
theorem appends (h : Records os os') : os.journal.rows <+: os'.journal.rows := by
  obtain ⟨rows, handled, hrows, -⟩ := h.trail
  exact ⟨rows, hrows.symm⟩

/-- Nothing is handled. -/
theorem of_eq (nextPid : os.nextPid ≤ os'.nextPid)
    (spec : ∀ pid, pid < os.nextPid → (os'.procs pid).spec = (os.procs pid).spec)
    (journal : os'.journal = os.journal) (handled : os'.handled = os.handled) : Records os os' :=
  ⟨nextPid, spec, by rw [journal], [], [], by simp [journal], by simp [handled], by simp, fun _ => .nil⟩

/-- One event is handled. -/
theorem of_handling {rows : List Row} {producer : Producer} {event : Value} (hs : Steady os os')
    (limits : os'.journal.limits = os.journal.limits)
    (hrows : os'.journal.rows = os.journal.rows ++ rows)
    (handled : os'.handled = os.handled ++ [os.handling producer event])
    (describes : os.journal.limits.records (os.recorded event) = true →
      List.Forall₂ Describes rows [os.handling producer event])
    (source : os.SourceOf event producer) : Records os os' := by
  have hspec (pid : ℕ) (_ : pid < os.nextPid) : (os'.procs pid).spec = (os.procs pid).spec :=
    (hs.procs pid).2.1
  refine ⟨hs.nextPid.ge, hspec, limits, rows, _, hrows, handled, ?_, fun hall => ?_⟩
  · simpa [handling] using source.mono hs.nextPid.ge hspec
  · exact describes (hall _ List.mem_cons_self)

/-- One event is handled, and gets its row. -/
theorem of_row {row : Row} {producer : Producer} {event : Value} (hs : Steady os os')
    (limits : os'.journal.limits = os.journal.limits)
    (hrows : os'.journal.rows = os.journal.rows ++ [row])
    (handled : os'.handled = os.handled ++ [os.handling producer event])
    (describes : Describes row (os.handling producer event))
    (source : os.SourceOf event producer) : Records os os' :=
  of_handling hs limits hrows handled (fun _ => .cons describes .nil) source

/-- One thing after another. -/
theorem trans (h : Records os os') (h' : Records os' os'') : Records os os'' := by
  obtain ⟨rows, handled, hrows, hhandled, hsources, hdescribes⟩ := h.trail
  obtain ⟨rows', handled', hrows', hhandled', hsources', hdescribes'⟩ := h'.trail
  refine ⟨h.nextPid.trans h'.nextPid, fun pid hpid => ?_, h'.limits.trans h.limits, rows ++ rows',
    handled ++ handled', ?_, ?_, fun entry hmem => ?_, fun hall => ?_⟩
  · exact (h'.spec pid (lt_of_lt_of_le hpid h.nextPid)).trans (h.spec pid hpid)
  · rw [hrows', hrows, List.append_assoc]
  · rw [hhandled', hhandled, List.append_assoc]
  · rcases List.mem_append.mp hmem with hmem | hmem
    · exact (hsources entry hmem).mono h'.nextPid h'.spec
    · exact hsources' entry hmem
  · refine List.rel_append (hdescribes fun entry hmem => hall entry (List.mem_append_left _ hmem))
      (hdescribes' fun entry hmem => ?_)
    rw [h.limits]
    exact hall entry (List.mem_append_right _ hmem)

end Records

/-- The row of a routed event describes it. -/
theorem describes_routed {producer : Producer} {event event' : Value} {ts : String}
    (valid : os.validate event = .accepted)
    (henriched : event' = event ∨ ∃ auth, event.setItem "auth" auth = .ok event') :
    Describes (Journal.row ts event' (.str "routed") .none) (os.handling producer event) := by
  have hfield (key : String) (hkey : key ≠ "auth") : event'.field key = event.field key := by
    rcases henriched with rfl | ⟨auth, hset⟩
    · rfl
    · exact Value.field_of_setItem hset hkey
  refine ⟨hfield "source" (by decide), hfield "target" (by decide), hfield "kind" (by decide), ?_⟩
  simp only [handling, valid]
  exact ⟨rfl, rfl, event', rfl, henriched⟩

/-- The row of a dropped event describes it. -/
theorem describes_dropped {producer : Producer} {event : Value} {reason : EventError} {ts : String}
    (invalid : os.validate event = .rejected reason) :
    Describes (Journal.row ts (event.orElse (.dict [])) (.str "dropped") (.str reason.message))
      (os.handling producer event) := by
  have hfield (key : String) : (event.orElse (.dict [])).field key = event.field key := by
    unfold Value.orElse
    split
    · rfl
    next hfalsy =>
      cases event with
      | dict kvs =>
        obtain rfl : kvs = [] := by simpa [Value.truthy] using hfalsy
        rfl
      | _ => rfl
  refine ⟨hfield "source", hfield "target", hfield "kind", ?_⟩
  simp only [handling, invalid]
  exact ⟨rfl, rfl, rfl⟩

/-- What enriching makes of an event. -/
theorem enriched_eq {event event' : Value} (h : os.enriched event = .ok event') :
    event' = event ∨ ∃ auth, event.setItem "auth" auth = .ok event' := by
  obtain ⟨target, -, h⟩ := bind_eq_ok.mp h
  split at h
  · exact Or.inl (Except.ok.inj h).symm
  obtain ⟨source, -, h⟩ := bind_eq_ok.mp h
  split at h
  · exact Or.inr ⟨emptyAuth, h⟩
  · obtain ⟨auth, -, h⟩ := bind_eq_ok.mp h
    exact Or.inr ⟨auth, h⟩

/-- An event that can be read is recorded when it is processed, if it can be. -/
theorem Processed.records {producer : Producer} {event : Value} {r : Except Exc Unit}
    (h : Processed producer event os r os') (hlettered : os.authority.Lettered)
    (hreadable : unreadable event = false) (hsource : os.SourceOf event producer) : Records os os' := by
  have hs := h.still.toSteady
  cases h with
  | raised invalid =>
    have hraises := validateEvent_raises_iff.mp ⟨_, invalid⟩
    simp [hreadable] at hraises
  | unrecorded invalid unbound =>
    refine .of_handling hs rfl (List.append_nil _).symm rfl (fun hrecords => ?_) hsource
    rw [recorded_of_rejected invalid] at hrecords
    simp [drops_ok hrecords invalid] at unbound
  | dropped invalid inserted =>
    rw [drops_ok (records_of_drops inserted) invalid] at inserted
    obtain rfl := Except.ok.inj inserted
    exact .of_row hs rfl rfl rfl (describes_dropped invalid) hsource
  | unwritten valid accepted known unbound =>
    refine .of_handling hs rfl (List.append_nil _).symm rfl (fun hrecords => ?_) hsource
    rw [recorded_of_accepted valid known] at hrecords
    rw [writes_ok hrecords rfl] at unbound
    simp at unbound
  | unauthenticated valid accepted other unknown =>
    obtain ⟨event', hknown⟩ := enriched_ok hlettered accepted
    simp [hknown] at unknown
  | submitted valid accepted entity =>
    exact .of_row hs rfl rfl rfl (describes_routed valid (Or.inl rfl)) hsource
  | pushed valid accepted entity process opened known =>
    exact .of_row hs rfl rfl rfl (describes_routed valid (enriched_eq known)) hsource
  | closed valid accepted entity process shut known =>
    exact .of_row hs rfl rfl rfl (describes_routed valid (enriched_eq known)) hsource

/-- The rules can read what the kernel says. -/
theorem unreadable_emission (source : String) (target : Value) (payload : List (String × Value)) :
    unreadable (emission source target payload) = false := by
  simp [unreadable, Value.isStr]

/-- What the kernel says is recorded. -/
theorem Emitted.records {source : String} {target : Value} {payload : List (String × Value)}
    {r : Except Exc Unit} (h : Emitted source (emission source target payload) os r os')
    (hlettered : os.authority.Lettered) : Records os os' := by
  have hsource : os.SourceOf (emission source target payload) (.kernel source) := by
    simp [SourceOf]
  have hs := h.still.toSteady
  cases h with
  | routed processed =>
    exact processed.records hlettered (unreadable_emission _ _ _) hsource
  | served valid accepted =>
    exact .of_row hs rfl rfl rfl (describes_routed valid (Or.inl rfl)) hsource

/-- Nothing that waits for the Journal asks for a row, and nothing that waits for the
Authority asks for other grants than strings. -/
def Unrecording : Device → Value → Prop
  | .authority, event => ¬ Authority.Taints event
  | .journal, event => (event.field "payload").field "command" ≠ .str "journal_record"

/-- The kernel does not ask for rows in this way. -/
theorem says_unrecording : Says Unrecording := by
  intro device source target payload known spoken
  cases device with
  | authority => exact fun htaints => not_mutates_emission known htaints.1
  | journal =>
    intro hrecord
    rw [emission_payload] at hrecord
    rcases spoken.command with hnone | ⟨command, hmem, hcommand⟩
    · rw [hnone] at hrecord
      simp at hrecord
    · rw [hcommand, Value.str.injEq] at hrecord
      subst hrecord
      simp [spokenCommands] at hmem

/-- The Journal writes rows on one command only. -/
theorem respondAs_records {device : Device} {event : Value} (hclean : Unrecording device event) :
    Records os (os.respondAs device event).1 := by
  cases device with
  | authority =>
    simp only [respondAs]
    split <;> exact .of_eq le_rfl (fun _ _ => rfl) rfl rfl
  | journal =>
    simp only [respondAs]
    split
    next journal reply hrespond =>
      have hsame : journal = os.journal := by
        obtain ⟨payload, hpayload, hrespond⟩ := bind_eq_ok.mp hrespond
        obtain ⟨command, hcommand, hrespond⟩ := bind_eq_ok.mp hrespond
        split at hrespond
        next hrecord =>
          refine absurd ?_ hclean
          rw [Value.field_of_item hpayload, Value.field_of_get hcommand, Value.isStr_iff.mp hrecord]
        · exact (Prod.mk.inj (Except.ok.inj hrespond)).1.symm
      exact .of_eq le_rfl (fun _ _ => rfl) hsame rfl
    · exact .of_eq le_rfl (fun _ _ => rfl) rfl rfl

/-- Changing the tasks handles nothing. -/
theorem setTasks_records (os : AgentOS) (device : Device)
    (tasks : Dispatch.BucketDispatcher Value Value) : Records os (os.setTasks device tasks) :=
  .of_eq le_rfl (fun _ _ => rfl) rfl rfl

/-- Events that ask for no row ask for no other grants either. -/
theorem Unrecording.untainted {device : Device} {event : Value} (h : Unrecording device event) :
    Untainted device event := by
  cases device with
  | authority => exact h
  | journal => trivial

/-- What happens beside the event loop is recorded if it is an event. -/
theorem Background.records (hw : os.Wired) (hfiled : Filed Unrecording os)
    (hlettered : os.authority.Lettered) (hb : Background os os') : Records os os' := by
  have hcalm := hb.calm hw
  have hspec (pid : ℕ) (_ : pid < os.nextPid) : (os'.procs pid).spec = (os.procs pid).spec :=
    (hcalm.procs pid).spec
  have hnext : os.nextPid ≤ os'.nextPid := hcalm.nextPid.ge
  cases hb with
  | @round device i after serves =>
    cases rounds_of_round hw serves with
    | @silent source job tasks queued queues =>
      have hclean := (hfiled _ _ ⟨source, job, queued, rfl⟩).2
      exact (respondAs_records hclean).trans (setTasks_records _ _ _)
    | @emitting source job tasks done target payload r os₁ queued queues spoken emitted ends =>
      have hclean := (hfiled _ _ ⟨source, job, queued, rfl⟩).2
      have hanswered : Records os ((os.respondAs device job.event).1.setTasks device tasks) :=
        (respondAs_records hclean).trans (setTasks_records _ _ _)
      have hletteredNow := lettered_respondAs hlettered hclean.untainted
      have hsaid := emitted.records hletteredNow
      exact (hanswered.trans hsaid).trans (setTasks_records _ _ _)
  | _ => exact .of_eq hnext hspec rfl rfl

/-- Acts record the event that is processed, and what the kernel says. -/
theorem Act.records {w : Warrant} (ha : Act w os os') (hlettered : os.authority.Lettered)
    (hroute : ∀ producer event, w = .item os producer event → unreadable event = false ∧
      os.SourceOf event producer) : Records os os' := by
  cases ha with
  | route warrant processed =>
    obtain ⟨hreadable, hsource⟩ := hroute _ _ warrant
    exact processed.records hlettered hreadable hsource
  | @accept producer event source warrant valid accepted =>
    obtain ⟨-, hsource⟩ := hroute _ _ warrant
    have hs : Still os (os.observe producer event event) := .of_eq rfl rfl rfl rfl rfl rfl rfl rfl
    exact .of_row hs.toSteady rfl rfl rfl (describes_routed valid (Or.inl rfl)) hsource
  | emit known spoken emitted => exact emitted.records hlettered
  | @spawn identity spawn spec agent legal call named allowed =>
    refine .of_eq (Nat.le_succ _) (fun pid hpid => ?_) rfl rfl
    simp [hpid.ne]
  | signal retiring process allowed =>
    exact .of_eq le_rfl (fun pid _ => ((Still.push _ _ _).procs pid).2.1) rfl rfl
  | kill retiring process allowed =>
    exact .of_eq le_rfl (fun pid _ => ((Still.kill _ _).procs pid).2.1) rfl rfl
  | _ => exact .of_eq le_rfl (fun _ _ => rfl) rfl rfl

/-- An event that the rules can read, and that does not ask the Journal for a row or the
Authority for grants that it cannot sort. -/
structure leavesTrail (entry : AgentOS) (item : Producer × Value) : Prop where
  readable : unreadable item.2 = false
  unforging : entry.validate item.2 = .accepted → item.2.field "target" = .str "journal" →
    (item.2.field "payload").field "command" ≠ .str "journal_record"
  untainting : item.2.field "target" = .str "authority" → ¬ Authority.Taints item.2

/-- The trail is true, and it is only appended to: by whatever happens beside the event loop,
and while an event is processed. -/
def TrailIntact (l : LoopState AgentOS (Producer × Value) Exc) : Prop :=
  l.state.Audited ∧
  (∀ os, Background l.state os → l.state.journal.rows <+: os.journal.rows) ∧
  match l.control with
  | .idle => True
  | .handling entry _ _ => entry.journal.rows <+: l.state.journal.rows

/-- What the integrity of the trail rests on. -/
structure Auditable (os : AgentOS) : Prop where
  audited : os.Recordable → os.Audited
  filed : Filed Unrecording os
  lettered : os.authority.Lettered
  stamped : os.Stamped

/-- Background steps keep it. -/
theorem Auditable.background (h : os.Auditable) (hw : os.Wired) (hb : Background os os') :
    os'.Auditable :=
  ⟨.records h.audited (hb.records hw h.filed h.lettered), h.filed.background hw says_unrecording hb,
    lettered_background h.lettered hw h.filed (fun _ _ => Unrecording.untainted) hb,
    h.stamped.background hw hb⟩

/-- Runs begin with it. -/
theorem auditable_of_boots {config : Value} (h : Boots config os) : os.Auditable := by
  refine h.invariant (fun runtimeRoot disk clock limits => ⟨fun _ => ⟨.nil, ?_⟩, filed_new _ _ _ _, ?_, ?_⟩)
    fun hw hI ha => ⟨.records hI.audited (ha.records hI.lettered (by simp)),
      hI.filed.setup hw says_unrecording ha, lettered_act hI.lettered ha, hI.stamped.act ha⟩
  · simp [AgentOS.new]
  · simp [AgentOS.new, Authority.Lettered, Authority.new]
  · exact ⟨by simp [AgentOS.new], by simp [AgentOS.new, Proc.blank], fun _ _ => rfl,
      by simp [AgentOS.new]⟩

/-- An event that is taken from the bus has its true source. -/
theorem Stamped.sourceOf {item : Producer × Value} (h : os.Stamped) (hmem : item ∈ os.eventBus) :
    os.SourceOf item.2 item.1 := by
  obtain ⟨producer, event⟩ := item
  cases producer with
  | process pid =>
    obtain ⟨hlt, hstamp⟩ := h.bus pid event hmem
    exact ⟨hlt, hstamp.source⟩
  | host => trivial
  | kernel identity => exact absurd hmem (h.outside identity event)

/-- In every run whose events can be read and recorded, the rows of the Journal are exactly the
handled events with their true outcomes and sources, and rows are only appended. -/
theorem trail_intact {config : Value} {l : LoopState AgentOS (Producer × Value) Exc}
    (h : Reachable config (.taking leavesTrail) l) (hrecordable : l.state.Recordable) : TrailIntact l := by
  let J (entry : AgentOS) (item : Producer × Value) (os : AgentOS) : Prop :=
    os.Auditable ∧ leavesTrail entry item ∧ entry.SourceOf item.2 item.1 ∧
      entry.journal.rows <+: os.journal.rows
  have htake {os : AgentOS} {item : Producer × Value} {rest : List (Producer × Value)}
      (hI : os.Auditable) (hbus : os.eventBus = item :: rest)
      (hallowed : leavesTrail { os with eventBus := rest } item) :
      J { os with eventBus := rest } item { os with eventBus := rest } :=
    ⟨⟨fun hall => ⟨(hI.audited hall).rows, (hI.audited hall).sources⟩, hI.filed.of_dispatchers rfl, hI.lettered,
      hI.stamped.take hbus⟩, hallowed,
      (hI.stamped.sourceOf (hbus ▸ List.mem_cons_self)).mono le_rfl fun _ _ => rfl, List.prefix_rfl⟩
  have hact {entry os os' : AgentOS} {item : Producer × Value} (hw : os.Wired) (hJ : J entry item os)
      (ha : Act (.item entry item.1 item.2) os os') : J entry item os' := by
    obtain ⟨hI, hallowed, hsource, hprefix⟩ := hJ
    have hrecords : Records os os' := by
      refine ha.records hI.lettered fun producer event hwarrant => ?_
      obtain ⟨rfl, rfl, rfl⟩ := Warrant.item.inj hwarrant
      exact ⟨hallowed.readable, hsource⟩
    have hfiled : Filed Unrecording os' := by
      refine hI.filed.act hw says_unrecording ha fun device source valid accepted => ?_
      cases device with
      | authority => exact hallowed.untainting accepted.target_eq
      | journal => exact hallowed.unforging valid accepted.target_eq
    exact ⟨⟨.records hI.audited hrecords, hfiled, lettered_act hI.lettered ha, hI.stamped.act ha⟩,
      hallowed, hsource, hprefix.trans hrecords.appends⟩
  have hwait {entry os os' : AgentOS} {item : Producer × Value} (hw : os.Wired) (hJ : J entry item os)
      (hb : Background os os') : J entry item os' :=
    ⟨hJ.1.background hw hb, hJ.2.1, hJ.2.2.1,
      hJ.2.2.2.trans (hb.records hw hJ.1.filed hJ.1.lettered).appends⟩
  have hthroughout : Throughout Auditable J l :=
    h.stepwise (fun _ => auditable_of_boots) (fun hw hI hb => hI.background hw hb)
      (fun _ _ hI hbus hallowed => htake hI hbus hallowed) hact hwait fun _ _ hJ => hJ.1
  cases hcontrol : l.control with
  | idle =>
    obtain ⟨hw, -, hI⟩ := hthroughout.idle hcontrol
    simp only [TrailIntact, hcontrol]
    exact ⟨hI.audited hrecordable, fun os hb => (hb.records hw hI.filed hI.lettered).appends, trivial⟩
  | handling entry item progress =>
    obtain ⟨hw, hI, -, -, hprefix⟩ := hthroughout.handling hcontrol
    simp only [TrailIntact, hcontrol]
    exact ⟨hI.audited hrecordable, fun os hb => (hb.records hw hI.filed hI.lettered).appends, hprefix⟩

section Scenario

/-- One agent. -/
def loneConfig : Value := .dict [("agents", .list [agentSpec "a" "dev"])]

/-- `a` talks to the Journal, and the Journal's worker answers. -/
def tellJournal (payload : List (String × Value)) : List (EventLoop.Move Ambient) :=
  sends 0 (applicationEvent (.str "journal") payload) ++
    [.take, .settle, .act (.begin .journal 0), .act (.round .journal 0)]

/-- `a` asks the Journal for a row about something that never happened. -/
def forgeRow : List (EventLoop.Move Ambient) :=
  tellJournal [("command", .str "journal_record"), ("outcome", .str "routed"),
    ("event", .dict [("source", .str "kernel"), ("target", .str "a")])]

/-- A harmless message. -/
theorem trail_intact_greeting :
    ∃ l, scenario loneConfig emptyDisk (tellJournal [("command", .str "hello")]) = some l ∧
      l.state.journal.rows.length = 1 ∧ TrailIntact l := by
  have hplays : (scenario loneConfig emptyDisk (tellJournal [("command", .str "hello")])).any fun l =>
      l.state.journal.rows.length = 1 ∧
        l.state.handled.all fun h => l.state.journal.limits.records h.recorded := by decide +kernel
  have htaken : (scenarioTaken loneConfig emptyDisk (tellJournal [("command", .str "hello")])).all
      fun taken => unreadable taken.2.2 = false ∧
        (taken.2.2.field "target").isStr "authority" = false ∧
        ((taken.2.2.field "payload").field "command").isStr "journal_record" = false := by
    decide +kernel
  have hallowed : ∀ taken ∈ scenarioTaken loneConfig emptyDisk (tellJournal [("command", .str "hello")]),
      leavesTrail taken.1 taken.2 := by
    intro taken hmem
    obtain ⟨hreadable, htarget, hcommand⟩ :=
      of_decide_eq_true (List.all_eq_true.mp htaken taken hmem)
    refine ⟨hreadable, fun _ _ hrecord => ?_, fun hauthority => ?_⟩
    · simp [hrecord, Value.isStr] at hcommand
    · simp [hauthority, Value.isStr] at htarget
  obtain ⟨l, hplayed, hends⟩ := (Option.any_eq_true _ _).mp hplays
  obtain ⟨hrows, hrecorded⟩ := of_decide_eq_true hends
  exact ⟨l, hplayed, hrows, trail_intact (reachable_of_scenario hplayed hallowed)
    (List.all_eq_true.mp hrecorded)⟩

/-- Every process can write rows of its own. -/
theorem row_forged : ∃ l, Reachable loneConfig .free l ∧ ¬ TrailIntact l := by
  have hplays : (scenario loneConfig emptyDisk forgeRow).any fun l =>
      l.state.journal.rows.length = 2 ∧ l.state.handled.length = 1 := by decide +kernel
  obtain ⟨l, hplayed, hends⟩ := (Option.any_eq_true _ _).mp hplays
  obtain ⟨hrows, hhandled⟩ := of_decide_eq_true hends
  refine ⟨l, reachable_free_of_scenario hplayed, fun hintact => ?_⟩
  have hlength := hintact.1.rows.length_eq
  rw [hrows, hhandled] at hlength
  exact absurd hlength (by decide)

end Scenario

end AgentOS

end MyTeam.Kernel
