import MyTeam.Kernel.Audit
import MyTeam.Kernel.Raising

/-!
# The robustness of the event loop

An exception that leaves `_process_event` ends the loop for everybody. Validation answers
malformed events with a verdict, and the loop goes on; but several places read fields of any
shape without looking first. For each event a process can send it is said here exactly when
it is processed to the end and recorded.
-/

namespace MyTeam.Kernel

open MyTeam.Py MyTeam.Async Coroutine Relation

namespace Journal

/-- Rows are only appended, and the limits stay. -/
structure Extends (j j' : Journal) : Prop where
  rows : j.rows <+: j'.rows
  limits : j'.limits = j.limits

/-- Nothing is appended. -/
theorem Extends.refl (j : Journal) : Extends j j := ⟨List.prefix_rfl, rfl⟩

/-- One thing after another. -/
theorem Extends.trans {j j' j'' : Journal} (h : Extends j j') (h' : Extends j' j'') : Extends j j'' :=
  ⟨h.rows.trans h'.rows, h'.limits.trans h.limits⟩

/-- A row is appended. -/
theorem insert_extends {j j' : Journal} {ts : String} {event outcome reason : Value}
    (h : j.insert ts event outcome reason = .ok j') : Extends j j' := by
  simp only [insert, bind_eq_ok] at h
  obtain ⟨_, -, _, -, _, -, _, -, _, -, _, -, _, -, _, -, _, -, h⟩ := h
  obtain rfl := Except.ok.inj h
  exact ⟨List.prefix_append _ _, rfl⟩

/-- Whatever the Journal is asked, it appends at most. -/
theorem respond_extends {j j' : Journal} {ts : String} {event reply : Value}
    (h : j.respond ts event = .ok (j', reply)) : Extends j j' := by
  obtain ⟨payload, -, h⟩ := bind_eq_ok.mp h
  obtain ⟨command, -, h⟩ := bind_eq_ok.mp h
  split at h
  · simp only [bind_eq_ok] at h
    obtain ⟨_, -, _, -, _, -, inserted, hinsert, h⟩ := h
    obtain ⟨rfl, -⟩ := Prod.mk.inj (Except.ok.inj h)
    exact insert_extends hinsert
  · obtain ⟨rfl, -⟩ := Prod.mk.inj (Except.ok.inj h)
    exact .refl _

end Journal

namespace AgentOS

variable {entry os os' : AgentOS}

/-- A written row is appended. -/
theorem extends_observe (os : AgentOS) (producer : Producer) (event event' : Value) :
    os.journal.Extends (os.observe producer event event').journal :=
  ⟨List.prefix_append _ _, rfl⟩

/-- Processing appends rows. -/
theorem Processed.extends {producer : Producer} {event : Value} {r : Except Exc Unit}
    (h : Processed producer event os r os') : os.journal.Extends os'.journal := by
  cases h with
  | dropped invalid inserted =>
    obtain ⟨text, -, inserted⟩ := bind_eq_ok.mp inserted
    exact Journal.insert_extends inserted
  | submitted | pushed | closed => exact extends_observe os _ _ _
  | _ => exact .refl _

/-- So does emitting. -/
theorem Emitted.extends {source : String} {event : Value} {r : Except Exc Unit}
    (h : Emitted source event os r os') : os.journal.Extends os'.journal := by
  cases h with
  | routed processed => exact processed.extends
  | served => exact extends_observe os _ _ _

/-- So does every act of the kernel. -/
theorem Act.extends {w : Warrant} (h : Act w os os') : os.journal.Extends os'.journal := by
  cases h with
  | route warrant processed => exact processed.extends
  | accept => exact extends_observe os _ _ _
  | emit known spoken emitted => exact emitted.extends
  | _ => exact .refl _

/-- So does the answer of a device. -/
theorem respondAs_extends (os : AgentOS) (device : Device) (event : Value) :
    os.journal.Extends (os.respondAs device event).1.journal := by
  cases device with
  | authority =>
    simp only [respondAs]
    split <;> exact .refl _
  | journal =>
    simp only [respondAs]
    split
    next journal reply hrespond => exact Journal.respond_extends hrespond
    · exact .refl _

/-- So does everything that happens beside the event loop. -/
theorem Background.extends (hw : os.Wired) (h : Background os os') :
    os.journal.Extends os'.journal := by
  cases h with
  | @round device i after serves =>
    cases rounds_of_round hw serves with
    | silent queued queues => exact respondAs_extends os device _
    | emitting queued queues spoken emitted ends =>
      exact (respondAs_extends os device _).trans emitted.extends
  | _ => exact .refl _

/-- What happens while the kernel waits. -/
def meanwhile : Contract AgentOS where
  rely _ os os' := ReflTransGen Background os os'
  wait _ _ := True

/-- The event is processed to the end, and its row, with the true outcome, is the next one. -/
def Survives (os : AgentOS) (producer : Producer) (event : Value) : Prop :=
  (processEvent producer event os).Holds meanwhile (fun _ r os' => r = .ok () ∧
    ∃ row, Describes row (os.handling producer event) ∧
      os.journal.rows ++ [row] <+: os'.journal.rows) os

/-- Recording the command leaves the wiring. -/
theorem wired_observe {producer : Producer} {event : Value} (hw : entry.Wired) :
    (entry.observe producer event event).Wired :=
  (Still.of_eq rfl rfl rfl rfl rfl rfl rfl rfl : Still entry (entry.observe producer event event)).wired hw

/-- The payload, by default an empty dictionary, is a dictionary. -/
def reportable (event : Value) : Bool :=
  match event.get "payload" (.dict []) with
  | .ok payload => payload.isDict
  | .error _ => false

/-- When an event that cannot be delivered can be reported. -/
theorem reported_ok_iff {event : Value} (h : event.printable = true) :
    reported event = .ok () ↔ reportable event = true := by
  unfold reported reportable
  cases hpayload : event.get "payload" (.dict []) with
  | error error => simp
  | ok payload =>
    have hprintable := Value.printable_get h rfl hpayload
    cases payload with
    | dict kvs =>
      have hcommand := Value.printable_field "command" hprintable
      simp only [Value.field] at hcommand
      simp [Value.get, Value.isDict, Value.format, hcommand, pure, Except.pure]
    | _ => simp [Value.get, Value.isDict]

/-- `_enrich` changes nothing else that is read. -/
theorem reportable_enriched {event event' : Value} (h : os.enriched event = .ok event') :
    reportable event' = reportable event := by
  rcases enriched_eq h with rfl | ⟨auth, hset⟩
  · rfl
  · cases event with
    | dict kvs =>
      obtain rfl : Value.dict (assign "auth" auth kvs) = event' := Except.ok.inj hset
      simp [reportable, Value.get, lookup_assign]
    | _ => simp [Value.setItem] at hset

/-- What can be recorded can be recorded with an authorization, if that is not nested too deep. -/
theorem records_setItem {limits : Limits} {event event' auth : Value} (h : limits.records event = true)
    (hauth : auth.writable 7 = true) (hset : event.setItem "auth" auth = .ok event') :
    limits.records event' = true := by
  cases event with
  | dict kvs =>
    obtain ⟨kvs', rfl⟩ := Value.dict_of_setItem hset
    obtain ⟨room, hroom⟩ : ∃ room, limits.room = room + 1 := ⟨limits.room - 1, by have := limits.roomy; omega⟩
    have hauth : auth.writable room = true := by
      rw [Value.writable, Bool.and_eq_true, decide_eq_true_eq] at hauth ⊢
      have := limits.roomy
      exact ⟨hauth.1, by omega⟩
    simp only [Limits.records, Value.orElse_dict, Value.isDict, Bool.true_and, Bool.and_eq_true, hroom] at h ⊢
    obtain ⟨⟨⟨hwritable, hsource⟩, htarget⟩, hkind⟩ := h
    rw [Value.field_of_setItem hset (by decide : "source" ≠ "auth"),
      Value.field_of_setItem hset (by decide : "target" ≠ "auth"),
      Value.field_of_setItem hset (by decide : "kind" ≠ "auth")]
    exact ⟨⟨⟨Value.writable_setItem hauth hwritable hset, hsource⟩, htarget⟩, hkind⟩
  | _ => simp [Value.setItem] at hset

/-- An event of the kernel that is not enriched with the scopes of its source: it comes from the
kernel or one of its devices, or it goes to an agent. -/
def Plain (os : AgentOS) (source : String) (target : Value) : Prop :=
  source = "kernel" ∨ os.isKernelMode (.str source) = true ∨ os.agentIds.any target.isStr = true

/-- Nothing or an empty authorization is added to a plain event. -/
theorem Plain.enriched {source : String} {target : Value} (h : os.Plain source target)
    (payload : List (String × Value)) : ∃ event, os.enriched (emission source target payload) = .ok event ∧
      (os.journal.limits.records (emission source target payload) = true →
        os.journal.limits.records event = true) := by
  have htarget : (emission source target payload).item "target" = .ok target := rfl
  have hsource : (emission source target payload).item "source" = .ok (.str source) := rfl
  simp only [AgentOS.enriched, htarget, hsource, ok_bind]
  split
  · exact ⟨_, rfl, id⟩
  next hother =>
    simp only [Bool.or_eq_true, not_or] at hother
    have hempty : (Value.isStr (.str source) "kernel" || os.isKernelMode (.str source)) = true := by
      rcases h with rfl | hmode | hagent
      · rfl
      · simp [hmode]
      · exact absurd hagent hother.1
    rw [if_pos hempty]
    exact ⟨_, rfl, fun hrecords => records_setItem hrecords (by decide) rfl⟩

/-- What the kernel says is processed to the end, if it is plain and can be recorded. -/
theorem Emitted.returned {source : String} {target : Value} {payload : List (String × Value)}
    {r : Except Exc Unit} (h : Emitted source (emission source target payload) os r os')
    (plain : os.Plain source target)
    (recordable : os.journal.limits.records (emission source target payload) = true) : r = .ok () := by
  obtain ⟨event', hknown, hrecords⟩ := plain.enriched payload
  cases h with
  | served => rfl
  | routed processed =>
    cases processed with
    | raised invalid =>
      have hraises := validateEvent_raises_iff.mp ⟨_, invalid⟩
      simp [unreadable_emission] at hraises
    | unrecorded invalid unbound => simp [drops_ok recordable invalid] at unbound
    | unwritten valid accepted enriched unbound =>
      obtain rfl := Except.ok.inj (hknown.symm.trans enriched)
      rw [writes_ok (hrecords recordable) rfl] at unbound
      simp at unbound
    | unauthenticated valid accepted other unknown => simp [hknown] at unknown
    | closed valid accepted entity process shut enriched =>
      obtain rfl := Except.ok.inj (hknown.symm.trans enriched)
      rw [reported_ok_iff (Limits.printable_of_records (hrecords recordable)), reportable_enriched enriched]
      rfl
    | _ => rfl

/-- The kernel has said nothing in its own name since `entry`. -/
def Silent (entry os : AgentOS) : Prop :=
  ∃ since, os.handled = entry.handled ++ since ∧ ∀ h ∈ since, h.producer ≠ .kernel "kernel"

/-- What was handled besides does not break the silence. -/
theorem Silent.append {since : List Handled} (h : Silent entry os) (hhandled : os'.handled = os.handled ++ since)
    (hsince : ∀ h ∈ since, h.producer ≠ .kernel "kernel") : Silent entry os' := by
  obtain ⟨before, hbefore, hsilent⟩ := h
  refine ⟨before ++ since, by rw [hhandled, hbefore, List.append_assoc], fun h hmem => ?_⟩
  rcases List.mem_append.mp hmem with hmem | hmem
  · exact hsilent h hmem
  · exact hsince h hmem

/-- Nothing was handled besides. -/
theorem Silent.of_eq (h : Silent entry os) (hhandled : os'.handled = os.handled) : Silent entry os' := by
  obtain ⟨since, hsince, hsilent⟩ := h
  exact ⟨since, hhandled.trans hsince, hsilent⟩

/-- Processing handles one event. -/
theorem Processed.handled {producer : Producer} {event : Value} {r : Except Exc Unit}
    (h : Processed producer event os r os') :
    os'.handled = os.handled ++ [os.handling producer event] := by
  cases h <;> rfl

/-- Emitting handles one event. -/
theorem Emitted.handled {source : String} {event : Value} {r : Except Exc Unit}
    (h : Emitted source event os r os') :
    os'.handled = os.handled ++ [os.handling (.kernel source) event] := by
  cases h with
  | routed processed => exact processed.handled
  | served => rfl

/-- Answering handles nothing. -/
theorem respondAs_handled (os : AgentOS) (device : Device) (event : Value) :
    (os.respondAs device event).1.handled = os.handled := by
  cases device <;> simp only [respondAs] <;> split <;> rfl

/-- What happens beside the event loop does not break the silence. -/
theorem Silent.background (h : Silent entry os) (hw : os.Wired) (hb : Background os os') : Silent entry os' := by
  cases hb with
  | @round device i after serves =>
    cases rounds_of_round hw serves with
    | silent queued queues =>
      have hsame := respondAs_handled os device
      exact h.of_eq (hsame _)
    | emitting queued queues spoken emitted ends =>
      have hhandled := emitted.handled
      have hsame := respondAs_handled os device
      refine h.append (by simpa [setTasks, hsame] using hhandled) fun entry hmem => ?_
      obtain rfl := List.mem_singleton.mp hmem
      cases device <;> simp [handling, Device.identity]
  | _ => exact h

section Serving

variable {start entry : AgentOS} {producer : Producer} {event payload : Value}

end Serving

/-- Between two events the tables are wired and nothing is being retired. -/
theorem Reachable.idle {config : Value} {rules : Rules AgentOS (Producer × Value)}
    {l : LoopState AgentOS (Producer × Value) Exc} (h : Reachable config rules l)
    (hidle : l.control = .idle) : l.state.Wired ∧ l.state.retiring = none := by
  have hthroughout : Throughout (fun _ => True) (fun _ _ _ => True) l :=
    h.throughout (fun _ _ => trivial) (fun _ _ _ => trivial) (fun _ _ _ _ _ => trivial)
      (fun _ _ _ _ => trivial) (fun _ _ _ => trivial) fun _ _ _ => trivial
  simp only [Throughout, hidle] at hthroughout
  exact ⟨hthroughout.1, hthroughout.2.1⟩

section Scenario

end Scenario

end AgentOS

end MyTeam.Kernel
