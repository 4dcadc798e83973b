import MyTeam.Kernel.Requests

/-!
# What processing one event does

`Wired` is the invariant of the tables that routing reads. In a wired state the processing of
an event that is not a kernel command has one of the outcomes listed in `Processed`, each
with the condition under which it occurs.
-/

namespace MyTeam.Kernel

open MyTeam.Py MyTeam.Async MyTeam.Dispatch Coroutine

/-- How `entities`, the handles and the processes fit together: the kernel and its devices
stand under their own names, and a registered handle has a process. -/
structure AgentOS.Wired (os : AgentOS) : Prop where
  kernel : os.entities "kernel" = some .kernel
  kernel_only : ∀ {identity}, os.entities identity = some .kernel → identity = "kernel"
  kernelMode : ∀ {identity device}, os.entities identity = some (.kernelMode device) →
    identity = device.identity
  registered : ∀ {identity handle}, os.entities identity = some (.process handle) →
    handle < os.nextHandle ∧ (os.handles handle).identity = identity ∧
      ∃ pid, (os.handles handle).process = some pid
  process : ∀ {handle pid}, (os.handles handle).process = some pid →
    pid < os.nextPid ∧ (os.procs pid).handle = handle
  spec : ∀ {pid}, pid < os.nextPid → (os.procs pid).handle < os.nextHandle ∧
    (os.procs pid).spec.identity = (os.handles (os.procs pid).handle).identity ∧
    (os.procs pid).spec.identity ≠ ""
  fresh : ∀ {pid}, os.nextPid ≤ pid → (os.procs pid).alive = false

namespace Limits

variable {limits : Limits} {event : Value}

/-- What can be recorded can be written. -/
theorem writable_of_records (h : limits.records event = true) : event.writable limits.room = true := by
  simp only [records, Bool.and_eq_true] at h
  exact Value.writable_orElse h.1.1.1.2

/-- What can be recorded has texts. -/
theorem printable_of_records (h : limits.records event = true) : event.printable = true :=
  Value.printable_of_writable (writable_of_records h)

end Limits

namespace Journal

/-- What can be recorded gets a row. -/
theorem insert_ok {j : Journal} {ts : String} {event outcome reason : Value}
    (h : j.limits.records event = true) (houtcome : j.limits.accepts outcome = true)
    (hreason : j.limits.accepts reason = true) :
    j.insert ts (event.orElse (.dict [])) outcome reason =
      .ok { j with rows := j.rows ++ [row ts (event.orElse (.dict [])) outcome reason] } := by
  simp only [Limits.records, Bool.and_eq_true] at h
  obtain ⟨⟨⟨⟨hdict, hwritable⟩, hsource⟩, htarget⟩, hkind⟩ := h
  generalize event.orElse (.dict []) = event at *
  cases event with
  | dict kvs =>
    change (do
      let payload ← (Value.dict kvs).json j.limits.room
      let source ← j.limits.bindValue 2 ((Value.dict kvs).field "source")
      let target ← j.limits.bindValue 3 ((Value.dict kvs).field "target")
      let kind ← j.limits.bindValue 4 ((Value.dict kvs).field "kind")
      let outcome ← j.limits.bindValue 6 outcome
      let reason ← j.limits.bindValue 7 reason
      return { j with rows := j.rows ++ [⟨ts, source, target, kind, payload, outcome, reason⟩] } :
        Except Exc Journal) = _
    simp only [Value.json_ok hwritable, Limits.bindValue, hsource, htarget, hkind, houtcome, hreason, if_true,
      ok_bind]
    rfl
  | _ => simp [Value.isDict] at hdict

/-- Binding fails on what the database does not take. -/
theorem bindValue_error {limits : Limits} {v : Value} (parameter : ℕ) (h : limits.accepts v = false) :
    ∃ error, limits.bindValue parameter v = .error error := by
  unfold Limits.bindValue
  rw [if_neg (by simp [h])]
  split <;> exact ⟨_, rfl⟩

/-- Whatever gets a row can be recorded. -/
theorem records_of_insert {j j' : Journal} {ts : String} {event outcome reason : Value}
    (h : j.insert ts (event.orElse (.dict [])) outcome reason = .ok j') : j.limits.records event = true := by
  have haccepts {v v' : Value} {parameter : ℕ} (hbind : j.limits.bindValue parameter v = .ok v') :
      j.limits.accepts v = true := by
    by_contra hrefused
    obtain ⟨error, herror⟩ := bindValue_error parameter (Bool.of_not_eq_true hrefused)
    simp [herror] at hbind
  simp only [insert, bind_eq_ok] at h
  obtain ⟨source, hsource, target, htarget, kind, hkind, payload, hpayload, _, hbind, _, hbind', _, hbind'', -⟩ := h
  rw [Limits.records, Value.field_of_get hsource, Value.field_of_get htarget, Value.field_of_get hkind,
    haccepts hbind, haccepts hbind', haccepts hbind'']
  have hdict : (event.orElse (.dict [])).isDict = true := by
    cases hevent : event.orElse (.dict []) <;> simp_all [Value.get, Value.isDict]
  have hwritable : (event.orElse (.dict [])).writable j.limits.room = true := by
    by_contra hlong
    obtain ⟨error, herror⟩ := Value.json_error (Bool.of_not_eq_true hlong)
    simp [herror] at hpayload
  simp [hdict, hwritable]

end Journal

namespace AgentOS

/-- Write a row. -/
def log (os : AgentOS) (row : Row) : AgentOS :=
  { os with journal := { os.journal with rows := os.journal.rows ++ [row] } }

/-- A routed event has been handled and recorded; `event'` is what the kernel routes. -/
def observe (os : AgentOS) (producer : Producer) (event event' : Value) : AgentOS :=
  (os.note producer event).log (Journal.row os.clock event' (.str "routed") .none)

/-- The report of an event that could not be delivered. -/
def reported (event : Value) : Except Exc Unit := do
  let payload ← event.get "payload" (.dict [])
  let command ← payload.get "command" .none
  let _ ← command.format

/-- The Journal with a row for the event. -/
def writes (os : AgentOS) (event : Value) (outcome : String) (reason : Value) : Except Exc Journal :=
  os.journal.insert os.clock (event.orElse (.dict [])) (.str outcome) reason

/-- The Journal with a row for a dropped event, which has the text of the error. -/
def drops (os : AgentOS) (event : Value) (reason : EventError) : Except Exc Journal := do
  os.writes event "dropped" (.str (← reason.text))

/-- The outcomes of processing an event, but for the service of kernel commands. An accepted event
whose record cannot be written stops the kernel, whoever it is addressed to. -/
inductive Processed (producer : Producer) (event : Value) (os : AgentOS) :
    Except Exc Unit → AgentOS → Prop where
  | raised {error : Exc} (invalid : os.validate event = .raised error) :
      Processed producer event os (.error error) (os.note producer event)
  | unrecorded {reason : EventError} {error : Exc} (invalid : os.validate event = .rejected reason)
      (unbound : os.drops event reason = .error error) :
      Processed producer event os (.error error) (os.note producer event)
  | dropped {reason : EventError} {journal : Journal} (invalid : os.validate event = .rejected reason)
      (inserted : os.drops event reason = .ok journal) :
      Processed producer event os (.ok ()) { os.note producer event with journal }
  | unwritten {source target : String} {event' : Value} {error : Exc} (valid : os.validate event = .accepted)
      (accepted : Accepted os.registered event source target) (known : os.enriched event = .ok event')
      (unbound : os.writes event' "routed" .none = .error error) :
      Processed producer event os (.error error) (os.note producer event)
  | unauthenticated {source target : String} {error : Exc}
      (valid : os.validate event = .accepted)
      (accepted : Accepted os.registered event source target) (other : target ≠ "kernel")
      (unknown : os.enriched event = .error error) :
      Processed producer event os (.error error) (os.note producer event)
  | submitted {source target : String} {device : Device} (valid : os.validate event = .accepted)
      (accepted : Accepted os.registered event source target)
      (entity : os.entities target = some (.kernelMode device)) :
      Processed producer event os (.ok ()) ((os.observe producer event event).submit device event)
  | pushed {source target : String} {handle pid : ℕ} {event' : Value}
      (valid : os.validate event = .accepted)
      (accepted : Accepted os.registered event source target)
      (entity : os.entities target = some (.process handle))
      (process : (os.handles handle).process = some pid) (opened : (os.procs pid).open = true)
      (known : os.enriched event = .ok event') :
      Processed producer event os (.ok ()) ((os.observe producer event event').push pid event')
  | closed {source target : String} {handle pid : ℕ} {event' : Value}
      (valid : os.validate event = .accepted)
      (accepted : Accepted os.registered event source target)
      (entity : os.entities target = some (.process handle))
      (process : (os.handles handle).process = some pid) (shut : (os.procs pid).open = false)
      (known : os.enriched event = .ok event') :
      Processed producer event os (reported event') (os.observe producer event event')

variable {c : Contract AgentOS} {start os : AgentOS}

@[simp] theorem wp_enrich {event : Value} {Q : AgentOS → Except Exc Value → AgentOS → Prop} :
    wp c (enrich event) Q start os ↔ Q start (os.enriched event) os := by
  simp only [enrich, enriched, wp_bind, wp_get, wp_ofExcept]
  cases event.item "target" with
  | error error => rfl
  | ok target =>
    simp only [ok_bind]
    split
    · rfl
    simp only [wp_bind, wp_ofExcept]
    cases event.item "source" with
    | error error => rfl
    | ok source =>
      simp only [ok_bind]
      split
      · simp only [wp_bind, wp_pure, wp_ofExcept]
        rfl
      · simp only [wp_bind, wp_authContext]
        cases os.authority.authContext source with
        | error error => rfl
        | ok auth => simp

@[simp] theorem wp_record {event : Value} {outcome : String} {reason : Value}
    {Q : AgentOS → Except Exc Unit → AgentOS → Prop} :
    wp c (record event outcome reason) Q start os ↔
      match os.writes event outcome reason with
      | .ok journal => Q start (.ok ()) { os with journal }
      | .error error => Q start (.error error) os := by
  have hrespond : os.journal.respond os.clock (systemRequest "journal"
      [("command", .str "journal_record"), ("event", event), ("outcome", .str outcome),
        ("reason", reason)]) = do
      return (← os.writes event outcome reason, void) := by
    simp [writes, Journal.respond, systemRequest, Value.item, Value.get, Value.isStr, List.lookup_cons]
  simp only [record, wp_bind, wp_get, wp_ofExcept, hrespond]
  cases os.writes event outcome reason with
  | error error => rfl
  | ok journal => rfl

/-- A handle that has a process delivers to it, or reports that it cannot. -/
theorem wp_deliver (os : AgentOS) {handle pid : ℕ} {event : Value} {Q : AgentOS → Except Exc Unit → AgentOS → Prop}
    (h : (os.handles handle).process = some pid) :
    wp c (deliver handle event) Q start os ↔
      if (os.procs pid).open then Q start (.ok ()) (os.push pid event)
      else Q start (reported event) os := by
  simp only [deliver, ensureProcess, wp_bind, wp_get, h, wp_pure, reported]
  split
  · rfl
  · simp only [wp_bind, wp_ofExcept]
    cases event.get "payload" (.dict []) with
    | error error => rfl
    | ok payload =>
      simp only [ok_bind]
      cases payload.get "command" .none with
      | error error => rfl
      | ok command =>
        simp only [ok_bind]
        cases command.format <;> rfl

/-- `_enrich` adds one field and leaves the rest. -/
theorem enriched_fields {event event' : Value} (h : os.enriched event = .ok event')
    (hdict : ∃ kvs, event = .dict kvs) :
    (∃ kvs, event' = .dict kvs) ∧ ∀ key, key ≠ "auth" → event'.field key = event.field key := by
  obtain ⟨target, -, h⟩ := bind_eq_ok.mp h
  split at h
  · obtain rfl : event = event' := Except.ok.inj h
    exact ⟨hdict, fun _ _ => rfl⟩
  obtain ⟨source, -, h⟩ := bind_eq_ok.mp h
  have hset : ∃ auth, event.setItem "auth" auth = .ok event' := by
    split at h
    · exact ⟨emptyAuth, h⟩
    · obtain ⟨auth, -, h⟩ := bind_eq_ok.mp h
      exact ⟨auth, h⟩
  obtain ⟨auth, hset⟩ := hset
  exact ⟨Value.dict_of_setItem hset, fun key hne => Value.field_of_setItem hset hne⟩

/-- What can be recorded gets a row. -/
theorem writes_ok {event reason : Value} {outcome : String} (h : os.journal.limits.records event = true)
    (hreason : os.journal.limits.accepts reason = true) :
    os.writes event outcome reason = .ok { os.journal with
      rows := os.journal.rows ++ [Journal.row os.clock (event.orElse (.dict [])) (.str outcome) reason] } :=
  Journal.insert_ok h rfl hreason

/-- A dropped event that can be recorded gets a row. -/
theorem drops_ok {event : Value} {reason : EventError} (h : os.journal.limits.records event = true)
    (invalid : os.validate event = .rejected reason) :
    os.drops event reason = .ok { os.journal with rows := os.journal.rows ++
      [Journal.row os.clock (event.orElse (.dict [])) (.str "dropped") (.str reason.message)] } := by
  rw [drops, text_of_rejected (Limits.printable_of_records h) invalid]
  exact writes_ok h rfl

/-- A dropped event that gets a row can be recorded. -/
theorem records_of_drops {event : Value} {reason : EventError} {journal : Journal}
    (h : os.drops event reason = .ok journal) : os.journal.limits.records event = true := by
  obtain ⟨text, -, h⟩ := bind_eq_ok.mp h
  exact Journal.records_of_insert h

/-- The Journal is told of a routed event with the caller's authorization. -/
theorem recorded_of_accepted {event event' : Value} (valid : os.validate event = .accepted)
    (known : os.enriched event = .ok event') : os.recorded event = event' := by
  rw [recorded, valid, known]

/-- The Journal is told of a dropped event as it is. -/
theorem recorded_of_rejected {event : Value} {reason : EventError}
    (invalid : os.validate event = .rejected reason) : os.recorded event = event := by
  rw [recorded, invalid]

/-- An event that gets a row as a routed one, and its row. -/
theorem observe_of_writes {producer : Producer} {event event' : Value} {journal : Journal}
    (hdict : ∃ kvs, event' = .dict kvs) (h : os.writes event' "routed" .none = .ok journal) :
    ({ os.note producer event with journal } : AgentOS) = os.observe producer event event' := by
  rw [writes_ok (Journal.records_of_insert h) rfl] at h
  obtain ⟨kvs, rfl⟩ := hdict
  obtain rfl := Except.ok.inj h
  cases kvs <;> rfl

/-- An accepted event for another target than the kernel is enriched, recorded and routed. -/
theorem wp_processWith_routed {onKernel : Value → Task Unit} {producer : Producer} {event : Value}
    {source target : String} {Q : AgentOS → Except Exc Unit → AgentOS → Prop}
    (valid : os.validate event = .accepted)
    (accepted : Accepted os.registered event source target) (other : target ≠ "kernel") :
    wp c (processWith onKernel producer event) Q start os ↔
      match os.enriched event with
      | .error error => Q start (.error error) (os.note producer event)
      | .ok event' =>
        match os.writes event' "routed" .none with
        | .error error => Q start (.error error) (os.note producer event)
        | .ok _ => wp c (route event') Q start (os.observe producer event event') := by
  have hitem : event.item "target" = .ok (.str target) :=
    Value.item_eq_field accepted.target_eq (by simp)
  have hkernel : Value.isStr (.str target) "kernel" = false := by simpa [Value.isStr] using other
  simp only [processWith, wp_bind, wp_get, wp_modify, valid, hitem, wp_ofExcept, hkernel,
    Bool.false_eq_true, if_false, wp_enrich]
  have hnote : (os.note producer event).enriched event = os.enriched event := rfl
  rw [hnote]
  cases henriched : os.enriched event with
  | error error => rfl
  | ok event' =>
    simp only [wp_record]
    have hwrites : (os.note producer event).writes event' "routed" .none = os.writes event' "routed" .none := rfl
    rw [hwrites]
    cases hjournal : os.writes event' "routed" .none with
    | error error => rfl
    | ok journal =>
      rw [← observe_of_writes (enriched_fields henriched accepted.dict).1 hjournal]

/-- An accepted event for the kernel is recorded and served. -/
theorem wp_processWith_kernel {onKernel : Value → Task Unit} {producer : Producer} {event : Value}
    {source : String} {Q : AgentOS → Except Exc Unit → AgentOS → Prop}
    (valid : os.validate event = .accepted)
    (accepted : Accepted os.registered event source "kernel") :
    wp c (processWith onKernel producer event) Q start os ↔
      match os.writes event "routed" .none with
      | .error error => Q start (.error error) (os.note producer event)
      | .ok _ => wp c (onKernel event) Q start (os.observe producer event event) := by
  have hitem : event.item "target" = .ok (.str "kernel") :=
    Value.item_eq_field accepted.target_eq (by simp)
  have hkernel : Value.isStr (.str "kernel") "kernel" = true := by simp [Value.isStr]
  simp only [processWith, wp_bind, wp_get, wp_modify, valid, hitem, wp_ofExcept, hkernel, if_true,
    wp_record]
  have hwrites : (os.note producer event).writes event "routed" .none = os.writes event "routed" .none := rfl
  rw [hwrites]
  cases hjournal : os.writes event "routed" .none with
  | error error => rfl
  | ok journal => rw [← observe_of_writes accepted.dict hjournal]

/-- An event that is not accepted is at most recorded. -/
theorem wp_processWith_refused {onKernel : Value → Task Unit} {producer : Producer} {event : Value}
    {reason : EventError} {Q : AgentOS → Except Exc Unit → AgentOS → Prop}
    (invalid : os.validate event = .rejected reason) :
    wp c (processWith onKernel producer event) Q start os ↔
      match os.drops event reason with
      | .ok journal => Q start (.ok ()) { os.note producer event with journal }
      | .error error => Q start (.error error) (os.note producer event) := by
  simp only [processWith, wp_bind, wp_get, wp_modify, invalid, wp_ofExcept, wp_record, drops]
  cases reason.text with
  | error error => rfl
  | ok text => rfl

/-- An event that makes a rule raise is not even recorded. -/
theorem wp_processWith_raised {onKernel : Value → Task Unit} {producer : Producer} {event : Value}
    {error : Exc} {Q : AgentOS → Except Exc Unit → AgentOS → Prop}
    (invalid : os.validate event = .raised error) :
    wp c (processWith onKernel producer event) Q start os ↔
      Q start (.error error) (os.note producer event) := by
  simp only [processWith, wp_bind, wp_get, wp_modify, invalid, wp_raise]

/-- Routing to a process. -/
theorem wp_route_process (os : AgentOS) {event : Value} {target : String} {handle pid : ℕ}
    {Q : AgentOS → Except Exc Unit → AgentOS → Prop} (htarget : event.field "target" = .str target)
    (entity : os.entities target = some (.process handle))
    (process : (os.handles handle).process = some pid) :
    wp c (route event) Q start os ↔
      if (os.procs pid).open then Q start (.ok ()) (os.push pid event)
      else Q start (reported event) os := by
  have hitem : event.item "target" = .ok (.str target) := Value.item_eq_field htarget (by simp)
  simp only [route, wp_bind, wp_get, hitem, wp_ofExcept, entityAt, entity, wp_deliver os process]

/-- Routing to a kernel-mode device. -/
theorem wp_route_kernelMode (os : AgentOS) {event : Value} {target : String} {device : Device}
    {Q : AgentOS → Except Exc Unit → AgentOS → Prop} (htarget : event.field "target" = .str target)
    (entity : os.entities target = some (.kernelMode device)) :
    wp c (route event) Q start os ↔ Q start (.ok ()) (os.submit device event) := by
  have hitem : event.item "target" = .ok (.str target) := Value.item_eq_field htarget (by simp)
  simp only [route, wp_bind, wp_get, hitem, wp_ofExcept, entityAt, entity, wp_modify]

/-- Events for kernel-mode devices are not enriched. -/
theorem enriched_kernelMode {event : Value} {target : String} {device : Device}
    (htarget : event.field "target" = .str target)
    (entity : os.entities target = some (.kernelMode device)) : os.enriched event = .ok event := by
  have hitem : event.item "target" = .ok (.str target) := Value.item_eq_field htarget (by simp)
  simp [enriched, hitem, isProcess, entityAt, entity, pure, Except.pure]

/-- Events for the kernel are not enriched. -/
theorem enriched_self (hw : os.Wired) {event : Value} {source : String}
    (accepted : Accepted os.registered event source "kernel") : os.enriched event = .ok event := by
  have hitem : event.item "target" = .ok (.str "kernel") := Value.item_eq_field accepted.target_eq (by simp)
  simp [enriched, hitem, isProcess, entityAt, hw.kernel, pure, Except.pure]

/-- The entity behind a registered name other than the kernel's. -/
theorem Wired.entity (hw : os.Wired) {target : String} (registered : os.registered target = true)
    (other : target ≠ "kernel") :
    (∃ device, os.entities target = some (.kernelMode device)) ∨
      ∃ handle pid, os.entities target = some (.process handle) ∧
        (os.handles handle).process = some pid := by
  obtain ⟨entity, hentity⟩ := Option.isSome_iff_exists.mp registered
  cases entity with
  | kernel => exact absurd (hw.kernel_only hentity) other
  | kernelMode device => exact Or.inl ⟨device, hentity⟩
  | process handle =>
    obtain ⟨-, -, pid, hpid⟩ := hw.registered hentity
    exact Or.inr ⟨handle, pid, hentity, hpid⟩

/-- Only the kernel itself stands under its name. -/
theorem Wired.ne_kernel (hw : os.Wired) {target : String} {entity : Entity}
    (h : os.entities target = some entity) (hentity : entity ≠ .kernel) : target ≠ "kernel" := by
  rintro rfl
  exact hentity (Option.some.inj (h.symm.trans hw.kernel))

/-- Live processes have been started. -/
theorem Wired.lt_of_alive (hw : os.Wired) {pid : ℕ} (halive : (os.procs pid).alive = true) :
    pid < os.nextPid := by
  by_contra hfresh
  exact absurd (hw.fresh (Nat.le_of_not_lt hfresh)) (by simp [halive])

/-- The rule for processing an event: one of the outcomes of `Processed`, or the service of a
command. -/
theorem wp_processWith {onKernel : Value → Task Unit} {producer : Producer} {event : Value}
    {Q : AgentOS → Except Exc Unit → AgentOS → Prop} (hw : os.Wired)
    (hdone : ∀ r os', Processed producer event os r os' → Q start r os')
    (hkernel : ∀ source, os.validate event = .accepted →
      Accepted os.registered event source "kernel" →
      wp c (onKernel event) Q start (os.observe producer event event)) :
    wp c (processWith onKernel producer event) Q start os := by
  cases valid : os.validate event with
  | raised error => exact (wp_processWith_raised valid).mpr (hdone _ _ (.raised valid))
  | rejected reason =>
    rw [wp_processWith_refused valid]
    split
    next journal hinsert => exact hdone _ _ (.dropped valid hinsert)
    next error hinsert => exact hdone _ _ (.unrecorded valid hinsert)
  | accepted =>
    obtain ⟨source, target, accepted⟩ := accepted_of_validateEvent valid
    by_cases other : target = "kernel"
    · subst other
      rw [wp_processWith_kernel valid accepted]
      split
      next error hjournal => exact hdone _ _ (.unwritten valid accepted (enriched_self hw accepted) hjournal)
      next => exact hkernel source valid accepted
    rw [wp_processWith_routed valid accepted other]
    split
    next error henriched => exact hdone _ _ (.unauthenticated valid accepted other henriched)
    next event' henriched =>
    split
    next error hjournal => exact hdone _ _ (.unwritten valid accepted henriched hjournal)
    next hjournal =>
    obtain ⟨-, hfields⟩ := enriched_fields henriched accepted.dict
    have htarget : event'.field "target" = .str target :=
      (hfields "target" (by decide)).trans accepted.target_eq
    rcases hw.entity accepted.target_registered other with ⟨device, entity⟩ | ⟨handle, pid, entity, hpid⟩
    · obtain rfl : event = event' :=
        Except.ok.inj ((enriched_kernelMode accepted.target_eq entity).symm.trans henriched)
      exact (wp_route_kernelMode (os.observe producer event event) htarget entity).mpr
        (hdone _ _ (.submitted valid accepted entity))
    · rw [wp_route_process (os.observe producer event event') htarget entity hpid]
      split
      next opened => exact hdone _ _ (.pushed valid accepted entity hpid opened henriched)
      next shut =>
        exact hdone _ _ (.closed valid accepted entity hpid (Bool.of_not_eq_true shut) henriched)

end AgentOS

end MyTeam.Kernel
