import MyTeam.Kernel.Process
import Mathlib.Logic.Relation

/-!
# The reader of one process

A child sends values to the host through its channel until it exits; the reader thread of its
handle receives them, stamps them and puts them on the bus. The child, the host that delivers
to it or kills it, and the reader take their steps in any order.

The reader leaves its loop on the end of the channel, or when it finds the process dead at the
top of the loop. Only the second way can lose events: it does not look at the channel first.
-/

namespace MyTeam.Kernel

open MyTeam.Py Relation

/-- A process, with what it has sent and what its reader has put on the bus. -/
structure Channel where
  proc : Proc
  sent : List Value
  bus : List Value

namespace Channel

/-- The channel of a process that has just been started. -/
def opened (handle : ℕ) (spec : Spec) : Channel := ⟨.started handle spec, [], []⟩

/-- One step of the child, the host or the reader; the reader only moves where `rule` holds. -/
inductive Step (rule : Channel → Prop) (c : Channel) : Channel → Prop where
  | send (value : Value) (alive : c.proc.alive = true) (connected : c.proc.connected = true) :
      Step rule c ⟨{ c.proc with outbox := c.proc.outbox ++ [value] }, c.sent ++ [value], c.bus⟩
  | serve {p : Proc} (served : c.proc.serve = some p) : Step rule c { c with proc := p }
  | exit : Step rule c { c with proc := { c.proc with alive := false } }
  | close : Step rule c { c with proc := { c.proc with connected := false } }
  | deliver (event : Value) (able : c.proc.open = true) :
      Step rule c { c with proc := { c.proc with delivered := c.proc.delivered ++ [event] } }
  | kill : Step rule c { c with proc := { c.proc with alive := false, killed := true } }
  | read {p : Proc} {event : Option Value} (allowed : rule c) (reads : c.proc.read = some (p, event)) :
      Step rule c ⟨p, c.sent, c.bus ++ event.toList⟩

/-- The states of the runs in which the reader only moves where `rule` holds. -/
def Reachable (rule : Channel → Prop) (handle : ℕ) (spec : Spec) (c : Channel) : Prop :=
  ReflTransGen (Step rule) (opened handle spec) c

/-- The events among some values that a child sent, as the reader puts them on the bus. -/
def stamped (identity : String) (values : List Value) : List Value :=
  values.filterMap fun value => (value.setItem "source" (.str identity)).toOption

/-- The bus holds a first part of the events that were sent, and all of them once the loop has
returned. -/
structure Forwards (identity : String) (c : Channel) : Prop where
  first : c.bus <+: stamped identity c.sent
  whole : c.proc.reader = .exited → c.bus = stamped identity c.sent

/-- The reader is not about to look whether a process is alive that died with events unread. -/
def Drained (identity : String) (c : Channel) : Prop :=
  c.proc.reader = .top → c.proc.alive = false → stamped identity c.proc.outbox = []

/-- The event that the reader has received and not yet put on the bus. -/
def held (reader : Reader) : List Value :=
  match reader with
  | .holding event => [event]
  | _ => []

/-- Every event sent is on the bus, held by the reader or unread, in this order; once the loop
has returned the child can send nothing more. -/
structure Accounted (identity : String) (c : Channel) : Prop where
  owner : c.proc.spec.identity = identity
  balance : stamped identity c.sent = c.bus ++ held c.proc.reader ++ stamped identity c.proc.outbox
  silent : c.proc.reader = .exited → c.proc.alive = false ∨ c.proc.connected = false

variable {identity : String} {rule : Channel → Prop} {handle : ℕ} {spec : Spec} {c c' : Channel}

@[simp]
theorem stamped_append (values more : List Value) :
    stamped identity (values ++ more) = stamped identity values ++ stamped identity more :=
  List.filterMap_append

/-- A value that can be stamped is received as the event it becomes. -/
theorem stamped_cons_ok {value event : Value} {rest : List Value}
    (h : value.setItem "source" (.str identity) = .ok event) :
    stamped identity (value :: rest) = event :: stamped identity rest := by
  simp [stamped, h, Except.toOption]

/-- A value that cannot be stamped is no event. -/
theorem stamped_cons_error {value : Value} {error : Exc} {rest : List Value}
    (h : value.setItem "source" (.str identity) = .error error) :
    stamped identity (value :: rest) = stamped identity rest := by
  simp [stamped, h, Except.toOption]

/-- The serve loop of a live process leaves the outward side of the channel alone. -/
theorem serve_eq {p : Proc} (h : c.proc.serve = some p) : c.proc.alive = true ∧
    ∃ alive, p = { c.proc with received := c.proc.received + 1, alive } := by
  unfold Proc.serve at h
  split at h
  next halive =>
    split at h
    next event _ =>
      obtain rfl := Option.some.inj h
      exact ⟨halive, !stops event, rfl⟩
    · simp at h
  · simp at h

/-- A new channel has nothing to account for. -/
theorem Accounted.opened : (opened handle spec).Accounted spec.identity :=
  ⟨rfl, rfl, fun h => by cases h⟩

/-- A step of the reader keeps the account. -/
theorem Accounted.read {p : Proc} {event : Option Value} (h : c.Accounted identity)
    (reads : c.proc.read = some (p, event)) :
    Accounted identity ⟨p, c.sent, c.bus ++ event.toList⟩ := by
  obtain ⟨howner, hbalance, -⟩ := h
  unfold Proc.read at reads
  split at reads
  next hreader =>
    obtain ⟨rfl, rfl⟩ := Prod.mk.inj (Option.some.inj reads)
    cases halive : c.proc.alive <;>
      exact ⟨howner, by simpa [hreader, held] using hbalance, by simp⟩
  next hreader =>
    split at reads <;> obtain ⟨rfl, rfl⟩ := Prod.mk.inj (Option.some.inj reads) <;>
      exact ⟨howner, by simpa [hreader, held] using hbalance, by simp⟩
  next hreader =>
    rw [hreader] at hbalance
    split at reads
    next hempty =>
      split at reads
      next => simp at reads
      next hconnected =>
        obtain ⟨rfl, rfl⟩ := Prod.mk.inj (Option.some.inj reads)
        exact ⟨howner, by simpa [held] using hbalance, fun _ => .inr (by simpa using hconnected)⟩
    next value rest houtbox =>
      rw [houtbox] at hbalance
      rw [howner] at reads
      -- the value leaves the outbox: as an event, or dropped
      split at reads <;> obtain ⟨rfl, rfl⟩ := Prod.mk.inj (Option.some.inj reads)
      next e hstamped =>
        rw [stamped_cons_ok hstamped] at hbalance
        exact ⟨howner, by simpa [held] using hbalance, by simp⟩
      next error hstamped =>
        rw [stamped_cons_error hstamped] at hbalance
        exact ⟨howner, by simpa [held] using hbalance, by simp⟩
  next e hreader =>
    obtain ⟨rfl, rfl⟩ := Prod.mk.inj (Option.some.inj reads)
    exact ⟨howner, by simpa [hreader, held] using hbalance, by simp⟩
  next => simp at reads

/-- Every step keeps the account. -/
theorem Accounted.step (h : c.Accounted identity) (steps : Step rule c c') : c'.Accounted identity := by
  cases steps with
  | send value alive connected =>
    refine ⟨h.owner, ?_, fun hexited => ?_⟩
    · simp [h.balance, List.append_assoc]
    · simpa [alive, connected] using h.silent hexited
  | serve served =>
    obtain ⟨halive, alive, rfl⟩ := serve_eq served
    refine ⟨h.owner, h.balance, fun hexited => .inr ?_⟩
    simpa [halive] using h.silent hexited
  | exit => exact ⟨h.owner, h.balance, fun _ => .inl rfl⟩
  | close => exact ⟨h.owner, h.balance, fun _ => .inr rfl⟩
  | deliver event able => exact ⟨h.owner, h.balance, h.silent⟩
  | kill => exact ⟨h.owner, h.balance, fun _ => .inl rfl⟩
  | read allowed reads => exact h.read reads

/-- Every state of a run is accounted for. -/
theorem Reachable.accounted (h : Reachable rule handle spec c) : c.Accounted spec.identity := by
  induction h with
  | refl => exact .opened
  | tail _ steps ih => exact ih.step steps

/-- In an account, the bus holds a first part of the events sent. -/
theorem Accounted.first (h : c.Accounted identity) : c.bus <+: stamped identity c.sent :=
  ⟨held c.proc.reader ++ stamped identity c.proc.outbox, by rw [h.balance, List.append_assoc]⟩

/-- After the loop has returned, all events are on the bus exactly if none is left unread. -/
theorem Accounted.whole_iff (h : c.Accounted identity) (hexited : c.proc.reader = .exited) :
    c.bus = stamped identity c.sent ↔ stamped identity c.proc.outbox = [] := by
  rw [h.balance, hexited]
  simp [held]

/-- Nothing is left unread by a reader that returns where `Drained` holds. -/
theorem outbox_of_exit {p : Proc} {event : Option Value} (hdrained : c.Drained identity)
    (reads : c.proc.read = some (p, event)) (hexited : p.reader = .exited) :
    stamped identity p.outbox = [] := by
  unfold Proc.read at reads
  split at reads
  next hreader =>
    obtain ⟨rfl, rfl⟩ := Prod.mk.inj (Option.some.inj reads)
    cases halive : c.proc.alive with
    | false => exact hdrained hreader halive
    | true => simp [halive] at hexited
  next =>
    split at reads <;> obtain ⟨rfl, rfl⟩ := Prod.mk.inj (Option.some.inj reads) <;> simp at hexited
  next =>
    split at reads
    next hempty =>
      split at reads
      next => simp at reads
      next =>
        obtain ⟨rfl, rfl⟩ := Prod.mk.inj (Option.some.inj reads)
        simp [hempty, stamped]
    next =>
      split at reads <;> obtain ⟨rfl, rfl⟩ := Prod.mk.inj (Option.some.inj reads) <;> simp at hexited
  next =>
    obtain ⟨rfl, rfl⟩ := Prod.mk.inj (Option.some.inj reads)
    simp at hexited
  next => simp at reads

/-- A reader that always finds a dead process drained leaves nothing unread. -/
theorem Reachable.outbox (h : Reachable (Drained spec.identity) handle spec c)
    (hexited : c.proc.reader = .exited) : stamped spec.identity c.proc.outbox = [] := by
  induction h with
  | refl => cases hexited
  | tail reached steps ih =>
    have haccount := Reachable.accounted reached
    cases steps with
    | send value alive connected =>
      have hsilent := haccount.silent hexited
      simp [alive, connected] at hsilent
    | serve served =>
      obtain ⟨-, alive, rfl⟩ := serve_eq served
      exact ih hexited
    | exit => exact ih hexited
    | close => exact ih hexited
    | deliver event able => exact ih hexited
    | kill => exact ih hexited
    | read allowed reads => exact outbox_of_exit allowed reads hexited

/-- The reader forwards everything in the runs in which it never looks whether a process is
alive that is dead and left events unread; and where it does look, it loses these events. -/
theorem reader_forwards_iff (handle : ℕ) (spec : Spec) :
    (∀ c, Reachable (Drained spec.identity) handle spec c → c.Forwards spec.identity) ∧
    ∀ c p event, Reachable (fun _ => True) handle spec c → c.proc.read = some (p, event) →
      ¬ c.Drained spec.identity → ¬ Forwards spec.identity ⟨p, c.sent, c.bus ++ event.toList⟩ := by
  refine ⟨fun c h => ⟨h.accounted.first, fun hexited => ?_⟩, fun c p event h reads hloses hforwards => ?_⟩
  · exact (h.accounted.whole_iff hexited).mpr (h.outbox hexited)
  · simp only [Drained, Classical.not_imp] at hloses
    obtain ⟨hreader, hdead, hunread⟩ := hloses
    have haccount := h.accounted.read reads
    simp only [Proc.read, hreader, hdead] at reads
    obtain ⟨rfl, rfl⟩ := Prod.mk.inj (Option.some.inj reads)
    exact hunread ((haccount.whole_iff rfl).mp (hforwards.whole rfl))

/-- A device process. -/
def deviceSpec : Spec := ⟨"d", .int 0, none, none⟩

/-- An event that a child may send. -/
def ping : Value := .dict [("target", .str "a")]

/-- A child that sends an event which the reader puts on the bus before the child exits: the
run obeys the rule, and nothing is lost. -/
theorem reader_forwards_ping : ∃ c : Channel, Reachable (Drained "d") 0 deviceSpec c ∧
    c.sent = [ping] ∧ c.proc.reader = .exited ∧ c.Forwards "d" := by
  have hsent := ReflTransGen.single
    (.send ping rfl rfl : Step (Drained "d") (opened 0 deviceSpec) _)
  have htop := hsent.tail (.read (by intro _ h; cases h) rfl)
  have hpolled := htop.tail (.read (by intro h; cases h) rfl)
  have hreceived := hpolled.tail (.read (by intro h; cases h) rfl)
  have hput := hreceived.tail (.read (by intro h; cases h) rfl)
  have hexited := (hput.tail .exit).tail (.read (by intro _ _; rfl) rfl)
  exact ⟨_, hexited, rfl, rfl, (reader_forwards_iff 0 deviceSpec).1 _ hexited⟩

/-- The child sends an event and exits before the reader, at the top of its loop, looks: the
loop returns and the event never reaches the bus. -/
theorem reader_loses_last_event : ∃ c : Channel, Reachable (fun _ => True) 0 deviceSpec c ∧
    c.sent = [ping] ∧ c.proc.reader = .exited ∧ c.bus = [] ∧ ¬ c.Forwards "d" := by
  have hsent := ReflTransGen.single
    (.send ping rfl rfl : Step (fun _ => True) (opened 0 deviceSpec) _)
  have hexited := (hsent.tail .exit).tail (.read trivial rfl)
  refine ⟨_, hexited, rfl, rfl, rfl, fun hforwards => ?_⟩
  have hlost : [] = stamped "d" [ping] := hforwards.whole rfl
  exact absurd hlost (by simp [stamped, ping, Value.setItem, Except.toOption])

end Channel

end MyTeam.Kernel
