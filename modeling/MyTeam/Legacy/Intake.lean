import MyTeam.Async.Course
import MyTeam.Legacy.Ingress

/-!
# Intake across restarts

Every event that the buffer accepts is to be drained once, also when the buffer is saved and
restored in between. A snapshot leaves out what is acknowledged, as if it had been drained, but
`persist` acknowledges events that still wait: these are lost, and as their keys have been seen,
they are not accepted again.
-/

namespace MyTeam.Legacy

open MyTeam.Py MyTeam.Async

/-- The loop of `persist`, whose callback may raise for an event: the acknowledged keys when it ends. -/
def persistLoop (raises : IngressEvent → Bool) :
    List ((String × String) × IngressEvent) → Finset (String × String) → Finset (String × String)
  | [], acked => acked
  | (key, event) :: rest, acked =>
    if key ∈ acked then persistLoop raises rest acked
    else if raises event then acked
    else persistLoop raises rest (insert key acked)

/-- `persist` with a callback. -/
def IngressBuffer.persistWith (buffer : IngressBuffer) (raises : IngressEvent → Bool) : IngressBuffer :=
  { buffer with acked := persistLoop raises buffer.events buffer.acked }

/-- An event of a snapshot that has passed through JSON, which may give its payload another form. -/
def IngressEvent.throughJson (json : List (String × Value) → List (String × Value)) (event : IngressEvent) :
    IngressEvent :=
  { event with payload := json event.payload }

/-- A snapshot that has passed through JSON. -/
def IngressSnapshot.throughJson (json : List (String × Value) → List (String × Value)) (saved : IngressSnapshot) :
    IngressSnapshot :=
  { saved with pending := saved.pending.map (IngressEvent.throughJson json) }

namespace IngressBuffer

variable {buffer : IngressBuffer} {json : List (String × Value) → List (String × Value)}

/-- The keys of the events that `drain` returns. -/
theorem Keyed.keys_waiting (h : buffer.Keyed) :
    buffer.waiting.map IngressEvent.dedupKey = buffer.events.map Prod.fst := by
  rw [waiting, List.map_map]
  exact List.map_congr_left fun entry hentry => (h.keys entry hentry).symm

/-- Of the events that wait, those that are not acknowledged come back through JSON. -/
theorem Keyed.events_restart (h : buffer.Keyed) :
    (restore (buffer.snapshot.throughJson json)).events =
      (buffer.events.filter fun entry => entry.1 ∉ buffer.acked).map fun entry =>
        (entry.1, entry.2.throughJson json) := by
  set entries := (buffer.events.filter fun entry => entry.1 ∉ buffer.acked).map fun entry =>
    (entry.1, entry.2.throughJson json) with hentries
  have hpending : (buffer.snapshot.throughJson json).pending = entries.map Prod.snd := by
    simp [hentries, IngressSnapshot.throughJson, snapshot]
  have hkeys : ∀ entry ∈ entries, entry.1 = entry.2.dedupKey := by
    intro entry hentry
    obtain ⟨original, horiginal, rfl⟩ := List.mem_map.mp hentry
    exact h.keys original (List.mem_filter.mp horiginal).1
  have hnodup : (([] ++ entries).map Prod.fst).Nodup := by
    have hfst : entries.map Prod.fst = (buffer.events.filter fun entry => entry.1 ∉ buffer.acked).map Prod.fst := by
      simp [hentries]
    rw [List.nil_append, hfst]
    exact h.nodup.sublist (List.filter_sublist.map _)
  rw [restore, hpending]
  exact foldl_assign_of_nodup hkeys hnodup

/-- The keys of the events that come back. -/
theorem Keyed.keys_restart (h : buffer.Keyed) :
    (restore (buffer.snapshot.throughJson json)).events.map Prod.fst =
      (buffer.events.filter fun entry => entry.1 ∉ buffer.acked).map Prod.fst := by
  simp [h.events_restart]

/-- The keys that were seen come back. -/
theorem Keyed.seen_restart (h : buffer.Keyed) : (restore (buffer.snapshot.throughJson json)).seen = buffer.seen := by
  have hseen : (restore (buffer.snapshot.throughJson json)).seen =
      buffer.seen ∪ ((restore (buffer.snapshot.throughJson json)).events.map Prod.fst).toFinset := rfl
  rw [hseen, h.keys_restart, Finset.union_eq_left]
  intro key hkey
  obtain ⟨entry, hentry, rfl⟩ := List.mem_map.mp (List.mem_toFinset.mp hkey)
  exact h.seen entry (List.mem_filter.mp hentry).1

/-- What comes back waits once, under its key, which was seen. -/
theorem Keyed.restart (h : buffer.Keyed) : (restore (buffer.snapshot.throughJson json)).Keyed := by
  constructor
  case keys =>
    intro entry hentry
    rw [h.events_restart] at hentry
    obtain ⟨original, horiginal, rfl⟩ := List.mem_map.mp hentry
    exact h.keys original (List.mem_filter.mp horiginal).1
  case nodup =>
    rw [h.keys_restart]
    exact h.nodup.sublist (List.filter_sublist.map _)
  case seen =>
    intro entry hentry
    have hkey := List.mem_map_of_mem (f := Prod.fst) hentry
    rw [h.keys_restart] at hkey
    obtain ⟨original, horiginal, heq⟩ := List.mem_map.mp hkey
    rw [h.seen_restart, ← heq]
    exact h.seen original (List.mem_filter.mp horiginal).1

end IngressBuffer

/-- A buffer in use, with the keys that were accepted and how often each was drained. -/
structure Intake where
  buffer : IngressBuffer := {}
  accepted : Finset (String × String) := ∅
  drained : String × String → ℕ := fun _ => 0

/-- A call of the buffer, or a restart with what was saved of it. -/
inductive IntakeCall
  | receive (event : IngressEvent)
  | persist
  | persistWith (raises : IngressEvent → Bool)
  | drain
  | restart (json : List (String × Value) → List (String × Value))

namespace Intake

/-- The state after a call. -/
def step (intake : Intake) : IntakeCall → Intake
  | .receive event =>
    { intake with
      buffer := intake.buffer.receive event
      accepted := if event.dedupKey ∈ intake.buffer.seen then intake.accepted
        else insert event.dedupKey intake.accepted }
  | .persist => { intake with buffer := intake.buffer.persist }
  | .persistWith raises => { intake with buffer := intake.buffer.persistWith raises }
  | .drain =>
    { intake with
      buffer := intake.buffer.drain
      drained := fun key => intake.drained key + (intake.buffer.waiting.map IngressEvent.dedupKey).count key }
  | .restart json => { intake with buffer := .restore (intake.buffer.snapshot.throughJson json) }

/-- Nothing was drained twice, and when the buffer is empty everything that was accepted was drained once. -/
def ExactlyOnce (intake : Intake) : Prop :=
  (∀ key, intake.drained key ≤ 1) ∧
    (intake.buffer.events = [] → ∀ key ∈ intake.accepted, intake.drained key = 1)

/-- Everything is drained exactly once, now and if the buffer is drained now. -/
def Sound (intake : Intake) : Prop :=
  intake.ExactlyOnce ∧ (intake.step .drain).ExactlyOnce

/-- A restart only comes when no event that waits is acknowledged. -/
def Settled (intake : Intake) : IntakeCall → Prop
  | .restart _ => ∀ entry ∈ intake.buffer.events, entry.1 ∉ intake.buffer.acked
  | _ => True

/-- What holds in every state of a course of settled calls: what was accepted was drained or waits. -/
structure Kept (intake : Intake) : Prop where
  keyed : intake.buffer.Keyed
  accepted : intake.accepted = intake.buffer.seen
  accounted : ∀ key, intake.drained key + (intake.buffer.events.map Prod.fst).count key =
    if key ∈ intake.buffer.seen then 1 else 0

variable {intake : Intake} {call : IntakeCall}

/-- What is kept is drained exactly once. -/
theorem Kept.exactlyOnce (kept : intake.Kept) : intake.ExactlyOnce := by
  constructor
  · intro key
    have haccounted := kept.accounted key
    split at haccounted <;> omega
  · intro hempty key haccepted
    have haccounted := kept.accounted key
    rw [kept.accepted] at haccepted
    rwa [hempty, if_pos haccepted] at haccounted

/-- A drain is kept. -/
theorem Kept.drain (kept : intake.Kept) : (intake.step .drain).Kept := by
  constructor
  case keyed => exact ⟨fun _ hmem => (nomatch hmem), List.nodup_nil, fun _ hmem => (nomatch hmem)⟩
  case accepted => exact kept.accepted
  case accounted =>
    intro key
    rw [step, kept.keyed.keys_waiting]
    exact kept.accounted key

/-- A receipt is kept. -/
theorem Kept.receive (kept : intake.Kept) {event : IngressEvent} : (intake.step (.receive event)).Kept := by
  refine ⟨kept.keyed.receive event, ?_, fun key => ?_⟩
  · rw [step, IngressBuffer.receive]
    split
    · exact kept.accepted
    · dsimp only
      rw [kept.accepted]
  · rw [step, IngressBuffer.receive]
    split
    next => exact kept.accounted key
    next hnew =>
      have hwaits : event.dedupKey ∉ intake.buffer.events.map Prod.fst := by
        intro hmem
        obtain ⟨entry, hentry, heq⟩ := List.mem_map.mp hmem
        exact hnew (heq ▸ kept.keyed.seen entry hentry)
      have haccounted := kept.accounted key
      dsimp only
      rw [assign_of_not_mem hwaits, List.map_append, List.count_append, ← Nat.add_assoc, haccounted]
      by_cases hsame : key = event.dedupKey
      · subst hsame
        simp [hnew]
      · have hother : event.dedupKey ≠ key := fun h => hsame h.symm
        simp [hsame, hother]

/-- A restart that loses nothing is kept. -/
theorem Kept.restart (kept : intake.Kept) {json : List (String × Value) → List (String × Value)}
    (settled : intake.Settled (.restart json)) : (intake.step (.restart json)).Kept := by
  have hall : intake.buffer.events.filter (fun entry => entry.1 ∉ intake.buffer.acked) = intake.buffer.events :=
    List.filter_eq_self.mpr fun entry hentry => decide_eq_true (settled entry hentry)
  refine ⟨kept.keyed.restart, ?_, fun key => ?_⟩
  · exact kept.accepted.trans kept.keyed.seen_restart.symm
  · rw [step, kept.keyed.keys_restart, kept.keyed.seen_restart, hall]
    exact kept.accounted key

/-- A settled call is kept. -/
theorem Kept.step (kept : intake.Kept) (settled : intake.Settled call) : (intake.step call).Kept := by
  cases call with
  | receive event => exact kept.receive
  | persist => exact ⟨⟨kept.keyed.keys, kept.keyed.nodup, kept.keyed.seen⟩, kept.accepted, kept.accounted⟩
  | persistWith raises => exact ⟨⟨kept.keyed.keys, kept.keyed.nodup, kept.keyed.seen⟩, kept.accepted, kept.accounted⟩
  | drain => exact kept.drain
  | restart json => exact kept.restart settled

/-- An event that is lost in a restart has not been drained and will not be. -/
theorem Kept.settled (kept : intake.Kept) (sound : (intake.step call).Sound) : intake.Settled call := by
  cases call with
  | restart json =>
    intro entry hentry hacked
    have hseen := kept.keyed.seen entry hentry
    have hwaits : entry.1 ∈ intake.buffer.events.map Prod.fst := List.mem_map_of_mem hentry
    have hundrained : intake.drained entry.1 = 0 := by
      have haccounted := kept.accounted entry.1
      have hpositive := List.count_pos_iff.mpr hwaits
      rw [if_pos hseen] at haccounted
      omega
    have hlost : entry.1 ∉ (intake.step (.restart json)).buffer.waiting.map IngressEvent.dedupKey := by
      rw [Intake.step, kept.keyed.restart.keys_waiting, kept.keyed.keys_restart]
      intro hmem
      obtain ⟨other, hother, heq⟩ := List.mem_map.mp hmem
      have hunacked := of_decide_eq_true (List.mem_filter.mp hother).2
      exact hunacked (heq ▸ hacked)
    have honce : intake.drained entry.1 +
        ((intake.step (.restart json)).buffer.waiting.map IngressEvent.dedupKey).count entry.1 = 1 :=
      sound.2.2 rfl entry.1 (kept.accepted ▸ hseen)
    rw [hundrained, List.count_eq_zero_of_not_mem hlost] at honce
    exact absurd honce (by decide)
  | _ => trivial

/-- A new buffer has accepted nothing. -/
theorem kept_new : Kept {} :=
  ⟨IngressBuffer.keyed_empty, rfl, fun _ => rfl⟩

/-- In a course of calls nothing is drained twice and everything that is accepted is drained once by the time the buffer
is empty, if and only if no restart comes when an event that waits is acknowledged. -/
theorem exactly_once_iff_settled (calls : List IntakeCall) :
    Throughout step Sound (fun _ _ => True) {} calls ↔ Each step Settled {} calls :=
  throughout_iff_each kept_new (fun kept => ⟨kept.exactlyOnce, kept.drain.exactlyOnce⟩)
    (fun kept settled => ⟨kept.step settled, trivial⟩) fun kept _ sound => kept.settled sound

/-- An order from outside. -/
def order : IngressEvent where
  source := "shop"
  externalId := "17"
  eventType := "order"
  payload := []

/-- An event that is acknowledged and then restarted over is never drained. -/
theorem order_lost : ¬Throughout step Sound (fun _ _ => True) {} [.receive order, .persist, .restart id, .drain] := by
  rintro ⟨-, -, -, -, -, -, -, -, ⟨-, honce⟩, -⟩
  exact absurd (honce rfl order.dedupKey (by decide +kernel)) (by decide +kernel)

end Intake

end MyTeam.Legacy
