import MyTeam.Py.Dict
import Mathlib.Data.Finset.Image

/-!
# The ingress buffer

Events from outside wait here until a tick drains them. An event is known by its source and the
id it has there, and one that was seen before is dropped. What is saved of a buffer are the keys
it has seen, and the events that wait and are not acknowledged.
-/

namespace MyTeam.Legacy

open MyTeam.Py

/-- `IngressEvent`, by what the buffer and the tick read of it. -/
structure IngressEvent where
  source : String
  externalId : String
  eventType : String
  payload : List (String × Value)

/-- `dedup_key`. -/
def IngressEvent.dedupKey (event : IngressEvent) : String × String :=
  (event.source, event.externalId)

/-- `IngressBuffer`. -/
structure IngressBuffer where
  events : List ((String × String) × IngressEvent) := []
  acked : Finset (String × String) := ∅
  seen : Finset (String × String) := ∅

/-- What `snapshot_ingress_buffer` saves. -/
structure IngressSnapshot where
  seen : Finset (String × String)
  pending : List IngressEvent

namespace IngressBuffer

variable (buffer : IngressBuffer)

/-- `receive`. -/
def receive (event : IngressEvent) : IngressBuffer :=
  if event.dedupKey ∈ buffer.seen then buffer
  else { buffer with
    events := assign event.dedupKey event buffer.events
    seen := insert event.dedupKey buffer.seen }

/-- `persist`, where the callback does not raise. -/
def persist : IngressBuffer :=
  { buffer with acked := buffer.acked ∪ (buffer.events.map Prod.fst).toFinset }

/-- The events that `drain` returns. -/
def waiting : List IngressEvent :=
  buffer.events.map Prod.snd

/-- `drain`. -/
def drain : IngressBuffer :=
  { buffer with events := [] }

/-- `snapshot_ingress_buffer`. -/
def snapshot : IngressSnapshot where
  seen := buffer.seen
  pending := (buffer.events.filter fun entry => entry.1 ∉ buffer.acked).map Prod.snd

/-- `restore_ingress_buffer`. -/
def restore (saved : IngressSnapshot) : IngressBuffer :=
  let events := saved.pending.foldl (fun events event => assign event.dedupKey event events) []
  { events := events, seen := saved.seen ∪ (events.map Prod.fst).toFinset }

/-- A buffer as `receive` fills it: every event waits once, under its key, which was seen. -/
structure Keyed : Prop where
  keys : ∀ entry ∈ buffer.events, entry.1 = entry.2.dedupKey
  nodup : (buffer.events.map Prod.fst).Nodup
  seen : ∀ entry ∈ buffer.events, entry.1 ∈ buffer.seen

variable {buffer}

/-- A new buffer is filled as `receive` does. -/
theorem keyed_empty : Keyed {} := by
  constructor <;> simp

/-- `receive` keeps the events under their keys. -/
theorem Keyed.receive (h : buffer.Keyed) (event : IngressEvent) : (buffer.receive event).Keyed := by
  unfold IngressBuffer.receive
  split_ifs with hseen
  · exact h
  · have hnew : event.dedupKey ∉ buffer.events.map Prod.fst := by
      intro hmem
      obtain ⟨entry, hentry, heq⟩ := List.mem_map.mp hmem
      exact hseen (heq ▸ h.seen entry hentry)
    constructor
    case keys =>
      intro entry hentry
      dsimp only at hentry
      rw [assign_of_not_mem hnew] at hentry
      rcases List.mem_append.mp hentry with hentry | hentry
      · exact h.keys entry hentry
      · rw [List.mem_singleton.mp hentry]
    case nodup =>
      dsimp only
      rw [assign_of_not_mem hnew, List.map_append, List.nodup_append]
      refine ⟨h.nodup, List.nodup_singleton _, fun key hkey other hother heq => hnew ?_⟩
      have hkey' : key = event.dedupKey := heq.trans (List.mem_singleton.mp hother)
      exact hkey' ▸ hkey
    case seen =>
      intro entry hentry
      dsimp only at hentry ⊢
      rw [assign_of_not_mem hnew] at hentry
      rcases List.mem_append.mp hentry with hentry | hentry
      · exact Finset.mem_insert_of_mem (h.seen entry hentry)
      · rw [List.mem_singleton.mp hentry]
        exact Finset.mem_insert_self _ _

/-- `receive` acknowledges nothing. -/
theorem acked_receive (event : IngressEvent) : (buffer.receive event).acked = buffer.acked := by
  unfold IngressBuffer.receive
  split <;> rfl

/-- A restored buffer is filled as `receive` does, whatever was saved. -/
theorem keyed_restore (saved : IngressSnapshot) : (restore saved).Keyed := by
  have hevents : (restore saved).events = update [] (saved.pending.map fun event => (event.dedupKey, event)) := by
    rw [update, List.foldl_map]
    rfl
  constructor
  case keys =>
    intro entry hentry
    rw [hevents] at hentry
    obtain hold | hnew := mem_items_update hentry
    · exact absurd hold List.not_mem_nil
    · obtain ⟨event, -, rfl⟩ := List.mem_map.mp hnew
      rfl
  case nodup => exact hevents ▸ nodup_keys_update List.nodup_nil
  case seen =>
    exact fun entry hentry => Finset.mem_union_right _ (List.mem_toFinset.mpr (List.mem_map_of_mem hentry))

/-- The events of a snapshot are put back under their keys, in order. -/
theorem foldl_assign_of_nodup {entries : List ((String × String) × IngressEvent)}
    {items : List ((String × String) × IngressEvent)} (keys : ∀ entry ∈ entries, entry.1 = entry.2.dedupKey)
    (nodup : ((items ++ entries).map Prod.fst).Nodup) :
    (entries.map Prod.snd).foldl (fun events event => assign event.dedupKey event events) items = items ++ entries := by
  induction entries generalizing items with
  | nil => simp
  | cons entry rest ih =>
    have hkey : entry.2.dedupKey = entry.1 := (keys entry List.mem_cons_self).symm
    have hnew : entry.1 ∉ items.map Prod.fst := by
      intro hmem
      rw [List.map_append, List.nodup_append] at nodup
      exact nodup.2.2 _ hmem _ (List.mem_map_of_mem List.mem_cons_self) rfl
    have hrest : items ++ entry :: rest = (items ++ [entry]) ++ rest := by simp
    rw [List.map_cons, List.foldl_cons, hkey, assign_of_not_mem hnew, hrest]
    exact ih (fun other hother => keys other (List.mem_cons_of_mem _ hother)) (hrest ▸ nodup)

/-- Of the events that wait, those that are not acknowledged come back. -/
theorem Keyed.events_restore_snapshot (h : buffer.Keyed) :
    (restore buffer.snapshot).events = buffer.events.filter fun entry => entry.1 ∉ buffer.acked := by
  unfold restore snapshot
  refine (foldl_assign_of_nodup (fun entry hentry => h.keys entry (List.mem_filter.mp hentry).1) ?_).trans
    (List.nil_append _)
  rw [List.nil_append]
  exact h.nodup.sublist (List.filter_sublist.map _)

/-- The keys that were seen come back. -/
theorem Keyed.seen_restore_snapshot (h : buffer.Keyed) : (restore buffer.snapshot).seen = buffer.seen := by
  have hevents := h.events_restore_snapshot
  have hseen : (restore buffer.snapshot).seen =
      buffer.seen ∪ ((restore buffer.snapshot).events.map Prod.fst).toFinset := rfl
  rw [hseen, hevents, Finset.union_eq_left]
  intro key hkey
  obtain ⟨entry, hentry, rfl⟩ := List.mem_map.mp (List.mem_toFinset.mp hkey)
  exact h.seen entry (List.mem_filter.mp hentry).1

end IngressBuffer

end MyTeam.Legacy
