import MyTeam.Kernel.Authority
import MyTeam.Py.Dict

/-!
# The memory of an agent

An agent keeps the entries that the Authority injects in a dictionary by name, and matches a
task against their triggers in the order of the dictionary. An injection removes the names that
are evicted and stores the new entries one by one; what was done before an exception stays done.
-/

namespace MyTeam.Agent

open MyTeam.Py MyTeam.Kernel

/-- `Agent.entries`. -/
abbrev Entries : Type := List (Key × Value)

/-- `self.entries.pop(name, None)` for each name; popping from an empty dictionary does not
hash. -/
def evictAll : List Value → Entries → Entries × Except Exc Unit
  | [], entries => (entries, .ok ())
  | name :: rest, entries =>
    if entries.isEmpty then evictAll rest entries
    else match name.key with
    | .ok key => evictAll rest (entries.filter fun entry => entry.1 ≠ key)
    | .error error => (entries, .error error)

/-- `entry["content"]["name"]`, hashed. -/
def nameOf (entry : Value) : Except Exc Key := do
  let content ← entry.item "content"
  let name ← content.item "name"
  name.key

/-- `self.entries[entry["content"]["name"]] = entry` for each entry. -/
def storeAll : List Value → Entries → Entries × Except Exc Unit
  | [], entries => (entries, .ok ())
  | entry :: rest, entries =>
    match nameOf entry with
    | .ok key => storeAll rest (assign key entry entries)
    | .error error => (entries, .error error)

/-- The elements of `payload.get(name) or []`. -/
def listed (payload : Value) (name : String) : Except Exc (List Value) := do
  let value ← payload.get name .none
  (value.orElse (.list [])).iter

/-- `_on_inject`. -/
def onInject (payload : Value) (entries : Entries) : Entries × Except Exc Unit :=
  match listed payload "evict" with
  | .error error => (entries, .error error)
  | .ok names =>
    match evictAll names entries with
    | (entries, .error error) => (entries, .error error)
    | (entries, .ok ()) =>
      match listed payload "entries" with
      | .error error => (entries, .error error)
      | .ok new => storeAll new entries

/-- `respond`, as far as the memory goes: it changes when the payload is an injection. -/
def hear (entries : Entries) (event : Value) : Entries :=
  if ((event.field "payload").field "command").isStr "inject" then (onInject (event.field "payload") entries).1
  else entries

/-- The memory of an agent that has processed these events in their order. -/
def recollect (events : List Value) : Entries := events.foldl hear []

/-- `trigger and trigger in content` for one of the triggers. -/
def hits (content : String) : List Value → Except Exc Bool
  | [] => .ok false
  | trigger :: rest =>
    if trigger.truthy then
      match trigger with
      | .str s => if s.toList <:+: content.toList then .ok true else hits content rest
      | v => .error (.typeError ("'in <string>' requires string as left operand, not " ++ v.typeName))
    else hits content rest

/-- Whether an entry matches the task. -/
def matched (content : String) (entry : Value) : Except Exc Bool := do
  hits content (← listed entry "trigger")

/-- `_match`: the first entry that matches. -/
def matchEntry (content : String) : Entries → Except Exc (Option Value)
  | [] => .ok none
  | (_, entry) :: rest => do
    if ← matched content entry then return some entry
    else matchEntry content rest

/-- The keys of what the Authority knows by name. -/
def Named (new : Entries) : Prop := ∀ entry ∈ new, nameOf entry.2 = .ok entry.1

/-- Evicting names that were stored. -/
theorem evictAll_toValue (keys : List Key) (entries : Entries) :
    evictAll (keys.map Key.toValue) entries = (entries.filter fun entry => decide (entry.1 ∉ keys), .ok ()) := by
  induction keys generalizing entries with
  | nil => simp [evictAll]
  | cons key rest ih =>
    rw [List.map_cons, evictAll]
    split
    next hempty => simp [ih, List.isEmpty_iff.mp hempty]
    next =>
      simp only [key.key_toValue, ih, List.filter_filter]
      congr 2
      funext entry
      simp [Bool.and_comm]

/-- Storing entries under their names. -/
theorem storeAll_named {new : Entries} (h : Named new) (entries : Entries) :
    storeAll (new.map Prod.snd) entries = (update entries new, .ok ()) := by
  induction new generalizing entries with
  | nil => rfl
  | cons entry rest ih =>
    rw [List.map_cons, storeAll, h entry List.mem_cons_self]
    exact ih (fun other hmem => h other (List.mem_cons_of_mem _ hmem)) _

/-- The payload of an injection. -/
def injectPayload (old new : Entries) : List (String × Value) :=
  [("command", .str "inject"), ("entries", .list (new.map Prod.snd)),
    ("evict", .list (((old.map Prod.fst).filter fun name => decide (name ∉ new.map Prod.fst)).map
      Key.toValue))]

/-- An injection replaces what is no longer there. -/
theorem onInject_payload {old new : Entries} (h : Named new) (entries : Entries) :
    onInject (.dict (injectPayload old new)) entries = (update (entries.filter fun entry =>
      decide (entry.1 ∉ (old.map Prod.fst).filter fun name => decide (name ∉ new.map Prod.fst))) new,
        .ok ()) := by
  have hevict : listed (.dict (injectPayload old new)) "evict" = .ok (((old.map Prod.fst).filter
      fun name => decide (name ∉ new.map Prod.fst)).map Key.toValue) := by
    simp [listed, injectPayload, Value.get, List.lookup_cons, Value.orElse_list, Value.iter]
  have hentries : listed (.dict (injectPayload old new)) "entries" = .ok (new.map Prod.snd) := by
    simp [listed, injectPayload, Value.get, List.lookup_cons, Value.orElse_list, Value.iter]
  simp only [onInject, hevict, evictAll_toValue, hentries, storeAll_named h]

/-- An agent that remembers what was injected before remembers what is injected now. -/
theorem lookup_onInject {old new entries : Entries} (hnamed : Named new)
    (hnodup : (new.map Prod.fst).Nodup) (h : ∀ name, entries.lookup name = old.lookup name) (name : Key) :
    (onInject (.dict (injectPayload old new)) entries).1.lookup name = new.lookup name := by
  rw [onInject_payload hnamed, lookup_update, lookup_reverse hnodup]
  cases hnew : new.lookup name with
  | some entry => rfl
  | none =>
    have hnot := lookup_eq_none_iff_keys.mp hnew
    rw [Option.none_or, lookup_filter_key (p := fun key => decide (key ∉ _)), h]
    split
    next hkept =>
      rw [lookup_eq_none_iff_keys]
      intro hold
      exact of_decide_eq_true hkept (List.mem_filter.mpr ⟨hold, by simpa using hnot⟩)
    · rfl

/-- An injection stores no name twice. -/
theorem nodup_onInject {old new entries : Entries} (hnamed : Named new)
    (h : (entries.map Prod.fst).Nodup) :
    ((onInject (.dict (injectPayload old new)) entries).1.map Prod.fst).Nodup := by
  rw [onInject_payload hnamed]
  refine nodup_keys_update (h.sublist ?_)
  exact List.filter_sublist.map _

section Recall

variable {events : List Value} {event : Value}

/-- Other events leave the memory alone. -/
theorem recollect_other (h : (event.field "payload").field "command" ≠ .str "inject") :
    recollect (events ++ [event]) = recollect events := by
  have hother : ¬ ((event.field "payload").field "command").isStr "inject" = true := by
    rwa [Value.isStr_iff]
  rw [recollect, List.foldl_append, List.foldl_cons, List.foldl_nil, hear, if_neg hother, recollect]

/-- An injection is remembered. -/
theorem recollect_inject {old new : Entries} (hpayload : event.field "payload" = .dict (injectPayload old new))
    (hnamed : Named new) (hnodup : (new.map Prod.fst).Nodup)
    (h : ∀ name, (recollect events).lookup name = old.lookup name) (name : Key) :
    (recollect (events ++ [event])).lookup name = new.lookup name := by
  have hinject : ((event.field "payload").field "command").isStr "inject" = true := by
    rw [hpayload]
    simp [injectPayload, Value.field, Value.isStr]
  rw [recollect, List.foldl_append, List.foldl_cons, List.foldl_nil, hear, if_pos hinject, hpayload]
  exact lookup_onInject hnamed hnodup h name

end Recall

section Match

variable {content : String}

/-- The entry matches the task, or cannot be compared with it. -/
def Loud (content : String) (entry : Value) : Prop := matched content entry ≠ .ok false

/-- Without a loud entry nothing matches. -/
theorem matchEntry_silent {entries : Entries} (h : ∀ entry ∈ entries, ¬ Loud content entry.2) :
    matchEntry content entries = .ok none := by
  induction entries with
  | nil => rfl
  | cons entry rest ih =>
    have hsilent : matched content entry.2 = .ok false := not_not.mp (h entry List.mem_cons_self)
    rw [matchEntry, hsilent]
    exact ih fun other hmem => h other (List.mem_cons_of_mem _ hmem)

/-- The only loud entry decides, wherever it stands. -/
theorem matchEntry_loud {entries : Entries} {key : Key} {entry : Value} (hmem : (key, entry) ∈ entries)
    (hloud : Loud content entry) (honly : ∀ other ∈ entries, Loud content other.2 → other.2 = entry) :
    matchEntry content entries = (matched content entry).map fun _ => some entry := by
  induction entries with
  | nil => cases hmem
  | cons first rest ih =>
    obtain ⟨name, value⟩ := first
    by_cases hfirst : Loud content value
    · obtain rfl : value = entry := honly _ List.mem_cons_self hfirst
      rw [matchEntry]
      cases hmatched : matched content value with
      | error error => rfl
      | ok found =>
        cases found with
        | true => rfl
        | false => exact absurd hmatched hfirst
    · have hsilent : matched content value = .ok false := not_not.mp hfirst
      rw [matchEntry, hsilent]
      refine ih ?_ fun other hother => honly other (List.mem_cons_of_mem _ hother)
      rcases List.mem_cons.mp hmem with heq | hmem
      · obtain ⟨-, rfl⟩ := Prod.mk.inj heq
        exact absurd hloud hfirst
      · exact hmem

/-- The order of the memory does not matter if at most one entry is loud. -/
theorem matchEntry_perm {entries entries' : Entries} (hperm : entries.Perm entries')
    (honly : ∀ entry ∈ entries, ∀ other ∈ entries, Loud content entry.2 → Loud content other.2 →
      other.2 = entry.2) : matchEntry content entries = matchEntry content entries' := by
  by_cases hloud : ∃ entry ∈ entries, Loud content entry.2
  · obtain ⟨⟨key, entry⟩, hmem, hloud⟩ := hloud
    rw [matchEntry_loud hmem hloud fun other hother h => honly _ hmem _ hother hloud h,
      matchEntry_loud (hperm.mem_iff.mp hmem) hloud
        fun other hother h => honly _ hmem _ (hperm.mem_iff.mpr hother) hloud h]
  · push Not at hloud
    rw [matchEntry_silent hloud, matchEntry_silent fun entry hmem => hloud entry (hperm.mem_iff.mpr hmem)]

end Match

end MyTeam.Agent
