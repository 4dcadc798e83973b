import MyTeam.Async.Course
import MyTeam.Py.Dict
import MyTeam.Legacy.Records

/-!
# The ledger as a source of replay

The current records are to come out of the ledger again, and the inverse of the last mutation is to
lead back to what was there before it. A first change of a field makes a record with all declared
fields, of which the ledger keeps the changed one only; and an inverse that puts a record back
leaves its version as the mutation left it.
-/

namespace MyTeam.Legacy

open MyTeam.Py MyTeam.Async

/-- The records by their keys. -/
abbrev Records := Finmap fun _ : String => Record

/-- `replay` for one entry. -/
def LedgerEntry.replay (entry : LedgerEntry) (state : Records) : Except Exc Records :=
  match entry.delta with
  | none => .ok (state.insert entry.fullKey entry.after)
  | some (field, delta) =>
    let current := (state.lookup entry.fullKey).getD []
    let name := match field with
      | .str name => Key.str name
      | _ => Key.str ""
    match ((current.lookup name).getD (.int 0)).number with
    | some value => .ok (state.insert entry.fullKey (assign name (.float (value + delta)) current))
    | none => .error (.typeError "unsupported operand type(s) for +")

/-- `replay`. -/
def RecordStore.replay (store : RecordStore) : Except Exc Records :=
  store.ledger.foldlM (fun state entry => entry.replay state) ∅

/-- A mutation that has not been inverted: what its inverse is called with, and the store before it. -/
structure Survivor where
  fullKey : String
  before : Option Record
  ledgerId : ℕ
  origin : RecordStore

/-- A store in use, with the mutations that can still be inverted, the last one first. -/
structure Bookkeeping where
  store : RecordStore
  survivors : List Survivor := []

/-- A call of the store. An inverse is that of the last mutation that has none yet. -/
inductive RecordCall
  | upsert (recordType : Value) (key : String) (data : Value) (agent : String) (tick : ℕ)
  | applyDelta (recordType : Value) (key : String) (field : Value) (delta : ℚ) (agent : String) (tick : ℕ)
  | invertLast

namespace Bookkeeping

/-- The books after a mutation of a record. -/
def after (books : Bookkeeping) (fullKey : String) : Mutation → Bookkeeping
  | .done store ledgerId =>
    ⟨store, ⟨fullKey, books.store.records.lookup fullKey, ledgerId, books.store⟩ :: books.survivors⟩
  | .stopped store _ => { books with store := store }

/-- The books after a call. -/
def step (books : Bookkeeping) : RecordCall → Bookkeeping
  | .upsert recordType key data agent tick =>
    books.after s!"{recordType.toStr}:{key}" (books.store.upsert recordType key data agent tick)
  | .applyDelta recordType key field delta agent tick =>
    books.after s!"{recordType.toStr}:{key}" (books.store.applyDelta recordType key field delta agent tick)
  | .invertLast =>
    match books.survivors with
    | [] => books
    | last :: rest => ⟨books.store.invertMutation last.fullKey last.before [last.ledgerId], rest⟩

/-- `replay() == current_state()`. -/
def Replays (books : Bookkeeping) : Prop :=
  books.store.replay = .ok books.store.records

end Bookkeeping

namespace RecordStore

/-- Two stores with the same records, ledger and version counters. -/
structure Agrees (store other : RecordStore) : Prop where
  records : store.records = other.records
  ledger : store.ledger = other.ledger
  versionCounter : store.versionCounter = other.versionCounter

end RecordStore

namespace Bookkeeping

/-- An inverse leads back to what was there before its mutation. -/
def Restores (books : Bookkeeping) : RecordCall → Prop
  | .invertLast => ∀ last rest, books.survivors = last :: rest → (books.step .invertLast).store.Agrees last.origin
  | _ => True

/-- The ledger can be replayed in every state of a course of calls, and every inverse in it leads back. -/
def Exact : Bookkeeping → List RecordCall → Prop :=
  Throughout step Replays Restores

end Bookkeeping

/-- All keys of a record are strings. -/
def Named (record : Record) : Prop :=
  ∀ field ∈ record, ∃ name, field.1 = Key.str name

namespace Bookkeeping

/-- A call that leaves replay and inverses as they should be: it is refused, or the keys of the record are strings; a
change of a field finds its record, or no other field is declared; and an inverse is that of a mutation that made its
record. -/
def Orderly (books : Bookkeeping) : RecordCall → Prop
  | .upsert recordType key data _ _ =>
    ∀ record, books.store.checkUpsert recordType s!"{recordType.toStr}:{key}" data = .ok record → Named record
  | .applyDelta recordType key field delta _ _ =>
    (∃ error, books.store.checkDelta recordType s!"{recordType.toStr}:{key}" field delta = .error error) ∨
      ∃ name, field = .str name ∧
        (s!"{recordType.toStr}:{key}" ∈ books.store.records ∨
          ∀ schema, books.store.schema recordType = .ok schema → ∀ spec ∈ schema.fields, spec.name = name)
  | .invertLast => ∀ last rest, books.survivors = last :: rest → last.before = none

/-- Every call of a course is orderly where it is made. -/
def OrderlyThroughout : Bookkeeping → List RecordCall → Prop :=
  Each step Orderly

end Bookkeeping

namespace RecordStore

variable {store other : RecordStore} {entry : LedgerEntry}

/-- A store after a mutation with an entry. -/
def recorded (store : RecordStore) (entry : LedgerEntry) : RecordStore :=
  { store with
    records := store.records.insert entry.fullKey entry.after
    ledgerCounter := store.ledgerCounter + 1
    ledger := store.ledger ++ [entry]
    versionCounter := Function.update store.versionCounter entry.fullKey
      (some ((store.versionCounter entry.fullKey).getD 0 + 1)) }

@[simp] theorem records_recorded : (store.recorded entry).records = store.records.insert entry.fullKey entry.after :=
    rfl

@[simp] theorem ledger_recorded : (store.recorded entry).ledger = store.ledger ++ [entry] := rfl

@[simp] theorem versionCounter_recorded : (store.recorded entry).versionCounter =
    Function.update store.versionCounter entry.fullKey (some ((store.versionCounter entry.fullKey).getD 0 + 1)) := rfl

/-- The inverse of a mutation that made a record. -/
theorem invertMutation_none {fullKey : String} {ledgerIds : List ℕ} : store.invertMutation fullKey none ledgerIds =
    { store with
      ledger := store.ledger.filter fun entry => entry.ledgerId ∉ ledgerIds
      records := store.records.erase fullKey
      versionCounter := Function.update store.versionCounter fullKey none } := rfl

/-- The inverse of a mutation that changed a record. -/
theorem invertMutation_some {fullKey : String} {record : Record} {ledgerIds : List ℕ} :
    store.invertMutation fullKey (some record) ledgerIds =
      { store with
        ledger := store.ledger.filter fun entry => entry.ledgerId ∉ ledgerIds
        records := store.records.insert fullKey record } := rfl

/-- The keys that are checked for an entry are all strings. -/
theorem all_text_iff {record : Record} : (record.all fun field => match field.1 with
    | .str _ => true
    | _ => false) = true ↔ Named record := by
  rw [List.all_eq_true]
  refine forall₂_congr fun field _ => ?_
  obtain ⟨key, value⟩ := field
  cases key <;> simp

/-- A mutation is recorded when its keys are strings. -/
theorem record_of_named (named : Named entry.after) :
    store.record entry = .done (store.recorded entry) entry.ledgerId := by
  unfold record
  exact if_pos (all_text_iff.mpr named)

/-- Otherwise it raises with the record already stored. -/
theorem record_of_unnamed (unnamed : ¬Named entry.after) : ∃ error, store.record entry =
    .stopped { store with
      records := store.records.insert entry.fullKey entry.after
      ledgerCounter := store.ledgerCounter + 1 } error := by
  unfold record
  exact ⟨_, if_neg fun h => unnamed (all_text_iff.mp h)⟩

/-- Replay reads the ledger only. -/
theorem replay_congr (same : store.ledger = other.ledger) : store.replay = other.replay := by
  unfold replay
  rw [same]

/-- An entry more is replayed after the others. -/
theorem replay_recorded (replays : store.replay = .ok store.records) :
    (store.recorded entry).replay = entry.replay store.records := by
  unfold replay at replays ⊢
  rw [ledger_recorded, List.foldlM_append, replays]
  change (entry.replay store.records >>= fun state => pure state) = _
  rw [bind_pure]

/-- What holds of a store whose calls were orderly: it can be replayed, the keys in its records are strings, and only
records that are there have a version. -/
structure Consistent (store : RecordStore) : Prop where
  replays : store.replay = .ok store.records
  named : ∀ key record, store.records.lookup key = some record → Named record
  counted : ∀ key, key ∉ store.records → store.versionCounter key = none

/-- Consistency does not depend on the ledger counter. -/
theorem Consistent.congr (consistent : store.Consistent) (agrees : other.Agrees store) : other.Consistent := by
  constructor
  case replays => rw [replay_congr agrees.ledger, consistent.replays, agrees.records]
  case named => rw [agrees.records]; exact consistent.named
  case counted => rw [agrees.records, agrees.versionCounter]; exact consistent.counted

/-- A mutation keeps a store consistent when its entry replays to its record. -/
theorem Consistent.recorded (consistent : store.Consistent) (named : Named entry.after)
    (replayed : entry.replay store.records = .ok (store.records.insert entry.fullKey entry.after)) :
    (store.recorded entry).Consistent := by
  constructor
  case replays => rw [replay_recorded consistent.replays, replayed]; rfl
  case named =>
    intro key record hlookup
    by_cases hkey : key = entry.fullKey
    · subst hkey
      rw [records_recorded, Finmap.lookup_insert, Option.some.injEq] at hlookup
      rwa [← hlookup]
    · rw [records_recorded, Finmap.lookup_insert_of_ne _ hkey] at hlookup
      exact consistent.named key record hlookup
  case counted =>
    intro key hkey
    rw [records_recorded, Finmap.mem_insert, not_or] at hkey
    rw [versionCounter_recorded, Function.update_of_ne hkey.1]
    exact consistent.counted key hkey.2

end RecordStore

section Delta

variable {store : RecordStore} {recordType field : Value} {fullKey : String} {delta : ℚ}

/-- The record that a first change starts from: all declared fields, blank. -/
def RecordSchema.blank (schema : RecordSchema) : Record :=
  schema.fields.foldl (fun record spec => assign (.str spec.name) spec.type.blank record) []

/-- The blank record as a dictionary that is filled. -/
theorem RecordSchema.blank_eq_update {schema : RecordSchema} :
    schema.blank = update [] (schema.fields.map fun spec => (Key.str spec.name, spec.type.blank)) := by
  rw [update, List.foldl_map]
  rfl

/-- The keys of a blank record are strings. -/
theorem RecordSchema.named_blank {schema : RecordSchema} : Named schema.blank := by
  intro field hfield
  rw [blank_eq_update] at hfield
  rcases mem_items_update hfield with hnone | hspec
  · cases hnone
  · obtain ⟨spec, -, rfl⟩ := List.mem_map.mp hspec
    exact ⟨spec.name, rfl⟩

/-- Every declared field is in a blank record. -/
theorem RecordSchema.mem_blank {schema : RecordSchema} {spec : FieldSpec} (declared : spec ∈ schema.fields) :
    schema.blank.lookup (.str spec.name) ≠ none := by
  rw [blank_eq_update, lookup_update]
  intro hnone
  rw [Option.or_eq_none_iff] at hnone
  refine lookup_eq_none_iff_keys.mp hnone.1 ?_
  rw [List.map_reverse, List.mem_reverse, List.map_map]
  exact List.mem_map.mpr ⟨spec, declared, rfl⟩

/-- A blank record with no field but one. -/
theorem RecordSchema.blank_of_only {schema : RecordSchema} {name : String}
    (only : ∀ spec ∈ schema.fields, spec.name = name) :
    schema.blank = [] ∨ ∃ type : FieldType, schema.blank = [(.str name, type.blank)] := by
  unfold RecordSchema.blank
  generalize schema.fields = fields at only
  induction fields using List.reverseRecOn with
  | nil => exact Or.inl rfl
  | append_singleton fields spec ih =>
    have hspec : spec.name = name := only spec (by simp)
    right
    rw [List.foldl_append, List.foldl_cons, List.foldl_nil, hspec]
    rcases ih fun other hother => only other (List.mem_append_left _ hother) with hnil | ⟨type, hone⟩
    · exact ⟨spec.type, by rw [hnil, assign]⟩
    · exact ⟨spec.type, by rw [hone, assign, if_pos rfl]⟩

/-- A change of a field that is not refused. -/
theorem RecordStore.checkDelta_eq_ok {before after : Record}
    (accepted : store.checkDelta recordType fullKey field delta = .ok (before, after)) :
    ∃ schema name current, store.schema recordType = .ok schema ∧ field.key = .ok name ∧
      before = (store.records.lookup fullKey).getD schema.blank ∧
      ((before.lookup name).getD (.int 0)).number = some current ∧
      after = assign name (.float (current + delta)) before ∧
      (schema.invariants.forM fun rule => rule.check after) = .ok () := by
  unfold checkDelta at accepted
  cases hschema : store.schema recordType with
  | error error => simp [hschema, bind, Except.bind] at accepted
  | ok schema =>
    cases hkey : field.key with
    | error error => simp [hschema, hkey, bind, Except.bind, throw, throwThe, MonadExceptOf.throw] at accepted
    | ok name =>
      simp only [hschema, hkey, bind, Except.bind] at accepted
      split at accepted
      next => cases accepted
      next current hnumber =>
        split at accepted
        next => cases accepted
        next hrules =>
          cases accepted
          exact ⟨schema, name, current, rfl, rfl, rfl, hnumber, rfl, hrules⟩

end Delta

namespace Survivor

/-- A store as a mutation left it, up to the ledger counter. -/
structure Follows (store : RecordStore) (last : Survivor) : Prop where
  consistent : last.origin.Consistent
  before : last.before = last.origin.records.lookup last.fullKey
  fresh : ∀ entry ∈ last.origin.ledger, entry.ledgerId ≠ last.ledgerId
  recorded : ∃ entry, entry.ledgerId = last.ledgerId ∧ entry.fullKey = last.fullKey ∧
    store.Agrees (last.origin.recorded entry)

variable {store other : RecordStore} {last : Survivor}

/-- The inverse of the mutation that made a record leads back. -/
theorem Follows.restores (follows : Follows store last) (new : last.before = none) :
    (store.invertMutation last.fullKey last.before [last.ledgerId]).Agrees last.origin := by
  obtain ⟨entry, hid, hkey, hrecords, hledger, hversions⟩ := follows.recorded
  have habsent : last.origin.records.lookup last.fullKey = none := follows.before ▸ new
  have hnotmem : last.fullKey ∉ last.origin.records := Finmap.lookup_eq_none.mp habsent
  rw [new, RecordStore.invertMutation_none]
  constructor
  case records =>
    dsimp only
    rw [hrecords, RecordStore.records_recorded, hkey]
    refine Finmap.ext_lookup fun key => ?_
    by_cases hsame : key = last.fullKey
    · rw [hsame, Finmap.lookup_erase, habsent]
    · rw [Finmap.lookup_erase_ne hsame, Finmap.lookup_insert_of_ne _ hsame]
  case ledger =>
    dsimp only
    rw [hledger, RecordStore.ledger_recorded, List.filter_append, List.filter_eq_self.mpr, List.filter_singleton]
    · simp [hid]
    · intro old hold
      simpa using follows.fresh old hold
  case versionCounter =>
    dsimp only
    rw [hversions, RecordStore.versionCounter_recorded, hkey, Function.update_idem,
      ← follows.consistent.counted _ hnotmem,
      Function.update_eq_self]

/-- The inverse of any other mutation leaves the version as it is. -/
theorem Follows.not_restores (follows : Follows store last) {record : Record} (old : last.before = some record) :
    ¬(store.invertMutation last.fullKey last.before [last.ledgerId]).Agrees last.origin := by
  obtain ⟨entry, -, hkey, -, -, hversions⟩ := follows.recorded
  intro hagrees
  have hversion := congrFun hagrees.versionCounter last.fullKey
  rw [old, RecordStore.invertMutation_some] at hversion
  dsimp only at hversion
  rw [hversions, RecordStore.versionCounter_recorded, hkey, Function.update_self] at hversion
  cases hbefore : last.origin.versionCounter last.fullKey with
  | none => simp [hbefore] at hversion
  | some version => simp [hbefore] at hversion

end Survivor

namespace Bookkeeping

variable {books : Bookkeeping} {call : RecordCall}

/-- Each survivor was made of the store that the ones before it left. -/
def Stacked : RecordStore → List Survivor → Prop
  | _, [] => True
  | store, last :: rest => last.Follows store ∧ Stacked last.origin rest

/-- What has been recorded does not depend on the ledger counter. -/
theorem Stacked.congr {store other : RecordStore} {survivors : List Survivor} (stacked : Stacked store survivors)
    (agrees : other.Agrees store) : Stacked other survivors := by
  cases survivors with
  | nil => trivial
  | cons last rest =>
    obtain ⟨follows, hrest⟩ := stacked
    obtain ⟨entry, hid, hkey, hagrees⟩ := follows.recorded
    refine ⟨⟨follows.consistent, follows.before, follows.fresh, entry, hid, hkey, ?_⟩, hrest⟩
    exact ⟨agrees.records.trans hagrees.records, agrees.ledger.trans hagrees.ledger,
      agrees.versionCounter.trans hagrees.versionCounter⟩

/-- What holds in every state of an orderly course. -/
structure Kept (books : Bookkeeping) : Prop where
  consistent : books.store.Consistent
  numbered : ∀ entry ∈ books.store.ledger, entry.ledgerId ≤ books.store.ledgerCounter
  stacked : Stacked books.store books.survivors

/-- A mutation that replays to its record is kept. -/
theorem Kept.recorded (kept : books.Kept) {entry : LedgerEntry}
    (number : entry.ledgerId = books.store.ledgerCounter + 1)
    (named : Named entry.after)
    (replayed : entry.replay books.store.records = .ok (books.store.records.insert entry.fullKey entry.after)) :
    (books.after entry.fullKey (books.store.record entry)).Kept := by
  rw [RecordStore.record_of_named named]
  constructor
  case consistent => exact kept.consistent.recorded named replayed
  case numbered =>
    intro old hold
    rcases List.mem_append.mp hold with hbefore | hlast
    · exact (kept.numbered old hbefore).trans (Nat.le_succ _)
    · rw [List.mem_singleton.mp hlast, number]
      exact le_rfl
  case stacked =>
    refine ⟨⟨kept.consistent, rfl, fun old hold => ?_, entry, rfl, rfl, rfl, rfl, rfl⟩, kept.stacked⟩
    have hnumber := kept.numbered old hold
    dsimp only
    omega

/-- A record with another key is not in the ledger. -/
theorem Kept.not_replays_unnamed (kept : books.Kept) {entry : LedgerEntry} (unnamed : ¬Named entry.after) :
    ¬(books.after entry.fullKey (books.store.record entry)).Replays := by
  obtain ⟨error, hrecord⟩ := @RecordStore.record_of_unnamed books.store entry unnamed
  intro hreplays
  rw [hrecord] at hreplays
  have hsame : books.store.records = books.store.records.insert entry.fullKey entry.after :=
    Except.ok.inj (kept.consistent.replays.symm.trans hreplays)
  refine unnamed (kept.consistent.named entry.fullKey entry.after ?_)
  rw [hsame, Finmap.lookup_insert]

section Steps

variable {recordType field data : Value} {key : String} {delta : ℚ} {agent : String} {tick : ℕ}

/-- An upsert of a record with strings for keys is kept. -/
theorem Kept.upsert (kept : books.Kept) (orderly : books.Orderly (.upsert recordType key data agent tick)) :
    (books.step (.upsert recordType key data agent tick)).Kept := by
  cases hcheck : books.store.checkUpsert recordType s!"{recordType.toStr}:{key}" data with
  | error error =>
    rw [step, RecordStore.upsert, hcheck]
    exact kept
  | ok record =>
    rw [step, RecordStore.upsert, hcheck]
    exact kept.recorded rfl (orderly record hcheck) rfl

/-- An upsert with another key leaves a record that the ledger does not know. -/
theorem Kept.not_replays_upsert (kept : books.Kept)
    (disorderly : ¬books.Orderly (.upsert recordType key data agent tick)) :
    ¬(books.step (.upsert recordType key data agent tick)).Replays := by
  simp only [Orderly, not_forall] at disorderly
  obtain ⟨record, hcheck, hunnamed⟩ := disorderly
  intro hreplays
  rw [step, RecordStore.upsert, hcheck] at hreplays
  exact kept.not_replays_unnamed hunnamed hreplays

/-- What a change of a field is replayed to, when the record is there or has no other field. -/
theorem replay_delta {store : RecordStore} {name : String} {schema : RecordSchema} {entry : LedgerEntry}
    {before : Record} {current : ℚ} (hdelta : entry.delta = some (.str name, delta))
    (hafter : entry.after = assign (.str name) (.float (current + delta)) before)
    (hbefore : before = (store.records.lookup entry.fullKey).getD schema.blank)
    (hcurrent : ((before.lookup (.str name)).getD (.int 0)).number = some current)
    (known : entry.fullKey ∈ store.records ∨ ∀ spec ∈ schema.fields, spec.name = name) :
    entry.replay store.records = .ok (store.records.insert entry.fullKey entry.after) := by
  unfold LedgerEntry.replay
  simp only [hdelta, hafter]
  cases hlookup : store.records.lookup entry.fullKey with
  | some record =>
    rw [hlookup, Option.getD_some] at hbefore
    rw [Option.getD_some, ← hbefore, hcurrent]
  | none =>
    have hnew : entry.fullKey ∉ store.records := Finmap.lookup_eq_none.mp hlookup
    rw [hlookup, Option.getD_none] at hbefore
    subst hbefore
    rcases RecordSchema.blank_of_only (known.resolve_left hnew) with hblank | ⟨type, hblank⟩
    · rw [hblank] at hcurrent ⊢
      rw [Option.getD_none, hcurrent]
    · have hzero : current = 0 := by
        rw [hblank, List.lookup_cons_self, Option.getD_some] at hcurrent
        cases type <;> simp_all [FieldType.blank, Value.number]
      rw [hblank, hzero]
      simp [assign, Value.number]

/-- A change of a field is kept when the record is there or has no other field. -/
theorem Kept.applyDelta (kept : books.Kept)
    (orderly : books.Orderly (.applyDelta recordType key field delta agent tick)) :
    (books.step (.applyDelta recordType key field delta agent tick)).Kept := by
  cases hcheck : books.store.checkDelta recordType s!"{recordType.toStr}:{key}" field delta with
  | error error =>
    rw [step, RecordStore.applyDelta, hcheck]
    exact kept
  | ok records =>
    obtain ⟨before, after⟩ := records
    obtain ⟨schema, name, current, hschema, hkey, hbefore, hcurrent, hafter, -⟩ := RecordStore.checkDelta_eq_ok hcheck
    have hknown : ∃ text, field = .str text ∧ (s!"{recordType.toStr}:{key}" ∈ books.store.records ∨
        ∀ spec ∈ schema.fields, spec.name = text) := by
      rcases orderly with ⟨error, hrefused⟩ | ⟨text, hfield, hknown⟩
      · rw [hcheck] at hrefused
        cases hrefused
      · exact ⟨text, hfield, hknown.imp_right fun h => h schema hschema⟩
    obtain ⟨text, rfl, hknown⟩ := hknown
    obtain rfl : name = .str text := by simpa using hkey.symm
    have hnamed : Named after := by
      intro entry hentry
      rw [hafter] at hentry
      rcases mem_items_assign hentry with rfl | hold
      · exact ⟨text, rfl⟩
      · rw [hbefore] at hold
        cases hlookup : books.store.records.lookup s!"{recordType.toStr}:{key}" with
        | none => exact RecordSchema.named_blank entry (by simpa [hlookup] using hold)
        | some record => exact kept.consistent.named _ record hlookup entry (by simpa [hlookup] using hold)
    rw [step, RecordStore.applyDelta, hcheck]
    exact kept.recorded rfl hnamed (replay_delta rfl hafter hbefore hcurrent hknown)

/-- A first change of a field in a record with others is replayed to a record without them. -/
theorem replay_first_delta {store : RecordStore} {name : String} {entry : LedgerEntry}
    (hdelta : entry.delta = some (.str name, delta)) (new : entry.fullKey ∉ store.records) :
    entry.replay store.records = .ok (store.records.insert entry.fullKey [(.str name, .float (0 + delta))]) := by
  unfold LedgerEntry.replay
  simp only [hdelta]
  rw [Finmap.lookup_eq_none.mpr new, Option.getD_none]
  simp [Value.number, assign]

/-- Any other change of a field leaves a record that the ledger does not give. -/
theorem Kept.not_replays_applyDelta (kept : books.Kept)
    (disorderly : ¬books.Orderly (.applyDelta recordType key field delta agent tick)) :
    ¬(books.step (.applyDelta recordType key field delta agent tick)).Replays := by
  simp only [Orderly, not_or, not_exists, not_and, not_forall] at disorderly
  obtain ⟨hnotrefused, hunknown⟩ := disorderly
  intro hreplays
  cases hcheck : books.store.checkDelta recordType s!"{recordType.toStr}:{key}" field delta with
  | error error => exact hnotrefused error hcheck
  | ok records =>
    obtain ⟨before, after⟩ := records
    obtain ⟨schema, name, current, hschema, hkey, hbefore, -, hafter, -⟩ := RecordStore.checkDelta_eq_ok hcheck
    rw [step, RecordStore.applyDelta, hcheck] at hreplays
    by_cases htext : ∃ text, name = .str text
    · obtain ⟨text, rfl⟩ := htext
      obtain rfl : field = .str text := by
        cases field <;> simp_all [Value.key]
      obtain ⟨hnew, other, hother, spec, hspec, hname⟩ := hunknown text rfl
      obtain rfl : other = schema := Except.ok.inj (hother.symm.trans hschema)
      rw [Finmap.lookup_eq_none.mpr hnew, Option.getD_none] at hbefore
      by_cases hnamed : Named after
      · dsimp only at hreplays
        rw [RecordStore.record_of_named hnamed] at hreplays
        have hreplayed := (RecordStore.replay_recorded kept.consistent.replays).symm.trans hreplays
        rw [replay_first_delta rfl hnew] at hreplayed
        have hsame := congrArg (Finmap.lookup s!"{recordType.toStr}:{key}") (Except.ok.inj hreplayed)
        dsimp only [Bookkeeping.after] at hsame
        rw [Finmap.lookup_insert, RecordStore.records_recorded, Finmap.lookup_insert, Option.some.injEq] at hsame
        replace hsame : [(Key.str text, Value.float (0 + delta))] = after := hsame
        have hfield : after.lookup (.str spec.name) ≠ none := by
          rw [hafter, lookup_assign, if_neg (by simpa using hname), hbefore]
          exact RecordSchema.mem_blank hspec
        refine hfield ?_
        rw [← hsame, List.lookup_cons, beq_false_of_ne (by simpa using hname)]
        rfl
      · exact kept.not_replays_unnamed hnamed hreplays
    · refine kept.not_replays_unnamed (fun hnamed => ?_) hreplays
      have hmem : name ∈ after.map Prod.fst := by
        rw [hafter]
        exact mem_keys_assign.mpr (Or.inl rfl)
      obtain ⟨entry, hentry, rfl⟩ := List.mem_map.mp hmem
      exact htext (hnamed entry hentry)

/-- An inverse is kept when it leads back. -/
theorem Kept.invertLast (kept : books.Kept) (orderly : books.Orderly .invertLast) :
    (books.step .invertLast).Kept ∧ books.Restores .invertLast := by
  cases hsurvivors : books.survivors with
  | nil =>
    rw [step, hsurvivors]
    exact ⟨kept, by simp [Restores, hsurvivors]⟩
  | cons last rest =>
    have hstacked := kept.stacked
    rw [hsurvivors] at hstacked
    obtain ⟨follows, hrest⟩ := hstacked
    have hrestores := follows.restores (orderly last rest hsurvivors)
    have hstep : books.step .invertLast =
        ⟨books.store.invertMutation last.fullKey last.before [last.ledgerId], rest⟩ := by
      rw [step, hsurvivors]
    rw [Restores, hstep]
    refine ⟨⟨follows.consistent.congr hrestores, fun entry hentry => ?_, hrest.congr hrestores⟩, ?_⟩
    · have hcounter : (books.store.invertMutation last.fullKey last.before [last.ledgerId]).ledgerCounter =
          books.store.ledgerCounter := by
        cases last.before <;> rfl
      have hledger : entry ∈ books.store.ledger := by
        have hfiltered : entry ∈ books.store.ledger.filter fun entry => entry.ledgerId ∉ [last.ledgerId] := by
          cases hbefore : last.before <;> rw [hbefore] at hentry <;> exact hentry
        exact (List.mem_filter.mp hfiltered).1
      rw [hcounter]
      exact kept.numbered entry hledger
    · intro other others hother
      rw [hsurvivors] at hother
      cases hother
      exact hrestores

/-- Any other inverse does not lead back. -/
theorem Kept.not_restores (kept : books.Kept) (disorderly : ¬books.Orderly .invertLast) :
    ¬books.Restores .invertLast := by
  simp only [Orderly, not_forall] at disorderly
  obtain ⟨last, rest, hsurvivors, hold⟩ := disorderly
  obtain ⟨record, hrecord⟩ := Option.ne_none_iff_exists'.mp hold
  intro hrestores
  have hstacked := kept.stacked
  rw [hsurvivors] at hstacked
  refine hstacked.1.not_restores hrecord ?_
  have hback := hrestores last rest hsurvivors
  rwa [step, hsurvivors] at hback

end Steps

/-- An orderly call is kept, and if it is an inverse, it leads back. -/
theorem Kept.step (kept : books.Kept) (orderly : books.Orderly call) :
    (books.step call).Kept ∧ books.Restores call := by
  cases call with
  | upsert => exact ⟨kept.upsert orderly, trivial⟩
  | applyDelta => exact ⟨kept.applyDelta orderly, trivial⟩
  | invertLast => exact kept.invertLast orderly

/-- A call that leaves replay and inverses as they should be is orderly. -/
theorem Kept.orderly (kept : books.Kept) (restores : books.Restores call) (replays : (books.step call).Replays) :
    books.Orderly call := by
  by_contra hdisorderly
  cases call with
  | upsert => exact kept.not_replays_upsert hdisorderly replays
  | applyDelta => exact kept.not_replays_applyDelta hdisorderly replays
  | invertLast => exact kept.not_restores hdisorderly restores

/-- From kept books, a course is exact if and only if it is orderly. -/
theorem Kept.exact_iff (kept : books.Kept) {calls : List RecordCall} :
    books.Exact calls ↔ books.OrderlyThroughout calls :=
  throughout_iff_each kept (fun kept => kept.consistent.replays) (fun kept => kept.step) fun kept => kept.orderly

/-- A new store with registered schemas. -/
def opened (schemas : String → Option RecordSchema) : Bookkeeping :=
  ⟨{ schemas := schemas }, []⟩

/-- The books of a new store are kept. -/
theorem kept_opened {schemas : String → Option RecordSchema} : (opened schemas).Kept := by
  constructor
  case consistent =>
    constructor
    case replays => rfl
    case named => intro key record hlookup; simp [opened] at hlookup
    case counted => intro key _; rfl
  case numbered => intro entry hentry; cases hentry
  case stacked => trivial

/-- Whatever schemas are registered, the ledger is an exact source of replay, and every inverse of the last surviving
mutation leads back, throughout a course of calls if and only if all of its calls are orderly. -/
theorem exact_iff_orderly (schemas : String → Option RecordSchema) (calls : List RecordCall) :
    (opened schemas).Exact calls ↔ (opened schemas).OrderlyThroughout calls :=
  kept_opened.exact_iff

/-- A stock of goods, each with a name and a quantity. -/
def stock (recordType : String) : Option RecordSchema :=
  if recordType = "stock" then some { fields := [{ name := "sku", type := .string }, { name := "qty", type := .int }] }
  else none

/-- A first delivery leaves a record with a name, which replay does not give. -/
theorem delivery_not_replayed :
    ¬(opened stock).Exact [.applyDelta (.str "stock") "bolts" (.str "qty") 5 "keeper" 0] := by
  rw [kept_opened.exact_iff]
  rintro ⟨horderly, -⟩
  rcases horderly with ⟨error, hrefused⟩ | ⟨name, hname, hknown | honly⟩
  · cases hrefused
  · exact absurd hknown (Finmap.notMem_empty)
  · cases hname
    exact absurd (honly _ rfl { name := "sku", type := .string } List.mem_cons_self) (by decide)

end Bookkeeping

end MyTeam.Legacy
