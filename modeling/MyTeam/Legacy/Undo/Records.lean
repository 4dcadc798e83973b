import MyTeam.Legacy.Inverses
import MyTeam.Legacy.Replay
import MyTeam.Undo.Stores

/-!
# Undoing record effects

A record effect is undone by putting back the record it replaced. Later effects on other records
are the same without it, unless they took a unique value that the record gave up. The ledger and
the counts of versions are not looked at, and only the numbers of the ledger entries depend on them.
-/

namespace MyTeam.Legacy

open MyTeam.Py MyTeam.Undo

section Finmap

variable {α : Type} {β : α → Type}

/-- A search through a map is one through its entries. -/
theorem any_toFinmap {f : ∀ x, β x → Bool} {s : AList β} :
    (AList.toFinmap s).any f = s.entries.any fun entry => f entry.1 entry.2 := by
  have hfold (entries : List (Sigma β)) (found : Bool) :
      entries.foldl (fun found entry => found || f entry.1 entry.2) found =
        (found || entries.any fun entry => f entry.1 entry.2) := by
    induction entries generalizing found with
    | nil => simp
    | cons entry rest ih => simp [ih, Bool.or_assoc]
  exact hfold s.entries false

/-- A search through a map finds what stands under a key. -/
theorem any_eq_true_iff_lookup [DecidableEq α] {f : ∀ x, β x → Bool} {s : Finmap β} :
    s.any f = true ↔ ∃ key value, s.lookup key = some value ∧ f key value = true := by
  induction s using Finmap.induction_on with
  | _ s =>
    rw [any_toFinmap, List.any_eq_true]
    simp only [Finmap.lookup_toFinmap]
    constructor
    · rintro ⟨⟨key, value⟩, hmem, hfound⟩
      exact ⟨key, value, AList.mem_lookup_iff.mpr hmem, hfound⟩
    · rintro ⟨key, value, hlookup, hfound⟩
      exact ⟨⟨key, value⟩, AList.mem_lookup_iff.mp hlookup, hfound⟩

end Finmap

/-- A loop of checks passes when every check does. -/
theorem forM_eq_ok_iff {α ε : Type} {check : α → Except ε Unit} {items : List α} :
    items.forM check = .ok () ↔ ∀ item ∈ items, check item = .ok () := by
  induction items with
  | nil => exact iff_of_true rfl (by simp)
  | cons item rest ih =>
    rw [List.forall_mem_cons, ← ih]
    change (check item >>= fun _ => rest.forM check) = _ ↔ _
    cases check item with
    | error error => exact iff_of_false (fun h => by cases h) (fun h => by cases h.1)
    | ok value => exact ⟨fun h => ⟨rfl, h⟩, fun h => h.2⟩

/-- `record.get(name)`. -/
def Record.get (record : Record) (name : String) : Value :=
  (record.lookup (.str name)).getD .none

/-- No record of a type but that under a key has a value in a field. -/
def RecordStore.Free (store : RecordStore) (recordType fullKey name : String) (value : Value) : Prop :=
  ∀ other record, store.records.lookup other = some record → (recordType ++ ":").toList <+: other.toList →
    other ≠ fullKey → (record.get name).equal value = false

namespace RecordStore

variable {store other : RecordStore} {recordType data : Value} {fullKey key recordType' name : String}
  {record old : Record}

/-- A unique field passes its check when it is missing or its value is that of no other record. -/
theorem checkUnique_eq_ok_iff {data : Value} {recordType name : String} :
    store.checkUnique recordType fullKey data name = .ok () ↔
      ∃ value, data.get name .none = .ok value ∧ (value ≠ .none → store.Free recordType fullKey name value) := by
  have hused (value : Value) : (store.records.any fun other record =>
      decide ((recordType ++ ":").toList <+: other.toList) && decide (other ≠ fullKey) &&
        ((record.lookup (.str name)).getD .none).equal value) = true ↔ ¬store.Free recordType fullKey name value := by
    rw [any_eq_true_iff_lookup]
    unfold RecordStore.Free
    push Not
    refine exists₂_congr fun other record => and_congr_right fun _ => ?_
    simp only [Bool.and_eq_true, decide_eq_true_eq, and_assoc, Record.get, ne_eq, Bool.not_eq_false]
  unfold checkUnique
  split
  next error herror => simp [herror]
  next hnone => simp [hnone]
  next value hnone hvalue =>
    by_cases hfree : store.Free recordType fullKey name value
    · rw [if_neg fun h => (hused value).mp h hfree]
      exact iff_of_true rfl ⟨value, hvalue, fun _ => hfree⟩
    · rw [if_pos ((hused value).mpr hfree)]
      simpa [hvalue, hfree] using hnone

/-- The same records under the same schemas. -/
structure Same (store other : RecordStore) : Prop where
  records : store.records = other.records
  schemas : store.schemas = other.schemas

/-- Being the same is reflexive. -/
theorem Same.refl (store : RecordStore) : store.Same store :=
  ⟨rfl, rfl⟩

/-- Being the same is transitive. -/
theorem Same.trans {third : RecordStore} (h : store.Same other) (h' : other.Same third) : store.Same third :=
  ⟨h.records.trans h'.records, h.schemas.trans h'.schemas⟩

/-- The checks of an upsert read the records and the schemas. -/
theorem Same.checkUpsert (h : store.Same other) :
    store.checkUpsert recordType fullKey data = other.checkUpsert recordType fullKey data := by
  obtain ⟨schemas, records, _, _, _⟩ := store
  obtain ⟨schemas', records', _, _, _⟩ := other
  obtain ⟨rfl, rfl⟩ := h
  rfl

/-- The checks of a delta read the records and the schemas. -/
theorem Same.checkDelta {field : Value} {delta : ℚ} (h : store.Same other) :
    store.checkDelta recordType fullKey field delta = other.checkDelta recordType fullKey field delta := by
  obtain ⟨schemas, records, _, _, _⟩ := store
  obtain ⟨schemas', records', _, _, _⟩ := other
  obtain ⟨rfl, rfl⟩ := h
  rfl

/-- A store of one record. -/
def only (schemas : String → Option RecordSchema) (key : String) (record : Record) : RecordStore :=
  { schemas := schemas, records := Finmap.singleton key record }

/-- A value is free in records that are those of two stores in which it is. -/
theorem Free.of_either {first second : RecordStore} {value : Value} (hfirst : first.Free recordType' fullKey name value)
    (hsecond : second.Free recordType' fullKey name value)
    (either : ∀ key record, store.records.lookup key = some record →
      first.records.lookup key = some record ∨ second.records.lookup key = some record) :
    store.Free recordType' fullKey name value := by
  intro other record hrecord hstarts hother
  rcases either other record hrecord with h | h
  · exact hfirst other record h hstarts hother
  · exact hsecond other record h hstarts hother

/-- An upsert that passes in two stores passes where all records are of the one or of the other. -/
theorem checkUpsert_of_either {first second : RecordStore} {after' : Record}
    (hfirst : first.checkUpsert recordType fullKey data = .ok record)
    (hsecond : second.checkUpsert recordType fullKey data = .ok after')
    (schemas : store.schemas = first.schemas) (schemas' : second.schemas = first.schemas)
    (either : ∀ key record, store.records.lookup key = some record →
      first.records.lookup key = some record ∨ second.records.lookup key = some record) :
    store.checkUpsert recordType fullKey data = .ok record := by
  have hschema : store.schema recordType = first.schema recordType := by
    unfold RecordStore.schema
    rw [schemas]
  have hschema' : second.schema recordType = first.schema recordType := by
    unfold RecordStore.schema
    rw [schemas']
  unfold RecordStore.checkUpsert at hfirst hsecond ⊢
  rw [hschema]
  rw [hschema'] at hsecond
  cases hregistered : first.schema recordType with
  | error error =>
    rw [hregistered] at hfirst
    cases hfirst
  | ok schema =>
    rw [hregistered] at hfirst hsecond
    simp only [bind, Except.bind] at hfirst hsecond ⊢
    split at hfirst
    · cases hfirst
    next hfields =>
      rw [hfields] at hsecond
      split at hfirst
      · cases hfirst
      next hunique =>
        dsimp only at hsecond
        split at hsecond
        · cases hsecond
        next hunique' =>
          have hall : schema.uniqueFields.forM (fun name => store.checkUnique recordType.toStr fullKey data name) =
              .ok () := by
            refine forM_eq_ok_iff.mpr fun name hname => ?_
            obtain ⟨value, hvalue, hfree⟩ := checkUnique_eq_ok_iff.mp (forM_eq_ok_iff.mp hunique name hname)
            obtain ⟨value', hvalue', hfree'⟩ := checkUnique_eq_ok_iff.mp (forM_eq_ok_iff.mp hunique' name hname)
            obtain rfl := Except.ok.inj (hvalue.symm.trans hvalue')
            exact checkUnique_eq_ok_iff.mpr ⟨value, hvalue, fun hnone => (hfree hnone).of_either (hfree' hnone) either⟩
          rw [hall]
          exact hfirst

/-- A delta reads one record. -/
theorem checkDelta_congr {field : Value} {delta : ℚ} (schemas : store.schemas = other.schemas)
    (same : store.records.lookup fullKey = other.records.lookup fullKey) :
    store.checkDelta recordType fullKey field delta = other.checkDelta recordType fullKey field delta := by
  unfold RecordStore.checkDelta RecordStore.schema
  rw [schemas, same]

/-- An upsert, by what it checks. -/
theorem upsert_eq {agent : String} {tick : ℕ} {keyText : String} :
    (∃ entry : LedgerEntry, store.checkUpsert recordType s!"{recordType.toStr}:{keyText}" data = .ok entry.after ∧
      entry.fullKey = s!"{recordType.toStr}:{keyText}" ∧
      store.upsert recordType keyText data agent tick = store.record entry) ∨
    ∃ error, store.checkUpsert recordType s!"{recordType.toStr}:{keyText}" data = .error error ∧
      store.upsert recordType keyText data agent tick = .stopped store error := by
  unfold RecordStore.upsert
  dsimp only
  cases store.checkUpsert recordType s!"{recordType.toStr}:{keyText}" data with
  | error error => exact Or.inr ⟨error, rfl, rfl⟩
  | ok after => exact Or.inl ⟨_, rfl, rfl, rfl⟩

/-- A delta, by what it checks. -/
theorem applyDelta_eq {agent : String} {tick : ℕ} {keyText : String} {field : Value} {delta : ℚ} :
    (∃ entry : LedgerEntry, ∃ before,
      store.checkDelta recordType s!"{recordType.toStr}:{keyText}" field delta = .ok (before, entry.after) ∧
      entry.fullKey = s!"{recordType.toStr}:{keyText}" ∧
      store.applyDelta recordType keyText field delta agent tick = store.record entry) ∨
    ∃ error, store.checkDelta recordType s!"{recordType.toStr}:{keyText}" field delta = .error error ∧
      store.applyDelta recordType keyText field delta agent tick = .stopped store error := by
  unfold RecordStore.applyDelta
  dsimp only
  cases store.checkDelta recordType s!"{recordType.toStr}:{keyText}" field delta with
  | error error => exact Or.inr ⟨error, rfl, rfl⟩
  | ok result => exact Or.inl ⟨_, result.1, rfl, rfl, rfl⟩

end RecordStore

section Effects

variable {ctx : Context} {store other store' : RecordStore} {d e : StagedEffect}

/-- The record that an effect stores. -/
def writtenRecord (ctx : Context) (store : RecordStore) (e : StagedEffect) : Option Record :=
  let recordType := e.get "record_type" (.str "")
  if e.effectType = .recordUpsert then
    (store.checkUpsert recordType (recordKey e) (e.get "record" (.dict []))).toOption
  else
    match toFloat ctx (e.get "delta" (.int 0)) with
    | .error _ => none
    | .ok delta => (store.checkDelta recordType (recordKey e) (e.get "field" (.str "")) delta).toOption.map Prod.snd

/-- The mutation of an effect, by the record that it stores. -/
theorem recordMutation_cases (ctx : Context) (store : RecordStore) (e : StagedEffect) :
    (∃ entry : LedgerEntry, writtenRecord ctx store e = some entry.after ∧ entry.fullKey = recordKey e ∧
      recordMutation ctx store e = store.record entry) ∨
    writtenRecord ctx store e = none ∧ ∃ error, recordMutation ctx store e = .stopped store error := by
  unfold writtenRecord recordMutation
  dsimp only
  split_ifs with hupsert
  · rcases RecordStore.upsert_eq with ⟨entry, hchecked, hkey, hmutation⟩ | ⟨error, hchecked, hmutation⟩
    · exact Or.inl ⟨entry, congrArg Except.toOption hchecked, hkey, hmutation⟩
    · exact Or.inr ⟨congrArg Except.toOption hchecked, error, hmutation⟩
  · cases toFloat ctx (e.get "delta" (.int 0)) with
    | error error => exact Or.inr ⟨rfl, .raised error, rfl⟩
    | ok delta =>
      rcases RecordStore.applyDelta_eq with ⟨entry, before, hchecked, hkey, hmutation⟩ | ⟨error, hchecked, hmutation⟩
      · exact Or.inl ⟨entry, congrArg (fun result => result.toOption.map Prod.snd) hchecked, hkey, hmutation⟩
      · exact Or.inr ⟨congrArg (fun result => result.toOption.map Prod.snd) hchecked, error, hmutation⟩

/-- What an effect on a record leads to, when it is applied. -/
theorem applyRecord_applied {undo : InvertData} (applied : applyRecord ctx store e = .applied store' undo) :
    ∃ after ids, writtenRecord ctx store e = some after ∧ Named after ∧
      undo = .record (recordKey e) (store.records.lookup (recordKey e)) ids ∧
      store'.records = store.records.insert (recordKey e) after ∧ store'.schemas = store.schemas := by
  unfold applyRecord at applied
  rcases recordMutation_cases ctx store e with ⟨entry, hwritten, hkey, hmutation⟩ | ⟨-, error, hmutation⟩
  · rw [hmutation] at applied
    by_cases hnamed : Named entry.after
    · rw [RecordStore.record_of_named hnamed] at applied
      cases applied
      exact ⟨entry.after, _, hwritten, hnamed, rfl, by rw [RecordStore.records_recorded, hkey], rfl⟩
    · obtain ⟨error, hstopped⟩ := RecordStore.record_of_unnamed hnamed
      rw [hstopped] at applied
      cases error <;> cases applied
  · rw [hmutation] at applied
    cases error <;> cases applied

/-- An effect on a record is applied, if what it stores has names. -/
theorem applyRecord_of_written {after : Record} (written : writtenRecord ctx store e = some after)
    (named : Named after) :
    ∃ store' ids, applyRecord ctx store e =
        .applied store' (.record (recordKey e) (store.records.lookup (recordKey e)) ids) ∧
      store'.records = store.records.insert (recordKey e) after ∧ store'.schemas = store.schemas := by
  unfold applyRecord
  rcases recordMutation_cases ctx store e with ⟨entry, hwritten, hkey, hmutation⟩ | ⟨hnone, -⟩
  · obtain rfl : entry.after = after := Option.some_injective _ (hwritten.symm.trans written)
    rw [hmutation, RecordStore.record_of_named named]
    exact ⟨_, _, rfl, by rw [RecordStore.records_recorded, hkey], rfl⟩
  · rw [hnone] at written
    cases written

/-- What an effect stores depends on the records and the schemas. -/
theorem RecordStore.Same.writtenRecord (same : store.Same other) :
    writtenRecord ctx store e = writtenRecord ctx other e := by
  unfold Legacy.writtenRecord
  simp only [same.checkUpsert, same.checkDelta]

namespace StagedEffect

/-- An effect does to the records what it recorded, up to the numbers of its ledger entries. -/
def DoesRecords (ctx : Context) (schemas : String → Option RecordSchema) (e : StagedEffect)
    (store store' : RecordStore) :
    Prop :=
  if e.effectType.writesRecord then
    store.schemas = schemas ∧ ∃ ids ids',
      applyRecord ctx store e = .applied store' (.record (recordKey e) (store.records.lookup (recordKey e)) ids) ∧
        e.invertData = .record (recordKey e) (store.records.lookup (recordKey e)) ids'
  else store' = store

/-- Two effects are on different records. -/
def OtherRecord (d e : StagedEffect) : Prop :=
  d.effectType.writesRecord = true → e.effectType.writesRecord = true → ∀ key before ids,
    d.invertData = .record key before ids → key ≠ recordKey e

/-- An effect puts back the record that it is on. -/
def OwnRecord (e : StagedEffect) : Prop :=
  e.effectType.writesRecord = true → ∀ key before ids, e.invertData = .record key before ids → key = recordKey e

/-- Two effects are on different records, and the later one takes no unique value that the other gave up. -/
def ApartInRecords (schemas : String → Option RecordSchema) (d e : StagedEffect) : Prop :=
  d.effectType.writesRecord = true → e.effectType.writesRecord = true → ∀ key before ids,
    d.invertData = .record key before ids → key ≠ recordKey e ∧
      (e.effectType = .recordUpsert → ∀ old ∈ before, ∃ after,
        (RecordStore.only schemas key old).checkUpsert (e.get "record_type" (.str "")) (recordKey e)
          (e.get "record" (.dict [])) = .ok after)

end StagedEffect

/-- What an inverse does to the records. -/
theorem undoRecords_cases (e : StagedEffect) :
    (∃ key before ids, e.effectType.writesRecord = true ∧ e.invertData = .record key before ids ∧
      ∀ store : RecordStore, e.undoRecords store = store.invertMutation key before ids) ∨
    ∀ store : RecordStore, e.undoRecords store = store := by
  unfold StagedEffect.undoRecords
  split
  next key before ids hkind hdata => exact Or.inl ⟨key, before, ids, hkind, hdata, fun _ => rfl⟩
  next => exact Or.inr fun _ => rfl

/-- An inverse keeps the schemas. -/
theorem RecordStore.schemas_invertMutation {key : String} {before : Option Record} {ids : List ℕ} :
    (store.invertMutation key before ids).schemas = store.schemas := by
  cases before <;> rfl

/-- The records after an inverse. -/
theorem RecordStore.lookup_invertMutation {key : String} {before : Option Record} {ids : List ℕ} (other : String) :
    (store.invertMutation key before ids).records.lookup other = if other = key then before
      else store.records.lookup other := by
  split_ifs with hkey
  · subst hkey
    cases before with
    | none => exact Finmap.lookup_erase _ _
    | some record => exact Finmap.lookup_insert _
  · cases before with
    | none => exact Finmap.lookup_erase_ne hkey
    | some record => exact Finmap.lookup_insert_of_ne _ hkey

/-- Inverses of the same records leave the same. -/
theorem RecordStore.Same.undoRecords (same : store.Same other) (e : StagedEffect) :
    (e.undoRecords store).Same (e.undoRecords other) := by
  rcases undoRecords_cases e with ⟨key, before, ids, -, -, hundo⟩ | hundo
  · rw [hundo, hundo]
    refine ⟨Finmap.ext_lookup fun other => ?_, ?_⟩
    · rw [lookup_invertMutation, lookup_invertMutation, same.records]
    · rw [schemas_invertMutation, schemas_invertMutation, same.schemas]
  · rwa [hundo, hundo]

/-- An effect on a record, by the record that it stores. -/
theorem StagedEffect.DoesRecords.applied {schemas : String → Option RecordSchema}
    (hkind : e.effectType.writesRecord = true)
    (does : e.DoesRecords ctx schemas store store') : store.schemas = schemas ∧ ∃ after ids,
      writtenRecord ctx store e = some after ∧ Named after ∧
      e.invertData = .record (recordKey e) (store.records.lookup (recordKey e)) ids ∧
      store'.records = store.records.insert (recordKey e) after ∧ store'.schemas = store.schemas := by
  rw [DoesRecords, if_pos hkind] at does
  obtain ⟨hschemas, ids, ids', happly, hdata⟩ := does
  obtain ⟨after, -, hwritten, hnamed, -, hrecords, hsame⟩ := applyRecord_applied happly
  exact ⟨hschemas, after, ids', hwritten, hnamed, hdata, hrecords, hsame⟩

/-- An effect keeps the schemas. -/
theorem StagedEffect.DoesRecords.schemas {schemas : String → Option RecordSchema}
    (does : e.DoesRecords ctx schemas store store') : store'.schemas = store.schemas := by
  cases hkind : e.effectType.writesRecord with
  | false =>
    rw [DoesRecords, hkind] at does
    rw [does]
  | true =>
    obtain ⟨-, -, -, -, -, -, -, hkept⟩ := does.applied hkind
    exact hkept

/-- An effect stores a record. -/
theorem StagedEffect.doesRecords_of_written {schemas : String → Option RecordSchema} {after : Record} {ids : List ℕ}
    (hkind : e.effectType.writesRecord = true) (hschemas : store.schemas = schemas)
    (written : writtenRecord ctx store e = some after) (named : Named after)
    (data : e.invertData = .record (recordKey e) (store.records.lookup (recordKey e)) ids) :
    ∃ store', e.DoesRecords ctx schemas store store' ∧ store'.records = store.records.insert (recordKey e) after ∧
      store'.schemas = store.schemas := by
  obtain ⟨store', ids', happly, hrecords, hsame⟩ := applyRecord_of_written written named
  refine ⟨store', ?_, hrecords, hsame⟩
  rw [DoesRecords, if_pos hkind]
  exact ⟨hschemas, ids', ids, happly, data⟩

/-- An effect does the same to the same records. -/
theorem StagedEffect.DoesRecords.congr {schemas : String → Option RecordSchema} (same : store.Same other)
    (does : e.DoesRecords ctx schemas store store') :
    ∃ other', e.DoesRecords ctx schemas other other' ∧ store'.Same other' := by
  cases hkind : e.effectType.writesRecord with
  | false =>
    rw [DoesRecords, hkind] at does
    refine ⟨other, ?_, does ▸ same⟩
    rw [DoesRecords, hkind]
    rfl
  | true =>
    obtain ⟨hschemas, after, ids, hwritten, hnamed, hdata, hrecords, hkept⟩ := does.applied hkind
    rw [same.records] at hdata hrecords
    obtain ⟨other', hdoes, hrecords', hkept'⟩ := doesRecords_of_written hkind (same.schemas ▸ hschemas)
      (same.writtenRecord ▸ hwritten) hnamed hdata
    exact ⟨other', hdoes, hrecords.trans hrecords'.symm, hkept.trans (same.schemas.trans hkept'.symm)⟩

/-- What an effect stores is the same where an effect is undone that it is apart from. -/
theorem StagedEffect.ApartInRecords.writtenRecord {schemas : String → Option RecordSchema} {key : String}
    {before : Option Record} {ids : List ℕ} {after : Record} (apart : d.ApartInRecords schemas e)
    (hd : d.effectType.writesRecord = true) (hdata : d.invertData = .record key before ids)
    (he : e.effectType.writesRecord = true) (hschemas : store.schemas = schemas)
    (written : writtenRecord ctx store e = some after) :
    writtenRecord ctx (store.invertMutation key before ids) e = some after := by
  obtain ⟨hkey, hspares⟩ := apart hd he key before ids hdata
  unfold Legacy.writtenRecord at written ⊢
  dsimp only at written ⊢
  split_ifs at written ⊢ with hupsert
  · cases hchecked : store.checkUpsert (e.get "record_type" (.str "")) (recordKey e) (e.get "record" (.dict [])) with
    | error error =>
      rw [hchecked] at written
      cases written
    | ok record =>
      have hafter : (store.invertMutation key before ids).checkUpsert (e.get "record_type" (.str "")) (recordKey e)
          (e.get "record" (.dict [])) = .ok record := by
        cases before with
        | none =>
          refine RecordStore.checkUpsert_of_either hchecked hchecked RecordStore.schemas_invertMutation rfl
            fun other record h => ?_
          rw [RecordStore.lookup_invertMutation] at h
          split_ifs at h
          exact Or.inl h
        | some old =>
          obtain ⟨after', hspared⟩ := hspares hupsert old rfl
          refine RecordStore.checkUpsert_of_either hchecked hspared RecordStore.schemas_invertMutation hschemas.symm
            fun other record h => ?_
          rw [RecordStore.lookup_invertMutation] at h
          split_ifs at h with hother
          · subst hother
            cases h
            exact Or.inr Finmap.lookup_singleton_eq
          · exact Or.inl h
      rw [hafter]
      rwa [hchecked] at written
  · have hsame : (store.invertMutation key before ids).records.lookup (recordKey e) =
        store.records.lookup (recordKey e) := by
      rw [RecordStore.lookup_invertMutation, if_neg hkey.symm]
    simpa only [RecordStore.checkDelta_congr RecordStore.schemas_invertMutation hsame] using written

/-- An effect on another record does the same where an effect is undone. -/
theorem StagedEffect.DoesRecords.commutes {schemas : String → Option RecordSchema} (apart : d.ApartInRecords schemas e)
    (does : e.DoesRecords ctx schemas store store') :
    ∃ after, e.DoesRecords ctx schemas (d.undoRecords store) after ∧ (d.undoRecords store').Same after := by
  rcases undoRecords_cases d with ⟨key, before, ids, hd, hundone, hundo⟩ | hundo
  · rw [hundo, hundo]
    cases he : e.effectType.writesRecord with
    | false =>
      rw [DoesRecords, he] at does
      refine ⟨store'.invertMutation key before ids, ?_, .refl _⟩
      rw [DoesRecords, he, does]
      rfl
    | true =>
      obtain ⟨hschemas, after, ids', hwritten, hnamed, hdata, hrecords, hkept⟩ := does.applied he
      have hkey : key ≠ recordKey e := (apart hd he key before ids hundone).1
      have hsame : (store.invertMutation key before ids).records.lookup (recordKey e) =
          store.records.lookup (recordKey e) := by
        rw [RecordStore.lookup_invertMutation, if_neg hkey.symm]
      obtain ⟨after', hdoes, hrecords', hkept'⟩ := doesRecords_of_written he
        (RecordStore.schemas_invertMutation.trans hschemas) (apart.writtenRecord hd hundone he hschemas hwritten) hnamed
        (hsame ▸ hdata)
      refine ⟨after', hdoes, Finmap.ext_lookup fun other => ?_, ?_⟩
      · rw [RecordStore.lookup_invertMutation, hrecords, hrecords']
        by_cases hother : other = recordKey e
        · rw [hother, if_neg hkey.symm, Finmap.lookup_insert, Finmap.lookup_insert]
        · rw [Finmap.lookup_insert_of_ne _ hother, Finmap.lookup_insert_of_ne _ hother,
            RecordStore.lookup_invertMutation]
      · rw [RecordStore.schemas_invertMutation, hkept, hkept', RecordStore.schemas_invertMutation]
  · rw [hundo, hundo]
    exact ⟨store', does, .refl _⟩

/-- Inverses on different records commute. -/
theorem StagedEffect.OtherRecord.undo_comm (apart : d.OtherRecord e) (own : e.OwnRecord) (store : RecordStore) :
    (e.undoRecords (d.undoRecords store)).Same (d.undoRecords (e.undoRecords store)) := by
  rcases undoRecords_cases d with ⟨key, before, ids, hd, hdata, hundo⟩ | hundo
  · rcases undoRecords_cases e with ⟨key', before', ids', he, hdata', hundo'⟩ | hundo'
    · have hkey : key ≠ key' := own he key' before' ids' hdata' ▸ apart hd he key before ids hdata
      rw [hundo, hundo, hundo', hundo']
      refine ⟨Finmap.ext_lookup fun other => ?_, ?_⟩
      · simp only [RecordStore.lookup_invertMutation]
        split_ifs with h h'
        · exact absurd (h'.symm.trans h) hkey
        · rfl
        · rfl
        · rfl
      · simp only [RecordStore.schemas_invertMutation]
    · rw [hundo', hundo']
      exact .refl _
  · rw [hundo, hundo]
    exact .refl _

/-- An effect on a record recorded which it is. -/
theorem StagedEffect.DoesRecords.own {schemas : String → Option RecordSchema}
    (does : e.DoesRecords ctx schemas store store') : e.OwnRecord := by
  intro he key before ids hdata
  obtain ⟨-, after, ids', -, -, hdata', -, -⟩ := does.applied he
  rw [hdata'] at hdata
  cases hdata
  rfl

/-- An effect on a record is undone. -/
theorem StagedEffect.DoesRecords.undone {schemas : String → Option RecordSchema}
    (does : e.DoesRecords ctx schemas store store') :
    (e.undoRecords store').Same store := by
  cases he : e.effectType.writesRecord with
  | false =>
    rw [DoesRecords, he] at does
    have hundo : e.undoRecords store' = store' := by
      unfold undoRecords
      rw [he]
    rw [hundo, does]
    exact .refl store
  | true =>
    obtain ⟨-, after, ids, -, -, hdata, hrecords, hkept⟩ := does.applied he
    have hundo : e.undoRecords store' = store'.invertMutation (recordKey e) (store.records.lookup (recordKey e))
        ids := by
      unfold undoRecords
      rw [he, hdata]
    rw [hundo]
    refine ⟨Finmap.ext_lookup fun other => ?_, RecordStore.schemas_invertMutation.trans hkept⟩
    rw [RecordStore.lookup_invertMutation, hrecords]
    split_ifs with hother
    · rw [hother]
    · exact Finmap.lookup_insert_of_ne _ hother

/-- The effects on the records, for the schemas that are registered. -/
def recordEffects (ctx : Context) (schemas : String → Option RecordSchema) : Undoable RecordStore StagedEffect where
  Does store e store' := e.DoesRecords ctx schemas store store'
  Leads store e store' := (e.undoRecords store').Same store ∧ e.OwnRecord
  undo store e := e.undoRecords store
  Sim := RecordStore.Same
  Inv store := store.schemas = schemas
  Stands _ _ := True
  Independent := StagedEffect.ApartInRecords schemas
  Together := StagedEffect.OtherRecord
  Exact _ _ := True
  refl := .refl
  trans := .trans
  does_inv registered does := does.schemas.trans registered
  does_sim := StagedEffect.DoesRecords.congr
  undo_sim {_ _ e} same _ := same.undoRecords e
  does_undo apart _ does := does.commutes apart
  stands_self _ := trivial
  stands_does _ _ _ := trivial
  stands_undo _ _ := trivial
  together apart hd he key before ids hdata := (apart hd he key before ids hdata).1
  leads_of_does _ does := ⟨does.undone, does.own⟩
  leads_undo {d _ _ _} apart _ leads := ⟨(apart.undo_comm leads.2 _).trans (leads.1.undoRecords d), leads.2⟩
  undo_exact _ _ leads same := leads.1.trans same

end Effects

end MyTeam.Legacy
