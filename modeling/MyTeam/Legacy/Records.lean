import MyTeam.Py.Value
import Mathlib.Data.Finmap

/-!
# The record store

Typed records under `type:key`, with invariants that a mutation must keep, a ledger of the
mutations, and a count of the versions of each record. A mutation that breaks an invariant is a
failure of the effect alone; other exceptions are not expected.
-/

namespace MyTeam.Legacy

open MyTeam.Py

/-- The fields of a record. -/
abbrev Record := List (Key × Value)

/-- The types of a field. -/
inductive FieldType
  | string
  | int
  | float
  | date
  | bool
deriving DecidableEq, Repr

namespace FieldType

/-- Whether a value has the type. -/
def accepts : FieldType → Value → Bool
  | string, .str _ | date, .str _ | bool, .bool _ | int, .int _ => true
  | float, v => v.number.isSome
  | _, _ => false

/-- The name of a type. -/
def name : FieldType → String
  | string => "string"
  | int => "int"
  | float => "float"
  | date => "date"
  | bool => "bool"

/-- What a field holds before a first change. -/
def blank : FieldType → Value
  | string | date => .str ""
  | int | float => .int 0
  | bool => .bool false

end FieldType

/-- `FieldSpec`. -/
structure FieldSpec where
  name : String
  type : FieldType
  required : Bool := true

/-- `InvariantRule`: a field is not negative, or positive. -/
structure InvariantRule where
  positive : Bool
  field : String

/-- `RecordSchema`. -/
structure RecordSchema where
  fields : List FieldSpec := []
  invariants : List InvariantRule := []
  uniqueFields : List String := []

/-- Why a mutation stops: an invariant, which fails the effect, or another exception. -/
inductive RecordError
  | invariant (message : String)
  | raised (error : Exc)

/-- `InvariantRule.check`. -/
def InvariantRule.check (rule : InvariantRule) (record : Record) : Except RecordError Unit :=
  let value := (record.lookup (.str rule.field)).getD (.int 0)
  let ok := match value.number with
    | none => false
    | some q => if rule.positive then decide (0 < q) else decide (0 ≤ q)
  let bound := if rule.positive then "> 0" else ">= 0"
  if ok then .ok () else .error (.invariant s!"{rule.field} must be {bound} (got {value.repr})")

/-- `name in data`; a number or `None` raises. -/
def contains (data : Value) (name : String) : Except RecordError Bool :=
  match data with
  | .dict kvs => .ok ((kvs.lookup name).isSome)
  | .list xs => .ok (xs.any fun x => x.isStr name)
  | .str s => .ok (decide (name.toList <:+: s.toList))
  | v => .error (.raised (.typeError s!"argument of type '{v.typeName}' is not iterable"))

/-- `RecordSchema.validate_record` for one field. -/
def FieldSpec.validate (spec : FieldSpec) (data : Value) : Except RecordError Unit := do
  if !(← contains data spec.name) then
    if spec.required then throw (.invariant s!"missing required field '{spec.name}'")
  else
    match data.item spec.name with
    | .error exc => throw (.raised exc)
    | .ok value =>
      if !spec.type.accepts value then
        throw (.invariant s!"field '{spec.name}' must be {spec.type.name} (got {value.repr})")

/-- An element of the argument of `dict`. -/
def pairOf : Value → Except Exc (Key × Value)
  | .list [k, v] => do return (← k.key, v)
  | .str s => match s.toList with
    | [k, v] => .ok (.str k.toString, .str v.toString)
    | _ => .error (.valueError "dictionary update sequence element has the wrong length; 2 is required")
  | .dict [(k, _), (v, _)] => .ok (.str k, .str v)
  | .list _ | .dict _ => .error (.valueError "dictionary update sequence element has the wrong length; 2 is required")
  | _ => .error (.typeError "cannot convert dictionary update sequence element to a sequence")

/-- `dict(data)`. -/
def toRecord : Value → Except Exc Record
  | .dict kvs => .ok (kvs.map fun kv => (.str kv.1, kv.2))
  | v => do
    let pairs ← (← v.iter).mapM pairOf
    return pairs.foldl (fun record entry => assign entry.1 entry.2 record) []

/-- `LedgerEntry`. -/
structure LedgerEntry where
  ledgerId : ℕ
  tick : ℕ
  agentId : String
  fullKey : String
  before : Option Record
  after : Record
  delta : Option (Value × ℚ) := none

/-- `RecordStore`. -/
structure RecordStore where
  schemas : String → Option RecordSchema := fun _ => none
  records : Finmap fun _ : String => Record := ∅
  ledger : List LedgerEntry := []
  ledgerCounter : ℕ := 0
  versionCounter : String → Option ℕ := fun _ => none

/-- What a mutation leads to; a raised exception may leave a change behind. -/
inductive Mutation
  | done (store : RecordStore) (ledgerId : ℕ)
  | stopped (store : RecordStore) (error : RecordError)

namespace RecordStore

variable (store : RecordStore)

/-- `schema`. -/
def schema (recordType : Value) : Except RecordError RecordSchema :=
  match recordType.key with
  | .error exc => .error (.raised exc)
  | .ok (.str name) =>
    match store.schemas name with
    | some schema => .ok schema
    | none => .error (.invariant "record type not registered")
  | .ok _ => .error (.invariant "record type not registered")

/-- The check of the unique fields in `upsert`. -/
def checkUnique (recordType fullKey : String) (data : Value) (name : String) : Except RecordError Unit :=
  match data.get name .none with
  | .error exc => .error (.raised exc)
  | .ok .none => .ok ()
  | .ok value =>
    let used := store.records.any fun other record => decide ((recordType ++ ":").toList <+: other.toList) &&
      decide (other ≠ fullKey) && ((record.lookup (.str name)).getD .none).equal value
    if used then .error (.invariant s!"{name}={value.repr} already used") else .ok ()

/-- Stores a record, with an entry in the ledger. The entry is validated after the record was stored: its keys must
be strings. -/
def record (entry : LedgerEntry) : Mutation :=
  let stored := { store with
    records := store.records.insert entry.fullKey entry.after
    ledgerCounter := store.ledgerCounter + 1 }
  let named := entry.after.all fun field => match field.1 with
    | .str _ => true
    | _ => false
  if named then
    .done { stored with
      ledger := store.ledger ++ [entry]
      versionCounter := Function.update store.versionCounter entry.fullKey
        (some ((store.versionCounter entry.fullKey).getD 0 + 1)) } entry.ledgerId
  else .stopped stored (.raised (.valueError "validation error for LedgerEntry"))

/-- What `upsert` checks, and the record it stores. -/
def checkUpsert (recordType : Value) (fullKey : String) (data : Value) : Except RecordError Record := do
  let schema ← store.schema recordType
  schema.fields.forM fun spec => spec.validate data
  schema.uniqueFields.forM fun name => store.checkUnique recordType.toStr fullKey data name
  if !schema.invariants.isEmpty && !data.isDict then
    throw (.raised (.attributeError s!"'{data.typeName}' object has no attribute 'get'"))
  match toRecord data with
  | .error exc => throw (.raised exc)
  | .ok record =>
    schema.invariants.forM fun rule => rule.check record
    return record

/-- `upsert`. -/
def upsert (recordType : Value) (key : String) (data : Value) (agent : String) (tick : ℕ) : Mutation :=
  let fullKey := s!"{recordType.toStr}:{key}"
  match store.checkUpsert recordType fullKey data with
  | .error error => .stopped store error
  | .ok after => store.record
      { ledgerId := store.ledgerCounter + 1, tick := tick, agentId := agent, fullKey := fullKey,
        before := store.records.lookup fullKey, after := after }

/-- What `apply_delta` checks, and the record before and after. -/
def checkDelta (recordType : Value) (fullKey : String) (field : Value) (delta : ℚ) :
    Except RecordError (Record × Record) := do
  let schema ← store.schema recordType
  let existing := (store.records.lookup fullKey).getD
    (schema.fields.foldl (fun record spec => assign (.str spec.name) spec.type.blank record) [])
  match field.key with
  | .error exc => throw (.raised exc)
  | .ok name =>
    match ((existing.lookup name).getD (.int 0)).number with
    | none => throw (.invariant s!"cannot delta non-numeric field '{field.toStr}'")
    | some current =>
      let after := assign name (.float (current + delta)) existing
      schema.invariants.forM fun rule => rule.check after
      return (existing, after)

/-- `apply_delta`. -/
def applyDelta (recordType : Value) (key : String) (field : Value) (delta : ℚ) (agent : String) (tick : ℕ) :
    Mutation :=
  let fullKey := s!"{recordType.toStr}:{key}"
  match store.checkDelta recordType fullKey field delta with
  | .error error => .stopped store error
  | .ok (before, after) => store.record
      { ledgerId := store.ledgerCounter + 1, tick := tick, agentId := agent, fullKey := fullKey,
        before := some before, after := after, delta := some (field, delta) }

/-- `invert_mutation`. -/
def invertMutation (fullKey : String) (before : Option Record) (ledgerIds : List ℕ) : RecordStore :=
  let ledger := store.ledger.filter fun entry => entry.ledgerId ∉ ledgerIds
  match before with
  | none => { store with
      ledger := ledger
      records := store.records.erase fullKey
      versionCounter := Function.update store.versionCounter fullKey none }
  | some record => { store with ledger := ledger, records := store.records.insert fullKey record }

end RecordStore

end MyTeam.Legacy
