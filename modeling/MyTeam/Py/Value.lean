import Mathlib.Data.Rat.Defs
import Mathlib.Data.List.Infix

/-!
# Python values

The values that cross process boundaries and configuration files: `None`, booleans,
numbers, strings, lists and dictionaries with string keys, nested to any depth. Operations
that Python rejects for a value return the exception they raise. Ints are unbounded, but those with
more than `maxStrDigits` digits have no text; floats are the rationals they denote.

A dictionary keeps its insertion order. Membership in a set or dictionary goes through
`key`, which identifies `True`, `1` and `1.0` and rejects lists and dictionaries, as
hashing does.
-/

namespace MyTeam.Py

/-- `sys.get_int_max_str_digits()`. -/
def maxStrDigits : ℕ := 4300

/-- A Python value without object identity. -/
inductive Value where
  | none
  | bool (b : Bool)
  | int (n : ℤ)
  | float (q : ℚ)
  | str (s : String)
  | list (xs : List Value)
  | dict (kvs : List (String × Value))
deriving Inhabited

/-- Exceptions, by class and text. `systemExit` stands for the classes outside `Exception`. -/
inductive Exc where
  | typeError (message : String)
  | attributeError (message : String)
  | keyError (message : String)
  | valueError (message : String)
  | fileNotFound (message : String)
  | other (message : String)
  | systemExit
deriving DecidableEq

/-- `str(exc)`. -/
def Exc.message : Exc → String
  | .typeError m | .attributeError m | .keyError m | .valueError m | .fileNotFound m | .other m => m
  | .systemExit => ""

/-- Whether `except Exception` catches it. -/
def Exc.caught : Exc → Bool
  | .systemExit => false
  | _ => true

/-- A hashable value up to Python equality. -/
inductive Key where
  | none
  | num (q : ℚ)
  | str (s : String)
deriving DecidableEq

/-- The items of a dictionary after `d[key] = x`: a new key goes to the end. -/
def assign {κ β : Type} [DecidableEq κ] (key : κ) (x : β) : List (κ × β) → List (κ × β)
  | [] => [(key, x)]
  | (k, y) :: rest => if k = key then (k, x) :: rest else (k, y) :: assign key x rest

/-- Reading back after an assignment. -/
theorem lookup_assign {κ β : Type} [DecidableEq κ] (key k : κ) (x : β) (items : List (κ × β)) :
    (assign key x items).lookup k = if k = key then some x else items.lookup k := by
  induction items with
  | nil =>
    by_cases h : k = key
    · simp [assign, h]
    · simp [assign, List.lookup_cons, beq_false_of_ne h, h]
  | cons item rest ih =>
    obtain ⟨k', y⟩ := item
    by_cases hk : k' = key
    · subst hk
      by_cases h : k = k'
      · simp [assign, h]
      · simp [assign, List.lookup_cons, beq_false_of_ne h, h]
    · by_cases h : k = k'
      · subst h
        simp [assign, hk]
      · simp [assign, List.lookup_cons, hk, beq_false_of_ne h, ih]

namespace Value

/-- `type(v).__name__`. -/
def typeName : Value → String
  | none => "NoneType"
  | bool _ => "bool"
  | int _ => "int"
  | float _ => "float"
  | str _ => "str"
  | list _ => "list"
  | dict _ => "dict"

/-- `bool(v)`. -/
def truthy : Value → Bool
  | none => false
  | bool b => b
  | int n => n ≠ 0
  | float q => q ≠ 0
  | str s => s ≠ ""
  | list xs => !xs.isEmpty
  | dict kvs => !kvs.isEmpty

/-- `v or other`. -/
def orElse (v other : Value) : Value := if v.truthy then v else other

/-- A list is not replaced by the empty list. -/
theorem orElse_list (xs : List Value) : (list xs).orElse (list []) = list xs := by
  cases xs <;> rfl

/-- `v == s` for a string `s`. -/
def isStr (v : Value) (s : String) : Bool :=
  match v with
  | str t => t = s
  | _ => false

/-- The characters of a quoted string. -/
def escape (quote : Char) : List Char → List Char
  | [] => []
  | c :: rest =>
    if c = quote ∨ c = '\\' then '\\' :: c :: escape quote rest
    else if c = '\n' then '\\' :: 'n' :: escape quote rest
    else if c = '\r' then '\\' :: 'r' :: escape quote rest
    else if c = '\t' then '\\' :: 't' :: escape quote rest
    else if c.toNat < 32 ∨ 127 ≤ c.toNat ∧ c.toNat ≤ 160 ∨ c.toNat = 173 then
      '\\' :: 'x' :: Nat.digitChar (c.toNat / 16) :: Nat.digitChar (c.toNat % 16) :: escape quote rest
    else c :: escape quote rest

/-- `repr` of a string: single quotes unless only double quotes avoid an escape. Beyond Latin-1
every character counts as printable. -/
def reprStr (s : String) : String :=
  let quote := if '\'' ∈ s.toList ∧ '"' ∉ s.toList then '"' else '\''
  String.ofList (quote :: escape quote s.toList ++ [quote])

mutual

/-- `repr(v)`; a float is written as the fraction it denotes. -/
def repr : Value → String
  | none => "None"
  | bool b => if b then "True" else "False"
  | int n => toString n
  | float q => toString q.num ++ "/" ++ toString q.den
  | str s => reprStr s
  | list xs => "[" ++ ", ".intercalate (reprs xs) ++ "]"
  | dict kvs => "\x7b" ++ ", ".intercalate (reprItems kvs) ++ "\x7d"

/-- `repr` of the elements of a list. -/
def reprs : List Value → List String
  | [] => []
  | v :: rest => v.repr :: reprs rest

/-- `repr` of the items of a dictionary. -/
def reprItems : List (String × Value) → List String
  | [] => []
  | (k, v) :: rest => (reprStr k ++ ": " ++ v.repr) :: reprItems rest

end

/-- `str(v)`, also what an f-string inserts. -/
def toStr : Value → String
  | str s => s
  | v => v.repr

/-- The characters of a JSON string, non-ASCII characters kept. -/
def escapeJson : List Char → List Char
  | [] => []
  | c :: rest =>
    if c = '"' ∨ c = '\\' then '\\' :: c :: escapeJson rest
    else if c = '\n' then '\\' :: 'n' :: escapeJson rest
    else if c = '\r' then '\\' :: 'r' :: escapeJson rest
    else if c = '\t' then '\\' :: 't' :: escapeJson rest
    else if c.toNat = 8 then '\\' :: 'b' :: escapeJson rest
    else if c.toNat = 12 then '\\' :: 'f' :: escapeJson rest
    else if c.toNat < 32 then
      '\\' :: 'u' :: '0' :: '0' :: Nat.digitChar (c.toNat / 16) :: Nat.digitChar (c.toNat % 16) ::
        escapeJson rest
    else c :: escapeJson rest

/-- A quoted JSON string. -/
def dumpsStr (s : String) : String := String.ofList ('"' :: escapeJson s.toList ++ ['"'])

mutual

/-- `json.dumps(v, ensure_ascii=False)`; a float is written as the fraction it denotes. -/
def dumps : Value → String
  | none => "null"
  | bool b => if b then "true" else "false"
  | int n => toString n
  | float q => toString q.num ++ "/" ++ toString q.den
  | str s => dumpsStr s
  | list xs => "[" ++ ", ".intercalate (dumpsList xs) ++ "]"
  | dict kvs => "\x7b" ++ ", ".intercalate (dumpsItems kvs) ++ "\x7d"

/-- The elements of a JSON array. -/
def dumpsList : List Value → List String
  | [] => []
  | v :: rest => v.dumps :: dumpsList rest

/-- The members of a JSON object. -/
def dumpsItems : List (String × Value) → List String
  | [] => []
  | (k, v) :: rest => (dumpsStr k ++ ": " ++ v.dumps) :: dumpsItems rest

end

mutual

/-- Every int in `v` has a text. A float always has one: the fractions that floats denote are far from
the bound. -/
def printable : Value → Bool
  | int n => n.natAbs < Nat.pow 10 maxStrDigits
  | float q => q.num.natAbs < Nat.pow 10 maxStrDigits
  | list xs => printableList xs
  | dict kvs => printableItems kvs
  | _ => true

/-- So has every int in the elements of a list. -/
def printableList : List Value → Bool
  | [] => true
  | v :: rest => v.printable && printableList rest

/-- So has every int in the items of a dictionary. -/
def printableItems : List (String × Value) → Bool
  | [] => true
  | (_, v) :: rest => v.printable && printableItems rest

end

mutual

/-- How deep lists and dictionaries are nested in `v`. -/
def depth : Value → ℕ
  | list xs => depthList xs + 1
  | dict kvs => depthItems kvs + 1
  | _ => 0

/-- How deep they are nested in the elements of a list. -/
def depthList : List Value → ℕ
  | [] => 0
  | v :: rest => max v.depth (depthList rest)

/-- How deep they are nested in the items of a dictionary. -/
def depthItems : List (String × Value) → ℕ
  | [] => 0
  | (_, v) :: rest => max v.depth (depthItems rest)

end

/-- `json.dumps` can write `v` where it may enter `room` lists and dictionaries, one in the other. -/
def writable (room : ℕ) (v : Value) : Bool := v.printable && decide (v.depth ≤ room)

/-- The exception for an int without a text. -/
def tooLong : Exc := .valueError ("Exceeds the limit (4300 digits) for integer string conversion; " ++
  "use sys.set_int_max_str_digits() to increase the limit")

/-- `str(v)` raises where an int has no text. -/
def format (v : Value) : Except Exc String := if v.printable then .ok v.toStr else .error tooLong

/-- `json.dumps(v, ensure_ascii=False)`, where it may enter `room` lists and dictionaries. -/
def json (room : ℕ) (v : Value) : Except Exc String :=
  if v.writable room then .ok v.dumps
  else if v.printable then .error (.other "maximum recursion depth exceeded while encoding a JSON object")
  else .error tooLong

/-- `v.get(key, default)`. -/
def get (v : Value) (key : String) (default : Value) : Except Exc Value :=
  match v with
  | dict kvs => .ok ((kvs.lookup key).getD default)
  | v => .error (.attributeError ("'" ++ v.typeName ++ "' object has no attribute 'get'"))

/-- `v[key]`. -/
def item (v : Value) (key : String) : Except Exc Value :=
  match v with
  | dict kvs =>
    match kvs.lookup key with
    | some x => .ok x
    | Option.none => .error (.keyError (reprStr key))
  | list _ => .error (.typeError "list indices must be integers or slices, not str")
  | str _ => .error (.typeError "string indices must be integers, not 'str'")
  | v => .error (.typeError ("'" ++ v.typeName ++ "' object is not subscriptable"))

/-- What a dictionary holds under `key`; `None` if that is absent. -/
def field (v : Value) (key : String) : Value :=
  match v with
  | dict kvs => (kvs.lookup key).getD none
  | _ => none

/-- `v[key] = x`. -/
def setItem (v : Value) (key : String) (x : Value) : Except Exc Value :=
  match v with
  | dict kvs => .ok (dict (assign key x kvs))
  | v => .error (.typeError ("'" ++ v.typeName ++ "' object does not support item assignment"))

/-- The values a `for` loop over `v` visits. -/
def iter : Value → Except Exc (List Value)
  | list xs => .ok xs
  | str s => .ok (s.toList.map fun c => str c.toString)
  | dict kvs => .ok (kvs.map fun kv => str kv.1)
  | v => .error (.typeError ("'" ++ v.typeName ++ "' object is not iterable"))

/-- `hash(v)`, as the class of values equal to `v`. -/
def key : Value → Except Exc Key
  | none => .ok .none
  | bool b => .ok (.num (if b then 1 else 0))
  | int n => .ok (.num n)
  | float q => .ok (.num q)
  | str s => .ok (.str s)
  | v => .error (.typeError ("unhashable type: '" ++ v.typeName ++ "'"))

@[simp] theorem key_str (s : String) : (str s).key = .ok (.str s) := rfl

/-- The number a value is, booleans included. -/
def number : Value → Option ℚ
  | bool b => some (if b then 1 else 0)
  | int n => some n
  | float q => some q
  | _ => Option.none

mutual

/-- `v == w`. -/
def equal : Value → Value → Bool
  | none, none => true
  | str s, str t => s = t
  | list xs, list ys => equalList xs ys
  | dict kvs, dict items => decide (kvs.length = items.length) && equalItems kvs items
  | bool b, w => decide (w.number = some (if b then 1 else 0))
  | int n, w => decide (w.number = some n)
  | float q, w => decide (w.number = some q)
  | _, _ => false

/-- `==` of two lists. -/
def equalList : List Value → List Value → Bool
  | [], [] => true
  | v :: rest, w :: others => v.equal w && equalList rest others
  | _, _ => false

/-- Every item of a dictionary is one of another. -/
def equalItems : List (String × Value) → List (String × Value) → Bool
  | [], _ => true
  | (k, v) :: rest, items =>
    (match items.lookup k with
      | some w => v.equal w
      | Option.none => false) && equalItems rest items

end

/-- `v` is a dictionary. -/
def isDict : Value → Bool
  | dict _ => true
  | _ => false

/-- Hashing `v` does not raise. -/
def hashable : Value → Bool
  | list _ | dict _ => false
  | _ => true

@[simp] theorem hashable_str (s : String) : (str s).hashable = true := rfl

/-- What can be hashed is hashable. -/
theorem hashable_of_key {v : Value} {key : Key} (h : v.key = .ok key) : v.hashable = true := by
  cases v <;> simp_all [Value.key, hashable]

/-- `key == v`. -/
def hasKey (v : Value) (key : Key) : Bool :=
  match v.key with
  | .ok k => k = key
  | .error _ => false

/-- Comparing with a string. -/
theorem isStr_iff {v : Value} {s : String} : v.isStr s = true ↔ v = .str s := by
  cases v <;> simp [Value.isStr]

/-- `v[key]` is what stands under `key`. -/
theorem field_of_item {v x : Value} {key : String} (h : v.item key = .ok x) : v.field key = x := by
  cases v with
  | dict kvs =>
    simp only [Value.item] at h
    split at h
    next y hy => simpa [Value.field, hy] using h
    next => simp at h
  | _ => simp [Value.item] at h

/-- `v.get(key)` is what stands under `key`. -/
theorem field_of_get {v x : Value} {key : String} (h : v.get key .none = .ok x) :
    v.field key = x := by
  cases v <;> simp_all [Value.get, Value.field]

/-- Setting a field leaves the others as they are. -/
theorem field_of_setItem {event event' x : Value} {key other : String}
    (h : event.setItem key x = .ok event') (hne : other ≠ key) :
    event'.field other = event.field other := by
  cases event with
  | dict kvs =>
    obtain rfl : Value.dict (assign key x kvs) = event' := Except.ok.inj h
    simp [Value.field, lookup_assign, hne]
  | _ => simp [Value.setItem] at h

/-- Setting a field sets it. -/
theorem field_setItem_self {event event' x : Value} {key : String}
    (h : event.setItem key x = .ok event') : event'.field key = x := by
  cases event with
  | dict kvs =>
    obtain rfl : Value.dict (assign key x kvs) = event' := Except.ok.inj h
    simp [Value.field, lookup_assign]
  | _ => simp [Value.setItem] at h

/-- Setting a field makes a dictionary of a dictionary. -/
theorem dict_of_setItem {event event' x : Value} {key : String}
    (h : event.setItem key x = .ok event') : ∃ kvs, event' = .dict kvs := by
  cases event with
  | dict kvs => exact ⟨_, (Except.ok.inj h).symm⟩
  | _ => simp [Value.setItem] at h

/-- An item that is present. -/
theorem item_eq_field {event x : Value} {key : String} (h : event.field key = x) (hx : x ≠ .none) :
    event.item key = .ok x := by
  cases event with
  | dict kvs =>
    simp only [Value.field] at h
    cases hlookup : kvs.lookup key with
    | none => simp [hlookup] at h; exact absurd h.symm hx
    | some y =>
      simp only [hlookup, Option.getD_some] at h
      simp [Value.item, hlookup, h]
  | _ => simp [Value.field] at h; exact absurd h.symm hx

section Writable

variable {room : ℕ} {kvs : List (String × Value)}

/-- A dictionary can be written if its values can, one level deeper. -/
theorem writable_dict_iff : (dict kvs).writable room = true ↔
    printableItems kvs = true ∧ depthItems kvs + 1 ≤ room := by
  rw [writable, printable, depth, Bool.and_eq_true, decide_eq_true_eq]

/-- An item of a dictionary has texts if the dictionary has. -/
theorem printable_of_lookup {key : String} {v : Value} (h : printableItems kvs = true)
    (hlookup : kvs.lookup key = some v) : v.printable = true := by
  induction kvs with
  | nil => simp at hlookup
  | cons item rest ih =>
    obtain ⟨k, w⟩ := item
    rw [printableItems, Bool.and_eq_true] at h
    rw [List.lookup_cons] at hlookup
    split at hlookup
    · exact Option.some.inj hlookup ▸ h.1
    · exact ih h.2 hlookup

/-- An item of a dictionary is nested less deep. -/
theorem depth_of_lookup {key : String} {v : Value} (hlookup : kvs.lookup key = some v) :
    v.depth ≤ depthItems kvs := by
  induction kvs with
  | nil => simp at hlookup
  | cons item rest ih =>
    obtain ⟨k, w⟩ := item
    rw [depthItems]
    rw [List.lookup_cons] at hlookup
    split at hlookup
    · exact Option.some.inj hlookup ▸ le_max_left _ _
    · exact (ih hlookup).trans (le_max_right _ _)

/-- A field can be written, with room to spare. -/
theorem writable_field {v : Value} (key : String) (h : v.writable (room + 1) = true) :
    (v.field key).writable room = true := by
  cases v with
  | dict kvs =>
    obtain ⟨hprintable, hdepth⟩ := writable_dict_iff.mp h
    simp only [field]
    cases hlookup : kvs.lookup key with
    | none => simp [writable, printable, depth]
    | some w =>
      simp only [Option.getD_some, writable, Bool.and_eq_true, decide_eq_true_eq]
      exact ⟨printable_of_lookup hprintable hlookup, (depth_of_lookup hlookup).trans (by omega)⟩
  | _ => simp [field, writable, printable, depth]

/-- A field of a value that has texts has texts. -/
theorem printable_field {v : Value} (key : String) (h : v.printable = true) :
    (v.field key).printable = true := by
  have hwritable : v.writable (v.depth + 1) = true := by simp [writable, h]
  exact (Bool.and_eq_true_iff.mp (writable_field key hwritable)).1

/-- An empty value can be written where an empty dictionary can. -/
theorem writable_orElse {v : Value} (h : (v.orElse (dict [])).writable room = true) : v.writable room = true := by
  unfold orElse at h
  split at h
  · exact h
  next hfalsy =>
    have hroom := (writable_dict_iff.mp h).2
    cases v with
    | int n =>
      obtain rfl : n = 0 := by simpa [truthy] using hfalsy
      have hprints : (int 0).printable = true := by decide +kernel
      simp [writable, depth, hprints]
    | float q =>
      obtain rfl : q = 0 := by simpa [truthy] using hfalsy
      have hprints : (float 0).printable = true := by decide +kernel
      simp [writable, depth, hprints]
    | list xs =>
      obtain rfl : xs = [] := by simpa [truthy] using hfalsy
      simpa [writable, printable, printableList, depth, depthList, depthItems] using hroom
    | dict kvs =>
      obtain rfl : kvs = [] := by simpa [truthy] using hfalsy
      exact h
    | _ => simp [writable, printable, depth]

/-- An assignment keeps the texts. -/
theorem printable_assign {key : String} {v : Value} (hv : v.printable = true)
    (h : printableItems kvs = true) : printableItems (assign key v kvs) = true := by
  induction kvs with
  | nil => simpa [assign, printableItems] using hv
  | cons item rest ih =>
    obtain ⟨k, w⟩ := item
    rw [printableItems, Bool.and_eq_true] at h
    rw [assign]
    split
    · simp [printableItems, hv, h.2]
    · simp [printableItems, h.1, ih h.2]

/-- An assignment nests no deeper than what is assigned. -/
theorem depth_assign (key : String) (v : Value) (kvs : List (String × Value)) :
    depthItems (assign key v kvs) ≤ max v.depth (depthItems kvs) := by
  induction kvs with
  | nil => simp [assign, depthItems]
  | cons item rest ih =>
    obtain ⟨k, w⟩ := item
    rw [assign]
    split <;> simp only [depthItems] <;> omega

/-- A field can be set to what can be written one level deeper. -/
theorem writable_setItem {event event' x : Value} {key : String} (hx : x.writable room = true)
    (h : event.writable (room + 1) = true) (hset : event.setItem key x = .ok event') :
    event'.writable (room + 1) = true := by
  cases event with
  | dict kvs =>
    obtain rfl := Except.ok.inj hset
    obtain ⟨hprintable, hdepth⟩ := writable_dict_iff.mp h
    rw [writable, Bool.and_eq_true, decide_eq_true_eq] at hx
    refine writable_dict_iff.mpr ⟨printable_assign hx.1 hprintable, ?_⟩
    have := depth_assign key x kvs
    omega
  | _ => simp [setItem] at hset

/-- What `get` returns has texts if both the dictionary and the default have. -/
theorem printable_get {v default x : Value} {key : String} (h : v.printable = true)
    (hdefault : default.printable = true) (hget : v.get key default = .ok x) : x.printable = true := by
  cases v with
  | dict kvs =>
    obtain rfl := Except.ok.inj hget
    cases hlookup : kvs.lookup key with
    | none => exact hdefault
    | some w => exact printable_of_lookup h hlookup
  | _ => simp [get] at hget

/-- A dictionary is not replaced by the empty dictionary. -/
theorem orElse_dict (kvs : List (String × Value)) : (dict kvs).orElse (dict []) = dict kvs := by
  cases kvs <;> rfl

/-- A string is its own text. -/
@[simp] theorem format_str (s : String) : (str s).format = .ok s := by
  simp [format, printable, toStr]

/-- What can be written has texts. -/
theorem printable_of_writable {v : Value} (h : v.writable room = true) : v.printable = true :=
  (Bool.and_eq_true_iff.mp h).1

/-- Writing succeeds on what can be written. -/
theorem json_ok {v : Value} (h : v.writable room = true) : v.json room = .ok v.dumps := if_pos h

/-- Writing fails on anything else. -/
theorem json_error {v : Value} (h : v.writable room = false) : ∃ error, v.json room = .error error := by
  rw [json, if_neg (by simp [h])]
  split <;> exact ⟨_, rfl⟩

end Writable

/-- Looking a string up as a key. -/
@[simp] theorem hasKey_str (s : String) (key : Key) :
    Value.hasKey (.str s) key = decide (key = .str s) := by
  simp [Value.hasKey, Value.key, eq_comm]

end Value

namespace Key

/-- A value of this class; a whole number as an int. -/
def toValue : Key → Value
  | none => .none
  | num q => if q.den = 1 then .int q.num else .float q
  | str s => .str s

/-- The value of a key has a text if the value that was hashed had one. -/
theorem printable_toValue {v : Value} {key : Key} (h : v.printable = true) (hkey : v.key = .ok key) :
    key.toValue.printable = true := by
  have hnum (n : ℤ) (hn : n.natAbs < Nat.pow 10 maxStrDigits) : (Key.num n).toValue.printable = true := by
    simpa [toValue, Value.printable] using hn
  cases v with
  | none | str =>
    obtain rfl := Except.ok.inj hkey
    rfl
  | bool b =>
    obtain rfl := Except.ok.inj hkey
    cases b
    · exact hnum 0 (by decide +kernel)
    · exact hnum 1 (by decide +kernel)
  | int n =>
    obtain rfl := Except.ok.inj hkey
    exact hnum n (by simpa [Value.printable] using h)
  | float q =>
    obtain rfl := Except.ok.inj hkey
    simp only [toValue]
    split <;> exact h
  | list | dict => simp [Value.key] at hkey

/-- A value stands for its key. -/
theorem key_toValue (key : Key) : key.toValue.key = .ok key := by
  cases key with
  | num q =>
    simp only [toValue]
    split
    next hden =>
      have hq : (q.num : ℚ) = q := Rat.ext (by simp) (by simp [hden])
      simp [Value.key, hq]
    · rfl
  | _ => rfl

/-- `a < b` for hashable values. -/
def lt : Key → Key → Except Exc Bool
  | num a, num b => .ok (decide (a < b))
  | str a, str b => .ok (decide (a < b))
  | a, b => .error (.typeError ("'<' not supported between instances of '" ++
      a.toValue.typeName ++ "' and '" ++ b.toValue.typeName ++ "'"))

/-- `a < b` for pairs: the first components unless they are equal. -/
def ltPair (a b : Key × Key) : Except Exc Bool :=
  if a.1 = b.1 then (if a.2 = b.2 then .ok false else lt a.2 b.2) else lt a.1 b.1

end Key

section Except

variable {α β : Type}

/-- A sequence of fallible steps succeeds when both do. -/
theorem bind_eq_ok {x : Except Exc α} {f : α → Except Exc β} {b : β} :
    (x >>= f) = .ok b ↔ ∃ a, x = .ok a ∧ f a = .ok b := by
  cases x with
  | error e => simp [bind, Except.bind]
  | ok a => simp [bind, Except.bind]

/-- A sequence of fallible steps fails with its first failure. -/
theorem bind_eq_error {x : Except Exc α} {f : α → Except Exc β} {e : Exc} :
    (x >>= f) = .error e ↔ x = .error e ∨ ∃ a, x = .ok a ∧ f a = .error e := by
  cases x with
  | error e' => simp [bind, Except.bind]
  | ok a => simp [bind, Except.bind]

@[simp] theorem ok_bind (a : α) (f : α → Except Exc β) : (Except.ok a >>= f) = f a := rfl
@[simp] theorem error_bind (e : Exc) (f : α → Except Exc β) :
    (Except.error e >>= f) = .error e := rfl

end Except

section Caught

variable {α β : Type}

/-- Whatever the computation raises is caught by `except Exception`. -/
def Caught (x : Except Exc α) : Prop := ∀ error, x = .error error → error.caught = true

theorem caught_ok (a : α) : Caught (.ok a : Except Exc α) := by
  simp [Caught]

theorem caught_pure (a : α) : Caught (pure a : Except Exc α) := caught_ok a

theorem caught_error {error : Exc} (h : error.caught = true) : Caught (.error error : Except Exc α) := by
  rintro _ ⟨⟩
  exact h

/-- A sequence raises what one of its steps raises. -/
theorem caught_bind {x : Except Exc α} {f : α → Except Exc β} (hx : Caught x)
    (hf : ∀ a, Caught (f a)) : Caught (x >>= f) := by
  intro error h
  rcases bind_eq_error.mp h with h | ⟨a, -, h⟩
  · exact hx error h
  · exact hf a error h

theorem caught_get (v : Value) (key : String) (default : Value) : Caught (v.get key default) := by
  cases v with
  | dict kvs => exact caught_ok _
  | _ => exact caught_error rfl

theorem caught_item (v : Value) (key : String) : Caught (v.item key) := by
  cases v with
  | dict kvs =>
    unfold Value.item
    split
    · next h =>
      split
      · exact caught_ok _
      · exact caught_error rfl
    all_goals simp_all
  | _ => exact caught_error rfl

theorem caught_iter (v : Value) : Caught v.iter := by
  cases v with
  | none | bool | int | float => exact caught_error rfl
  | _ => exact caught_ok _

theorem caught_key (v : Value) : Caught v.key := by
  cases v with
  | list | dict => exact caught_error rfl
  | _ => exact caught_ok _

theorem caught_lt (a b : Key) : Caught (Key.lt a b) := by
  unfold Key.lt
  split
  · exact caught_ok _
  · exact caught_ok _
  · exact caught_error rfl

theorem caught_ltPair (a b : Key × Key) : Caught (Key.ltPair a b) := by
  unfold Key.ltPair
  split
  · split
    · exact caught_ok _
    · exact caught_lt _ _
  · exact caught_lt _ _

end Caught

section Sorting

variable {α : Type}

/-- Put `x` before the first element that is not smaller. -/
def insertSorted (lt : α → α → Except Exc Bool) (x : α) : List α → Except Exc (List α)
  | [] => .ok [x]
  | y :: rest => do
    if ← lt y x then return y :: (← insertSorted lt x rest)
    else return x :: y :: rest

/-- `sorted(xs)`; raises if it meets two elements that cannot be compared. -/
def sorted (lt : α → α → Except Exc Bool) : List α → Except Exc (List α)
  | [] => .ok []
  | x :: rest => do insertSorted lt x (← sorted lt rest)

/-- Where all comparisons succeed, insertion does. -/
theorem insertSorted_ok {lt : α → α → Except Exc Bool} {x : α} {xs : List α}
    (h : ∀ y ∈ xs, ∃ b, lt y x = .ok b) : ∃ ys, insertSorted lt x xs = .ok ys := by
  induction xs with
  | nil => exact ⟨[x], rfl⟩
  | cons y rest ih =>
    obtain ⟨b, hb⟩ := h y List.mem_cons_self
    cases b with
    | false => exact ⟨x :: y :: rest, by rw [insertSorted, hb]; rfl⟩
    | true =>
      obtain ⟨ys, hys⟩ := ih fun z hz => h z (List.mem_cons_of_mem _ hz)
      exact ⟨y :: ys, by rw [insertSorted, hb, hys]; rfl⟩

/-- Insertion adds one element. -/
theorem insertSorted_perm {lt : α → α → Except Exc Bool} {x : α} {xs ys : List α}
    (h : insertSorted lt x xs = .ok ys) : ys.Perm (x :: xs) := by
  induction xs generalizing ys with
  | nil =>
    obtain rfl : [x] = ys := by simpa [insertSorted] using h
    exact .refl _
  | cons y rest ih =>
    obtain ⟨b, -, h⟩ := bind_eq_ok.mp h
    cases b with
    | false =>
      obtain rfl : x :: y :: rest = ys := Except.ok.inj h
      exact .refl _
    | true =>
      obtain ⟨zs, hzs, h⟩ := bind_eq_ok.mp h
      obtain rfl : y :: zs = ys := Except.ok.inj h
      exact ((ih hzs).cons y).trans (.swap x y rest)

/-- Sorting keeps exactly the elements. -/
theorem sorted_perm {lt : α → α → Except Exc Bool} {xs ys : List α}
    (h : sorted lt xs = .ok ys) : ys.Perm xs := by
  induction xs generalizing ys with
  | nil =>
    obtain rfl : [] = ys := by simpa [sorted] using h
    exact .refl _
  | cons x rest ih =>
    obtain ⟨zs, hzs, h⟩ := bind_eq_ok.mp h
    exact (insertSorted_perm h).trans ((ih hzs).cons x)

/-- Where all comparisons succeed, sorting does. -/
theorem sorted_ok {lt : α → α → Except Exc Bool} {xs : List α}
    (h : ∀ x ∈ xs, ∀ y ∈ xs, ∃ b, lt x y = .ok b) : ∃ ys, sorted lt xs = .ok ys := by
  induction xs with
  | nil => exact ⟨[], rfl⟩
  | cons x rest ih =>
    obtain ⟨ys, hys⟩ := ih fun a ha b hb =>
      h a (List.mem_cons_of_mem _ ha) b (List.mem_cons_of_mem _ hb)
    obtain ⟨zs, hzs⟩ : ∃ zs, insertSorted lt x ys = .ok zs := insertSorted_ok fun y hy =>
      h y (List.mem_cons_of_mem _ ((sorted_perm hys).mem_iff.mp hy)) x List.mem_cons_self
    exact ⟨zs, by rw [sorted, hys]; exact hzs⟩

/-- Sorting raises what a comparison raises. -/
theorem caught_sorted {lt : α → α → Except Exc Bool} (h : ∀ x y, Caught (lt x y)) (xs : List α) :
    Caught (sorted lt xs) := by
  have hinsert (x : α) (ys : List α) : Caught (insertSorted lt x ys) := by
    induction ys with
    | nil => exact caught_ok _
    | cons y rest ih =>
      refine caught_bind (h y x) fun b => ?_
      split
      · exact caught_bind ih fun _ => caught_pure _
      · exact caught_pure _
  induction xs with
  | nil => exact caught_ok _
  | cons x rest ih => exact caught_bind ih fun _ => hinsert _ _

end Sorting

end MyTeam.Py
