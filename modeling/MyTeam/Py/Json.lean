import MyTeam.Py.Decimal
import MyTeam.Py.Value

/-!
# JSON values and texts

The values that JSON texts denote in Python, with ints and floats apart, and the text that `json.dumps` writes
for them in ASCII and without blanks. Texts of ints are limited to `maxStrDigits` digits, in both directions.
Values without dictionaries have different texts, also where Python's `==` identifies them, as `1`, `1.0` and
`True`: `dumps_append_inj` reads a text up to the end of the value.
-/

namespace MyTeam.Py

/-- A JSON value. -/
inductive Json where
  | null
  | bool (b : Bool)
  | int (n : ℤ)
  | float (x : Double)
  | str (s : String)
  | list (xs : List Json)
  | dict (kvs : List (String × Json))
deriving Inhabited

namespace Json

/-- `type(v).__name__`. -/
def typeName : Json → String
  | null => "NoneType"
  | bool _ => "bool"
  | int _ => "int"
  | float _ => "float"
  | str _ => "str"
  | list _ => "list"
  | dict _ => "dict"

/-- The number that a bool, an int or a float is. -/
def number : Json → Option Number
  | bool b => some (.finite (if b then 1 else 0))
  | int n => some (.finite n)
  | float x => some x.number
  | _ => none

/-- Equality of numbers, where `nan` is not equal to itself. -/
def numberEq (x y : Number) : Bool := x.le y && y.le x

/-- `v is w`, where it tells more than `v == w`. -/
def same : Json → Json → Bool
  | float (.nan object), float (.nan other) => object = other
  | _, _ => false

mutual

/-- `v == w`. -/
def eq : Json → Json → Bool
  | str s, str t => s = t
  | null, null => true
  | list xs, list ys => eqAll xs ys
  | dict kvs, dict other => kvs.length = other.length && eqItems kvs other
  | v, w =>
    match v.number, w.number with
    | some x, some y => numberEq x y
    | _, _ => false

/-- Equality of lists. -/
def eqAll : List Json → List Json → Bool
  | [], [] => true
  | v :: vs, w :: ws => (same v w || eq v w) && eqAll vs ws
  | _, _ => false

/-- Whether a dictionary has items that are equal to some. -/
def eqItems : List (String × Json) → List (String × Json) → Bool
  | [], _ => true
  | (k, v) :: rest, other => ((other.find? fun item => item.1 = k).any fun item => same v item.2 || eq v item.2) &&
      eqItems rest other

end

/-- `str` of an int. -/
def intText (n : ℤ) : Except Exc (List Char) :=
  let digits := Nat.toDigits 10 n.natAbs
  if maxStrDigits < digits.length then
    .error (.valueError ("Exceeds the limit (4300 digits) for integer string conversion; " ++
      "use sys.set_int_max_str_digits() to increase the limit"))
  else .ok (if n < 0 then '-' :: digits else digits)

mutual

/-- `repr(v)`. -/
def repr : Json → Except Exc String
  | null => .ok "None"
  | bool b => .ok (if b then "True" else "False")
  | int n => (intText n).map String.ofList
  | float x => .ok (String.ofList x.repr)
  | str s => .ok (Value.reprStr s)
  | list xs => (reprAll xs).map fun texts => "[" ++ ", ".intercalate texts ++ "]"
  | dict kvs => (reprItems kvs).map fun texts => "\x7b" ++ ", ".intercalate texts ++ "\x7d"

/-- `repr` of each value. -/
def reprAll : List Json → Except Exc (List String)
  | [] => .ok []
  | v :: vs => do return (← repr v) :: (← reprAll vs)

/-- `repr` of each item. -/
def reprItems : List (String × Json) → Except Exc (List String)
  | [] => .ok []
  | (k, v) :: rest => do return (Value.reprStr k ++ ": " ++ (← repr v)) :: (← reprItems rest)

end

/-- The four hexadecimal digits of a number. -/
def hex (n : ℕ) : List Char :=
  [Nat.digitChar (n / 4096 % 16), Nat.digitChar (n / 256 % 16), Nat.digitChar (n / 16 % 16), Nat.digitChar (n % 16)]

/-- A character of a JSON string in ASCII. -/
def escape (c : Char) : List Char :=
  if c = '"' then ['\\', '"']
  else if c = '\\' then ['\\', '\\']
  else if c = '\n' then ['\\', 'n']
  else if c = '\r' then ['\\', 'r']
  else if c = '\t' then ['\\', 't']
  else if c.toNat = 8 then ['\\', 'b']
  else if c.toNat = 12 then ['\\', 'f']
  else if 32 ≤ c.toNat ∧ c.toNat < 127 then [c]
  else if c.toNat < 0x10000 then '\\' :: 'u' :: hex c.toNat
  else '\\' :: 'u' :: (hex (0xD800 + (c.toNat - 0x10000) / 0x400) ++
    '\\' :: 'u' :: hex (0xDC00 + (c.toNat - 0x10000) % 0x400))

/-- A JSON string in ASCII. -/
def stringText (s : String) : List Char := '"' :: (s.toList.flatMap escape ++ ['"'])

/-- A float in JSON. -/
def floatText : Double → List Char
  | .posInf => "Infinity".toList
  | .negInf => "-Infinity".toList
  | .nan _ => "NaN".toList
  | x => x.repr

/-- Texts with commas between them. -/
def commas : List (List Char) → List Char
  | [] => []
  | [text] => text
  | text :: other :: texts => text ++ ',' :: commas (other :: texts)

mutual

/-- `json.dumps(v, sort_keys=True, separators=(",", ":"))`. -/
def dumps : Json → Except Exc (List Char)
  | null => .ok "null".toList
  | bool b => .ok (if b then "true".toList else "false".toList)
  | int n => intText n
  | float x => .ok (floatText x)
  | str s => .ok (stringText s)
  | list xs => (dumpsAll xs).map fun texts => '[' :: (commas texts ++ [']'])
  | dict kvs => (dumpsItems kvs).map fun items =>
      '{' :: (commas ((items.mergeSort fun x y => x.1 ≤ y.1).map fun item => stringText item.1 ++ ':' :: item.2) ++
        ['}'])

/-- The text of each value. -/
def dumpsAll : List Json → Except Exc (List (List Char))
  | [] => .ok []
  | v :: vs => do return (← dumps v) :: (← dumpsAll vs)

/-- The text of the value of each item. -/
def dumpsItems : List (String × Json) → Except Exc (List (String × List Char))
  | [] => .ok []
  | (k, v) :: rest => do return (k, ← dumps v) :: (← dumpsItems rest)

end

mutual

/-- A value that `json.loads` returns: it reads no int with more digits than the limit. -/
def Loaded : Json → Prop
  | int n => (Nat.toDigits 10 n.natAbs).length ≤ maxStrDigits
  | list xs => AllLoaded xs
  | dict kvs => ItemsLoaded kvs
  | _ => True

/-- Values that `json.loads` returns. -/
def AllLoaded : List Json → Prop
  | [] => True
  | v :: vs => Loaded v ∧ AllLoaded vs

/-- Items that `json.loads` returns. -/
def ItemsLoaded : List (String × Json) → Prop
  | [] => True
  | (_, v) :: rest => Loaded v ∧ ItemsLoaded rest

end

/-- Each of them is one. -/
theorem allLoaded_iff {xs : List Json} : AllLoaded xs ↔ ∀ x ∈ xs, x.Loaded := by
  induction xs with
  | nil => simp [AllLoaded]
  | cons x xs ih => rw [AllLoaded, ih, List.forall_mem_cons]

/-- An int of a value that `json.loads` returns has a text. -/
theorem intText_ok {n : ℤ} (h : (int n).Loaded) : ∃ text, intText n = .ok text := by
  have hlength : ¬maxStrDigits < (Nat.toDigits 10 n.natAbs).length := not_lt.mpr h
  unfold intText
  dsimp only
  rw [if_neg hlength]
  exact ⟨_, rfl⟩

mutual

/-- It has a `repr`. -/
theorem repr_ok (v : Json) (h : v.Loaded) : ∃ text, v.repr = .ok text := by
  cases v with
  | int n =>
    obtain ⟨text, htext⟩ := intText_ok h
    exact ⟨_, by rw [repr, htext]; rfl⟩
  | list xs =>
    obtain ⟨texts, htexts⟩ := reprAll_ok xs h
    exact ⟨_, by rw [repr, htexts]; rfl⟩
  | dict kvs =>
    obtain ⟨texts, htexts⟩ := reprItems_ok kvs h
    exact ⟨_, by rw [repr, htexts]; rfl⟩
  | _ => exact ⟨_, rfl⟩

/-- So have values. -/
theorem reprAll_ok (vs : List Json) (h : AllLoaded vs) : ∃ texts, reprAll vs = .ok texts := by
  cases vs with
  | nil => exact ⟨[], rfl⟩
  | cons v vs =>
    obtain ⟨text, htext⟩ := repr_ok v h.1
    obtain ⟨texts, htexts⟩ := reprAll_ok vs h.2
    exact ⟨_, by rw [reprAll, htext, htexts]; rfl⟩

/-- So have items. -/
theorem reprItems_ok (kvs : List (String × Json)) (h : ItemsLoaded kvs) : ∃ texts, reprItems kvs = .ok texts := by
  cases kvs with
  | nil => exact ⟨[], rfl⟩
  | cons item rest =>
    obtain ⟨k, v⟩ := item
    obtain ⟨text, htext⟩ := repr_ok v h.1
    obtain ⟨texts, htexts⟩ := reprItems_ok rest h.2
    exact ⟨_, by rw [reprItems, htext, htexts]; rfl⟩

end

mutual

/-- It has a JSON text. -/
theorem dumps_ok (v : Json) (h : v.Loaded) : ∃ text, v.dumps = .ok text := by
  cases v with
  | int n => exact intText_ok h
  | list xs =>
    obtain ⟨texts, htexts⟩ := dumpsAll_ok xs h
    exact ⟨_, by rw [dumps, htexts]; rfl⟩
  | dict kvs =>
    obtain ⟨texts, htexts⟩ := dumpsItems_ok kvs h
    exact ⟨_, by rw [dumps, htexts]; rfl⟩
  | _ => exact ⟨_, rfl⟩

/-- So have values. -/
theorem dumpsAll_ok (vs : List Json) (h : AllLoaded vs) : ∃ texts, dumpsAll vs = .ok texts := by
  cases vs with
  | nil => exact ⟨[], rfl⟩
  | cons v vs =>
    obtain ⟨text, htext⟩ := dumps_ok v h.1
    obtain ⟨texts, htexts⟩ := dumpsAll_ok vs h.2
    exact ⟨_, by rw [dumpsAll, htext, htexts]; rfl⟩

/-- So have items. -/
theorem dumpsItems_ok (kvs : List (String × Json)) (h : ItemsLoaded kvs) : ∃ texts, dumpsItems kvs = .ok texts := by
  cases kvs with
  | nil => exact ⟨[], rfl⟩
  | cons item rest =>
    obtain ⟨k, v⟩ := item
    obtain ⟨text, htext⟩ := dumps_ok v h.1
    obtain ⟨texts, htexts⟩ := dumpsItems_ok rest h.2
    exact ⟨_, by rw [dumpsItems, htext, htexts]; rfl⟩

end

/-- A step of a computation that did not raise. -/
theorem bind_ok {α β : Type} {x : Except Exc α} {f : α → Except Exc β} {y : β} (h : (x >>= f) = .ok y) :
    ∃ a, x = .ok a ∧ f a = .ok y := by
  cases x with
  | error e => cases h
  | ok a => exact ⟨a, rfl, h⟩

mutual

/-- What has a JSON text has no int with more digits than the limit. -/
theorem loaded_of_dumps (v : Json) {text : List Char} (h : v.dumps = .ok text) : v.Loaded := by
  cases v with
  | int n =>
    have htext : intText n = .ok text := h
    unfold intText at htext
    dsimp only at htext
    split at htext
    next => cases htext
    next hlength => exact not_lt.mp hlength
  | list xs =>
    cases htexts : dumpsAll xs with
    | error e =>
      rw [dumps, htexts] at h
      cases h
    | ok texts => exact allLoaded_of_dumpsAll xs htexts
  | dict kvs =>
    cases hitems : dumpsItems kvs with
    | error e =>
      rw [dumps, hitems] at h
      cases h
    | ok items => exact itemsLoaded_of_dumpsItems kvs hitems
  | _ => trivial

/-- So do values. -/
theorem allLoaded_of_dumpsAll (vs : List Json) {texts : List (List Char)} (h : dumpsAll vs = .ok texts) :
    AllLoaded vs := by
  cases vs with
  | nil => trivial
  | cons v vs =>
    obtain ⟨text, htext, h⟩ := bind_ok h
    obtain ⟨rest, hrest, -⟩ := bind_ok h
    exact ⟨loaded_of_dumps v htext, allLoaded_of_dumpsAll vs hrest⟩

/-- So do items. -/
theorem itemsLoaded_of_dumpsItems (kvs : List (String × Json)) {items : List (String × List Char)}
    (h : dumpsItems kvs = .ok items) : ItemsLoaded kvs := by
  cases kvs with
  | nil => trivial
  | cons item rest =>
    obtain ⟨k, v⟩ := item
    obtain ⟨text, htext, h⟩ := bind_ok h
    obtain ⟨texts, htexts, -⟩ := bind_ok h
    exact ⟨loaded_of_dumps v htext, itemsLoaded_of_dumpsItems rest htexts⟩

end

mutual

/-- A value without dictionaries. -/
def Plain : Json → Prop
  | list xs => AllPlain xs
  | dict _ => False
  | _ => True

/-- Values without dictionaries. -/
def AllPlain : List Json → Prop
  | [] => True
  | v :: vs => Plain v ∧ AllPlain vs

end

mutual

/-- What `json.loads` reads from the text of a value without dictionaries: a `nan` is its own. -/
def readBack : Json → Json
  | float (.nan _) => float (.nan 0)
  | list xs => list (readBackAll xs)
  | v => v

/-- What it reads from the texts of values. -/
def readBackAll : List Json → List Json
  | [] => []
  | v :: vs => readBack v :: readBackAll vs

end

mutual

/-- It is limited as the value is. -/
theorem loaded_readBack (v : Json) : v.readBack.Loaded ↔ v.Loaded := by
  cases v with
  | float x => cases x <;> exact Iff.rfl
  | list xs => exact allLoaded_readBackAll xs
  | _ => exact Iff.rfl

/-- They are limited as the values are. -/
theorem allLoaded_readBackAll (vs : List Json) : AllLoaded (readBackAll vs) ↔ AllLoaded vs := by
  cases vs with
  | nil => exact Iff.rfl
  | cons v vs => exact and_congr (loaded_readBack v) (allLoaded_readBackAll vs)

end

/-- Each value is read back on its own. -/
theorem readBackAll_eq_map (vs : List Json) : readBackAll vs = vs.map readBack := by
  induction vs with
  | nil => rfl
  | cons v vs ih => rw [readBackAll, ih, List.map_cons]

mutual

/-- Its text is that of the value. -/
theorem dumps_readBack (v : Json) : v.readBack.dumps = v.dumps := by
  cases v with
  | float x => cases x <;> rfl
  | list xs => rw [readBack, dumps, dumps, dumpsAll_readBackAll xs]
  | _ => rfl

/-- Their texts are those of the values. -/
theorem dumpsAll_readBackAll (vs : List Json) : dumpsAll (readBackAll vs) = dumpsAll vs := by
  cases vs with
  | nil => rfl
  | cons v vs => rw [readBackAll, dumpsAll, dumpsAll, dumps_readBack v, dumpsAll_readBackAll vs]

end

/-- The value of a hexadecimal digit. -/
def hexValue (c : Char) : ℕ := if c.toNat < 58 then c.toNat - 48 else c.toNat - 87

/-- The number that four hexadecimal digits denote. -/
def unhex : List Char → ℕ
  | [a, b, c, d] => 4096 * hexValue a + 256 * hexValue b + 16 * hexValue c + hexValue d
  | _ => 0

/-- The code of the character that a text in ASCII begins with. -/
def unescape : List Char → ℕ
  | '\\' :: 'u' :: rest =>
    let first := unhex (rest.take 4)
    if 0xD800 ≤ first ∧ first < 0xDC00 then 0x10000 + (first - 0xD800) * 0x400 + (unhex ((rest.drop 6).take 4) - 0xDC00)
    else first
  | '\\' :: 'n' :: _ => 10
  | '\\' :: 'r' :: _ => 13
  | '\\' :: 't' :: _ => 9
  | '\\' :: 'b' :: _ => 8
  | '\\' :: 'f' :: _ => 12
  | '\\' :: c :: _ => c.toNat
  | c :: _ => c.toNat
  | [] => 0

/-- A hexadecimal digit. -/
theorem hexValue_digitChar (n : ℕ) : hexValue (Nat.digitChar (n % 16)) = n % 16 := by
  have hdigits : ∀ k < 16, hexValue (Nat.digitChar k) = k := by decide
  exact hdigits _ (Nat.mod_lt _ (by decide))

/-- Four hexadecimal digits. -/
theorem unhex_hex {n : ℕ} (h : n < 0x10000) : unhex (hex n) = n := by
  simp only [hex, unhex, hexValue_digitChar]
  omega

/-- They are four. -/
theorem take_hex (n : ℕ) (rest : List Char) : (hex n ++ rest).take 4 = hex n := rfl

/-- A character is read back. -/
theorem unescape_escape (c : Char) (rest : List Char) : unescape (escape c ++ rest) = c.toNat := by
  unfold escape
  split_ifs with h1 h2 h3 h4 h5 h6 h7 h8 h9
  · rw [h1]; rfl
  · rw [h2]; rfl
  · rw [h3]; rfl
  · rw [h4]; rfl
  · rw [h5]; rfl
  · rw [h6]; rfl
  · rw [h7]; rfl
  · rw [List.singleton_append]
    unfold unescape
    split <;> simp_all
  · have hscalar : ¬(0xD800 ≤ c.toNat ∧ c.toNat < 0xDC00) := by
      have hvalid : c.toNat < 0xD800 ∨ 0xDFFF < c.toNat ∧ c.toNat < 0x110000 := c.valid
      omega
    simp only [List.cons_append, unescape, take_hex, unhex_hex h9, if_neg hscalar]
  · have hvalid : c.toNat < 0xD800 ∨ 0xDFFF < c.toNat ∧ c.toNat < 0x110000 := c.valid
    have hfirst : 0xD800 + (c.toNat - 0x10000) / 0x400 < 0xDC00 := by omega
    have hsecond : 0xDC00 + (c.toNat - 0x10000) % 0x400 < 0x10000 := by omega
    have hdrop (first : List Char) (n : ℕ) : (hex n ++ '\\' :: 'u' :: first).drop 6 = first := rfl
    simp only [List.cons_append, List.append_assoc, unescape, take_hex, hdrop,
      unhex_hex (Nat.lt_trans hfirst (by decide)),
      unhex_hex hsecond]
    rw [if_pos ⟨Nat.le_add_right _ _, hfirst⟩]
    omega

/-- Characters are told apart by the texts that begin with theirs. -/
theorem escape_append_inj {c d : Char} {xs ys : List Char} (h : escape c ++ xs = escape d ++ ys) : c = d ∧ xs = ys := by
  have hcode : c.toNat = d.toNat := by rw [← unescape_escape c xs, h, unescape_escape]
  obtain rfl := Char.toNat_inj.mp hcode
  exact ⟨rfl, List.append_cancel_left h⟩

/-- A quote is escaped. -/
theorem exists_escape_eq_cons (c : Char) : ∃ first rest, escape c = first :: rest ∧ first ≠ '"' := by
  unfold escape
  split_ifs with hquote
  case pos => exact ⟨'\\', _, rfl, by decide⟩
  all_goals first
    | exact ⟨'\\', _, rfl, by decide⟩
    | exact ⟨c, [], rfl, hquote⟩

/-- Strings are told apart by the texts that begin with theirs. -/
theorem flatMap_escape_inj {s t xs ys : List Char} (h : s.flatMap escape ++ '"' :: xs = t.flatMap escape ++ '"' :: ys) :
    s = t ∧ xs = ys := by
  induction s generalizing t with
  | nil =>
    cases t with
    | nil => exact ⟨rfl, (List.cons.inj h).2⟩
    | cons d t =>
      obtain ⟨first, rest, hfirst, hne⟩ := exists_escape_eq_cons d
      rw [List.flatMap_nil, List.flatMap_cons, hfirst] at h
      exact absurd (List.cons.inj h).1.symm hne
  | cons c s ih =>
    cases t with
    | nil =>
      obtain ⟨first, rest, hfirst, hne⟩ := exists_escape_eq_cons c
      rw [List.flatMap_nil, List.flatMap_cons, hfirst] at h
      exact absurd (List.cons.inj h).1 hne
    | cons d t =>
      rw [List.flatMap_cons, List.flatMap_cons, List.append_assoc, List.append_assoc] at h
      obtain ⟨rfl, hrest⟩ := escape_append_inj h
      obtain ⟨rfl, rfl⟩ := ih hrest
      exact ⟨rfl, rfl⟩

/-- The characters of a text that is no string, list or dictionary. -/
def isAtomChar (c : Char) : Bool := c.isAlpha || c.isDigit || c = '-' || c = '+' || c = '.'

/-- A value that is no string, list or dictionary. -/
def Atom : Json → Prop
  | null | bool _ | int _ | float _ => True
  | _ => False

/-- The value that such a text denotes. -/
def ofAtomText (text : List Char) : Json :=
  if text = "null".toList then null
  else if text = "true".toList then bool true
  else if text = "false".toList then bool false
  else if text = "Infinity".toList then float .posInf
  else if text = "-Infinity".toList then float .negInf
  else if text = "NaN".toList then float (.nan 0)
  else if '.' ∈ text ∨ 'e' ∈ text then float (.read text)
  else int (readInt text)

/-- A text of a number: a digit comes first, or second after a sign. -/
def NumberText (text : List Char) : Prop :=
  ∃ c rest, c.isDigit = true ∧ (text = c :: rest ∨ text = '-' :: c :: rest)

/-- It is none of the words. -/
theorem ofAtomText_of_numberText {text : List Char} (h : NumberText text) :
    ofAtomText text = if '.' ∈ text ∨ 'e' ∈ text then float (.read text) else int (readInt text) := by
  have hword (word : List Char) (hword : ∀ c rest, word = c :: rest ∨ word = '-' :: c :: rest → c.isDigit = false) :
      text ≠ word := by
    obtain ⟨c, rest, hdigit, htext⟩ := h
    rintro rfl
    rw [hword c rest htext] at hdigit
    cases hdigit
  unfold ofAtomText
  rw [if_neg (hword _ ?_), if_neg (hword _ ?_), if_neg (hword _ ?_), if_neg (hword _ ?_), if_neg (hword _ ?_),
    if_neg (hword _ ?_)]
  all_goals
    rintro c rest (heq | heq) <;> cases heq <;> decide

/-- The text of an int is read back. -/
theorem ofAtomText_intText {n : ℤ} {text : List Char} (h : intText n = .ok text) :
    ofAtomText text = int n ∧ ∀ c ∈ text, c.isDigit = true ∨ c = '-' := by
  have hdigits : ∀ c ∈ Nat.toDigits 10 n.natAbs, c.isDigit = true := fun c hc => isDigit_of_mem_toDigits hc
  obtain ⟨c, rest, hcons⟩ := List.exists_cons_of_ne_nil (@Nat.toDigits_ne_nil n.natAbs 10)
  have hc : c.isDigit = true := hdigits c (hcons ▸ List.mem_cons_self)
  have hfloat : ¬('.' ∈ Nat.toDigits 10 n.natAbs ∨ 'e' ∈ Nat.toDigits 10 n.natAbs) := by
    rintro (hpoint | hpower)
    · exact absurd (hdigits _ hpoint) (by decide)
    · exact absurd (hdigits _ hpower) (by decide)
  unfold intText at h
  dsimp only at h
  split at h
  · cases h
  · cases h
    split_ifs with hneg
    · constructor
      · rw [ofAtomText_of_numberText ⟨c, rest, hc, Or.inr (by rw [hcons])⟩, if_neg (by simpa using hfloat), readInt_neg]
        congr 1
        omega
      · intro d hd
        rcases List.mem_cons.mp hd with rfl | hd
        · exact Or.inr rfl
        · exact Or.inl (hdigits d hd)
    · constructor
      · rw [ofAtomText_of_numberText ⟨c, rest, hc, Or.inl hcons⟩, if_neg hfloat, readInt_toDigits]
        congr 1
        omega
      · exact fun d hd => Or.inl (hdigits d hd)

/-- The text of a float is read back. -/
theorem ofAtomText_floatText (x : Double) : ofAtomText (floatText x) = (float x).readBack := by
  cases x with
  | finite q h =>
    have hwritten := Double.decimal_written q
    obtain ⟨c, rest, htext, hc⟩ := hwritten.exists_text_eq_cons
    have hfloat : '.' ∈ (Double.finite q h).repr ∨ 'e' ∈ (Double.finite q h).repr := by
      rw [Double.repr]
      split_ifs
      · simpa using hwritten.mem_text_or
      · exact hwritten.mem_text_or
    have hnumber : NumberText (Double.finite q h).repr := by
      rw [Double.repr]
      split_ifs
      · exact ⟨c, rest, hc, Or.inr (by rw [htext])⟩
      · exact ⟨c, rest, hc, Or.inl htext⟩
    have htextOf : floatText (.finite q h) = (Double.finite q h).repr := rfl
    rw [htextOf, ofAtomText_of_numberText hnumber, if_pos hfloat, Double.read_repr h]
    rfl
  | posInf => rfl
  | negInf => rfl
  | nan => rfl

/-- The characters of the text of a float. -/
theorem isAtomChar_of_mem_floatText {x : Double} {c : Char} (h : c ∈ floatText x) : isAtomChar c = true := by
  have hatom (d : Char) (hd : d.isDigit = true ∨ d ∈ ['.', 'e', '-', '+']) : isAtomChar d = true := by
    rcases hd with hdigit | hsign
    · simp [isAtomChar, hdigit]
    · have hsigns : ∀ d ∈ ['.', 'e', '-', '+'], isAtomChar d = true := List.all_eq_true.mp (by decide)
      exact hsigns d hsign
  have hspecial {text : List Char} (hall : text.all isAtomChar = true) (hc : c ∈ text) : isAtomChar c = true :=
    List.all_eq_true.mp hall c hc
  cases x with
  | finite q hq =>
    have hwritten := Double.decimal_written q
    have htext : c ∈ (Double.finite q hq).repr := h
    rw [Double.repr] at htext
    split_ifs at htext
    · rcases List.mem_cons.mp htext with rfl | htext
      · rfl
      · exact hatom c (hwritten.mem_text htext)
    · exact hatom c (hwritten.mem_text htext)
  | posInf => exact hspecial (by decide) h
  | negInf => exact hspecial (by decide) h
  | nan object => exact @hspecial "NaN".toList (by decide) h

/-- A text of a value is not empty. -/
theorem intText_ne_nil {n : ℤ} {text : List Char} (h : intText n = .ok text) : text ≠ [] := by
  unfold intText at h
  dsimp only at h
  split at h
  · cases h
  · cases h
    split_ifs
    · exact List.cons_ne_nil _ _
    · exact Nat.toDigits_ne_nil

/-- A text of a value is not empty. -/
theorem floatText_ne_nil (x : Double) : floatText x ≠ [] := by
  cases x with
  | finite q h =>
    obtain ⟨c, rest, htext, -⟩ := (Double.decimal_written q).exists_text_eq_cons
    have htextOf : floatText (.finite q h) = (Double.finite q h).repr := rfl
    rw [htextOf, Double.repr]
    split_ifs
    · exact List.cons_ne_nil _ _
    · rw [htext]
      exact List.cons_ne_nil _ _
  | posInf => decide
  | negInf => decide
  | nan object => exact List.cons_ne_nil _ _

/-- A value that is no string, list or dictionary is read back, and its text has characters of its own. -/
theorem ofAtomText_dumps {v : Json} {text : List Char} (hatom : v.Atom) (h : v.dumps = .ok text) :
    ofAtomText text = v.readBack ∧ text ≠ [] ∧ ∀ c ∈ text, isAtomChar c = true := by
  cases v with
  | null =>
    cases h
    exact ⟨rfl, by decide, List.all_eq_true.mp (by decide)⟩
  | bool b =>
    cases h
    cases b
    · exact ⟨rfl, by decide, List.all_eq_true.mp (by decide)⟩
    · exact ⟨rfl, by decide, List.all_eq_true.mp (by decide)⟩
  | int n =>
    obtain ⟨hread, hchars⟩ := ofAtomText_intText h
    refine ⟨hread, intText_ne_nil h, fun c hc => ?_⟩
    rcases hchars c hc with hdigit | rfl
    · simp [isAtomChar, hdigit]
    · rfl
  | float x =>
    cases h
    exact ⟨ofAtomText_floatText x, floatText_ne_nil x, fun c hc => isAtomChar_of_mem_floatText hc⟩
  | str => cases hatom
  | list => cases hatom
  | dict => cases hatom

/-- What can follow the text of a value: it does not go on. -/
def Follows (rest : List Char) : Prop := ∀ c ∈ rest.head?, isAtomChar c = false

/-- A string begins with a quote, a list with a bracket, and other values with a character of theirs. -/
inductive Opens : Json → Char → Prop
  | str (s : String) : Opens (str s) '"'
  | list (xs : List Json) : Opens (list xs) '['
  | atom {v : Json} {c : Char} (hatom : v.Atom) (hc : isAtomChar c = true) : Opens v c

/-- The text of a list. -/
theorem dumps_list {xs : List Json} {text : List Char} (h : (list xs).dumps = .ok text) :
    ∃ texts, dumpsAll xs = .ok texts ∧ text = '[' :: (commas texts ++ [']']) := by
  unfold dumps at h
  cases hall : dumpsAll xs with
  | error e =>
    rw [hall] at h
    cases h
  | ok texts =>
    rw [hall] at h
    cases h
    exact ⟨texts, rfl, rfl⟩

/-- The texts of the elements of a list. -/
theorem dumpsAll_cons {v : Json} {vs : List Json} {texts : List (List Char)} (h : dumpsAll (v :: vs) = .ok texts) :
    ∃ first rest, v.dumps = .ok first ∧ dumpsAll vs = .ok rest ∧ texts = first :: rest := by
  unfold dumpsAll at h
  cases hfirst : v.dumps with
  | error e =>
    rw [hfirst] at h
    cases h
  | ok first =>
    cases hrest : dumpsAll vs with
    | error e =>
      rw [hfirst, hrest] at h
      cases h
    | ok rest =>
      rw [hfirst, hrest] at h
      cases h
      exact ⟨first, rest, rfl, rfl, rfl⟩

/-- The texts of the elements of a list that go on after one. -/
def after : List (List Char) → List Char → List Char
  | [], rest => ']' :: rest
  | text :: texts, rest => ',' :: (commas (text :: texts) ++ ']' :: rest)

/-- A text, and what comes after it. -/
theorem commas_cons (text : List Char) (texts : List (List Char)) (rest : List Char) :
    commas (text :: texts) ++ ']' :: rest = text ++ after texts rest := by
  cases texts with
  | nil => rfl
  | cons other texts => rw [commas, List.append_assoc, List.cons_append, after]

/-- The text itself has ended there. -/
theorem follows_after (texts : List (List Char)) (rest : List Char) : Follows (after texts rest) := by
  intro c hc
  cases texts <;> cases hc <;> rfl

/-- No value begins as a list ends. -/
theorem Opens.ne_bracket {v : Json} {c : Char} (h : Opens v c) : c ≠ ']' := by
  cases h with
  | str => decide
  | list => decide
  | atom _ hc =>
    rintro rfl
    exact absurd hc (by decide)

/-- How the text of a value begins. -/
theorem exists_opens {v : Json} {text : List Char} (hplain : v.Plain) (h : v.dumps = .ok text) :
    ∃ c rest, text = c :: rest ∧ Opens v c := by
  have hatom (hv : v.Atom) : ∃ c rest, text = c :: rest ∧ Opens v c := by
    obtain ⟨-, hne, hchars⟩ := ofAtomText_dumps hv h
    obtain ⟨c, rest, rfl⟩ := List.exists_cons_of_ne_nil hne
    exact ⟨c, rest, rfl, .atom hv (hchars c List.mem_cons_self)⟩
  cases v with
  | null => exact hatom trivial
  | bool => exact hatom trivial
  | int => exact hatom trivial
  | float => exact hatom trivial
  | str s =>
    cases h
    exact ⟨'"', _, rfl, .str s⟩
  | list xs =>
    obtain ⟨texts, -, rfl⟩ := dumps_list h
    exact ⟨'[', _, rfl, .list xs⟩
  | dict => cases hplain

/-- Other values are told apart by the texts that begin with theirs. -/
theorem dumps_atom_inj {v w : Json} {x y xs ys : List Char} (hv : v.Atom) (hw : w.Atom) (hx : v.dumps = .ok x)
    (hy : w.dumps = .ok y) (hxs : Follows xs) (hys : Follows ys) (h : x ++ xs = y ++ ys) :
    v.readBack = w.readBack ∧ xs = ys := by
  obtain ⟨hreadx, -, hcharsx⟩ := ofAtomText_dumps hv hx
  obtain ⟨hready, -, hcharsy⟩ := ofAtomText_dumps hw hy
  have hsame : x = y := by rw [← takeWhile_stop hcharsx hxs, h, takeWhile_stop hcharsy hys]
  subst hsame
  exact ⟨hreadx.symm.trans hready, List.append_cancel_left h⟩

/-- Values that begin alike are of one kind. -/
theorem Opens.same {v w : Json} {c : Char} (hv : Opens v c) (hw : Opens w c) :
    (∃ s t, v = .str s ∧ w = .str t) ∨ (∃ xs ys, v = .list xs ∧ w = .list ys) ∨ v.Atom ∧ w.Atom := by
  cases hv with
  | str s =>
    cases hw with
    | str t => exact Or.inl ⟨s, t, rfl, rfl⟩
    | atom _ hc => exact absurd hc (by decide)
  | list xs =>
    cases hw with
    | list ys => exact Or.inr (Or.inl ⟨xs, ys, rfl, rfl⟩)
    | atom _ hc => exact absurd hc (by decide)
  | atom hv hc =>
    cases hw with
    | str => exact absurd hc (by decide)
    | list => exact absurd hc (by decide)
    | atom hw => exact Or.inr (Or.inr ⟨hv, hw⟩)

mutual

/-- Values are told apart by the texts that begin with theirs. -/
theorem dumps_append_inj (v w : Json) {x y xs ys : List Char} (hv : v.Plain) (hw : w.Plain) (hx : v.dumps = .ok x)
    (hy : w.dumps = .ok y) (hxs : Follows xs) (hys : Follows ys) (h : x ++ xs = y ++ ys) :
    v.readBack = w.readBack ∧ xs = ys := by
  obtain ⟨c, restx, rfl, hopensx⟩ := exists_opens hv hx
  obtain ⟨d, resty, rfl, hopensy⟩ := exists_opens hw hy
  obtain rfl := (List.cons.inj h).1
  rcases hopensx.same hopensy with ⟨s, t, rfl, rfl⟩ | ⟨vs, ws, rfl, rfl⟩ | ⟨hatomx, hatomy⟩
  · cases hx
    cases hy
    rw [List.cons_append, List.cons_append] at h
    have hrest := (List.cons.inj h).2
    rw [List.append_assoc, List.append_assoc] at hrest
    obtain ⟨hsame, hrest⟩ := flatMap_escape_inj hrest
    rw [String.toList_inj.mp hsame]
    exact ⟨rfl, hrest⟩
  · obtain ⟨texts, htexts, hx⟩ := dumps_list hx
    obtain ⟨texts', htexts', hy⟩ := dumps_list hy
    rw [(List.cons.inj hx).2, (List.cons.inj hy).2, List.cons_append, List.cons_append] at h
    have hrest := (List.cons.inj h).2
    rw [List.append_assoc, List.append_assoc] at hrest
    obtain ⟨hsame, hrest⟩ := dumpsAll_append_inj vs ws hv hw htexts htexts' hrest
    exact ⟨congrArg list hsame, hrest⟩
  · exact dumps_atom_inj hatomx hatomy hx hy hxs hys h

/-- So are the elements of lists. -/
theorem dumpsAll_append_inj (vs ws : List Json) {texts texts' : List (List Char)} {xs ys : List Char} (hv : AllPlain vs)
    (hw : AllPlain ws) (hx : dumpsAll vs = .ok texts) (hy : dumpsAll ws = .ok texts')
    (h : commas texts ++ ']' :: xs = commas texts' ++ ']' :: ys) : readBackAll vs = readBackAll ws ∧ xs = ys := by
  cases vs with
  | nil =>
    cases hx
    cases ws with
    | nil =>
      cases hy
      exact ⟨rfl, (List.cons.inj h).2⟩
    | cons w ws =>
      obtain ⟨first, rest, hfirst, -, rfl⟩ := dumpsAll_cons hy
      obtain ⟨c, tail, rfl, hopens⟩ := exists_opens hw.1 hfirst
      rw [commas_cons] at h
      exact absurd (List.cons.inj h).1.symm hopens.ne_bracket
  | cons v vs =>
    obtain ⟨first, rest, hfirst, hrest, rfl⟩ := dumpsAll_cons hx
    cases ws with
    | nil =>
      cases hy
      obtain ⟨c, tail, rfl, hopens⟩ := exists_opens hv.1 hfirst
      rw [commas_cons] at h
      exact absurd (List.cons.inj h).1 hopens.ne_bracket
    | cons w ws =>
      obtain ⟨first', rest', hfirst', hrest', rfl⟩ := dumpsAll_cons hy
      rw [commas_cons, commas_cons] at h
      obtain ⟨hsame, hafter⟩ := dumps_append_inj v w hv.1 hw.1 hfirst hfirst' (follows_after _ _) (follows_after _ _) h
      have hmore : commas rest ++ ']' :: xs = commas rest' ++ ']' :: ys := by
        cases rest with
        | nil => cases rest' with
          | nil => exact hafter
          | cons => exact absurd (List.cons.inj hafter).1 (by decide)
        | cons => cases rest' with
          | nil => exact absurd (List.cons.inj hafter).1 (by decide)
          | cons => exact (List.cons.inj hafter).2
      obtain ⟨hlater, hend⟩ := dumpsAll_append_inj vs ws hv.2 hw.2 hrest hrest' hmore
      exact ⟨congrArg₂ List.cons hsame hlater, hend⟩

end

/-- Values without dictionaries have texts of their own, but for the objects that are `nan`. -/
theorem dumps_inj {v w : Json} {text : List Char} (hv : v.Plain) (hw : w.Plain) (hx : v.dumps = .ok text)
    (hy : w.dumps = .ok text) : v.readBack = w.readBack :=
  (dumps_append_inj v w hv hw hx hy (fun c hc => by cases hc) (fun c hc => by cases hc) (Eq.refl (text ++ []))).1

example : (list [int 1, float (.round 1), bool true, str "é"]).dumps.toOption.map String.ofList =
    some "[1,1.0,true,\"\\u00e9\"]" := by
  decide +kernel

end Json

end MyTeam.Py
