import MyTeam.Py.Json

/-!
# Declarative predicates

A predicate is a nested list, with an operator first, that tells whether a state has a property. `validate`
checks how a predicate is built; `evaluate` walks through it, in the scope of the state or of an element of one
of its lists, and `canonical` gives predicates that differ in notation the same form, from which the replay key
is computed. All three call themselves, and are given the number of calls, their own included, for which the stack
has room.
-/

namespace MyTeam.Legacy.Predicate

open MyTeam.Py

/-- The operators of comparisons. -/
inductive CmpOp where
  | eq
  | ne
  | lt
  | le
  | gt
  | ge
deriving DecidableEq

/-- The operators of predicates. -/
inductive PredicateOp where
  | cmp (op : CmpOp)
  | mem
  | all
  | any
  | exist
  | count
  | and
  | or
  | not
deriving DecidableEq

/-- The text of an operator. -/
def CmpOp.text : CmpOp → String
  | eq => "=="
  | ne => "!="
  | lt => "<"
  | le => "<="
  | gt => ">"
  | ge => ">="

/-- Membership in `_CMP_OPS`. -/
def CmpOp.ofText (text : String) : Option CmpOp :=
  [eq, ne, lt, le, gt, ge].find? fun op => op.text = text

namespace PredicateOp

/-- The text of an operator. -/
def text : PredicateOp → String
  | cmp op => op.text
  | mem => "in"
  | all => "all"
  | any => "any"
  | exist => "exists"
  | count => "count"
  | and => "and"
  | or => "or"
  | not => "not"

/-- Membership in `_KNOWN_OPS`. -/
def ofText (text : String) : Option PredicateOp :=
  ([CmpOp.eq, .ne, .lt, .le, .gt, .ge].map cmp ++ [mem, all, any, exist, count, and, or, not]).find? fun op =>
    op.text = text

/-- Its text tells an operator. -/
@[simp] theorem ofText_text (op : PredicateOp) : ofText op.text = some op := by
  cases op with
  | cmp op => cases op <;> decide +kernel
  | _ => decide +kernel

/-- Only its text tells it. -/
theorem text_of_ofText {name : String} {op : PredicateOp} (h : ofText name = some op) : op.text = name := by
  simpa using List.find?_some h

end PredicateOp

/-- Its text tells an operator. -/
@[simp] theorem CmpOp.ofText_text (op : CmpOp) : ofText op.text = some op := by
  cases op <;> decide +kernel

/-- Only its text tells it. -/
theorem CmpOp.text_of_ofText {name : String} {op : CmpOp} (h : ofText name = some op) : op.text = name := by
  simpa using List.find?_some h

/-- Why a predicate cannot be evaluated: what `PredicateTypeError` is raised about. -/
inductive TypeFault where
  | state (typeName : String)
  | node (shown : String)
  | arity (op needs : String)
  | notList (op field typeName : String)
  | comparator (shown : String)
  | container (op field typeName : String)
  | notNumber (op field typeName literalType : String)
  | unhashable (field shown : String)
deriving DecidableEq

/-- What evaluating, validating or parsing a predicate raises. -/
inductive Raised where
  | syntaxError (message : String)
  | typeError (fault : TypeFault)
  | escalation (message : String)
  | recursion
  | python (exc : Exc)
deriving DecidableEq

/-- The text of a `PredicateTypeError`. -/
def TypeFault.message : TypeFault → String
  | state typeName => s!"谓词状态必须是 dict，得到 {typeName}。"
  | node shown => s!"非法谓词节点 {shown}：L0 节点必须是操作符列表。"
  | arity op needs => s!"{op} {needs}。"
  | notList op field typeName => s!"{op} 的字段 {Value.reprStr field} 必须是列表，得到 {typeName}。"
  | comparator shown => s!"count 的比较运算符 {shown} 非法。"
  | container op field typeName =>
    s!"{op} 仅支持标量字段比较，字段 {Value.reprStr field} 是 {typeName}；列表字段请用 in/all/any/count。"
  | notNumber op field typeName literalType =>
    s!"{op} 仅支持数字比较，字段 {Value.reprStr field} 是 {typeName}，字面量是 {literalType}。"
  | unhashable field shown =>
    s!"in 集合成员必须是标量（str/int/float/bool），字段 {Value.reprStr field} 的值 {shown} 不可哈希。"

/-- `_ESCALATION_KEYWORDS`. -/
def escalationKeywords : List String :=
  ["socket", "http", "url", "open", "write", "time", "clock", "random", "import", "exec", "eval", "subprocess", "os.",
    "requests"]

/-- `_ESCALATION_HINT`. -/
def escalationHint : String :=
  "外部能力（网络/文件写/时钟/随机）属 L2，必须建模为 Tool/PendingOperation，不能伪装成 predicate（SPEC §3.4）。"

/-- `c.lower()`, as far as letters of ASCII come of it: of those outside, the sign of the kelvin. -/
def lowerChar (c : Char) : Char := if c.toNat = 0x212A then 'k' else c.toLower

/-- `_is_escalation_like`. -/
def isEscalationLike (op : String) : Bool :=
  escalationKeywords.any fun keyword => (op.toList.map lowerChar).tails.any keyword.toList.isPrefixOf

/-- `_escalation_message`. -/
def escalationMessage (op : String) : String :=
  let detected := if isEscalationLike op then s!"检测到疑似外部能力构造（{Value.reprStr op}）。" else "检测到疑似外部能力构造。"
  s!"操作符 {Value.reprStr op} 不属于 L0 声明式 DSL（有限语法：==/!=/</<=/>/>=/in/all/any/exists/count/and/or/not）。" ++
    s!"{detected} {escalationHint}"

/-- `_is_scalar`. -/
def isScalar : Json → Bool
  | .str _ | .int _ | .float _ | .bool _ => true
  | _ => false

/-- `_is_number`. -/
def isNumber : Json → Bool
  | .int _ | .float _ => true
  | _ => false

/-- Whether a value is a bool. -/
def isBool : Json → Bool
  | .bool _ => true
  | _ => false

/-- `_strict_eq`. -/
def strictEq (v w : Json) : Bool :=
  if isBool v || isBool w then isBool v && isBool w && v.eq w else v.eq w

/-- `_compare` of numbers. -/
def CmpOp.compare (op : CmpOp) (x y : Number) : Bool :=
  match op with
  | eq => Json.numberEq x y
  | ne => !Json.numberEq x y
  | lt => x.lt y
  | le => x.le y
  | gt => y.lt x
  | ge => y.le x

/-- What an operator needs after it. -/
def PredicateOp.needs : PredicateOp → String
  | and | or => "至少需要 1 个子谓词"
  | not => "需要恰好 1 个子谓词"
  | all | any => "需要 (field, predicate)"
  | exist => "需要 (field)"
  | count => "需要 (field, cmp, number)"
  | mem | cmp _ => "需要 (field, literal)"

/-- What is raised when something else comes after it. -/
def PredicateOp.malformed (op : PredicateOp) : Raised := .typeError (.arity op.text op.needs)

/-- What a path leads to. -/
def follow : Json → List String → Option Json
  | scope, [] => some scope
  | .dict kvs, part :: rest =>
    match kvs.find? fun item => item.1 = part with
    | some item => follow item.2 rest
    | none => none
  | _, _ => none

/-- The parts of a path. -/
def pathParts (path : String) : List String := (path.toList.splitOn '.').map String.ofList

/-- `_resolve`. -/
def resolve (scope path : Json) : Except Raised (Option Json) :=
  match path with
  | .str "." => .ok (some scope)
  | .str path => .ok (follow scope (pathParts path))
  | path => .error (.python (.attributeError s!"'{path.typeName}' object has no attribute 'split'"))

/-- A test of `in` for one member: that it is the value, or is equal to it. -/
def isMember (v m : Json) : Bool := v.same m || v.eq m

/-- `v in members`; `none` where that raises. -/
def contains (members v : Json) : Option Bool :=
  match members, v with
  | .list ms, v => some (ms.any (isMember v))
  | .str s, .str t => some (s.toList.tails.any t.toList.isPrefixOf)
  | .dict _, .list _ | .dict _, .dict _ => none
  | .dict kvs, v => some (kvs.any fun item => v.eq (.str item.1))
  | _, _ => none

/-- Membership of any value in `_CMP_OPS`, which needs a hash. -/
def cmpOf (cmp : Json) : Except Raised (Option CmpOp) :=
  match cmp with
  | .str text => .ok (CmpOp.ofText text)
  | .list _ | .dict _ => .error (.python (.typeError s!"unhashable type: '{cmp.typeName}'"))
  | _ => .ok none

/-- `repr(v)`, in a message. -/
def shown (v : Json) : Except Raised String := v.repr.mapError .python

/-- A comparison of the field of a scope with a value. -/
def evalLeaf (op : CmpOp) (f lit scope : Json) : Except Raised Bool := do
  match ← resolve scope f, f with
  | some v, .str field =>
    if op = .eq ∨ op = .ne then
      match v with
      | .dict _ | .list _ => .error (.typeError (.container op.text field v.typeName))
      | v => return if op = .eq then strictEq v lit else !strictEq v lit
    else
      match isNumber v, isNumber lit, v.number, lit.number with
      | true, true, some x, some y => return op.compare x y
      | _, _, _, _ => .error (.typeError (.notNumber op.text field v.typeName lit.typeName))
  | _, _ => return false

/-- A test whether the field of a scope is one of some values. -/
def evalMem (f members scope : Json) : Except Raised Bool := do
  match ← resolve scope f, f with
  | some v, .str field =>
    match contains members v with
    | some result => return result
    | none => .error (.typeError (.unhashable field (← shown v)))
  | _, _ => return false

/-- A test whether the field of a scope is there. -/
def evalExists (f scope : Json) : Except Raised Bool := do return (← resolve scope f).isSome

/-- A comparison of the length of the field of a scope with a number. -/
def evalCount (f cmp num scope : Json) : Except Raised Bool := do
  match ← resolve scope f, f with
  | some (.list xs), _ =>
    match ← cmpOf cmp, num.number with
    | none, _ => .error (.typeError (.comparator (← shown cmp)))
    | some op, some bound => return op.compare (.finite xs.length) bound
    | some _, none =>
      .error (.python (.typeError s!"'<' not supported between instances of 'int' and '{num.typeName}'"))
  | some v, .str field => .error (.typeError (.notList "count" field v.typeName))
  | _, _ => return false

/-- The elements of the field of a scope; `none` if it is not there. -/
def elements (op : String) (f scope : Json) : Except Raised (Option (List Json)) := do
  match ← resolve scope f, f with
  | some (.list xs), _ => return some xs
  | some v, .str field => .error (.typeError (.notList op field v.typeName))
  | _, _ => return none

/-- `all(...)`, up to the first that is not. -/
def allOf (test : Json → Except Raised Bool) : List Json → Except Raised Bool
  | [] => .ok true
  | x :: xs => do if ← test x then allOf test xs else return false

/-- `any(...)`, up to the first that is. -/
def anyOf (test : Json → Except Raised Bool) : List Json → Except Raised Bool
  | [] => .ok false
  | x :: xs => do if ← test x then return true else anyOf test xs

/-- The body of `eval_node` of `evaluate_traced`, without the steps that it records; `self` is a call of it. -/
def evalStep (self : Json → Json → Except Raised Bool) : Json → Json → Except Raised Bool
  | .list (.str name :: args), scope =>
    match PredicateOp.ofText name, args with
    | none, _ => .error (.escalation (escalationMessage name))
    | some .and, [] => .error PredicateOp.and.malformed
    | some .and, children => allOf (fun child => self child scope) children
    | some .or, [] => .error PredicateOp.or.malformed
    | some .or, children => anyOf (fun child => self child scope) children
    | some .not, [child] => do return !(← self child scope)
    | some .all, [f, child] => do
      match ← elements "all" f scope with
      | some xs => allOf (self child) xs
      | none => return false
    | some .any, [f, child] => do
      match ← elements "any" f scope with
      | some xs => anyOf (self child) xs
      | none => return false
    | some .exist, [f] => evalExists f scope
    | some .count, [f, cmp, num] => evalCount f cmp num scope
    | some .mem, [f, members] => evalMem f members scope
    | some (.cmp op), [f, lit] => evalLeaf op f lit scope
    | some op, _ => .error op.malformed
  | node, _ => do .error (.typeError (.node (← shown node)))

/-- `eval_node`. -/
def evalNode : ℕ → Json → Json → Except Raised Bool
  | 0, _, _ => .error .recursion
  | n + 1, node, scope => evalStep (evalNode n) node scope

/-- What `validate` has gathered. -/
structure Findings where
  errors : List String := []
  ops : List String := []
  fields : List String := []

/-- One more error. -/
def Findings.error (w : Findings) (message : String) : Findings := { w with errors := w.errors ++ [message] }

/-- One more operator. -/
def Findings.op (w : Findings) (op : String) : Findings := { w with ops := w.ops ++ [op] }

/-- One more field. -/
def Findings.field (w : Findings) (field : String) : Findings := { w with fields := w.fields ++ [field] }

/-- A character that a part of a path begins with. -/
def isPartStart (c : Char) : Bool := c.isAlpha || c = '_'

/-- A character of a part of a path. -/
def isPartChar (c : Char) : Bool := c.isAlphanum || c = '_'

/-- A part of a path. -/
def isPart : List Char → Bool
  | [] => false
  | c :: rest => isPartStart c && rest.all isPartChar

/-- `_FIELD_RE.match`: parts with points between them, and one end of line, which `$` lets pass. -/
def isFieldPath (f : String) : Bool :=
  let path := if f.toList.getLast? = some '\n' then f.toList.dropLast else f.toList
  (path.splitOn '.').all isPart

/-- `_check_field`. -/
def checkField (f : Json) (inQuant : Bool) (w : Findings) : Except Raised Findings := do
  match f with
  | .str field =>
    if field = "." then
      return if inQuant then w.field "." else w.error "'.' 只能用于 all/any 元素作用域内引用元素本身。"
    else if isFieldPath field then return w.field field
    else return w.error s!"非法字段路径 {Value.reprStr field}（点分标识符，如 a.b.c）。"
  | f => return w.error s!"字段路径必须是字符串，得到 {← shown f}。"

/-- The check of the members of a set, one after the other. -/
def checkMembers : List Json → Findings → Except Raised Findings
  | [], w => .ok w
  | m :: rest, w => do
    if isScalar m then checkMembers rest w
    else checkMembers rest (w.error s!"in 集合成员必须是标量（str/int/float/bool），得到 {← shown m}。")

/-- The check of a set. -/
def checkSet (members : Json) (w : Findings) : Except Raised Findings :=
  match members with
  | .list (m :: rest) => checkMembers (m :: rest) w
  | _ => .ok (w.error "in 的集合必须是非空字面量列表。")

/-- The check of the operator of a `count`. -/
def checkComparator (cmp : Json) (w : Findings) : Except Raised Findings := do
  match ← cmpOf cmp with
  | some _ => return w
  | none => return w.error s!"count 的比较运算符 {← shown cmp} 非法。"

/-- The check of the bound of a `count`. -/
def checkBound (num : Json) (w : Findings) : Except Raised Findings := do
  if isNumber num then return w else return w.error s!"count 的界必须是数字，得到 {← shown num}。"

/-- The check that the literal of a comparison is a scalar. -/
def checkScalar (op : CmpOp) (lit : Json) (w : Findings) : Except Raised Findings := do
  if isScalar lit then return w
  else return w.error s!"{op.text} 的字面量必须是标量（str/int/float/bool），得到 {← shown lit}。"

/-- The check that the literal of a comparison by order is a number. -/
def checkOrdered (op : CmpOp) (lit : Json) (w : Findings) : Except Raised Findings := do
  if op = .eq ∨ op = .ne ∨ isNumber lit then return w
  else return w.error s!"{op.text} 的字面量必须是数字，得到 {← shown lit}。"

/-- The body of `walk` of `validate`; `self` is a call of it. -/
def walkStep (self : Json → Bool → Findings → Except Raised Findings) : Json → Bool → Findings → Except Raised Findings
  | .list (.str name :: args), inQuant, w =>
    match PredicateOp.ofText name, args with
    | none, _ => .ok (w.error (escalationMessage name))
    | some .and, [] => .ok ((w.op name).error "and 至少需要 1 个子谓词。")
    | some .and, children => children.foldlM (fun w child => self child inQuant w) (w.op name)
    | some .or, [] => .ok ((w.op name).error "or 至少需要 1 个子谓词。")
    | some .or, children => children.foldlM (fun w child => self child inQuant w) (w.op name)
    | some .not, [child] => self child inQuant (w.op name)
    | some .not, _ => .ok ((w.op name).error "not 需要恰好 1 个子谓词。")
    | some .all, [f, child] => do self child true (← checkField f inQuant (w.op name))
    | some .any, [f, child] => do self child true (← checkField f inQuant (w.op name))
    | some .exist, [f] => checkField f inQuant (w.op name)
    | some .count, [f, cmp, num] => do checkBound num (← checkComparator cmp (← checkField f inQuant (w.op name)))
    | some .mem, [f, members] => do checkSet members (← checkField f inQuant (w.op name))
    | some .mem, _ => .ok ((w.op name).error "in 需要 (field, set)。")
    | some (.cmp op), [f, lit] => do checkOrdered op lit (← checkScalar op lit (← checkField f inQuant (w.op name)))
    | some op, _ => .ok ((w.op name).error s!"{op.text} {op.needs}。")
  | node, _, w => do return w.error s!"非法谓词节点 {← shown node}：L0 节点必须是操作符列表。"

/-- `walk`. -/
def walk : ℕ → Json → Bool → Findings → Except Raised Findings
  | 0, _, _, _ => .error .recursion
  | n + 1, node, inQuant, w => walkStep (walk n) node inQuant w

/-- The values that a `for` loop visits. -/
def iterate : Json → Except Raised (List Json)
  | .list xs => .ok xs
  | .str s => .ok (s.toList.map fun c => .str c.toString)
  | .dict kvs => .ok (kvs.map fun item => .str item.1)
  | v => .error (.python (.typeError s!"'{v.typeName}' object is not iterable"))

/-- `uniq` of `canonical`: the members of a set under their texts, each text once. -/
def uniq : List Json → Except Raised (List (List Char × Json))
  | [] => .ok []
  | m :: rest => do
    let text ← m.dumps.mapError .python
    let items ← uniq rest
    return if items.any fun item => item.1 = text then items else (text, m) :: items

/-- The members of a set in the order of their texts. -/
def canonicalSet (members : Json) : Except Raised Json := do
  let items ← uniq (← iterate members)
  return .list ((items.mergeSort fun x y => x.1 ≤ y.1).map Prod.snd)

/-- A child of `and` or `or`, of which the children of the same operator take the place. -/
def splice (op : String) : Json → List Json
  | .list (.str name :: args) => if name = op then args else [.list (.str name :: args)]
  | child => [child]

/-- The body of `canonical`, with lists for its tuples; `self` is a call of it, and `generate` those that a generator
makes. -/
def canonicalStep (self : Json → Except Raised Json) (generate : List Json → Except Raised (List Json)) :
    Json → Except Raised Json
  | .list (.str "in" :: [f, members]) => do return .list [.str "in", f, ← canonicalSet members]
  | .list (.str name :: args) => do
    if name = "and" ∨ name = "or" then return .list (.str name :: (← args.mapM self).flatMap (splice name))
    else return .list (← generate (.str name :: args))
  | .list xs => do return .list (← generate xs)
  | v => .ok v

mutual

/-- `canonical`. -/
def canonical : ℕ → Json → Except Raised Json
  | 0, _ => .error .recursion
  | n + 1, node => canonicalStep (canonical n) (generated n) node

/-- The generator of `canonical`, which is a call as well. -/
def generated : ℕ → List Json → Except Raised (List Json)
  | 0, _ => .error .recursion
  | n + 1, xs => xs.mapM (canonical n)

end

/-- The text that the replay key of a node is computed from. -/
def canonicalJson (n : ℕ) (node : Json) : Except Raised (List Char) := do (← canonical n node).dumps.mapError .python

end MyTeam.Legacy.Predicate
