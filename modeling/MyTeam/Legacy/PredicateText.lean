import MyTeam.Legacy.Predicate

/-!
# Predicates in texts

A text is cut into tokens, from which the parser builds a predicate by recursive descent. The methods that call each
other are given the number of calls for which the stack has room; a loop runs as often as there are tokens at most.
-/

namespace MyTeam.Legacy.Predicate

open MyTeam.Py

/-- The kinds of tokens, in the order in which they are tried. -/
inductive TokenKind where
  | ws
  | lparen
  | rparen
  | lbrace
  | rbrace
  | comma
  | cmp
  | num
  | str
  | word
deriving DecidableEq

/-- The name of the group that matches a token. -/
def TokenKind.name : TokenKind → String
  | ws => "ws"
  | lparen => "lparen"
  | rparen => "rparen"
  | lbrace => "lbrace"
  | rbrace => "rbrace"
  | comma => "comma"
  | cmp => "cmp"
  | num => "num"
  | str => "str"
  | word => "word"

/-- A token. -/
structure Token where
  kind : TokenKind
  text : List Char
deriving DecidableEq

/-- `repr` of a token, a pair of its kind and its text. -/
def Token.repr (t : Token) : String :=
  s!"({Value.reprStr t.kind.name}, {Value.reprStr (String.ofList t.text)})"

/-- `\s`. -/
def isSpace (c : Char) : Bool :=
  let n := c.toNat
  (9 ≤ n && n ≤ 13) || (28 ≤ n && n ≤ 32) || n = 0x85 || n = 0xA0 || n = 0x1680 || (0x2000 ≤ n && n ≤ 0x200A) ||
    n = 0x2028 || n = 0x2029 || n = 0x202F || n = 0x205F || n = 0x3000

/-- A character that a word begins with. -/
def isWordStart (c : Char) : Bool := c.isAlpha || c = '_' || c = '.'

/-- A character of a word. -/
def isWordChar (c : Char) : Bool := c.isAlphanum || c = '_' || c = '.'

/-- `\d+`, and the rest. -/
def spanDigits (text : List Char) : Option (List Char × List Char) :=
  match text.span isDigit with
  | ([], _) => none
  | (digits, rest) => some (digits, rest)

/-- `(?:\.\d+)?`, and the rest. -/
def spanFraction : List Char → List Char × List Char
  | '.' :: text =>
    match spanDigits text with
    | some (digits, rest) => ('.' :: digits, rest)
    | none => ([], '.' :: text)
  | text => ([], text)

/-- `[+-]?`, and the rest. -/
def spanSign : List Char → List Char × List Char
  | '+' :: text => (['+'], text)
  | '-' :: text => (['-'], text)
  | text => ([], text)

/-- `(?:[eE][+-]?\d+)?`, and the rest. -/
def spanPower (text : List Char) : List Char × List Char :=
  match text with
  | c :: rest =>
    if c = 'e' ∨ c = 'E' then
      match spanDigits (spanSign rest).2 with
      | some (digits, after) => (c :: ((spanSign rest).1 ++ digits), after)
      | none => ([], text)
    else ([], text)
  | [] => ([], [])

/-- The number that a text begins with, without its sign. -/
def spanUnsigned (text : List Char) : Option (List Char × List Char) := do
  let (whole, rest) ← spanDigits text
  let (fraction, rest) := spanFraction rest
  let (power, rest) := spanPower rest
  return (whole ++ (fraction ++ power), rest)

/-- The number that a text begins with. -/
def spanNumber : List Char → Option (List Char × List Char)
  | '-' :: text => (spanUnsigned text).map fun found => ('-' :: found.1, found.2)
  | text => spanUnsigned text

/-- The rest of a string up to its closing quote, and what comes after it. No end of line follows a backslash. -/
def spanString (quote : Char) : List Char → Option (List Char × List Char)
  | [] => none
  | '\\' :: rest =>
    match rest with
    | [] => none
    | c :: rest => if c = '\n' then none else (spanString quote rest).map fun found => ('\\' :: c :: found.1, found.2)
  | c :: rest =>
    if c = quote then some ([c], rest) else (spanString quote rest).map fun found => (c :: found.1, found.2)

/-- `_TOKEN_RE.match`: the token that a text begins with, and the rest. -/
def nextToken : List Char → Option (Token × List Char)
  | [] => none
  | c :: rest =>
    if isSpace c then some (⟨.ws, (c :: rest).takeWhile isSpace⟩, (c :: rest).dropWhile isSpace)
    else if c = '(' then some (⟨.lparen, [c]⟩, rest)
    else if c = ')' then some (⟨.rparen, [c]⟩, rest)
    else if c = '{' then some (⟨.lbrace, [c]⟩, rest)
    else if c = '}' then some (⟨.rbrace, [c]⟩, rest)
    else if c = ',' then some (⟨.comma, [c]⟩, rest)
    else if (c = '=' ∨ c = '!' ∨ c = '<' ∨ c = '>') ∧ rest.head? = some '=' then some (⟨.cmp, [c, '=']⟩, rest.drop 1)
    else if c = '<' ∨ c = '>' then some (⟨.cmp, [c]⟩, rest)
    else match spanNumber (c :: rest) with
      | some (text, after) => some (⟨.num, text⟩, after)
      | none =>
        if c = '"' ∨ c = '\'' then (spanString c rest).map fun found => (⟨.str, c :: found.1⟩, found.2)
        else if isWordStart c then some (⟨.word, (c :: rest).takeWhile isWordChar⟩, (c :: rest).dropWhile isWordChar)
        else none

/-- `_tokenize`, from a position on, with so many tokens at most. -/
def tokenizeFrom : ℕ → ℕ → List Char → Except Raised (List Token)
  | 0, _, _ => .error .recursion
  | _ + 1, _, [] => .ok []
  | n + 1, position, c :: text =>
    match nextToken (c :: text) with
    | none => .error (.syntaxError s!"无法解析的字符 {Value.reprStr (String.ofList [c])}（位置 {position}）。")
    | some (token, rest) => do
      let tokens ← tokenizeFrom n (position + token.text.length) rest
      return if token.kind = .ws then tokens else token :: tokens

/-- `_tokenize`. -/
def tokenize (text : List Char) : Except Raised (List Token) := tokenizeFrom (text.length + 1) 0 text

/-- `_unescape`. -/
def unescape : List Char → List Char
  | [] => []
  | '\\' :: c :: rest =>
    (if c = 'n' then '\n' else if c = 't' then '\t' else if c = 'r' then '\r' else c) :: unescape rest
  | c :: rest => c :: unescape rest

/-- `_next`. A parser returns what it has read, and the tokens that are left. -/
def next : List Token → Except Raised (Token × List Token)
  | [] => .error (.syntaxError "谓词意外结束（L0 语法不完整）。")
  | t :: toks => .ok (t, toks)

/-- `_expect`. -/
def expect (kind : TokenKind) (toks : List Token) : Except Raised (Token × List Token) := do
  let (t, toks) ← next toks
  if t.kind = kind then return (t, toks) else .error (.syntaxError s!"期望 {kind.name}，得到 {t.repr}。")

/-- Whether a token comes next. -/
def peeks (toks : List Token) (p : Token → Bool) : Bool := toks.head?.any p

/-- Whether a token is a word. -/
def Token.is (t : Token) (word : String) : Bool := t.kind = .word && t.text = word.toList

/-- `_parse_field`. -/
def parseField (toks : List Token) : Except Raised (Json × List Token) := do
  let (t, toks) ← next toks
  if t.kind ≠ .word then .error (.syntaxError s!"期望字段路径，得到 {t.repr}。")
  else if String.ofList t.text ≠ "." ∧ !isFieldPath (String.ofList t.text) then
    .error (.syntaxError s!"非法字段路径 {Value.reprStr (String.ofList t.text)}（点分标识符，如 a.b.c）。")
  else return (.str (String.ofList t.text), toks)

/-- `_parse_cmp`. -/
def parseCmp (toks : List Token) : Except Raised (Json × List Token) := do
  let (t, toks) ← next toks
  if t.kind = .cmp then return (.str (String.ofList t.text), toks)
  else .error (.syntaxError s!"期望比较运算符（==/!=/</<=/>/>=），得到 {t.repr}。")

/-- `float(s) if "." in s or "e" in s or "E" in s else int(s)`. -/
def numberOf (text : List Char) : Except Raised Json :=
  if '.' ∈ text ∨ 'e' ∈ text ∨ 'E' ∈ text then .ok (.float (.read text))
  else if maxStrDigits < (text.filter isDigit).length then
    .error (.python (.valueError ("Exceeds the limit (4300 digits) for integer string conversion: " ++
      s!"value has {(text.filter isDigit).length} digits; use sys.set_int_max_str_digits() to increase the limit")))
  else .ok (.int (readInt text))

/-- `_parse_number`. -/
def parseNumber (toks : List Token) : Except Raised (Json × List Token) := do
  let (t, toks) ← next toks
  if t.kind = .num then return (← numberOf t.text, toks)
  else .error (.syntaxError s!"期望数字，得到 {t.repr}。")

/-- `_parse_literal`. -/
def parseLiteral (toks : List Token) : Except Raised (Json × List Token) := do
  let (t, toks) ← next toks
  if t.kind = .str then return (.str (String.ofList (unescape (t.text.drop 1).dropLast)), toks)
  else if t.kind = .num then return (← numberOf t.text, toks)
  else if t.is "true" then return (.bool true, toks)
  else if t.is "false" then return (.bool false, toks)
  else .error (.syntaxError (s!"期望字面量（字符串/数字/true/false），得到 {t.repr}；" ++
    "L0 字面量不支持 null/容器/裸标识符（集合成员请用引号，如 status in \x7b\"done\"\x7d）。"))

/-- The members of a set, with commas between them, so many at most. -/
def parseMembers : ℕ → List Token → Except Raised (List Json × List Token)
  | 0, _ => .error .recursion
  | n + 1, toks => do
    let (m, toks) ← parseLiteral toks
    if peeks toks fun t => t.kind = .comma then
      let (ms, toks) ← parseMembers n (toks.drop 1)
      return (m :: ms, toks)
    else return ([m], toks)

/-- `_looks_like_call`. -/
def looksLikeCall (toks : List Token) : Bool := peeks (toks.drop 1) fun t => t.kind = .lparen

/-- A comparison or a set, after nothing else fits. -/
def parseTest (toks : List Token) : Except Raised (Json × List Token) := do
  let (f, toks) ← parseField toks
  if peeks toks fun t => t.is "in" then
    let (_, toks) ← expect .lbrace (toks.drop 1)
    let (members, toks) ← parseMembers (toks.length + 1) toks
    let (_, toks) ← expect .rbrace toks
    return (.list [.str "in", f, .list members], toks)
  else
    let (cmp, toks) ← parseCmp toks
    let (lit, toks) ← parseLiteral toks
    return (.list [cmp, f, lit], toks)

/-- A call of `exists`. -/
def parseExists (toks : List Token) : Except Raised (Json × List Token) := do
  let (_, toks) ← expect .lparen (toks.drop 1)
  let (f, toks) ← parseField toks
  let (_, toks) ← expect .rparen toks
  return (.list [.str "exists", f], toks)

/-- A call of `count`. -/
def parseCount (toks : List Token) : Except Raised (Json × List Token) := do
  let (_, toks) ← expect .lparen (toks.drop 1)
  let (f, toks) ← parseField toks
  let (_, toks) ← expect .rparen toks
  let (cmp, toks) ← parseCmp toks
  let (num, toks) ← parseNumber toks
  return (.list [.str "count", f, cmp, num], toks)

/-- The operators of a chain, and the terms after them, so many at most; `term` is a call of `_parse_term`. -/
def parseOps (term : List Token → Except Raised (Json × List Token)) :
    ℕ → Json → List Token → Except Raised (Json × List Token)
  | 0, _, _ => .error .recursion
  | _ + 1, node, [] => .ok (node, [])
  | fuel + 1, node, t :: toks => do
    if t.is "and" || t.is "or" then
      let (next, toks) ← term toks
      parseOps term fuel (.list [.str (String.ofList t.text), node, next]) toks
    else return (node, t :: toks)

/-- The predicates of a call, with commas between them, so many at most; `chain` is a call of `_parse_chain`. -/
def parsePreds (chain : List Token → Except Raised (Json × List Token)) :
    ℕ → List Token → Except Raised (List Json × List Token)
  | 0, _ => .error .recursion
  | fuel + 1, toks => do
    let (node, toks) ← chain toks
    if peeks toks fun t => t.kind = .comma then
      let (nodes, toks) ← parsePreds chain fuel (toks.drop 1)
      return (node :: nodes, toks)
    else return ([node], toks)

/-- The body of `_parse_atom`; `chain` is a call of `_parse_chain`. -/
def parseAtomStep (chain : List Token → Except Raised (Json × List Token)) (toks : List Token) :
    Except Raised (Json × List Token) := do
  match toks with
  | [] => .error (.syntaxError "谓词意外结束（L0 语法不完整）。")
  | t :: rest =>
    if t.kind = .lparen then
      let (node, toks) ← chain rest
      let (_, toks) ← expect .rparen toks
      return (node, toks)
    else if t.kind ≠ .word then .error (.syntaxError s!"期望谓词，得到 {t.repr}。")
    else if (t.is "and" || t.is "or") && looksLikeCall toks then
      let (_, toks) ← expect .lparen rest
      let (preds, toks) ← parsePreds chain (toks.length + 1) toks
      let (_, toks) ← expect .rparen toks
      return (.list (.str (String.ofList t.text) :: preds), toks)
    else if (t.is "all" || t.is "any") && looksLikeCall toks then
      let (_, toks) ← expect .lparen rest
      let (f, toks) ← parseField toks
      let (_, toks) ← expect .comma toks
      let (node, toks) ← chain toks
      let (_, toks) ← expect .rparen toks
      return (.list [.str (String.ofList t.text), f, node], toks)
    else if t.is "exists" && looksLikeCall toks then parseExists toks
    else if t.is "count" && looksLikeCall toks then parseCount toks
    else parseTest toks

mutual

/-- `_parse_chain`. -/
def parseChain : ℕ → List Token → Except Raised (Json × List Token)
  | 0, _ => .error .recursion
  | n + 1, toks => do
    let (node, rest) ← parseTerm n toks
    parseOps (parseTerm n) (toks.length + 1) node rest

/-- `_parse_term`. -/
def parseTerm : ℕ → List Token → Except Raised (Json × List Token)
  | 0, _ => .error .recursion
  | n + 1, toks => do
    if peeks toks fun t => t.is "not" then
      let (node, toks) ← parseTerm n (toks.drop 1)
      return (.list [.str "not", node], toks)
    else parseAtom n toks

/-- `_parse_atom`. -/
def parseAtom : ℕ → List Token → Except Raised (Json × List Token)
  | 0, _ => .error .recursion
  | n + 1, toks => parseAtomStep (parseChain n) toks

end

/-- `_Parser.parse`. -/
def parseTokens : ℕ → List Token → Except Raised Json
  | 0, _ => .error .recursion
  | n + 1, toks => do
    let (node, rest) ← parseChain n toks
    match rest with
    | [] => return node
    | t :: _ => .error (.syntaxError s!"多余的 token {t.repr}：L0 谓词应为单一表达式。")

/-- `parse`. -/
def parse : ℕ → String → Except Raised Json
  | 0, _ => .error .recursion
  | n + 1, text =>
    if text.toList.all isSpace then .error (.syntaxError ("空谓词：L0 谓词不能为空。" ++ escalationHint))
    else
      match tokenize text.toList >>= parseTokens n with
      | .error (.syntaxError message) => .error (.syntaxError
        (s!"{message} L0 语法有限（字段比较/in/all/any/exists/count/and/or/not）；" ++ escalationHint))
      | result => result

/-- What `validate` returns. -/
structure Validation where
  ok : Bool
  errors : List String := []
  level : String := "L0"
  replayKey : String := ""
  ops : List String := []
  fields : List String := []
deriving DecidableEq

/-- What `evaluate_traced` returns, without the steps. -/
structure Evaluation where
  value : Bool
  replayKey : String
deriving DecidableEq

section Entry

variable (sha256 : List Char → String)

/-- `replay_key` of a node. -/
def replayKey : ℕ → Json → Except Raised String
  | 0, _ => .error .recursion
  | n + 1, node => do return sha256 (← canonicalJson n node)

/-- What `validate` does with a node. -/
def validateNode (n : ℕ) (node : Json) : Except Raised Validation := do
  let found ← walk n node false {}
  if found.errors ≠ [] then return { ok := false, errors := found.errors }
  else return { ok := true, replayKey := ← replayKey sha256 n node, ops := found.ops, fields := found.fields.eraseDups }

/-- `validate` of a node or a text. -/
def validate : ℕ → Json → Except Raised Validation
  | 0, _ => .error .recursion
  | n + 1, .str text =>
    match parse n text with
    | .ok node => validateNode sha256 n node
    | .error (.syntaxError message) => .ok { ok := false, errors := [message] }
    | .error raised => .error raised
  | n + 1, node => validateNode sha256 n node

/-- `evaluate_traced`. -/
def evaluateTraced : ℕ → Json → Json → Except Raised Evaluation
  | 0, _, _ => .error .recursion
  | n + 1, node, state =>
    match state with
    | .dict _ => do return { value := ← evalNode n node state, replayKey := ← replayKey sha256 n node }
    | _ => .error (.typeError (.state state.typeName))

/-- `evaluate` of a node or a text. -/
def evaluate : ℕ → Json → Json → Except Raised Bool
  | 0, _, _ => .error .recursion
  | n + 1, .str text, state => do return (← evaluateTraced sha256 n (← parse n text) state).value
  | n + 1, node, state => do return (← evaluateTraced sha256 n node state).value

end Entry

end MyTeam.Legacy.Predicate
