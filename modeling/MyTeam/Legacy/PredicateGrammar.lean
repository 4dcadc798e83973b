import MyTeam.Legacy.PredicateForm
import MyTeam.Legacy.PredicateText

/-!
# The grammar of predicates

The tokens that are written for a form: chains with operators between their terms, or calls with commas between
their predicates, and parentheses around either. The parser reads what the grammar derives, and stops where it ends,
if the stack has room for as many calls as the derivation is deep.
-/

namespace MyTeam.Legacy.Predicate

open MyTeam.Py

/-- A word. -/
def wordToken (word : String) : Token := ⟨.word, word.toList⟩

/-- A comparison. -/
def cmpToken (op : CmpOp) : Token := ⟨.cmp, op.text.toList⟩

/-- `(`. -/
def lparen : Token := ⟨.lparen, ['(']⟩

/-- `)`. -/
def rparen : Token := ⟨.rparen, [')']⟩

/-- `{`. -/
def lbrace : Token := ⟨.lbrace, ['{']⟩

/-- `}`. -/
def rbrace : Token := ⟨.rbrace, ['}']⟩

/-- `,`. -/
def comma : Token := ⟨.comma, [',']⟩

/-- A token that is written for a literal. -/
inductive Denotes : Token → Json → Prop
  | str (quote : Char) (inner : List Char) :
      Denotes ⟨.str, quote :: (inner ++ [quote])⟩ (.str (String.ofList (unescape inner)))
  | num {text : List Char} {v : Json} (h : numberOf text = .ok v) : Denotes ⟨.num, text⟩ v
  | bool (b : Bool) : Denotes (wordToken (if b then "true" else "false")) (.bool b)

/-- The tokens that are written for the members of a set. -/
inductive DenoteAll : List Json → List Token → Prop
  | one {t : Token} {m : Json} (h : Denotes t m) : DenoteAll [m] [t]
  | cons {t : Token} {m : Json} {ms : List Json} {toks : List Token} (h : Denotes t m) (hs : DenoteAll ms toks) :
    DenoteAll (m :: ms) (t :: comma :: toks)

/-- The element itself, or a path. -/
def IsField (field : String) : Prop := field = "." ∨ isFieldPath field = true

/-- The phrases of the grammar. -/
inductive Phrase where
  | chain (p : Form)
  | term (p : Form)
  | atom (p : Form)
  | preds (ps : List Form)

/-- The tokens that are written for a phrase, and the calls that it takes to read them, one in another. -/
inductive Derives : ℕ → Phrase → List Token → Prop
  | term {d : ℕ} {p : Form} {toks : List Token} (h : Derives d (.term p) toks) : Derives (d + 1) (.chain p) toks
  | op {d e : ℕ} {p q : Form} {toks toks' : List Token} (conj : Bool) (hp : Derives d (.chain p) toks)
    (hq : Derives e (.term q) toks') :
    Derives (max d (e + 1)) (.chain (.chain conj [p, q])) (toks ++ wordToken (chainOp conj).text :: toks')
  | atom {d : ℕ} {p : Form} {toks : List Token} (h : Derives d (.atom p) toks) : Derives (d + 1) (.term p) toks
  | not {d : ℕ} {p : Form} {toks : List Token} (h : Derives d (.term p) toks) :
    Derives (d + 1) (.term (.not p)) (wordToken "not" :: toks)
  | paren {d : ℕ} {p : Form} {toks : List Token} (h : Derives d (.chain p) toks) :
    Derives (d + 1) (.atom p) (lparen :: (toks ++ [rparen]))
  | call {d : ℕ} {ps : List Form} {toks : List Token} (conj : Bool) (h : Derives d (.preds ps) toks) :
    Derives (d + 1) (.atom (.chain conj ps)) (wordToken (chainOp conj).text :: lparen :: (toks ++ [rparen]))
  | quant {d : ℕ} {field : String} {p : Form} {toks : List Token} (every : Bool) (hfield : IsField field)
    (h : Derives d (.chain p) toks) : Derives (d + 1) (.atom (.quant every field p))
      (wordToken (quantOp every).text :: lparen :: wordToken field :: comma :: (toks ++ [rparen]))
  | present {field : String} (hfield : IsField field) :
    Derives 1 (.atom (.present field)) [wordToken "exists", lparen, wordToken field, rparen]
  | count {field : String} {bound : Json} {text : List Char} (op : CmpOp) (hfield : IsField field)
    (h : numberOf text = .ok bound) : Derives 1 (.atom (.count field op bound))
      [wordToken "count", lparen, wordToken field, rparen, cmpToken op, ⟨.num, text⟩]
  | compare {field : String} {lit : Json} {t : Token} (op : CmpOp) (hfield : IsField field) (hnot : field ≠ "not")
    (h : Denotes t lit) : Derives 1 (.atom (.compare op field lit)) [wordToken field, cmpToken op, t]
  | mem {field : String} {members : List Json} {toks : List Token} (hfield : IsField field) (hnot : field ≠ "not")
    (h : DenoteAll members toks) : Derives 1 (.atom (.mem field members))
      (wordToken field :: wordToken "in" :: lbrace :: (toks ++ [rbrace]))
  | one {d : ℕ} {p : Form} {toks : List Token} (h : Derives d (.chain p) toks) : Derives d (.preds [p]) toks
  | cons {d e : ℕ} {p : Form} {ps : List Form} {toks toks' : List Token} (h : Derives d (.chain p) toks)
    (hs : Derives e (.preds ps) toks') : Derives (max d e) (.preds (p :: ps)) (toks ++ comma :: toks')

/-- Whether an operator comes next. -/
def peeksOp (toks : List Token) : Bool := peeks toks fun t => t.is "and" || t.is "or"

/-- What is read if there is room on the stack. -/
def readIf {α : Type} (room : Prop) [Decidable room] (result : Except Raised α) : Except Raised α :=
  if room then result else .error .recursion

/-- The parser reads a phrase, whatever comes after it; after a chain it goes on with its operators. -/
def Phrase.ReadFrom (d : ℕ) : Phrase → List Token → Prop
  | chain p, toks => ∃ k < toks.length, ∀ n rest, parseChain n (toks ++ rest) =
      readIf (d ≤ n) (parseOps (parseTerm (n - 1)) ((toks ++ rest).length + 1 - k) p.node rest)
  | term p, toks => ∀ n rest, parseTerm n (toks ++ rest) = readIf (d ≤ n) (.ok (p.node, rest))
  | atom p, toks => ∀ n rest, parseAtom n (toks ++ rest) = readIf (d ≤ n) (.ok (p.node, rest))
  | preds ps, toks => ∀ n fuel rest, toks.length ≤ fuel → peeksOp rest = false →
      (peeks rest fun t => t.kind = .comma) = false →
        parsePreds (parseChain n) fuel (toks ++ rest) = readIf (d ≤ n) (.ok (Form.nodes ps, rest))

section Reading

variable {toks rest : List Token} {field : String} {lit : Json} {t : Token} {n d e : ℕ}

/-- The text of a word. -/
@[simp] theorem ofList_wordToken (word : String) : String.ofList (wordToken word).text = word := String.ofList_toList

/-- A word is that word. -/
@[simp] theorem is_wordToken (w word : String) : (wordToken w).is word = (w = word : Bool) := by
  unfold Token.is wordToken
  simp [String.toList_inj]

/-- A field is read. -/
theorem parseField_wordToken (h : IsField field) : parseField (wordToken field :: rest) = .ok (.str field, rest) := by
  have hpath : ¬(field ≠ "." ∧ (!isFieldPath field) = true) := by
    rcases h with hdot | hpath
    · exact fun hne => hne.1 hdot
    · rw [hpath]
      exact fun hne => absurd hne.2 (by decide)
  unfold parseField next
  rw [ok_bind]
  dsimp only
  rw [ofList_wordToken, if_neg (by simp [wordToken]), if_neg hpath]
  rfl

/-- A comparison is read. -/
theorem parseCmp_cmpToken (op : CmpOp) : parseCmp (cmpToken op :: rest) = .ok (.str op.text, rest) := by
  cases op <;> rfl

/-- A literal is read. -/
theorem parseLiteral_of_denotes (h : Denotes t lit) : parseLiteral (t :: rest) = .ok (lit, rest) := by
  cases h with
  | str quote inner =>
    change Except.ok (Json.str (String.ofList (unescape (inner ++ [quote]).dropLast)), rest) = _
    rw [List.dropLast_concat]
  | num h =>
    change (numberOf _ >>= fun v => Except.ok (v, rest)) = _
    rw [h]
    rfl
  | bool b => cases b <;> rfl

/-- A number is read. -/
theorem parseNumber_of_numberOf {text : List Char} (h : numberOf text = .ok lit) :
    parseNumber (⟨.num, text⟩ :: rest) = .ok (lit, rest) := by
  change (numberOf text >>= fun v => Except.ok (v, rest)) = _
  rw [h]
  rfl

/-- The members of a set are read. -/
theorem parseMembers_of_denoteAll {ms : List Json} (h : DenoteAll ms toks)
    (hstop : (peeks rest fun t => t.kind = .comma) = false) (hn : toks.length ≤ n) :
    parseMembers n (toks ++ rest) = .ok (ms, rest) := by
  induction h generalizing n with
  | one h =>
    obtain ⟨n, rfl⟩ := Nat.exists_eq_succ_of_ne_zero (Nat.pos_iff_ne_zero.mp hn)
    rw [List.cons_append, parseMembers, parseLiteral_of_denotes h, ok_bind]
    dsimp only [List.nil_append]
    rw [hstop]
    rfl
  | cons h hs ih =>
    rw [List.length_cons, List.length_cons] at hn
    obtain ⟨n, rfl⟩ := Nat.exists_eq_succ_of_ne_zero (by omega : n ≠ 0)
    rw [List.cons_append, parseMembers, parseLiteral_of_denotes h, ok_bind]
    change parseMembers n (_ ++ rest) >>= _ = _
    rw [ih (by omega)]
    rfl

/-- A token that is expected is there. -/
theorem expect_cons (t : Token) (rest : List Token) : expect t.kind (t :: rest) = .ok (t, rest) := by
  unfold expect next
  rw [ok_bind]
  dsimp only
  rw [if_pos rfl]
  rfl

/-- Where no operator comes next, the chain ends. -/
theorem parseOps_stop {term : List Token → Except Raised (Json × List Token)} {node : Json} (h : peeksOp rest = false) :
    parseOps term (n + 1) node rest = .ok (node, rest) := by
  cases rest with
  | nil => rfl
  | cons t rest =>
    have hop : (t.is "and" || t.is "or") = false := by simpa [peeksOp, peeks] using h
    rw [parseOps, hop, if_neg Bool.false_ne_true]
    rfl

/-- The operators of chains are words of their own. -/
theorem is_chainOp (conj : Bool) :
    ((wordToken (chainOp conj).text).is "and" || (wordToken (chainOp conj).text).is "or") = true := by
  cases conj <;> decide

/-- After an operator, the chain goes on. -/
theorem parseOps_op {term : List Token → Except Raised (Json × List Token)} {node : Json} (conj : Bool) :
    parseOps term (n + 1) node (wordToken (chainOp conj).text :: toks) = term toks >>= fun found =>
      parseOps term n (.list [.str (chainOp conj).text, node, found.1]) found.2 := by
  rw [parseOps, is_chainOp, if_pos rfl, ofList_wordToken]

/-- There are tokens. -/
theorem Derives.length_pos {phrase : Phrase} (h : Derives d phrase toks) : 0 < toks.length := by
  induction h <;> simp_all

/-- What is read is followed by something else. -/
theorem readIf_bind {α β : Type} {P : Prop} [Decidable P] (a : α) (f : α → Except Raised β) :
    readIf P (.ok a) >>= f = readIf P (f a) := by
  unfold readIf
  split_ifs <;> rfl

/-- There has to be room for both. -/
theorem readIf_readIf {α : Type} {P Q : Prop} [Decidable P] [Decidable Q] (x : Except Raised α) :
    readIf P (readIf Q x) = readIf (P ∧ Q) x := by
  unfold readIf
  split_ifs <;> simp_all

/-- A chain after which no operator comes. -/
theorem Phrase.ReadFrom.chain_ok {p : Form} (h : (Phrase.chain p).ReadFrom d toks) (rest : List Token)
    (hstop : peeksOp rest = false) (n : ℕ) : parseChain n (toks ++ rest) = readIf (d ≤ n) (.ok (p.node, rest)) := by
  obtain ⟨k, hk, hchain⟩ := h
  have hfuel : (toks ++ rest).length + 1 - k = (toks ++ rest).length - k + 1 := by
    rw [List.length_append]
    omega
  rw [hchain n rest, hfuel, parseOps_stop hstop]

/-- No atom begins with `not`. -/
theorem peeks_not_of_atom {p : Form} (h : Derives d (.atom p) toks) :
    (peeks (toks ++ rest) fun t => t.is "not") = false := by
  cases h with
  | paren h => rfl
  | call conj h => cases conj <;> rfl
  | quant every hfield h => cases every <;> rfl
  | present hfield => rfl
  | count op hfield h => rfl
  | compare op hfield hnot h => simpa [peeks] using hnot
  | mem hfield hnot h => simpa [peeks] using hnot

/-- Where a parenthesis follows, there is a call. -/
theorem looksLikeCall_lparen (t : Token) (rest : List Token) : looksLikeCall (t :: lparen :: rest) = true := rfl

/-- A chain in parentheses. -/
theorem readFrom_paren {p : Form} (h : (Phrase.chain p).ReadFrom d toks) :
    (Phrase.atom p).ReadFrom (d + 1) (lparen :: (toks ++ [rparen])) := by
  rintro (_ | n) rest
  · rfl
  · have hchain := h.chain_ok (rparen :: rest) rfl n
    rw [List.cons_append, List.append_assoc, List.singleton_append, parseAtom, parseAtomStep]
    change parseChain n (toks ++ rparen :: rest) >>= _ = _
    rw [hchain, readIf_bind]
    simp only [Nat.add_le_add_iff_right]
    rfl

/-- A call of `and` or `or`. -/
theorem readFrom_call {ps : List Form} (conj : Bool) (h : (Phrase.preds ps).ReadFrom d toks) :
    (Phrase.atom (.chain conj ps)).ReadFrom (d + 1)
    (wordToken (chainOp conj).text :: lparen :: (toks ++ [rparen])) := by
  rintro (_ | n) rest
  · rfl
  · have hpreds := h n ((toks ++ rparen :: rest).length + 1) (rparen :: rest) (by rw [List.length_append]; omega) rfl
      rfl
    rw [List.cons_append, List.cons_append, List.append_assoc, List.singleton_append, parseAtom, parseAtomStep]
    dsimp only
    rw [if_neg (by simp [wordToken]), if_neg (by simp [wordToken]), is_chainOp, Bool.true_and, looksLikeCall_lparen,
      if_pos rfl]
    change parsePreds (parseChain n) ((toks ++ rparen :: rest).length + 1) (toks ++ rparen :: rest) >>= _ = _
    rw [hpreds, readIf_bind, ofList_wordToken]
    simp only [Nat.add_le_add_iff_right]
    rfl

/-- A call of `all` or `any`. -/
theorem readFrom_quant {p : Form} (every : Bool) (hfield : IsField field) (h : (Phrase.chain p).ReadFrom d toks) :
    (Phrase.atom (.quant every field p)).ReadFrom (d + 1)
      (wordToken (quantOp every).text :: lparen :: wordToken field :: comma :: (toks ++ [rparen])) := by
  rintro (_ | n) rest
  · rfl
  · have hchain := h.chain_ok (rparen :: rest) rfl n
    have hops : ((wordToken (quantOp every).text).is "and" || (wordToken (quantOp every).text).is "or") = false ∧
        ((wordToken (quantOp every).text).is "all" || (wordToken (quantOp every).text).is "any") = true := by
      cases every <;> decide
    simp only [List.cons_append, List.append_assoc, List.nil_append]
    rw [parseAtom, parseAtomStep]
    dsimp only
    rw [if_neg (by simp [wordToken]), if_neg (by simp [wordToken]), hops.1, hops.2, Bool.false_and, Bool.true_and,
      if_neg Bool.false_ne_true, looksLikeCall_lparen, if_pos rfl]
    change parseField (wordToken field :: comma :: (toks ++ rparen :: rest)) >>= _ = _
    rw [parseField_wordToken hfield, ok_bind]
    change parseChain n (toks ++ rparen :: rest) >>= _ = _
    rw [hchain, readIf_bind, ofList_wordToken]
    simp only [Nat.add_le_add_iff_right]
    rfl

/-- An atom without a predicate in it is read if there is room for one call. -/
theorem readFrom_leaf {p : Form} (h : ∀ (chain : List Token → Except Raised (Json × List Token)) rest,
    parseAtomStep chain (toks ++ rest) = .ok (p.node, rest)) : (Phrase.atom p).ReadFrom 1 toks := by
  rintro (_ | n) rest
  · rfl
  · rw [parseAtom, h, readIf, if_pos (Nat.le_add_left 1 n)]

/-- A call of `exists`. -/
theorem readFrom_present (hfield : IsField field) :
    (Phrase.atom (.present field)).ReadFrom 1 [wordToken "exists", lparen, wordToken field, rparen] := by
  apply readFrom_leaf
  intro chain rest
  rw [parseAtomStep.eq_def]
  change parseField (wordToken field :: rparen :: rest) >>= _ = _
  rw [parseField_wordToken hfield, ok_bind]
  rfl

/-- A call of `count`. -/
theorem readFrom_count {text : List Char} (op : CmpOp) (hfield : IsField field) (h : numberOf text = .ok lit) :
    (Phrase.atom (.count field op lit)).ReadFrom 1
      [wordToken "count", lparen, wordToken field, rparen, cmpToken op, ⟨.num, text⟩] := by
  apply readFrom_leaf
  intro chain rest
  rw [parseAtomStep.eq_def]
  change parseField (wordToken field :: rparen :: cmpToken op :: ⟨.num, text⟩ :: rest) >>= _ = _
  have hexpect (rest : List Token) : expect .rparen (rparen :: rest) = .ok (rparen, rest) := expect_cons rparen rest
  rw [parseField_wordToken hfield, ok_bind]
  dsimp only
  rw [hexpect, ok_bind]
  dsimp only
  rw [parseCmp_cmpToken, ok_bind]
  dsimp only
  rw [parseNumber_of_numberOf h]
  rfl

/-- What comes after a field that no parenthesis follows is a test of it. -/
theorem parseAtomStep_field {chain : List Token → Except Raised (Json × List Token)} {t : Token}
    (h : t.kind ≠ .lparen) :
    parseAtomStep chain (wordToken field :: t :: rest) = parseTest (wordToken field :: t :: rest) := by
  have hcall : looksLikeCall (wordToken field :: t :: rest) = false := by simpa [looksLikeCall, peeks] using h
  rw [parseAtomStep]
  dsimp only
  rw [if_neg (by simp [wordToken]), if_neg (by simp [wordToken]), hcall]
  simp only [Bool.and_false, Bool.false_eq_true, if_false]

/-- A comparison. -/
theorem readFrom_compare (op : CmpOp) (hfield : IsField field) (h : Denotes t lit) :
    (Phrase.atom (.compare op field lit)).ReadFrom 1 [wordToken field, cmpToken op, t] := by
  apply readFrom_leaf
  intro chain rest
  rw [List.cons_append, List.cons_append, parseAtomStep_field (by simp [cmpToken]), parseTest,
    parseField_wordToken hfield,
    ok_bind]
  have hin : (peeks (cmpToken op :: ([t] ++ rest)) fun t => t.is "in") = false := by
    simp [peeks, Token.is, cmpToken]
  dsimp only
  rw [hin, if_neg Bool.false_ne_true, parseCmp_cmpToken, ok_bind]
  change parseLiteral (t :: rest) >>= _ = _
  rw [parseLiteral_of_denotes h]
  rfl

/-- A set. -/
theorem readFrom_mem {members : List Json} (hfield : IsField field) (h : DenoteAll members toks) :
    (Phrase.atom (.mem field members)).ReadFrom 1
      (wordToken field :: wordToken "in" :: lbrace :: (toks ++ [rbrace])) := by
  apply readFrom_leaf
  intro chain rest
  simp only [List.cons_append, List.append_assoc, List.nil_append]
  rw [parseAtomStep_field (by simp [wordToken]), parseTest, parseField_wordToken hfield, ok_bind]
  have hin : (peeks (wordToken "in" :: lbrace :: (toks ++ rbrace :: rest)) fun t => t.is "in") = true := by
    simp [peeks]
  dsimp only
  rw [hin, if_pos rfl]
  change parseMembers ((toks ++ rbrace :: rest).length + 1) (toks ++ rbrace :: rest) >>= _ = _
  rw [parseMembers_of_denoteAll h rfl (by simp; omega), ok_bind]
  rfl

/-- A term is read by the parser of atoms, unless it begins with `not`. -/
theorem readFrom_atom {p : Form} (hderives : Derives d (.atom p) toks) (h : (Phrase.atom p).ReadFrom d toks) :
    (Phrase.term p).ReadFrom (d + 1) toks := by
  rintro (_ | n) rest
  · rfl
  · rw [parseTerm, peeks_not_of_atom hderives, if_neg Bool.false_ne_true, h n rest]
    simp only [Nat.add_le_add_iff_right]

/-- A negation. -/
theorem readFrom_not {p : Form} (h : (Phrase.term p).ReadFrom d toks) :
    (Phrase.term (.not p)).ReadFrom (d + 1) (wordToken "not" :: toks) := by
  rintro (_ | n) rest
  · rfl
  · have hnot : (peeks (wordToken "not" :: (toks ++ rest)) fun t => t.is "not") = true := by simp [peeks]
    rw [List.cons_append, parseTerm, hnot, if_pos rfl]
    change parseTerm n (toks ++ rest) >>= _ = _
    rw [h n rest, readIf_bind]
    simp only [Nat.add_le_add_iff_right]
    rfl

/-- A chain of one term. -/
theorem readFrom_term {p : Form} (hpos : 0 < toks.length) (h : (Phrase.term p).ReadFrom d toks) :
    (Phrase.chain p).ReadFrom (d + 1) toks := by
  refine ⟨0, hpos, ?_⟩
  rintro (_ | n) rest
  · rfl
  · rw [parseChain, h n rest, readIf_bind]
    simp only [Nat.add_le_add_iff_right]
    rfl

/-- A chain of one more term. -/
theorem readFrom_op {p q : Form} {toks' : List Token} (conj : Bool) (hp : (Phrase.chain p).ReadFrom d toks)
    (hq : (Phrase.term q).ReadFrom e toks') :
    (Phrase.chain (.chain conj [p, q])).ReadFrom (max d (e + 1)) (toks ++ wordToken (chainOp conj).text :: toks') := by
  obtain ⟨k, hk, hchain⟩ := hp
  refine ⟨k + 1, by rw [List.length_append, List.length_cons]; omega, ?_⟩
  rintro (_ | n) rest
  · rw [readIf, if_neg (by simp)]
    rfl
  · have hfuel : (toks ++ (wordToken (chainOp conj).text :: (toks' ++ rest))).length + 1 - k =
        (toks ++ (wordToken (chainOp conj).text :: (toks' ++ rest))).length + 1 - (k + 1) + 1 := by
      rw [List.length_append, List.length_cons]
      omega
    rw [List.append_assoc, List.cons_append, hchain (n + 1), hfuel, parseOps_op, Nat.add_sub_cancel, hq n rest,
      readIf_bind,
      readIf_readIf]
    simp only [max_le_iff, Nat.add_le_add_iff_right]
    rfl

/-- One predicate of a call. -/
theorem readFrom_one {p : Form} (hpos : 0 < toks.length) (h : (Phrase.chain p).ReadFrom d toks) :
    (Phrase.preds [p]).ReadFrom d toks := by
  intro n fuel rest hfuel hop hcomma
  obtain ⟨fuel, rfl⟩ := Nat.exists_eq_add_of_le' (le_trans hpos hfuel)
  rw [parsePreds, h.chain_ok rest hop, readIf_bind]
  dsimp only
  rw [hcomma, if_neg Bool.false_ne_true]
  rfl

/-- One more predicate of a call. -/
theorem readFrom_cons {p : Form} {ps : List Form} {toks' : List Token} (h : (Phrase.chain p).ReadFrom d toks)
    (hs : (Phrase.preds ps).ReadFrom e toks') :
    (Phrase.preds (p :: ps)).ReadFrom (max d e) (toks ++ comma :: toks') := by
  intro n fuel rest hfuel hop hcomma
  rw [List.length_append, List.length_cons] at hfuel
  obtain ⟨fuel, rfl⟩ := Nat.exists_eq_add_of_le' (by omega : 1 ≤ fuel)
  have hchain := h.chain_ok (comma :: (toks' ++ rest)) rfl n
  rw [List.append_assoc, List.cons_append, parsePreds, hchain, readIf_bind]
  change readIf _ (parsePreds (parseChain n) fuel (toks' ++ rest) >>= _) = _
  rw [hs n fuel rest (by omega) hop hcomma, readIf_bind, readIf_readIf]
  simp only [max_le_iff]
  rfl

/-- What the grammar derives is read. -/
theorem readFrom_of_derives {phrase : Phrase} (h : Derives d phrase toks) : phrase.ReadFrom d toks := by
  induction h with
  | term h ih => exact readFrom_term h.length_pos ih
  | op conj _ _ ihp ihq => exact readFrom_op conj ihp ihq
  | atom h ih => exact readFrom_atom h ih
  | not _ ih => exact readFrom_not ih
  | paren _ ih => exact readFrom_paren ih
  | call conj _ ih => exact readFrom_call conj ih
  | quant every hfield _ ih => exact readFrom_quant every hfield ih
  | present hfield => exact readFrom_present hfield
  | count op hfield h => exact readFrom_count op hfield h
  | compare op hfield _ h => exact readFrom_compare op hfield h
  | mem hfield _ h => exact readFrom_mem hfield h
  | one h ih => exact readFrom_one h.length_pos ih
  | cons _ _ ih ihs => exact readFrom_cons ih ihs

/-- The parser returns the node of what the grammar derives, if there is room. -/
theorem parseTokens_of_derives {p : Form} (h : Derives d (.chain p) toks) (n : ℕ) :
    parseTokens (n + 1) toks = readIf (d ≤ n) (.ok p.node) := by
  have hchain := (readFrom_of_derives h).chain_ok [] rfl n
  rw [List.append_nil] at hchain
  rw [parseTokens, hchain, readIf_bind]
  rfl

end Reading

end MyTeam.Legacy.Predicate
