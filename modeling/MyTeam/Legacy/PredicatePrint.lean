import MyTeam.Legacy.PredicateGate
import MyTeam.Legacy.PredicateGrammar

/-!
# Printed predicates

A form is printed with calls for chains and negations, strings in quotes and numbers in decimal notation, and with
blanks between the tokens. The lexer finds these tokens, and the grammar derives the form from them, so that the text
of a form is read back as its node, unless a field ends in an end of line, a literal is `nan`, or the stack has no room
for so many calls.
-/

namespace MyTeam.Legacy.Predicate

open MyTeam.Py

/-- A character of a string, with a backslash before quotes and backslashes. -/
def quoteChar (c : Char) : List Char := if c = '"' ∨ c = '\\' then ['\\', c] else [c]

/-- An int in decimal notation. -/
def printInt (n : ℤ) : List Char := if n < 0 then '-' :: Nat.toDigits 10 n.natAbs else Nat.toDigits 10 n.natAbs

/-- The power of ten that is printed for an infinity. -/
def beyond : Decimal := ⟨['1'], [], some 999⟩

/-- A float in decimal notation, an infinity as a number that is too large. -/
def printFloat : Double → List Char
  | .posInf => beyond.text
  | .negInf => '-' :: beyond.text
  | x => x.repr

/-- The token that is printed for a literal. -/
def literalToken : Json → Token
  | .str s => ⟨.str, '"' :: (s.toList.flatMap quoteChar ++ ['"'])⟩
  | .int n => ⟨.num, printInt n⟩
  | .float x => ⟨.num, printFloat x⟩
  | .bool b => wordToken (if b then "true" else "false")
  | _ => wordToken "null"

/-- The tokens that are printed for the members of a set. -/
def memberTokens : List Json → List Token
  | [] => []
  | [m] => [literalToken m]
  | m :: ms => literalToken m :: comma :: memberTokens ms

namespace Form

mutual

/-- The tokens that are printed for a form. -/
def tokens : Form → List Token
  | compare op field lit => [wordToken field, cmpToken op, literalToken lit]
  | mem field members => wordToken field :: wordToken "in" :: lbrace :: (memberTokens members ++ [rbrace])
  | quant every field p =>
    wordToken (quantOp every).text :: lparen :: wordToken field :: comma :: (p.tokens ++ [rparen])
  | present field => [wordToken "exists", lparen, wordToken field, rparen]
  | count field op bound => [wordToken "count", lparen, wordToken field, rparen, cmpToken op, literalToken bound]
  | chain conj ps => wordToken (chainOp conj).text :: lparen :: (predTokens ps ++ [rparen])
  | not p => wordToken "not" :: lparen :: (p.tokens ++ [rparen])

/-- The tokens that are printed for the predicates of a call. -/
def predTokens : List Form → List Token
  | [] => []
  | [p] => p.tokens
  | p :: q :: ps => p.tokens ++ comma :: predTokens (q :: ps)

end

end Form

namespace Form

mutual

/-- The calls that it takes to read a form as a term, one in another. -/
def printDepth : Form → ℕ
  | quant _ _ p => p.printDepth + 3
  | chain _ ps => printDepths ps + 3
  | not p => p.printDepth + 4
  | _ => 2

/-- The most calls for one of some terms. -/
def printDepths : List Form → ℕ
  | [] => 0
  | p :: ps => max p.printDepth (printDepths ps)

end

end Form

/-- Tokens, with a blank after each. -/
def spell (toks : List Token) : List Char := toks.flatMap fun t => t.text ++ [' ']

/-- A form in the notation of the grammar. -/
def Form.print (p : Form) : String := String.ofList (spell p.tokens)

/-- A token that the lexer finds before a blank. -/
structure Token.Solid (t : Token) : Prop where
  kind : t.kind ≠ .ws
  found : ∀ rest, nextToken (t.text ++ ' ' :: rest) = some (t, ' ' :: rest)

section Spelling

variable {t : Token} {toks : List Token} {text rest : List Char} {c : Char} {n position : ℕ}

/-- The text of a token, a blank, and the rest. -/
theorem spell_cons (t : Token) (toks : List Token) : spell (t :: toks) = t.text ++ ' ' :: spell toks := by
  rw [spell, List.flatMap_cons, List.append_assoc]
  rfl

/-- A token that is no blank begins with none. -/
theorem isSpace_eq_false (h : nextToken (c :: text) = some (t, rest)) (hkind : t.kind ≠ .ws) : isSpace c = false := by
  cases hspace : isSpace c with
  | false => rfl
  | true =>
    unfold nextToken at h
    dsimp only at h
    rw [if_pos hspace] at h
    cases h
    exact absurd rfl hkind

/-- What a token begins with. -/
theorem Token.Solid.exists_cons (h : t.Solid) : ∃ c text, t.text = c :: text ∧ isSpace c = false := by
  have hfound := h.found []
  obtain ⟨c, text, htext⟩ := List.exists_cons_of_ne_nil (nextToken_spec hfound).2.1
  rw [htext] at hfound
  exact ⟨c, text, htext, isSpace_eq_false hfound h.kind⟩

/-- The next token is found. -/
theorem tokenizeFrom_step (hne : text ≠ []) (h : nextToken text = some (t, rest)) :
    tokenizeFrom (n + 1) position text = tokenizeFrom n (position + t.text.length) rest >>= fun toks =>
      .ok (if t.kind = .ws then toks else t :: toks) := by
  obtain ⟨c, text, rfl⟩ := List.exists_cons_of_ne_nil hne
  rw [tokenizeFrom.eq_def]
  dsimp only
  rw [h]
  rfl

/-- The blank between two tokens. -/
theorem nextToken_blank (h : ∀ t ∈ toks, t.Solid) :
    nextToken (' ' :: spell toks) = some (⟨.ws, [' ']⟩, spell toks) := by
  have hstop : ∀ c ∈ (spell toks).head?, isSpace c = false := by
    intro c hc
    cases toks with
    | nil => cases hc
    | cons t toks =>
      obtain ⟨d, text, htext, hd⟩ := (h t List.mem_cons_self).exists_cons
      rw [spell_cons, htext] at hc
      cases hc
      exact hd
  have hblank : ∀ c ∈ [' '], isSpace c = true := List.all_eq_true.mp (by decide)
  have htake := takeWhile_stop hblank hstop
  have hdrop := dropWhile_stop hblank hstop
  unfold nextToken
  dsimp only
  rw [if_pos (by decide), ← List.singleton_append, htake, hdrop]

/-- The tokens are found again. -/
theorem tokenizeFrom_spell (h : ∀ t ∈ toks, t.Solid) (hn : 2 * toks.length < n) :
    tokenizeFrom n position (spell toks) = .ok toks := by
  induction toks generalizing n position with
  | nil =>
    obtain ⟨n, rfl⟩ := Nat.exists_eq_succ_of_ne_zero (by omega : n ≠ 0)
    rfl
  | cons t toks ih =>
    obtain ⟨ht, htoks⟩ := List.forall_mem_cons.mp h
    rw [List.length_cons] at hn
    obtain ⟨n, rfl⟩ := Nat.exists_eq_add_of_le' (by omega : 2 ≤ n)
    rw [spell_cons, tokenizeFrom_step (by simp) (ht.found _), tokenizeFrom_step (List.cons_ne_nil _ _)
      (nextToken_blank htoks), ih htoks (by omega), ok_bind, ok_bind, if_pos rfl, if_neg ht.kind]

/-- Each token takes up two characters. -/
theorem length_spell (h : ∀ t ∈ toks, t.Solid) : 2 * toks.length ≤ (spell toks).length := by
  induction toks with
  | nil => exact le_refl 0
  | cons t toks ih =>
    obtain ⟨ht, htoks⟩ := List.forall_mem_cons.mp h
    obtain ⟨c, text, htext, -⟩ := ht.exists_cons
    have hlength := ih htoks
    rw [spell_cons, htext, List.length_append, List.length_cons, List.length_cons, List.length_cons]
    omega

/-- A text of such tokens is cut into them. -/
theorem tokenize_spell (h : ∀ t ∈ toks, t.Solid) : tokenize (spell toks) = .ok toks :=
  tokenizeFrom_spell h (Nat.lt_succ_of_le (length_spell h))

/-- A text of blanks has no tokens. -/
theorem tokenize_blank {text : List Char} (h : text.all isSpace = true) : tokenize text = .ok [] := by
  cases text with
  | nil => rfl
  | cons c text =>
    have hall : ∀ d ∈ c :: text, isSpace d = true := List.all_eq_true.mp h
    have htake := @takeWhile_stop _ _ _ [] hall (by simp)
    have hdrop := @dropWhile_stop _ _ _ [] hall (by simp)
    rw [List.append_nil] at htake hdrop
    have htoken : nextToken (c :: text) = some (⟨.ws, c :: text⟩, []) := by
      unfold nextToken
      dsimp only
      rw [if_pos (hall c List.mem_cons_self), htake, hdrop]
    unfold tokenize
    rw [tokenizeFrom_step (List.cons_ne_nil _ _) htoken]
    rfl

/-- A text is read as its tokens are. -/
theorem parse_of_tokenize {text : String} {node : Json} {P : Prop} [Decidable P] (hne : toks ≠ [])
    (h : tokenize text.toList = .ok toks) (hparse : parseTokens n toks = readIf P (.ok node)) :
    parse (n + 1) text = readIf P (.ok node) := by
  have hblank : ¬text.toList.all isSpace = true :=
    fun hblank => hne (Except.ok.inj (h.symm.trans (tokenize_blank hblank)))
  rw [parse, if_neg hblank, h, ok_bind, hparse, readIf]
  split_ifs <;> rfl

end Spelling

/-- A character with which neither a blank nor a sign begins. -/
def Ordinary (c : Char) : Prop := isSpace c = false ∧ c ∉ ['(', ')', '{', '}', ',', '=', '!', '<', '>']

section Solid

variable {text rest : List Char} {c : Char}

/-- What begins with such a character is a number, a string or a word. -/
theorem nextToken_ordinary (h : Ordinary c) : nextToken (c :: text) =
    ((spanNumber (c :: text)).map fun found => (⟨.num, found.1⟩, found.2)).or
      (if c = '"' ∨ c = '\'' then (spanString c text).map fun found => (⟨.str, c :: found.1⟩, found.2)
      else if isWordStart c then some (⟨.word, (c :: text).takeWhile isWordChar⟩, (c :: text).dropWhile isWordChar)
      else none) := by
  obtain ⟨hspace, hsigns⟩ := h
  simp only [List.mem_cons, List.not_mem_nil, or_false, not_or] at hsigns
  have hcmp : ¬((c = '=' ∨ c = '!' ∨ c = '<' ∨ c = '>') ∧ text.head? = some '=') := by simp [hsigns]
  have hangle : ¬(c = '<' ∨ c = '>') := by simp [hsigns]
  have hbraces : c ≠ '(' ∧ c ≠ ')' ∧ c ≠ '\x7b' ∧ c ≠ '\x7d' ∧ c ≠ ',' := by simp [hsigns]
  rw [nextToken, hspace, if_neg Bool.false_ne_true, if_neg hbraces.1, if_neg hbraces.2.1, if_neg hbraces.2.2.1,
    if_neg hbraces.2.2.2.1, if_neg hbraces.2.2.2.2, if_neg hcmp, if_neg hangle]
  cases spanNumber (c :: text) with
  | none => rfl
  | some found => rfl

/-- The code of a letter. -/
theorem isAlpha_iff : c.isAlpha = true ↔ 65 ≤ c.toNat ∧ c.toNat ≤ 90 ∨ 97 ≤ c.toNat ∧ c.toNat ≤ 122 := by
  unfold Char.isAlpha Char.isUpper Char.isLower
  simp [UInt32.le_iff_toNat_le]

/-- The code of a digit. -/
theorem isDigit_iff : c.isDigit = true ↔ 48 ≤ c.toNat ∧ c.toNat ≤ 57 := by
  simp [Char.isDigit, UInt32.le_iff_toNat_le]

/-- A letter, a digit, a sign of a number, a quote or a point is ordinary. -/
theorem ordinary_of (h : c.isAlpha = true ∨ c.isDigit = true ∨ c ∈ ['_', '.', '-', '"']) : Ordinary c := by
  constructor
  · rcases h with halpha | hdigit | hother
    · have hcode := isAlpha_iff.mp halpha
      simp only [isSpace, Bool.or_eq_false_iff, Bool.and_eq_false_iff, decide_eq_false_iff_not]
      omega
    · have hcode := isDigit_iff.mp hdigit
      simp only [isSpace, Bool.or_eq_false_iff, Bool.and_eq_false_iff, decide_eq_false_iff_not]
      omega
    · simp only [List.mem_cons, List.not_mem_nil, or_false] at hother
      rcases hother with rfl | rfl | rfl | rfl <;> decide
  · intro hsign
    have hsigns : c.isAlpha = false ∧ c.isDigit = false ∧ c ∉ ['_', '.', '-', '"'] := by
      simp only [List.mem_cons, List.not_mem_nil, or_false] at hsign
      rcases hsign with rfl | rfl | rfl | rfl | rfl | rfl | rfl | rfl | rfl <;> decide
    obtain ⟨halpha, hdigit, hother⟩ := hsigns
    rw [halpha, hdigit] at h
    simp [hother] at h

/-- A number does not begin so. -/
theorem spanNumber_eq_none (h : isDigit c = false) (hminus : c ≠ '-') : spanNumber (c :: text) = none := by
  have hdigits : spanDigits (c :: text) = none := by
    unfold spanDigits
    rw [List.span_eq_takeWhile_dropWhile, List.takeWhile_cons_of_neg (by rw [h]; exact Bool.false_ne_true)]
  unfold spanNumber
  split
  next heq => exact absurd (List.cons.inj heq).1 hminus
  next =>
    rw [spanUnsigned_eq, hdigits]
    rfl

/-- A word. -/
theorem solid_word {word : String} (hstart : ∃ c rest, word.toList = c :: rest ∧ isWordStart c = true)
    (hchars : ∀ c ∈ word.toList, isWordChar c = true) : (wordToken word).Solid where
  kind := by simp [wordToken]
  found := by
    intro rest
    obtain ⟨c, text, htext, hstart⟩ := hstart
    have hstop : ∀ d ∈ (' ' :: rest).head?, isWordChar d = false := by
      rintro d ⟨⟩
      decide
    have htake := takeWhile_stop hchars hstop
    have hdrop := dropWhile_stop hchars hstop
    have hclass : c.isAlpha = true ∨ c = '_' ∨ c = '.' := by
      simpa [isWordStart, or_assoc] using hstart
    have hordinary : Ordinary c := by
      apply ordinary_of
      rcases hclass with halpha | rfl | rfl
      · exact Or.inl halpha
      · exact Or.inr (Or.inr (by decide))
      · exact Or.inr (Or.inr (by decide))
    have hdigit : isDigit c = false ∧ c ≠ '-' ∧ ¬(c = '"' ∨ c = '\'') := by
      rcases hclass with halpha | rfl | rfl
      · have hcode := isAlpha_iff.mp halpha
        refine ⟨isDigit_eq_false ?_ (by omega), ?_, ?_⟩
        · rw [Bool.eq_false_iff, Ne, isDigit_iff]
          omega
        · rintro rfl
          exact absurd halpha (by decide)
        · rintro (rfl | rfl)
          · exact absurd halpha (by decide)
          · exact absurd halpha (by decide)
      · decide
      · decide
    change nextToken (word.toList ++ ' ' :: rest) = some (⟨.word, word.toList⟩, ' ' :: rest)
    rw [htext] at htake hdrop ⊢
    rw [List.cons_append, nextToken_ordinary hordinary, spanNumber_eq_none hdigit.1 hdigit.2.1, Option.map_none,
      Option.none_or]
    rw [if_neg hdigit.2.2, if_pos hstart, ← List.cons_append, htake, hdrop]

/-- A comparison. -/
theorem solid_cmp (op : CmpOp) : (cmpToken op).Solid where
  kind := by simp [cmpToken]
  found := by
    intro rest
    cases op <;> rfl

/-- A parenthesis, a brace or a comma. -/
theorem solid_sign {t : Token} (h : t ∈ [lparen, rparen, lbrace, rbrace, comma]) : t.Solid where
  kind := by
    revert t
    decide
  found := by
    intro rest
    simp only [List.mem_cons, List.not_mem_nil, or_false] at h
    rcases h with rfl | rfl | rfl | rfl | rfl <;> rfl

/-- A number. -/
theorem solid_num (hstart : ∃ c rest, text = c :: rest ∧ (c.isDigit = true ∨ c = '-'))
    (h : ∀ rest, spanNumber (text ++ ' ' :: rest) = some (text, ' ' :: rest)) : (Token.mk .num text).Solid where
  kind := by simp
  found := by
    intro rest
    obtain ⟨c, text, rfl, hstart⟩ := hstart
    have hordinary : Ordinary c := by
      apply ordinary_of
      rcases hstart with hdigit | rfl
      · exact Or.inr (Or.inl hdigit)
      · exact Or.inr (Or.inr (by decide))
    have hfound := h rest
    change nextToken (c :: (text ++ ' ' :: rest)) = _
    rw [List.cons_append] at hfound
    rw [nextToken_ordinary hordinary, hfound, Option.map_some, Option.some_or]

/-- The string is found up to its closing quote. -/
theorem spanString_flatMap (s : List Char) (rest : List Char) :
    spanString '"' (s.flatMap quoteChar ++ '"' :: rest) = some (s.flatMap quoteChar ++ ['"'], rest) := by
  induction s with
  | nil => rfl
  | cons c s ih =>
    rw [List.flatMap_cons, List.append_assoc]
    by_cases hquote : c = '"' ∨ c = '\\'
    · have hescaped : quoteChar c = ['\\', c] := if_pos hquote
      have hline : c ≠ '\n' := by
        rcases hquote with rfl | rfl <;> decide
      rw [hescaped, List.cons_append, List.cons_append, List.nil_append, spanString, if_neg hline, ih]
      rfl
    · have hescaped : quoteChar c = [c] := if_neg hquote
      rw [not_or] at hquote
      rw [hescaped, List.cons_append, List.nil_append, spanString, if_neg hquote.1, ih]
      · rfl
      · exact hquote.2

/-- The string is read back. -/
theorem unescape_flatMap (s : List Char) : unescape (s.flatMap quoteChar) = s := by
  induction s with
  | nil => rfl
  | cons c s ih =>
    rw [List.flatMap_cons]
    by_cases hquote : c = '"' ∨ c = '\\'
    · have hescaped : quoteChar c = ['\\', c] := if_pos hquote
      rw [hescaped, List.cons_append, List.cons_append, List.nil_append, unescape, ih]
      rcases hquote with rfl | rfl <;> rfl
    · have hescaped : quoteChar c = [c] := if_neg hquote
      rw [not_or] at hquote
      rw [hescaped, List.cons_append, List.nil_append, unescape, ih]
      exact fun _ _ h => absurd h hquote.2

/-- A string. -/
theorem solid_str (s : String) : (literalToken (.str s)).Solid where
  kind := by simp [literalToken]
  found := by
    intro rest
    change nextToken ('"' :: ((s.toList.flatMap quoteChar ++ ['"']) ++ ' ' :: rest)) = _
    rw [nextToken_ordinary (ordinary_of (Or.inr (Or.inr (by decide)))), spanNumber_eq_none (by decide) (by decide),
      List.append_assoc, List.singleton_append, spanString_flatMap]
    rfl

end Solid

section Numbers

variable {text rest found : List Char} {d : Decimal} {n : ℤ} {x : Double}

/-- Digits are found up to another character. -/
theorem spanDigits_append (hne : text ≠ []) (hdigits : ∀ c ∈ text, c.isDigit = true)
    (hstop : ∀ c ∈ rest.head?, isDigit c = false) : spanDigits (text ++ rest) = some (text, rest) := by
  have hall : ∀ c ∈ text, isDigit c = true := fun c hc => isDigit_of_isDigit (hdigits c hc)
  unfold spanDigits
  rw [List.span_eq_takeWhile_dropWhile, takeWhile_stop hall hstop, dropWhile_stop hall hstop]
  cases text with
  | nil => exact absurd rfl hne
  | cons c text => rfl

/-- No digit is a blank, and no blank goes on with a number. -/
theorem span_blank (rest : List Char) : (∀ c ∈ (' ' :: rest).head?, isDigit c = false) ∧
    spanFraction (' ' :: rest) = ([], ' ' :: rest) ∧ spanPower (' ' :: rest) = ([], ' ' :: rest) := by
  refine ⟨?_, rfl, rfl⟩
  rintro c ⟨⟩
  decide

/-- A power of ten with a sign. -/
theorem spanPower_sign {sign : Char} {digits after : List Char} (hsign : sign = '+' ∨ sign = '-')
    (h : spanDigits text = some (digits, after)) :
    spanPower ('e' :: sign :: text) = ('e' :: sign :: digits, after) := by
  have hspan : spanSign (sign :: text) = ([sign], text) := by
    rcases hsign with rfl | rfl <;> rfl
  unfold spanPower
  dsimp only
  rw [if_pos (Or.inl rfl), hspan]
  dsimp only
  rw [h]
  rfl

/-- The text of a power of ten. -/
theorem spanPower_powerText (power : ℤ) (rest : List Char) :
    spanPower (Decimal.powerText power ++ ' ' :: rest) = (Decimal.powerText power, ' ' :: rest) := by
  have hne : (zeroPadded 2 power.natAbs).toList ≠ [] := by
    rw [zeroPadded, String.toList_ofList]
    exact List.append_ne_nil_of_right_ne_nil _ Nat.toDigits_ne_nil
  have hdigits := spanDigits_append hne (fun c hc => isDigit_of_mem_zeroPadded hc) (span_blank rest).1
  unfold Decimal.powerText
  rw [List.cons_append, List.cons_append, spanPower_sign _ hdigits]
  split_ifs
  · exact Or.inr rfl
  · exact Or.inl rfl

/-- The power of a decimal text is found up to a blank. -/
theorem spanPower_elim (power : Option ℤ) (rest : List Char) :
    spanPower (power.elim [] Decimal.powerText ++ ' ' :: rest) = (power.elim [] Decimal.powerText, ' ' :: rest) := by
  cases power with
  | none => rfl
  | some power => exact spanPower_powerText power rest

/-- What comes after the digits of a decimal text is neither a digit nor a point. -/
theorem head_elim (power : Option ℤ) (rest : List Char) :
    ∀ c ∈ (power.elim [] Decimal.powerText ++ ' ' :: rest).head?, isDigit c = false ∧ c ≠ '.' := by
  intro c hc
  cases power with
  | none =>
    cases hc
    decide
  | some power =>
    cases hc
    decide

/-- The fraction of a decimal text is found. -/
theorem spanFraction_append {fraction : List Char} (hdigits : ∀ c ∈ fraction, c.isDigit = true)
    (hstop : ∀ c ∈ rest.head?, isDigit c = false ∧ c ≠ '.') :
    spanFraction ((if fraction = [] then [] else '.' :: fraction) ++ rest) =
      (if fraction = [] then [] else '.' :: fraction, rest) := by
  split_ifs with hempty
  · rw [List.nil_append]
    unfold spanFraction
    split
    next text => exact absurd rfl (hstop '.' rfl).2
    next => rfl
  · rw [List.cons_append, spanFraction, spanDigits_append hempty hdigits fun c hc => (hstop c hc).1]

/-- A decimal text is found up to a blank. -/
theorem spanUnsigned_text (h : d.Written) (rest : List Char) :
    spanUnsigned (d.text ++ ' ' :: rest) = some (d.text, ' ' :: rest) := by
  obtain ⟨whole, fraction, power⟩ := d
  obtain ⟨hwhole, hdigits, -⟩ := h
  have hstop : ∀ c ∈ ((if fraction = [] then [] else '.' :: fraction) ++
      (power.elim [] Decimal.powerText ++ ' ' :: rest)).head?, isDigit c = false := by
    intro c hc
    split_ifs at hc with hempty
    · exact (head_elim power rest c hc).1
    · cases hc
      decide
  have hspan := spanDigits_append hwhole (fun c hc => hdigits c (List.mem_append_left _ hc)) hstop
  rw [spanUnsigned_eq, Decimal.text, List.append_assoc, List.append_assoc, hspan, Option.map_some,
    spanFraction_append (fun c hc => hdigits c (List.mem_append_right _ hc)) (head_elim power rest)]
  dsimp only
  rw [spanPower_elim]

/-- Digits are found up to a blank. -/
theorem spanUnsigned_digits (hne : text ≠ []) (hdigits : ∀ c ∈ text, c.isDigit = true) (rest : List Char) :
    spanUnsigned (text ++ ' ' :: rest) = some (text, ' ' :: rest) := by
  obtain ⟨hstop, hfraction, hpower⟩ := span_blank rest
  rw [spanUnsigned_eq, spanDigits_append hne hdigits hstop, Option.map_some, hfraction, hpower]
  simp

/-- A number without a sign. -/
theorem spanNumber_unsigned (h : spanUnsigned text = some (found, rest)) : spanNumber text = some (found, rest) := by
  unfold spanNumber
  split
  next text =>
    have hminus : spanDigits ('-' :: text) = none := by
      unfold spanDigits
      rw [List.span_eq_takeWhile_dropWhile, List.takeWhile_cons_of_neg (by decide)]
    rw [spanUnsigned_eq, hminus] at h
    cases h
  next => exact h

/-- A number with a sign. -/
theorem spanNumber_minus (h : spanUnsigned text = some (found, rest)) :
    spanNumber ('-' :: text) = some ('-' :: found, rest) := by
  rw [spanNumber, h]
  rfl

/-- Such a text begins with a digit or a sign. -/
theorem exists_digit (hne : text ≠ []) (hdigits : ∀ c ∈ text, c.isDigit = true) :
    ∃ c rest, text = c :: rest ∧ (c.isDigit = true ∨ c = '-') := by
  obtain ⟨c, rest, rfl⟩ := List.exists_cons_of_ne_nil hne
  exact ⟨c, rest, rfl, Or.inl (hdigits c List.mem_cons_self)⟩

/-- An int is one token. -/
theorem solid_int (n : ℤ) : (literalToken (.int n)).Solid := by
  have hdigits : ∀ c ∈ Nat.toDigits 10 n.natAbs, c.isDigit = true := fun c hc => isDigit_of_mem_toDigits hc
  have hspan := spanUnsigned_digits (@Nat.toDigits_ne_nil n.natAbs 10) hdigits
  apply solid_num
  · unfold printInt
    split_ifs
    · exact ⟨'-', _, rfl, Or.inr rfl⟩
    · exact exists_digit Nat.toDigits_ne_nil hdigits
  · intro rest
    unfold printInt
    split_ifs
    · exact spanNumber_minus (hspan rest)
    · exact spanNumber_unsigned (hspan rest)

/-- It is read back, if it has no more digits than Python reads. -/
theorem numberOf_printInt (h : (Json.int n).Loaded) : numberOf (printInt n) = .ok (.int n) := by
  have hdigits : ∀ c ∈ Nat.toDigits 10 n.natAbs, c.isDigit = true := fun c hc => isDigit_of_mem_toDigits hc
  have hfilter : (Nat.toDigits 10 n.natAbs).filter isDigit = Nat.toDigits 10 n.natAbs :=
    List.filter_eq_self.mpr fun c hc => isDigit_of_isDigit (hdigits c hc)
  have hshort : ¬maxStrDigits < (Nat.toDigits 10 n.natAbs).length := not_lt.mpr h
  have hletters (c : Char) (hc : c.isDigit = false) : c ∉ Nat.toDigits 10 n.natAbs := by
    intro hmem
    rw [hdigits c hmem] at hc
    cases hc
  unfold numberOf printInt
  split_ifs with hneg hfloat hlong hfloat hlong
  · simp [hletters] at hfloat
  · rw [List.filter_cons_of_neg (by decide), hfilter] at hlong
    exact absurd hlong hshort
  · rw [readInt_neg]
    congr 2
    omega
  · simp [hletters] at hfloat
  · rw [hfilter] at hlong
    exact absurd hlong hshort
  · rw [readInt_toDigits]
    congr 2
    omega

/-- A number beyond all floats is a decimal text. -/
theorem beyond_written : beyond.Written := ⟨by decide, List.all_eq_true.mp (by decide), Or.inr (by decide)⟩

/-- It is too large. -/
theorem beyond_value : beyond.value = 10 ^ 999 := by
  have hone : digitsValue (beyond.whole ++ beyond.fraction) = 1 := by decide
  rw [Decimal.value, hone, Nat.cast_one, one_mul]
  exact zpow_natCast 10 999

/-- No float is as large. -/
theorem pow_le_beyond : (2 : ℚ) ^ 1024 ≤ 10 ^ 999 := by
  have hpow : (2 : ℚ) ^ (3 * 999) = (2 ^ 3) ^ 999 := pow_mul _ _ _
  calc (2 : ℚ) ^ 1024 ≤ 2 ^ (3 * 999) := pow_le_pow_right₀ one_le_two (by decide)
    _ = (2 ^ 3) ^ 999 := hpow
    _ ≤ 10 ^ 999 := pow_le_pow_left₀ (by norm_num) (by norm_num) 999

/-- A float is one token, unless it is `nan`. -/
theorem solid_float (hx : ∀ object, x ≠ .nan object) : (literalToken (.float x)).Solid := by
  have hdecimal {d : Decimal} (hd : d.Written) : (Token.mk .num d.text).Solid := by
    obtain ⟨c, rest, htext, hc⟩ := hd.exists_text_eq_cons
    exact solid_num ⟨c, rest, htext, Or.inl hc⟩ fun rest => spanNumber_unsigned (spanUnsigned_text hd rest)
  have hminus {d : Decimal} (hd : d.Written) : (Token.mk .num ('-' :: d.text)).Solid :=
    solid_num ⟨'-', _, rfl, Or.inr rfl⟩ fun rest => spanNumber_minus (spanUnsigned_text hd rest)
  cases x with
  | finite q h =>
    change (Token.mk .num (Double.finite q h).repr).Solid
    rw [Double.repr]
    split_ifs
    · exact hminus (Double.decimal_written q)
    · exact hdecimal (Double.decimal_written q)
  | posInf => exact hdecimal beyond_written
  | negInf => exact hminus beyond_written
  | nan object => exact absurd rfl (hx object)

/-- It is read back. -/
theorem numberOf_printFloat (hx : ∀ object, x ≠ .nan object) : numberOf (printFloat x) = .ok (.float x) := by
  have hfloat {text : List Char} (h : '.' ∈ text ∨ 'e' ∈ text) : numberOf text = .ok (.float (.read text)) := by
    rw [numberOf, if_pos]
    tauto
  cases x with
  | finite q h =>
    have hwritten := Double.decimal_written q
    have htext : '.' ∈ (Double.finite q h).repr ∨ 'e' ∈ (Double.finite q h).repr := by
      rw [Double.repr]
      split_ifs
      · simpa using hwritten.mem_text_or
      · exact hwritten.mem_text_or
    change numberOf (Double.finite q h).repr = _
    rw [hfloat htext, Double.read_repr]
  | posInf =>
    change numberOf beyond.text = _
    rw [hfloat beyond_written.mem_text_or, Double.read, Double.readDecimal_text beyond_written, beyond_value,
      Double.round_of_le (by rw [abs_of_pos (by positivity)]; exact pow_le_beyond), if_pos (by positivity)]
  | negInf =>
    change numberOf ('-' :: beyond.text) = _
    rw [hfloat (by simpa using beyond_written.mem_text_or), Double.read, readDecimal,
      Decimal.readUnsigned_text beyond_written, beyond_value,
      Double.round_of_le (by rw [abs_neg, abs_of_pos (by positivity)]; exact pow_le_beyond), if_neg (by simp)]
  | nan object => exact absurd rfl (hx object)

end Numbers

section Literals

variable {lit : Json} {field : String}

/-- The token of a literal is found. -/
theorem solid_literal (h : LiteralRead lit) : (literalToken lit).Solid := by
  cases lit with
  | str s => exact solid_str s
  | int n => exact solid_int n
  | float x => exact solid_float fun object hx => h.ne_nan object (by rw [hx])
  | bool b =>
    cases b
    · exact solid_word ⟨'f', _, rfl, by decide⟩ (List.all_eq_true.mp (by decide))
    · exact solid_word ⟨'t', _, rfl, by decide⟩ (List.all_eq_true.mp (by decide))
  | _ => cases h.scalar

/-- A number is read back. -/
theorem exists_numberOf (h : LiteralRead lit) (hnumber : isNumber lit = true) :
    ∃ text, literalToken lit = ⟨.num, text⟩ ∧ numberOf text = .ok lit := by
  cases lit with
  | int n => exact ⟨_, rfl, numberOf_printInt h.loaded⟩
  | float x => exact ⟨_, rfl, numberOf_printFloat fun object hx => h.ne_nan object (by rw [hx])⟩
  | _ => cases hnumber

/-- A literal is read back. -/
theorem denotes_literal (h : LiteralRead lit) : Denotes (literalToken lit) lit := by
  cases lit with
  | str s =>
    have hstr := Denotes.str '"' (s.toList.flatMap quoteChar)
    rwa [unescape_flatMap, String.ofList_toList] at hstr
  | int n => exact .num (numberOf_printInt h.loaded)
  | float x => exact .num (numberOf_printFloat fun object hx => h.ne_nan object (by rw [hx]))
  | bool b => exact .bool b
  | _ => cases h.scalar

/-- The tokens of the members of a set are found. -/
theorem solid_members {ms : List Json} (h : ∀ m ∈ ms, LiteralRead m) : ∀ t ∈ memberTokens ms, t.Solid := by
  induction ms with
  | nil => exact fun t ht => absurd ht List.not_mem_nil
  | cons m ms ih =>
    obtain ⟨hm, hms⟩ := List.forall_mem_cons.mp h
    cases ms with
    | nil => exact List.forall_mem_singleton.mpr (solid_literal hm)
    | cons m' ms =>
      exact List.forall_mem_cons.mpr ⟨solid_literal hm, List.forall_mem_cons.mpr ⟨solid_sign (by decide), ih hms⟩⟩

/-- They are read back. -/
theorem denoteAll_members {ms : List Json} (hne : ms ≠ []) (h : ∀ m ∈ ms, LiteralRead m) :
    DenoteAll ms (memberTokens ms) := by
  induction ms with
  | nil => exact absurd rfl hne
  | cons m ms ih =>
    obtain ⟨hm, hms⟩ := List.forall_mem_cons.mp h
    cases ms with
    | nil => exact .one (denotes_literal hm)
    | cons m' ms => exact .cons (denotes_literal hm) (ih (List.cons_ne_nil _ _) hms)

/-- The characters of a path, and the first of them. -/
theorem isPart_intercalate {parts : List (List Char)} (hne : parts ≠ []) (h : ∀ part ∈ parts, isPart part = true) :
    (∃ c rest, ['.'].intercalate parts = c :: rest ∧ isPartStart c = true) ∧
      ∀ c ∈ ['.'].intercalate parts, isWordChar c = true := by
  induction parts with
  | nil => exact absurd rfl hne
  | cons part parts ih =>
    obtain ⟨hpart, hparts⟩ := List.forall_mem_cons.mp h
    obtain ⟨c, rest, rfl⟩ : ∃ c rest, part = c :: rest := by
      cases part with
      | nil => cases hpart
      | cons c rest => exact ⟨c, rest, rfl⟩
    rw [isPart, Bool.and_eq_true, List.all_eq_true] at hpart
    have hchars : ∀ d ∈ c :: rest, isWordChar d = true := by
      refine List.forall_mem_cons.mpr ⟨?_, ?_⟩
      · have hstart := hpart.1
        simp only [isPartStart, isWordChar, Char.isAlphanum, Bool.or_eq_true, decide_eq_true_eq] at hstart ⊢
        tauto
      · intro d hd
        have hchar := hpart.2 d hd
        simp only [isPartChar, isWordChar, Bool.or_eq_true, decide_eq_true_eq] at hchar ⊢
        tauto
    cases parts with
    | nil =>
      rw [List.intercalate_singleton]
      exact ⟨⟨c, rest, rfl, hpart.1⟩, hchars⟩
    | cons other parts =>
      rw [List.intercalate_cons_of_ne_nil (List.cons_ne_nil _ _)]
      refine ⟨⟨c, _, rfl, hpart.1⟩, fun d hd => ?_⟩
      rcases List.mem_append.mp hd with hd | hd
      · rcases List.mem_append.mp hd with hd | hd
        · exact hchars d hd
        · rw [List.mem_singleton.mp hd]
          decide
      · exact (ih (List.cons_ne_nil _ _) hparts).2 d hd

/-- A path that does not end in an end of line is a word. -/
theorem isFieldPath_word (h : isFieldPath field = true) (hline : field.toList.getLast? ≠ some '\n') :
    (∃ c rest, field.toList = c :: rest ∧ isPartStart c = true) ∧ ∀ c ∈ field.toList, isWordChar c = true := by
  unfold isFieldPath at h
  rw [if_neg hline, List.all_eq_true] at h
  have hword := isPart_intercalate (List.splitOn_ne_nil '.' field.toList) h
  rwa [List.intercalate_splitOn] at hword

/-- A field that does not end in an end of line is one token. -/
theorem solid_field (h : IsField field) (hline : field.toList.getLast? ≠ some '\n') : (wordToken field).Solid := by
  rcases h with rfl | hpath
  · exact solid_word ⟨'.', [], rfl, by decide⟩ (List.all_eq_true.mp (by decide))
  · obtain ⟨⟨c, rest, htext, hstart⟩, hchars⟩ := isFieldPath_word hpath hline
    refine solid_word ⟨c, rest, htext, ?_⟩ hchars
    simp only [isPartStart, isWordStart, Bool.or_eq_true, decide_eq_true_eq] at hstart ⊢
    tauto

end Literals

/-- The words that have a meaning of their own. -/
def reservedWords : List String := ["and", "or", "not", "all", "any", "exists", "count", "in", "true", "false"]

/-- A field that is none of them. -/
def Unreserved (field : String) : Prop := field ∉ reservedWords

/-- A field that does not end in an end of line. -/
def Unbroken (field : String) : Prop := field.toList.getLast? ≠ some '\n'

/-- A literal that is a number where it is a float. -/
def Numeric (lit : Json) : Prop := ∀ object, lit ≠ .float (.nan object)

/-- A field that is printed as it is read. -/
structure FieldPrinted (field : String) : Prop where
  path : IsField field
  unbroken : Unbroken field
  unreserved : Unreserved field

/-- A field that is none of the reserved words is not `not`. -/
theorem FieldPrinted.ne_not {field : String} (h : FieldPrinted field) : field ≠ "not" := by
  rintro rfl
  exact h.unreserved (by decide)

namespace Form

variable {p : Form} {ps : List Form} {inQuant : Bool} {F F' : String → Prop} {L L' : Json → Prop}

/-- The fields and literals have two properties. -/
theorem Each.and (h : p.Each F L) (h' : p.Each F' L') : p.Each (fun f => F f ∧ F' f) fun l => L l ∧ L' l := by
  induction p using Form.induct with
  | compare op field lit => exact ⟨⟨h.1, h'.1⟩, h.2, h'.2⟩
  | mem field members => exact ⟨⟨h.1, h'.1⟩, fun m hm => ⟨h.2 m hm, h'.2 m hm⟩⟩
  | quant every field p ih => exact ⟨⟨h.1, h'.1⟩, ih h.2 h'.2⟩
  | present field => exact ⟨h, h'⟩
  | count field op bound => exact ⟨⟨h.1, h'.1⟩, h.2, h'.2⟩
  | chain conj ps ih => exact allEach_iff.mpr fun p hp => ih p hp (allEach_iff.mp h p hp) (allEach_iff.mp h' p hp)
  | not p ih => exact ih h h'

/-- A field that fits is the element or a path. -/
theorem FieldFits.isField {field : String} (h : FieldFits inQuant field) : IsField field := by
  unfold FieldFits at h
  split_ifs at h with hdot
  · exact Or.inl hdot
  · exact Or.inr h

/-- The fields of an accepted form are paths, its literals scalars. -/
theorem each_of_valid (p : Form) :
    ∀ {inQuant : Bool}, p.Valid inQuant → p.Each IsField fun lit => isScalar lit = true := by
  induction p using Form.induct with
  | compare op field lit => exact fun h => ⟨h.1.isField, h.2.1⟩
  | mem field members => exact fun h => ⟨h.1.isField, h.2.2⟩
  | quant every field p ih => exact fun h => ⟨h.1.isField, ih h.2⟩
  | present field => exact fun h => FieldFits.isField h
  | count field op bound => exact fun h => ⟨h.1.isField, isScalar_of_isNumber h.2⟩
  | chain conj ps ih => exact fun h => allEach_iff.mpr fun p hp => ih p hp (allValid_iff.mp h.2 p hp)
  | not p ih => exact ih

/-- The tokens of predicates are those of each. -/
theorem forall_mem_predTokens {P : Token → Prop} (hcomma : P comma) (h : ∀ p ∈ ps, ∀ t ∈ p.tokens, P t) :
    ∀ t ∈ predTokens ps, P t := by
  induction ps with
  | nil => exact fun t ht => absurd ht List.not_mem_nil
  | cons p ps ih =>
    obtain ⟨hp, hps⟩ := List.forall_mem_cons.mp h
    cases ps with
    | nil => exact hp
    | cons q ps =>
      intro t ht
      rcases List.mem_append.mp ht with ht | ht
      · exact hp t ht
      · rcases List.mem_cons.mp ht with rfl | ht
        · exact hcomma
        · exact ih hps t ht

/-- The words of operators are found. -/
theorem solid_op {op : PredicateOp} (h : ∀ cmp, op ≠ .cmp cmp) : (wordToken op.text).Solid := by
  cases op with
  | cmp cmp => exact absurd rfl (h cmp)
  | _ => exact solid_word ⟨_, _, rfl, by decide⟩ (List.all_eq_true.mp (by decide))

/-- The tokens of a form are found. -/
theorem solid_tokens (h : p.Each FieldPrinted LiteralRead) : ∀ t ∈ p.tokens, t.Solid := by
  have hfield {field : String} (h : FieldPrinted field) : (wordToken field).Solid := solid_field h.path h.unbroken
  induction p using Form.induct with
  | compare op field lit =>
    simp only [tokens, List.forall_mem_cons]
    exact ⟨hfield h.1, solid_cmp op, solid_literal h.2, fun t ht => absurd ht List.not_mem_nil⟩
  | mem field members =>
    simp only [tokens, List.forall_mem_cons, List.forall_mem_append]
    exact ⟨hfield h.1, @solid_op .mem (by simp), solid_sign (by decide), solid_members h.2, solid_sign (by decide),
      fun t ht => absurd ht List.not_mem_nil⟩
  | quant every field p ih =>
    simp only [tokens, List.forall_mem_cons, List.forall_mem_append]
    refine ⟨solid_op (by cases every <;> simp [quantOp]), solid_sign (by decide), hfield h.1, solid_sign (by decide),
      ih h.2, solid_sign (by decide), fun t ht => absurd ht List.not_mem_nil⟩
  | present field =>
    simp only [tokens, List.forall_mem_cons]
    exact ⟨@solid_op .exist (by simp), solid_sign (by decide), hfield h, solid_sign (by decide),
      fun t ht => absurd ht List.not_mem_nil⟩
  | count field op bound =>
    simp only [tokens, List.forall_mem_cons]
    exact ⟨@solid_op .count (by simp), solid_sign (by decide), hfield h.1, solid_sign (by decide), solid_cmp op,
      solid_literal h.2, fun t ht => absurd ht List.not_mem_nil⟩
  | chain conj ps ih =>
    simp only [tokens, List.forall_mem_cons, List.forall_mem_append]
    exact ⟨solid_op (by cases conj <;> simp [chainOp]), solid_sign (by decide),
      forall_mem_predTokens (solid_sign (by decide)) fun p hp => ih p hp (allEach_iff.mp h p hp),
        solid_sign (by decide),
      fun t ht => absurd ht List.not_mem_nil⟩
  | not p ih =>
    simp only [tokens, List.forall_mem_cons, List.forall_mem_append]
    exact ⟨@solid_op .not (by simp), solid_sign (by decide), ih h, solid_sign (by decide),
      fun t ht => absurd ht List.not_mem_nil⟩

/-- The grammar derives the predicates of a call. -/
theorem derives_preds (hne : ps ≠ []) (h : ∀ p ∈ ps, Derives p.printDepth (.term p) p.tokens) :
    Derives (printDepths ps + 1) (.preds ps) (predTokens ps) := by
  induction ps with
  | nil => exact absurd rfl hne
  | cons p ps ih =>
    obtain ⟨hp, hps⟩ := List.forall_mem_cons.mp h
    cases ps with
    | nil =>
      rw [printDepths, printDepths, Nat.max_zero]
      exact .one (.term hp)
    | cons q ps =>
      have hcons := Derives.cons (.term hp) (ih (List.cons_ne_nil _ _) hps)
      rwa [Nat.add_max_add_right] at hcons

/-- The grammar derives a form from its tokens. -/
theorem derives_tokens (p : Form) : ∀ {inQuant : Bool}, p.Valid inQuant → p.Each FieldPrinted LiteralRead →
    Derives p.printDepth (.term p) p.tokens := by
  induction p using Form.induct with
  | compare op field lit =>
    intro inQuant _ h
    exact .atom (.compare op h.1.path h.1.ne_not (denotes_literal h.2))
  | mem field members =>
    intro inQuant hvalid h
    exact .atom (.mem h.1.path h.1.ne_not (denoteAll_members hvalid.2.1 h.2))
  | quant every field p ih =>
    intro inQuant hvalid h
    exact .atom (.quant every h.1.path (.term (ih hvalid.2 h.2)))
  | present field =>
    intro inQuant _ h
    exact .atom (.present (FieldPrinted.path h))
  | count field op bound =>
    intro inQuant hvalid h
    obtain ⟨text, htext, hnumber⟩ := exists_numberOf h.2 hvalid.2
    rw [tokens, htext]
    exact .atom (.count op h.1.path hnumber)
  | chain conj ps ih =>
    intro inQuant hvalid h
    exact .atom (.call conj (derives_preds hvalid.1 fun p hp =>
      ih p hp (allValid_iff.mp hvalid.2 p hp) (allEach_iff.mp h p hp)))
  | not p ih =>
    intro inQuant hvalid h
    exact .not (.atom (.paren (.term (ih hvalid h))))

/-- There are tokens. -/
theorem tokens_ne_nil (p : Form) : p.tokens ≠ [] := by
  cases p <;> exact List.cons_ne_nil _ _

/-- What is printed is read back, if there is room. -/
theorem parse_print (n : ℕ) (hvalid : p.Valid inQuant) (h : p.Each FieldPrinted LiteralRead) :
    parse n p.print = readIf (p.printDepth + 3 ≤ n) (.ok p.node) := by
  cases n with
  | zero => rfl
  | succ n =>
    have hspell := tokenize_spell (solid_tokens h)
    rw [← @String.toList_ofList (spell p.tokens)] at hspell
    have htokens : parseTokens n p.tokens = readIf (p.printDepth + 2 ≤ n) (.ok p.node) := by
      cases n with
      | zero => rfl
      | succ n =>
        rw [parseTokens_of_derives (.term (derives_tokens p hvalid h))]
        simp only [readIf, (by omega : p.printDepth + 1 ≤ n ↔ p.printDepth + 2 ≤ n + 1)]
    rw [print, parse_of_tokenize p.tokens_ne_nil hspell htokens]
    simp only [readIf, (by omega : p.printDepth + 2 ≤ n ↔ p.printDepth + 3 ≤ n + 1)]

/-- The node tells the operator. -/
theorem op_eq {q : Form} (h : p.node = q.node) : p.op = q.op := by
  obtain ⟨args, hp⟩ := p.exists_args
  obtain ⟨args', hq⟩ := q.exists_args
  rw [hp, hq] at h
  have htext := Json.str.inj (List.cons.inj (Json.list.inj h)).1
  exact Option.some.inj (by rw [← PredicateOp.ofText_text, htext, PredicateOp.ofText_text])

/-- The nodes tell the forms, if each tells its form. -/
theorem nodes_inj {qs : List Form} (ih : ∀ p ∈ ps, ∀ {q : Form}, p.node = q.node → p = q) (h : nodes ps = nodes qs) :
    ps = qs := by
  induction ps generalizing qs with
  | nil =>
    cases qs with
    | nil => rfl
    | cons q qs => cases h
  | cons p ps ihps =>
    cases qs with
    | nil => cases h
    | cons q qs =>
      obtain ⟨ihp, ihs⟩ := List.forall_mem_cons.mp ih
      obtain ⟨hnode, hnodes⟩ := List.cons.inj h
      rw [ihp hnode, ihps ihs hnodes]

/-- The node tells the form. -/
theorem node_inj (p : Form) : ∀ {q : Form}, p.node = q.node → p = q := by
  induction p using Form.induct with
  | compare op field lit =>
    intro q h
    have hop := op_eq h
    cases q with
    | compare op' field' lit' =>
      cases hop
      simpa [node] using h
    | quant every => cases every <;> cases hop
    | chain conj => cases conj <;> cases hop
    | _ => cases hop
  | mem field members =>
    intro q h
    have hop := op_eq h
    cases q with
    | mem => simpa [node] using h
    | quant every => cases every <;> cases hop
    | chain conj => cases conj <;> cases hop
    | _ => cases hop
  | quant every field p ih =>
    intro q h
    have hop := op_eq h
    cases q with
    | quant every' field' p' =>
      have hevery : every = every' := by cases every <;> cases every' <;> first | rfl | cases hop
      have hargs := (List.cons.inj (Json.list.inj h)).2
      simp only [List.cons.injEq, Json.str.injEq, and_true] at hargs
      rw [hevery, hargs.1, ih hargs.2]
    | chain conj => cases every <;> cases conj <;> cases hop
    | _ => cases every <;> cases hop
  | present field =>
    intro q h
    have hop := op_eq h
    cases q with
    | present => simpa [node] using h
    | quant every => cases every <;> cases hop
    | chain conj => cases conj <;> cases hop
    | _ => cases hop
  | count field op bound =>
    intro q h
    have hop := op_eq h
    cases q with
    | count field' op' bound' =>
      have hargs := (List.cons.inj (Json.list.inj h)).2
      simp only [List.cons.injEq, Json.str.injEq, and_true] at hargs
      have hcmp : op = op' := Option.some.inj (by rw [← CmpOp.ofText_text, hargs.2.1, CmpOp.ofText_text])
      rw [hargs.1, hcmp, hargs.2.2]
    | quant every => cases every <;> cases hop
    | chain conj => cases conj <;> cases hop
    | _ => cases hop
  | chain conj ps ih =>
    intro q h
    have hop := op_eq h
    cases q with
    | chain conj' ps' =>
      have hconj : conj = conj' := by cases conj <;> cases conj' <;> first | rfl | cases hop
      have hargs := (List.cons.inj (Json.list.inj h)).2
      rw [hconj, nodes_inj ih hargs]
    | quant every => cases conj <;> cases every <;> cases hop
    | _ => cases conj <;> cases hop
  | not p ih =>
    intro q h
    have hop := op_eq h
    cases q with
    | not q =>
      have hargs := (List.cons.inj (Json.list.inj h)).2
      rw [ih (List.cons.inj hargs).1]
    | quant every => cases every <;> cases hop
    | chain conj => cases conj <;> cases hop
    | _ => cases hop

end Form

section Validated

variable {sha256 : List Char → String} {n : ℕ} {node : Json} {r : Validation}

/-- What has been accepted has literals with texts. -/
theorem each_loaded_of_replayKey {p : Form} {inQuant : Bool} (hvalid : p.Valid inQuant)
    (h : Returns (replayKey sha256 n p.node)) : p.Each (fun _ => True) Json.Loaded := by
  cases n with
  | zero =>
    obtain ⟨key, hkey⟩ := h
    cases hkey
  | succ n =>
    obtain ⟨key, hkey⟩ := h
    obtain ⟨text, htext, -⟩ := bind_eq_ok hkey
    obtain ⟨c, hc, hdumps⟩ := bind_eq_ok htext
    obtain ⟨p', hp', rfl⟩ := Form.canonical_spec p hvalid hc
    apply hp'.loaded.mp
    apply Form.each_loaded
    cases hfound : p'.node.dumps with
    | error e =>
      rw [hfound] at hdumps
      cases hdumps
    | ok found => exact Json.loaded_of_dumps _ hfound

/-- An accepted node is that of a form, which, where its fields are not reserved words, is read back from its text
exactly if none of its fields ends in an end of line, none of its literals is `nan`, and there is room for the calls. -/
theorem parse_print_iff (limit : ℕ) (h : validateNode sha256 n node = .ok r) (hok : r.ok = true) : ∃ p : Form,
    p.node = node ∧ (p.Each Unreserved (fun _ => True) →
      (parse limit p.print = .ok node ↔ p.Each Unbroken Numeric ∧ p.printDepth + 3 ≤ limit)) := by
  obtain ⟨⟨p, rfl, hvalid⟩, hkey⟩ := validateNode_spec h hok
  refine ⟨p, rfl, fun hunreserved => ?_⟩
  have hloaded := each_loaded_of_replayKey hvalid hkey
  have hread (hprinted : p.Each Unbroken Numeric) :
      parse limit p.print = readIf (p.printDepth + 3 ≤ limit) (.ok p.node) := by
    apply Form.parse_print limit hvalid
    refine (((Form.each_of_valid p hvalid).and hloaded).and (hprinted.and hunreserved)).imp ?_ ?_
    · exact fun field hfield => ⟨hfield.1.1, hfield.2.1, hfield.2.2⟩
    · exact fun lit hlit => ⟨hlit.1.1, hlit.1.2, hlit.2.1⟩
  constructor
  · intro hparse
    have hprinted : p.Each Unbroken Numeric := by
      rcases parse_spec limit p.print with ⟨found, hfound, q, hq, hread⟩ | ⟨raised, hraised, -⟩
      · rw [hparse] at hfound
        obtain rfl := p.node_inj ((Except.ok.inj hfound).trans hq.symm)
        refine hread.imp (fun field hfield => ?_) fun lit hlit => hlit.ne_nan
        exact fun hline => hfield.2 (List.mem_of_mem_getLast? hline)
      · rw [hparse] at hraised
        cases hraised
    refine ⟨hprinted, ?_⟩
    by_contra hroom
    rw [hread hprinted, readIf, if_neg hroom] at hparse
    cases hparse
  · rintro ⟨hprinted, hroom⟩
    rw [hread hprinted, readIf, if_pos hroom]

end Validated

/-- A test that a field is there, of which the hash is known. -/
theorem parse_print_iff_exists : ∃ p : Form, p.node = .list [.str "exists", .str "a"] ∧
    (p.Each Unreserved (fun _ => True) →
      (parse 1000 p.print = .ok (.list [.str "exists", .str "a"]) ↔
        p.Each Unbroken Numeric ∧ p.printDepth + 3 ≤ 1000)) :=
  @parse_print_iff (fun _ => "865cb0bac2fc4b68a92d05b8fc6deba2776686a5c1afacaa892a461606ca3d5f") 5 _
    { ok := true, replayKey := "865cb0bac2fc4b68a92d05b8fc6deba2776686a5c1afacaa892a461606ca3d5f", ops := ["exists"],
      fields := ["a"] } 1000 (by decide +kernel) rfl

/-- A field may end in an end of line, but no text is read as a node with such a field, however nodes are printed, and
however much room there is. -/
theorem field_unread : ¬∃ print : Json → String, ∀ (sha256 : List Char → String) (n : ℕ) (node : Json) (r : Validation),
    validateNode sha256 n node = .ok r → r.ok = true →
      (∀ p : Form, p.node = node → p.Each Unreserved fun _ => True) → ∃ limit, parse limit (print node) = .ok node := by
  rintro ⟨print, h⟩
  have hvalidate : validateNode (fun _ => "") 5 (.list [.str "exists", .str "a\n"]) =
      .ok { ok := true, ops := ["exists"], fields := ["a\n"] } := by
    decide +kernel
  obtain ⟨limit, hparse⟩ := h _ _ _ _ hvalidate rfl fun p hp => by
    obtain rfl : p = .present "a\n" := Form.node_inj p hp
    change "a\n" ∉ reservedWords
    decide
  rcases parse_spec limit (print (.list [.str "exists", .str "a\n"])) with ⟨found, hfound, q, hq, hread⟩ |
    ⟨_, hother, -⟩
  · rw [hparse] at hfound
    obtain rfl : q = .present "a\n" := Form.node_inj q (hq.trans (Except.ok.inj hfound).symm)
    have hline : '\n' ∉ "a\n".toList := hread.2
    exact hline (by decide)
  · rw [hparse] at hother
    cases hother

end MyTeam.Legacy.Predicate
