import Mathlib.Data.Nat.Digits.Defs
import MyTeam.Legacy.PredicateForm
import MyTeam.Legacy.PredicateText

/-!
# What the parser of predicates returns

The parser never runs out of depth, and what it returns is the node of a form: its fields end in no end of line,
and its literals are scalars that a text can denote. It raises a syntax error, or the error of an int with more
digits than Python reads.
-/

namespace MyTeam.Legacy.Predicate

open MyTeam.Py

namespace Form

variable {F F' : String → Prop} {L L' : Json → Prop}

mutual

/-- The fields and the literals of a form have properties. -/
def Each (F : String → Prop) (L : Json → Prop) : Form → Prop
  | compare _ field lit => F field ∧ L lit
  | mem field members => F field ∧ ∀ m ∈ members, L m
  | quant _ field p => F field ∧ Each F L p
  | present field => F field
  | count field _ bound => F field ∧ L bound
  | chain _ ps => AllEach F L ps
  | not p => Each F L p

/-- So do those of forms. -/
def AllEach (F : String → Prop) (L : Json → Prop) : List Form → Prop
  | [] => True
  | p :: ps => Each F L p ∧ AllEach F L ps

end

/-- Those of each have them. -/
theorem allEach_iff {ps : List Form} : AllEach F L ps ↔ ∀ p ∈ ps, p.Each F L := by
  induction ps with
  | nil => simp [AllEach]
  | cons p ps ih => rw [AllEach, ih, List.forall_mem_cons]

/-- They have weaker properties. -/
theorem Each.imp (hF : ∀ field, F field → F' field) (hL : ∀ lit, L lit → L' lit) {p : Form} (h : p.Each F L) :
    p.Each F' L' := by
  induction p using Form.induct with
  | compare op field lit => exact ⟨hF _ h.1, hL _ h.2⟩
  | mem field members => exact ⟨hF _ h.1, fun m hm => hL m (h.2 m hm)⟩
  | quant every field p ih => exact ⟨hF _ h.1, ih h.2⟩
  | present field => exact hF _ h
  | count field op bound => exact ⟨hF _ h.1, hL _ h.2⟩
  | chain conj ps ih => exact allEach_iff.mpr fun p hp => ih p hp (allEach_iff.mp h p hp)
  | not p ih => exact ih h

/-- The node of a form is loaded if its literals are. -/
theorem node_loaded {p : Form} (h : p.Each (fun _ => True) Json.Loaded) : p.node.Loaded := by
  induction p using Form.induct with
  | compare op field lit => exact ⟨trivial, trivial, h.2, trivial⟩
  | mem field members =>
    refine ⟨trivial, trivial, ?_, trivial⟩
    exact Json.allLoaded_iff.mpr h.2
  | quant every field p ih => exact ⟨trivial, trivial, ih h.2, trivial⟩
  | present field => exact ⟨trivial, trivial, trivial⟩
  | count field op bound => exact ⟨trivial, trivial, trivial, h.2, trivial⟩
  | chain conj ps ih =>
    refine ⟨trivial, Json.allLoaded_iff.mpr fun node hnode => ?_⟩
    rw [nodes_eq_map] at hnode
    obtain ⟨p, hp, rfl⟩ := List.mem_map.mp hnode
    exact ih p hp (allEach_iff.mp h p hp)
  | not p ih => exact ⟨trivial, ih h, trivial⟩

end Form

/-- A field that the parser reads. -/
def FieldRead (field : String) : Prop := (field = "." ∨ isFieldPath field = true) ∧ '\n' ∉ field.toList

/-- A literal that the parser reads. -/
structure LiteralRead (lit : Json) : Prop where
  scalar : isScalar lit = true
  loaded : lit.Loaded
  ne_nan : ∀ object, lit ≠ .float (.nan object)

/-- The text of an int: digits, with a sign. -/
def IsIntText (text : List Char) : Prop :=
  ∃ digits, (∀ c ∈ digits, isDigit c = true) ∧ (text = digits ∨ text = '-' :: digits)

/-- The text of a float. -/
def IsFloatText (text : List Char) : Prop := '.' ∈ text ∨ 'e' ∈ text ∨ 'E' ∈ text

/-- An int with more digits than Python reads. -/
def Token.Overlong (t : Token) : Prop :=
  t.kind = .num ∧ ¬IsFloatText t.text ∧ maxStrDigits < (t.text.filter isDigit).length

/-- What the text of a token consists of. -/
def Token.Lexed (t : Token) : Prop :=
  match t.kind with
  | .word => ∀ c ∈ t.text, isWordChar c = true
  | .num => IsFloatText t.text ∨ IsIntText t.text
  | .cmp => ∃ op : CmpOp, String.ofList t.text = op.text
  | _ => True

section Lexing

variable {text rest found : List Char} {t : Token}

/-- Digits. -/
theorem spanDigits_spec (h : spanDigits text = some (found, rest)) :
    found ++ rest = text ∧ found ≠ [] ∧ ∀ c ∈ found, isDigit c = true := by
  unfold spanDigits at h
  rw [List.span_eq_takeWhile_dropWhile] at h
  split at h
  next => cases h
  next digits after hne heq =>
    cases h
    obtain ⟨rfl, rfl⟩ := Prod.mk.inj heq
    refine ⟨List.takeWhile_append_dropWhile, hne, fun c hc => ?_⟩
    exact List.all_eq_true.mp List.all_takeWhile c hc

/-- A fraction begins with a point. -/
theorem spanFraction_spec (text : List Char) :
    (spanFraction text).1 ++ (spanFraction text).2 = text ∧
    ((spanFraction text).1 = [] ∨ '.' ∈ (spanFraction text).1) := by
  unfold spanFraction
  split
  next text =>
    cases hdigits : spanDigits text with
    | none => exact ⟨rfl, Or.inl rfl⟩
    | some found => exact ⟨congrArg (List.cons '.') (spanDigits_spec hdigits).1, Or.inr List.mem_cons_self⟩
  next => exact ⟨rfl, Or.inl rfl⟩

/-- A sign, or none. -/
theorem spanSign_append (text : List Char) : (spanSign text).1 ++ (spanSign text).2 = text := by
  unfold spanSign
  split <;> rfl

/-- A power of ten begins with its letter. -/
theorem spanPower_spec (text : List Char) : (spanPower text).1 ++ (spanPower text).2 = text ∧
    ((spanPower text).1 = [] ∨ 'e' ∈ (spanPower text).1 ∨ 'E' ∈ (spanPower text).1) := by
  unfold spanPower
  cases text with
  | nil => exact ⟨rfl, Or.inl rfl⟩
  | cons c rest =>
    dsimp only
    split_ifs with hletter
    · cases hdigits : spanDigits (spanSign rest).2 with
      | none => exact ⟨rfl, Or.inl rfl⟩
      | some found =>
        constructor
        · dsimp only
          rw [List.cons_append, List.append_assoc, (spanDigits_spec hdigits).1, spanSign_append]
        · rcases hletter with rfl | rfl
          · exact Or.inr (Or.inl List.mem_cons_self)
          · exact Or.inr (Or.inr List.mem_cons_self)
    · exact ⟨rfl, Or.inl rfl⟩

/-- A number without its sign, from the parts that are found one after the other. -/
theorem spanUnsigned_eq (text : List Char) : spanUnsigned text = (spanDigits text).map fun whole =>
    (whole.1 ++ ((spanFraction whole.2).1 ++ (spanPower (spanFraction whole.2).2).1),
      (spanPower (spanFraction whole.2).2).2) := by
  unfold spanUnsigned
  cases spanDigits text <;> rfl

/-- A number without its sign. -/
theorem spanUnsigned_spec (h : spanUnsigned text = some (found, rest)) :
    found ++ rest = text ∧ found ≠ [] ∧ (IsFloatText found ∨ ∀ c ∈ found, isDigit c = true) := by
  rw [spanUnsigned_eq] at h
  obtain ⟨⟨digits, after⟩, hdigits, heq⟩ := Option.map_eq_some_iff.mp h
  obtain ⟨rfl, rfl⟩ := Prod.mk.inj heq
  obtain ⟨htext, hne, hall⟩ := spanDigits_spec hdigits
  obtain ⟨hfraction, hpoint⟩ := spanFraction_spec after
  obtain ⟨hpower, hletter⟩ := spanPower_spec (spanFraction after).2
  refine ⟨?_, by simp [hne], ?_⟩
  · rw [List.append_assoc, List.append_assoc, hpower, hfraction, htext]
  · rcases hpoint with hnone | hpoint
    · rcases hletter with hempty | hletter
      · rw [hnone, hempty, List.append_nil, List.append_nil]
        exact Or.inr hall
      · left
        right
        simp only [List.mem_append]
        tauto
    · left
      left
      simp only [List.mem_append]
      tauto

/-- A number. -/
theorem spanNumber_spec (h : spanNumber text = some (found, rest)) :
    found ++ rest = text ∧ found ≠ [] ∧ (IsFloatText found ∨ IsIntText found) := by
  unfold spanNumber at h
  split at h
  next text =>
    obtain ⟨⟨unsigned, after⟩, hunsigned, heq⟩ := Option.map_eq_some_iff.mp h
    obtain ⟨rfl, rfl⟩ := Prod.mk.inj heq
    obtain ⟨htext, -, hdigits⟩ := spanUnsigned_spec hunsigned
    refine ⟨by rw [List.cons_append, htext], List.cons_ne_nil _ _, ?_⟩
    rcases hdigits with hfloat | hdigits
    · left
      simpa [IsFloatText] using hfloat
    · exact Or.inr ⟨unsigned, hdigits, Or.inr rfl⟩
  next =>
    obtain ⟨htext, hne, hdigits⟩ := spanUnsigned_spec h
    refine ⟨htext, hne, ?_⟩
    rcases hdigits with hfloat | hdigits
    · exact Or.inl hfloat
    · exact Or.inr ⟨found, hdigits, Or.inl rfl⟩

/-- A string ends where its quote comes again. -/
theorem spanString_append {quote : Char} (h : spanString quote text = some (found, rest)) : found ++ rest = text := by
  induction text using spanString.induct quote generalizing found with
  | case1 => cases h
  | case2 => cases h
  | case3 =>
    unfold spanString at h
    simp at h
  | case4 c text hne ih =>
    simp only [spanString, if_neg hne] at h
    obtain ⟨⟨inner, after⟩, hinner, heq⟩ := Option.map_eq_some_iff.mp h
    obtain ⟨rfl, rfl⟩ := Prod.mk.inj heq
    rw [List.cons_append, List.cons_append, ih hinner]
  | case5 text hne =>
    unfold spanString at h
    simp at h
    obtain ⟨rfl, rfl⟩ := h
    rfl
  | case6 c text hne hquote ih =>
    unfold spanString at h
    simp only [if_neg hquote] at h
    obtain ⟨⟨inner, after⟩, hinner, heq⟩ := Option.map_eq_some_iff.mp h
    obtain ⟨rfl, rfl⟩ := Prod.mk.inj heq
    rw [List.cons_append, ih hinner]

/-- A run of characters, of which the first is one. -/
theorem takeWhile_cons_ne_nil {p : Char → Bool} {c : Char} (h : p c = true) (rest : List Char) :
    (c :: rest).takeWhile p ≠ [] := by
  rw [List.takeWhile_cons_of_pos h]
  exact List.cons_ne_nil _ _

/-- A token is where the text begins. -/
theorem nextToken_spec (h : nextToken text = some (t, rest)) : t.text ++ rest = text ∧ t.text ≠ [] ∧ t.Lexed := by
  cases text with
  | nil => cases h
  | cons c text =>
    have hsingle (kind : TokenKind) (hkind : kind ≠ .word ∧ kind ≠ .num ∧ kind ≠ .cmp)
        (h : some ((⟨kind, [c]⟩ : Token), text) = some (t, rest)) :
        t.text ++ rest = c :: text ∧ t.text ≠ [] ∧ t.Lexed := by
      cases h
      refine ⟨rfl, List.cons_ne_nil _ _, ?_⟩
      cases kind <;> simp [Token.Lexed] at hkind ⊢
    have hnumber {found after : List Char} (hfound : spanNumber (c :: text) = some (found, after))
        (h : some ((⟨.num, found⟩ : Token), after) = some (t, rest)) :
        t.text ++ rest = c :: text ∧ t.text ≠ [] ∧ t.Lexed := by
      cases h
      exact spanNumber_spec hfound
    unfold nextToken at h
    dsimp only at h
    split_ifs at h with hspace hlparen hrparen hlbrace hrbrace hcomma htwo hone hquote hword
    · cases h
      exact ⟨List.takeWhile_append_dropWhile, takeWhile_cons_ne_nil hspace _, trivial⟩
    · exact hsingle .lparen (by decide) h
    · exact hsingle .rparen (by decide) h
    · exact hsingle .lbrace (by decide) h
    · exact hsingle .rbrace (by decide) h
    · exact hsingle .comma (by decide) h
    · cases h
      obtain ⟨hfirst, hsecond⟩ := htwo
      obtain ⟨after, rfl⟩ := List.head?_eq_some_iff.mp hsecond
      refine ⟨rfl, List.cons_ne_nil _ _, ?_⟩
      rcases hfirst with rfl | rfl | rfl | rfl
      · exact ⟨.eq, rfl⟩
      · exact ⟨.ne, rfl⟩
      · exact ⟨.le, rfl⟩
      · exact ⟨.ge, rfl⟩
    · cases h
      refine ⟨rfl, List.cons_ne_nil _ _, ?_⟩
      rcases hone with rfl | rfl
      · exact ⟨.lt, rfl⟩
      · exact ⟨.gt, rfl⟩
    · split at h
      next hfound => exact hnumber hfound h
      next =>
        obtain ⟨⟨inner, after⟩, hinner, heq⟩ := Option.map_eq_some_iff.mp h
        obtain ⟨rfl, rfl⟩ := Prod.mk.inj heq
        exact ⟨by rw [List.cons_append, spanString_append hinner], List.cons_ne_nil _ _, trivial⟩
    · split at h
      next hfound => exact hnumber hfound h
      next =>
        cases h
        have hfirst : isWordChar c = true := by
          unfold isWordStart at hword
          unfold isWordChar Char.isAlphanum
          simp only [Bool.or_eq_true, decide_eq_true_eq] at hword ⊢
          tauto
        exact ⟨List.takeWhile_append_dropWhile, takeWhile_cons_ne_nil hfirst _,
          fun d hd => List.all_eq_true.mp List.all_takeWhile d hd⟩
    · split at h
      next hfound => exact hnumber hfound h
      next => cases h

end Lexing

/-- Why the parser raises: a token that does not fit, an int with too many digits, or too little room on the stack. -/
def Raised.OfTokens (toks : List Token) : Raised → Prop
  | .syntaxError _ | .recursion => True
  | .python _ => ∃ t ∈ toks, t.Overlong
  | _ => False

/-- A text is cut into tokens, or an error is raised about a character. -/
theorem tokenizeFrom_spec {n position : ℕ} {text : List Char} (h : text.length < n) :
    (∃ toks, tokenizeFrom n position text = .ok toks ∧ ∀ t ∈ toks, t.Lexed) ∨
      ∃ message, tokenizeFrom n position text = .error (.syntaxError message) := by
  induction n generalizing position text with
  | zero => exact absurd h (Nat.not_lt_zero _)
  | succ n ih =>
    cases text with
    | nil => exact Or.inl ⟨[], rfl, fun t ht => absurd ht List.not_mem_nil⟩
    | cons c text =>
      unfold tokenizeFrom
      cases htoken : nextToken (c :: text) with
      | none => exact Or.inr ⟨_, rfl⟩
      | some found =>
        obtain ⟨t, rest⟩ := found
        obtain ⟨htext, hne, hlexed⟩ := nextToken_spec htoken
        have hlength := congrArg List.length htext
        have hpos := List.length_pos_iff.mpr hne
        rw [List.length_append] at hlength
        dsimp only
        rcases ih (by omega : rest.length < n) with ⟨toks, htoks, hall⟩ | ⟨message, hmessage⟩
        · rw [htoks]
          left
          refine ⟨_, rfl, ?_⟩
          split_ifs
          · exact hall
          · exact List.forall_mem_cons.mpr ⟨hlexed, hall⟩
        · rw [hmessage]
          exact Or.inr ⟨message, rfl⟩

/-- A parser returns what has a property, with fewer than so many of all tokens left. -/
def Reads {α : Type} (P : α → Prop) (all : List Token) (k : ℕ) : Except Raised (α × List Token) → Prop
  | .ok (a, rest) => P a ∧ rest <:+ all ∧ rest.length < k
  | .error raised => raised.OfTokens all

/-- The node of a form that the parser reads. -/
def NodeRead (node : Json) : Prop := ∃ p : Form, p.node = node ∧ p.Each FieldRead LiteralRead

section Parsing

variable {all toks : List Token} {n k j : ℕ}

/-- One parser after another. -/
theorem Reads.bind {α β : Type} {P : α → Prop} {Q : β → Prop} {x : Except Raised (α × List Token)}
    {f : α × List Token → Except Raised (β × List Token)} (hx : Reads P all j x)
    (hf : ∀ a rest, P a → rest <:+ all → rest.length < j → Reads Q all k (f (a, rest))) : Reads Q all k (x >>= f) := by
  cases x with
  | error raised => exact hx
  | ok found => exact hf found.1 found.2 hx.1 hx.2.1 hx.2.2

/-- Fewer tokens are left than another bound. -/
theorem Reads.mono {α : Type} {P : α → Prop} {r : Except Raised (α × List Token)} (h : Reads P all j r) (hle : j ≤ k) :
    Reads P all k r := by
  cases r with
  | error raised => exact h
  | ok found => exact ⟨h.1, h.2.1, h.2.2.trans_le hle⟩

/-- What is left after the next token. -/
theorem suffix_drop (h : toks <:+ all) : toks.drop 1 <:+ all := (List.drop_suffix 1 toks).trans h

/-- The next token. -/
theorem next_reads (h : toks <:+ all) : Reads (· ∈ all) all toks.length (next toks) := by
  cases toks with
  | nil => trivial
  | cons t toks => exact ⟨h.subset List.mem_cons_self, (List.suffix_cons t toks).trans h, Nat.lt_succ_self _⟩

/-- A token that is expected. -/
theorem expect_reads (h : toks <:+ all) (kind : TokenKind) :
    Reads (fun _ => True) all toks.length (expect kind toks) := by
  apply (next_reads h).bind
  intro t rest ht hsuffix hlt
  dsimp only
  split_ifs
  · exact ⟨trivial, hsuffix, hlt⟩
  · trivial

/-- The text of a word. -/
theorem Token.text_of_is {t : Token} {word : String} (h : t.is word = true) : String.ofList t.text = word := by
  rw [Token.is, Bool.and_eq_true, decide_eq_true_eq, decide_eq_true_eq] at h
  rw [h.2, String.ofList_toList]

/-- The number of a token. -/
theorem numberOf_spec {t : Token} (ht : t ∈ all) (hkind : t.kind = .num) (hlexed : t.Lexed) :
    (∃ v, numberOf t.text = .ok v ∧ LiteralRead v ∧ isNumber v = true) ∨
      ∃ raised, numberOf t.text = .error raised ∧ raised.OfTokens all := by
  unfold numberOf
  split_ifs with hfloat hlong
  · exact Or.inl ⟨_, rfl, ⟨rfl, trivial, fun object h => Double.round_ne_nan _ object (Json.float.inj h)⟩, rfl⟩
  · exact Or.inr ⟨_, rfl, t, ht, hkind, hfloat, hlong⟩
  · refine Or.inl ⟨_, rfl, ⟨rfl, ?_, by simp⟩, rfl⟩
    rw [Token.Lexed, hkind] at hlexed
    obtain ⟨digits, hdigits, htext⟩ := hlexed.resolve_left hfloat
    have hfilter : digits.filter isDigit = digits := List.filter_eq_self.mpr hdigits
    have hminus : isDigit '-' = false := by decide
    have hlength : digits.length ≤ maxStrDigits := by
      rcases htext with htext | htext
      · rwa [htext, hfilter, not_lt] at hlong
      · rwa [htext, List.filter_cons_of_neg (by rw [hminus]; decide), hfilter, not_lt] at hlong
    have habs : (readInt t.text).natAbs = digitsValue digits := by
      rcases htext with htext | htext
      · rw [htext]
        unfold readInt
        split
        next rest => exact absurd (hdigits '-' List.mem_cons_self) (by rw [hminus]; decide)
        next => exact Int.natAbs_natCast _
      · rw [htext, readInt, Int.natAbs_neg, Int.natAbs_natCast]
    change (Nat.toDigits 10 (readInt t.text).natAbs).length ≤ maxStrDigits
    rw [habs]
    apply Nat.toDigits_length _ _ _ (by decide)
    exact lt_of_lt_of_le (digitsValue_lt digits) (Nat.pow_le_pow_right (by decide) hlength)

/-- A field. -/
theorem parseField_reads (hlexed : ∀ t ∈ all, t.Lexed) (h : toks <:+ all) :
    Reads (fun v => ∃ field, v = .str field ∧ FieldRead field) all toks.length (parseField toks) := by
  apply (next_reads h).bind
  intro t rest ht hsuffix hlt
  dsimp only
  split_ifs with hkind hpath
  · trivial
  · trivial
  · rw [not_not] at hkind
    refine ⟨⟨_, rfl, ?_, ?_⟩, hsuffix, hlt⟩
    · rw [not_and_or, not_not] at hpath
      simpa using hpath
    · rw [String.toList_ofList]
      intro hline
      have hword := hlexed t ht
      rw [Token.Lexed, hkind] at hword
      exact absurd (hword _ hline) (by decide)

/-- A comparison. -/
theorem parseCmp_reads (hlexed : ∀ t ∈ all, t.Lexed) (h : toks <:+ all) :
    Reads (fun v => ∃ op : CmpOp, v = .str op.text) all toks.length (parseCmp toks) := by
  apply (next_reads h).bind
  intro t rest ht hsuffix hlt
  dsimp only
  split_ifs with hkind
  · have hcmp := hlexed t ht
    rw [Token.Lexed, hkind] at hcmp
    obtain ⟨op, hop⟩ := hcmp
    exact ⟨⟨op, by rw [hop]⟩, hsuffix, hlt⟩
  · trivial

/-- A number. -/
theorem parseNumber_reads (hlexed : ∀ t ∈ all, t.Lexed) (h : toks <:+ all) :
    Reads (fun v => LiteralRead v ∧ isNumber v = true) all toks.length (parseNumber toks) := by
  apply (next_reads h).bind
  intro t rest ht hsuffix hlt
  dsimp only
  split_ifs with hkind
  · rcases numberOf_spec ht hkind (hlexed t ht) with ⟨v, hv, hread⟩ | ⟨raised, hraised, hof⟩
    · rw [hv]
      exact ⟨hread, hsuffix, hlt⟩
    · rw [hraised]
      exact hof
  · trivial

/-- A literal. -/
theorem parseLiteral_reads (hlexed : ∀ t ∈ all, t.Lexed) (h : toks <:+ all) :
    Reads LiteralRead all toks.length (parseLiteral toks) := by
  apply (next_reads h).bind
  intro t rest ht hsuffix hlt
  dsimp only
  split_ifs with hstr hnum htrue hfalse
  · exact ⟨⟨rfl, trivial, by simp⟩, hsuffix, hlt⟩
  · rcases numberOf_spec ht hnum (hlexed t ht) with ⟨v, hv, hread, -⟩ | ⟨raised, hraised, hof⟩
    · rw [hv]
      exact ⟨hread, hsuffix, hlt⟩
    · rw [hraised]
      exact hof
  · exact ⟨⟨rfl, trivial, by simp⟩, hsuffix, hlt⟩
  · exact ⟨⟨rfl, trivial, by simp⟩, hsuffix, hlt⟩
  · trivial

/-- The members of a set. -/
theorem parseMembers_reads (hlexed : ∀ t ∈ all, t.Lexed) (h : toks <:+ all) (hn : toks.length < n) :
    Reads (fun ms => ∀ m ∈ ms, LiteralRead m) all toks.length (parseMembers n toks) := by
  induction n generalizing toks with
  | zero => exact absurd hn (Nat.not_lt_zero _)
  | succ n ih =>
    apply (parseLiteral_reads hlexed h).bind
    intro m rest hm hsuffix hlt
    dsimp only
    split_ifs
    · have hdrop : (rest.drop 1).length ≤ rest.length := by simp
      apply (ih (suffix_drop hsuffix) (by omega)).bind
      intro ms rest' hms hsuffix' hlt'
      have hless : rest'.length < toks.length := by omega
      exact ⟨List.forall_mem_cons.mpr ⟨hm, hms⟩, hsuffix', hless⟩
    · exact ⟨List.forall_mem_cons.mpr ⟨hm, fun m hm => absurd hm List.not_mem_nil⟩, hsuffix, hlt⟩

/-- A comparison or a set. -/
theorem parseTest_reads (hlexed : ∀ t ∈ all, t.Lexed) (h : toks <:+ all) :
    Reads NodeRead all toks.length (parseTest toks) := by
  apply (parseField_reads hlexed h).bind
  rintro f toks₁ ⟨field, rfl, hfield⟩ hsuffix₁ hlt₁
  dsimp only
  split_ifs
  · have hdrop : (toks₁.drop 1).length ≤ toks₁.length := by simp
    apply (expect_reads (suffix_drop hsuffix₁) .lbrace).bind
    intro _ toks₂ _ hsuffix₂ hlt₂
    apply (parseMembers_reads hlexed hsuffix₂ (Nat.lt_succ_self _)).bind
    intro members toks₃ hmembers hsuffix₃ hlt₃
    apply (expect_reads hsuffix₃ .rbrace).bind
    intro _ toks₄ _ hsuffix₄ hlt₄
    have hless : toks₄.length < toks.length := by omega
    exact ⟨⟨.mem field members, rfl, hfield, hmembers⟩, hsuffix₄, hless⟩
  · apply (parseCmp_reads hlexed hsuffix₁).bind
    rintro cmp toks₂ ⟨op, rfl⟩ hsuffix₂ hlt₂
    apply (parseLiteral_reads hlexed hsuffix₂).bind
    intro lit toks₃ hlit hsuffix₃ hlt₃
    have hless : toks₃.length < toks.length := by omega
    exact ⟨⟨.compare op field lit, rfl, hfield, hlit⟩, hsuffix₃, hless⟩

/-- A call of `exists`. -/
theorem parseExists_reads (hlexed : ∀ t ∈ all, t.Lexed) (h : toks <:+ all) :
    Reads NodeRead all toks.length (parseExists toks) := by
  have hdrop : (toks.drop 1).length ≤ toks.length := by simp
  apply (expect_reads (suffix_drop h) .lparen).bind
  intro _ toks₁ _ hsuffix₁ hlt₁
  apply (parseField_reads hlexed hsuffix₁).bind
  rintro f toks₂ ⟨field, rfl, hfield⟩ hsuffix₂ hlt₂
  apply (expect_reads hsuffix₂ .rparen).bind
  intro _ toks₃ _ hsuffix₃ hlt₃
  have hless : toks₃.length < toks.length := by omega
  exact ⟨⟨.present field, rfl, hfield⟩, hsuffix₃, hless⟩

/-- A call of `count`. -/
theorem parseCount_reads (hlexed : ∀ t ∈ all, t.Lexed) (h : toks <:+ all) :
    Reads NodeRead all toks.length (parseCount toks) := by
  have hdrop : (toks.drop 1).length ≤ toks.length := by simp
  apply (expect_reads (suffix_drop h) .lparen).bind
  intro _ toks₁ _ hsuffix₁ hlt₁
  apply (parseField_reads hlexed hsuffix₁).bind
  rintro f toks₂ ⟨field, rfl, hfield⟩ hsuffix₂ hlt₂
  apply (expect_reads hsuffix₂ .rparen).bind
  intro _ toks₃ _ hsuffix₃ hlt₃
  apply (parseCmp_reads hlexed hsuffix₃).bind
  rintro cmp toks₄ ⟨op, rfl⟩ hsuffix₄ hlt₄
  apply (parseNumber_reads hlexed hsuffix₄).bind
  intro bound toks₅ hbound hsuffix₅ hlt₅
  have hless : toks₅.length < toks.length := by omega
  exact ⟨⟨.count field op bound, rfl, hfield, hbound.1⟩, hsuffix₅, hless⟩

/-- The text of `and` or `or`. -/
theorem exists_chainOp {t : Token} (h : (t.is "and" || t.is "or") = true) :
    ∃ conj, String.ofList t.text = (chainOp conj).text := by
  rcases Bool.or_eq_true_iff.mp h with hand | hor
  · exact ⟨true, Token.text_of_is hand⟩
  · exact ⟨false, Token.text_of_is hor⟩

/-- The text of `all` or `any`. -/
theorem exists_quantOp {t : Token} (h : (t.is "all" || t.is "any") = true) :
    ∃ every, String.ofList t.text = (quantOp every).text := by
  rcases Bool.or_eq_true_iff.mp h with hall | hany
  · exact ⟨true, Token.text_of_is hall⟩
  · exact ⟨false, Token.text_of_is hany⟩

/-- Nodes of forms that the parser reads are those of forms. -/
theorem exists_forms {nodes : List Json} (h : ∀ node ∈ nodes, NodeRead node) :
    ∃ ps, Form.nodes ps = nodes ∧ Form.AllEach FieldRead LiteralRead ps := by
  induction nodes with
  | nil => exact ⟨[], rfl, trivial⟩
  | cons node nodes ih =>
    obtain ⟨hnode, hnodes⟩ := List.forall_mem_cons.mp h
    obtain ⟨p, rfl, hp⟩ := hnode
    obtain ⟨ps, rfl, hps⟩ := ih hnodes
    exact ⟨p :: ps, rfl, hp, hps⟩

/-- A chain of nodes that the parser reads. -/
theorem nodeRead_chain {t : Token} {nodes : List Json} (h : (t.is "and" || t.is "or") = true)
    (hnodes : ∀ node ∈ nodes, NodeRead node) : NodeRead (.list (.str (String.ofList t.text) :: nodes)) := by
  obtain ⟨conj, hconj⟩ := exists_chainOp h
  obtain ⟨ps, rfl, hps⟩ := exists_forms hnodes
  exact ⟨.chain conj ps, by rw [Form.node, hconj], hps⟩

section Steps

variable {term chain : List Token → Except Raised (Json × List Token)} {fuel : ℕ}

/-- After an operator comes a term, and more operators. -/
theorem parseOps_reads (hterm : ∀ toks, toks <:+ all → Reads NodeRead all toks.length (term toks)) {node : Json}
    (hnode : NodeRead node) (h : toks <:+ all) :
    Reads NodeRead all (toks.length + 1) (parseOps term fuel node toks) := by
  induction fuel generalizing node toks with
  | zero => trivial
  | succ fuel ih =>
    cases toks with
    | nil => exact ⟨hnode, h, Nat.lt_succ_self _⟩
    | cons t toks =>
      have hsuffix : toks <:+ all := (List.suffix_cons t toks).trans h
      rw [List.length_cons, parseOps]
      split_ifs with hop
      · apply (hterm toks hsuffix).bind
        intro next rest hnext hsuffix' hlt
        have hchain := nodeRead_chain hop (List.forall_mem_cons.mpr ⟨hnode, List.forall_mem_singleton.mpr hnext⟩)
        exact (ih hchain hsuffix').mono (by omega)
      · exact ⟨hnode, h, Nat.lt_succ_self _⟩

/-- The predicates of a call. -/
theorem parsePreds_reads (hchain : ∀ toks, toks <:+ all → Reads NodeRead all toks.length (chain toks))
    (h : toks <:+ all) :
    Reads (fun nodes => ∀ node ∈ nodes, NodeRead node) all toks.length (parsePreds chain fuel toks) := by
  induction fuel generalizing toks with
  | zero => trivial
  | succ fuel ih =>
    rw [parsePreds]
    apply (hchain toks h).bind
    intro node rest hnode hsuffix hlt
    dsimp only
    split_ifs
    · have hdrop : (rest.drop 1).length ≤ rest.length := by simp
      apply (ih (suffix_drop hsuffix)).bind
      intro nodes rest' hnodes hsuffix' hlt'
      have hless : rest'.length < toks.length := by omega
      exact ⟨List.forall_mem_cons.mpr ⟨hnode, hnodes⟩, hsuffix', hless⟩
    · exact ⟨List.forall_mem_singleton.mpr hnode, hsuffix, hlt⟩

/-- An atom. -/
theorem parseAtomStep_reads (hlexed : ∀ t ∈ all, t.Lexed)
    (hchain : ∀ toks, toks <:+ all → Reads NodeRead all toks.length (chain toks)) (h : toks <:+ all) :
    Reads NodeRead all toks.length (parseAtomStep chain toks) := by
  unfold parseAtomStep
  cases toks with
  | nil => trivial
  | cons t rest =>
    have hsuffix : rest <:+ all := (List.suffix_cons t rest).trans h
    have hlength : (t :: rest).length = rest.length + 1 := List.length_cons
    dsimp only
    split_ifs with hparen hword hand hquant hexists hcount
    · apply (hchain rest hsuffix).bind
      intro node toks₁ hnode hsuffix₁ hlt₁
      apply (expect_reads hsuffix₁ .rparen).bind
      intro _ toks₂ _ hsuffix₂ hlt₂
      have hless : toks₂.length < (t :: rest).length := by omega
      exact ⟨hnode, hsuffix₂, hless⟩
    · trivial
    · apply (expect_reads hsuffix .lparen).bind
      intro _ toks₁ _ hsuffix₁ hlt₁
      apply (parsePreds_reads hchain hsuffix₁).bind
      intro nodes toks₂ hnodes hsuffix₂ hlt₂
      apply (expect_reads hsuffix₂ .rparen).bind
      intro _ toks₃ _ hsuffix₃ hlt₃
      have hless : toks₃.length < (t :: rest).length := by omega
      exact ⟨nodeRead_chain (Bool.and_eq_true_iff.mp hand).1 hnodes, hsuffix₃, hless⟩
    · apply (expect_reads hsuffix .lparen).bind
      intro _ toks₁ _ hsuffix₁ hlt₁
      apply (parseField_reads hlexed hsuffix₁).bind
      rintro f toks₂ ⟨field, rfl, hfield⟩ hsuffix₂ hlt₂
      apply (expect_reads hsuffix₂ .comma).bind
      intro _ toks₃ _ hsuffix₃ hlt₃
      apply (hchain toks₃ hsuffix₃).bind
      rintro node toks₄ ⟨p, rfl, hp⟩ hsuffix₄ hlt₄
      apply (expect_reads hsuffix₄ .rparen).bind
      intro _ toks₅ _ hsuffix₅ hlt₅
      have hless : toks₅.length < (t :: rest).length := by omega
      obtain ⟨every, hevery⟩ := exists_quantOp (Bool.and_eq_true_iff.mp hquant).1
      exact ⟨⟨.quant every field p, by rw [Form.node, hevery], hfield, hp⟩, hsuffix₅, hless⟩
    · exact parseExists_reads hlexed h
    · exact parseCount_reads hlexed h
    · exact parseTest_reads hlexed h

end Steps

/-- What the parsers read, with room for so many calls. -/
structure ParsersRead (all : List Token) (n : ℕ) : Prop where
  chain : ∀ toks, toks <:+ all → Reads NodeRead all toks.length (parseChain n toks)
  term : ∀ toks, toks <:+ all → Reads NodeRead all toks.length (parseTerm n toks)
  atom : ∀ toks, toks <:+ all → Reads NodeRead all toks.length (parseAtom n toks)

/-- A term is an atom after negations. -/
theorem ParsersRead.term_succ (hn : ParsersRead all n) (h : toks <:+ all) :
    Reads NodeRead all toks.length (parseTerm (n + 1) toks) := by
  rw [parseTerm]
  split_ifs with hnot
  · cases toks with
    | nil => cases hnot
    | cons t toks =>
      have hsuffix : toks <:+ all := (List.suffix_cons t toks).trans h
      rw [List.length_cons]
      apply (hn.term toks hsuffix).bind
      rintro node rest ⟨p, rfl, hp⟩ hsuffix' hlt
      exact ⟨⟨.not p, rfl, hp⟩, hsuffix', Nat.lt_succ_of_lt hlt⟩
  · exact hn.atom toks h

/-- They read the same with any room. -/
theorem parsers_read (hlexed : ∀ t ∈ all, t.Lexed) (n : ℕ) : ParsersRead all n := by
  induction n with
  | zero => constructor <;> exact fun toks h => trivial
  | succ n ih =>
    constructor
    case chain =>
      intro toks h
      rw [parseChain]
      apply (ih.term toks h).bind
      intro node rest hnode hsuffix hlt
      exact (parseOps_reads ih.term hnode hsuffix).mono (by omega)
    case term => exact fun toks h => ih.term_succ h
    case atom => exact fun toks h => parseAtomStep_reads hlexed ih.chain h

end Parsing

/-- Tokens are read as the node of a form, or an error is raised about one of them. -/
theorem parseTokens_spec {n : ℕ} {toks : List Token} (hlexed : ∀ t ∈ toks, t.Lexed) :
    (∃ node, parseTokens n toks = .ok node ∧ NodeRead node) ∨
      ∃ raised, parseTokens n toks = .error raised ∧ raised.OfTokens toks := by
  cases n with
  | zero => exact Or.inr ⟨_, rfl, trivial⟩
  | succ n =>
    have hchain := (parsers_read hlexed n).chain toks List.suffix_rfl
    simp only [parseTokens]
    cases hfound : parseChain n toks with
    | error raised =>
      rw [hfound] at hchain
      exact Or.inr ⟨raised, rfl, hchain⟩
    | ok found =>
      rw [hfound] at hchain
      obtain ⟨node, rest⟩ := found
      cases rest with
      | nil => exact Or.inl ⟨node, rfl, hchain.1⟩
      | cons t rest => exact Or.inr ⟨_, rfl, trivial⟩

/-- A text is read as the node of a form, or an error is raised about its syntax, about an int that is too long, or
about the stack. -/
theorem parse_spec (n : ℕ) (text : String) : (∃ node, parse n text = .ok node ∧ NodeRead node) ∨
    ∃ raised, parse n text = .error raised ∧ (raised = .recursion ∨ (∃ message, raised = .syntaxError message) ∨
      ∃ exc toks, raised = .python exc ∧ tokenize text.toList = .ok toks ∧ ∃ t ∈ toks, t.Overlong) := by
  cases n with
  | zero => exact Or.inr ⟨_, rfl, Or.inl rfl⟩
  | succ n =>
    simp only [parse]
    split_ifs with hempty
    · exact Or.inr ⟨_, rfl, Or.inr (Or.inl ⟨_, rfl⟩)⟩
    · rcases tokenizeFrom_spec (Nat.lt_succ_self text.toList.length) with ⟨toks, htoks, hlexed⟩ | ⟨message, hmessage⟩
      · have htokenize : tokenize text.toList = .ok toks := htoks
        rw [htokenize, ok_bind]
        rcases @parseTokens_spec n _ hlexed with ⟨node, hnode, hread⟩ | ⟨raised, hraised, hof⟩
        · rw [hnode]
          exact Or.inl ⟨node, rfl, hread⟩
        · rw [hraised]
          cases raised with
          | syntaxError message => exact Or.inr ⟨_, rfl, Or.inr (Or.inl ⟨_, rfl⟩)⟩
          | python exc => exact Or.inr ⟨_, rfl, Or.inr (Or.inr ⟨exc, toks, rfl, rfl, hof⟩)⟩
          | recursion => exact Or.inr ⟨_, rfl, Or.inl rfl⟩
          | typeError => cases hof
          | escalation => cases hof
      · have htokenize : tokenize text.toList = .error (.syntaxError message) := hmessage
        rw [htokenize]
        exact Or.inr ⟨_, rfl, Or.inr (Or.inl ⟨_, rfl⟩)⟩

end MyTeam.Legacy.Predicate
