import MyTeam.Py.Digits
import MyTeam.Py.Double

/-!
# Floats in texts

`float` reads a decimal text, with a fraction and a power of ten, and rounds it. `repr` writes a float with as
few digits as are read back as that float, and with a power of ten where it is very large or very small.
-/

namespace MyTeam.Py

/-- The parts of a decimal text: the digits before and after the point, and the power of ten. -/
structure Decimal where
  whole : List Char
  fraction : List Char
  power : Option ℤ
deriving DecidableEq

namespace Decimal

/-- The number that a decimal text denotes. -/
def value (d : Decimal) : ℚ :=
  digitsValue (d.whole ++ d.fraction) * 10 ^ (d.power.getD 0 - d.fraction.length)

/-- A power of ten, with a sign and at least two digits. -/
def powerText (power : ℤ) : List Char :=
  'e' :: (if power < 0 then '-' else '+') :: (zeroPadded 2 power.natAbs).toList

/-- The text. -/
def text (d : Decimal) : List Char :=
  d.whole ++ ((if d.fraction = [] then [] else '.' :: d.fraction) ++ d.power.elim [] powerText)

/-- The digits are digits of ASCII, some stand before the point, and the text is not that of an int. -/
structure Written (d : Decimal) : Prop where
  whole : d.whole ≠ []
  digits : ∀ c ∈ d.whole ++ d.fraction, c.isDigit = true
  float : d.fraction ≠ [] ∨ d.power ≠ none

/-- The decimal text of `digits * 10 ^ scale`, as `repr` lays it out. -/
def layOut (digits : List Char) (scale : ℤ) : Decimal :=
  let point := digits.length + scale
  if point ≤ -4 ∨ 16 < point then ⟨digits.take 1, digits.drop 1, some (point - 1)⟩
  else if point ≤ 0 then ⟨['0'], List.replicate (-point).toNat '0' ++ digits, none⟩
  else if digits.length ≤ point then ⟨digits ++ List.replicate scale.toNat '0', ['0'], none⟩
  else ⟨digits.take point.toNat, digits.drop point.toNat, none⟩

end Decimal

/-- The exponent of a decimal text. -/
def readPower : List Char → ℤ
  | '-' :: digits => -digitsValue digits
  | '+' :: digits => digitsValue digits
  | digits => digitsValue digits

/-- A decimal text that has no sign. -/
def readUnsigned (text : List Char) : ℚ :=
  let mantissa := text.takeWhile fun c => c != 'e' && c != 'E'
  let power := (text.dropWhile fun c => c != 'e' && c != 'E').drop 1
  let whole := mantissa.takeWhile (· != '.')
  let fraction := (mantissa.dropWhile (· != '.')).drop 1
  Decimal.value ⟨whole, fraction, some (readPower power)⟩

/-- A decimal text. -/
def readDecimal : List Char → ℚ
  | '-' :: text => -readUnsigned text
  | text => readUnsigned text

namespace Decimal

variable {d : Decimal} {digits : List Char} {scale : ℤ}

/-- The power of ten is read back. -/
theorem readPower_powerText (power : ℤ) : readPower ((powerText power).drop 1) = power := by
  have hdigits : digitsValue (zeroPadded 2 power.natAbs).toList = power.natAbs := by
    rw [digitsValue_eq fun c hc => isDigit_of_mem_zeroPadded hc, ofDigitChars_zeroPadded]
  unfold powerText
  split_ifs with hneg
  · simp only [List.drop_succ_cons, List.drop_zero, readPower, hdigits]
    omega
  · simp only [List.drop_succ_cons, List.drop_zero, readPower, hdigits]
    omega

/-- A digit is none of the letters and signs of a decimal text. -/
theorem ne_of_isDigit {c : Char} (h : c.isDigit = true) : c ≠ 'e' ∧ c ≠ 'E' ∧ c ≠ '.' ∧ c ≠ '-' := by
  refine ⟨?_, ?_, ?_, ?_⟩ <;> rintro rfl <;> exact absurd h (by decide)

/-- The text is read as the number that it denotes. -/
theorem readUnsigned_text (h : d.Written) : readUnsigned d.text = d.value := by
  obtain ⟨whole, fraction, power⟩ := d
  obtain ⟨hwhole, hdigits, -⟩ := h
  dsimp only at hwhole hdigits
  have hhead (c : Char) (hc : c ∈ whole) := ne_of_isDigit (hdigits c (List.mem_append_left _ hc))
  have htail (c : Char) (hc : c ∈ fraction) := ne_of_isDigit (hdigits c (List.mem_append_right _ hc))
  have hmantissa : ∀ c ∈ whole ++ (if fraction = [] then [] else '.' :: fraction), (c != 'e' && c != 'E') = true := by
    intro c hc
    rcases List.mem_append.mp hc with hc | hc
    · simp [hhead c hc]
    · split_ifs at hc
      · cases hc
      · rcases List.mem_cons.mp hc with rfl | hc
        · rfl
        · simp [htail c hc]
  have hstop : ∀ c ∈ (power.elim [] powerText).head?, (c != 'e' && c != 'E') = false := by
    intro c hc
    cases power with
    | none => cases hc
    | some power =>
      obtain rfl := Option.some.inj hc
      rfl
  have hpoint : ∀ c ∈ (if fraction = [] then [] else '.' :: fraction).head?, (c != '.') = false := by
    intro c hc
    split_ifs at hc
    · cases hc
    · obtain rfl := Option.some.inj hc
      rfl
  unfold readUnsigned text
  rw [← List.append_assoc, takeWhile_stop hmantissa hstop, dropWhile_stop hmantissa hstop]
  dsimp only
  rw [takeWhile_stop (fun c hc => by simp [hhead c hc]) hpoint,
    dropWhile_stop (fun c hc => by simp [hhead c hc]) hpoint]
  have hfraction : (if fraction = [] then [] else '.' :: fraction).drop 1 = fraction := by
    split_ifs with hempty
    · rw [hempty]
      rfl
    · rfl
  have hpower : readPower ((power.elim [] powerText).drop 1) = power.getD 0 := by
    cases power with
    | none => rfl
    | some power => exact readPower_powerText power
  rw [hfraction, hpower]
  rfl

/-- Zeros on the left denote nothing. -/
theorem digitsValue_zeros (n : ℕ) (digits : List Char) :
    digitsValue (List.replicate n '0' ++ digits) = digitsValue digits := by
  induction n with
  | zero => rfl
  | succ n ih =>
    rw [List.replicate_succ, List.cons_append]
    exact ih

/-- Each zero on the right is a factor of ten. -/
theorem digitsValue_append_zeros (n : ℕ) (digits : List Char) :
    digitsValue (digits ++ List.replicate n '0') = digitsValue digits * 10 ^ n := by
  induction n generalizing digits with
  | zero => simp
  | succ n ih =>
    have hone : digitsValue (digits ++ ['0']) = digitsValue digits * 10 := by
      rw [digitsValue, List.foldl_append, Nat.mul_comm]
      rfl
    rw [List.replicate_succ, ← List.singleton_append, ← List.append_assoc, ih, hone, pow_succ']
    ring

/-- The layout denotes the number. -/
theorem layOut_value (hne : digits ≠ []) : (layOut digits scale).value = digitsValue digits * 10 ^ scale := by
  have hlength := List.length_pos_iff.mpr hne
  unfold layOut
  dsimp only
  split_ifs with hexponent hsmall hlarge
  · have hpower : (digits.length : ℤ) + scale - 1 - (digits.length - 1 : ℕ) = scale := by omega
    simp only [value, List.take_append_drop, Option.getD_some, List.length_drop, hpower]
  · have hzeros : digitsValue (['0'] ++ (List.replicate (-((digits.length : ℤ) + scale)).toNat '0' ++ digits)) =
        digitsValue digits := by
      rw [← List.append_assoc, ← List.replicate_one, List.replicate_append_replicate, digitsValue_zeros]
    have hpower : (0 : ℤ) - ((-((digits.length : ℤ) + scale)).toNat + digits.length : ℕ) = scale := by omega
    simp only [value, Option.getD_none, List.length_append, List.length_replicate, hpower, hzeros]
  · have hscale : scale = scale.toNat := by omega
    have hzeros : digitsValue (digits ++ List.replicate scale.toNat '0' ++ ['0']) =
        digitsValue digits * 10 ^ (scale.toNat + 1) := by
      rw [List.append_assoc, ← List.replicate_one, List.replicate_append_replicate, digitsValue_append_zeros]
    simp only [value, Option.getD_none, List.length_singleton, hzeros]
    rw [hscale, zpow_natCast, Int.toNat_natCast]
    push_cast
    rw [zpow_neg_one, pow_succ, mul_assoc, mul_assoc, mul_inv_cancel₀ (by norm_num), mul_one]
  · have hpower : (0 : ℤ) - (digits.length - ((digits.length : ℤ) + scale).toNat : ℕ) = scale := by omega
    simp only [value, List.take_append_drop, Option.getD_none, List.length_drop, hpower]

/-- The layout is a decimal text. -/
theorem layOut_written (hne : digits ≠ [])
    (hdigits : ∀ c ∈ digits, c.isDigit = true) : (layOut digits scale).Written := by
  unfold layOut
  dsimp only
  have hlength := List.length_pos_iff.mpr hne
  have hzeros (n : ℕ) : ∀ c ∈ List.replicate n '0', c.isDigit = true := fun c hc => by
    rw [List.eq_of_mem_replicate hc]
    rfl
  split_ifs with hexponent hsmall hlarge
  · refine ⟨by simpa using hne, ?_, Or.inr (Option.some_ne_none _)⟩
    rwa [List.take_append_drop]
  · refine ⟨List.cons_ne_nil _ _, ?_, Or.inl (by simp [hne])⟩
    rw [← List.append_assoc, ← List.replicate_one, List.replicate_append_replicate]
    intro c hc
    rcases List.mem_append.mp hc with hzero | hdigit
    · exact hzeros _ c hzero
    · exact hdigits c hdigit
  · refine ⟨by simp [hne], ?_, Or.inl (List.cons_ne_nil _ _)⟩
    rw [List.append_assoc, ← List.replicate_one, List.replicate_append_replicate]
    intro c hc
    rcases List.mem_append.mp hc with hdigit | hzero
    · exact hdigits c hdigit
    · exact hzeros _ c hzero
  · refine ⟨?_, ?_, Or.inl ?_⟩
    · simpa [hne] using hsmall
    · rwa [List.take_append_drop]
    · simp
      omega

end Decimal

namespace Decimal

variable {d : Decimal}

/-- It begins with a digit. -/
theorem Written.exists_text_eq_cons (h : d.Written) : ∃ c rest, d.text = c :: rest ∧ c.isDigit = true := by
  obtain ⟨c, rest, hwhole⟩ := List.exists_cons_of_ne_nil h.whole
  refine ⟨c, _, by rw [text, hwhole]; rfl, h.digits c ?_⟩
  rw [hwhole]
  exact List.mem_cons_self

/-- Its characters. -/
theorem Written.mem_text (h : d.Written) {c : Char} (hc : c ∈ d.text) :
    c.isDigit = true ∨ c ∈ ['.', 'e', '-', '+'] := by
  rcases List.mem_append.mp hc with hwhole | hc
  · exact Or.inl (h.digits c (List.mem_append_left _ hwhole))
  rcases List.mem_append.mp hc with hfraction | hpower
  · split_ifs at hfraction
    · cases hfraction
    · rcases List.mem_cons.mp hfraction with rfl | hfraction
      · exact Or.inr (by decide)
      · exact Or.inl (h.digits c (List.mem_append_right _ hfraction))
  · cases hnone : d.power with
    | none =>
      rw [hnone] at hpower
      cases hpower
    | some power =>
      rw [hnone] at hpower
      rcases List.mem_cons.mp hpower with rfl | hpower
      · exact Or.inr (by decide)
      rcases List.mem_cons.mp hpower with rfl | hpower
      · right
        split_ifs <;> decide
      · exact Or.inl (isDigit_of_mem_zeroPadded hpower)

/-- It is not the text of an int. -/
theorem Written.mem_text_or (h : d.Written) : '.' ∈ d.text ∨ 'e' ∈ d.text := by
  rcases h.float with hfraction | hpower
  · left
    unfold text
    rw [if_neg hfraction]
    exact List.mem_append_right _ (List.mem_append_left _ List.mem_cons_self)
  · right
    obtain ⟨power, hsome⟩ := Option.ne_none_iff_exists'.mp hpower
    unfold text
    rw [hsome]
    exact List.mem_append_right _ (List.mem_append_right _ List.mem_cons_self)

end Decimal

namespace Double

/-- The sign of a number. -/
def sign (q : ℚ) : ℚ := if q < 0 then -1 else 1

/-- The nearest decimal with `n + 1` digits, as the digits and the power of ten of the last. -/
def significant (q : ℚ) (n : ℕ) : ℕ × ℤ :=
  ((halfEven (|q| / 10 ^ (Int.log 10 |q| - n))).toNat, Int.log 10 |q| - n)

/-- All digits. -/
def exactDigits (q : ℚ) : ℕ × ℤ := (⌊|q| * 10 ^ 1074⌋.toNat, -1074)

/-- The digits that `repr` writes: as few as are read back as the float, and then the nearest of these. -/
def shortest (q : ℚ) : ℕ × ℤ :=
  let found := ((List.range 17).map (significant q)).find? fun d => round (sign q * (d.1 * 10 ^ d.2)) = round q
  let digits := found.getD (exactDigits q)
  if digits.1 = 10 then (1, digits.2 + 1) else digits

/-- A float without its sign, as `repr` writes it. -/
def decimal (q : ℚ) : Decimal :=
  if q = 0 then ⟨['0'], ['0'], none⟩ else .layOut (Nat.toDigits 10 (shortest q).1) (shortest q).2

/-- `repr` of a float. -/
def repr : Double → List Char
  | finite q _ => if q < 0 then '-' :: (decimal q).text else (decimal q).text
  | posInf => "inf".toList
  | negInf => "-inf".toList
  | nan _ => "nan".toList

/-- `float` of a decimal text. -/
def read (text : List Char) : Double := round (readDecimal text)

variable {q : ℚ}

/-- A number is its size and its sign. -/
theorem sign_mul_abs (q : ℚ) : sign q * |q| = q := by
  unfold sign
  split_ifs with hneg
  · rw [abs_of_neg hneg]
    ring
  · rw [abs_of_nonneg (not_lt.mp hneg), one_mul]

/-- A binary fraction has a decimal fraction of as many digits. -/
theorem floor_mul_pow {x : ℚ} {n : ℕ} {m : ℤ} (h : x * 2 ^ (n : ℤ) = m) : (⌊x * 10 ^ n⌋ : ℚ) * 10 ^ (-n : ℤ) = x := by
  have hten : x * 10 ^ n = (m * 5 ^ n : ℤ) := by
    have hfactors : (10 : ℚ) ^ n = 2 ^ n * 5 ^ n := by rw [← mul_pow]; norm_num
    rw [zpow_natCast] at h
    rw [hfactors, ← mul_assoc, h]
    push_cast
    rfl
  rw [hten, Int.floor_intCast, ← hten, mul_assoc, zpow_neg, zpow_natCast, mul_inv_cancel₀ (by positivity), mul_one]

/-- All digits denote the float itself. -/
theorem exactDigits_value (h : Representable q) : ((exactDigits q).1 : ℚ) * 10 ^ (exactDigits q).2 = |q| := by
  obtain ⟨m, e, -, hlow, -, rfl⟩ := h
  obtain ⟨k, hk⟩ := Int.eq_ofNat_of_zero_le (sub_nonneg.mpr hlow)
  have hbinary : |(m : ℚ) * 2 ^ e| * 2 ^ ((1074 : ℕ) : ℤ) = (|m| * 2 ^ k : ℤ) := by
    rw [abs_mul, abs_of_pos (by positivity : (0 : ℚ) < 2 ^ e), mul_assoc, ← zpow_add₀ (by norm_num)]
    have hexponent : e + (1074 : ℕ) = k := by omega
    rw [hexponent, zpow_natCast]
    push_cast
    rfl
  have hnonneg : 0 ≤ ⌊|(m : ℚ) * 2 ^ e| * 10 ^ 1074⌋ :=
    Int.floor_nonneg.mpr (mul_nonneg (abs_nonneg _) (pow_nonneg (by norm_num) _))
  rw [exactDigits]
  dsimp only
  rw [← Int.cast_natCast, Int.toNat_of_nonneg hnonneg]
  exact floor_mul_pow hbinary

/-- What is written is read back. -/
theorem round_shortest (h : Representable q) : round (sign q * ((shortest q).1 * 10 ^ (shortest q).2)) = round q := by
  have hdigits (digits : ℕ × ℤ) (hread : round (sign q * (digits.1 * 10 ^ digits.2)) = round q) :
      round (sign q * ((if digits.1 = 10 then (1, digits.2 + 1) else digits).1 *
        10 ^ (if digits.1 = 10 then (1, digits.2 + 1) else digits).2)) = round q := by
    split_ifs with hten
    · rw [← hread, hten, zpow_add₀ (by norm_num), zpow_one]
      congr 2
      push_cast
      ring
    · exact hread
  apply hdigits
  cases hfound : ((List.range 17).map (significant q)).find? fun d =>
      round (sign q * (d.1 * 10 ^ d.2)) = round q with
  | none => rw [Option.getD_none, exactDigits_value h, sign_mul_abs]
  | some digits => simpa using List.find?_some hfound

/-- What `repr` writes is a decimal text. -/
theorem decimal_written (q : ℚ) : (decimal q).Written := by
  unfold decimal
  split_ifs with hzero
  · exact ⟨by decide, List.all_eq_true.mp (by decide), by decide⟩
  · exact Decimal.layOut_written Nat.toDigits_ne_nil fun c hc => isDigit_of_mem_toDigits hc

/-- A decimal text without a sign. -/
theorem readDecimal_text {d : Decimal} (h : d.Written) : readDecimal d.text = d.value := by
  obtain ⟨c, rest, htext, hc⟩ := h.exists_text_eq_cons
  rw [← Decimal.readUnsigned_text h, htext, readDecimal]
  rintro text ⟨⟩
  exact absurd hc (by decide)

/-- `float(repr(x)) == x`. -/
theorem read_repr (h : Representable q) : read (repr (finite q h)) = finite q h := by
  have hvalue : round (sign q * (decimal q).value) = finite q h := by
    rw [← round_of_representable h]
    unfold decimal
    split_ifs with hzero
    · have hnone : digitsValue (['0'] ++ ['0']) = 0 := by decide
      rw [hzero, Decimal.value, hnone, Nat.cast_zero, zero_mul, mul_zero]
    · rw [Decimal.layOut_value Nat.toDigits_ne_nil, digitsValue_toDigits, round_shortest h]
  rw [read, repr]
  split_ifs with hneg
  · rw [readDecimal, Decimal.readUnsigned_text (decimal_written q), ← hvalue, sign, if_pos hneg, neg_one_mul]
  · rw [readDecimal_text (decimal_written q), ← hvalue, sign, if_neg hneg, one_mul]

end Double

end MyTeam.Py
