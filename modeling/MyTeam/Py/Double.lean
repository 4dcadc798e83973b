import Mathlib.Algebra.Order.Field.Power
import Mathlib.Data.Int.Log
import Mathlib.Data.Rat.Floor
import Mathlib.Tactic.Positivity
import MyTeam.Py.Number

/-!
# Python floats

A float is one of the binary fractions with 53 bits between `2 ^ -1074` and `2 ^ 1024`, an infinity or `nan`.
`round` takes a rational to the nearest of them, and a tie to the even one. A float that is rounded stays what
it is, so that a text which denotes a float exactly is read back as that float.
-/

namespace MyTeam.Py

/-- The binary fractions that a float can denote. -/
def Representable (q : ℚ) : Prop :=
  ∃ m e : ℤ, |m| < 2 ^ 53 ∧ -1074 ≤ e ∧ e ≤ 971 ∧ q = m * 2 ^ e

/-- A float. The two zeros are one; each `nan` is an object of its own, that of `json` the first. -/
inductive Double where
  | finite (q : ℚ) (representable : Representable q)
  | posInf
  | negInf
  | nan (object : ℕ)
deriving DecidableEq

/-- The nearest integer, and of two the even one. -/
def halfEven (x : ℚ) : ℤ :=
  if Int.fract x < 1 / 2 then ⌊x⌋
  else if 1 / 2 < Int.fract x then ⌊x⌋ + 1
  else if 2 ∣ ⌊x⌋ then ⌊x⌋ else ⌊x⌋ + 1

/-- An integer is its own nearest one. -/
@[simp] theorem halfEven_intCast (n : ℤ) : halfEven n = n := by
  simp [halfEven]

/-- Rounding goes up or down by less than one. -/
theorem halfEven_eq (x : ℚ) : halfEven x = ⌊x⌋ ∨ halfEven x = ⌊x⌋ + 1 := by
  unfold halfEven
  split_ifs <;> simp

/-- An integer below stays below. -/
theorem le_halfEven {n : ℤ} {x : ℚ} (h : n ≤ x) : n ≤ halfEven x := by
  have hfloor : n ≤ ⌊x⌋ := Int.le_floor.mpr h
  rcases halfEven_eq x with heq | heq <;> omega

/-- An integer above stays above. -/
theorem halfEven_le {n : ℤ} {x : ℚ} (h : x ≤ n) : halfEven x ≤ n := by
  rcases h.lt_or_eq with hlt | rfl
  · have hfloor : ⌊x⌋ < n := Int.floor_lt.mpr hlt
    rcases halfEven_eq x with heq | heq <;> omega
  · rw [halfEven_intCast]

namespace Double

/-- The value of a float. -/
def number : Double → Number
  | finite q _ => .finite q
  | posInf => .posInf
  | negInf => .negInf
  | nan _ => .nan

/-- The exponent of the last of the 53 bits, which the smallest floats lack. -/
def scale (q : ℚ) : ℤ := max (-1074) (Int.log 2 |q| - 52)

/-- The bits of the nearest binary fraction. -/
def bits (q : ℚ) : ℤ := halfEven (q / 2 ^ scale q)

variable {q : ℚ}

/-- There are 53 bits, or all are carried over. -/
theorem abs_bits_le : |bits q| ≤ 2 ^ 53 := by
  have hpos : (0 : ℚ) < 2 ^ scale q := by positivity
  have hlt : |q| < 2 ^ (scale q + 53) := by
    have hlog : |q| < (2 : ℕ) ^ (Int.log 2 |q| + 1) := Int.lt_zpow_succ_log_self (by norm_num) _
    refine lt_of_lt_of_le hlog ?_
    rw [Nat.cast_ofNat]
    apply zpow_le_zpow_right₀ (by norm_num)
    unfold scale
    omega
  have hle : |q / 2 ^ scale q| ≤ 2 ^ 53 := by
    rw [abs_div, abs_of_pos hpos, div_le_iff₀ hpos]
    rw [zpow_add₀ (by norm_num), mul_comm] at hlt
    exact_mod_cast hlt.le
  obtain ⟨hlow, hhigh⟩ := abs_le.mp hle
  apply abs_le.mpr
  constructor
  · apply le_halfEven
    exact_mod_cast hlow
  · apply halfEven_le
    exact_mod_cast hhigh

/-- Where the fraction is large, no leading bit is missing. -/
theorem le_abs_bits (hne : q ≠ 0) (hscale : -1074 < scale q) : 2 ^ 52 ≤ |bits q| := by
  have hpos : (0 : ℚ) < 2 ^ scale q := by positivity
  have hexponent : scale q = Int.log 2 |q| - 52 := by
    unfold scale at hscale ⊢
    omega
  have hle : (2 : ℚ) ^ 52 ≤ |q / 2 ^ scale q| := by
    have hlog : ((2 : ℕ) : ℚ) ^ Int.log 2 |q| ≤ |q| := Int.zpow_log_le_self (by norm_num) (abs_pos.mpr hne)
    rw [abs_div, abs_of_pos hpos, le_div_iff₀ hpos, ← zpow_natCast, ← zpow_add₀ (by norm_num)]
    have hsum : ((52 : ℕ) : ℤ) + scale q = Int.log 2 |q| := by omega
    rw [hsum]
    exact_mod_cast hlog
  rcases le_abs.mp hle with hbig | hsmall
  · apply le_abs.mpr
    left
    apply le_halfEven
    exact_mod_cast hbig
  · apply le_abs.mpr
    right
    apply le_neg.mpr
    apply halfEven_le
    push_cast
    linarith

/-- The nearest binary fraction has 53 bits, unless it is too large. -/
theorem representable_bits (hfits : |(bits q : ℚ) * 2 ^ scale q| < 2 ^ 1024) :
    Representable (bits q * 2 ^ scale q) := by
  rw [abs_mul, abs_of_pos (by positivity : (0 : ℚ) < 2 ^ scale q), ← Int.cast_abs] at hfits
  have hexponent (k : ℕ) (hk : 2 ^ k ≤ |bits q|) : scale q + k < 1024 := by
    have hpow : (2 : ℚ) ^ (k + scale q) < 2 ^ (1024 : ℤ) := by
      rw [zpow_add₀ (by norm_num), zpow_natCast]
      refine lt_of_le_of_lt ?_ (by exact_mod_cast hfits)
      apply mul_le_mul_of_nonneg_right _ (by positivity)
      exact_mod_cast hk
    have hlt := (zpow_lt_zpow_iff_right₀ (by norm_num : (1 : ℚ) < 2)).mp hpow
    omega
  have hlow : -1074 ≤ scale q := le_max_left _ _
  rcases abs_bits_le.lt_or_eq with hlt | heq
  · refine ⟨bits q, scale q, hlt, hlow, ?_, rfl⟩
    rcases eq_or_ne q 0 with rfl | hne
    · norm_num [scale]
    · rcases hlow.lt_or_eq with hnormal | hsmall
      · have := hexponent 52 (le_abs_bits hne hnormal)
        omega
      · omega
  · -- all bits are carried over
    have hcarried : bits q = 2 ^ 53 ∨ bits q = -2 ^ 53 := (abs_eq (by norm_num)).mp heq
    have hhalf : (bits q : ℚ) * 2 ^ scale q = (bits q / 2 : ℤ) * 2 ^ (scale q + 1) := by
      have heven : bits q = bits q / 2 * 2 := by omega
      rw [zpow_add₀ (by norm_num), zpow_one]
      nth_rewrite 1 [heven]
      push_cast
      ring
    have := hexponent 53 heq.ge
    refine ⟨bits q / 2, scale q + 1, abs_lt.mpr ?_, by omega, by omega, hhalf⟩
    omega

/-- `float` of a number: the nearest float, and beyond the largest of them an infinity. -/
def round (q : ℚ) : Double :=
  if h : |(bits q : ℚ) * 2 ^ scale q| < 2 ^ 1024 then finite (bits q * 2 ^ scale q) (representable_bits h)
  else if 0 < q then posInf else negInf

/-- A number that is rounded is a number. -/
theorem round_ne_nan (q : ℚ) (object : ℕ) : round q ≠ nan object := by
  unfold round
  split_ifs <;> simp

/-- Beyond the largest float there is an infinity. -/
theorem round_of_le (h : 2 ^ 1024 ≤ |q|) : round q = if 0 < q then posInf else negInf := by
  have hpos : 0 < |q| := lt_of_lt_of_le (by positivity) h
  have hlog : 1024 ≤ Int.log 2 |q| := by
    apply (Int.zpow_le_iff_le_log (by norm_num) hpos).mp
    exact_mod_cast h
  have hscale : 972 ≤ scale q := by
    unfold scale
    omega
  have hbits : (2 : ℚ) ^ 52 ≤ ((|bits q| : ℤ) : ℚ) := by
    exact_mod_cast le_abs_bits (abs_pos.mp hpos) (by omega)
  have hlarge : (2 : ℚ) ^ 1024 ≤ |(bits q : ℚ) * 2 ^ scale q| := by
    rw [abs_mul, abs_of_pos (by positivity : (0 : ℚ) < 2 ^ scale q), ← Int.cast_abs]
    calc (2 : ℚ) ^ 1024 = 2 ^ 52 * 2 ^ (972 : ℤ) := by
          rw [← zpow_natCast, ← zpow_natCast, ← zpow_add₀ (by norm_num)]
          rfl
      _ ≤ ((|bits q| : ℤ) : ℚ) * 2 ^ (972 : ℤ) := mul_le_mul_of_nonneg_right hbits (by positivity)
      _ ≤ ((|bits q| : ℤ) : ℚ) * 2 ^ scale q :=
          mul_le_mul_of_nonneg_left (zpow_le_zpow_right₀ (by norm_num) hscale) (by positivity)
  rw [round, dif_neg (not_lt.mpr hlarge)]

/-- The last bit of a float is no higher than that of its nearest binary fraction. -/
theorem scale_le {m e : ℤ} (hm : |m| < 2 ^ 53) (hlow : -1074 ≤ e) (hne : m ≠ 0) : scale ((m : ℚ) * 2 ^ e) ≤ e := by
  have habs : |(m : ℚ) * 2 ^ e| < 2 ^ (53 + e) := by
    rw [abs_mul, abs_of_pos (by positivity : (0 : ℚ) < 2 ^ e), zpow_add₀ (by norm_num), ← Int.cast_abs]
    apply mul_lt_mul_of_pos_right _ (by positivity)
    exact_mod_cast hm
  have hpos : 0 < |(m : ℚ) * 2 ^ e| := by positivity
  have hlog : Int.log 2 |(m : ℚ) * 2 ^ e| < 53 + e := by
    apply (Int.lt_zpow_iff_log_lt (by norm_num) hpos).mp
    exact_mod_cast habs
  unfold scale
  omega

/-- A float is its own nearest one. -/
theorem bits_of_representable (h : Representable q) : (bits q : ℚ) * 2 ^ scale q = q := by
  obtain ⟨m, e, hm, hlow, hhigh, rfl⟩ := h
  rcases eq_or_ne m 0 with rfl | hne
  · norm_num [bits, halfEven]
  obtain ⟨k, hk⟩ := Int.eq_ofNat_of_zero_le (sub_nonneg.mpr (scale_le hm hlow hne))
  have hquotient : (m : ℚ) * 2 ^ e / 2 ^ scale ((m : ℚ) * 2 ^ e) = (m * 2 ^ k : ℤ) := by
    rw [mul_div_assoc, ← zpow_sub₀ (by norm_num), hk]
    push_cast
    rfl
  rw [bits, hquotient, halfEven_intCast, ← hquotient]
  exact div_mul_cancel₀ _ (by positivity)

/-- A float is not too large. -/
theorem abs_lt_of_representable (h : Representable q) : |q| < 2 ^ 1024 := by
  obtain ⟨m, e, hm, hlow, hhigh, rfl⟩ := h
  rw [abs_mul, abs_of_pos (by positivity : (0 : ℚ) < 2 ^ e), ← Int.cast_abs]
  have hmantissa : ((|m| : ℤ) : ℚ) < 2 ^ 53 := by exact_mod_cast hm
  have hexponent : (2 : ℚ) ^ e ≤ 2 ^ (971 : ℤ) := zpow_le_zpow_right₀ (by norm_num) hhigh
  calc ((|m| : ℤ) : ℚ) * 2 ^ e < 2 ^ 53 * 2 ^ e := mul_lt_mul_of_pos_right hmantissa (by positivity)
    _ ≤ 2 ^ 53 * 2 ^ (971 : ℤ) := mul_le_mul_of_nonneg_left hexponent (by positivity)
    _ = 2 ^ 1024 := by rw [← zpow_natCast, ← zpow_natCast, ← zpow_add₀ (by norm_num)]; rfl

/-- A float stays what it is. -/
theorem round_of_representable (h : Representable q) : round q = finite q h := by
  have hbits := bits_of_representable h
  have hfits : |(bits q : ℚ) * 2 ^ scale q| < 2 ^ 1024 := hbits.symm ▸ abs_lt_of_representable h
  rw [round, dif_pos hfits]
  congr

end Double

end MyTeam.Py
