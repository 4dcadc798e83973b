import Mathlib.Data.List.Induction
import MyTeam.Py.Format

/-!
# Digits

The decimal digits that a pattern `\d` matches and that `int` and `float` read: those of every script. A text is
read up to the first character that is none of them.
-/

namespace MyTeam.Py

/-- The zero of every script; the other digits of the script follow it. -/
def digitZeros : List ℕ :=
  [0x30, 0x660, 0x6F0, 0x7C0, 0x966, 0x9E6, 0xA66, 0xAE6, 0xB66, 0xBE6, 0xC66, 0xCE6, 0xD66, 0xDE6, 0xE50, 0xED0,
    0xF20, 0x1040, 0x1090, 0x17E0, 0x1810, 0x1946, 0x19D0, 0x1A80, 0x1A90, 0x1B50, 0x1BB0, 0x1C40, 0x1C50, 0xA620,
    0xA8D0, 0xA900, 0xA9D0, 0xA9F0, 0xAA50, 0xABF0, 0xFF10, 0x104A0, 0x10D30, 0x11066, 0x110F0, 0x11136, 0x111D0,
    0x112F0, 0x11450, 0x114D0, 0x11650, 0x116C0, 0x11730, 0x118E0, 0x11950, 0x11C50, 0x11D50, 0x11DA0, 0x11F50,
    0x16A60, 0x16AC0, 0x16B50, 0x1D7CE, 0x1D7D8, 0x1D7E2, 0x1D7EC, 0x1D7F6, 0x1E140, 0x1E2F0, 0x1E4F0, 0x1E950,
    0x1FBF0]

/-- The value of a digit, `none` for other characters. -/
def digitValue (c : Char) : Option ℕ :=
  (digitZeros.find? fun start => start ≤ c.toNat ∧ c.toNat < start + 10).map fun start => c.toNat - start

/-- `\d`. -/
def isDigit (c : Char) : Bool := (digitValue c).isSome

/-- The number that digits denote. -/
def digitsValue (digits : List Char) : ℕ :=
  digits.foldl (fun n c => 10 * n + (digitValue c).getD 0) 0

/-- The ten digits of ASCII. -/
theorem digitValue_of_isDigit {c : Char} (h : c.isDigit = true) : digitValue c = some (c.toNat - '0'.toNat) := by
  have hbounds : 48 ≤ c.toNat ∧ c.toNat ≤ 57 := by simpa [Char.isDigit, UInt32.le_iff_toNat_le] using h
  have hfound : (0x30 ≤ c.toNat ∧ c.toNat < 0x30 + 10) := by omega
  rw [digitValue, digitZeros, List.find?_cons_of_pos (by simpa using hfound)]
  rfl

/-- They are digits. -/
theorem isDigit_of_isDigit {c : Char} (h : c.isDigit = true) : isDigit c = true := by
  rw [isDigit, digitValue_of_isDigit h]
  rfl

/-- A letter or sign of ASCII is no digit. -/
theorem isDigit_eq_false {c : Char} (h : c.isDigit = false) (hascii : c.toNat < 128) : isDigit c = false := by
  have hbounds : ¬(48 ≤ c.toNat ∧ c.toNat ≤ 57) := by simpa [Char.isDigit, UInt32.le_iff_toNat_le] using h
  have hnone : digitZeros.find? (fun start => decide (start ≤ c.toNat ∧ c.toNat < start + 10)) = none := by
    apply List.find?_eq_none.mpr
    intro start hstart
    have hlarge : start = 0x30 ∨ 128 ≤ start := by
      revert start
      decide
    rcases hlarge with rfl | hlarge <;> simp <;> omega
  rw [isDigit, digitValue, hnone]
  rfl

/-- A digit is less than ten. -/
theorem digitValue_lt (c : Char) : (digitValue c).getD 0 < 10 := by
  unfold digitValue
  cases hfound : digitZeros.find? fun start => start ≤ c.toNat ∧ c.toNat < start + 10 with
  | none => exact Nat.zero_lt_succ _
  | some start =>
    have hrange := List.find?_some hfound
    simp only [decide_eq_true_eq] at hrange
    simp only [Option.map_some, Option.getD_some]
    omega

/-- So many digits denote less than that power of ten. -/
theorem digitsValue_lt (digits : List Char) : digitsValue digits < 10 ^ digits.length := by
  induction digits using List.reverseRecOn with
  | nil => exact Nat.zero_lt_one
  | append_singleton digits c ih =>
    have hdigit := digitValue_lt c
    rw [digitsValue, List.foldl_append, List.length_append, List.length_singleton, Nat.pow_succ]
    simp only [List.foldl_cons, List.foldl_nil]
    rw [digitsValue] at ih
    omega

/-- Digits of ASCII denote what their decimal notation denotes. -/
theorem digitsValue_eq {digits : List Char} (h : ∀ c ∈ digits, c.isDigit = true) :
    digitsValue digits = Nat.ofDigitChars 10 digits 0 := by
  rw [digitsValue, Nat.ofDigitChars_eq_foldl]
  apply List.foldl_ext
  intro n c hc
  rw [digitValue_of_isDigit (h c hc), Option.getD_some]

/-- The digits of a number. -/
theorem isDigit_of_mem_toDigits {n : ℕ} {c : Char} (h : c ∈ Nat.toDigits 10 n) : c.isDigit = true :=
  Nat.isDigit_of_mem_toDigits (by decide) (by decide) h

/-- They denote the number. -/
@[simp] theorem digitsValue_toDigits (n : ℕ) : digitsValue (Nat.toDigits 10 n) = n := by
  rw [digitsValue_eq fun c hc => isDigit_of_mem_toDigits hc, Nat.ofDigitChars_ten_toDigits]

/-- A text with leading zeros consists of digits. -/
theorem isDigit_of_mem_zeroPadded {width n : ℕ} {c : Char} (h : c ∈ (zeroPadded width n).toList) :
    c.isDigit = true := by
  rw [zeroPadded, String.toList_ofList] at h
  rcases List.mem_append.mp h with hzero | hdigit
  · rw [List.eq_of_mem_replicate hzero]
    rfl
  · exact isDigit_of_mem_toDigits hdigit

/-- The int that a text denotes. -/
def readInt : List Char → ℤ
  | '-' :: digits => -digitsValue digits
  | digits => digitsValue digits

/-- A negative int is read back. -/
theorem readInt_neg (n : ℕ) : readInt ('-' :: Nat.toDigits 10 n) = -n := by
  rw [readInt, digitsValue_toDigits]

/-- Another int is read back. -/
theorem readInt_toDigits (n : ℕ) : readInt (Nat.toDigits 10 n) = n := by
  have hdigits : ∀ c ∈ Nat.toDigits 10 n, c.isDigit = true := fun c hc => isDigit_of_mem_toDigits hc
  unfold readInt
  split
  next digits hminus =>
    rw [hminus] at hdigits
    exact absurd (hdigits '-' List.mem_cons_self) (by decide)
  next => rw [digitsValue_toDigits]

section Reading

variable {α : Type} {p : α → Bool} {xs ys : List α}

/-- A text is read up to the first other character. -/
theorem takeWhile_stop (h : ∀ x ∈ xs, p x = true) (hstop : ∀ y ∈ ys.head?, p y = false) :
    (xs ++ ys).takeWhile p = xs := by
  rw [List.takeWhile_append_of_pos h]
  cases ys with
  | nil => simp
  | cons y ys => rw [List.takeWhile_cons_of_neg (by simp [hstop y rfl]), List.append_nil]

/-- The rest begins there. -/
theorem dropWhile_stop (h : ∀ x ∈ xs, p x = true) (hstop : ∀ y ∈ ys.head?, p y = false) :
    (xs ++ ys).dropWhile p = ys := by
  rw [List.dropWhile_append_of_pos h]
  cases ys with
  | nil => rfl
  | cons y ys => rw [List.dropWhile_cons_of_neg (by simp [hstop y rfl])]

end Reading

end MyTeam.Py
