import Mathlib.Data.String.Basic

/-!
# Numbers in texts

A counter is written into an id with leading zeros, so that ids of one length sort as they were given out.
-/

namespace MyTeam.Py

/-- `f"{n:0{width}d}"`. -/
def zeroPadded (width n : ℕ) : String :=
  String.ofList (List.replicate (width - (Nat.toDigits 10 n).length) '0' ++ Nat.toDigits 10 n)

/-- The number is read back from the text. -/
theorem ofDigitChars_zeroPadded {width n : ℕ} : Nat.ofDigitChars 10 (zeroPadded width n).toList 0 = n := by
  rw [zeroPadded, String.toList_ofList, Nat.ofDigitChars_append, Nat.ofDigitChars_replicate_zero, Nat.mul_zero,
    Nat.ofDigitChars_ten_toDigits]

/-- Numbers with one text are equal. -/
theorem zeroPadded_injective {width : ℕ} : Function.Injective (zeroPadded width) := by
  intro m n hsame
  rw [← @ofDigitChars_zeroPadded width m, hsame, ofDigitChars_zeroPadded]

example : zeroPadded 6 42 = "000042" := by decide +kernel

end MyTeam.Py
