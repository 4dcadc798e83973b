import Mathlib.Algebra.Order.Ring.Rat

/-!
# Python numbers with infinities

Ints and floats as exact rationals, extended by the infinities and by `nan`, for which every
comparison is false.
-/

namespace MyTeam.Py

/-- The value of an int or a float. -/
inductive Number where
  | finite (q : ℚ)
  | posInf
  | negInf
  | nan
deriving DecidableEq

namespace Number

/-- `x <= y`. -/
def le : Number → Number → Bool
  | nan, _ | _, nan => false
  | negInf, _ | _, posInf => true
  | finite q, finite r => q ≤ r
  | posInf, finite _ | posInf, negInf | finite _, negInf => false

/-- `x < y`. -/
def lt (x y : Number) : Bool := x.le y && !y.le x

/-- `-x`. -/
def neg : Number → Number
  | finite q => finite (-q)
  | posInf => negInf
  | negInf => posInf
  | nan => nan

/-- `x + y`. -/
def add : Number → Number → Number
  | nan, _ | _, nan | posInf, negInf | negInf, posInf => nan
  | finite q, finite r => finite (q + r)
  | posInf, _ | _, posInf => posInf
  | negInf, _ | _, negInf => negInf

/-- `x - y`. -/
def sub (x y : Number) : Number := x.add y.neg

variable {x y z : Number}

/-- A number that compares is no `nan`. -/
theorem ne_nan_of_le (h : x.le y = true) : x ≠ nan ∧ y ≠ nan := by
  cases x <;> cases y <;> simp_all [le]

/-- A number that is no `nan` is at most itself. -/
theorem le_self (h : x ≠ nan) : x.le x = true := by
  cases x <;> simp_all [le]

/-- Comparisons compose. -/
theorem le_trans (hxy : x.le y = true) (hyz : y.le z = true) : x.le z = true := by
  cases x <;> cases y <;> cases z <;> simp_all [le]
  exact hxy.trans hyz

/-- Two numbers that are no `nan` compare one way or the other. -/
theorem le_of_lt_eq_false (hx : x ≠ nan) (hy : y ≠ nan) (h : x.lt y = false) : y.le x = true := by
  cases x <;> cases y <;> simp_all [lt, le]
  exact (le_total _ _).elim h id

end Number

end MyTeam.Py
