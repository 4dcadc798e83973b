import Mathlib.Data.Int.ModEq
import Mathlib.Tactic.Ring
import Mathlib.Tactic.Linarith
import Mathlib.Tactic.Positivity

/-!
# Cron rules

A cron rule fires at a time of day, every day or on some days of the week. Instants are counted in
microseconds of the business clock, whose offset from UTC is fixed, from the beginning of a Monday.
`next_fire_after` is the least later instant at which the rule fires.
-/

namespace MyTeam.Legacy

/-- A day, in microseconds. -/
def dayLength : ℤ :=
  86400000000

/-- `weekday`, from 0 for Monday to 6 for Sunday. -/
def weekday (t : ℤ) : ℤ :=
  t / dayLength % 7

/-- The frequencies of a cron rule. -/
inductive CronFrequency
  | daily
  | weekly
deriving DecidableEq, Repr

/-- `CronSpec`, with `at_time` as it is parsed. -/
structure CronSpec where
  freq : CronFrequency
  daysOfWeek : List ℤ := []
  hour : ℕ
  minute : ℕ
  inRange : hour ≤ 23 ∧ minute ≤ 59
  weekdays : freq = .weekly → daysOfWeek ≠ [] ∧ ∀ day ∈ daysOfWeek, 0 ≤ day ∧ day ≤ 6

namespace CronSpec

variable (spec : CronSpec)

/-- The time of day at which the rule fires. -/
def atTime : ℤ :=
  (spec.hour * 60 + spec.minute) * 60000000

/-- The loop of `next_fire_after` over a number of days; `none` is the `ValueError` after it. -/
def firstWanted (wanted : List ℤ) : ℕ → ℤ → Option ℤ
  | 0, _ => none
  | n + 1, candidate => if weekday candidate ∈ wanted then some candidate
      else firstWanted wanted n (candidate + dayLength)

/-- The next instant with the time of day of the rule. -/
def nextCandidate (after : ℤ) : ℤ :=
  let candidate := after - after % dayLength + spec.atTime
  if candidate ≤ after then candidate + dayLength else candidate

/-- `next_fire_after`. -/
def nextFireAfter (after : ℤ) : Option ℤ :=
  match spec.freq with
  | .daily => some (spec.nextCandidate after)
  | .weekly => firstWanted spec.daysOfWeek 8 (spec.nextCandidate after)

/-- The rule fires at an instant: the time of day is `at_time` and the weekday is allowed. -/
def Occurs (t : ℤ) : Prop :=
  t % dayLength = spec.atTime ∧ (spec.freq = .weekly → weekday t ∈ spec.daysOfWeek)

variable {spec} {after t u : ℤ}

/-- The time of day of a rule is less than a day. -/
theorem atTime_lt : 0 ≤ spec.atTime ∧ spec.atTime < dayLength := by
  have hrange := spec.inRange
  unfold atTime dayLength
  omega

/-- The next instant with the time of day comes later, and no other comes before it. -/
theorem nextCandidate_least : after < spec.nextCandidate after ∧ spec.nextCandidate after % dayLength = spec.atTime ∧
    ∀ u, u % dayLength = spec.atTime → after < u → ∃ k : ℕ, u = spec.nextCandidate after + k * dayLength := by
  have hat := spec.atTime_lt
  have hday : (0 : ℤ) < dayLength := by decide
  have hmod := Int.emod_nonneg after hday.ne'
  have hlt := Int.emod_lt_of_pos after hday
  have hbase : after - after % dayLength = after / dayLength * dayLength := by
    have := Int.emod_add_mul_ediv after dayLength
    linarith
  obtain ⟨q, hq, hqlt, hqle⟩ : ∃ q : ℤ, spec.nextCandidate after = q * dayLength + spec.atTime ∧
      after < q * dayLength + spec.atTime ∧ (q - 1) * dayLength + spec.atTime ≤ after := by
    unfold nextCandidate
    dsimp only
    split
    · refine ⟨after / dayLength + 1, ?_, ?_, ?_⟩ <;> linarith
    · refine ⟨after / dayLength, ?_, ?_, ?_⟩ <;> linarith
  refine ⟨hq ▸ hqlt, ?_, fun u hu hafter => ?_⟩
  · rw [hq, Int.add_emod, Int.mul_emod_left, zero_add, Int.emod_emod_of_dvd _ dvd_rfl]
    exact Int.emod_eq_of_lt hat.1 hat.2
  · have hudiv := Int.emod_add_mul_ediv u dayLength
    rw [hu] at hudiv
    have hquot : q ≤ u / dayLength := by
      by_contra hless
      have hstep : u / dayLength ≤ q - 1 := by omega
      have hmul := Int.mul_le_mul_of_nonneg_left hstep hday.le
      linarith
    refine ⟨(u / dayLength - q).toNat, ?_⟩
    rw [Int.toNat_of_nonneg (Int.sub_nonneg.mpr hquot), hq]
    linarith

/-- A number of days later it is so many days of the week later. -/
theorem weekday_add (t : ℤ) (k : ℕ) : weekday (t + k * dayLength) = (weekday t + k) % 7 := by
  unfold weekday
  rw [Int.add_mul_ediv_right _ _ (by decide)]
  omega

/-- The loop finds the first of the days with an allowed weekday, if there is one. -/
theorem firstWanted_spec {wanted : List ℤ} {n : ℕ} {candidate : ℤ}
    (h : ∃ k < n, weekday (candidate + k * dayLength) ∈ wanted) :
    ∃ k : ℕ, firstWanted wanted n candidate = some (candidate + k * dayLength) ∧
      weekday (candidate + k * dayLength) ∈ wanted ∧ ∀ j < k, weekday (candidate + j * dayLength) ∉ wanted := by
  induction n generalizing candidate with
  | zero =>
    obtain ⟨_, hk, -⟩ := h
    exact absurd hk (Nat.not_lt_zero _)
  | succ n ih =>
    rw [firstWanted]
    split
    next hnow => exact ⟨0, by simp, by simpa using hnow, fun j hj => absurd hj (Nat.not_lt_zero _)⟩
    next hnow =>
      have hshift (j : ℕ) : candidate + dayLength + j * dayLength = candidate + (j + 1 : ℕ) * dayLength := by
        push_cast
        ring
      obtain ⟨k, hk, hwanted⟩ := h
      cases k with
      | zero => exact absurd (by simpa using hwanted) hnow
      | succ k =>
        obtain ⟨first, hfirst, hmem, hbefore⟩ := ih ⟨k, Nat.lt_of_succ_lt_succ hk, by rwa [hshift]⟩
        rw [hshift] at hfirst hmem
        refine ⟨first + 1, hfirst, hmem, fun j hj => ?_⟩
        cases j with
        | zero => simpa using hnow
        | succ j =>
          rw [← hshift]
          exact hbefore j (Nat.lt_of_succ_lt_succ hj)

/-- In a week every weekday comes by. -/
theorem exists_weekday (t : ℤ) {day : ℤ} (hday : 0 ≤ day ∧ day ≤ 6) :
    ∃ k < 8, weekday (t + (k : ℕ) * dayLength) = day := by
  refine ⟨((day - weekday t) % 7).toNat, by omega, ?_⟩
  rw [weekday_add]
  omega

/-- `next_fire_after` is the least later instant at which the rule fires. -/
theorem nextFireAfter_least (spec : CronSpec) (after : ℤ) : ∃ t, spec.nextFireAfter after = some t ∧ after < t ∧
    spec.Occurs t ∧ ∀ u, spec.Occurs u → after < u → t ≤ u := by
  obtain ⟨hlater, htime, hothers⟩ := @nextCandidate_least spec after
  have hday : (0 : ℤ) < dayLength := by decide
  unfold nextFireAfter Occurs
  cases hfreq : spec.freq with
  | daily =>
    refine ⟨_, rfl, hlater, ⟨htime, by simp⟩, fun u hu hafter => ?_⟩
    obtain ⟨k, rfl⟩ := hothers u hu.1 hafter
    exact le_add_of_nonneg_right (mul_nonneg (Nat.cast_nonneg _) hday.le)
  | weekly =>
    obtain ⟨hsome, hrange⟩ := spec.weekdays hfreq
    obtain ⟨day, hmem⟩ := List.exists_mem_of_ne_nil _ hsome
    obtain ⟨k, hk, hwanted⟩ := exists_weekday (spec.nextCandidate after) (hrange day hmem)
    obtain ⟨first, hfirst, hallowed, hbefore⟩ := firstWanted_spec ⟨k, hk, hwanted.symm ▸ hmem⟩
    refine ⟨_, hfirst, ?_, ⟨?_, fun _ => hallowed⟩, fun u hu hafter => ?_⟩
    · exact hlater.trans_le (le_add_of_nonneg_right (mul_nonneg (Nat.cast_nonneg _) hday.le))
    · rw [Int.add_mul_emod_self_right]
      exact htime
    · obtain ⟨j, rfl⟩ := hothers u hu.1 hafter
      have hle : first ≤ j := by
        by_contra hless
        exact hbefore j (not_le.mp hless) (hu.2 rfl)
      have hmul : (first : ℤ) * dayLength ≤ j * dayLength :=
        Int.mul_le_mul_of_nonneg_right (Int.ofNat_le.mpr hle) hday.le
      linarith

end CronSpec

end MyTeam.Legacy
