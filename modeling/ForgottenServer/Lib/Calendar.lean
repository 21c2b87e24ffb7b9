import Mathlib.Algebra.BigOperators.Intervals
import Mathlib.Algebra.Order.BigOperators.Group.Finset
import Mathlib.Tactic.Ring

/-! # Days of the Gregorian calendar

A date is a year and a day of it. Dates are ordered as the days follow one
another, and counted from the first day of the year 0 on. A run is a stretch of
days without a gap. -/
namespace ForgottenServer.Lib.Calendar

def isLeap (year : ℕ) : Bool := (year % 4 = 0 && year % 100 ≠ 0) || year % 400 = 0

def daysInYear (year : ℕ) : ℕ := if isLeap year then 366 else 365

structure Date where
  year : ℕ
  yday : ℕ
  yday_pos : 0 < yday
  yday_le : yday ≤ daysInYear year
  deriving DecidableEq, Repr

theorem le_daysInYear (year : ℕ) : 365 ≤ daysInYear year := by
  unfold daysInYear
  split <;> omega

def daysBefore (year : ℕ) : ℕ := ∑ y ∈ Finset.range year, daysInYear y

theorem daysBefore_succ (year : ℕ) : daysBefore (year + 1) = daysBefore year + daysInYear year :=
  Finset.sum_range_succ _ _

theorem daysBefore_add_le (year k : ℕ) : daysBefore year + 365 * k ≤ daysBefore (year + k) := by
  induction k with
  | zero => simp
  | succ k ih =>
    calc daysBefore year + 365 * (k + 1) = daysBefore year + 365 * k + 365 := by ring
      _ ≤ daysBefore (year + k) + daysInYear (year + k) := Nat.add_le_add ih (le_daysInYear _)
      _ = daysBefore (year + (k + 1)) := (daysBefore_succ (year + k)).symm

namespace Date

def number (d : Date) : ℕ := daysBefore d.year + d.yday

/-- No later than. -/
def Le (d e : Date) : Prop := d.year < e.year ∨ d.year = e.year ∧ d.yday ≤ e.yday

instance : DecidableRel Le := fun _ _ => inferInstanceAs (Decidable (_ ∨ _))

theorem number_lt_of_year {d e : Date} (h : d.year < e.year) : d.number < e.number := by
  obtain ⟨k, hk⟩ := Nat.exists_eq_add_of_lt h
  have hsteps := daysBefore_add_le (d.year + 1) k
  have hyear := daysBefore_succ d.year
  have hd := d.yday_le
  have he := e.yday_pos
  have hyears : d.year + k + 1 = d.year + 1 + k := by omega
  unfold number
  rw [hk, hyears]
  omega

theorem le_iff_number {d e : Date} : d.Le e ↔ d.number ≤ e.number := by
  rcases Nat.lt_trichotomy d.year e.year with h | h | h
  · have := number_lt_of_year h
    exact ⟨fun _ => this.le, fun _ => .inl h⟩
  · simp [Le, number, h]
  · have := number_lt_of_year h
    constructor
    · intro hle
      rcases hle with hlt | ⟨heq, _⟩ <;> omega
    · omega

theorem number_inj {d e : Date} : d.number = e.number ↔ d = e := by
  constructor
  · intro h
    have hyear : d.year = e.year := by
      rcases Nat.lt_trichotomy d.year e.year with hlt | heq | hgt
      · have := number_lt_of_year hlt
        omega
      · exact heq
      · have := number_lt_of_year hgt
        omega
    obtain ⟨year, yday, _, _⟩ := d
    obtain ⟨year', yday', _, _⟩ := e
    subst hyear
    simp only [number, Nat.add_left_cancel_iff] at h
    subst h
    rfl
  · exact congrArg number

/-- From a year to the next one the rest of the year is counted. -/
theorem number_of_next_year {d e : Date} (h : e.year = d.year + 1) :
    e.number + d.yday = d.number + daysInYear d.year + e.yday := by
  unfold number
  rw [h, daysBefore_succ]
  omega

/-- Over more than one year there are more than 365 days. -/
theorem number_of_later_year {d e : Date} (h : d.year + 1 < e.year) : d.number + 365 < e.number := by
  obtain ⟨k, hk⟩ := Nat.exists_eq_add_of_lt h
  have hsteps := daysBefore_add_le (d.year + 2) k
  have hyear := daysBefore_succ d.year
  have hyear' : daysBefore (d.year + 2) = daysBefore (d.year + 1) + daysInYear (d.year + 1) :=
    daysBefore_succ (d.year + 1)
  have hlong := le_daysInYear (d.year + 1)
  have hd := d.yday_le
  have he := e.yday_pos
  have hyears : d.year + 1 + k + 1 = d.year + 2 + k := by omega
  unfold number
  rw [hk, hyears]
  omega

end Date

/-! ## Runs -/

/-- How many days in a row, the last of them the `n`-th, are among the days. -/
def runLength (days : List ℕ) : ℕ → ℕ
  | 0 => if 0 ∈ days then 1 else 0
  | n + 1 => if n + 1 ∈ days then runLength days n + 1 else 0

variable {days : List ℕ}

theorem runLength_of_not_mem {n : ℕ} (h : n ∉ days) : runLength days n = 0 := by
  cases n with
  | zero => exact if_neg h
  | succ n => exact if_neg h

theorem runLength_succ {n : ℕ} (h : n + 1 ∈ days) : runLength days (n + 1) = runLength days n + 1 :=
  if_pos h

theorem runLength_pos {n : ℕ} (h : n ∈ days) : 0 < runLength days n := by
  cases n with
  | zero => exact Nat.lt_of_lt_of_eq Nat.one_pos (if_pos h).symm
  | succ n => rw [runLength_succ h]; omega

theorem runLength_congr {days' : List ℕ} {n : ℕ} (h : ∀ m ≤ n, m ∈ days ↔ m ∈ days') :
    runLength days n = runLength days' n := by
  induction n with
  | zero => simp only [runLength, h 0 (le_refl 0)]
  | succ n ih => simp only [runLength, h (n + 1) (le_refl _), ih fun m hm => h m (by omega)]

end ForgottenServer.Lib.Calendar
