import Mathlib.Algebra.Order.Group.Unbundled.Int
import Mathlib.Algebra.Ring.Nat
import Mathlib.Data.Nat.Notation
import Mathlib.Order.MinMax

/-! # Words that stay in their range

Arithmetic on 32-bit words is that of the integers as long as no result leaves the
range. -/
namespace ForgottenServer.Lib.Words

variable {a b : Int32}

theorem toInt_add (h₀ : -2 ^ 31 ≤ a.toInt + b.toInt) (h₁ : a.toInt + b.toInt < 2 ^ 31) :
    (a + b).toInt = a.toInt + b.toInt := by
  rw [Int32.toInt_add]
  exact Int.bmod_eq_of_le h₀ h₁

theorem toInt_sub (h₀ : -2 ^ 31 ≤ a.toInt - b.toInt) (h₁ : a.toInt - b.toInt < 2 ^ 31) :
    (a - b).toInt = a.toInt - b.toInt := by
  rw [Int32.toInt_sub]
  exact Int.bmod_eq_of_le h₀ h₁

theorem toInt_neg (h : -2 ^ 31 < a.toInt) : (-a).toInt = -a.toInt := by
  have hlt := a.toInt_lt
  have hle := a.le_toInt
  rw [Int32.toInt_neg]
  exact Int.bmod_eq_of_le (by omega) (by omega)

theorem toInt_abs (h : -2 ^ 31 < a.toInt) : a.abs.toInt = |a.toInt| := by
  have hmin : a.toBitVec ≠ BitVec.intMin 32 := by
    intro heq
    have hval : a.toInt = (BitVec.intMin 32).toInt := congrArg BitVec.toInt heq
    rw [hval] at h
    exact absurd h (by decide)
  exact (BitVec.toInt_abs_eq_natAbs_of_ne_intMin hmin).trans (Int.natCast_natAbs _)

theorem toInt_min (a b : Int32) : (min a b).toInt = min a.toInt b.toInt := by
  have hmin : min a b = if a ≤ b then a else b := rfl
  rw [hmin, min_def, apply_ite Int32.toInt]
  simp only [Int32.le_iff_toInt_le]

theorem toInt_max (a b : Int32) : (max a b).toInt = max a.toInt b.toInt := by
  have hmax : max a b = if a ≤ b then b else a := rfl
  rw [hmax, max_def, apply_ite Int32.toInt]
  simp only [Int32.le_iff_toInt_le]

theorem toInt_toInt32 {n : UInt32} (h : n.toNat < 2 ^ 31) : n.toInt32.toInt = n.toNat := by
  have hmod : n.toInt32.toInt = Int.bmod n.toNat (2 ^ 32) := BitVec.toInt_eq_toNat_bmod n.toBitVec
  rw [hmod]
  exact Int.bmod_eq_of_le (by omega) (by omega)

theorem toNat_toUInt32 (h : 0 ≤ a.toInt) : (a.toUInt32.toNat : ℤ) = a.toInt := by
  have hle : 0 ≤ a := Int32.le_iff_toInt_le.mpr h
  rw [Int32.toNat_toUInt32_of_le hle]
  exact Int.toNat_of_nonneg h

end ForgottenServer.Lib.Words
