import Mathlib.Data.Int.Log
import Mathlib.Data.Rat.Floor
import Mathlib.Tactic.FieldSimp
import Mathlib.Tactic.Linarith
import Mathlib.Tactic.NormNum
import Mathlib.Tactic.Positivity
import Mathlib.Tactic.Ring

/-! # Rounding to binary digits

A binary floating point format with `p + 1` digits and no digit below
`2 ^ emin`, as the rounding of rationals to the nearest number it has, ties to
even. Integers of `p + 1` digits are exact, rounding does not cross an integer,
and a quotient of small integers has the right floor and ceiling. -/
namespace ForgottenServer.Lib.Rounding

/-- The nearest integer, a tie going to the even one. -/
def halfEven (x : ℚ) : ℤ :=
  if x - ⌊x⌋ < 1 / 2 then ⌊x⌋
  else if 1 / 2 < x - ⌊x⌋ then ⌊x⌋ + 1
  else if 2 ∣ ⌊x⌋ then ⌊x⌋ else ⌊x⌋ + 1

/-- The distance of representable numbers around `q`. -/
def ulp (p : ℕ) (emin : ℤ) (q : ℚ) : ℚ := 2 ^ max (Int.log 2 |q| - p) emin

def nearest (p : ℕ) (emin : ℤ) (q : ℚ) : ℚ := halfEven (q / ulp p emin q) * ulp p emin q

theorem halfEven_intCast (n : ℤ) : halfEven n = n := by
  simp [halfEven]

theorem abs_halfEven_sub_le (x : ℚ) : |halfEven x - x| ≤ 1 / 2 := by
  have h0 := Int.floor_le x
  have h1 := Int.lt_floor_add_one x
  unfold halfEven
  split
  · rw [abs_le]; constructor <;> linarith
  · split
    · push_cast; rw [abs_le]; constructor <;> linarith
    · split
      · rw [abs_le]; constructor <;> linarith
      · push_cast; rw [abs_le]; constructor <;> linarith

theorem floor_le_halfEven (x : ℚ) : ⌊x⌋ ≤ halfEven x := by
  unfold halfEven
  split
  · exact le_refl _
  · split
    · omega
    · split <;> omega

theorem ulp_pos (p : ℕ) (emin : ℤ) (q : ℚ) : 0 < ulp p emin q := zpow_pos two_pos _

theorem nearest_of_dvd {p : ℕ} {emin : ℤ} {q : ℚ} {m : ℤ} (h : q = m * ulp p emin q) : nearest p emin q = q := by
  have hm : q / ulp p emin q = m := by
    rw [div_eq_iff (ulp_pos p emin q).ne']
    exact h
  unfold nearest
  rw [hm, halfEven_intCast]
  exact h.symm

/-- The error of rounding is at most half a unit. -/
theorem abs_nearest_sub_le (p : ℕ) (emin : ℤ) (q : ℚ) :
    |nearest p emin q - q| ≤ ulp p emin q / 2 := by
  have hu := ulp_pos p emin q
  have herr := abs_halfEven_sub_le (q / ulp p emin q)
  have hsplit : nearest p emin q - q = (halfEven (q / ulp p emin q) - q / ulp p emin q) *
      ulp p emin q := by
    unfold nearest
    rw [sub_mul, div_mul_cancel₀ _ hu.ne']
  rw [hsplit, abs_mul, abs_of_pos hu]
  calc |(halfEven (q / ulp p emin q) : ℚ) - q / ulp p emin q| * ulp p emin q ≤ 1 / 2 * ulp p emin q := by gcongr
    _ = ulp p emin q / 2 := by ring

variable {p : ℕ} {emin : ℤ}

theorem ulp_le {q : ℚ} {k : ℕ} (hq : |q| < 2 ^ (k + 1)) (hk : emin ≤ k - p) : ulp p emin q ≤ 2 ^ ((k : ℤ) - p) := by
  have hlog : Int.log 2 |q| ≤ k := by
    rcases eq_or_ne q 0 with rfl | hq0
    · simp
    · have hlt : |q| < ((2 : ℕ) : ℚ) ^ ((k : ℤ) + 1) := by exact_mod_cast hq
      have := (Int.lt_zpow_iff_log_lt (by norm_num) (abs_pos.mpr hq0)).mp hlt
      omega
  exact zpow_le_zpow_right₀ (by norm_num) (by omega)

/-- A whole number of units is what everything near it is rounded to. -/
theorem nearest_eq_of_close {q r : ℚ} {m : ℤ} (hr : r = m * ulp p emin q)
    (h : |q - r| < ulp p emin q / 2) : nearest p emin q = r := by
  have hu := ulp_pos p emin q
  have herr := abs_nearest_sub_le p emin q
  have hclose : |nearest p emin q - r| < ulp p emin q := by
    calc |nearest p emin q - r| ≤ |nearest p emin q - q| + |q - r| := abs_sub_le _ _ _
      _ < ulp p emin q / 2 + ulp p emin q / 2 := by linarith
      _ = ulp p emin q := by ring
  have hunits : |((halfEven (q / ulp p emin q) - m : ℤ) : ℚ)| < 1 := by
    have hsplit : nearest p emin q - r = ((halfEven (q / ulp p emin q) - m : ℤ) : ℚ) * ulp p emin q := by
      rw [hr, nearest]
      push_cast
      ring
    rw [hsplit, abs_mul, abs_of_pos hu] at hclose
    exact lt_of_mul_lt_mul_right (by linarith) hu.le
  have hzero : halfEven (q / ulp p emin q) - m = 0 := by
    rw [← Int.cast_abs] at hunits
    exact Int.abs_lt_one_iff.mp (by exact_mod_cast hunits)
  rw [nearest, hr, show halfEven (q / ulp p emin q) = m by omega]

/-- A unit divides the larger ones. -/
theorem exists_ulp_eq_mul {q r : ℚ} (h : ulp p emin q ≤ ulp p emin r) : ∃ n : ℤ, ulp p emin r = n * ulp p emin q := by
  have hexp := (zpow_le_zpow_iff_right₀ (by norm_num : (1 : ℚ) < 2)).mp h
  obtain ⟨k, hk⟩ := Int.eq_ofNat_of_zero_le (sub_nonneg.mpr hexp)
  refine ⟨2 ^ k, ?_⟩
  rw [ulp, ulp, show max (Int.log 2 |r| - p) emin = max (Int.log 2 |q| - p) emin + k by omega,
    zpow_add₀ two_ne_zero, mul_comm]
  push_cast
  rw [zpow_natCast]

theorem le_ulp (emin : ℤ) {q : ℚ} {k : ℕ} (hq : 2 ^ k ≤ |q|) : 2 ^ ((k : ℤ) - p) ≤ ulp p emin q := by
  have hpos : 0 < |q| := lt_of_lt_of_le (by positivity) hq
  have hlog : (k : ℤ) ≤ Int.log 2 |q| := by
    rw [← Int.zpow_le_iff_le_log (by norm_num) hpos]
    exact_mod_cast hq
  exact zpow_le_zpow_right₀ (by norm_num) (le_max_of_le_left (by omega))

section Large
variable {q : ℚ} (hq : 1 ≤ |q|) (hemin : emin ≤ -p)
include hq hemin

theorem ulp_eq_of_one_le : ulp p emin q = 2 ^ (Int.log 2 |q| - p) := by
  have hlog : 0 ≤ Int.log 2 |q| := by
    rw [← Int.log_one_right (R := ℚ) 2]
    exact Int.log_mono_right one_pos hq
  rw [ulp, max_eq_left (by omega)]

/-- A unit is at most a `2 ^ p`-th of the number, -/
theorem ulp_le_div : ulp p emin q ≤ |q| / 2 ^ p := by
  rw [ulp_eq_of_one_le hq hemin, zpow_sub₀ two_ne_zero, zpow_natCast]
  gcongr
  exact_mod_cast Int.zpow_log_le_self (b := 2) (by norm_num) (lt_of_lt_of_le one_pos hq)

/-- and rounding does not leave the binade, except to its end. -/
theorem nearest_le_zpow : nearest p emin q ≤ 2 ^ (Int.log 2 |q| + 1) := by
  have hu := ulp_pos p emin q
  have hlt : |q| < 2 ^ (Int.log 2 |q| + 1) := by
    exact_mod_cast Int.lt_zpow_succ_log_self (b := 2) (by norm_num) |q|
  have hunits : (2 : ℚ) ^ (Int.log 2 |q| + 1) = (2 ^ (p + 1) : ℤ) * ulp p emin q := by
    rw [ulp_eq_of_one_le hq hemin]
    push_cast
    rw [← zpow_natCast, ← zpow_add₀ two_ne_zero]
    congr 1
    push_cast
    ring
  rw [hunits] at hlt ⊢
  have hx : q / ulp p emin q < (2 ^ (p + 1) : ℤ) := by
    rw [div_lt_iff₀ hu]
    exact (le_abs_self q).trans_lt hlt
  have hfloor : ⌊q / ulp p emin q⌋ + 1 ≤ 2 ^ (p + 1) := Int.floor_lt.mpr hx
  have hhalf : halfEven (q / ulp p emin q) ≤ 2 ^ (p + 1) := by
    refine le_trans ?_ hfloor
    unfold halfEven
    split
    · omega
    · split
      · omega
      · split <;> omega
  unfold nearest
  gcongr

/-- A rounded number above `2 ^ k` is a whole number of the units there. -/
theorem exists_nearest_eq_mul {k : ℕ} (hk : 2 ^ k < nearest p emin q) :
    ∃ z : ℤ, nearest p emin q = z * 2 ^ ((k : ℤ) - p) := by
  have hlog : (k : ℤ) < Int.log 2 |q| + 1 := by
    rw [← zpow_lt_zpow_iff_right₀ (by norm_num : (1 : ℚ) < 2), zpow_natCast]
    exact hk.trans_le (nearest_le_zpow hq hemin)
  obtain ⟨j, hj⟩ := Int.eq_ofNat_of_zero_le (show 0 ≤ Int.log 2 |q| - k by omega)
  refine ⟨halfEven (q / ulp p emin q) * 2 ^ j, ?_⟩
  have hulp : ulp p emin q = 2 ^ j * 2 ^ ((k : ℤ) - p) := by
    rw [ulp_eq_of_one_le hq hemin, ← zpow_natCast, ← zpow_add₀ two_ne_zero]
    congr 1
    omega
  rw [nearest, Int.cast_mul, mul_assoc]
  push_cast
  rw [← hulp]

/-- From a rounded number it changes nothing to take less than half a unit. -/
theorem nearest_sub {d : ℚ} {k : ℕ} (hd : 0 < d) (hk : 2 * d < 2 ^ ((k : ℤ) - p))
    (hle : 2 ^ k + d ≤ nearest p emin q) : nearest p emin (nearest p emin q - d) = nearest p emin q := by
  obtain ⟨r, hr⟩ : ∃ r, nearest p emin q = r := ⟨_, rfl⟩
  rw [hr] at hle ⊢
  have hpos : (0 : ℚ) < 2 ^ k := by positivity
  have hlow : 2 ^ k ≤ |r - d| := by
    rw [abs_of_pos (by linarith)]
    linarith
  have hulp : ulp p emin (r - d) ≤ ulp p emin q := by
    have hlt : |r - d| < ((2 : ℕ) : ℚ) ^ (Int.log 2 |q| + 1) := by
      rw [abs_of_pos (by linarith)]
      have := nearest_le_zpow hq hemin
      push_cast
      linarith
    have hlog := (Int.lt_zpow_iff_log_lt (b := 2) (by norm_num) (hpos.trans_le hlow)).mp hlt
    rw [ulp, ulp]
    exact zpow_le_zpow_right₀ (by norm_num) (max_le_max_right _ (by omega))
  obtain ⟨n, hn⟩ := exists_ulp_eq_mul hulp
  refine nearest_eq_of_close (m := halfEven (q / ulp p emin q) * n) ?_ ?_
  · rw [Int.cast_mul, mul_assoc, ← hn, ← hr]
    rfl
  · rw [show r - d - r = -d by ring, abs_neg, abs_of_pos hd]
    have := le_ulp (p := p) emin hlow
    linarith

end Large

section Integers
variable (hemin : emin ≤ -p)
include hemin

theorem ulp_intCast (n : ℤ) : ulp p emin n = 2 ^ ((Nat.log 2 n.natAbs : ℤ) - p) := by
  have habs : |(n : ℚ)| = (n.natAbs : ℚ) := by
    rw [← Int.cast_abs, Int.abs_eq_natAbs]
    rfl
  unfold ulp
  rw [habs, Int.log_natCast, max_eq_left]
  have : (0 : ℤ) ≤ Nat.log 2 n.natAbs := by positivity
  omega

/-- Integers of `p + 1` digits are whole numbers of their unit. -/
theorem exists_mul_ulp {n : ℤ} (h : |n| ≤ 2 ^ (p + 1)) : ∃ m : ℤ, (n : ℚ) = m * ulp p emin n := by
  rcases eq_or_ne n 0 with rfl | hn
  · exact ⟨0, by simp⟩
  have hnat : n.natAbs ≤ 2 ^ (p + 1) := by
    zify
    exact h
  rcases hnat.lt_or_eq with hlt | heq
  · -- below the bound the unit is a negative power of two
    have hlog : Nat.log 2 n.natAbs ≤ p := by
      have := Nat.log_lt_of_lt_pow (b := 2) (by simpa using hn) hlt
      omega
    have hulp : ulp p emin n = 1 / 2 ^ (p - Nat.log 2 n.natAbs) := by
      rw [ulp_intCast hemin n, one_div, ← zpow_natCast, ← zpow_neg]
      congr 1
      omega
    refine ⟨n * 2 ^ (p - Nat.log 2 n.natAbs), ?_⟩
    rw [hulp]
    push_cast
    field_simp
  · have hulp : ulp p emin n = 2 := by
      rw [ulp_intCast hemin n, heq, Nat.log_pow (by norm_num)]
      push_cast
      rw [add_sub_cancel_left, zpow_one]
    refine ⟨n / 2, ?_⟩
    have hd : (2 : ℤ) ∣ n := by
      rw [← Int.natAbs_dvd_natAbs, heq]
      exact dvd_pow_self 2 (by omega)
    rw [hulp, Int.cast_div hd (by norm_num)]
    norm_num

theorem nearest_intCast {n : ℤ} (h : |n| ≤ 2 ^ (p + 1)) : nearest p emin n = n := by
  obtain ⟨m, hm⟩ := exists_mul_ulp hemin h
  exact nearest_of_dvd hm

theorem nearest_natCast {n : ℕ} (h : n ≤ 2 ^ (p + 1)) : nearest p emin n = n := by
  have := nearest_intCast hemin (n := n) (by rw [Nat.abs_cast]; exact_mod_cast h)
  simpa using this

theorem exists_nearest_natCast (n : ℕ) : ∃ m : ℕ, nearest p emin n = m := by
  rcases Nat.lt_or_ge (2 ^ (p + 1)) n with hlt | hle
  · have hlog : p + 1 ≤ Nat.log 2 n := Nat.le_log_of_pow_le (by norm_num) hlt.le
    have hulp : ulp p emin n = (2 ^ (Nat.log 2 n - p) : ℕ) := by
      have := ulp_intCast hemin n
      simp only [Int.cast_natCast, Int.natAbs_natCast] at this
      rw [this]
      push_cast
      rw [← zpow_natCast]
      congr 1
      omega
    have hnonneg : 0 ≤ halfEven (n / ulp p emin n) := by
      refine le_trans (Int.floor_nonneg.mpr ?_) (floor_le_halfEven _)
      have := ulp_pos p emin n
      positivity
    refine ⟨(halfEven (n / ulp p emin n)).toNat * 2 ^ (Nat.log 2 n - p), ?_⟩
    unfold nearest
    conv_lhs => rw [← Int.toNat_of_nonneg hnonneg]
    rw [hulp]
    push_cast
    rfl
  · exact ⟨n, nearest_natCast hemin hle⟩

/-- Rounding does not go below an integer that was not above. -/
theorem le_nearest {n : ℕ} {x : ℚ} (hn : n ≤ 2 ^ (p + 1)) (hx : (n : ℚ) ≤ x) : (n : ℚ) ≤ nearest p emin x := by
  have hu := ulp_pos p emin x
  -- a whole number of units between the two is enough
  suffices hm : ∃ m : ℤ, (n : ℚ) ≤ m * ulp p emin x ∧ m * ulp p emin x ≤ x by
    obtain ⟨m, hnm, hmx⟩ := hm
    have hfloor : m ≤ halfEven (x / ulp p emin x) := by
      refine le_trans ?_ (floor_le_halfEven _)
      rw [Int.le_floor, le_div_iff₀ hu]
      exact hmx
    have : (m : ℚ) ≤ halfEven (x / ulp p emin x) := by exact_mod_cast hfloor
    unfold nearest
    exact hnm.trans (by gcongr)
  rcases Nat.eq_zero_or_pos n with rfl | hpos
  · exact ⟨0, by simp, by simpa using hx⟩
  have hnq : (0 : ℚ) < n := by exact_mod_cast hpos
  have hxpos : 0 < x := hnq.trans_le hx
  have hlog : Int.log 2 (n : ℚ) ≤ Int.log 2 x := Int.log_mono_right hnq hx
  have habs : |x| = x := abs_of_pos hxpos
  rcases hlog.eq_or_lt with heq | hlt
  · have hulp : ulp p emin x = ulp p emin ((n : ℤ) : ℚ) := by
      unfold ulp
      rw [habs, ← heq]
      simp
    obtain ⟨m, hm⟩ := exists_mul_ulp hemin (n := n) (by rw [Nat.abs_cast]; exact_mod_cast hn)
    rw [← hulp] at hm
    refine ⟨m, ?_, ?_⟩
    · rw [← hm]
      simp
    · rw [← hm]
      simpa using hx
  · have hlog0 : 0 ≤ Int.log 2 (n : ℚ) := by
      rw [Int.log_natCast]
      positivity
    have hulp : ulp p emin x = 2 ^ (Int.log 2 x - p) := by
      unfold ulp
      rw [habs, max_eq_left (by omega)]
    have hpow : ((2 ^ p : ℤ) : ℚ) * ulp p emin x = 2 ^ Int.log 2 x := by
      have hcast : ((2 ^ p : ℤ) : ℚ) = 2 ^ (p : ℤ) := by
        push_cast
        rw [zpow_natCast]
      rw [hulp, hcast, ← zpow_add₀ (by norm_num)]
      congr 1
      omega
    refine ⟨2 ^ p, ?_, ?_⟩
    · rw [hpow]
      have h1 := Int.lt_zpow_succ_log_self (b := 2) (by norm_num) (n : ℚ)
      have h2 : (2 : ℚ) ^ (Int.log 2 (n : ℚ) + 1) ≤ 2 ^ Int.log 2 x :=
        zpow_le_zpow_right₀ (by norm_num) (by omega)
      exact (h1.trans_le (by exact_mod_cast h2)).le
    · rw [hpow]
      exact_mod_cast Int.zpow_log_le_self (b := 2) (by norm_num) hxpos

/-- A quotient keeps its floor and ceiling when the unit around it is finer
than what the divisor leaves between it and an integer. -/
theorem nearest_div {a b : ℕ} (hb : 0 < b) (ha : a ≤ 2 ^ (p + 1)) (hu : ulp p emin ((a : ℚ) / b) / 2 < 1 / b) :
    ⌊nearest p emin ((a : ℚ) / b)⌋ = (a / b : ℕ) ∧ ⌈nearest p emin ((a : ℚ) / b)⌉ = ((a + b - 1) / b : ℕ) := by
  have hbq : (0 : ℚ) < b := by exact_mod_cast hb
  have hdm : b * (a / b) + a % b = a := Nat.div_add_mod a b
  rcases Nat.eq_zero_or_pos (a % b) with hmod | hmod
  · -- the quotient is an integer
    obtain ⟨k, rfl⟩ := Nat.dvd_of_mod_eq_zero hmod
    have hk : ((b * k : ℕ) : ℚ) / b = (k : ℕ) := by
      push_cast
      field_simp
    have hle : k ≤ 2 ^ (p + 1) := (Nat.le_mul_of_pos_left k hb).trans ha
    have hup : (b * k + b - 1) / b = k := by
      have : b * k + b - 1 = b - 1 + b * k := by omega
      rw [this, Nat.add_mul_div_left _ _ hb, Nat.div_eq_of_lt (by omega), Nat.zero_add]
    rw [hk, nearest_natCast hemin hle, Nat.mul_div_cancel_left k hb, hup]
    simp
  · -- it is at least `1 / b` away from the integers around it
    have hmodlt := Nat.mod_lt a hb
    have herr := abs_nearest_sub_le p emin ((a : ℚ) / b)
    generalize a / b = k at hdm ⊢
    generalize a % b = m at hdm hmod hmodlt
    have hq : (a : ℚ) / b = k + m / b := by
      rw [← hdm]
      push_cast
      field_simp
    have hlo : (1 : ℚ) / b ≤ m / b := by
      have hm : (1 : ℚ) ≤ m := by exact_mod_cast hmod
      gcongr
    have hhi : (m : ℚ) / b ≤ 1 - 1 / b := by
      have hm : (m : ℚ) ≤ b - 1 := by
        have : ((m + 1 : ℕ) : ℚ) ≤ b := by exact_mod_cast hmodlt
        push_cast at this
        linarith
      calc (m : ℚ) / b ≤ (b - 1) / b := by gcongr
        _ = 1 - 1 / b := by field_simp
    have hup : (a + b - 1) / b = k + 1 := by
      have : a + b - 1 = (m - 1) + b * (k + 1) := by
        rw [Nat.mul_add, Nat.mul_one]
        omega
      rw [this, Nat.add_mul_div_left _ _ hb, Nat.div_eq_of_lt (by omega), Nat.zero_add]
    generalize nearest p emin ((a : ℚ) / b) = r at herr ⊢
    have hr := abs_le.mp (herr.trans hu.le)
    have hr' : |r - (a : ℚ) / b| < 1 / b := herr.trans_lt hu
    rw [abs_lt, hq] at hr'
    rw [hup]
    constructor
    · rw [Int.floor_eq_iff]
      constructor <;> push_cast <;> linarith
    · rw [Int.ceil_eq_iff]
      constructor <;> push_cast <;> linarith

end Integers

end ForgottenServer.Lib.Rounding
