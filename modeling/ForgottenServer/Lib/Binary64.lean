import ForgottenServer.Lib.Rounding

/-! # Binary64 numbers

Double precision numbers as the rationals they stand for, with the infinities
and not-a-number. Every operation rounds its exact result to the nearest
representable number, ties to even. Zero has no sign: nothing here divides by a
computed zero. Conversions to machine integers give in range the integer part
and out of range what x86-64 instructions give. -/
namespace ForgottenServer.Lib.Binary64
open ForgottenServer.Lib.Rounding

inductive Double
  | nan
  | inf (neg : Bool)
  | fin (q : ℚ)
  deriving DecidableEq

namespace Double

/-- Round to 53 digits; from `2 ^ 1024` on to infinity. -/
def rnd (q : ℚ) : Double :=
  let r := nearest 52 (-1074) q
  if 2 ^ 1024 ≤ |r| then .inf (q < 0) else .fin r

def ofNat (n : ℕ) : Double := rnd n

def neg : Double → Double
  | nan => nan
  | inf s => inf !s
  | fin q => fin (-q)

def add : Double → Double → Double
  | nan, _ | _, nan => nan
  | inf s, inf t => if s = t then inf s else nan
  | inf s, fin _ | fin _, inf s => inf s
  | fin p, fin q => rnd (p + q)

def sub (x y : Double) : Double := add x y.neg

def mul : Double → Double → Double
  | nan, _ | _, nan => nan
  | inf s, inf t => inf (s != t)
  | inf s, fin q | fin q, inf s => if q = 0 then nan else inf (s != decide (q < 0))
  | fin p, fin q => rnd (p * q)

def div : Double → Double → Double
  | nan, _ | _, nan => nan
  | inf _, inf _ => nan
  | inf s, fin q => inf (s != decide (q < 0))
  | fin _, inf _ => fin 0
  | fin p, fin q => if q = 0 then (if p = 0 then nan else inf (p < 0)) else rnd (p / q)

/-- `x < y`, false when one of them is not a number. -/
def lt : Double → Double → Bool
  | nan, _ | _, nan => false
  | inf s, inf t => s && !t
  | inf s, fin _ => s
  | fin _, inf t => !t
  | fin p, fin q => p < q

def le : Double → Double → Bool
  | nan, _ | _, nan => false
  | inf s, inf t => s || !t
  | inf s, fin _ => s
  | fin _, inf t => !t
  | fin p, fin q => p ≤ q

def floor : Double → Double
  | fin q => fin ⌊q⌋
  | x => x

def ceil : Double → Double
  | fin q => fin ⌈q⌉
  | x => x

/-- The integer part, towards zero. -/
def trunc (q : ℚ) : ℤ := if q < 0 then ⌈q⌉ else ⌊q⌋

/-- The signed 64-bit conversion instruction: out of range it answers `-2 ^ 63`. -/
def toInt64 : Double → ℤ
  | fin q => if -2 ^ 63 ≤ trunc q ∧ trunc q < 2 ^ 63 then trunc q else -2 ^ 63
  | _ => -2 ^ 63

/-- The signed 32-bit conversion instruction: out of range it answers `-2 ^ 31`. -/
def toInt32 : Double → ℤ
  | fin q => if -2 ^ 31 ≤ trunc q ∧ trunc q < 2 ^ 31 then trunc q else -2 ^ 31
  | _ => -2 ^ 31

/-- A conversion to `uint32_t` keeps the low half of the 64-bit one. -/
def toUInt32 (x : Double) : ℕ := (x.toInt64 % 2 ^ 32).toNat

/-- A conversion to `uint64_t` converts `x` or, from `2 ^ 63` on, `x - 2 ^ 63`
and flips the top bit. -/
def toUInt64 : Double → ℕ
  | fin q =>
    if q < 2 ^ 63 then ((fin q).toInt64 % 2 ^ 64).toNat
    else (((fin (q - 2 ^ 63)).toInt64 + 2 ^ 63) % 2 ^ 64).toNat
  | inf false => 0
  | _ => 2 ^ 63

/-- Lua's `math.min`: the first argument unless the second is less. -/
def min (x y : Double) : Double := if y.lt x then y else x

def max (x y : Double) : Double := if x.lt y then y else x

/-- The single precision quotient of two integers. -/
def floatDiv (a b : ℤ) : ℚ := nearest 23 (-149) (nearest 23 (-149) a / nearest 23 (-149) b)

/-! ## Text -/

/-- Fourteen significant decimal digits of a positive number, and the exponent
of the first. -/
def digits14 (q : ℚ) : ℕ × ℤ :=
  let e := Int.log 10 q
  let d := (halfEven (q / 10 ^ (e - 13))).toNat
  if d = 10 ^ 14 then (10 ^ 13, e + 1) else (d, e)

def padded (n width : ℕ) : String :=
  String.ofList (List.replicate (width - (toString n).length) '0') ++ toString n

/-- A fraction of `width` digits without the zeros at its end. -/
def fraction (n width : ℕ) : String :=
  let s := String.ofList ((padded n width).toList.reverse.dropWhile (· = '0')).reverse
  if width = 0 ∨ s = "" then "" else "." ++ s

/-- The format `%.14g`, in which Lua writes a number. -/
def text : Double → String
  | nan => "nan"
  | inf s => if s then "-inf" else "inf"
  | fin q =>
    if q = 0 then "0"
    else
      let (d, e) := digits14 |q|
      let sign := if q < 0 then "-" else ""
      if 0 ≤ e ∧ e < 14 then
        let width := (13 - e).toNat
        sign ++ toString (d / 10 ^ width) ++ fraction (d % 10 ^ width) width
      else if -4 ≤ e ∧ e < 0 then sign ++ "0" ++ fraction d (13 - e).toNat
      else
        sign ++ toString (d / 10 ^ 13) ++ fraction (d % 10 ^ 13) 13 ++
          (if e < 0 then "e-" else "e+") ++ padded e.natAbs 2

example : text (fin 100000000) = "100000000" := by decide +kernel
example : text (fin (1 / 8)) = "0.125" := by decide +kernel
example : text (fin 123456789012345) = "1.2345678901234e+14" := by decide +kernel

/-! ## Rounding -/

theorem rnd_eq {q r : ℚ} (h : rnd q = fin r) : r = nearest 52 (-1074) q := by
  unfold rnd at h
  dsimp only at h
  split at h
  · cases h
  · injection h with h
    exact h.symm

theorem rnd_of_lt {q : ℚ} (h : |nearest 52 (-1074) q| < 2 ^ 1024) :
    rnd q = fin (nearest 52 (-1074) q) := if_neg (not_le.mpr h)

theorem rnd_natCast {n : ℕ} (h : n ≤ 2 ^ 53) : rnd n = fin n := by
  have hn : nearest 52 (-1074) n = n := nearest_natCast (by norm_num) h
  rw [rnd_of_lt, hn]
  rw [hn, Nat.abs_cast]
  have : (n : ℚ) ≤ 2 ^ 53 := by exact_mod_cast h
  exact this.trans_lt (pow_lt_pow_right₀ (by norm_num) (by norm_num))

theorem rnd_cases {q : ℚ} (hq : 0 ≤ q) : rnd q = inf false ∨ ∃ r, rnd q = fin r := by
  unfold rnd
  dsimp only
  split
  · exact .inl (by simp [not_lt.mpr hq])
  · exact .inr ⟨_, rfl⟩

theorem abs_lt_of_rnd {q r : ℚ} (h : rnd q = fin r) : |r| < 2 ^ 1024 := by
  have hr := rnd_eq h
  unfold rnd at h
  dsimp only at h
  split at h
  · cases h
  · rwa [hr, ← not_le]

/-- Rounding is close where the numbers are not too large. -/
theorem rnd_close {q : ℚ} {k : ℕ} (hk : k ≤ 1022) (hq : |q| < 2 ^ (k + 1)) :
    ∃ r, rnd q = fin r ∧ |r - q| ≤ 2 ^ ((k : ℤ) - 53) := by
  have hulp := ulp_le (p := 52) hq (show (-1074 : ℤ) ≤ k - (52 : ℕ) by omega)
  have herr := abs_nearest_sub_le 52 (-1074) q
  have hhalf : (2 : ℚ) ^ ((k : ℤ) - (52 : ℕ)) / 2 = 2 ^ ((k : ℤ) - 53) := by
    rw [show (k : ℤ) - 53 = k - (52 : ℕ) - 1 by push_cast; ring, zpow_sub_one₀ (two_ne_zero' ℚ),
      div_eq_mul_inv]
  have hclose : |nearest 52 (-1074) q - q| ≤ 2 ^ ((k : ℤ) - 53) := by
    rw [← hhalf]
    exact herr.trans (by gcongr)
  refine ⟨nearest 52 (-1074) q, rnd_of_lt ?_, hclose⟩
  have htri := abs_sub_abs_le_abs_sub (nearest 52 (-1074) q) q
  have hpow : (2 : ℚ) ^ ((k : ℤ) - 53) ≤ 2 ^ k := by
    rw [← zpow_natCast]
    exact zpow_le_zpow_right₀ (by norm_num) (by omega)
  have h1023 : (2 : ℚ) ^ (k + 1) ≤ 2 ^ 1023 := pow_le_pow_right₀ (by norm_num) (by omega)
  have hdouble : (2 : ℚ) ^ (k + 1) = 2 * 2 ^ k := pow_succ' 2 k
  have htop : (2 : ℚ) ^ 1024 = 2 * 2 ^ 1023 := pow_succ' 2 1023
  have hpos : (0 : ℚ) < 2 ^ k := by positivity
  rw [htop]
  generalize (2 : ℚ) ^ 1023 = top at h1023 ⊢
  linarith

/-- From a rounded number it changes nothing to take less than half a unit. -/
theorem rnd_sub {q r d : ℚ} {k : ℕ} (hq : 1 ≤ |q|) (h : rnd q = fin r) (hd : 0 < d)
    (hk : 2 * d < 2 ^ ((k : ℤ) - (52 : ℕ))) (hle : 2 ^ k + d ≤ r) : rnd (r - d) = fin r := by
  have hr := rnd_eq h
  have hsub : nearest 52 (-1074) (r - d) = r := by
    rw [hr]
    exact nearest_sub hq (by norm_num) hd hk (hr ▸ hle)
  rw [rnd_of_lt] <;> rw [hsub]
  exact abs_lt_of_rnd h

/-- A natural number that is not above `m` after rounding was not above before. -/
theorem le_of_ofNat_le {k m : ℕ} (hm : m < 2 ^ 53) (h : (fin m).lt (ofNat k) = false) : k ≤ m := by
  by_contra hcon
  have hle : ((m + 1 : ℕ) : ℚ) ≤ k := by exact_mod_cast Nat.lt_of_not_le hcon
  unfold ofNat at h
  rcases rnd_cases (q := k) (by positivity) with hr | ⟨r, hr⟩
  · rw [hr] at h
    simp [lt] at h
  · have := le_nearest (p := 52) (show (-1074 : ℤ) ≤ _ by norm_num) (show m + 1 ≤ _ by omega) hle
    rw [← rnd_eq hr] at this
    push_cast at this
    rw [hr] at h
    simp only [lt, decide_eq_false_iff_not, not_lt] at h
    linarith

theorem le_of_le_ofNat {k m : ℕ} (hm : m ≤ 2 ^ 53) (h : (ofNat k).lt (fin m) = false) : m ≤ k := by
  by_contra hcon
  unfold ofNat at h
  rw [rnd_natCast (by omega)] at h
  simp only [lt, decide_eq_false_iff_not, not_lt, Nat.cast_le] at h
  omega

theorem add_natCast (m n : ℕ) : (fin m).add (fin n) = ofNat (m + n) := by
  simp [add, ofNat]

theorem sub_natCast {m n : ℕ} (hm : m ≤ 2 ^ 53) (h : n ≤ m) : (fin m).sub (fin n) = fin (m - n : ℕ) := by
  have hrat : (m : ℚ) + -(n : ℚ) = (m - n : ℕ) := by
    rw [Nat.cast_sub h]
    ring
  simp only [sub, neg, add, hrat]
  exact rnd_natCast (by omega)

theorem ofNat_eq {n : ℕ} (h : n ≤ 2 ^ 53) : ofNat n = fin n := rnd_natCast h

/-- A positive number rounded down is infinite or a positive integer. -/
theorem floor_pos_cases {x : Double} (hnan : x ≠ nan) (h : x.floor.le (fin 0) = false) :
    x.floor = inf false ∨ ∃ n : ℕ, 0 < n ∧ x.floor = fin n := by
  cases x with
  | nan => exact absurd rfl hnan
  | inf s =>
    cases s
    · exact .inl rfl
    · simp [floor, le] at h
  | fin q =>
    simp only [floor, le, decide_eq_false_iff_not, not_le] at h
    have hz : (0 : ℤ) < ⌊q⌋ := by exact_mod_cast h
    have hnat : ((⌊q⌋.toNat : ℕ) : ℤ) = ⌊q⌋ := Int.toNat_of_nonneg hz.le
    refine .inr ⟨⌊q⌋.toNat, by omega, ?_⟩
    simp only [floor, fin.injEq]
    exact_mod_cast hnat.symm

/-- Dividing two integers and rounding the quotient up or down is exact while
they are small. -/
theorem div_ofNat {a b : ℕ} (ha : a < 2 ^ 32) (hb : 0 < b) (hb' : b < 2 ^ 20) :
    ((ofNat a).div (ofNat b)).floor = fin (a / b : ℕ) ∧
    ((ofNat a).div (ofNat b)).ceil = fin ((a + b - 1) / b : ℕ) := by
  have hbq : (0 : ℚ) < b := by exact_mod_cast hb
  have hsmall : |(a : ℚ) / b| < 2 ^ 32 := by
    have h1 : (1 : ℚ) ≤ b := by exact_mod_cast hb
    have ha' : (a : ℚ) < 2 ^ 32 := by exact_mod_cast ha
    rw [abs_of_nonneg (by positivity)]
    exact (div_le_self (by positivity) h1).trans_lt ha'
  have hulp : ulp 52 (-1074) ((a : ℚ) / b) ≤ 1 / 2 ^ 21 := by
    have := ulp_le (p := 52) (k := 31) hsmall (show (-1074 : ℤ) ≤ _ by norm_num)
    refine this.trans (le_of_eq ?_)
    norm_num
  have hinv : (1 : ℚ) / 2 ^ 20 ≤ 1 / b := by
    have hb2 : (b : ℚ) ≤ 2 ^ 20 := by exact_mod_cast hb'.le
    gcongr
  have hfine : ulp 52 (-1074) ((a : ℚ) / b) / 2 < 1 / b := by
    have : (1 : ℚ) / 2 ^ 21 / 2 < 1 / 2 ^ 20 := by norm_num
    linarith
  have hdiv : (ofNat a).div (ofNat b) = fin (nearest 52 (-1074) ((a : ℚ) / b)) := by
    unfold ofNat
    rw [rnd_natCast (by omega), rnd_natCast (by omega)]
    have hne : (b : ℚ) ≠ 0 := hbq.ne'
    simp only [div, if_neg hne]
    refine rnd_of_lt ?_
    have htri := abs_sub_abs_le_abs_sub (nearest 52 (-1074) ((a : ℚ) / b)) ((a : ℚ) / b)
    have herr := abs_nearest_sub_le 52 (-1074) ((a : ℚ) / b)
    have h33 : (2 : ℚ) ^ 32 + 1 / 2 ^ 21 / 2 < 2 ^ 33 := by norm_num
    calc |nearest 52 (-1074) ((a : ℚ) / b)| < 2 ^ 33 := by linarith
      _ ≤ 2 ^ 1024 := pow_le_pow_right₀ (by norm_num) (by norm_num)
  obtain ⟨hfloor, hceil⟩ := nearest_div (by norm_num) hb (show a ≤ 2 ^ (52 + 1) by omega) hfine
  rw [hdiv]
  simp only [floor, ceil, hfloor, hceil, Int.cast_natCast, and_self]

/-- The same in single precision, divided by 100. -/
theorem ceil_floatDiv_hundred {n : ℕ} (h : n ≤ 2 ^ 24) : ⌈floatDiv n 100⌉ = ((n + 99) / 100 : ℕ) := by
  have hn : nearest 23 (-149) ((n : ℤ) : ℚ) = n := by
    have := nearest_natCast (p := 23) (show (-149 : ℤ) ≤ _ by norm_num) h
    simpa using this
  have h100 : nearest 23 (-149) ((100 : ℤ) : ℚ) = (100 : ℕ) := by
    have := nearest_natCast (p := 23) (n := 100) (show (-149 : ℤ) ≤ _ by norm_num) (by norm_num)
    simpa using this
  have hq : |(n : ℚ) / (100 : ℕ)| < 2 ^ (17 + 1) := by
    have : (n : ℚ) ≤ 2 ^ 24 := by exact_mod_cast h
    rw [abs_of_nonneg (by positivity), div_lt_iff₀ (by norm_num)]
    exact this.trans_lt (by norm_num)
  have hulp : ulp 23 (-149) ((n : ℚ) / (100 : ℕ)) / 2 < 1 / (100 : ℕ) := by
    have := ulp_le (p := 23) hq (show (-149 : ℤ) ≤ _ by norm_num)
    norm_num at this ⊢
    linarith
  unfold floatDiv
  rw [hn, h100]
  exact (nearest_div (by norm_num) (by norm_num) h hulp).2

/-- A natural number is a natural number as a double, or infinite. -/
theorem ofNat_cases (n : ℕ) : ofNat n = inf false ∨ ∃ m : ℕ, ofNat n = fin m := by
  unfold ofNat
  rcases rnd_cases (q := n) (by positivity) with h | ⟨r, h⟩
  · exact .inl h
  · obtain ⟨m, hm⟩ := exists_nearest_natCast (p := 52) (show (-1074 : ℤ) ≤ _ by norm_num) n
    exact .inr ⟨m, by rw [h, rnd_eq h, hm]⟩

/-! ## Conversions in range -/

theorem toInt64_natCast {n : ℕ} (h : n < 2 ^ 63) : (fin n).toInt64 = n := by
  have : trunc (n : ℚ) = n := by simp [trunc]
  simp only [toInt64, this]
  rw [if_pos]
  omega

theorem toInt32_natCast {n : ℕ} (h : n < 2 ^ 31) : (fin n).toInt32 = n := by
  have : trunc (n : ℚ) = n := by simp [trunc]
  simp only [toInt32, this]
  rw [if_pos]
  omega

theorem toUInt32_natCast {n : ℕ} (h : n < 2 ^ 63) : (fin n).toUInt32 = n % 2 ^ 32 := by
  rw [toUInt32, toInt64_natCast h]
  omega

theorem toUInt64_natCast {n : ℕ} (h : n < 2 ^ 63) : (fin n).toUInt64 = n := by
  have hq : (n : ℚ) < 2 ^ 63 := by exact_mod_cast h
  simp only [toUInt64, if_pos hq, toInt64_natCast h]
  omega

end Double
end ForgottenServer.Lib.Binary64
