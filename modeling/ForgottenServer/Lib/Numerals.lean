import Mathlib.Algebra.Ring.Nat
import Mathlib.Data.List.Basic

/-! # Numbers in a text

Numbers that are written in decimal with a comma between them, and the runs of
digits of a text. Reading what was written gives the numbers back. The last digits of
a number are those of its remainder. -/
namespace ForgottenServer.Lib.Numerals

/-- The numbers with a comma between any two. -/
def concat : List ℕ → List Char
  | [] => []
  | [n] => Nat.toDigits 10 n
  | n :: m :: l => Nat.toDigits 10 n ++ ',' :: concat (m :: l)

/-- The longest runs of digits, as numbers; the argument is the run that has begun. -/
def digitRuns : Option ℕ → List Char → List ℕ
  | acc, [] => acc.toList
  | acc, c :: l =>
    if c.isDigit then digitRuns (some (10 * acc.getD 0 + (c.toNat - '0'.toNat))) l
    else acc.toList ++ digitRuns none l

theorem digitRuns_digits {ds : List Char} (hds : ∀ c ∈ ds, c.isDigit = true) (n : ℕ) (l : List Char) :
    digitRuns (some n) (ds ++ l) = digitRuns (some (Nat.ofDigitChars 10 ds n)) l := by
  induction ds generalizing n with
  | nil => rw [Nat.ofDigitChars_nil, List.nil_append]
  | cons c ds ih =>
    obtain ⟨hc, hds⟩ := List.forall_mem_cons.mp hds
    rw [List.cons_append, digitRuns, if_pos hc, Nat.ofDigitChars_cons, ih hds]
    rfl

/-- A number is read as a whole. -/
theorem digitRuns_toDigits (n : ℕ) (l : List Char) :
    digitRuns none (Nat.toDigits 10 n ++ l) = digitRuns (some n) l := by
  have hdigits : ∀ c ∈ Nat.toDigits 10 n, c.isDigit = true :=
    fun c hc => Nat.isDigit_of_mem_toDigits (by decide) (by decide) hc
  have hvalue : Nat.ofDigitChars 10 (Nat.toDigits 10 n) 0 = n := Nat.ofDigitChars_ten_toDigits
  cases h : Nat.toDigits 10 n with
  | nil => exact absurd h Nat.toDigits_ne_nil
  | cons c ds =>
    rw [h] at hdigits hvalue
    obtain ⟨hc, hds⟩ := List.forall_mem_cons.mp hdigits
    rw [List.cons_append, digitRuns, if_pos hc, digitRuns_digits hds]
    rw [Nat.ofDigitChars_cons] at hvalue
    exact congrArg (fun n => digitRuns (some n) l) hvalue

@[simp] theorem digitRuns_concat (l : List ℕ) : digitRuns none (concat l) = l := by
  induction l with
  | nil => rfl
  | cons n l ih =>
    cases l with
    | nil =>
      have h := digitRuns_toDigits n []
      rwa [List.append_nil] at h
    | cons m l =>
      have hcomma : ¬ ','.isDigit = true := by decide
      rw [concat, digitRuns_toDigits, digitRuns, if_neg hcomma, ih]
      rfl

/-! ## Last digits -/

/-- The last `k` digits, with zeros in front of a number that has fewer. -/
def lastDigits : ℕ → ℕ → List Char
  | 0, _ => []
  | k + 1, n => lastDigits k (n / 10) ++ [(n % 10).digitChar]

@[simp] theorem length_lastDigits (k n : ℕ) : (lastDigits k n).length = k := by
  induction k generalizing n with
  | zero => rfl
  | succ k ih => rw [lastDigits, List.length_append, ih, List.length_singleton]

/-- Two numbers end in the same digits exactly if they have one remainder. -/
theorem lastDigits_eq_iff {k n m : ℕ} : lastDigits k n = lastDigits k m ↔ n % 10 ^ k = m % 10 ^ k := by
  induction k generalizing n m with
  | zero => simp [lastDigits, Nat.mod_one]
  | succ k ih =>
    have hdigit : (n % 10).digitChar = (m % 10).digitChar ↔ n % 10 = m % 10 := by
      constructor
      · intro h
        have hvalue := congrArg Char.toNat h
        rw [Nat.toNat_digitChar_of_lt_ten (Nat.mod_lt n (by decide)),
          Nat.toNat_digitChar_of_lt_ten (Nat.mod_lt m (by decide))] at hvalue
        omega
      · exact fun h => by rw [h]
    have hsplit : ∀ x : ℕ, x % 10 ^ (k + 1) = 10 * (x / 10 % 10 ^ k) + x % 10 := by
      intro x
      rw [Nat.pow_succ', Nat.mod_mul, Nat.add_comm]
    rw [lastDigits, lastDigits, List.append_singleton_inj, ih, hdigit, hsplit n, hsplit m]
    constructor
    · rintro ⟨hrest, hlast⟩
      rw [hrest, hlast]
    · intro h
      have hn := Nat.mod_lt n (show 0 < 10 by decide)
      have hm := Nat.mod_lt m (show 0 < 10 by decide)
      constructor <;> omega

theorem lastDigits_zero (k : ℕ) : lastDigits k 0 = List.replicate k '0' := by
  induction k with
  | zero => rfl
  | succ k ih =>
    have hzero : ((0 : ℕ) % 10).digitChar = '0' := rfl
    rw [lastDigits, Nat.zero_div, ih, hzero, List.replicate_succ']

theorem drop_toDigits {k n : ℕ} (h : k ≤ (Nat.toDigits 10 n).length) :
    (Nat.toDigits 10 n).drop ((Nat.toDigits 10 n).length - k) = lastDigits k n := by
  induction k generalizing n with
  | zero => rw [Nat.sub_zero, List.drop_length, lastDigits]
  | succ k ih =>
    rw [lastDigits]
    by_cases hn : n < 10
    · rw [Nat.toDigits_of_lt_base hn, List.length_singleton] at h ⊢
      obtain rfl : k = 0 := by omega
      rw [Nat.mod_eq_of_lt hn]
      rfl
    · rw [Nat.toDigits_of_base_le (by decide) (Nat.not_lt.mp hn), List.length_append,
        List.length_singleton] at h ⊢
      have hk : k ≤ (Nat.toDigits 10 (n / 10)).length := by omega
      rw [Nat.add_sub_add_right, List.drop_append_of_le_length (Nat.sub_le _ _), ih hk]

theorem leftpad_toDigits {k n : ℕ} (hk : 0 < k) (h : n < 10 ^ k) :
    (Nat.toDigits 10 n).leftpad k '0' = lastDigits k n := by
  induction k generalizing n with
  | zero => omega
  | succ k ih =>
    rw [lastDigits]
    by_cases hn : n < 10
    · rw [Nat.toDigits_of_lt_base hn, Nat.div_eq_of_lt hn, Nat.mod_eq_of_lt hn, lastDigits_zero]
      rfl
    · have hrest : n / 10 < 10 ^ k := by
        rw [Nat.pow_succ] at h
        exact Nat.div_lt_of_lt_mul (by rwa [Nat.mul_comm])
      have hpos : 0 < k := by
        by_contra hzero
        obtain rfl : k = 0 := by omega
        rw [Nat.pow_zero] at hrest
        omega
      rw [Nat.toDigits_of_base_le (by decide) (Nat.not_lt.mp hn), ← ih hpos hrest, List.leftpad,
        List.leftpad, List.length_append, List.length_singleton, Nat.add_sub_add_right,
        List.append_assoc]

end ForgottenServer.Lib.Numerals
