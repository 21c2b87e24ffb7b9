import Mathlib.Data.Nat.Digits.Defs

/-! # Positional notation

Digits of `w` bits, the most significant one first. -/
namespace ForgottenServer.Lib.Positional

/-- The number that the digits stand for. -/
def value (w : ℕ) (ds : List ℕ) : ℕ := Nat.ofDigits (2 ^ w) ds.reverse

/-- The last `k` digits of a number. -/
def digits (w : ℕ) : ℕ → ℕ → List ℕ
  | 0, _ => []
  | k + 1, n => digits w k (n / 2 ^ w) ++ [n % 2 ^ w]

variable {w : ℕ}

@[simp] theorem value_nil (w : ℕ) : value w [] = 0 := rfl

theorem value_concat (w : ℕ) (ds : List ℕ) (d : ℕ) : value w (ds ++ [d]) = value w ds * 2 ^ w + d := by
  rw [value, List.reverse_append, List.reverse_singleton, List.singleton_append, Nat.ofDigits_cons,
    Nat.mul_comm, Nat.add_comm]
  rfl

theorem value_lt (hw : w ≠ 0) {ds : List ℕ} (h : ∀ d ∈ ds, d < 2 ^ w) : value w ds < 2 ^ (w * ds.length) := by
  have hlt := Nat.ofDigits_lt_base_pow_length (Nat.one_lt_two_pow hw) (l := ds.reverse)
    fun d hd => h d (List.mem_reverse.mp hd)
  rwa [List.length_reverse, ← Nat.pow_mul] at hlt

/-- As many digits with the same value are the same. -/
theorem value_inj (hw : w ≠ 0) {ds es : List ℕ} (hlen : ds.length = es.length) (hds : ∀ d ∈ ds, d < 2 ^ w)
    (hes : ∀ d ∈ es, d < 2 ^ w) (h : value w ds = value w es) : ds = es := by
  have hreverse := Nat.ofDigits_inj_of_len_eq (Nat.one_lt_two_pow hw) (by simpa using hlen)
    (fun d hd => hds d (List.mem_reverse.mp hd)) (fun d hd => hes d (List.mem_reverse.mp hd)) h
  exact List.reverse_inj.mp hreverse

@[simp] theorem length_digits (k n : ℕ) : (digits w k n).length = k := by
  induction k generalizing n with
  | zero => rfl
  | succ k ih => rw [digits, List.length_append, ih, List.length_singleton]

theorem digits_lt {k n d : ℕ} (h : d ∈ digits w k n) : d < 2 ^ w := by
  induction k generalizing n with
  | zero => cases h
  | succ k ih =>
    rcases List.mem_append.mp h with h | h
    · exact ih h
    · rw [List.mem_singleton.mp h]
      exact Nat.mod_lt _ (Nat.two_pow_pos w)

theorem value_digits (w k n : ℕ) : value w (digits w k n) = n % 2 ^ (w * k) := by
  induction k generalizing n with
  | zero => simp [digits, Nat.mod_one]
  | succ k ih =>
    rw [digits, value_concat, ih, Nat.mul_succ, Nat.add_comm (w * k), Nat.pow_add, Nat.mod_mul,
      Nat.mul_comm, Nat.add_comm]

end ForgottenServer.Lib.Positional
