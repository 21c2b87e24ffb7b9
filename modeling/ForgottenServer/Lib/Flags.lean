import Mathlib.Data.List.Basic

/-! # Bit flags

Flags in a word of `w` bits that are set and cleared one after another, each on a
condition of its own. What a bit is afterwards depends on the conditions of that
bit only. -/
namespace ForgottenServer.Lib.Flags

variable {α : Type*} {w : ℕ}

/-- Set the bits of those in the list that meet the condition. -/
def setFlags (cond : α → Bool) (bit : α → ℕ) (l : List α) (flags : BitVec w) : BitVec w :=
  l.foldl (fun flags a => if cond a then flags ||| BitVec.twoPow w (bit a) else flags) flags

/-- Clear them. -/
def resetFlags (cond : α → Bool) (bit : α → ℕ) (l : List α) (flags : BitVec w) : BitVec w :=
  l.foldl (fun flags a => if cond a then flags &&& ~~~BitVec.twoPow w (bit a) else flags) flags

theorem getLsbD_none (i : ℕ) : (0 : BitVec w).getLsbD i = false := BitVec.getLsbD_zero

theorem and_twoPow_ne_zero {flags : BitVec w} {i : ℕ} (hi : i < w) :
    flags &&& BitVec.twoPow w i ≠ 0 ↔ flags.getLsbD i = true := by
  rw [BitVec.and_twoPow]
  cases h : flags.getLsbD i with
  | false => simp
  | true =>
    simp only [if_true, ne_eq, iff_true]
    intro hzero
    have hbit := congrArg (fun v => v.getLsbD i) hzero
    simp [hi] at hbit

theorem getLsbD_setFlags (cond : α → Bool) (bit : α → ℕ) (l : List α) (flags : BitVec w) {i : ℕ} (hi : i < w) :
    (setFlags cond bit l flags).getLsbD i = (flags.getLsbD i || l.any fun a => cond a && bit a = i) := by
  induction l generalizing flags with
  | nil => simp [setFlags]
  | cons a l ih =>
    have hcons : setFlags cond bit (a :: l) flags =
        setFlags cond bit l (if cond a then flags ||| BitVec.twoPow w (bit a) else flags) := rfl
    rw [hcons, ih, List.any_cons]
    cases cond a with
    | false => simp
    | true =>
      by_cases ha : bit a = i
      · subst ha
        simp [hi]
      · simp [ha]

theorem getLsbD_resetFlags (cond : α → Bool) (bit : α → ℕ) (l : List α) (flags : BitVec w) {i : ℕ} (hi : i < w) :
    (resetFlags cond bit l flags).getLsbD i = (flags.getLsbD i && !l.any fun a => cond a && bit a = i) := by
  induction l generalizing flags with
  | nil => simp [resetFlags]
  | cons a l ih =>
    have hcons : resetFlags cond bit (a :: l) flags =
        resetFlags cond bit l (if cond a then flags &&& ~~~BitVec.twoPow w (bit a) else flags) :=
          rfl
    rw [hcons, ih, List.any_cons]
    cases cond a with
    | false => simp
    | true =>
      by_cases ha : bit a = i
      · subst ha
        simp [hi]
      · simp [ha, Ne.symm ha, hi]

end ForgottenServer.Lib.Flags
