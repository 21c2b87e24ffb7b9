import Mathlib.Data.List.Basic
import Mathlib.Logic.Function.Basic
import Mathlib.Tactic.SplitIfs

/-! # Arrays that are changed in place

Loops that move every element to the next place or compute it anew, and loops
that write into some cells. An array is a function of its places. -/
namespace ForgottenServer.Lib.Shifts
variable {α : Type*}

/-- `for (i = n; --i >= 0;) a[i + 1] = a[i]` -/
def shiftUp : ℕ → (ℕ → α) → ℕ → α
  | 0, a => a
  | n + 1, a => shiftUp n (Function.update a (n + 1) (a n))

/-- `for (i = s; i < s + n; ++i) a[i] = a[i + 1]` -/
def shiftDown : ℕ → ℕ → (ℕ → α) → ℕ → α
  | _, 0, a => a
  | s, n + 1, a => shiftDown (s + 1) n (Function.update a s (a (s + 1)))

/-- `for (i = s; i < s + n; ++i) a[i] = f(a[i])` -/
def mapFrom (f : α → α) : ℕ → ℕ → (ℕ → α) → ℕ → α
  | _, 0, a => a
  | s, n + 1, a => mapFrom f (s + 1) n (Function.update a s (f (a s)))

theorem shiftUp_apply (n : ℕ) (a : ℕ → α) (i : ℕ) : shiftUp n a i = if 1 ≤ i ∧ i ≤ n then a (i - 1) else a i := by
  induction n generalizing a with
  | zero => rw [shiftUp, if_neg (by omega)]
  | succ n ih =>
    rw [shiftUp, ih]
    rcases Nat.lt_trichotomy i (n + 1) with hlt | rfl | hgt
    · have hne : i - 1 ≠ n + 1 := by omega
      rw [Function.update_of_ne (Nat.ne_of_lt hlt), Function.update_of_ne hne]
      by_cases hi : 1 ≤ i
      · rw [if_pos ⟨hi, by omega⟩, if_pos ⟨hi, by omega⟩]
      · rw [if_neg (not_and.mpr fun h => absurd h hi), if_neg (not_and.mpr fun h => absurd h hi)]
    · rw [if_neg (by omega), if_pos (by omega), Function.update_self, Nat.add_sub_cancel]
    · rw [if_neg (by omega), if_neg (by omega), Function.update_of_ne (Nat.ne_of_gt hgt)]

theorem shiftDown_apply (s n : ℕ) (a : ℕ → α) (i : ℕ) :
    shiftDown s n a i = if s ≤ i ∧ i < s + n then a (i + 1) else a i := by
  induction n generalizing s a with
  | zero => rw [shiftDown, if_neg (by omega)]
  | succ n ih =>
    rw [shiftDown, ih]
    rcases Nat.lt_trichotomy i s with hlt | rfl | hgt
    · rw [if_neg (by omega), if_neg (by omega), Function.update_of_ne (Nat.ne_of_lt hlt)]
    · rw [if_neg (by omega), if_pos (by omega), Function.update_self]
    · have hne : i + 1 ≠ s := by omega
      rw [Function.update_of_ne (Nat.ne_of_gt hgt), Function.update_of_ne hne]
      by_cases hi : i < s + (n + 1)
      · rw [if_pos (by omega), if_pos (by omega)]
      · rw [if_neg (by omega), if_neg (by omega)]

theorem mapFrom_apply (f : α → α) (s n : ℕ) (a : ℕ → α) (i : ℕ) :
    mapFrom f s n a i = if s ≤ i ∧ i < s + n then f (a i) else a i := by
  induction n generalizing s a with
  | zero => rw [mapFrom, if_neg (by omega)]
  | succ n ih =>
    rw [mapFrom, ih]
    rcases Nat.lt_trichotomy i s with hlt | rfl | hgt
    · rw [if_neg (by omega), if_neg (by omega), Function.update_of_ne (Nat.ne_of_lt hlt)]
    · rw [if_neg (by omega), if_pos (by omega), Function.update_self]
    · rw [Function.update_of_ne (Nat.ne_of_gt hgt)]
      by_cases hi : i < s + (n + 1)
      · rw [if_pos (by omega), if_pos (by omega)]
      · rw [if_neg (by omega), if_neg (by omega)]

/-- Where every step writes the same into a cell or leaves it, the loop writes it if some step
does. What a cell holds is told by `read`. -/
theorem foldl_writes {σ ι β : Type*} (read : σ → β) (f : σ → ι → σ) (w : β) (writes : ι → Prop) [DecidablePred writes]
    (l : List ι) (s : σ) (hf : ∀ s, ∀ i ∈ l, read (f s i) = if writes i then w else read s) :
    read (l.foldl f s) = if ∃ i ∈ l, writes i then w else read s := by
  induction l generalizing s with
  | nil => simp
  | cons i l ih =>
    have hfirst := hf s i List.mem_cons_self
    rw [List.foldl_cons, ih (f s i) fun s j hj => hf s j (List.mem_cons_of_mem i hj), hfirst]
    by_cases hi : writes i
    · rw [if_pos hi, ite_self, if_pos ⟨i, List.mem_cons_self, hi⟩]
    · simp [hi]

end ForgottenServer.Lib.Shifts
