import Mathlib.Algebra.BigOperators.Group.Finset.Basic
import Mathlib.Algebra.BigOperators.Intervals
import Mathlib.Algebra.Order.BigOperators.Group.Finset

/-! # Ladders

Rungs that are paid for one after the other: `need i` is the price of the rung
`i` for who stands on the one below it. Who climbs keeps what is too little for
the next rung, and on the last rung nothing. Who loses something goes down and
gets the price of every rung back. -/
namespace ForgottenServer.Lib.Ladder

/-- The price of the first rungs together. -/
def cost (need : ℕ → ℕ) (n : ℕ) : ℕ := ∑ i ∈ Finset.range n, need (i + 1)

/-- How many of `n` rungs are climbed with `total`, and what is left. -/
def climb (need : ℕ → ℕ) : ℕ → ℕ → ℕ × ℕ
  | 0, _ => (0, 0)
  | n + 1, total =>
    if total < need 1 then (0, total)
    else
      let (k, rest) := climb (fun i => need (i + 1)) n (total - need 1)
      (k + 1, rest)

/-- Where a loss ends that begins on a rung with some rest. -/
def descend (need : ℕ → ℕ) : ℕ → ℕ → ℕ → ℕ × ℕ
  | 0, rest, loss => (0, rest - loss)
  | k + 1, rest, loss =>
    if loss ≤ rest then (k + 1, rest - loss) else descend need k (need (k + 1)) (loss - rest)

section Cost
variable (need : ℕ → ℕ)

@[simp] theorem cost_zero : cost need 0 = 0 := rfl

theorem cost_succ (n : ℕ) : cost need (n + 1) = cost need n + need (n + 1) :=
  Finset.sum_range_succ _ n

theorem cost_succ' (n : ℕ) : cost need (n + 1) = need 1 + cost (fun i => need (i + 1)) n := by
  rw [cost, Finset.sum_range_succ', Nat.add_comm]
  rfl

end Cost

section Climb
variable {need : ℕ → ℕ} {n total : ℕ}

theorem climb_of_lt (h : total < need 1) : climb need (n + 1) total = (0, total) := by
  rw [climb, if_pos h]

theorem climb_of_le (need : ℕ → ℕ) (n : ℕ) (h : need 1 ≤ total) : climb need (n + 1) total =
    ((climb (fun i => need (i + 1)) n (total - need 1)).1 + 1,
      (climb (fun i => need (i + 1)) n (total - need 1)).2) := by
  rw [climb, if_neg (not_lt.mpr h)]

theorem climb_le (need : ℕ → ℕ) (n total : ℕ) : (climb need n total).1 ≤ n := by
  induction n generalizing need total with
  | zero => exact le_refl 0
  | succ n ih =>
    rcases lt_or_ge total (need 1) with hlt | hle
    · rw [climb_of_lt hlt]
      exact Nat.zero_le _
    · rw [climb_of_le need n hle]
      exact Nat.succ_le_succ (ih _ _)

/-- Below the last rung there is too little for the next one, and nothing is lost. -/
theorem climb_spec (h : (climb need n total).1 < n) : (climb need n total).2 < need ((climb need n total).1 + 1) ∧
      cost need (climb need n total).1 + (climb need n total).2 = total := by
  induction n generalizing need total with
  | zero => exact absurd h (Nat.not_lt_zero _)
  | succ n ih =>
    rcases lt_or_ge total (need 1) with hlt | hle
    · rw [climb_of_lt hlt]
      exact ⟨hlt, by rw [cost_zero, Nat.zero_add]⟩
    · rw [climb_of_le need n hle] at h ⊢
      obtain ⟨hrest, hcost⟩ := ih (Nat.lt_of_succ_lt_succ h)
      refine ⟨hrest, ?_⟩
      rw [cost_succ', Nat.add_assoc, hcost]
      omega

theorem climb_top (h : (climb need n total).1 = n) : (climb need n total).2 = 0 := by
  induction n generalizing need total with
  | zero => rfl
  | succ n ih =>
    rcases lt_or_ge total (need 1) with hlt | hle
    · rw [climb_of_lt hlt] at h
      exact absurd h (Nat.zero_ne_add_one n)
    · rw [climb_of_le need n hle] at h ⊢
      exact ih (Nat.succ_injective h)

/-- The last rung is reached by who can pay for all of them. -/
theorem climb_eq_iff : (climb need n total).1 = n ↔ cost need n ≤ total := by
  induction n generalizing need total with
  | zero => exact ⟨fun _ => Nat.zero_le _, fun _ => rfl⟩
  | succ n ih =>
    rcases lt_or_ge total (need 1) with hlt | hle
    · rw [climb_of_lt hlt, cost_succ']
      omega
    · rw [climb_of_le need n hle, cost_succ', Nat.succ_inj, ih]
      omega

theorem climb_add (need : ℕ → ℕ) (n total extra : ℕ) : climb need n (total + extra) =
    let (k, rest) := climb need n total
    let (k', rest') := climb (fun i => need (k + i)) (n - k) (rest + extra)
    (k + k', rest') := by
  induction n generalizing need total with
  | zero => rfl
  | succ n ih =>
    rcases lt_or_ge total (need 1) with hlt | hle
    · simp only [climb_of_lt hlt, Nat.zero_add, Nat.sub_zero, Prod.mk.eta]
    · have hle' : need 1 ≤ total + extra := by omega
      have hsub : total + extra - need 1 = total - need 1 + extra := by omega
      have hrec := ih (fun i => need (i + 1)) (total - need 1)
      rw [climb_of_le need n hle, climb_of_le need n hle', hsub, hrec]
      simp only [Nat.add_sub_add_right, Nat.add_right_comm]

theorem climb_of_cost_le (h : cost need n ≤ total) : climb need n total = (n, 0) := by
  have htop := climb_eq_iff.mpr h
  exact Prod.ext htop (climb_top htop)

/-- After some rungs, the others are paid for if all of them are. -/
theorem cost_le_iff (extra : ℕ) : cost (fun i => need ((climb need n total).1 + i))
    (n - (climb need n total).1) ≤ (climb need n total).2 + extra ↔ cost need n ≤ total + extra := by
  have hle := climb_le need n total
  rw [← climb_eq_iff, ← climb_eq_iff, climb_add need n total extra]
  dsimp only
  omega

end Climb

section Descend
variable {need : ℕ → ℕ} {k rest loss : ℕ}

theorem descend_of_le (h : loss ≤ rest) : descend need k rest loss = (k, rest - loss) := by
  cases k with
  | zero => rfl
  | succ k => rw [descend, if_pos h]

theorem descend_of_lt (h : rest < loss) :
    descend need (k + 1) rest loss = descend need k (need (k + 1)) (loss - rest) := by
  rw [descend, if_neg (not_le.mpr h)]

theorem descend_fst_le (need : ℕ → ℕ) (k rest loss : ℕ) : (descend need k rest loss).1 ≤ k := by
  induction k generalizing rest loss with
  | zero => exact le_refl 0
  | succ k ih =>
    rcases le_or_gt loss rest with hle | hlt
    · rw [descend_of_le hle]
    · rw [descend_of_lt hlt]
      exact (ih _ _).trans (Nat.le_succ k)

/-- Going down, exactly the loss is lost. -/
theorem descend_cost (h : loss ≤ cost need k + rest) :
    cost need (descend need k rest loss).1 + (descend need k rest loss).2 + loss = cost need k + rest := by
  induction k generalizing rest loss with
  | zero =>
    rw [descend, cost_zero] at *
    omega
  | succ k ih =>
    rcases le_or_gt loss rest with hle | hlt
    · rw [descend_of_le hle]
      dsimp only
      omega
    · rw [cost_succ] at *
      rw [descend_of_lt hlt]
      have hrec := ih (show loss - rest ≤ cost need k + need (k + 1) by omega)
      omega

/-- What is left is at most what the next rung costs. -/
theorem descend_le (need : ℕ → ℕ) (loss : ℕ) (h : rest ≤ need (k + 1)) :
    (descend need k rest loss).2 ≤ need ((descend need k rest loss).1 + 1) := by
  induction k generalizing rest loss with
  | zero => exact (Nat.sub_le _ _).trans h
  | succ k ih =>
    rcases le_or_gt loss rest with hle | hlt
    · rw [descend_of_le hle]
      exact (Nat.sub_le _ _).trans h
    · rw [descend_of_lt hlt]
      exact ih _ (le_refl _)

end Descend
end ForgottenServer.Lib.Ladder
