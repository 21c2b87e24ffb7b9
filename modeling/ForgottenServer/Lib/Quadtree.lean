import Mathlib.Data.Nat.Bitwise
import Mathlib.Logic.Function.Basic

/-! # Quadtrees

A tree of a fixed depth whose nodes have four children, some of which may be
missing. A leaf is reached along the leading bits of two coordinates; two points
have one leaf exactly if those bits are the same. -/
namespace ForgottenServer.Lib.Quadtree

variable {α : Type*}

/-- A child, by one bit of each coordinate. -/
abbrev Quadrant := Bool × Bool

inductive QTree (α : Type*) : ℕ → Type _
  | missing {n : ℕ} : QTree α n
  | leaf (a : α) : QTree α 0
  | node {n : ℕ} (child : Quadrant → QTree α n) : QTree α (n + 1)

/-- The way to the leaf of a point in a tree of depth `n`, from the bit `b` of its
coordinates on: at each node they are shifted by one. -/
def path (b : ℕ) : ℕ → ℕ → ℕ → List Quadrant
  | 0, _, _ => []
  | n + 1, x, y => (x.testBit b, y.testBit b) :: path b n (2 * x) (2 * y)

namespace QTree

/-- The leaf at the end of the way, if it is there. -/
def get {n : ℕ} : QTree α n → List Quadrant → Option α
  | .missing, _ => none
  | .leaf a, _ => some a
  | .node _, [] => none
  | .node child, q :: p => (child q).get p

/-- Change the leaf at the end of the way. -/
def modify (f : α → α) {n : ℕ} : QTree α n → List Quadrant → QTree α n
  | .missing, _ => .missing
  | .leaf a, _ => .leaf (f a)
  | .node child, [] => .node child
  | .node child, q :: p => .node (Function.update child q ((child q).modify f p))

/-- Make the leaf at the end of the way, and the nodes before it, where they are missing. -/
def create (a : α) {n : ℕ} (t : QTree α n) (p : List Quadrant) : QTree α n :=
  match n, t, p with
  | 0, .missing, _ => .leaf a
  | 0, .leaf b, _ => .leaf b
  | _ + 1, t, [] => t
  | _ + 1, .missing, q :: p => .node (Function.update (fun _ => .missing) q (create a .missing p))
  | _ + 1, .node child, q :: p => .node (Function.update child q (create a (child q) p))

theorem get_modify_self (f : α → α) {n : ℕ} (t : QTree α n) (p : List Quadrant) :
    (t.modify f p).get p = (t.get p).map f := by
  induction t generalizing p with
  | missing => rfl
  | leaf a => rfl
  | node child ih =>
    cases p with
    | nil => rfl
    | cons q p =>
      rw [modify, get, Function.update_self]
      exact ih q p

theorem get_modify_of_ne (f : α → α) {n : ℕ} (t : QTree α n) {p p' : List Quadrant} (hp : p.length = n)
    (hp' : p'.length = n) (hne : p' ≠ p) : (t.modify f p).get p' = t.get p' := by
  induction t generalizing p p' with
  | missing => rfl
  | leaf a =>
    exact absurd ((List.length_eq_zero_iff.mp hp').trans (List.length_eq_zero_iff.mp hp).symm) hne
  | node child ih =>
    cases p with
    | nil => rfl
    | cons q p =>
      cases p' with
      | nil => rfl
      | cons q' p' =>
        rw [modify, get, get]
        by_cases hq : q' = q
        · subst hq
          have hrest : p' ≠ p := fun h => hne (by rw [h])
          rw [Function.update_self]
          exact ih q' (Nat.succ.inj hp) (Nat.succ.inj hp') hrest
        · rw [Function.update_of_ne hq]

/-- What a change leaves as it is, it leaves at the end of any way. -/
theorem map_get_modify {β : Type*} {f : α → α} {g : α → β} (h : ∀ a, g (f a) = g a) {n : ℕ}
    (t : QTree α n) (p p' : List Quadrant) : ((t.modify f p).get p').map g = (t.get p').map g := by
  induction t generalizing p p' with
  | missing => rfl
  | leaf a => exact congrArg some (h a)
  | node child ih =>
    cases p with
    | nil => rfl
    | cons q p =>
      cases p' with
      | nil => rfl
      | cons q' p' =>
        rw [modify, get, get]
        by_cases hq : q' = q
        · rw [hq, Function.update_self]
          exact ih q p p'
        · rw [Function.update_of_ne hq]

/-- A way that ends at a leaf is as long as the tree is deep, or goes on for nothing. -/
theorem get_take {n : ℕ} {t : QTree α n} {p : List Quadrant} {a : α} (h : t.get p = some a) :
    (p.take n).length = n ∧ t.get (p.take n) = some a := by
  induction t generalizing p with
  | missing => cases h
  | leaf b => exact ⟨by rw [List.take_zero]; rfl, h⟩
  | node child ih =>
    cases p with
    | nil => cases h
    | cons q p =>
      obtain ⟨hlength, hget⟩ := ih q h
      exact ⟨by rw [List.take_succ_cons, List.length_cons, hlength], hget⟩

/-- The leaf is there, and the others are as before. -/
theorem get_create (a : α) {n : ℕ} (t : QTree α n) {p p' : List Quadrant} (hp : p.length = n) (hp' : p'.length = n) :
    (t.create a p).get p' = if p' = p then some ((t.get p).getD a) else t.get p' := by
  induction n generalizing p p' with
  | zero =>
    rw [List.length_eq_zero_iff.mp hp', List.length_eq_zero_iff.mp hp, if_pos rfl]
    cases t <;> rfl
  | succ n ih =>
    obtain ⟨q, p, rfl⟩ := List.exists_cons_of_length_eq_add_one hp
    obtain ⟨q', p', rfl⟩ := List.exists_cons_of_length_eq_add_one hp'
    have hrest := fun t => ih t (Nat.succ.inj hp) (Nat.succ.inj hp')
    cases t with
    | missing =>
      show (Function.update (fun _ => missing) q (create a missing p) q').get p' = _
      by_cases hq : q' = q
      · rw [hq, Function.update_self, hrest]
        simp [get]
      · rw [Function.update_of_ne hq, if_neg fun h => hq (List.cons.inj h).1]
        rfl
    | node child =>
      show (Function.update child q (create a (child q) p) q').get p' = _
      by_cases hq : q' = q
      · rw [hq, Function.update_self, hrest]
        simp [get]
      · rw [Function.update_of_ne hq, if_neg fun h => hq (List.cons.inj h).1]
        rfl

end QTree

@[simp] theorem length_path (b n x y : ℕ) : (path b n x y).length = n := by
  induction n generalizing x y with
  | zero => rfl
  | succ n ih => rw [path, List.length_cons, ih]

/-- The way depends on the bits from `b` down. -/
theorem path_eq_iff (b n : ℕ) (x y x' y' : ℕ) (hn : n ≤ b + 1) : path b n x y = path b n x' y' ↔
    ∀ i < n, x.testBit (b - i) = x'.testBit (b - i) ∧ y.testBit (b - i) = y'.testBit (b - i) := by
  induction n generalizing x y x' y' with
  | zero => simp [path]
  | succ n ih =>
    have hdouble : ∀ z i, i < n → (2 * z).testBit (b - i) = z.testBit (b - (i + 1)) := by
      intro z i hi
      obtain ⟨j, hj⟩ : ∃ j, b - i = j + 1 := ⟨b - i - 1, by omega⟩
      rw [hj, Nat.testBit_succ, Nat.mul_div_cancel_left z (by omega), show b - (i + 1) = j by omega]
    rw [path, path, List.cons.injEq, Prod.mk.injEq, ih _ _ _ _ (by omega)]
    constructor
    · rintro ⟨hfirst, hrest⟩ i hi
      cases i with
      | zero => exact hfirst
      | succ i =>
        have hbits := hrest i (by omega)
        rwa [hdouble x i (by omega), hdouble x' i (by omega), hdouble y i (by omega),
          hdouble y' i (by omega)] at hbits
    · intro h
      refine ⟨h 0 (by omega), fun i hi => ?_⟩
      rw [hdouble x i hi, hdouble x' i hi, hdouble y i hi, hdouble y' i hi]
      exact h (i + 1) (by omega)

/-- Numbers below `2 ^ (b + 1)` have the bits from `b` down to `m` in common exactly
if they are the same up to the lowest `m`. -/
theorem testBit_eq_iff {b m x x' : ℕ} (hx : x < 2 ^ (b + 1)) (hx' : x' < 2 ^ (b + 1)) (hm : m ≤ b + 1) :
    (∀ i < b + 1 - m, x.testBit (b - i) = x'.testBit (b - i)) ↔ x / 2 ^ m = x' / 2 ^ m := by
  constructor
  · intro h
    refine Nat.eq_of_testBit_eq fun j => ?_
    rw [Nat.testBit_div_two_pow, Nat.testBit_div_two_pow]
    by_cases hj : j + m ≤ b
    · have hbit := h (b - (j + m)) (by omega)
      rwa [show b - (b - (j + m)) = j + m by omega] at hbit
    · have hpow : 2 ^ (b + 1) ≤ 2 ^ (j + m) := Nat.pow_le_pow_right (by omega) (by omega)
      rw [Nat.testBit_lt_two_pow (by omega), Nat.testBit_lt_two_pow (by omega)]
  · intro h i hi
    have hbit := congrArg (fun z => z.testBit (b - i - m)) h
    simp only [Nat.testBit_div_two_pow] at hbit
    rwa [show b - i - m + m = b - i by omega] at hbit

/-- Points have one leaf exactly if their coordinates differ in the lowest bits only. -/
theorem path_eq_iff_div {b m x y x' y' : ℕ} (hx : x < 2 ^ (b + 1)) (hx' : x' < 2 ^ (b + 1))
    (hy : y < 2 ^ (b + 1)) (hy' : y' < 2 ^ (b + 1)) (hm : m ≤ b + 1) :
    path b (b + 1 - m) x y = path b (b + 1 - m) x' y' ↔ x / 2 ^ m = x' / 2 ^ m ∧ y / 2 ^ m = y' / 2 ^ m := by
  rw [path_eq_iff b (b + 1 - m) x y x' y' (by omega), ← testBit_eq_iff hx hx' hm,
    ← testBit_eq_iff hy hy' hm]
  exact ⟨fun h => ⟨fun i hi => (h i hi).1, fun i hi => (h i hi).2⟩, fun h i hi => ⟨h.1 i hi, h.2 i hi⟩⟩

/-- The bits above `b` are not looked at. -/
theorem path_mod (b n x y : ℕ) (hn : n ≤ b + 1) : path b n (x % 2 ^ (b + 1)) (y % 2 ^ (b + 1)) = path b n x y := by
  rw [path_eq_iff b n _ _ _ _ hn]
  intro i _
  have hbit : b - i < b + 1 := by omega
  rw [Nat.testBit_mod_two_pow, Nat.testBit_mod_two_pow, decide_eq_true hbit, Bool.true_and, Bool.true_and]
  exact ⟨rfl, rfl⟩

theorem path_eq_iff_mod {b m x y x' y' : ℕ} (hm : m ≤ b + 1) : path b (b + 1 - m) x y = path b (b + 1 - m) x' y' ↔
      x % 2 ^ (b + 1) / 2 ^ m = x' % 2 ^ (b + 1) / 2 ^ m ∧ y % 2 ^ (b + 1) / 2 ^ m = y' % 2 ^ (b + 1) / 2 ^ m := by
  have hpos : 0 < 2 ^ (b + 1) := Nat.two_pow_pos _
  rw [← path_mod b (b + 1 - m) x y (Nat.sub_le ..), ← path_mod b (b + 1 - m) x' y' (Nat.sub_le ..)]
  exact path_eq_iff_div (Nat.mod_lt _ hpos) (Nat.mod_lt _ hpos) (Nat.mod_lt _ hpos) (Nat.mod_lt _ hpos) hm

end ForgottenServer.Lib.Quadtree
