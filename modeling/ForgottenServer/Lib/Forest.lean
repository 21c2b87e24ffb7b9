import Mathlib.Algebra.BigOperators.Group.Finset.Basic
import Mathlib.Algebra.Group.Indicator
import Mathlib.Algebra.Order.BigOperators.Group.Finset
import Mathlib.Algebra.Order.Group.Indicator
import Mathlib.Data.Finset.Range
import Mathlib.Tactic.Common

/-! # What lies below some places

Things lie at places, and every thing is a place itself. `Below` is what can be
reached from a set of places; `total` adds a value up over it. The lemmas say
what becomes of both when one thing is moved, taken away or put somewhere. No
order of the things is assumed: the relation may have cycles. -/
namespace ForgottenServer.Lib.Forest

variable {C α : Type*} (inner : α → C)

/-- The things below the places `S`, when `child c x` says that `x` lies at `c`. -/
inductive Below (child : C → α → Prop) (S : Set C) : α → Prop
  | root {c : C} {x : α} : c ∈ S → child c x → Below child S x
  | inside {x y : α} : Below child S y → child (inner y) x → Below child S x

variable {inner} {child child' : C → α → Prop} {S : Set C} {a b : C} {m x : α}

/-- What is below stays below if each of the old links can still be reached. -/
theorem Below.transfer (hroot : ∀ c ∈ S, ∀ x, child c x → Below inner child' S x)
    (hinside : ∀ y x, Below inner child' S y → child (inner y) x → Below inner child' S x)
    (h : Below inner child S x) : Below inner child' S x := by
  induction h with
  | root hc hx => exact hroot _ hc _ hx
  | inside _ hx ih => exact hinside _ _ ih hx

/-- A thing that is moved between two of the places stays below them, with all that is in it. -/
theorem below_move (ha : a ∈ S) (hb : b ∈ S) (hm : child a m)
    (hchild : ∀ c x, child' c x ↔ child c x ∧ x ≠ m ∨ c = b ∧ x = m) :
    Below inner child' S x ↔ Below inner child S x := by
  have hm' : Below inner child' S m := .root hb ((hchild b m).mpr (.inr ⟨rfl, rfl⟩))
  have hnew : ∀ c x, child c x → x = m ∨ child' c x := fun c x hx => by
    by_cases h : x = m
    · exact .inl h
    · exact .inr ((hchild c x).mpr (.inl ⟨hx, h⟩))
  have hold : ∀ c x, child' c x → x = m ∨ child c x := fun c x hx =>
    ((hchild c x).mp hx).elim (fun h => .inr h.1) fun h => .inl h.2
  constructor
  · refine Below.transfer (fun c hc x hx => ?_) fun y x hy hx => ?_
    · rcases hold c x hx with rfl | hx
      · exact .root ha hm
      · exact .root hc hx
    · rcases hold _ x hx with rfl | hx
      · exact .root ha hm
      · exact .inside hy hx
  · refine Below.transfer (fun c hc x hx => ?_) fun y x hy hx => ?_
    · rcases hnew c x hx with rfl | hx
      · exact hm'
      · exact .root hc hx
    · rcases hnew _ x hx with rfl | hx
      · exact hm'
      · exact .inside hy hx

/-- A thing is put at one of the places, and all that is in it comes along; a
thing with nothing in it may have to make way. -/
theorem below_put {lost : Option α} (hb : b ∈ S) (hleaf : ∀ y, lost = some y → ∀ x, ¬ child (inner y) x)
    (hout : ∀ y, lost = some y → ¬ Below inner child {inner m} y)
    (hchild : ∀ c x, child' c x ↔ child c x ∧ lost ≠ some x ∨ c = b ∧ x = m) :
    Below inner child' S x ↔ Below inner child S x ∧ lost ≠ some x ∨ x = m ∨ Below inner child {inner m} x := by
  have hold : ∀ c x, child c x → lost ≠ some x → child' c x :=
    fun c x hx hne => (hchild c x).mpr (.inl ⟨hx, hne⟩)
  have hm : Below inner child' S m := .root hb ((hchild b m).mpr (.inr ⟨rfl, rfl⟩))
  constructor
  · intro h
    induction h with
    | root hc hx =>
      rcases (hchild _ _).mp hx with ⟨hx, hne⟩ | ⟨-, hx⟩
      · exact .inl ⟨.root hc hx, hne⟩
      · exact .inr (.inl hx)
    | inside _ hx ih =>
      rcases (hchild _ _).mp hx with ⟨hx, hne⟩ | ⟨-, hx⟩
      · rcases ih with ⟨hy, -⟩ | rfl | hy
        · exact .inl ⟨.inside hy hx, hne⟩
        · exact .inr (.inr (.root rfl hx))
        · exact .inr (.inr (.inside hy hx))
      · exact .inr (.inl hx)
  · rintro (⟨h, hne⟩ | rfl | h)
    · induction h with
      | root hc hx => exact .root hc (hold _ _ hx hne)
      | @inside x y _ hx ih =>
        have hy : lost ≠ some y := fun e => hleaf y e x hx
        exact .inside (ih hy) (hold _ _ hx hne)
    · exact hm
    · have hkeep : ∀ z, Below inner child {inner m} z → lost ≠ some z := fun z hz e => hout z e hz
      induction h with
      | @root c z hc hx =>
        have hz := hkeep z (.root hc hx)
        rw [Set.mem_singleton_iff.mp hc] at hx
        exact .inside hm (hold _ _ hx hz)
      | @inside x y hy hx ih => exact .inside ih (hold _ _ hx (hkeep x (.inside hy hx)))

theorem below_widen {y : α} (hy : Below inner child S y) :
    Below inner child (insert (inner y) S) x ↔ Below inner child S x := by
  constructor
  · intro h
    induction h with
    | root hc hx =>
      rcases hc with rfl | hc
      · exact .inside hy hx
      · exact .root hc hx
    | inside _ hx ih => exact .inside ih hx
  · intro h
    induction h with
    | root hc hx => exact .root (Set.mem_insert_of_mem _ hc) hx
    | inside _ hx ih => exact .inside ih hx

/-- Where every thing lies at one place at most, what is below a thing that lies
nowhere is not below places that are outside it. -/
theorem below_apart (hone : ∀ c c' x, child c x → child c' x → c = c') (hinj : Function.Injective inner)
    (hloose : ∀ c, ¬ child c m) (hout : ∀ y, inner y ∈ S → y ≠ m ∧ ¬ Below inner child {inner m} y)
    (h : Below inner child S x) : x ≠ m ∧ ¬ Below inner child {inner m} x := by
  induction h with
  | @root c x hc hx =>
    refine ⟨fun e => hloose c (e ▸ hx), fun hbelow => ?_⟩
    cases hbelow with
    | root hc' hx' =>
      rw [Set.mem_singleton_iff.mp hc'] at hx'
      exact (hout m (hone _ _ _ hx' hx ▸ hc)).1 rfl
    | inside hy hx' => exact (hout _ (hone _ _ _ hx' hx ▸ hc)).2 hy
  | @inside x y _ hx ih =>
    refine ⟨fun e => hloose _ (e ▸ hx), fun hbelow => ?_⟩
    cases hbelow with
    | root hc' hx' =>
      rw [Set.mem_singleton_iff.mp hc'] at hx'
      exact ih.1 (hinj (hone _ _ _ hx hx'))
    | inside hy hx' => exact ih.2 (hinj (hone _ _ _ hx hx') ▸ hy)

/-- A thing with nothing in it is taken away. -/
theorem below_remove (hleaf : ∀ x, ¬ child (inner m) x) (hchild : ∀ c x, child' c x ↔ child c x ∧ x ≠ m) :
    Below inner child' S x ↔ Below inner child S x ∧ x ≠ m := by
  constructor
  · intro h
    refine ⟨h.transfer (fun c hc x hx => .root hc ((hchild c x).mp hx).1)
      fun y x hy hx => .inside hy ((hchild _ x).mp hx).1, ?_⟩
    cases h with
    | root _ hx => exact ((hchild _ x).mp hx).2
    | inside _ hx => exact ((hchild _ x).mp hx).2
  · rintro ⟨h, hne⟩
    induction h with
    | root hc hx => exact .root hc ((hchild _ _).mpr ⟨hx, hne⟩)
    | @inside x y _ hx ih =>
      have hy : y ≠ m := by
        rintro rfl
        exact hleaf x hx
      exact .inside (ih hy) ((hchild _ _).mpr ⟨hx, hne⟩)

/-! ## Totals -/

section Total
variable {M : Type*} [AddCommMonoid M]

/-- The sum of `v` over what is in `B`, among the things `s`. -/
noncomputable def total (s : Finset α) (B : Set α) (v : α → M) : M := ∑ x ∈ s, B.indicator v x

variable {s : Finset α} {B B' : Set α} {v v' : α → M}

theorem total_congr (hB : ∀ x ∈ s, x ∈ B ↔ x ∈ B') (hv : ∀ x ∈ B', v x = v' x) : total s B v = total s B' v' := by
  refine Finset.sum_congr rfl fun x hx => ?_
  by_cases h : x ∈ B'
  · rw [Set.indicator_of_mem ((hB x hx).mpr h), Set.indicator_of_mem h, hv x h]
  · rw [Set.indicator_of_notMem (fun h' => h ((hB x hx).mp h')), Set.indicator_of_notMem h]

theorem total_split (hx : x ∈ s) (hB : x ∈ B) : total s B v = total s (B \ {x}) v + v x := by
  classical
  have hrest : ∑ y ∈ s.erase x, (B \ {x}).indicator v y = ∑ y ∈ s.erase x, B.indicator v y := by
    refine Finset.sum_congr rfl fun y hy => ?_
    simp [Set.indicator, Finset.ne_of_mem_erase hy]
  simp only [total]
  rw [← Finset.sum_erase_add s _ hx, ← Finset.sum_erase_add s ((B \ {x}).indicator v) hx, hrest]
  rw [Set.indicator_of_mem hB, Set.indicator_of_notMem (s := B \ {x}) (by simp), add_zero]

theorem total_change (hx : x ∈ s) (hB : x ∈ B) (hv : ∀ y ∈ B, y ≠ x → v' y = v y) :
    total s B v' + v x = total s B v + v' x := by
  rw [total_split hx hB, total_split (v := v) hx hB]
  rw [total_congr (fun _ _ => Iff.rfl) fun y hy => hv y hy.1 hy.2]
  rw [add_assoc, add_assoc, add_comm (v' x)]

theorem total_union (h : ∀ x ∈ B, x ∉ B') : total s (B ∪ B') v = total s B v + total s B' v := by
  unfold total
  rw [← Finset.sum_add_distrib]
  refine Finset.sum_congr rfl fun x _ => ?_
  rw [Set.indicator_union_of_disjoint (Set.disjoint_left.mpr h)]

end Total

/-- Things that are new and not below add nothing. -/
theorem total_succ {M : Type*} [AddCommMonoid M] {B : Set ℕ} {v : ℕ → M} {n : ℕ} (h : n ∉ B) :
    total (Finset.range (n + 1)) B v = total (Finset.range n) B v := by
  simp [total, Finset.sum_range_succ, h]

end ForgottenServer.Lib.Forest
