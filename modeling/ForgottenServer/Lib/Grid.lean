import Mathlib.Algebra.BigOperators.Group.Finset.Basic
import Mathlib.Algebra.BigOperators.Ring.Finset
import Mathlib.Data.Finset.Image
import Mathlib.Data.Finset.Prod
import Mathlib.Logic.Function.Basic
import Mathlib.Tactic.Linarith

/-! # Writes into an array with bounds

An array is a function of its places, some of which are inside. A list of writes
is made one after another and fails at the first one outside. Where all writes of
a place write the same, the array holds afterwards what was written. -/
namespace ForgottenServer.Lib.Grid

variable {κ α : Type*} [DecidableEq κ]

def writes (inside : κ → Bool) : (κ → α) → List (κ × α) → Option (κ → α)
  | a, [] => some a
  | a, (k, v) :: ws => if inside k then writes inside (Function.update a k v) ws else none

variable {inside : κ → Bool} {a b : κ → α} {ws : List (κ × α)}

theorem inside_of_writes (h : writes inside a ws = some b) : ∀ w ∈ ws, inside w.1 = true := by
  induction ws generalizing a with
  | nil => simp
  | cons w ws ih =>
    obtain ⟨k, v⟩ := w
    simp only [writes] at h
    split at h
    · rename_i hin
      intro w hw
      rcases List.mem_cons.mp hw with rfl | hw
      · exact hin
      · exact ih h w hw
    · cases h

theorem exists_writes (h : ∀ w ∈ ws, inside w.1 = true) : ∃ b, writes inside a ws = some b := by
  induction ws generalizing a with
  | nil => exact ⟨a, rfl⟩
  | cons w ws ih =>
    obtain ⟨k, v⟩ := w
    simp only [writes, h (k, v) (by simp), if_true]
    exact ih fun w hw => h w (List.mem_cons_of_mem _ hw)

theorem writes_kept (h : writes inside a ws = some b) {k : κ} (hk : ∀ w ∈ ws, w.1 ≠ k) : b k = a k := by
  induction ws generalizing a with
  | nil =>
    cases h
    rfl
  | cons w ws ih =>
    obtain ⟨k', v⟩ := w
    simp only [writes] at h
    split at h
    · rw [ih h fun w hw => hk w (List.mem_cons_of_mem _ hw), Function.update_of_ne (Ne.symm (hk (k', v) (by simp)))]
    · cases h

theorem writes_written (h : writes inside a ws = some b)
    (hsame : ∀ w ∈ ws, ∀ w' ∈ ws, w.1 = w'.1 → w.2 = w'.2) : ∀ w ∈ ws, b w.1 = w.2 := by
  induction ws generalizing a with
  | nil => simp
  | cons w ws ih =>
    obtain ⟨k, v⟩ := w
    simp only [writes] at h
    split at h
    · intro w hw
      by_cases hlater : ∃ w' ∈ ws, w'.1 = w.1
      · obtain ⟨w', hw', hkey⟩ := hlater
        rw [← hkey, ih h (fun u hu u' hu' => hsame u (List.mem_cons_of_mem _ hu) u'
          (List.mem_cons_of_mem _ hu')) w' hw']
        exact hsame w' (List.mem_cons_of_mem _ hw') w hw hkey
      · push Not at hlater
        rw [writes_kept h hlater]
        rcases List.mem_cons.mp hw with rfl | hw
        · exact Function.update_self ..
        · exact absurd rfl (hlater w hw)
    · cases h

theorem writes_on {b : κ → Bool} {ws : List (κ × Bool)} (h : writes inside (fun _ => false) ws = some b)
    (hsame : ∀ w ∈ ws, ∀ w' ∈ ws, w.1 = w'.1 → w.2 = w'.2) (k : κ) : b k = true ↔ (k, true) ∈ ws := by
  constructor
  · intro hk
    by_cases hsome : ∃ w ∈ ws, w.1 = k
    · obtain ⟨w, hw, rfl⟩ := hsome
      rw [writes_written h hsame w hw] at hk
      rwa [← hk]
    · push Not at hsome
      rw [writes_kept h hsome] at hk
      cases hk
  · exact fun hmem => writes_written h hsame (k, true) hmem

theorem mapM_eq_some {β γ : Type*} {f : β → Option γ} {l : List β} {l' : List γ} :
    l.mapM f = some l' ↔ l.map f = l'.map some := by
  induction l generalizing l' with
  | nil => cases l' <;> simp
  | cons x l ih =>
    cases l' with
    | nil => simp [List.mapM_cons, Option.bind_eq_some_iff]
    | cons y l' =>
      rw [List.mapM_cons]
      simp only [Option.bind_eq_bind, Option.bind_eq_some_iff, Option.pure_def, Option.some.injEq,
        List.cons.injEq, List.map_cons, ih]
      constructor
      · intro ⟨z, hz, l'', hl'', hzy, hll⟩
        exact ⟨hzy ▸ hz, hll ▸ hl''⟩
      · intro ⟨hy, hl'⟩
        exact ⟨y, hy, l', hl', rfl, rfl⟩

/-- Only the empty set of points is its own shift. -/
theorem shift_eq_zero {s : Finset (ℤ × ℤ)} (hs : s.Nonempty) {k : ℤ}
    (h : s.image (fun p => (p.1, p.2 + k)) = s) : k = 0 := by
  have hsum : ∑ p ∈ s, (p.2 + k) = ∑ p ∈ s, p.2 := by
    conv_rhs => rw [← h]
    rw [Finset.sum_image]
    intro p _ q _ hpq
    simp only [Prod.mk.injEq, add_left_inj] at hpq
    exact Prod.ext hpq.1 hpq.2
  rw [Finset.sum_add_distrib, Finset.sum_const, nsmul_eq_mul] at hsum
  have hprod : (s.card : ℤ) * k = 0 := by linarith
  rcases mul_eq_zero.mp hprod with hcard | hk
  · exact absurd hcard (by exact_mod_cast hs.card_ne_zero)
  · exact hk

end ForgottenServer.Lib.Grid
