import Mathlib.Algebra.BigOperators.Group.Finset.Basic
import Mathlib.Algebra.BigOperators.Group.List.Basic
import Mathlib.Data.List.Nodup
import Mathlib.Tactic.Common

/-! # Tables with a primary key

A table is a list of rows with distinct keys. Rows are deleted and updated by
key; the sum of a column changes by the row that was touched. The same for a
function of finitely many keys. -/
namespace ForgottenServer.Lib.Table

variable {ρ κ : Type*} [DecidableEq κ] (key : ρ → κ)

/-- `DELETE … WHERE key = k`. -/
def delete (k : κ) (t : List ρ) : List ρ := t.filter fun r => key r ≠ k

/-- `UPDATE … WHERE key = k`. -/
def update (k : κ) (g : ρ → ρ) (t : List ρ) : List ρ := t.map fun r => if key r = k then g r else r

/-- `SELECT … WHERE key = k`. -/
def lookup (k : κ) (t : List ρ) : Option ρ := t.find? fun r => key r = k

variable {key} {k : κ} {t : List ρ} {r : ρ} {g : ρ → ρ}

theorem delete_cons (a : ρ) : delete key k (a :: t) = if key a = k then delete key k t else a :: delete key k t := by
  by_cases h : key a = k <;> simp [delete, h]

theorem update_cons (a : ρ) : update key k g (a :: t) = (if key a = k then g a else a) :: update key k g t := rfl

@[simp] theorem mem_delete : r ∈ delete key k t ↔ r ∈ t ∧ key r ≠ k := by
  simp [delete]

theorem mem_update : r ∈ update key k g t ↔ ∃ r' ∈ t, (if key r' = k then g r' else r') = r := by
  simp [update]

theorem lookup_some (h : lookup key k t = some r) : r ∈ t ∧ key r = k :=
  ⟨List.mem_of_find?_eq_some h, by simpa using List.find?_some h⟩

theorem lookup_eq_some_iff (h : (t.map key).Nodup) : lookup key k t = some r ↔ r ∈ t ∧ key r = k := by
  refine ⟨lookup_some, ?_⟩
  intro ⟨hr, hk⟩
  obtain ⟨r', hr'⟩ := Option.isSome_iff_exists.mp
    (List.find?_isSome.mpr ⟨r, hr, decide_eq_true hk⟩ : (lookup key k t).isSome = true)
  obtain ⟨hmem, hkey⟩ := lookup_some hr'
  rw [lookup, hr', List.inj_on_of_nodup_map h hmem hr (hkey.trans hk.symm)]

theorem delete_nodup (h : (t.map key).Nodup) : ((delete key k t).map key).Nodup :=
  h.sublist (List.filter_sublist.map _)

theorem perm_cons_delete (h : (t.map key).Nodup) (hr : r ∈ t) : t.Perm (r :: delete key (key r) t) := by
  induction t with
  | nil => cases hr
  | cons a t ih =>
    rw [List.map_cons, List.nodup_cons] at h
    rw [delete_cons]
    rcases List.mem_cons.mp hr with rfl | hr
    · have hkept : delete key (key r) t = t := by
        refine List.filter_eq_self.mpr fun other hother => ?_
        exact decide_eq_true fun heq => h.1 (List.mem_map.mpr ⟨other, hother, heq⟩)
      rw [if_pos rfl, hkept]
    · have hne : key a ≠ key r := fun heq => h.1 (List.mem_map.mpr ⟨r, hr, heq.symm⟩)
      rw [if_neg hne]
      exact ((ih h.2 hr).cons a).trans (List.Perm.swap _ _ _)

theorem map_key_update (hg : ∀ r, key (g r) = key r) : (update key k g t).map key = t.map key := by
  simp only [update, List.map_map]
  refine List.map_congr_left fun r _ => ?_
  simp only [Function.comp_apply]
  split
  · exact hg r
  · rfl

theorem delete_of_not_mem (h : k ∉ t.map key) : delete key k t = t := by
  refine List.filter_eq_self.mpr fun r hr => ?_
  have : key r ≠ k := fun e => h (e ▸ List.mem_map_of_mem hr)
  simpa using this

theorem update_of_not_mem (h : k ∉ t.map key) : update key k g t = t := by
  refine (List.map_congr_left fun r hr => ?_).trans (List.map_id t)
  have : key r ≠ k := fun e => h (e ▸ List.mem_map_of_mem hr)
  simp [this]

section Sum
variable {M : Type*} [AddCommMonoid M] (f : ρ → M)

theorem sum_delete (h : (t.map key).Nodup) (hr : r ∈ t) :
    ((delete key (key r) t).map f).sum + f r = (t.map f).sum := by
  induction t with
  | nil => cases hr
  | cons a t ih =>
    simp only [List.map_cons, List.nodup_cons] at h
    rcases List.mem_cons.mp hr with rfl | hr
    · rw [delete_cons, if_pos rfl, delete_of_not_mem h.1, List.map_cons, List.sum_cons, add_comm]
    · have hne : key a ≠ key r := fun e => h.1 (e ▸ List.mem_map_of_mem hr)
      rw [delete_cons, if_neg hne]
      simp only [List.map_cons, List.sum_cons, add_assoc, ih h.2 hr]

theorem sum_update (h : (t.map key).Nodup) (hr : r ∈ t) :
    ((update key (key r) g t).map f).sum + f r = (t.map f).sum + f (g r) := by
  induction t with
  | nil => cases hr
  | cons a t ih =>
    simp only [List.map_cons, List.nodup_cons] at h
    rcases List.mem_cons.mp hr with rfl | hr
    · rw [update_cons, if_pos rfl, update_of_not_mem h.1]
      simp only [List.map_cons, List.sum_cons]
      rw [add_comm, add_comm (f (g r)), add_assoc]
    · have hne : key a ≠ key r := fun e => h.1 (e ▸ List.mem_map_of_mem hr)
      rw [update_cons, if_neg hne]
      simp only [List.map_cons, List.sum_cons, add_assoc, ih h.2 hr]

end Sum

/-- Changing the value of one key exchanges its share in a sum over all keys. -/
theorem sum_function_update {ι β M : Type*} [Fintype ι] [DecidableEq ι] [AddCommMonoid M] (f : ι → β) (i : ι) (b : β)
    (v : β → M) : ∑ j, v (Function.update f i b j) + v (f i) = ∑ j, v (f j) + v b := by
  have hrest : ∑ j ∈ Finset.univ.erase i, v (Function.update f i b j) = ∑ j ∈ Finset.univ.erase i, v (f j) := by
    refine Finset.sum_congr rfl fun j hj => ?_
    rw [Function.update_of_ne (Finset.ne_of_mem_erase hj)]
  rw [← Finset.sum_erase_add _ _ (Finset.mem_univ i), hrest, Function.update_self,
    ← Finset.sum_erase_add (a := i) (f := fun j => v (f j)) _ (Finset.mem_univ i)]
  rw [add_assoc, add_assoc, add_comm (v b)]

end ForgottenServer.Lib.Table
