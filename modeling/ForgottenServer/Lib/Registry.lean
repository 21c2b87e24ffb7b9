import ForgottenServer.Lib.Table
import Mathlib.Data.List.Nodup
import Mathlib.Data.List.ReduceOption
import Mathlib.Tactic.Common

/-! # Registries

A registry keeps values under references that it hands out itself: which one, the
allocator says, and it is one that is not in use. Nothing is kept of no value. -/
namespace ForgottenServer.Lib.Registry

/-- Any choice of references that are not in use. -/
structure Allocator where
  next : List ℕ → ℕ
  fresh : ∀ used, next used ∉ used

variable {α : Type*} (a : Allocator)

def refs (r : List (ℕ × α)) : List ℕ := r.map Prod.fst

/-- The value under a reference, if any. -/
def get (r : List (ℕ × α)) (k : Option ℕ) : Option α :=
  k.bind fun k => (Table.lookup Prod.fst k r).map Prod.snd

/-- The values are taken in, one after the other. -/
def refAll : List (Option α) → List (ℕ × α) → List (Option ℕ) × List (ℕ × α)
  | [], r => ([], r)
  | none :: vs, r => (none :: (refAll vs r).1, (refAll vs r).2)
  | some v :: vs, r =>
    let k := a.next (refs r)
    (some k :: (refAll vs ((k, v) :: r)).1, (refAll vs ((k, v) :: r)).2)

def unrefAll (ks : List ℕ) (r : List (ℕ × α)) : List (ℕ × α) := r.filter (·.1 ∉ ks)

variable {a} {r : List (ℕ × α)}

theorem refAll_refs (vs : List (Option α)) (r : List (ℕ × α)) :
    (refs (refAll a vs r).2).Perm ((refAll a vs r).1.reduceOption ++ refs r) := by
  induction vs generalizing r with
  | nil => exact List.Perm.refl _
  | cons v vs ih =>
    cases v with
    | none =>
      rw [refAll, List.reduceOption_cons_of_none]
      exact ih r
    | some v =>
      rw [refAll, List.reduceOption_cons_of_some]
      exact (ih _).trans List.perm_middle

theorem refAll_nodup (hr : (refs r).Nodup) (vs : List (Option α)) : (refs (refAll a vs r).2).Nodup := by
  induction vs generalizing r with
  | nil => exact hr
  | cons v vs ih =>
    cases v with
    | none => exact ih hr
    | some v =>
      rw [refAll]
      exact ih (List.nodup_cons.mpr ⟨a.fresh _, hr⟩)

theorem get_cons_of_ne {k k' : ℕ} {v : α} (h : k' ≠ k) : get ((k, v) :: r) (some k') = get r (some k') := by
  rw [get, get, Option.bind_some, Option.bind_some, Table.lookup, Table.lookup,
    List.find?_cons_of_neg (by simpa using h.symm)]

theorem get_refAll_of_mem {vs : List (Option α)} {k : ℕ} (hk : k ∈ refs r) :
    get (refAll a vs r).2 (some k) = get r (some k) := by
  induction vs generalizing r with
  | nil => rfl
  | cons v vs ih =>
    cases v with
    | none => exact ih hk
    | some v =>
      rw [refAll]
      have hin : k ∈ refs ((a.next (refs r), v) :: r) := List.mem_cons_of_mem _ hk
      rw [ih hin]
      exact get_cons_of_ne fun heq => a.fresh (refs r) (heq ▸ hk)

theorem get_refAll (vs : List (Option α)) (r : List (ℕ × α)) : (refAll a vs r).1.map (get (refAll a vs r).2) = vs := by
  induction vs generalizing r with
  | nil => rfl
  | cons v vs ih =>
    cases v with
    | none =>
      rw [refAll, List.map_cons, ih r]
      rfl
    | some v =>
      have hin : a.next (refs r) ∈ refs ((a.next (refs r), v) :: r) := List.mem_cons_self ..
      rw [refAll, List.map_cons, ih, get_refAll_of_mem hin]
      simp [get, Table.lookup]

theorem refs_unrefAll (ks : List ℕ) (r : List (ℕ × α)) : refs (unrefAll ks r) = (refs r).filter (· ∉ ks) := by
  rw [refs, unrefAll, refs, List.filter_map]
  rfl

theorem get_unrefAll {ks : List ℕ} {k : ℕ} (hk : k ∉ ks) : get (unrefAll ks r) (some k) = get r (some k) := by
  rw [get, get, Option.bind_some, Option.bind_some, Table.lookup, Table.lookup, unrefAll, List.find?_filter]
  congr 2
  funext p
  by_cases heq : p.1 = k
  · simp [heq, hk]
  · simp [heq]

/-- The references in use are those of owners: one of them gives back its own. -/
theorem unrefAll_perm {ks own : List ℕ} (hr : (refs r).Nodup) (h : (refs r).Perm (ks ++ own)) :
    (refs (unrefAll ks r)).Perm own := by
  have hnodup := h.nodup_iff.mp hr
  rw [refs_unrefAll]
  refine (h.filter _).trans ?_
  rw [List.filter_append]
  have hgone : ks.filter (· ∉ ks) = [] := by simp
  have hkept : own.filter (· ∉ ks) = own := by
    refine List.filter_eq_self.mpr fun k hk => decide_eq_true fun hks => ?_
    exact List.disjoint_of_nodup_append hnodup hks hk
  rw [hgone, hkept]
  exact List.Perm.refl _

end ForgottenServer.Lib.Registry
