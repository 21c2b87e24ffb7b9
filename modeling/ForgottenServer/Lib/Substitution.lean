import Mathlib.Data.List.Nodup

/-! # One element of a list for another

`List.replace` puts `b` in the place of the first `a`, `List.erase` takes it out;
every other element stays where it is. -/
namespace ForgottenServer.Lib.Substitution

variable {α : Type*} [DecidableEq α] {a b : α} {l : List α}

theorem replace_cons_of_ne {y : α} (h : a ≠ y) : (y :: l).replace a b = y :: l.replace a b := by
  have hne : (a == y) = false := by simpa using h
  rw [List.replace_cons, hne]

theorem set_idxOf (a b : α) (l : List α) : l.set (l.idxOf a) b = l.replace a b := by
  induction l with
  | nil => rfl
  | cons y l ih =>
    by_cases h : y = a
    · subst h
      simp
    · have hne : (y == a) = false := by simpa using h
      rw [List.idxOf_cons, hne, cond_false, List.set_cons_succ, ih, replace_cons_of_ne (Ne.symm h)]

theorem idxOf_replace (hb : b ∉ l) : (l.replace a b).idxOf b = l.idxOf a := by
  induction l with
  | nil => rfl
  | cons y l ih =>
    obtain ⟨hy, hl⟩ := not_or.mp (mt List.mem_cons.mpr hb)
    by_cases h : a = y
    · subst h
      simp
    · have hne : (y == b) = false := by simpa using Ne.symm hy
      have hne' : (y == a) = false := by simpa using Ne.symm h
      rw [replace_cons_of_ne h, List.idxOf_cons, hne, List.idxOf_cons, hne', ih hl]

theorem mem_replace (ha : a ∈ l) : b ∈ l.replace a b := by
  induction l with
  | nil => cases ha
  | cons y l ih =>
    by_cases h : a = y
    · subst h
      simp
    · rw [replace_cons_of_ne h]
      exact List.mem_cons_of_mem _ (ih ((List.mem_cons.mp ha).resolve_left h))

theorem filter_erase {out : List α} (ha : a ∈ out) (l : List α) :
    (l.erase a).filter (· ∉ out) = l.filter (· ∉ out) := by
  induction l with
  | nil => rfl
  | cons y l ih =>
    by_cases h : y = a
    · subst h
      rw [List.erase_cons_head, List.filter_cons_of_neg (by simpa using ha)]
    · rw [List.erase_cons_tail (by simpa using h), List.filter_cons, List.filter_cons, ih]

theorem replace_self (a : α) (l : List α) : l.replace a a = l := by
  rw [← set_idxOf]
  induction l with
  | nil => rfl
  | cons y l ih =>
    by_cases h : y = a
    · subst h
      simp
    · have hne : (y == a) = false := by simpa using h
      rw [List.idxOf_cons, hne, cond_false, List.set_cons_succ, ih]

end ForgottenServer.Lib.Substitution
