import ForgottenServer.Lib.Flags
import Mathlib.Data.List.Nodup
import Mathlib.Logic.Function.Basic

/-! # Keyed slots in a vector

Values with keys lie in a vector in no order, and a word has a bit for each key that
is there. A new key goes to the end; a key is removed by moving the last slot to its
place. What counts is the finite map from keys to values. -/
namespace ForgottenServer.Lib
open ForgottenServer.Lib.Flags

variable {κ ν : Type*} {w : ℕ}

structure Slots (κ ν : Type*) (w : ℕ) where
  list : List (κ × ν) := []
  bits : BitVec w := 0
  deriving DecidableEq, Repr

namespace Slots
variable (bit : κ → ℕ) (s : Slots κ ν w)

def has (k : κ) : Bool := s.bits &&& BitVec.twoPow w (bit k) ≠ 0

variable [DecidableEq κ]

/-- The value in the first slot of a key. -/
def find (k : κ) : Option ν := (s.list.find? fun x => x.1 = k).map Prod.snd

/-- Change the first slot of a key. -/
def change (k : κ) (f : ν → ν) : List (κ × ν) → List (κ × ν)
  | [] => []
  | x :: l => if x.1 = k then (x.1, f x.2) :: l else x :: change k f l

/-- Change the value of a key, which is made at the end if it is not there. -/
def alter (k : κ) (fresh : ν) (f : ν → ν) : Slots κ ν w :=
  if s.has bit k ∧ (s.find k).isSome then { s with list := change k f s.list }
  else { list := s.list ++ [(k, f fresh)], bits := s.bits ||| BitVec.twoPow w (bit k) }

/-- Put a slot in the place of the first one of a key. -/
def replace (k : κ) (y : κ × ν) : List (κ × ν) → List (κ × ν)
  | [] => []
  | x :: l => if x.1 = k then y :: l else x :: replace k y l

/-- The vector without a key, searched from its end. -/
def swapRemove (k : κ) (l : List (κ × ν)) : List (κ × ν) :=
  match l.reverse with
  | [] => []
  | last :: rest =>
    if last.1 = k then rest.reverse
    else if rest.any fun x => x.1 = k then (replace k last rest).reverse
    else l

def remove (k : κ) : Slots κ ν w :=
  if s.has bit k then { list := swapRemove k s.list, bits := s.bits &&& ~~~BitVec.twoPow w (bit k) }
  else s

/-- No key is there twice, and the bits are those of the keys. -/
structure Sound : Prop where
  nodup : (s.list.map Prod.fst).Nodup
  bits : ∀ i, s.bits.getLsbD i = true ↔ ∃ x ∈ s.list, bit x.1 = i

/-! ## Finding -/

section Find
variable {s} {k : κ} {v : ν}

theorem find_eq_some_iff (h : (s.list.map Prod.fst).Nodup) : s.find k = some v ↔ (k, v) ∈ s.list := by
  constructor
  · intro hfind
    obtain ⟨x, hx, rfl⟩ := Option.map_eq_some_iff.mp hfind
    have hkey : x.1 = k := by simpa using List.find?_some hx
    rw [← hkey]
    exact List.mem_of_find?_eq_some hx
  · intro hmem
    obtain ⟨x, hx⟩ := Option.isSome_iff_exists.mp
      (List.find?_isSome.mpr ⟨(k, v), hmem, decide_eq_true rfl⟩ : (s.list.find? fun x => x.1 = k).isSome = true)
    have hkey : x.1 = k := by simpa using List.find?_some hx
    have heq := List.inj_on_of_nodup_map h (List.mem_of_find?_eq_some hx) hmem hkey
    rw [find, hx, heq]
    rfl

theorem find_isSome_iff : (s.find k).isSome = true ↔ ∃ x ∈ s.list, x.1 = k := by
  rw [find, Option.isSome_map, List.find?_isSome]
  simp

variable {bit}

theorem Sound.has_iff (h : s.Sound bit) (hinj : Function.Injective bit) (hlt : bit k < w) :
    s.has bit k = true ↔ (s.find k).isSome = true := by
  rw [has, decide_eq_true_iff, and_twoPow_ne_zero hlt, h.bits, find_isSome_iff]
  simp only [hinj.eq_iff]

/-- The bits say which keys there are. -/
theorem Sound.bits_eq_iff {t : Slots κ ν w} (h : s.Sound bit) (ht : t.Sound bit)
    (hinj : Function.Injective bit) : s.bits = t.bits ↔ ∀ k, (s.find k).isSome = (t.find k).isSome := by
  have hkey : ∀ {r : Slots κ ν w}, r.Sound bit → ∀ k, (r.bits.getLsbD (bit k) = true ↔ (r.find k).isSome = true) := by
    intro r hr k
    rw [hr.bits, find_isSome_iff]
    simp only [hinj.eq_iff]
  constructor
  · intro hbits k
    rw [Bool.eq_iff_iff, ← hkey h, ← hkey ht, hbits]
  · intro hsome
    refine BitVec.eq_of_getLsbD_eq fun i _ => Bool.eq_iff_iff.mpr ?_
    constructor
    · intro hi
      obtain ⟨x, _, rfl⟩ := (h.bits i).mp hi
      rwa [hkey ht, ← hsome, ← hkey h]
    · intro hi
      obtain ⟨x, _, rfl⟩ := (ht.bits i).mp hi
      rwa [hkey h, hsome, ← hkey ht]

end Find

/-! ## Changing -/

section Alter
variable {bit} {s} {k : κ} {f : ν → ν}

theorem map_fst_change (l : List (κ × ν)) : (change k f l).map Prod.fst = l.map Prod.fst := by
  induction l with
  | nil => rfl
  | cons x l ih =>
    rw [change]
    split
    · rfl
    · rw [List.map_cons, List.map_cons, ih]

theorem find_change (l : List (κ × ν)) (k' : κ) : ((change k f l).find? fun x => x.1 = k').map Prod.snd =
      if k' = k then ((l.find? fun x => x.1 = k).map Prod.snd).map f
      else (l.find? fun x => x.1 = k').map Prod.snd := by
  induction l with
  | nil => simp [change]
  | cons x l ih =>
    rw [change]
    by_cases hx : x.1 = k
    · by_cases hk : k' = k
      · simp [hx, hk]
      · simp [hx, hk, Ne.symm hk]
    · rw [if_neg hx]
      by_cases hk : k' = k
      · subst hk
        rw [if_pos rfl] at ih ⊢
        rw [List.find?_cons_of_neg (by simpa using hx), List.find?_cons_of_neg (by simpa using hx), ih]
      · rw [if_neg hk] at ih ⊢
        by_cases hx' : x.1 = k'
        · rw [List.find?_cons_of_pos (by simpa using hx'), List.find?_cons_of_pos (by simpa using hx')]
        · rw [List.find?_cons_of_neg (by simpa using hx'), List.find?_cons_of_neg (by simpa using hx'), ih]

/-- Only what happens to one key is new. -/
theorem Sound.alter (h : s.Sound bit) (hinj : Function.Injective bit) (hlt : bit k < w) (fresh : ν) (f : ν → ν) :
    (s.alter bit k fresh f).Sound bit ∧
    (s.alter bit k fresh f).find = Function.update s.find k (some (f ((s.find k).getD fresh))) := by
  have hhas := h.has_iff hinj hlt
  unfold Slots.alter
  by_cases hsome : (s.find k).isSome = true
  · rw [if_pos ⟨hhas.mpr hsome, hsome⟩]
    refine ⟨⟨by rw [map_fst_change]; exact h.nodup, fun i => ?_⟩, ?_⟩
    · have hmem : ∀ a, a ∈ (change k f s.list).map Prod.fst ↔ a ∈ s.list.map Prod.fst := by
        intro a
        rw [map_fst_change]
      rw [h.bits]
      constructor
      · intro ⟨x, hx, hi⟩
        obtain ⟨y, hy, hkey⟩ := List.mem_map.mp ((hmem x.1).mpr (List.mem_map_of_mem hx))
        exact ⟨y, hy, by rw [hkey]; exact hi⟩
      · intro ⟨x, hx, hi⟩
        obtain ⟨y, hy, hkey⟩ := List.mem_map.mp ((hmem x.1).mp (List.mem_map_of_mem hx))
        exact ⟨y, hy, by rw [hkey]; exact hi⟩
    · obtain ⟨v, hv⟩ := Option.isSome_iff_exists.mp hsome
      funext k'
      have hchange := find_change (k := k) (f := f) s.list k'
      change ((change k f s.list).find? fun x => x.1 = k').map Prod.snd = _
      rw [hchange]
      by_cases hk : k' = k
      · subst hk
        rw [if_pos rfl, Function.update_self, hv, Option.getD_some]
        change (s.find k').map f = _
        rw [hv]
        rfl
      · rw [if_neg hk, Function.update_of_ne hk]
        rfl
  · rw [if_neg fun hboth => hsome hboth.2]
    have hnone : s.find k = none := Option.not_isSome_iff_eq_none.mp hsome
    have hnew : ∀ x ∈ s.list, x.1 ≠ k := by
      intro x hx heq
      exact hsome (find_isSome_iff.mpr ⟨x, hx, heq⟩)
    refine ⟨⟨?_, fun i => ?_⟩, ?_⟩
    · rw [List.map_append, List.nodup_append]
      refine ⟨h.nodup, List.nodup_singleton _, fun a ha b hb => ?_⟩
      obtain ⟨x, hx, rfl⟩ := List.mem_map.mp ha
      rw [List.map_singleton, List.mem_singleton] at hb
      rw [hb]
      exact hnew x hx
    · rw [BitVec.getLsbD_or, BitVec.getLsbD_twoPow, Bool.or_eq_true, h.bits]
      simp only [List.mem_append, List.mem_singleton, Bool.and_eq_true, decide_eq_true_eq]
      constructor
      · rintro (⟨x, hx, hi⟩ | ⟨hi, hbit⟩)
        · exact ⟨x, .inl hx, hi⟩
        · exact ⟨_, .inr rfl, hbit⟩
      · rintro ⟨x, hx | rfl, hi⟩
        · exact .inl ⟨x, hx, hi⟩
        · exact .inr ⟨hi ▸ hlt, hi⟩
    · funext k'
      rw [find, List.find?_append]
      by_cases hk : k' = k
      · subst hk
        have hfind : s.list.find? (fun x => x.1 = k') = none := by
          simpa [find] using hnone
        rw [Function.update_self, hnone, hfind]
        simp
      · rw [Function.update_of_ne hk]
        have hskip : [(k, f fresh)].find? (fun x => x.1 = k') = none := by simp [Ne.symm hk]
        rw [hskip, Option.or_none]
        rfl

/-- The same keys with other values. -/
theorem Sound.map (h : s.Sound bit) (f : ν → ν) :
    (⟨s.list.map fun x => (x.1, f x.2), s.bits⟩ : Slots κ ν w).Sound bit ∧
    (⟨s.list.map fun x => (x.1, f x.2), s.bits⟩ : Slots κ ν w).find = fun k => (s.find k).map f := by
  refine ⟨⟨?_, fun i => ?_⟩, funext fun k => ?_⟩
  · rw [List.map_map]
    exact h.nodup
  · rw [h.bits]
    simp
  · rw [find, find, List.find?_map, Option.map_map, Option.map_map]
    rfl

end Alter

/-! ## Removing -/

section Remove
variable {bit} {s} {k : κ}

theorem replace_perm (y : κ × ν) (l : List (κ × ν)) (h : (l.map Prod.fst).Nodup)
    (hmem : ∃ x ∈ l, x.1 = k) : (replace k y l).Perm (y :: l.filter fun x => x.1 ≠ k) := by
  induction l with
  | nil => simp at hmem
  | cons x l ih =>
    rw [List.map_cons, List.nodup_cons] at h
    rw [replace]
    by_cases hx : x.1 = k
    · have hrest : l.filter (fun x => x.1 ≠ k) = l := by
        rw [List.filter_eq_self]
        intro z hz
        refine decide_eq_true fun hkey => h.1 ?_
        rw [hx, ← hkey]
        exact List.mem_map_of_mem hz
      rw [if_pos hx, List.filter_cons_of_neg (by simpa using hx), hrest]
    · have hmem' : ∃ z ∈ l, z.1 = k := by
        obtain ⟨z, hz, hkey⟩ := hmem
        refine ⟨z, (List.mem_cons.mp hz).resolve_left ?_, hkey⟩
        intro heq
        exact hx (heq ▸ hkey)
      rw [if_neg hx, List.filter_cons_of_pos (by simpa using hx)]
      exact ((ih h.2 hmem').cons x).trans (List.Perm.swap _ _ _)

theorem swapRemove_perm (l : List (κ × ν)) (h : (l.map Prod.fst).Nodup) :
    (swapRemove k l).Perm (l.filter fun x => x.1 ≠ k) := by
  have hrev : ((l.reverse).map Prod.fst).Nodup := by
    rw [List.map_reverse, List.nodup_reverse]
    exact h
  have hfilter := (List.reverse_perm l).filter fun x => x.1 ≠ k
  unfold swapRemove
  cases hl : l.reverse with
  | nil =>
    rw [List.reverse_eq_nil_iff] at hl
    rw [hl]
    exact .refl _
  | cons last rest =>
    rw [hl] at hrev hfilter
    rw [List.map_cons, List.nodup_cons] at hrev
    refine List.Perm.trans ?_ hfilter
    have hwhole : (∀ x ∈ rest, x.1 ≠ k) → rest.filter (fun x => x.1 ≠ k) = rest := by
      intro hne
      rw [List.filter_eq_self]
      exact fun x hx => decide_eq_true (hne x hx)
    by_cases hlast : last.1 = k
    · have hrest : ∀ x ∈ rest, x.1 ≠ k := by
        intro x hx heq
        refine hrev.1 ?_
        rw [hlast, ← heq]
        exact List.mem_map_of_mem hx
      rw [List.filter_cons_of_neg (by simpa using hlast), hwhole hrest]
      simp [hlast]
    · rw [List.filter_cons_of_pos (by simpa using hlast)]
      by_cases hany : ∃ x ∈ rest, x.1 = k
      · have hsome : (rest.any fun x => x.1 = k) = true := by simpa using hany
        simp only [if_neg hlast, if_pos hsome]
        exact (List.reverse_perm _).trans (replace_perm last rest hrev.2 hany)
      · have hnone : ¬(rest.any fun x => x.1 = k) = true := by simpa using hany
        have hrest : ∀ x ∈ rest, x.1 ≠ k := fun x hx heq => hany ⟨x, hx, heq⟩
        simp only [if_neg hlast, if_neg hnone]
        rw [hwhole hrest, ← hl]
        exact (List.reverse_perm l).symm

theorem Sound.remove (h : s.Sound bit) (hinj : Function.Injective bit) (hlt : ∀ k, bit k < w) :
    (s.remove bit k).Sound bit ∧ (s.remove bit k).find = Function.update s.find k none := by
  have hhas := h.has_iff hinj (hlt k)
  unfold Slots.remove
  by_cases hsome : (s.find k).isSome = true
  · rw [if_pos (hhas.mpr hsome)]
    have hperm := swapRemove_perm (k := k) s.list h.nodup
    have hmem : ∀ x, x ∈ swapRemove k s.list ↔ x ∈ s.list ∧ x.1 ≠ k := by
      intro x
      rw [hperm.mem_iff, List.mem_filter, decide_eq_true_iff]
    have hnodup : ((swapRemove k s.list).map Prod.fst).Nodup := by
      rw [(hperm.map Prod.fst).nodup_iff]
      exact h.nodup.sublist (List.filter_sublist.map _)
    refine ⟨⟨hnodup, fun i => ?_⟩, ?_⟩
    · rw [BitVec.getLsbD_and, BitVec.getLsbD_not, BitVec.getLsbD_twoPow, Bool.and_eq_true, h.bits]
      constructor
      · intro ⟨⟨x, hx, hi⟩, hclear⟩
        refine ⟨x, (hmem x).mpr ⟨hx, fun heq => ?_⟩, hi⟩
        have hik : bit k = i := heq ▸ hi
        simp [← hik, hlt k] at hclear
      · intro ⟨x, hx, hi⟩
        obtain ⟨hx, hne⟩ := (hmem x).mp hx
        have hik : bit k ≠ i := fun heq => hne (hinj (hi.trans heq.symm))
        have hiw : i < w := hi ▸ hlt x.1
        exact ⟨⟨x, hx, hi⟩, by simp [hik, hiw]⟩
    · funext k'
      refine Option.ext fun v => ?_
      rw [find_eq_some_iff hnodup, hmem]
      by_cases hk : k' = k
      · simp [hk]
      · rw [Function.update_of_ne hk, find_eq_some_iff h.nodup]
        exact and_iff_left hk
  · rw [if_neg fun hset => hsome (hhas.mp hset)]
    refine ⟨h, ?_⟩
    rw [← Option.not_isSome_iff_eq_none.mp hsome, Function.update_eq_self]

end Remove

/-! ## Comparing -/

section Compare

/-- Slots with the same key agree. -/
def agree (eq : κ → ν → ν → Bool) (l l' : List (κ × ν)) : Bool :=
  l.all fun x => l'.all fun y => !(x.1 = y.1) || eq x.1 x.2 y.2

variable {bit} {s} {t : Slots κ ν w} {eq : κ → ν → ν → Bool}

theorem agree_iff (h : s.Sound bit) (ht : t.Sound bit) :
    agree eq s.list t.list = true ↔ ∀ k v v', s.find k = some v → t.find k = some v' → eq k v v' = true := by
  simp only [agree, List.all_eq_true, Bool.or_eq_true, Bool.not_eq_true', decide_eq_false_iff_not]
  constructor
  · intro hall k v v' hv hv'
    exact (hall _ ((find_eq_some_iff h.nodup).mp hv) _ ((find_eq_some_iff ht.nodup).mp hv')).resolve_left
      fun hne => hne rfl
  · intro hfind x hx y hy
    by_cases hkey : x.1 = y.1
    · refine .inr (hfind x.1 x.2 y.2 ((find_eq_some_iff h.nodup).mpr hx) ?_)
      rw [hkey]
      exact (find_eq_some_iff ht.nodup).mpr hy
    · exact .inl hkey

/-- Equal bits and slots that agree: the same keys, with values that agree. -/
theorem same_iff (h : s.Sound bit) (ht : t.Sound bit) (hinj : Function.Injective bit) :
    s.bits = t.bits ∧ agree eq s.list t.list = true ↔
      ∀ k, Option.Rel (fun v v' => eq k v v' = true) (s.find k) (t.find k) := by
  rw [h.bits_eq_iff ht hinj, agree_iff h ht]
  constructor
  · intro ⟨hkeys, heq⟩ k
    have hk := hkeys k
    cases hv : s.find k with
    | none =>
      rw [hv] at hk
      rw [Option.isNone_iff_eq_none.mp (Option.isSome_eq_false_iff.mp hk.symm)]
      exact .none
    | some v =>
      rw [hv] at hk
      obtain ⟨v', hv'⟩ := Option.isSome_iff_exists.mp hk.symm
      rw [hv']
      exact .some (heq k v v' hv hv')
  · intro hrel
    refine ⟨fun k => ?_, fun k v v' hv hv' => ?_⟩
    · have hk := hrel k
      generalize s.find k = a, t.find k = b at hk
      cases hk with
      | none => rfl
      | some => rfl
    · have hk := hrel k
      rw [hv, hv'] at hk
      cases hk with
      | some heq => exact heq

end Compare

end Slots
end ForgottenServer.Lib
