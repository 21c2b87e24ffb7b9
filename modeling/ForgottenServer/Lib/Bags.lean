import Mathlib.Algebra.Order.BigOperators.Group.List
import Mathlib.Algebra.Order.Group.Nat
import Mathlib.Algebra.Ring.Nat
import Mathlib.Data.List.Nodup
import Mathlib.Data.List.Perm.Basic
import Mathlib.Tactic.Common

/-! # Lists of things with things in them

A list whose members hold lists of the same kind. Things can be counted, cut out with
all that is in them, or changed where they are, and they can be visited list by list,
in the order in which the lists are met. -/
namespace ForgottenServer.Lib.Bags

variable {α : Type*}

/-- A list of things, each with the list of what is in it. -/
inductive Bag (α : Type*)
  | nil
  | cons (x : α) (inside rest : Bag α)

namespace Bag

def isNil : Bag α → Bool
  | nil => true
  | cons _ _ _ => false

def size : Bag α → ℕ
  | nil => 0
  | cons _ inside rest => inside.size + rest.size + 1

/-- All things at any depth, each with what is in it. -/
def nodes : Bag α → List (α × Bag α)
  | nil => []
  | cons x inside rest => (x, inside) :: (inside.nodes ++ rest.nodes)

/-- A value added up over all things. -/
def total (f : α → ℕ) : Bag α → ℕ
  | nil => 0
  | cons x inside rest => f x + inside.total f + rest.total f

/-- Some things are taken away with all that is in them. -/
def cut (p : α → Bool) : Bag α → Bag α
  | nil => nil
  | cons x inside rest => if p x then rest.cut p else cons x (inside.cut p) (rest.cut p)

/-- Some things are changed where they are. -/
def update (p : α → Bool) (g : α → α) : Bag α → Bag α
  | nil => nil
  | cons x inside rest => cons (if p x then g x else x) (inside.update p g) (rest.update p g)

/-- A list behind another. -/
def append : Bag α → Bag α → Bag α
  | nil, l => l
  | cons x inside rest, l => cons x inside (rest.append l)

def map {β : Type*} (f : α → β) : Bag α → Bag β
  | nil => nil
  | cons x inside rest => cons (f x) (inside.map f) (rest.map f)

/-- A list waits for its visit, unless there is nothing in it. -/
def enqueue (inside : Bag α) (waiting : List (Bag α)) : List (Bag α) :=
  if inside.isNil then waiting else waiting ++ [inside]

/-- Visit the lists of a queue: what a thing holds is put behind the other lists. -/
def visit : ℕ → List (Bag α) → List (α × Bag α)
  | 0, _ => []
  | _ + 1, [] => []
  | n + 1, nil :: waiting => visit n waiting
  | n + 1, cons x inside rest :: waiting =>
    let waiting := enqueue inside waiting
    (x, inside) :: visit n (if rest.isNil then waiting else rest :: waiting)

def breadthFirst (l : Bag α) : List (α × Bag α) := visit l.size (enqueue l [])

/-! ## Joining -/

theorem append_nil (l : Bag α) : l.append nil = l := by
  induction l with
  | nil => rfl
  | cons x inside rest _ ih => rw [append, ih]

theorem append_assoc (l l' l'' : Bag α) : (l.append l').append l'' = l.append (l'.append l'') := by
  induction l with
  | nil => rfl
  | cons x inside rest _ ih => rw [append, append, append, ih]

theorem nodes_append (l l' : Bag α) : (l.append l').nodes = l.nodes ++ l'.nodes := by
  induction l with
  | nil => rfl
  | cons x inside rest _ ih => rw [append, nodes, nodes, ih, List.cons_append, List.append_assoc]

/-! ## Nodes -/

theorem mem_nodes_trans {l : Bag α} {a b : α × Bag α} (ha : a ∈ l.nodes) (hb : b ∈ a.2.nodes) : b ∈ l.nodes := by
  induction l with
  | nil => cases ha
  | cons x inside rest ihinside ihrest =>
    rw [nodes, List.mem_cons, List.mem_append] at ha ⊢
    rcases ha with rfl | ha | ha
    · exact .inr (.inl hb)
    · exact .inr (.inl (ihinside ha))
    · exact .inr (.inr (ihrest ha))

theorem total_eq_sum (f : α → ℕ) (l : Bag α) : l.total f = (l.nodes.map fun a => f a.1).sum := by
  induction l with
  | nil => rfl
  | cons x inside rest ihinside ihrest =>
    rw [total, nodes, List.map_cons, List.map_append, List.sum_cons, List.sum_append, ihinside, ihrest, Nat.add_assoc]

theorem total_eq_zero_iff {f : α → ℕ} {l : Bag α} : l.total f = 0 ↔ ∀ a ∈ l.nodes, f a.1 = 0 := by
  induction l with
  | nil => simp [total, nodes]
  | cons x inside rest ihinside ihrest =>
    rw [total, Nat.add_eq_zero_iff, Nat.add_eq_zero_iff, ihinside, ihrest, nodes,
      List.forall_mem_cons, List.forall_mem_append, and_assoc]

theorem total_congr {f g : α → ℕ} {l : Bag α} (h : ∀ a ∈ l.nodes, f a.1 = g a.1) : l.total f = l.total g := by
  rw [total_eq_sum, total_eq_sum, List.map_congr_left h]

theorem total_add (f g : α → ℕ) (l : Bag α) : l.total (fun x => f x + g x) = l.total f + l.total g := by
  induction l with
  | nil => rfl
  | cons x inside rest ihinside ihrest =>
    rw [total, total, total, ihinside, ihrest]
    omega

/-- Nothing is in itself. -/
theorem ne_of_mem_inside {κ : Type*} {key : α → κ} {l : Bag α} {a b : α × Bag α}
    (hnodup : (l.nodes.map fun a => key a.1).Nodup) (ha : a ∈ l.nodes) (hb : b ∈ a.2.nodes) : key b.1 ≠ key a.1 := by
  induction l with
  | nil => cases ha
  | cons x inside rest ihinside ihrest =>
    rw [nodes, List.map_cons, List.map_append, List.nodup_cons, List.nodup_append] at hnodup
    obtain ⟨hx, hinside, hrest, -⟩ := hnodup
    rw [nodes, List.mem_cons, List.mem_append] at ha
    rcases ha with rfl | ha | ha
    · intro heq
      apply hx
      rw [← heq]
      exact List.mem_append_left _ (List.mem_map_of_mem (f := fun a : α × Bag α => key a.1) hb)
    · exact ihinside hinside ha
    · exact ihrest hrest ha

/-- One thing alone has another value. -/
theorem total_replace {κ : Type*} [DecidableEq κ] {key : α → κ} {l : Bag α} {a : α × Bag α}
    (hnodup : (l.nodes.map fun a => key a.1).Nodup) (ha : a ∈ l.nodes) (f g : α → ℕ) :
    l.total (fun x => if key x = key a.1 then f x else g x) + g a.1 = l.total g + f a.1 := by
  obtain ⟨front, back, hnodes⟩ := List.append_of_mem ha
  rw [hnodes, List.map_append, List.map_cons, List.nodup_append] at hnodup
  obtain ⟨-, hback, hdisjoint⟩ := hnodup
  have hfront : (front.map fun b => if key b.1 = key a.1 then f b.1 else g b.1) = front.map fun b => g b.1 := by
    refine List.map_congr_left fun b hb => if_neg ?_
    exact hdisjoint _ (List.mem_map_of_mem hb) _ List.mem_cons_self
  have hrest : (back.map fun b => if key b.1 = key a.1 then f b.1 else g b.1) = back.map fun b => g b.1 := by
    refine List.map_congr_left fun b hb => if_neg fun heq => (List.nodup_cons.mp hback).1 ?_
    rw [← heq]
    exact List.mem_map_of_mem hb
  rw [total_eq_sum, total_eq_sum, hnodes, List.map_append, List.map_cons, List.sum_append,
    List.sum_cons, hfront, hrest, if_pos rfl, List.map_append, List.map_cons, List.sum_append,
    List.sum_cons]
  omega

/-! ## What is cut out -/

section Cut
variable {p : α → Bool} {f : α → ℕ}

theorem cut_cut (p q : α → Bool) (l : Bag α) : (l.cut p).cut q = l.cut fun x => p x || q x := by
  induction l with
  | nil => rfl
  | cons x inside rest ihinside ihrest =>
    cases hp : p x with
    | true => simp only [cut, hp, Bool.true_or, if_true, ihrest]
    | false =>
      cases hq : q x with
      | true => simp only [cut, hp, hq, Bool.or_true, if_true, Bool.false_eq_true, if_false, ihrest]
      | false =>
        simp only [cut, hp, hq, Bool.or_self, Bool.false_eq_true, if_false, ihinside, ihrest]

theorem cut_none (l : Bag α) : l.cut (fun _ => false) = l := by
  induction l with
  | nil => rfl
  | cons x inside rest ihinside ihrest =>
    simp only [cut, Bool.false_eq_true, if_false, ihinside, ihrest]

/-- What remains and what was chosen is no more than there was. -/
theorem total_cut_le (p : α → Bool) (f : α → ℕ) (l : Bag α) :
    (l.cut p).total f + l.total (fun x => if p x then f x else 0) ≤ l.total f := by
  induction l with
  | nil => exact Nat.le_refl 0
  | cons x inside rest ihinside ihrest =>
    have hchosen : inside.total (fun x => if p x then f x else 0) ≤ inside.total f :=
      (Nat.le_add_left _ _).trans ihinside
    cases hp : p x with
    | true =>
      simp only [cut, total, hp, if_true]
      omega
    | false =>
      simp only [cut, total, hp, Bool.false_eq_true, if_false]
      omega

theorem total_cut (l : Bag α) (h : ∀ a ∈ l.nodes, p a.1 = true → a.2.total f = 0) :
    (l.cut p).total f + l.total (fun x => if p x then f x else 0) = l.total f := by
  induction l with
  | nil => rfl
  | cons x inside rest ihinside ihrest =>
    rw [nodes, List.forall_mem_cons, List.forall_mem_append] at h
    have hinside := ihinside h.2.1
    have hrest := ihrest h.2.2
    cases hp : p x with
    | true =>
      have hnothing := h.1 hp
      dsimp only at hnothing
      simp only [cut, total, hp, if_true]
      omega
    | false =>
      simp only [cut, total, hp, Bool.false_eq_true, if_false]
      omega

theorem eq_zero_of_total_eq {l : Bag α} (h : l.total (fun x => if p x then f x else 0) = l.total f) {a : α × Bag α}
    (ha : a ∈ l.nodes) : p a.1 = true ∨ f a.1 = 0 := by
  have hsplit : l.total f = l.total (fun x => if p x then f x else 0) + l.total fun x => if p x then 0 else f x := by
    rw [← total_add]
    refine total_congr fun a _ => ?_
    split
    · rw [Nat.add_zero]
    · rw [Nat.zero_add]
  have hzero : l.total (fun x => if p x then 0 else f x) = 0 := by omega
  cases hp : p a.1 with
  | true => exact .inl rfl
  | false =>
    have hvalue := total_eq_zero_iff.mp hzero a ha
    rw [hp, if_neg Bool.false_ne_true] at hvalue
    exact .inr hvalue

/-- And only then, but for what was chosen itself. -/
theorem of_total_cut {l : Bag α} (h : (l.cut p).total f + l.total (fun x => if p x then f x else 0) = l.total f)
    {a b : α × Bag α} (ha : a ∈ l.nodes) (hp : p a.1 = true) (hb : b ∈ a.2.nodes) : p b.1 = true ∨ f b.1 = 0 := by
  induction l with
  | nil => cases ha
  | cons x inside rest ihinside ihrest =>
    have hinsideLe := total_cut_le p f inside
    have hrestLe := total_cut_le p f rest
    rw [nodes, List.mem_cons, List.mem_append] at ha
    cases hpx : p x with
    | true =>
      simp only [cut, total, hpx, if_true] at h
      have hinside : inside.total (fun x => if p x then f x else 0) = inside.total f := by omega
      rcases ha with rfl | ha | ha
      · exact eq_zero_of_total_eq hinside hb
      · exact eq_zero_of_total_eq hinside (mem_nodes_trans ha hb)
      · exact ihrest (by omega) ha
    | false =>
      simp only [cut, total, hpx, Bool.false_eq_true, if_false] at h
      rcases ha with rfl | ha | ha
      · rw [hpx] at hp
        cases hp
      · exact ihinside (by omega) ha
      · exact ihrest (by omega) ha

theorem total_update (p : α → Bool) (g : α → α) (f : α → ℕ) (l : Bag α) :
    (l.update p g).total f = l.total fun x => if p x then f (g x) else f x := by
  induction l with
  | nil => rfl
  | cons x inside rest ihinside ihrest =>
    cases hp : p x with
    | true => simp only [update, total, hp, if_true, ihinside, ihrest]
    | false => simp only [update, total, hp, Bool.false_eq_true, if_false, ihinside, ihrest]

theorem mem_nodes_cut {p : α → Bool} {l : Bag α} {b : α × Bag α} (hb : b ∈ (l.cut p).nodes) :
    ∃ a ∈ l.nodes, b.1 = a.1 ∧ b.2 = a.2.cut p := by
  induction l with
  | nil => cases hb
  | cons x inside rest ihinside ihrest =>
    have hrest : b ∈ (rest.cut p).nodes → ∃ a ∈ (cons x inside rest).nodes, b.1 = a.1 ∧ b.2 = a.2.cut p := by
      intro hb
      obtain ⟨a, ha, hab⟩ := ihrest hb
      exact ⟨a, List.mem_cons_of_mem _ (List.mem_append_right _ ha), hab⟩
    cases hp : p x with
    | true =>
      rw [cut, hp, if_pos rfl] at hb
      exact hrest hb
    | false =>
      rw [cut, hp, if_neg Bool.false_ne_true, nodes, List.mem_cons, List.mem_append] at hb
      rcases hb with rfl | hb | hb
      · exact ⟨(x, inside), List.mem_cons_self, rfl, rfl⟩
      · obtain ⟨a, ha, hab⟩ := ihinside hb
        exact ⟨a, List.mem_cons_of_mem _ (List.mem_append_left _ ha), hab⟩
      · exact hrest hb

theorem keys_cut {κ : Type*} (key : α → κ) (p : α → Bool) (l : Bag α) :
    ((l.cut p).nodes.map fun a => key a.1).Sublist (l.nodes.map fun a => key a.1) := by
  induction l with
  | nil => exact List.Sublist.refl _
  | cons x inside rest ihinside ihrest =>
    rw [nodes, List.map_cons, List.map_append]
    cases hp : p x with
    | true =>
      rw [cut, hp, if_pos rfl]
      exact (ihrest.trans (List.sublist_append_right _ _)).cons _
    | false =>
      rw [cut, hp, if_neg Bool.false_ne_true, nodes, List.map_cons, List.map_append]
      exact (ihinside.append ihrest).cons_cons _

theorem nodes_update (p : α → Bool) (g : α → α) (l : Bag α) :
    (l.update p g).nodes = l.nodes.map fun a => (if p a.1 then g a.1 else a.1, a.2.update p g) := by
  induction l with
  | nil => rfl
  | cons x inside rest ihinside ihrest =>
    rw [update, nodes, nodes, List.map_cons, List.map_append, ihinside, ihrest]

end Cut

/-! ## Visits -/

theorem nodes_enqueue (inside : Bag α) (waiting : List (Bag α)) :
    (enqueue inside waiting).flatMap nodes = waiting.flatMap nodes ++ inside.nodes := by
  cases inside with
  | nil => rw [enqueue, isNil, if_pos rfl, nodes, List.append_nil]
  | cons x inside rest =>
    rw [enqueue, isNil, if_neg Bool.false_ne_true, List.flatMap_append, List.flatMap_singleton]

/-- What is visited after the first thing of a queue. -/
theorem nodes_next (inside rest : Bag α) (waiting : List (Bag α)) :
    ((if rest.isNil then enqueue inside waiting else rest :: enqueue inside waiting).flatMap nodes).Perm
      (inside.nodes ++ rest.nodes ++ waiting.flatMap nodes) := by
  have hnext : (if rest.isNil then enqueue inside waiting else rest :: enqueue inside waiting).flatMap
      nodes = rest.nodes ++ (waiting.flatMap nodes ++ inside.nodes) := by
    cases rest with
    | nil => rw [isNil, if_pos rfl, nodes_enqueue, nodes, List.nil_append]
    | cons x inside' rest' =>
      rw [isNil, if_neg Bool.false_ne_true, List.flatMap_cons, nodes_enqueue]
  have hswap : (rest.nodes ++ (waiting.flatMap nodes ++ inside.nodes)).Perm
      (rest.nodes ++ inside.nodes ++ waiting.flatMap nodes) := by
    rw [List.append_assoc]
    exact List.Perm.append_left _ List.perm_append_comm
  rw [hnext]
  exact hswap.trans (List.Perm.append_right _ List.perm_append_comm)

theorem visit_subset (n : ℕ) (waiting : List (Bag α)) : visit n waiting ⊆ waiting.flatMap nodes := by
  induction n generalizing waiting with
  | zero => exact List.nil_subset _
  | succ n ih =>
    cases waiting with
    | nil => exact List.nil_subset _
    | cons l waiting =>
      cases l with
      | nil =>
        rw [visit, List.flatMap_cons, nodes, List.nil_append]
        exact ih waiting
      | cons x inside rest =>
        rw [visit, List.flatMap_cons, nodes, List.cons_append]
        exact List.cons_subset_cons _ (List.Subset.trans (ih _) (nodes_next inside rest waiting).subset)

theorem enqueue_ne_nil {inside : Bag α} {waiting : List (Bag α)}
    (h : ∀ l ∈ waiting, l.isNil = false) : ∀ l ∈ enqueue inside waiting, l.isNil = false := by
  intro l hl
  rw [enqueue] at hl
  split at hl
  · exact h l hl
  · rename_i hinside
    rcases List.mem_append.mp hl with hl | hl
    · exact h l hl
    · rw [List.mem_singleton.mp hl]
      simpa using hinside

theorem length_nodes (l : Bag α) : l.nodes.length = l.size := by
  induction l with
  | nil => rfl
  | cons x inside rest ihinside ihrest =>
    rw [nodes, size, List.length_cons, List.length_append, ihinside, ihrest]

/-- With one step for each thing, all things are visited, each once. -/
theorem visit_perm {n : ℕ} {waiting : List (Bag α)} (hwaiting : ∀ l ∈ waiting, l.isNil = false)
    (hn : (waiting.flatMap nodes).length ≤ n) : (visit n waiting).Perm (waiting.flatMap nodes) := by
  induction n generalizing waiting with
  | zero =>
    rw [List.length_eq_zero_iff.mp (Nat.le_zero.mp hn)]
    exact List.Perm.refl _
  | succ n ih =>
    cases waiting with
    | nil => exact List.Perm.refl _
    | cons l waiting =>
      cases l with
      | nil => cases hwaiting nil List.mem_cons_self
      | cons x inside rest =>
        have hnext := nodes_next inside rest waiting
        rw [List.flatMap_cons, nodes, List.cons_append, List.length_cons, ← hnext.length_eq] at hn
        rw [visit, List.flatMap_cons, nodes, List.cons_append]
        have hrest : ∀ l ∈ enqueue inside waiting, l.isNil = false :=
          enqueue_ne_nil fun l hl => hwaiting l (List.mem_cons_of_mem _ hl)
        refine List.Perm.cons _ ((ih ?_ (Nat.le_of_succ_le_succ hn)).trans hnext)
        split
        · exact hrest
        · rename_i hnil
          intro l hl
          rcases List.mem_cons.mp hl with rfl | hl
          · simpa using hnil
          · exact hrest l hl

/-- What was visited before is not in what is visited now. -/
theorem visit_pairwise {κ : Type*} (key : α → κ) (n : ℕ) {waiting : List (Bag α)}
    (hnodup : ((waiting.flatMap nodes).map fun a => key a.1).Nodup) :
    (visit n waiting).Pairwise fun a b => ∀ c ∈ b.2.nodes, key c.1 ≠ key a.1 := by
  induction n generalizing waiting with
  | zero => exact List.Pairwise.nil
  | succ n ih =>
    cases waiting with
    | nil => exact List.Pairwise.nil
    | cons l waiting =>
      cases l with
      | nil =>
        rw [List.flatMap_cons, nodes, List.nil_append] at hnodup
        exact ih hnodup
      | cons x inside rest =>
        have hnext := nodes_next inside rest waiting
        rw [List.flatMap_cons, nodes, List.cons_append, List.map_cons, List.nodup_cons] at hnodup
        obtain ⟨hx, hrest⟩ := hnodup
        rw [visit]
        refine List.Pairwise.cons ?_ (ih ((hnext.map _).nodup_iff.mpr hrest))
        intro b hb c hc heq
        obtain ⟨l, hl, hbl⟩ := List.mem_flatMap.mp (visit_subset _ _ hb)
        have hmem := hnext.subset (List.mem_flatMap.mpr ⟨l, hl, mem_nodes_trans hbl hc⟩)
        apply hx
        rw [← heq]
        exact List.mem_map_of_mem (f := fun a : α × Bag α => key a.1) hmem

theorem flatMap_enqueue_nil (l : Bag α) : (enqueue l []).flatMap nodes = l.nodes := by
  rw [nodes_enqueue, List.flatMap_nil, List.nil_append]

theorem breadthFirst_perm (l : Bag α) : l.breadthFirst.Perm l.nodes := by
  have hfull : ∀ waiting ∈ enqueue l [], waiting.isNil = false :=
    enqueue_ne_nil fun _ h => absurd h List.not_mem_nil
  have hvisit : (visit l.size (enqueue l [])).Perm ((enqueue l []).flatMap nodes) :=
    visit_perm hfull (by rw [flatMap_enqueue_nil, length_nodes])
  rwa [flatMap_enqueue_nil] at hvisit

theorem breadthFirst_pairwise {κ : Type*} (key : α → κ) {l : Bag α} (hnodup : (l.nodes.map fun a => key a.1).Nodup) :
    l.breadthFirst.Pairwise fun a b => ∀ c ∈ b.2.nodes, key c.1 ≠ key a.1 :=
  visit_pairwise key l.size (by rwa [flatMap_enqueue_nil])

end Bag
end ForgottenServer.Lib.Bags
