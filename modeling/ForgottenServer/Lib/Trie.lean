import Mathlib.Data.List.Nodup
import Mathlib.Data.Set.Insert
import Mathlib.Tactic.Common

/-! # Tries

A tree of words: a node has a mark for the word that ends there and a child for
each letter that goes on. `Holds` says that a trie has exactly the words of a set
and no branch without a word; it is preserved by putting a subtree under a letter
and by taking one away. -/
namespace ForgottenServer.Lib

inductive Trie (α : Type*)
  | node (mark : Bool) (children : List (α × Trie α))

namespace Trie
variable {α : Type*}

def mark : Trie α → Bool
  | node mark _ => mark

def children : Trie α → List (α × Trie α)
  | node _ children => children

def setMark (mark : Bool) : Trie α → Trie α
  | node _ children => node mark children

/-- A trie with no words. -/
def empty : Trie α := node false []

variable [DecidableEq α]

def child (t : Trie α) (a : α) : Option (Trie α) := (t.children.find? fun x => x.1 = a).map Prod.snd

def erase (a : α) : Trie α → Trie α
  | node mark children => node mark (children.filter fun x => x.1 ≠ a)

/-- The order of the children is of no account. -/
def put (t : Trie α) (a : α) (n : Trie α) : Trie α :=
  node t.mark ((a, n) :: t.children.filter fun x => x.1 ≠ a)

/-- The node at the end of a word. -/
def descend : List α → Trie α → Option (Trie α)
  | [], t => some t
  | a :: w, t => (t.child a).bind (descend w)

section Nodes
variable {t n : Trie α} {a b : α}

@[simp] theorem mark_put : (t.put a n).mark = t.mark := rfl

@[simp] theorem mark_erase : (t.erase a).mark = t.mark := by cases t; rfl

omit [DecidableEq α] in
@[simp] theorem mark_setMark (mark : Bool) : (t.setMark mark).mark = mark := by cases t; rfl

omit [DecidableEq α] in
@[simp] theorem children_setMark (mark : Bool) : (t.setMark mark).children = t.children := by cases t; rfl

@[simp] theorem child_setMark (mark : Bool) : (t.setMark mark).child a = t.child a := by cases t; rfl

theorem child_eq_none : t.child a = none ↔ ∀ x ∈ t.children, x.1 ≠ a := by
  simp [child]

theorem child_mem (h : t.child a = some n) : (a, n) ∈ t.children := by
  obtain ⟨x, hfound, rfl⟩ := Option.map_eq_some_iff.mp h
  have hx : x.1 = a := by simpa using List.find?_some hfound
  rw [← hx]
  exact List.mem_of_find?_eq_some hfound

theorem child_of_mem (hkeys : (t.children.map Prod.fst).Nodup) (h : (a, n) ∈ t.children) : t.child a = some n := by
  cases hc : t.child a with
  | none => exact absurd rfl (child_eq_none.mp hc _ h)
  | some m =>
    have := List.inj_on_of_nodup_map hkeys (child_mem hc) h rfl
    rw [(Prod.mk.inj this).2]

theorem child_erase : (t.erase a).child b = if b = a then none else t.child b := by
  cases t with
  | node mark children =>
    by_cases h : b = a
    · rw [if_pos h, child_eq_none]
      intro x hx
      have := (List.mem_filter.mp hx).2
      simpa [h] using this
    · rw [if_neg h]
      simp only [child, erase, Trie.children, List.find?_filter]
      congr 2
      funext x
      by_cases hx : x.1 = b <;> simp [hx, h]

theorem child_put : (t.put a n).child b = if b = a then some n else t.child b := by
  have herase := child_erase (t := t) (a := a) (b := b)
  cases t with
  | node mark children =>
    simp only [child, erase, put, Trie.mark, Trie.children, List.find?_cons] at herase ⊢
    by_cases h : b = a
    · simp [h]
    · rw [if_neg h] at herase ⊢
      rw [decide_eq_false (Ne.symm h)]
      exact herase

theorem nodup_erase (h : (t.children.map Prod.fst).Nodup) : ((t.erase a).children.map Prod.fst).Nodup := by
  cases t
  exact h.sublist (List.filter_sublist.map _)

theorem nodup_put (h : (t.children.map Prod.fst).Nodup) : ((t.put a n).children.map Prod.fst).Nodup := by
  have herase := nodup_erase (a := a) h
  cases t with
  | node mark children =>
    rw [put, Trie.mark, Trie.children, Trie.children, List.map_cons, List.nodup_cons]
    refine ⟨fun hmem => ?_, herase⟩
    obtain ⟨x, hx, heq⟩ := List.mem_map.mp hmem
    exact absurd heq (by simpa using (List.mem_filter.mp hx).2)

end Nodes

/-! ## The words of a trie -/

/-- The words that go on after a letter. -/
def tails (a : α) (S : Set (List α)) : Set (List α) := {w | a :: w ∈ S}

/-- The words of `S`, but with `T` after the letter `a`. -/
def graft (a : α) (T S : Set (List α)) : Set (List α) :=
  {w | match w with
    | [] => [] ∈ S
    | b :: v => if b = a then v ∈ T else b :: v ∈ S}

/-- The words of the trie are those of the set, and every child leads to one. -/
inductive Holds : Trie α → Set (List α) → Prop
  | intro {t : Trie α} {S : Set (List α)} (hmark : t.mark = true ↔ [] ∈ S)
    (hkeys : (t.children.map Prod.fst).Nodup) (hnone : ∀ a, t.child a = none → tails a S = ∅)
    (hsome : ∀ a n, t.child a = some n → (tails a S).Nonempty)
    (hchild : ∀ a n, t.child a = some n → Holds n (tails a S)) : Holds t S

section Holds
variable {t n : Trie α} {S T : Set (List α)} {a : α}

theorem tails_graft (a b : α) (T S : Set (List α)) : tails b (graft a T S) = if b = a then T else tails b S := by
  by_cases h : b = a <;> simp [tails, graft, h]

theorem nil_mem_graft : [] ∈ graft a T S ↔ [] ∈ S := Iff.rfl

theorem holds_empty : Holds (empty : Trie α) ∅ :=
  .intro (by simp [empty, mark]) List.nodup_nil (fun _ _ => rfl)
    (fun _ _ h => by cases h) fun _ _ h => by cases h

theorem Holds.put (h : Holds t S) (hn : Holds n T) (hT : T.Nonempty) : Holds (t.put a n) (graft a T S) := by
  cases h with
  | intro hmark hkeys hnone hsome hchild =>
    refine .intro (by rw [mark_put, nil_mem_graft, hmark]) (nodup_put hkeys) ?_ ?_ ?_
    all_goals
      intro b
      rw [child_put, tails_graft]
      split
    · intro hb
      cases hb
    · exact hnone b
    · intro _ _
      exact hT
    · exact hsome b
    · intro m hm
      cases hm
      exact hn
    · exact hchild b

theorem Holds.erase (h : Holds t S) : Holds (t.erase a) (graft a ∅ S) := by
  cases h with
  | intro hmark hkeys hnone hsome hchild =>
    refine .intro (by rw [mark_erase, nil_mem_graft, hmark]) (nodup_erase hkeys) ?_ ?_ ?_
    all_goals
      intro b
      rw [child_erase, tails_graft]
      split
    · exact fun _ => rfl
    · exact hnone b
    · intro _ hb
      cases hb
    · exact hsome b
    · intro _ hb
      cases hb
    · exact hchild b

theorem Holds.setMark (h : Holds t S) (hT : ∀ a, tails a T = tails a S) {mark : Bool}
    (hmark : mark = true ↔ [] ∈ T) : Holds (t.setMark mark) T := by
  cases h with
  | intro _ hkeys hnone hsome hchild =>
    refine .intro (by rwa [mark_setMark]) (by rwa [children_setMark]) ?_ ?_ ?_
    all_goals
      intro b
      rw [child_setMark, hT]
    · exact hnone b
    · exact hsome b
    · exact hchild b

/-- Only an unmarked leaf has no words. -/
theorem Holds.eq_empty_iff (h : Holds t S) : S = ∅ ↔ t.children = [] ∧ t.mark = false := by
  cases h with
  | intro hmark hkeys hnone hsome hchild =>
    constructor
    · intro hS
      subst hS
      constructor
      · refine List.eq_nil_iff_forall_not_mem.mpr fun x hx => ?_
        obtain ⟨w, hw⟩ := hsome x.1 x.2 (child_of_mem hkeys hx)
        exact hw
      · exact Bool.eq_false_iff.mpr fun hm => hmark.mp hm
    · intro ⟨hleaf, hunmarked⟩
      refine Set.eq_empty_iff_forall_notMem.mpr fun w hw => ?_
      cases w with
      | nil => simp [hunmarked] at hmark; exact hmark hw
      | cons b v =>
        have hb : t.child b = none := child_eq_none.mpr (by simp [hleaf])
        have hv : v ∈ tails b S := hw
        rw [hnone b hb] at hv
        exact hv

/-- Where a word leads nowhere no word begins with it; where it leads are the words that do. -/
theorem Holds.descend (h : Holds t S) (w : List α) : (t.descend w = none → ∀ v ∈ S, ¬ w <+: v) ∧
    ∀ n, t.descend w = some n → Holds n {v | w ++ v ∈ S} ∧ (w ≠ [] → ∃ v, w ++ v ∈ S) := by
  induction w generalizing t S with
  | nil =>
    refine ⟨fun hnone => absurd hnone (Option.some_ne_none t), fun n hn => ?_⟩
    cases hn
    exact ⟨h, fun hne => absurd rfl hne⟩
  | cons a w ih =>
    cases h with
    | intro hmark hkeys hnone hsome hchild =>
      cases hc : t.child a with
      | none =>
        refine ⟨fun _ v hv ⟨u, hu⟩ => ?_, fun n hn => by simp [Trie.descend, hc] at hn⟩
        subst hu
        have htail : w ++ u ∈ tails a S := hv
        rw [hnone a hc] at htail
        exact htail
      | some m =>
        obtain ⟨hgone, hthere⟩ := ih (hchild a m hc)
        have hstep : t.descend (a :: w) = m.descend w := by
          rw [Trie.descend, hc]
          rfl
        rw [hstep]
        constructor
        · intro hnot v hv ⟨u, hu⟩
          subst hu
          exact hgone hnot (w ++ u) hv ⟨u, rfl⟩
        · intro n hn
          obtain ⟨hholds, hne⟩ := hthere n hn
          refine ⟨hholds, fun _ => ?_⟩
          cases w with
          | nil =>
            obtain ⟨v, hv⟩ := hsome a m hc
            exact ⟨v, hv⟩
          | cons b w => exact hne (List.cons_ne_nil b w)

/-- There are no dead branches: every node lies on the way to a word. -/
theorem Holds.live (h : Holds t S) {w : List α} (hw : w ≠ []) (hn : t.descend w = some n) : ∃ v ∈ S, w <+: v := by
  obtain ⟨v, hv⟩ := ((h.descend w).2 n hn).2 hw
  exact ⟨w ++ v, hv, v, rfl⟩

end Holds
end Trie
end ForgottenServer.Lib
