import ForgottenServer.Lib.Bags

/-! # Things by their address

A thing in a list of things is named by the way that leads to it: its place in the list,
then its place in what that thing holds, and so on. What is held at an address can be changed. -/
namespace ForgottenServer.Lib.Bags

variable {α : Type*}

/-- A thing with what is in it. -/
abbrev Node (α : Type*) := α × Bag α

namespace Bag

/-- The number of things in the list itself. -/
def width : Bag α → ℕ
  | nil => 0
  | cons _ _ rest => rest.width + 1

def get? : Bag α → ℕ → Option (Node α)
  | nil, _ => none
  | cons x inside _, 0 => some (x, inside)
  | cons _ _ rest, j + 1 => rest.get? j

/-- The thing at one place of the list is changed. -/
def modify (g : Node α → Node α) : ℕ → Bag α → Bag α
  | _, nil => nil
  | 0, cons x inside rest => cons (g (x, inside)).1 (g (x, inside)).2 rest
  | j + 1, cons x inside rest => cons x inside (rest.modify g j)

end Bag

namespace Node

/-- A value added up over the thing and all that is in it. -/
def total (f : α → ℕ) (a : Node α) : ℕ := f a.1 + a.2.total f

/-- The thing at an address. -/
def locate : List ℕ → Node α → Option (Node α)
  | [], a => some a
  | j :: path, a => (a.2.get? j).bind (locate path)

/-- All things on the way to an address have a property. -/
def Along (P : α → Prop) : List ℕ → Node α → Prop
  | [], a => P a.1
  | j :: path, a => P a.1 ∧ ∃ z, a.2.get? j = some z ∧ Along P path z

/-- What the thing at an address holds is changed. -/
def modifyAt (h : Bag α → Bag α) : List ℕ → Node α → Node α
  | [], a => (a.1, h a.2)
  | j :: path, a => (a.1, a.2.modify (modifyAt h path) j)

end Node

variable {b c : Bag α} {a y z : Node α} {j : ℕ} {path : List ℕ} {f : α → ℕ} {g : Node α → Node α} {h : Bag α → Bag α}

theorem total_modify (hget : b.get? j = some a) : (b.modify g j).total f + a.total f = b.total f + (g a).total f := by
  induction b generalizing j with
  | nil => cases hget
  | cons x inside rest _ ih =>
    cases j with
    | zero =>
      obtain rfl := Option.some.inj hget
      simp only [Bag.modify, Bag.total, Node.total]
      omega
    | succ j =>
      have := ih hget
      simp only [Bag.modify, Bag.total]
      omega

theorem sum_map_modify {β : Type*} {l : List β} {x : β} (w : β → ℕ) (k : β → β) (hget : l[j]? = some x) :
    ((l.modify j k).map w).sum + w x = (l.map w).sum + w (k x) := by
  induction l generalizing j with
  | nil => cases hget
  | cons y rest ih =>
    cases j with
    | zero =>
      obtain rfl := Option.some.inj hget
      simp only [List.modify_zero_cons, List.map_cons, List.sum_cons]
      omega
    | succ j =>
      have := ih hget
      simp only [List.modify_succ_cons, List.map_cons, List.sum_cons]
      omega

@[simp] theorem modifyAt_fst : (a.modifyAt h path).1 = a.1 := by cases path <;> rfl

theorem total_modifyAt (hlocate : a.locate path = some y) :
    (a.modifyAt h path).total f + y.2.total f = a.total f + (h y.2).total f := by
  induction path generalizing a with
  | nil =>
    obtain rfl := Option.some.inj hlocate
    simp only [Node.modifyAt, Node.total]
    omega
  | cons j path ih =>
    obtain ⟨z, hz, hlocate⟩ := Option.bind_eq_some_iff.mp hlocate
    have hinner := ih hlocate
    have houter := total_modify (f := f) (g := Node.modifyAt h path) hz
    have hbefore : a.total f = f a.1 + a.2.total f := rfl
    have hafter : (a.modifyAt h (j :: path)).total f = f a.1 + (a.2.modify (Node.modifyAt h path) j).total f := rfl
    omega

theorem locate_append (hlocate : a.locate path = some y) (j : ℕ) : a.locate (path ++ [j]) = y.2.get? j := by
  induction path generalizing a with
  | nil =>
    obtain rfl := Option.some.inj hlocate
    simp [Node.locate]
  | cons i path ih =>
    obtain ⟨z, hz, hlocate⟩ := Option.bind_eq_some_iff.mp hlocate
    simp only [List.cons_append, Node.locate, hz, Option.bind_some]
    exact ih hlocate

theorem along_append {P : α → Prop} (halong : a.Along P path) (hlocate : a.locate path = some y)
    (hget : y.2.get? j = some z) (hz : P z.1) : a.Along P (path ++ [j]) := by
  induction path generalizing a with
  | nil =>
    obtain rfl := Option.some.inj hlocate
    exact ⟨halong, z, hget, hz⟩
  | cons i path ih =>
    obtain ⟨hhead, w, hw, htail⟩ := halong
    have hnext : w.locate path = some y := by simpa [Node.locate, hw] using hlocate
    exact ⟨hhead, w, hw, ih htail hnext⟩

end ForgottenServer.Lib.Bags
