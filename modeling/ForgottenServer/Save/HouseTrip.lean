import ForgottenServer.Save.House
import ForgottenServer.Save.RoundTrip

/-! # Items of houses that are saved and loaded

What `saveItem` writes of an item, with everything in it, is what `loadItem` takes
from the stream, at any depth. The new item is the old one as far as its class
writes it. -/
namespace ForgottenServer.Save
open ForgottenServer.Lib.Wire
open Item (Reads ReadsAs Reader reads_nil reads_tagged serializeAttr_reads)

namespace Item
variable {sv : Server}

theorem readAttrOf_readsAs (c : ItemClass) : ReadsAs sv (readAttrOf sv c) := by
  intro x attr s hattr
  simp only [foreign, List.mem_cons, List.not_mem_nil, or_false, not_or] at hattr
  unfold readAttrOf
  split <;> first | rfl | omega

/-- What loading does to an item of the class of `x`. -/
def copyClass (sv : Server) (x y : Item) : Item :=
  match x.classOf sv with
  | .door => y
  | .bed =>
    let y := if x.sleeperGUID ≠ 0 then y.setSleeper sv x.sleeperGUID else y
    if x.sleepStart ≠ 0 then { y with sleepStart := x.sleepStart } else y
  | .teleport => { x.copyAttr sv y with destPos := x.destPos }
  | _ => x.copyAttr sv y

/-- The own data of a class is in range, too. -/
structure InClassRange (x : Item) : Prop extends InRange x where
  sleeper : x.sleeperGUID < 256 ^ 4
  sleepStart : x.sleepStart < 256 ^ 4
  destPos : x.destPos.1 < 256 ^ 2 ∧ x.destPos.2.1 < 256 ^ 2 ∧ x.destPos.2.2 < 256 ^ 1

theorem readNumber_encode (x : Item) {k n : ℕ} (hn : n < 256 ^ k) (r : Bytes) (f : ℕ → Item) :
    x.readNumber k (encode k n ++ r) f = (.readContinue, f n, r) := by
  rw [readNumber, read_encode, Nat.mod_eq_of_lt hn]

theorem writeAttr_reads {x : Item} (hx : x.InClassRange) :
    Reads (readAttrOf sv (x.classOf sv)) (x.writeAttr sv) (x.copyClass sv) := by
  have hclass : ReadsAs sv (readAttrOf sv (x.classOf sv)) := readAttrOf_readsAs _
  have hitem := serializeAttr_reads hclass hx.toInRange
  unfold writeAttr copyClass
  cases hc : x.classOf sv with
  | door => exact reads_nil
  | bed =>
    have hsleeper : Reads (readAttrOf sv .bed) (tagged 20 (encode 4 x.sleeperGUID))
        fun y => y.setSleeper sv x.sleeperGUID :=
      reads_tagged (by decide) fun y r => readNumber_encode y hx.sleeper r
        fun n => y.setSleeper sv n
    have hstart : Reads (readAttrOf sv .bed) (tagged 21 (encode 4 x.sleepStart))
        fun y => { y with sleepStart := x.sleepStart } :=
      reads_tagged (by decide) fun y r =>
        readNumber_encode y hx.sleepStart r fun n => { y with sleepStart := n }
    exact hsleeper.ite.append hstart.ite
  | teleport =>
    rw [hc] at hitem
    have hdest : Reads (readAttrOf sv .teleport) (tagged 8 x.writeDestPos)
        fun y => { y with destPos := x.destPos } := by
      refine reads_tagged (by decide) fun y r => ?_
      obtain ⟨h₁, h₂, h₃⟩ := hx.destPos
      show y.readDestPos (x.writeDestPos ++ r) = _
      simp only [readDestPos, writeDestPos, List.append_assoc, read_encode]
      rw [Nat.mod_eq_of_lt h₁, Nat.mod_eq_of_lt h₂, Nat.mod_eq_of_lt h₃]
    exact hitem.append hdest
  | _ => rw [hc] at hitem; exact hitem

theorem setSleeper_id (y : Item) (guid : ℕ) : (y.setSleeper sv guid).id = y.id := by
  unfold setSleeper setStrAttr
  dsimp only
  split_ifs <;> rfl

theorem copyClass_id (x y : Item) : (x.copyClass sv y).id = y.id := by
  unfold copyClass
  split
  · rfl
  · dsimp only
    split_ifs <;> first | rfl | exact setSleeper_id _ _
  · exact copyAttr_id y
  · exact copyAttr_id y

theorem classOf_of_id {x y : Item} (h : y.id = x.id) : y.classOf sv = x.classOf sv := by
  rw [classOf, type, h, classOf, type]

variable {x y : Item}

theorem unserialize_writeAttr (hx : x.InClassRange) (hclass : y.classOf sv = x.classOf sv) (r : Bytes) :
    y.unserialize sv (x.writeAttr sv ++ 0 :: r) = (true, x.copyClass sv y, r) := by
  rw [unserialize, hclass]
  exact (writeAttr_reads hx).unserialize y r (by rw [List.length_append, List.length_cons]; omega)

theorem unserialize_header (hx : x.InClassRange) (hclass : y.classOf sv = x.classOf sv)
    (hc : x.classOf sv = .container) {n : ℕ} (hn : n < 256 ^ 4) (r : Bytes) :
    y.unserialize sv (x.writeAttr sv ++ (tagged 23 (encode 4 n) ++ r)) =
      (true, { x.copyClass sv y with serializationCount := n }, r) := by
  have hreads : Reads (readAttrOf sv (x.classOf sv)) (x.writeAttr sv) (x.copyClass sv) :=
    writeAttr_reads hx
  have hend : ∀ z s, readAttrOf sv .container z 23 (encode 4 n ++ s) =
      (.readEnd, { z with serializationCount := n }, s) := by
    intro z s
    simp only [readAttrOf, read_encode, Nat.mod_eq_of_lt hn]
  rw [hc] at hreads
  rw [unserialize, hclass, hc]
  exact hreads.unserialize_end (by decide) hend y r (by rw [List.length_append]; omega)

end Item

/-! ## Items with what is in them -/

/-- The items that a stream of `saveItem` can bring back: their types are known and create
them as they are, and no depot locker is among them, which does not read its items. -/
inductive Loadable (sv : Server) : Tree → Prop
  | node {x : Item} {l : List Tree} (range : x.InClassRange) (id : x.id < 256 ^ 2)
    (create : ∃ n, Item.create sv x.id = some (Item.new sv x.id n))
    (regular : x.classOf sv ≠ .door → x.classOf sv ≠ .bed → Item.Regular sv x)
    (locker : x.classOf sv ≠ .depotLocker) (leaf : (x.classOf sv).isContainer = false → l = [])
    (size : l.length < 256 ^ 4)
    (children : ∀ t ∈ l, Loadable sv t) : Loadable sv (.node x l)

mutual

/-- What a new item makes of a saved one. -/
def reload (sv : Server) : Tree → Tree
  | .node x l =>
    let y := x.copyClass sv ((Item.create sv x.id).getD x)
    .node (if (x.classOf sv).isContainer then { y with serializationCount := 0 } else y) (reloadAll sv l)

def reloadAll (sv : Server) : List Tree → List Tree
  | [] => []
  | t :: l => reload sv t :: reloadAll sv l

end

section Load
variable {sv : Server}

theorem saveItem_length_le {t : Tree} {l : List Tree} (h : t ∈ l) :
    (saveItem sv t).length ≤ (saveReversed sv l).length := by
  induction l with
  | nil => cases h
  | cons u l ih =>
    rw [saveReversed, List.length_append]
    rcases List.mem_cons.mp h with rfl | h
    · omega
    · have := ih h
      omega

theorem loadContainer_items {loadChild : Bytes → Bool × Option Tree × Bytes} {l : List Tree}
    (hchild : ∀ t ∈ l, ∀ r, loadChild (saveItem sv t ++ r) = (true, some (reload sv t), r)) (n : ℕ)
    (acc : List Tree) (r : Bytes) :
    loadContainer loadChild (l.length + n) acc (saveReversed sv l ++ r) =
      loadContainer loadChild n (reloadAll sv l ++ acc) r := by
  induction l generalizing n r with
  | nil => simp [saveReversed, reloadAll]
  | cons t l ih =>
    have hlength : (t :: l).length + n = l.length + (n + 1) := by rw [List.length_cons]; omega
    rw [hlength, saveReversed, List.append_assoc,
      ih fun u hu => hchild u (List.mem_cons_of_mem t hu), loadContainer, hchild t (by simp)]
    rfl

theorem loadContainer_saved {loadChild : Bytes → Bool × Option Tree × Bytes} {l : List Tree}
    (hchild : ∀ t ∈ l, ∀ r, loadChild (saveItem sv t ++ r) = (true, some (reload sv t), r))
    (acc : List Tree) (r : Bytes) :
    loadContainer loadChild l.length acc (saveReversed sv l ++ (encode 1 0 ++ r)) =
      (true, reloadAll sv l ++ acc, r) := by
  rw [← Nat.add_zero l.length, loadContainer_items hchild, loadContainer, read_encode]
  rfl

/-- What `saveItem` writes behind the id. -/
def saveBody (sv : Server) : Tree → Bytes
  | .node x l => x.writeAttr sv ++ (containerHeader sv x l.length ++ (saveReversed sv l ++ encode 1 0))

theorem saveBody_node (x : Item) (l : List Tree) : saveBody sv (.node x l) =
    x.writeAttr sv ++ (containerHeader sv x l.length ++ (saveReversed sv l ++ encode 1 0)) := rfl

theorem saveItem_eq (t : Tree) : saveItem sv t = encode 2 t.item.id ++ saveBody sv t := by
  cases t
  rfl

section Body
variable {x y : Item} {l : List Tree} (ht : Loadable sv (.node x l)) (hclass : y.classOf sv = x.classOf sv)
include ht hclass

theorem unserialize_leaf (hc : (x.classOf sv).isContainer = false) (r : Bytes) :
    y.unserialize sv (saveBody sv (.node x l) ++ r) = (true, x.copyClass sv y, r) := by
  cases ht with
  | node hrange _ _ _ _ hleaf =>
    obtain rfl := hleaf hc
    have hbody : saveBody sv (.node x []) ++ r = x.writeAttr sv ++ 0 :: r := by
      simp only [saveBody, containerHeader, hc, saveReversed, List.append_assoc]
      rfl
    rw [hbody]
    exact Item.unserialize_writeAttr hrange hclass r

theorem unserialize_container (hc : (x.classOf sv).isContainer = true) (r : Bytes) :
    y.unserialize sv (saveBody sv (.node x l) ++ r) = (true, { x.copyClass sv y with serializationCount := l.length },
        saveReversed sv l ++ (encode 1 0 ++ r)) := by
  cases ht with
  | node hrange _ _ _ hlocker _ hsize =>
    have hcontainer : x.classOf sv = .container := by
      cases h : x.classOf sv <;> simp_all [ItemClass.isContainer]
    simp only [saveBody, containerHeader, hc, if_true, List.append_assoc]
    exact Item.unserialize_header hrange hclass hcontainer hsize _

end Body

theorem Loadable.read_id {t : Tree} (ht : Loadable sv t) (r : Bytes) :
    read 2 (saveItem sv t ++ r) = some (t.item.id, saveBody sv t ++ r) := by
  have hid : t.item.id < 256 ^ 2 := by
    cases ht with
    | node _ hid => exact hid
  rw [saveItem_eq, List.append_assoc, read_encode, Nat.mod_eq_of_lt hid]

theorem Loadable.known {t : Tree} (ht : Loadable sv t) : (sv.items t.item.id).id ≠ 0 := by
  cases ht with
  | node _ _ hcreate =>
    obtain ⟨n, hcreate⟩ := hcreate
    intro hzero
    rw [Item.create, if_pos (.inr hzero)] at hcreate
    cases hcreate

theorem Loadable.child {x : Item} {l : List Tree} (ht : Loadable sv (.node x l)) : ∀ t ∈ l, Loadable sv t := by
  cases ht with
  | node _ _ _ _ _ _ _ hchildren => exact hchildren

theorem saveBody_child_lt {x : Item} {t : Tree} {l : List Tree} (h : t ∈ l) :
    (saveBody sv t).length < (saveBody sv (.node x l)).length := by
  have hle : (saveItem sv t).length ≤ (saveReversed sv l).length := saveItem_length_le h
  rw [saveItem_eq, List.length_append] at hle
  simp only [saveBody_node, List.length_append, length_encode]
  omega

theorem saveBody_pos (t : Tree) : 0 < (saveBody sv t).length := by
  cases t
  simp only [saveBody, List.length_append, length_encode]
  omega

theorem copyClass_classOf {x y : Item} (hclass : y.classOf sv = x.classOf sv) :
    (x.copyClass sv y).classOf sv = x.classOf sv :=
  (Item.classOf_of_id (Item.copyClass_id x y)).trans hclass

theorem loadNew_saved {t : Tree} (ht : Loadable sv t) {fuel : ℕ} (hfuel : (saveBody sv t).length ≤ fuel) (r : Bytes) :
    loadNew sv fuel t.item.id (saveBody sv t ++ r) = (true, some (reload sv t), r) := by
  induction fuel generalizing t r with
  | zero => exact absurd hfuel (not_le.mpr (saveBody_pos t))
  | succ fuel ih =>
    obtain ⟨x, l⟩ := t
    obtain ⟨n, hcreate⟩ : ∃ n, Item.create sv x.id = some (Item.new sv x.id n) := by
      cases ht with
      | node _ _ hcreate => exact hcreate
    have hnew : (Item.new sv x.id n).classOf sv = x.classOf sv :=
      Item.classOf_of_id (Item.new_sameTexts sv x.id n).id
    have hclass := copyClass_classOf hnew
    have hload : ∀ t ∈ l, ∀ r, loadWith (loadNew sv fuel) (saveItem sv t ++ r) = (true, some (reload sv t), r) := by
      intro t hmem r
      have hlt : (saveBody sv t).length < (saveBody sv (.node x l)).length := saveBody_child_lt hmem
      rw [loadWith, (ht.child t hmem).read_id]
      exact ih (ht.child t hmem) (by omega) r
    rw [Tree.item, loadNew, hcreate]
    simp only [reload, hcreate, Option.getD_some]
    cases hc : (x.classOf sv).isContainer with
    | false =>
      rw [unserialize_leaf ht hnew hc]
      cases ht with
      | node _ _ _ _ _ hleaf =>
        obtain rfl := hleaf hc
        simp only [hclass, hc, reloadAll]
        rfl
    | true =>
      rw [unserialize_container ht hnew hc]
      have hclass' : Item.classOf sv { x.copyClass sv (Item.new sv x.id n) with
          serializationCount := l.length } = x.classOf sv := hclass
      simp only [hclass', hc, if_true, loadContainer_saved hload, List.append_nil]

theorem loadWith_saved {t : Tree} (ht : Loadable sv t) {fuel : ℕ} (hfuel : (saveBody sv t).length ≤ fuel) (r : Bytes) :
    loadWith (loadNew sv fuel) (saveItem sv t ++ r) = (true, some (reload sv t), r) := by
  rw [loadWith, ht.read_id]
  exact loadNew_saved ht hfuel r

theorem loadRest_saved {x : Item} {l : List Tree} (ht : Loadable sv (.node x l)) (acc : List Tree) (r : Bytes) :
    loadContainer (loadWith (loadNew sv ((saveReversed sv l ++ (encode 1 0 ++ r)).length + 1))) l.length acc
      (saveReversed sv l ++ (encode 1 0 ++ r)) = (true, reloadAll sv l ++ acc, r) := by
  refine loadContainer_saved (fun t hmem s => loadWith_saved (ht.child t hmem) ?_ s) acc r
  have hle : (saveItem sv t).length ≤ (saveReversed sv l).length := saveItem_length_le hmem
  rw [saveItem_eq, List.length_append] at hle
  rw [List.length_append]
  omega

/-- What is saved of an item is put on what the map has. -/
def mergeInto (sv : Server) (t e : Tree) : Tree :=
  let y := t.item.copyClass sv e.item
  .node (if (t.item.classOf sv).isContainer then { y with serializationCount := 0 } else y)
    (reloadAll sv t.children ++ e.children)

theorem loadInto_saved {t e : Tree} (ht : Loadable sv t) (hclass : e.item.classOf sv = t.item.classOf sv)
    (r : Bytes) : loadInto sv e (saveBody sv t ++ r) = (true, true, mergeInto sv t e, r) := by
  obtain ⟨x, l⟩ := t
  obtain ⟨y, m⟩ := e
  simp only [Tree.item] at hclass
  have hclass' := copyClass_classOf hclass
  unfold loadInto mergeInto
  simp only [Tree.item, Tree.children]
  by_cases hc : (x.classOf sv).isContainer = true
  · rw [unserialize_container ht hclass hc]
    have hclass'' : Item.classOf sv { x.copyClass sv y with serializationCount := l.length } =
        x.classOf sv := hclass'
    simp only [hclass'', hc, if_true, loadRest_saved ht]
  · rw [Bool.not_eq_true] at hc
    rw [unserialize_leaf ht hclass hc]
    cases ht with
    | node _ _ _ _ _ hleaf =>
      obtain rfl := hleaf hc
      simp only [hclass', hc, reloadAll]
      rfl

theorem skipItem_saved {t : Tree} (ht : Loadable sv t) {dummy : Item} (hclass : dummy.classOf sv = t.item.classOf sv)
    (r : Bytes) : skipItem sv dummy (saveBody sv t ++ r) = (true, r) := by
  obtain ⟨x, l⟩ := t
  simp only [Tree.item] at hclass
  have hclass' := copyClass_classOf hclass
  unfold skipItem
  cases hc : (x.classOf sv).isContainer with
  | false =>
    rw [unserialize_leaf ht hclass hc]
    simp only [hclass', hc]
    rfl
  | true =>
    rw [unserialize_container ht hclass hc]
    have hclass'' : Item.classOf sv { x.copyClass sv dummy with serializationCount := l.length } =
        x.classOf sv :=
      hclass'
    simp only [hclass'', hc, if_true, loadRest_saved ht]

end Load

end ForgottenServer.Save
