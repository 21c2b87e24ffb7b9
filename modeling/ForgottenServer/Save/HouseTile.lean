import ForgottenServer.Save.HouseTrip
import Mathlib.Data.List.Forall2

/-! # House tiles that are saved and loaded

A tile of a house gets back what `saveTile` has written of it. Items that can be
moved are created again, in their order; the others are read into the ones that the
map has put there. -/
namespace ForgottenServer.Save
open ForgottenServer.Lib.Wire

/-- What the types promise: they have the id they are found under, and doors and beds hold
nothing, stay where they are and are no splashes. -/
structure Server.Sane (sv : Server) : Prop where
  id : ∀ id, (sv.items id).id = 0 ∨ (sv.items id).id = id
  holder : ∀ id, (sv.items id).type = .door ∨ (sv.items id).type = .bed →
    (sv.items id).group ≠ .container ∧ (sv.items id).group ≠ .splash
  fixed : ∀ id, (sv.items id).type = .door ∨ (sv.items id).type = .bed →
    (sv.items id).moveable = false ∧ (sv.items id).forceSerialize = false

/-- The item is made anew when it is loaded. -/
def isCreated (sv : Server) (t : Tree) : Bool := (t.item.type sv).moveable || (t.item.type sv).forceSerialize

/-- What a tile makes of a saved item: one that is created is added, any other is put on
its counterpart if there is one. -/
def Tile.receive (sv : Server) (tile : Tile) (t : Tree) : Tile :=
  if isCreated sv t then tile.internalAddThing sv (reload sv t)
  else match (tile.down ++ tile.top).find? (isCounterpart sv t.item.id) with
    | some e =>
      (tile.updateFirst (isCounterpart sv t.item.id) fun _ => mergeInto sv t e).transformItem sv
        (isCounterpart sv t.item.id) t.item.id
    | none => tile

section Tiles
variable {sv : Server}

theorem Tree.item_node (x : Item) (l : List Tree) : (Tree.node x l).item = x := rfl

theorem classOf_door {it : ItemType} (h : it.type = .door) (hgroup : it.group ≠ .container) : it.classOf = .door := by
  simp [ItemType.classOf, h, hgroup]

theorem classOf_bed {it : ItemType} (h : it.type = .bed) (hgroup : it.group ≠ .container) : it.classOf = .bed := by
  simp [ItemType.classOf, h, hgroup]

theorem type_of_door {it : ItemType} (h : it.classOf = .door) : it.type = .door := by
  unfold ItemType.classOf at h
  split_ifs at h with _ _ _ _ hdoor
  exact hdoor

theorem type_of_bed {it : ItemType} (h : it.classOf = .bed) : it.type = .bed := by
  unfold ItemType.classOf at h
  split_ifs at h with _ _ _ _ _ _ _ hbed
  exact hbed

theorem counterpart_class (hsane : sv.Sane) {x : Item} {e : Tree} (h : isCounterpart sv x.id e = true) :
    e.item.classOf sv = x.classOf sv := by
  simp only [isCounterpart, Bool.or_eq_true, Bool.and_eq_true, decide_eq_true_eq] at h
  rcases h with (h | ⟨hdoor, he⟩) | ⟨hbed, he⟩
  · exact Item.classOf_of_id h
  · exact he.trans (classOf_door hdoor (hsane.holder _ (.inl hdoor)).1).symm
  · exact he.trans (classOf_bed hbed (hsane.holder _ (.inr hbed)).1).symm

theorem counterpart_type {id : ℕ} {e : Tree} (h : isCounterpart sv id e = true) (hne : e.item.id ≠ id) :
    ((sv.items id).type = .door ∨ (sv.items id).type = .bed) ∧ (e.item.type sv).type = (sv.items id).type := by
  simp only [isCounterpart, Bool.or_eq_true, Bool.and_eq_true, decide_eq_true_eq] at h
  rcases h with (h | ⟨hdoor, he⟩) | ⟨hbed, he⟩
  · exact absurd h hne
  · exact ⟨.inl hdoor, (type_of_door he).trans hdoor.symm⟩
  · exact ⟨.inr hbed, (type_of_bed he).trans hbed.symm⟩

theorem isCounterpart_of_id {id : ℕ} {e e' : Tree} (h : e'.item.id = e.item.id) :
    isCounterpart sv id e' = isCounterpart sv id e := by
  simp only [isCounterpart, h, Item.classOf_of_id h]

theorem loadItem_saved (hsane : sv.Sane) {t : Tree} (ht : Loadable sv t) (tile : Tile) (r : Bytes) :
    loadItem sv tile (saveItem sv t ++ r) = (true, tile.receive sv t, r) := by
  unfold loadItem Tile.receive isCreated
  rw [ht.read_id]
  dsimp only
  by_cases hnew : ((sv.items t.item.id).moveable || (sv.items t.item.id).forceSerialize) = true
  · rw [if_pos hnew, if_pos (show ((t.item.type sv).moveable || (t.item.type sv).forceSerialize) = true from hnew),
      loadNew_saved ht (by rw [List.length_append]; omega)]
  · rw [if_neg hnew, if_neg (show ¬ ((t.item.type sv).moveable || (t.item.type sv).forceSerialize) = true from hnew)]
    cases he : (tile.down ++ tile.top).find? (isCounterpart sv t.item.id) with
    | some e =>
      have hclass : e.item.classOf sv = t.item.classOf sv :=
        counterpart_class hsane (List.find?_some he)
      simp only [loadInto_saved ht hclass, if_true]
    | none =>
      obtain ⟨n, hcreate⟩ : ∃ n, Item.create sv t.item.id = some (Item.new sv t.item.id n) := by
        cases ht with
        | node _ _ hcreate => exact hcreate
      have hclass : (Item.new sv t.item.id n).classOf sv = t.item.classOf sv :=
        Item.classOf_of_id (Item.new_sameTexts sv t.item.id n).id
      simp only [hcreate, skipItem_saved ht hclass]

theorem loadItems_saved (hsane : sv.Sane) {items : List Tree} (hitems : ∀ t ∈ items, Loadable sv t)
    (tile : Tile) (r : Bytes) :
    loadItems sv items.length tile (items.flatMap (saveItem sv) ++ r) = (items.foldl (Tile.receive sv) tile, r) := by
  induction items generalizing tile with
  | nil => rfl
  | cons t items ih =>
    rw [List.length_cons, loadItems, List.flatMap_cons, List.append_assoc, loadItem_saved hsane (hitems t (by simp))]
    exact ih (fun u hu => hitems u (List.mem_cons_of_mem t hu)) _

/-! ## What becomes of the counterpart -/

/-- The item of the map that takes what was saved of `t`. -/
def landed (sv : Server) (t e : Tree) : Tree :=
  let x := (mergeInto sv t e).item
  let x :=
    if e.item.id = t.item.id then x
    else if (e.item.type sv).alwaysOnTop = (t.item.type sv).alwaysOnTop then x.update sv t.item.id
    else x.setID sv t.item.id
  .node x (mergeInto sv t e).children

def Tile.find (tile : Tile) (p : Tree → Bool) : Option Tree := (tile.down ++ tile.top).find? p

/-- What a tile may make of a saved item that is not created. Its counterpart stays where it
is, or it comes among the top items or from them. -/
inductive Takes (sv : Server) (t : Tree) (tile : Tile) : Tile → Prop
  | absent : tile.find (isCounterpart sv t.item.id) = none → Takes sv t tile tile
  | misplaced {e : Tree} : tile.find (isCounterpart sv t.item.id) = some e →
    tile.down.any (isCounterpart sv t.item.id) = (e.item.type sv).alwaysOnTop →
    Takes sv t tile (tile.updateFirst (isCounterpart sv t.item.id) fun _ => mergeInto sv t e)
  | inPlace {e : Tree} : tile.find (isCounterpart sv t.item.id) = some e →
    (e.item.type sv).alwaysOnTop = (t.item.type sv).alwaysOnTop →
    Takes sv t tile (tile.updateFirst (isCounterpart sv t.item.id) fun _ => landed sv t e)
  | lifts {e : Tree} {before : Tree → Bool} : tile.down.find? (isCounterpart sv t.item.id) = some e →
    (e.item.type sv).alwaysOnTop = false → (t.item.type sv).alwaysOnTop = true →
    Takes sv t tile { tile with
      down := tile.down.eraseP (isCounterpart sv t.item.id)
      top := insertBy before (landed sv t e) tile.top }
  | lowers {e : Tree} : tile.down.find? (isCounterpart sv t.item.id) = none →
    tile.top.find? (isCounterpart sv t.item.id) = some e →
    (e.item.type sv).alwaysOnTop = true → (t.item.type sv).alwaysOnTop = false →
    Takes sv t tile { tile with
      down := landed sv t e :: tile.down
      top := tile.top.eraseP (isCounterpart sv t.item.id) }

theorem setSubType_id (x : Item) (n : ℤ) : (x.setSubType sv n).id = x.id := by
  unfold Item.setSubType
  dsimp only
  split_ifs <;> rfl

theorem setID_id (x : Item) (id : ℕ) : (x.setID sv id).id = id := by
  unfold Item.setID
  dsimp only
  split_ifs <;> rfl

theorem mergeInto_id (t e : Tree) : (mergeInto sv t e).item.id = e.item.id := by
  unfold mergeInto
  rw [Tree.item_node]
  split_ifs
  · exact Item.copyClass_id _ _
  · exact Item.copyClass_id _ _

theorem landed_id (hsane : sv.Sane) {t : Tree} (ht : Loadable sv t) (e : Tree) :
    (landed sv t e).item.id = t.item.id := by
  unfold landed
  rw [Tree.item_node]
  split_ifs with hsame hlayer
  · exact (mergeInto_id t e).trans hsame
  · unfold Item.update
    rw [setSubType_id, setID_id, if_pos]
    have hknown : (sv.items t.item.id).id = t.item.id := (hsane.id _).resolve_left ht.known
    rw [hknown, Item.type, mergeInto_id]
    rcases hsane.id e.item.id with hzero | hid
    · rw [hzero]
      exact fun h => ht.known (hknown.trans h.symm)
    · rw [hid]
      exact hsame
  · exact setID_id _ _

theorem landed_counterpart (hsane : sv.Sane) {t : Tree} (ht : Loadable sv t) (e : Tree) :
    isCounterpart sv t.item.id (landed sv t e) = true := by
  simp only [isCounterpart, landed_id hsane ht, decide_true, Bool.true_or]

theorem updateFirst_twice {p : Tree → Bool} {m x : Tree} (hm : p m = true) (l : List Tree) :
    updateFirst p (fun _ => x) (updateFirst p (fun _ => m) l) = updateFirst p (fun _ => x) l := by
  induction l with
  | nil => rfl
  | cons u l ih =>
    cases hu : p u with
    | true => simp [updateFirst, hu, hm]
    | false => simp [updateFirst, hu, ih]

theorem updateFirst_any {p : Tree → Bool} {m : Tree} (hm : p m = true) (l : List Tree) :
    (updateFirst p (fun _ => m) l).any p = l.any p := by
  induction l with
  | nil => rfl
  | cons u l ih =>
    cases hu : p u with
    | true => simp [updateFirst, hu, hm]
    | false => simp [updateFirst, hu, ih]

theorem updateFirst_eraseP {p : Tree → Bool} {m : Tree} (hm : p m = true) (l : List Tree) :
    (updateFirst p (fun _ => m) l).eraseP p = l.eraseP p := by
  induction l with
  | nil => rfl
  | cons u l ih =>
    cases hu : p u with
    | true => simp [updateFirst, hu, hm]
    | false => simp [updateFirst, hu, ih]

theorem updateFirst_find {p : Tree → Bool} {m : Tree} (hm : p m = true) {l : List Tree}
    (hl : l.any p = true) : (updateFirst p (fun _ => m) l).find? p = some m := by
  induction l with
  | nil => cases hl
  | cons u l ih =>
    cases hu : p u with
    | true => simp [updateFirst, hu, hm]
    | false =>
      rw [List.any_cons, hu, Bool.false_or] at hl
      simp [updateFirst, hu, ih hl]

theorem any_of_find {p : Tree → Bool} {l : List Tree} {e : Tree} (h : l.find? p = some e) : l.any p = true :=
  List.any_eq_true.mpr ⟨e, List.mem_of_find?_eq_some h, List.find?_some h⟩

theorem find_none_iff {p : Tree → Bool} {l : List Tree} : l.find? p = none ↔ l.any p = false := by
  rw [List.find?_eq_none, List.any_eq_false]

theorem Tile.find_cases {tile : Tile} {p : Tree → Bool} {e : Tree} (h : tile.find p = some e) :
    tile.down.find? p = some e ∧ tile.down.any p = true ∨
      tile.down.find? p = none ∧ tile.down.any p = false ∧ tile.top.find? p = some e := by
  rw [Tile.find, List.find?_append] at h
  cases hdown : tile.down.find? p with
  | some x =>
    rw [hdown] at h
    cases h
    exact .inl ⟨rfl, any_of_find hdown⟩
  | none =>
    rw [hdown] at h
    exact .inr ⟨rfl, find_none_iff.mp hdown, h⟩

theorem Tile.updateFirst_find {tile : Tile} {p : Tree → Bool} {m e : Tree} (hm : p m = true)
    (h : tile.find p = some e) : (tile.updateFirst p fun _ => m).find p = some m := by
  unfold Tile.updateFirst Tile.find
  rcases Tile.find_cases h with ⟨-, hany⟩ | ⟨hnone, hany, htop⟩
  · rw [if_pos hany, List.find?_append, Save.updateFirst_find hm hany]
    rfl
  · rw [if_neg (by rw [hany]; decide), List.find?_append, hnone,
      Save.updateFirst_find hm (any_of_find htop)]
    rfl

theorem Tile.updateFirst_twice {tile : Tile} {p : Tree → Bool} {m x : Tree} (hm : p m = true) :
    ((tile.updateFirst p fun _ => m).updateFirst p fun _ => x) = tile.updateFirst p fun _ => x := by
  unfold Tile.updateFirst
  cases hany : tile.down.any p with
  | true => simp [updateFirst_any hm, hany, Save.updateFirst_twice hm]
  | false => simp [hany, Save.updateFirst_twice hm]

/-- How many items there are besides the ground. -/
def Tile.size (tile : Tile) : ℕ := tile.down.length + tile.top.length

theorem addThing_plain {tile : Tile} {t : Tree} (hsize : tile.size < 0xFFFF)
    (hground : (t.item.type sv).group ≠ .ground) (hsplash : (t.item.type sv).group ≠ .splash)
    (hfield : (t.item.type sv).type ≠ .magicField) :
    tile.addThing sv t = if (t.item.type sv).alwaysOnTop then { tile with top := insertBy (fun u =>
          (t.item.type sv).alwaysOnTopOrder ≤ (u.item.type sv).alwaysOnTopOrder) t tile.top }
      else { tile with down := t :: tile.down } := by
  have hfull : ¬ 0xFFFF ≤ tile.down.length + tile.top.length := not_le.mpr hsize
  unfold Tile.addThing
  dsimp only
  rw [if_neg hfull, if_neg hground, if_neg hsplash, if_neg hfield]

theorem landed_same {t e : Tree} (h : e.item.id = t.item.id) : landed sv t e = mergeInto sv t e := by
  unfold landed
  dsimp only
  rw [if_pos h]
  rfl

theorem addThing_lifted (hsane : sv.Sane) {t e : Tree} (hne : e.item.id ≠ t.item.id)
    (hcounter : isCounterpart sv t.item.id e = true) (hground : (t.item.type sv).group ≠ .ground)
    (hlayer : (e.item.type sv).alwaysOnTop ≠ (t.item.type sv).alwaysOnTop) {tile : Tile} (hsize : tile.size < 0xFFFF) :
    tile.addThing sv (.node ((mergeInto sv t e).item.setID sv t.item.id) (mergeInto sv t e).children) =
      if (t.item.type sv).alwaysOnTop then
        { tile with top := insertBy (fun u =>
          (t.item.type sv).alwaysOnTopOrder ≤ (u.item.type sv).alwaysOnTopOrder) (landed sv t e) tile.top }
      else { tile with down := landed sv t e :: tile.down } := by
  have hnode : Tree.node ((mergeInto sv t e).item.setID sv t.item.id) (mergeInto sv t e).children =
      landed sv t e := by
    unfold landed
    dsimp only
    rw [if_neg hne, if_neg hlayer]
  obtain ⟨hkind, -⟩ := counterpart_type hcounter hne
  have htype : (landed sv t e).item.type sv = t.item.type sv := by
    rw [← hnode, Item.type, Tree.item_node, setID_id, Item.type]
  rw [hnode, addThing_plain hsize, htype]
  · rw [htype]
    exact hground
  · rw [htype]
    exact (hsane.holder _ hkind).2
  · rw [htype]
    intro hfield
    rcases hkind with h | h <;> rw [← Item.type, hfield] at h <;> cases h

theorem receive_takes (hsane : sv.Sane) {t : Tree} (ht : Loadable sv t)
    (hground : (t.item.type sv).group ≠ .ground) (hfixed : isCreated sv t = false) {tile : Tile}
    (hsize : tile.size ≤ 0xFFFF) : Takes sv t tile (tile.receive sv t) := by
  unfold Tile.receive
  rw [hfixed, if_neg Bool.false_ne_true]
  cases hfind : (tile.down ++ tile.top).find? (isCounterpart sv t.item.id) with
  | none => exact .absent hfind
  | some e =>
    have hcounter := List.find?_some hfind
    have hm : isCounterpart sv t.item.id (mergeInto sv t e) = true :=
      (isCounterpart_of_id (mergeInto_id t e)).trans hcounter
    have htype : (mergeInto sv t e).item.type sv = e.item.type sv := by
      rw [Item.type, mergeInto_id, Item.type]
    have hany : (tile.updateFirst (isCounterpart sv t.item.id) fun _ => mergeInto sv t e).down.any
        (isCounterpart sv t.item.id) = tile.down.any (isCounterpart sv t.item.id) := by
      unfold Tile.updateFirst
      split_ifs with h
      · exact updateFirst_any hm _
      · rfl
    have hfirst := Tile.updateFirst_find hm hfind
    unfold Tile.find at hfirst
    dsimp only
    unfold Tile.transformItem
    rw [hfirst]
    dsimp only
    rw [mergeInto_id, hany, htype, show sv.items t.item.id = t.item.type sv from rfl]
    by_cases hsame : e.item.id = t.item.id
    · rw [if_pos hsame, ← landed_same hsame]
      exact .inPlace hfind (by rw [Item.type, hsame, Item.type])
    rw [if_neg hsame]
    by_cases hplace : tile.down.any (isCounterpart sv t.item.id) = (e.item.type sv).alwaysOnTop
    · rw [if_pos hplace]
      exact .misplaced hfind hplace
    rw [if_neg hplace, if_neg (show (t.item.type sv).id ≠ 0 from ht.known)]
    have hkind : (e.item.type sv).type = (t.item.type sv).type := (counterpart_type hcounter hsame).2
    by_cases hlayer : (e.item.type sv).alwaysOnTop = (t.item.type sv).alwaysOnTop
    · have hnode : Tree.node ((mergeInto sv t e).item.update sv t.item.id) (mergeInto sv t e).children =
          landed sv t e := by
        unfold landed
        dsimp only
        rw [if_neg hsame, if_pos hlayer]
      rw [if_neg (not_not.mpr hlayer), if_pos hkind, Tile.updateFirst_twice hm, hnode]
      exact .inPlace hfind hlayer
    rw [if_pos hlayer]
    rcases Tile.find_cases hfind with ⟨hdown, hin⟩ | ⟨hdown, hnot, htop⟩
    · -- from the down items to the top items
      have he : (e.item.type sv).alwaysOnTop = false := by
        rw [hin] at hplace
        exact (Bool.eq_false_or_eq_true _).resolve_left fun h => hplace h.symm
      have ht' : (t.item.type sv).alwaysOnTop = true := by
        rw [he] at hlayer
        exact (Bool.eq_false_or_eq_true _).resolve_right fun h => hlayer h.symm
      have hless : Tile.size { tile with down := tile.down.eraseP (isCounterpart sv t.item.id) } < 0xFFFF := by
        have hpos := List.length_pos_of_mem (List.mem_of_find?_eq_some hdown)
        unfold Tile.size at hsize ⊢
        dsimp only
        rw [List.length_eraseP, if_pos hin]
        omega
      rw [he, if_neg Bool.false_ne_true, Tile.updateFirst, if_pos hin]
      dsimp only
      rw [updateFirst_eraseP hm, addThing_lifted hsane hsame hcounter hground hlayer hless, if_pos ht']
      exact .lifts hdown he ht'
    · -- and back
      have he : (e.item.type sv).alwaysOnTop = true := by
        rw [hnot] at hplace
        exact (Bool.eq_false_or_eq_true _).resolve_right fun h => hplace h.symm
      have ht' : (t.item.type sv).alwaysOnTop = false := by
        rw [he] at hlayer
        exact (Bool.eq_false_or_eq_true _).resolve_left fun h => hlayer h.symm
      have hless : Tile.size { tile with top := tile.top.eraseP (isCounterpart sv t.item.id) } < 0xFFFF := by
        have hpos := List.length_pos_of_mem (List.mem_of_find?_eq_some htop)
        unfold Tile.size at hsize ⊢
        dsimp only
        rw [List.length_eraseP, if_pos (any_of_find htop)]
        omega
      rw [he, if_pos rfl, Tile.updateFirst, if_neg (by rw [hnot]; decide)]
      dsimp only
      rw [updateFirst_eraseP hm, addThing_lifted hsane hsame hcounter hground hlayer hless,
        if_neg (by rw [ht']; decide)]
      exact .lowers hdown htop he ht'

/-! ## The items that are created -/

def created (sv : Server) (l : List Tree) : List Tree := l.filter (isCreated sv)

theorem isCreated_of_id {t u : Tree} (h : u.item.id = t.item.id) : isCreated sv u = isCreated sv t := by
  simp only [isCreated, Item.type, h]

theorem reload_id {t : Tree} (ht : Loadable sv t) : (reload sv t).item.id = t.item.id := by
  cases ht with
  | node _ _ hcreate =>
    obtain ⟨n, hcreate⟩ := hcreate
    simp only [reload, hcreate, Option.getD_some, Tree.item]
    split
    · exact (Item.copyClass_id _ _).trans (Item.new_sameTexts sv _ n).id
    · exact (Item.copyClass_id _ _).trans (Item.new_sameTexts sv _ n).id

theorem counterpart_fixed (hsane : sv.Sane) {t u : Tree} (ht : isCreated sv t = false)
    (h : isCounterpart sv t.item.id u = true) : isCreated sv u = false := by
  by_cases hid : u.item.id = t.item.id
  · rw [isCreated_of_id hid, ht]
  · obtain ⟨hkind, htype⟩ := counterpart_type h hid
    rw [← htype] at hkind
    obtain ⟨hmove, hforce⟩ := hsane.fixed u.item.id hkind
    simp only [isCreated, Item.type, hmove, hforce, Bool.or_self]

/-- What a list keeps of its items when those that `p` tells are exchanged, taken or added. -/
structure KeepsBut (p : Tree → Bool) (l l' : List Tree) : Prop where
  filter : ∀ c : Tree → Bool, (∀ u, p u = true → c u = false) → l'.filter c = l.filter c
  find : ∀ q : Tree → Bool, (∀ u, p u = true → q u = false) → l'.find? q = l.find? q
  mem : ∀ u, p u = false → u ∈ l → u ∈ l'

theorem KeepsBut.of_filter {p : Tree → Bool} {l l' : List Tree}
    (h : ∀ c : Tree → Bool, (∀ u, p u = true → c u = false) → l'.filter c = l.filter c) : KeepsBut p l l' where
  filter := h
  find q hq := by rw [← List.head?_filter, h q hq, List.head?_filter]
  mem u hu hmem := by
    have hown : ∀ v, p v = true → (fun v => !p v) v = false := fun v hv => by simp [hv]
    have := h (fun v => !p v) hown
    have hin : u ∈ l.filter fun v => !p v := List.mem_filter.mpr ⟨hmem, by simp [hu]⟩
    rw [← this] at hin
    exact (List.mem_filter.mp hin).1

theorem KeepsBut.mono {p q : Tree → Bool} {l l' : List Tree} (h : KeepsBut p l l')
    (hpq : ∀ u, p u = true → q u = true) : KeepsBut q l l' :=
  .of_filter fun c hc => h.filter c fun u hu => hc u (hpq u hu)

theorem KeepsBut.trans {p : Tree → Bool} {l l' l'' : List Tree} (h : KeepsBut p l l')
    (h' : KeepsBut p l' l'') : KeepsBut p l l'' :=
  .of_filter fun c hc => (h'.filter c hc).trans (h.filter c hc)

section Keeps
variable {p : Tree → Bool} {x : Tree} (l : List Tree)

theorem KeepsBut.same : KeepsBut p l l := .of_filter fun _ _ => rfl

theorem KeepsBut.updateFirst (hx : p x = true) : KeepsBut p l (Save.updateFirst p (fun _ => x) l) := by
  refine .of_filter fun c hc => ?_
  induction l with
  | nil => rfl
  | cons u l ih =>
    rw [Save.updateFirst]
    split
    · rename_i hu
      simp [hc u hu, hc x hx]
    · simp [List.filter_cons, ih]

theorem KeepsBut.eraseP : KeepsBut p l (l.eraseP p) := by
  refine .of_filter fun c hc => ?_
  induction l with
  | nil => rfl
  | cons u l ih =>
    cases hu : p u with
    | true => simp [hu, hc u hu]
    | false => simp [hu, List.filter_cons, ih]

theorem KeepsBut.cons (hx : p x = true) : KeepsBut p l (x :: l) :=
  .of_filter fun c hc => List.filter_cons_of_neg (by rw [hc x hx]; decide)

theorem KeepsBut.insertBy (before : Tree → Bool) (hx : p x = true) : KeepsBut p l (Save.insertBy before x l) := by
  refine .of_filter fun c hc => ?_
  induction l with
  | nil => simp [Save.insertBy, hc x hx]
  | cons u l ih =>
    rw [Save.insertBy]
    split_ifs
    · exact List.filter_cons_of_neg (by rw [hc x hx]; decide)
    · simp [List.filter_cons, ih]

end Keeps

theorem updateFirst_length {p : Tree → Bool} {f : Tree → Tree} (l : List Tree) :
    (updateFirst p f l).length = l.length := by
  induction l with
  | nil => rfl
  | cons u l ih =>
    rw [updateFirst]
    split
    · rfl
    · rw [List.length_cons, ih, List.length_cons]

theorem insertBy_length (before : Tree → Bool) (t : Tree) (l : List Tree) :
    (insertBy before t l).length = l.length + 1 := by
  induction l with
  | nil => rfl
  | cons u l ih =>
    rw [insertBy]
    split_ifs
    · rfl
    · rw [List.length_cons, ih, List.length_cons]

theorem mem_insertBy (before : Tree → Bool) (t : Tree) (l : List Tree) : t ∈ insertBy before t l := by
  induction l with
  | nil => simp [insertBy]
  | cons u l ih =>
    rw [insertBy]
    split_ifs
    · simp
    · exact List.mem_cons_of_mem u ih

theorem Tile.updateFirst_keeps {tile : Tile} {p : Tree → Bool} {x : Tree} (hx : p x = true) :
    KeepsBut p tile.down (tile.updateFirst p fun _ => x).down ∧
      KeepsBut p tile.top (tile.updateFirst p fun _ => x).top ∧
      (tile.updateFirst p fun _ => x).size = tile.size := by
  unfold Tile.updateFirst Tile.size
  split_ifs
  · exact ⟨.updateFirst _ hx, .same _, by rw [updateFirst_length]⟩
  · exact ⟨.same _, .updateFirst _ hx, by rw [updateFirst_length]⟩

/-- An item that is not created leaves all but its counterparts as they are. -/
theorem Takes.keeps (hsane : sv.Sane) {t : Tree} (ht : Loadable sv t) {tile tile' : Tile} (h : Takes sv t tile tile') :
    KeepsBut (isCounterpart sv t.item.id) tile.down tile'.down ∧
      KeepsBut (isCounterpart sv t.item.id) tile.top tile'.top ∧ tile'.size = tile.size := by
  have hown := landed_counterpart hsane ht
  cases h with
  | absent => exact ⟨.same _, .same _, rfl⟩
  | @misplaced e hfind =>
    exact Tile.updateFirst_keeps ((isCounterpart_of_id (mergeInto_id t e)).trans (List.find?_some hfind))
  | @inPlace e => exact Tile.updateFirst_keeps (hown e)
  | @lifts e before hdown =>
    have hpos := List.length_pos_of_mem (List.mem_of_find?_eq_some hdown)
    refine ⟨.eraseP _, .insertBy _ before (hown e), ?_⟩
    simp only [Tile.size, List.length_eraseP, any_of_find hdown, if_true, insertBy_length]
    omega
  | @lowers e _ htop =>
    have hpos := List.length_pos_of_mem (List.mem_of_find?_eq_some htop)
    refine ⟨.cons _ (hown e), .eraseP _, ?_⟩
    simp only [Tile.size, List.length_eraseP, any_of_find htop, if_true, List.length_cons]
    omega

theorem reload_type {t : Tree} (ht : Loadable sv t) : (reload sv t).item.type sv = t.item.type sv := by
  rw [Item.type, Item.type, reload_id ht]

/-- Which items of a tile a saved one is about: the created ones or its counterparts. -/
def touched (sv : Server) (t : Tree) : Tree → Bool :=
  if isCreated sv t then isCreated sv else isCounterpart sv t.item.id

theorem internalAddThing_keeps {p : Tree → Bool} {t : Tree} (ht : p t = true) (tile : Tile) :
    KeepsBut p tile.down (tile.internalAddThing sv t).down ∧ KeepsBut p tile.top (tile.internalAddThing sv t).top ∧
      (tile.internalAddThing sv t).size ≤ tile.size + 1 := by
  unfold Tile.internalAddThing
  dsimp only
  split_ifs
  · exact ⟨.same _, .same _, Nat.le_succ _⟩
  · exact ⟨.same _, .same _, Nat.le_succ _⟩
  · exact ⟨.same _, .same _, Nat.le_succ _⟩
  · refine ⟨.same _, .insertBy _ _ ht, ?_⟩
    simp only [Tile.size, insertTop, insertBy_length]
    omega
  · refine ⟨.cons _ ht, .same _, ?_⟩
    simp only [Tile.size, List.length_cons]
    omega

theorem receive_keeps (hsane : sv.Sane) {t : Tree} (ht : Loadable sv t)
    (hground : (t.item.type sv).group ≠ .ground) {tile : Tile} (hsize : tile.size ≤ 0xFFFF) :
    KeepsBut (touched sv t) tile.down (tile.receive sv t).down ∧
      KeepsBut (touched sv t) tile.top (tile.receive sv t).top ∧
      (tile.receive sv t).size ≤ tile.size + (created sv [t]).length := by
  unfold touched created
  cases hnew : isCreated sv t with
  | true =>
    rw [Tile.receive, hnew, if_pos rfl, if_pos rfl, List.filter_cons_of_pos hnew]
    exact internalAddThing_keeps ((isCreated_of_id (reload_id ht)).trans hnew) tile
  | false =>
    rw [if_neg Bool.false_ne_true, List.filter_cons_of_neg (by rw [hnew]; decide)]
    obtain ⟨hdown, htop, hsame⟩ := (receive_takes hsane ht hground hnew hsize).keeps hsane ht
    exact ⟨hdown, htop, hsame.le⟩

theorem receive_fixed (hsane : sv.Sane) {t : Tree} (ht : Loadable sv t) (hground : (t.item.type sv).group ≠ .ground)
    (hfixed : isCreated sv t = false) {tile : Tile} (hsize : tile.size ≤ 0xFFFF) :
    created sv (tile.receive sv t).down = created sv tile.down ∧
      created sv (tile.receive sv t).top = created sv tile.top ∧ (tile.receive sv t).size = tile.size := by
  obtain ⟨hdown, htop, hsame⟩ := (receive_takes hsane ht hground hfixed hsize).keeps hsane ht
  have hapart : ∀ u, isCounterpart sv t.item.id u = true → isCreated sv u = false :=
    fun u hu => counterpart_fixed hsane hfixed hu
  exact ⟨hdown.filter _ hapart, htop.filter _ hapart, hsame⟩

theorem insertBy_filter {c before : Tree → Bool} {t : Tree} (ht : c t = true) {l : List Tree}
    (hl : ∀ u ∈ l, c u = true → before u = true) : (insertBy before t l).filter c = t :: l.filter c := by
  induction l with
  | nil => simp [insertBy, ht]
  | cons u l ih =>
    rw [insertBy]
    split_ifs with horder
    · rw [List.filter_cons_of_pos ht]
    · have hu : ¬ c u = true := fun hu => horder (hl u (by simp) hu)
      rw [List.filter_cons_of_neg hu, List.filter_cons_of_neg hu, ih fun v hv => hl v (List.mem_cons_of_mem u hv)]

def IsDown (sv : Server) (t : Tree) : Prop := (t.item.type sv).group ≠ .ground ∧ (t.item.type sv).alwaysOnTop = false

def IsTop (sv : Server) (t : Tree) : Prop := (t.item.type sv).group ≠ .ground ∧ (t.item.type sv).alwaysOnTop = true

theorem receive_down {t : Tree} (ht : Loadable sv t) (hdown : IsDown sv t) (hnew : isCreated sv t = true) {tile : Tile}
    (hsize : tile.size < 0xFFFF) : tile.receive sv t = { tile with down := reload sv t :: tile.down } := by
  obtain ⟨hground, htop⟩ := hdown
  rw [Tile.size] at hsize
  simp only [Tile.receive, hnew, if_true, Tile.internalAddThing, reload_type ht, hground,
    if_false, htop, not_le.mpr hsize]
  rfl

theorem receive_top {t : Tree} (ht : Loadable sv t) (htop : IsTop sv t) (hnew : isCreated sv t = true) {tile : Tile}
    (hsize : tile.size < 0xFFFF) : tile.receive sv t = { tile with top := insertTop sv (reload sv t) tile.top } := by
  obtain ⟨hground, htop⟩ := htop
  rw [Tile.size] at hsize
  simp only [Tile.receive, hnew, if_true, Tile.internalAddThing, reload_type ht, hground,
    if_false, htop, not_le.mpr hsize]

/-- What a tile has once the saved items are read, the last one first. -/
def Tile.receiveAll (sv : Server) (base : Tile) (l : List Tree) : Tile :=
  l.foldr (fun t tile => tile.receive sv t) base

theorem created_cons_pos {t : Tree} (ht : isCreated sv t = true) (l : List Tree) :
    created sv (t :: l) = t :: created sv l := List.filter_cons_of_pos ht

theorem created_cons_neg {t : Tree} (ht : isCreated sv t = false) (l : List Tree) :
    created sv (t :: l) = created sv l := List.filter_cons_of_neg (by rw [ht]; decide)

theorem receiveAll_top (hsane : sv.Sane) {base : Tile}
    (hbase : created sv base.top = []) {l : List Tree} (hl : ∀ t ∈ l, Loadable sv t)
    (htop : ∀ t ∈ l, IsTop sv t) (horder : (created sv l).Pairwise fun t u =>
      (t.item.type sv).alwaysOnTopOrder < (u.item.type sv).alwaysOnTopOrder)
    (hsize : base.size + (created sv l).length ≤ 0xFFFF) :
    created sv (base.receiveAll sv l).down = created sv base.down ∧
      created sv (base.receiveAll sv l).top = (created sv l).map (reload sv) ∧
      (base.receiveAll sv l).size = base.size + (created sv l).length := by
  induction l with
  | nil => exact ⟨rfl, hbase, rfl⟩
  | cons t l ih =>
    have hload := hl t (by simp)
    have htail : ∀ u ∈ l, Loadable sv u := fun u hu => hl u (List.mem_cons_of_mem t hu)
    have htops : ∀ u ∈ l, IsTop sv u := fun u hu => htop u (List.mem_cons_of_mem t hu)
    by_cases hnew : isCreated sv t = true
    · rw [created_cons_pos hnew] at horder hsize ⊢
      rw [List.length_cons] at hsize
      obtain ⟨hfirst, hrest⟩ := List.pairwise_cons.mp horder
      obtain ⟨hdown, htop', hcount⟩ := ih htail htops hrest (by omega)
      have hstep : base.receiveAll sv (t :: l) =
          { base.receiveAll sv l with top := insertTop sv (reload sv t) (base.receiveAll sv l).top } :=
        receive_top hload (htop t (by simp)) hnew
          (by show (base.receiveAll sv l).size < _; omega)
      have hnew' : isCreated sv (reload sv t) = true := by
        rw [isCreated_of_id (reload_id hload), hnew]
      rw [hstep]
      refine ⟨hdown, ?_, ?_⟩
      · rw [List.map_cons, ← htop']
        refine insertBy_filter hnew' fun u hu hc => ?_
        -- what is created there already is one of the later items
        have hmem : u ∈ (created sv l).map (reload sv) := by
          rw [← htop']; exact List.mem_filter.mpr ⟨hu, hc⟩
        obtain ⟨v, hv, rfl⟩ := List.mem_map.mp hmem
        rw [reload_type hload, reload_type (htail v (List.mem_filter.mp hv).1), decide_eq_true_eq]
        exact hfirst v hv
      · have : (base.receiveAll sv l).down.length + (base.receiveAll sv l).top.length =
          base.size + (created sv l).length := hcount
        simp only [Tile.size, insertTop, insertBy_length, List.length_cons] at *
        omega
    · rw [Bool.not_eq_true] at hnew
      rw [created_cons_neg hnew] at horder hsize ⊢
      obtain ⟨hdown', htop'', hcount'⟩ := ih htail htops horder hsize
      obtain ⟨hdown, htop', hcount⟩ := receive_fixed hsane hload (htop t (by simp)).1 hnew
        (hcount'.trans_le hsize)
      exact ⟨hdown.trans hdown', htop'.trans htop'', hcount.trans hcount'⟩

theorem receiveAll_down (hsane : sv.Sane) {base : Tile} {l : List Tree} (hl : ∀ t ∈ l, Loadable sv t)
    (hdown : ∀ t ∈ l, IsDown sv t) (hsize : base.size + (created sv l).length ≤ 0xFFFF) :
    created sv (base.receiveAll sv l).down = (created sv l).map (reload sv) ++ created sv base.down ∧
      created sv (base.receiveAll sv l).top = created sv base.top ∧
      (base.receiveAll sv l).size = base.size + (created sv l).length := by
  induction l with
  | nil => exact ⟨rfl, rfl, rfl⟩
  | cons t l ih =>
    have hload := hl t (by simp)
    have htail : ∀ u ∈ l, Loadable sv u := fun u hu => hl u (List.mem_cons_of_mem t hu)
    have hdowns : ∀ u ∈ l, IsDown sv u := fun u hu => hdown u (List.mem_cons_of_mem t hu)
    by_cases hnew : isCreated sv t = true
    · rw [created_cons_pos hnew] at hsize ⊢
      rw [List.length_cons] at hsize
      obtain ⟨hdown', htop, hcount⟩ := ih htail hdowns (by omega)
      have hstep : base.receiveAll sv (t :: l) =
          { base.receiveAll sv l with down := reload sv t :: (base.receiveAll sv l).down } :=
        receive_down hload (hdown t (by simp)) hnew
          (by show (base.receiveAll sv l).size < _; omega)
      have hnew' : isCreated sv (reload sv t) = true := by
        rw [isCreated_of_id (reload_id hload), hnew]
      rw [hstep]
      refine ⟨?_, htop, ?_⟩
      · rw [created_cons_pos hnew', hdown']
        rfl
      · have : (base.receiveAll sv l).down.length + (base.receiveAll sv l).top.length =
          base.size + (created sv l).length := hcount
        simp only [Tile.size, List.length_cons] at *
        omega
    · rw [Bool.not_eq_true] at hnew
      rw [created_cons_neg hnew] at hsize ⊢
      obtain ⟨hdown'', htop'', hcount'⟩ := ih htail hdowns hsize
      obtain ⟨hdown', htop', hcount⟩ := receive_fixed hsane hload (hdown t (by simp)).1 hnew
        (hcount'.trans_le hsize)
      exact ⟨hdown'.trans hdown'', htop'.trans htop'', hcount.trans hcount'⟩

/-! ## The items that stay where they are -/

/-- Two saved items that are read into the same item of the map. -/
def Rival (sv : Server) (t u : Tree) : Prop :=
  u.item.id = t.item.id ∨ (t.item.classOf sv = .door ∧ u.item.classOf sv = .door) ∨
    (t.item.classOf sv = .bed ∧ u.item.classOf sv = .bed)

theorem rival_of_counterpart (hsane : sv.Sane) {t u v : Tree} (ht : isCounterpart sv t.item.id v = true)
    (hu : isCounterpart sv u.item.id v = true) : Rival sv t u := by
  have hclass : u.item.classOf sv = t.item.classOf sv :=
    (counterpart_class hsane hu).symm.trans (counterpart_class hsane ht)
  have hclass' : v.item.classOf sv = t.item.classOf sv := counterpart_class hsane ht
  simp only [isCounterpart, Bool.or_eq_true, Bool.and_eq_true, decide_eq_true_eq] at ht hu
  rcases ht with (ht | ⟨-, ht⟩) | ⟨-, ht⟩
  · rcases hu with (hu | ⟨-, hu⟩) | ⟨-, hu⟩
    · exact .inl (hu.symm.trans ht)
    · exact .inr (.inl ⟨hclass'.symm.trans hu, hclass.trans (hclass'.symm.trans hu)⟩)
    · exact .inr (.inr ⟨hclass'.symm.trans hu, hclass.trans (hclass'.symm.trans hu)⟩)
  · exact .inr (.inl ⟨hclass'.symm.trans ht, hclass.trans (hclass'.symm.trans ht)⟩)
  · exact .inr (.inr ⟨hclass'.symm.trans ht, hclass.trans (hclass'.symm.trans ht)⟩)

/-- What the map has put on a tile, each item in the list its type belongs to. -/
structure Tile.Layered (sv : Server) (tile : Tile) : Prop where
  down : ∀ e ∈ tile.down, (e.item.type sv).alwaysOnTop = false
  top : ∀ e ∈ tile.top, (e.item.type sv).alwaysOnTop = true

theorem touched_other (hsane : sv.Sane) {t u v : Tree} (ht : isCreated sv t = false)
    (hrival : isCreated sv u = false → ¬ Rival sv t u) (hv : touched sv u v = true) :
    isCounterpart sv t.item.id v = false := by
  by_contra hc
  rw [Bool.not_eq_false] at hc
  unfold touched at hv
  split_ifs at hv with hnew
  · rw [counterpart_fixed hsane ht hc] at hv
    cases hv
  · rw [Bool.not_eq_true] at hnew
    exact hrival hnew (rival_of_counterpart hsane hc hv)

section Run
variable (base : Tile) {l : List Tree} (hsane : sv.Sane)
  (hl : ∀ t ∈ l, Loadable sv t ∧ (t.item.type sv).group ≠ .ground)
  (hsize : base.size + (created sv l).length ≤ 0xFFFF)
include hsane hl hsize

theorem receiveAll_size : (base.receiveAll sv l).size ≤ base.size + (created sv l).length := by
  induction l with
  | nil => exact le_rfl
  | cons u l ih =>
    have hsplit : (created sv (u :: l)).length = (created sv [u]).length + (created sv l).length := by
      rw [← List.singleton_append, created, List.filter_append, List.length_append]
      rfl
    have hrest := ih (fun v hv => hl v (List.mem_cons_of_mem u hv)) (by omega)
    obtain ⟨hload, hground⟩ := hl u (by simp)
    obtain ⟨-, -, hstep⟩ := receive_keeps hsane hload hground (hrest.trans (by omega))
    show ((base.receiveAll sv l).receive sv u).size ≤ _
    omega

theorem receiveAll_keeps {t : Tree} (ht : isCreated sv t = false)
    (hrival : ∀ u ∈ l, isCreated sv u = false → ¬ Rival sv t u) :
    KeepsBut (fun v => !isCounterpart sv t.item.id v) base.down (base.receiveAll sv l).down ∧
      KeepsBut (fun v => !isCounterpart sv t.item.id v) base.top (base.receiveAll sv l).top := by
  induction l with
  | nil => exact ⟨.same _, .same _⟩
  | cons u l ih =>
    have hsplit : (created sv (u :: l)).length = (created sv [u]).length + (created sv l).length := by
      rw [← List.singleton_append, created, List.filter_append, List.length_append]
      rfl
    have hload : ∀ v ∈ l, Loadable sv v ∧ (v.item.type sv).group ≠ .ground :=
      fun v hv => hl v (List.mem_cons_of_mem u hv)
    obtain ⟨hdown, htop⟩ := ih hload (by omega) fun v hv => hrival v (List.mem_cons_of_mem u hv)
    have hrest := receiveAll_size base hsane hload (by omega)
    obtain ⟨hdown', htop', -⟩ := receive_keeps hsane (hl u (by simp)).1 (hl u (by simp)).2
      (hrest.trans (by omega))
    have hother : ∀ v, touched sv u v = true → (!isCounterpart sv t.item.id v) = true := fun v hv => by
      rw [touched_other hsane ht (hrival u (by simp)) hv]
      rfl
    exact ⟨hdown.trans (hdown'.mono hother), htop.trans (htop'.mono hother)⟩

end Run

/-- The counterpart that is found lies in its own list. -/
def Tile.Holds (sv : Server) (tile : Tile) (p : Tree → Bool) (e : Tree) : Prop :=
  tile.down.find? p = some e ∧ (e.item.type sv).alwaysOnTop = false ∨
    tile.down.find? p = none ∧ tile.top.find? p = some e ∧ (e.item.type sv).alwaysOnTop = true

theorem Tile.Layered.holds {tile : Tile} (h : tile.Layered sv) {p : Tree → Bool} {e : Tree}
    (he : tile.find p = some e) : tile.Holds sv p e := by
  rcases Tile.find_cases he with ⟨hdown, -⟩ | ⟨hdown, -, htop⟩
  · exact .inl ⟨hdown, h.down e (List.mem_of_find?_eq_some hdown)⟩
  · exact .inr ⟨hdown, htop, h.top e (List.mem_of_find?_eq_some htop)⟩

theorem Tile.Holds.find {tile : Tile} {p : Tree → Bool} {e : Tree} (h : tile.Holds sv p e) :
    tile.find p = some e ∧ tile.down.any p = !(e.item.type sv).alwaysOnTop := by
  rw [Tile.find, List.find?_append]
  rcases h with ⟨hdown, htop⟩ | ⟨hdown, hfind, htop⟩
  · rw [hdown, htop, any_of_find hdown]
    exact ⟨rfl, rfl⟩
  · rw [hdown, hfind, htop, find_none_iff.mp hdown]
    exact ⟨rfl, rfl⟩

theorem mem_updateFirst {p : Tree → Bool} {x : Tree} {l : List Tree} (h : l.any p = true) :
    x ∈ updateFirst p (fun _ => x) l := by
  induction l with
  | nil => cases h
  | cons u l ih =>
    cases hu : p u with
    | true => simp [updateFirst, hu]
    | false =>
      rw [List.any_cons, hu, Bool.false_or] at h
      simp [updateFirst, hu, ih h]

/-- The counterpart that takes a saved item comes to the list of its new type. -/
theorem Takes.mem_landed {t e : Tree} {tile tile' : Tile} (h : Takes sv t tile tile')
    (he : tile.Holds sv (isCounterpart sv t.item.id) e) :
    landed sv t e ∈ if (t.item.type sv).alwaysOnTop then tile'.top else tile'.down := by
  obtain ⟨hfind, hany⟩ := he.find
  cases h with
  | absent hnone =>
    rw [hnone] at hfind
    cases hfind
  | @misplaced e' hfind' hplace =>
    rw [hfind] at hfind'
    cases hfind'
    rw [hplace] at hany
    cases h : (e.item.type sv).alwaysOnTop <;> simp [h] at hany
  | @inPlace e' hfind' hlayer =>
    rw [hfind] at hfind'
    cases hfind'
    rw [← hlayer]
    unfold Tile.updateFirst
    rcases he with ⟨hdown, htop⟩ | ⟨hdown, htop, hon⟩
    · rw [htop, if_neg Bool.false_ne_true, if_pos (any_of_find hdown)]
      exact mem_updateFirst (any_of_find hdown)
    · rw [hon, if_pos rfl, if_neg (by rw [find_none_iff.mp hdown]; decide)]
      exact mem_updateFirst (any_of_find htop)
  | @lifts e' before hdown' _ ht =>
    rw [ht, if_pos rfl]
    rcases he with ⟨hdown, -⟩ | ⟨hdown, -⟩
    · rw [hdown] at hdown'
      cases hdown'
      exact mem_insertBy before _ _
    · rw [hdown] at hdown'
      cases hdown'
  | @lowers e' hdown' htop' _ ht =>
    rw [ht, if_neg Bool.false_ne_true]
    rcases he with ⟨hdown, -⟩ | ⟨-, htop, -⟩
    · rw [hdown] at hdown'
      cases hdown'
    · rw [htop] at htop'
      cases htop'
      exact List.mem_cons_self

/-- It is still the first one when its layer stays the same. -/
theorem Takes.find_landed (hsane : sv.Sane) {t e : Tree} (ht : Loadable sv t) {tile tile' : Tile}
    (h : Takes sv t tile tile') (he : tile.Holds sv (isCounterpart sv t.item.id) e)
    (hlayer : (e.item.type sv).alwaysOnTop = (t.item.type sv).alwaysOnTop) :
    tile'.find (isCounterpart sv t.item.id) = some (landed sv t e) := by
  obtain ⟨hfind, hany⟩ := he.find
  cases h with
  | absent hnone =>
    rw [hnone] at hfind
    cases hfind
  | @misplaced e' hfind' hplace =>
    rw [hfind] at hfind'
    cases hfind'
    rw [hplace] at hany
    cases h : (e.item.type sv).alwaysOnTop <;> simp [h] at hany
  | @inPlace e' hfind' =>
    rw [hfind] at hfind'
    cases hfind'
    exact Tile.updateFirst_find (landed_counterpart hsane ht e) hfind
  | @lifts e' before hdown' htop ht =>
    rcases he with ⟨hdown, hon⟩ | ⟨hdown, -⟩
    · rw [hon, ht] at hlayer
      cases hlayer
    · rw [hdown] at hdown'
      cases hdown'
  | @lowers e' hdown' htop' _ ht =>
    rcases he with ⟨hdown, -⟩ | ⟨-, -, hon⟩
    · rw [hdown] at hdown'
      cases hdown'
    · rw [hon, ht] at hlayer
      cases hlayer

/-- An item that is not created ends in its counterpart, unless another one is read into it, too. -/
theorem receiveAll_landed (hsane : sv.Sane) {t e : Tree} (ht : isCreated sv t = false) {l₁ l₂ : List Tree}
    (hl : ∀ u ∈ l₁ ++ t :: l₂, Loadable sv u ∧ (u.item.type sv).group ≠ .ground)
    (hrival : ∀ u ∈ l₁ ++ l₂, isCreated sv u = false → ¬ Rival sv t u) {base : Tile}
    (hsize : base.size + (created sv (l₁ ++ t :: l₂)).length ≤ 0xFFFF)
    (he : base.Holds sv (isCounterpart sv t.item.id) e) :
    (landed sv t e ∈ if (t.item.type sv).alwaysOnTop then (base.receiveAll sv (l₁ ++ t :: l₂)).top
      else (base.receiveAll sv (l₁ ++ t :: l₂)).down) ∧
      ((e.item.type sv).alwaysOnTop = (t.item.type sv).alwaysOnTop →
        (base.receiveAll sv (l₁ ++ t :: l₂)).find (isCounterpart sv t.item.id) = some (landed sv t e)) := by
  have happend : base.receiveAll sv (l₁ ++ t :: l₂) =
      ((base.receiveAll sv l₂).receive sv t).receiveAll sv l₁ := List.foldr_append
  have hcount : (created sv (l₁ ++ t :: l₂)).length = (created sv l₁).length + (created sv l₂).length := by
    rw [created, List.filter_append, List.length_append, List.filter_cons_of_neg (by rw [ht]; decide)]
    rfl
  obtain ⟨hload, hground⟩ := hl t (by simp)
  have hl₂ : ∀ u ∈ l₂, Loadable sv u ∧ (u.item.type sv).group ≠ .ground :=
    fun u hu => hl u (by simp [hu])
  have hbefore := receiveAll_keeps base hsane hl₂ (by omega) ht
    fun u hu => hrival u (by simp [hu])
  have hsize₂ := receiveAll_size base hsane hl₂ (by omega)
  have hself : ∀ v, (!isCounterpart sv t.item.id v) = true → isCounterpart sv t.item.id v = false :=
    fun v hv => by simpa using hv
  have htakes := receive_takes hsane hload hground ht (hsize₂.trans (by omega))
  have hheld : (base.receiveAll sv l₂).Holds sv (isCounterpart sv t.item.id) e := by
    unfold Tile.Holds at he ⊢
    rwa [hbefore.1.find _ hself, hbefore.2.find _ hself]
  have hmem := htakes.mem_landed hheld
  obtain ⟨-, -, hsize'⟩ := htakes.keeps hsane hload
  have hafter := receiveAll_keeps ((base.receiveAll sv l₂).receive sv t) hsane (l := l₁)
    (fun u hu => hl u (by simp [hu])) (by omega) ht
    fun u hu => hrival u (by simp [hu])
  have hown : (!isCounterpart sv t.item.id (landed sv t e)) = false := by
    rw [landed_counterpart hsane hload]
    rfl
  rw [happend]
  refine ⟨?_, fun hlayer => ?_⟩
  · split_ifs at hmem ⊢
    · exact hafter.2.mem _ hown hmem
    · exact hafter.1.mem _ hown hmem
  · have hfind := htakes.find_landed hsane hload hheld hlayer
    rw [Tile.find, List.find?_append] at hfind ⊢
    rw [hafter.1.find _ hself, hafter.2.find _ hself]
    exact hfind

end Tiles

/-! ## What comes back -/

/-- What the new item has of the saved one. A door writes nothing of its own, and a bed
only who sleeps there, as long as the player exists, and since when. -/
def KeptItem (sv : Server) (x y : Item) : Prop :=
  match x.classOf sv with
  | .door => y.id = x.id
  | .bed => y.id = x.id ∧ y.sleepStart = x.sleepStart ∧
      (sv.getNameByGuid x.sleeperGUID ≠ [] → y.sleeperGUID = x.sleeperGUID)
  | .teleport => Item.Kept sv x y ∧ y.destPos = x.destPos
  | _ => Item.Kept sv x y

/-- The same items in the same places. -/
inductive KeptTree (sv : Server) : Tree → Tree → Prop
  | node {x y : Item} {l m : List Tree} (item : KeptItem sv x y) (children : List.Forall₂ (KeptTree sv) l m) :
    KeptTree sv (.node x l) (.node y m)

section Kept
variable {sv : Server}

theorem new_bed (id n : ℕ) : (Item.new sv id n).sleepStart = 0 ∧ (Item.new sv id n).sleeperGUID = 0 := by
  unfold Item.new
  dsimp only
  split_ifs <;> exact ⟨rfl, rfl⟩

theorem copyClass_kept {x : Item} (hx : x.InClassRange)
    (hreg : x.classOf sv ≠ .door → x.classOf sv ≠ .bed → Item.Regular sv x) (n : ℕ) :
    KeptItem sv x (x.copyClass sv (Item.new sv x.id n)) := by
  have hid : (x.copyClass sv (Item.new sv x.id n)).id = x.id :=
    (Item.copyClass_id _ _).trans (Item.new_sameTexts sv x.id n).id
  unfold KeptItem
  cases hc : x.classOf sv with
  | door => exact hid
  | bed =>
    refine ⟨hid, ?_, ?_⟩
    · unfold Item.copyClass
      simp only [hc, ne_eq, ite_not]
      split_ifs with hstart
      · rw [hstart, (new_bed x.id n).1]
      · unfold Item.setSleeper Item.setStrAttr
        dsimp only
        split_ifs <;> rw [hstart, (new_bed x.id n).1]
      · rfl
      · rfl
    · intro hname
      unfold Item.copyClass
      simp only [hc, Item.setSleeper]
      split_ifs with hstart hsleeper
      all_goals simp_all [new_bed]
  | teleport =>
    simp only [Item.copyClass, hc]
    have hkept := Item.copyAttr_kept n hx.toInRange (hreg (by simp [hc]) (by simp [hc]))
    exact ⟨⟨hkept.id, hkept.count, hkept.subType, hkept.uniqueId, hkept.int, hkept.hasInt, hkept.str, hkept.custom⟩,
      trivial⟩
  | _ =>
    simp only [Item.copyClass, hc]
    exact Item.copyAttr_kept n hx.toInRange (hreg (by simp [hc]) (by simp [hc]))

theorem KeptItem.count_reset {x y : Item} (h : KeptItem sv x y) :
    KeptItem sv x { y with serializationCount := 0 } := by
  unfold KeptItem at h ⊢
  cases hc : x.classOf sv with
  | door => rw [hc] at h; exact h
  | bed => rw [hc] at h; exact h
  | teleport =>
    rw [hc] at h
    obtain ⟨h, hdest⟩ := h
    exact ⟨⟨h.id, h.count, h.subType, h.uniqueId, h.int, h.hasInt, h.str, h.custom⟩, hdest⟩
  | _ =>
    rw [hc] at h
    exact ⟨h.id, h.count, h.subType, h.uniqueId, h.int, h.hasInt, h.str, h.custom⟩

theorem reloadAll_kept {l : List Tree} (h : ∀ t ∈ l, KeptTree sv t (reload sv t)) :
    List.Forall₂ (KeptTree sv) l (reloadAll sv l) := by
  induction l with
  | nil => exact .nil
  | cons t l ih => exact .cons (h t (by simp)) (ih fun u hu => h u (List.mem_cons_of_mem t hu))

theorem reload_kept {t : Tree} (ht : Loadable sv t) : KeptTree sv t (reload sv t) := by
  induction ht with
  | @node x l hrange _ hcreate hregular _ _ _ _ ih =>
    obtain ⟨n, hcreate⟩ := hcreate
    have hkept : KeptItem sv x (x.copyClass sv (Item.new sv x.id n)) :=
      copyClass_kept hrange hregular n
    simp only [reload, hcreate, Option.getD_some]
    refine .node ?_ (reloadAll_kept ih)
    split_ifs
    · exact hkept.count_reset
    · exact hkept

theorem map_reload_kept {l : List Tree} (h : ∀ t ∈ l, Loadable sv t) :
    List.Forall₂ (KeptTree sv) l (l.map (reload sv)) := by
  rw [List.forall₂_map_right_iff, List.forall₂_same]
  exact fun t ht => reload_kept (h t ht)

theorem isSaved_of_created {t : Tree} (h : isCreated sv t = true) : isSaved sv t = true := by
  simp only [isCreated, Bool.or_eq_true] at h
  simp only [isSaved, Bool.or_eq_true]
  tauto

theorem created_saved (l : List Tree) : created sv (l.filter (isSaved sv)) = created sv l := by
  rw [created, List.filter_filter, created]
  refine List.filter_congr fun t _ => ?_
  by_cases h : isCreated sv t = true
  · rw [h, isSaved_of_created h, Bool.and_self]
  · rw [Bool.not_eq_true] at h
    rw [h, Bool.false_and]

/-- A house tile that is saved, and what the map puts in its place before it is loaded. -/
structure Savable (sv : Server) (tile base : Tile) : Prop where
  position : tile.position.1 < 256 ^ 2 ∧ tile.position.2.1 < 256 ^ 2 ∧ tile.position.2.2 < 256 ^ 1
  loadable : ∀ t ∈ tile.down ++ tile.top, isSaved sv t = true → Loadable sv t
  down : ∀ t ∈ tile.down, isSaved sv t = true → IsDown sv t
  top : ∀ t ∈ tile.top, isSaved sv t = true → IsTop sv t
  order : (created sv tile.top).Pairwise fun t u =>
    (t.item.type sv).alwaysOnTopOrder < (u.item.type sv).alwaysOnTopOrder
  size : tile.size ≤ 0xFFFF
  /-- the map has no items in houses that are created -/
  stationary : created sv (base.down ++ base.top) = []
  room : base.size + (created sv (tile.down ++ tile.top)).length ≤ 0xFFFF

/-- The items that `saveTile` writes, the last one first. -/
def saved (sv : Server) (tile : Tile) : List Tree := (tile.down ++ tile.top).filter (isSaved sv)

theorem loadTile_saved (hsane : sv.Sane) {tile base : Tile} (h : Savable sv tile base) (hsome : saved sv tile ≠ [])
    {getTile : ℕ × ℕ × ℕ → Option Tile} (hget : getTile tile.position = some base) (r : Bytes) :
    loadTile sv getTile (saveTile sv tile ++ r) = some (base.receiveAll sv (saved sv tile), r) := by
  obtain ⟨hx, hy, hz⟩ := h.position
  have hcount : (saved sv tile).length < 2 ^ 16 := by
    have hle : (saved sv tile).length ≤ (tile.down ++ tile.top).length := List.length_filter_le _ _
    have hsize : tile.down.length + tile.top.length ≤ 0xFFFF := h.size
    rw [List.length_append] at hle
    omega
  have hload : ∀ t ∈ (saved sv tile).reverse, Loadable sv t := by
    intro t ht
    obtain ⟨hmem, hsaved⟩ := List.mem_filter.mp (List.mem_reverse.mp ht)
    exact h.loadable t hmem hsaved
  have hempty : (saved sv tile).reverse.isEmpty = false := by simpa using hsome
  have hitems : loadItems sv (saved sv tile).reverse.length base ((saved sv tile).reverse.flatMap (saveItem sv) ++ r) =
      (base.receiveAll sv (saved sv tile), r) := by
    rw [loadItems_saved hsane hload, List.foldl_reverse]
    rfl
  have hbytes : saveTile sv tile = encode 2 tile.position.1 ++ (encode 2 tile.position.2.1 ++
      (encode 1 tile.position.2.2 ++ (encode 4 ((saved sv tile).reverse.length % 2 ^ 16) ++
        (saved sv tile).reverse.flatMap (saveItem sv)))) := by
    rw [saveTile, show ((tile.down ++ tile.top).filter (isSaved sv)) = saved sv tile from rfl, hempty]
    rfl
  have hmod : (saved sv tile).reverse.length % 2 ^ 16 % 256 ^ 4 = (saved sv tile).reverse.length := by
    rw [List.length_reverse]
    omega
  rw [hbytes]
  simp only [loadTile, List.append_assoc, read_encode, Option.bind_some, Option.map_some, hmod,
    Nat.mod_eq_of_lt hx, Nat.mod_eq_of_lt hy, Nat.mod_eq_of_lt hz, hget, hitems]

/-- What a tile of the map must have once the saved items `below` and `above` are read into it.
Those that are created are there with what is in them, in their order, and nothing else is new.
One that stays where it is ends in the item that the map has there, if there is one and no other
saved item is read into it; where that one does not change between the top items and the others,
it is still the first of its kind. -/
structure Recovered (sv : Server) (below above : List Tree) (base final : Tile) : Prop where
  down : List.Forall₂ (KeptTree sv) (created sv below) (created sv final.down)
  top : List.Forall₂ (KeptTree sv) (created sv above) (created sv final.top)
  size : final.size = base.size + (created sv (below ++ above)).length
  stationary : base.Layered sv → ∀ l₁ t l₂ e, below ++ above = l₁ ++ t :: l₂ → isCreated sv t = false →
    (∀ u ∈ l₁ ++ l₂, isCreated sv u = false → ¬ Rival sv t u) →
    base.find (isCounterpart sv t.item.id) = some e →
    (landed sv t e ∈ if (t.item.type sv).alwaysOnTop then final.top else final.down) ∧
      ((e.item.type sv).alwaysOnTop = (t.item.type sv).alwaysOnTop →
        final.find (isCounterpart sv t.item.id) = some (landed sv t e))

def Tile.savedDown (sv : Server) (tile : Tile) : List Tree := tile.down.filter (isSaved sv)

def Tile.savedTop (sv : Server) (tile : Tile) : List Tree := tile.top.filter (isSaved sv)

theorem receiveAll_recovered (hsane : sv.Sane) {tile base : Tile} (h : Savable sv tile base) :
    Recovered sv (tile.savedDown sv) (tile.savedTop sv) base (base.receiveAll sv (saved sv tile)) := by
  have hload : ∀ t ∈ saved sv tile, Loadable sv t := fun t ht =>
    h.loadable t (List.mem_filter.mp ht).1 (List.mem_filter.mp ht).2
  have hsplit : saved sv tile = tile.savedDown sv ++ tile.savedTop sv := List.filter_append _ _
  have happend : base.receiveAll sv (saved sv tile) =
      (base.receiveAll sv (tile.savedTop sv)).receiveAll sv (tile.savedDown sv) := by
    rw [hsplit]
    exact List.foldr_append
  obtain ⟨hbase, hbase'⟩ : created sv base.down = [] ∧ created sv base.top = [] := by
    have hnone := h.stationary
    rw [created, List.filter_append, List.append_eq_nil_iff] at hnone
    exact hnone
  have hroom : base.size + ((created sv (tile.savedDown sv)).length + (created sv (tile.savedTop sv)).length) ≤
      0xFFFF := by
    have hroom := h.room
    rw [created, List.filter_append, List.length_append] at hroom
    rw [Tile.savedDown, Tile.savedTop, created_saved, created_saved]
    exact hroom
  have hcount : (created sv (tile.savedDown sv ++ tile.savedTop sv)).length =
      (created sv (tile.savedDown sv)).length + (created sv (tile.savedTop sv)).length := by
    rw [created, List.filter_append, List.length_append]
    rfl
  have hdowns : ∀ t ∈ tile.savedDown sv, IsDown sv t := fun t ht =>
    h.down t (List.mem_filter.mp ht).1 (List.mem_filter.mp ht).2
  have htops : ∀ t ∈ tile.savedTop sv, IsTop sv t := fun t ht =>
    h.top t (List.mem_filter.mp ht).1 (List.mem_filter.mp ht).2
  have hloadDown : ∀ t ∈ tile.savedDown sv, Loadable sv t := fun t ht =>
    hload t (by rw [hsplit]; exact List.mem_append_left _ ht)
  have hloadTop : ∀ t ∈ tile.savedTop sv, Loadable sv t := fun t ht =>
    hload t (by rw [hsplit]; exact List.mem_append_right _ ht)
  -- the top items are read first
  obtain ⟨hdown, htop, hsize⟩ := receiveAll_top hsane hbase' hloadTop htops
    (by rw [Tile.savedTop, created_saved]; exact h.order) (by omega)
  obtain ⟨hdown', htop', hsize'⟩ := receiveAll_down hsane hloadDown hdowns (by rw [hsize]; omega)
  rw [← happend, hdown, hbase, List.append_nil] at hdown'
  rw [← happend, htop] at htop'
  rw [← happend, hsize] at hsize'
  refine ⟨?_, ?_, by omega, fun hlayered l₁ t l₂ e hparts hfixed hrival hfind => ?_⟩
  · rw [hdown']
    exact map_reload_kept fun t ht => hloadDown t (List.mem_filter.mp ht).1
  · rw [htop']
    exact map_reload_kept fun t ht => hloadTop t (List.mem_filter.mp ht).1
  · have hplain : ∀ u ∈ saved sv tile, Loadable sv u ∧ (u.item.type sv).group ≠ .ground := by
      intro u hu
      refine ⟨hload u hu, ?_⟩
      rw [hsplit] at hu
      exact (List.mem_append.mp hu).elim (fun hu => (hdowns u hu).1) fun hu => (htops u hu).1
    rw [hparts] at hcount
    rw [hsplit, hparts] at hplain ⊢
    have hsize : base.size + (created sv (l₁ ++ t :: l₂)).length ≤ 0xFFFF := by omega
    exact receiveAll_landed hsane hfixed hplain hrival hsize (hlayered.holds hfind)

end Kept

/-- A bag, a blackboard that hangs on the wall, and things that fit into the bag. -/
def furniture : Server where
  items id :=
    if id = 1987 then { id, group := .container }
    else if id = 1810 then { id, moveable := false, canWriteText := true }
    else { id }

theorem furniture_sane : furniture.Sane where
  id id := by
    unfold furniture
    dsimp only
    split_ifs <;> exact .inr rfl
  holder id h := by
    unfold furniture at h ⊢
    dsimp only at h ⊢
    split_ifs at h ⊢ <;> simp_all
  fixed id h := by
    unfold furniture at h ⊢
    dsimp only at h ⊢
    split_ifs at h <;> simp_all

theorem plain_inClassRange (id : ℕ) : Item.InClassRange { id } where
  count := by simp
  int a v h := by cases h
  str a v h := by cases h
  size m h := by cases h
  keys m h := by cases h
  entries m h := by cases h
  sleeper := by simp
  sleepStart := by simp
  destPos := by simp

def bagWithSword : Tree := .node { id := 1987 } [.node { id := 2400 } []]
def blackboard : Tree := .node { id := 1810 } []

theorem blackboard_loadable : Loadable furniture blackboard :=
  .node (plain_inClassRange 1810) (by decide) ⟨0, rfl⟩
    (fun _ _ => ⟨by decide, by decide, by decide⟩) (by decide)
    (fun _ => rfl) (by decide) (by simp)

theorem thing_loadable {id : ℕ} (hid : id < 256 ^ 2) (hitems : furniture.items id = { id })
    (hcreate : Item.create furniture id = some (Item.new furniture id 0)) : Loadable furniture (.node { id } []) := by
  have htype : ({ id } : Item).type furniture = { id } := hitems
  have hclass : ({ id } : Item).classOf furniture = .item := by rw [Item.classOf, htype]; rfl
  refine .node (plain_inClassRange id) hid ⟨0, hcreate⟩ (fun _ _ => ⟨?_, ?_, fun _ => rfl⟩) ?_ (fun _ => rfl)
    (by simp) (by simp)
  · rw [htype]
    simp [Item.getCharges, Item.getIntAttr]
  · rw [htype]
    simp [Decay.ItemType.duration]
  · rw [hclass]
    decide

theorem bagWithSword_loadable : Loadable furniture bagWithSword := by
  refine .node (plain_inClassRange 1987) (by decide) ⟨0, rfl⟩
    (fun _ _ => ⟨by decide, by decide, by decide⟩)
    (by decide) (by decide) (by decide) fun t ht => ?_
  obtain rfl := List.mem_singleton.mp ht
  exact thing_loadable (by decide) rfl rfl

def study : Tile where
  position := (100, 200, 7)
  down := [bagWithSword, blackboard]

def studyOnMap : Tile where
  position := (100, 200, 7)
  down := [blackboard]

theorem study_savable : Savable furniture study studyOnMap where
  position := by decide
  loadable t ht _ := by
    have hmem : t = bagWithSword ∨ t = blackboard := by simpa [study] using ht
    rcases hmem with rfl | rfl
    · exact bagWithSword_loadable
    · exact blackboard_loadable
  down t ht _ := by
    have hmem : t = bagWithSword ∨ t = blackboard := by simpa [study] using ht
    rcases hmem with rfl | rfl
    · exact ⟨by decide, by decide⟩
    · exact ⟨by decide, by decide⟩
  top t ht _ := by cases ht
  order := List.Pairwise.nil
  size := by decide
  stationary := rfl
  room := by decide

end ForgottenServer.Save
