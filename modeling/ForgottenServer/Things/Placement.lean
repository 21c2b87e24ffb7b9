import ForgottenServer.Things.Putting
import ForgottenServer.Things.Sizes
import ForgottenServer.Things.Transform

/-! # Placements of items

Who lies where, as one value. Cylinders replace one item of it by another, take
one out or put one in; nothing else moves and no other item changes. -/
namespace ForgottenServer.Things
open ForgottenServer.Lib

/-! ## Placements -/

/-- The lists of all cylinders. -/
@[ext] structure Placement where
  itemlist : ℕ → List ℕ
  inventory : ℕ → ℕ → Option ℕ
  ground : ℕ → Option ℕ
  topItems : ℕ → List ℕ
  downItems : ℕ → List ℕ

namespace Placement

/-- The same change of every list and of every single place. -/
def map (f : List ℕ → List ℕ) (h : Option ℕ → Option ℕ) (p : Placement) : Placement where
  itemlist c := f (p.itemlist c)
  inventory q i := h (p.inventory q i)
  ground t := h (p.ground t)
  topItems t := f (p.topItems t)
  downItems t := f (p.downItems t)

/-- `r'` lies where `r` lay. -/
def replace (p : Placement) (r r' : ℕ) : Placement :=
  p.map (·.replace r r') fun x => if x = some r then some r' else x

def erase (p : Placement) (r : ℕ) : Placement := p.map (·.erase r) (·.filter (· ≠ r))

/-- What lies where apart from some items. -/
def without (p : Placement) (out : List ℕ) : Placement :=
  p.map (·.filter (· ∉ out)) (·.filter (· ∉ out))

def children (p : Placement) : Cylinder → List ℕ
  | .container c => p.itemlist c
  | .player q => slots.filterMap (p.inventory q)
  | .tile t => (p.ground t).toList ++ p.topItems t ++ p.downItems t

theorem replace_self (p : Placement) (r : ℕ) : p.replace r r = p := by
  have hslot : ∀ x : Option ℕ, (if x = some r then some r else x) = x := by
    intro x
    split
    · rename_i h
      exact h.symm
    · rfl
  ext1
  all_goals
    funext
    simp only [replace, map, Substitution.replace_self, hslot]

end Placement

namespace World
variable {rules : Rules} {w w' w'' : World} {r r' : ℕ}

def placement (w : World) : Placement where
  itemlist := w.itemlist
  inventory p i := if i ∈ slots then (w.player p).inventory i else none
  ground t := (w.tile t).ground
  topItems t := (w.tile t).topItems
  downItems t := (w.tile t).downItems

/-- Weights and parents aside, nothing changes. -/
structure Still (w w' : World) : Prop extends Alike w w' where
  attributes : ∀ x, (w'.item x).attributes = (w.item x).attributes

namespace Still

theorem same (w : World) : Still w w := ⟨.same w, fun _ => rfl⟩

theorem trans (h : Still w w') (h' : Still w' w'') : Still w w'' :=
  ⟨h.toAlike.trans h'.toAlike, fun x => (h'.attributes x).trans (h.attributes x)⟩

theorem setParent (r : ℕ) (c : Option Cylinder) : Still w (w.setParent r c) :=
  ⟨.setParent r c, fun _ => setItem_item Item.attributes fun _ => rfl⟩

theorem updateItemWeight (fuel : ℕ) (w : World) (c : ℕ) (diff : ℤ) : Still w (updateItemWeight fuel w c diff) :=
  ⟨.updateItemWeight fuel w c diff, fun x => updateItemWeight_item Item.attributes (fun _ _ => rfl) fuel w c diff x⟩

theorem updateInventoryWeight (p : ℕ) : Still w (w.updateInventoryWeight rules p) := by
  refine ⟨.updateInventoryWeight p, fun x => ?_⟩
  unfold World.updateInventoryWeight
  split <;> rfl

theorem notify (c : Cylinder) : Still w (w.notify rules c) := by
  unfold World.notify
  split
  · exact updateInventoryWeight _
  · split
    · split
      · exact updateInventoryWeight _
      · exact same w
    · exact same w
  · exact same w

theorem plain (h : Still w w') (x : ℕ) : (w'.item x).plain = (w.item x).plain := by
  simp only [Item.plain, h.id, h.count, h.attributes]

end Still

theorem SameLists.placement (h : SameLists w w') : w'.placement = w.placement := by
  have hlist : w'.itemlist = w.itemlist := funext h.itemlist
  simp only [World.placement, hlist, h.inventory, h.tile]

theorem children_placement (c : Cylinder) : w.placement.children c = w.children c := by
  cases c with
  | container d => rfl
  | player p => exact List.filterMap_congr fun i hi => if_pos hi
  | tile t => rfl

/-- What is taken out lies nowhere. -/
theorem loose_of_erase (h : w'.placement = w.placement.erase r) (hitem : ∀ c, (w.itemlist c).Nodup)
    (htile : ∀ t, (w.children (.tile t)).Nodup) (c : Cylinder) : r ∉ w'.children c := by
  rw [← children_placement, h]
  cases c with
  | container d => exact (hitem d).not_mem_erase
  | player p =>
    intro hr
    obtain ⟨i, -, hi⟩ := List.mem_filterMap.mp hr
    simp only [Placement.erase, Placement.map] at hi
    rw [Option.filter_eq_some_iff] at hi
    simp at hi
  | tile t =>
    obtain ⟨hfront, hdown, -⟩ := List.nodup_append.mp (htile t)
    obtain ⟨-, htop, -⟩ := List.nodup_append.mp hfront
    simp only [Placement.children, Placement.erase, Placement.map, List.mem_append, not_or]
    refine ⟨⟨fun hr => ?_, htop.not_mem_erase⟩, hdown.not_mem_erase⟩
    rw [Option.mem_toList, Option.filter_eq_some_iff] at hr
    simp at hr

/-! ## One cylinder changes -/

section Only
variable {f : List ℕ → List ℕ} {h : Option ℕ → Option ℕ}

/-- Only the lists that hold `r` change. -/
structure Local (r : ℕ) (f : List ℕ → List ℕ) (h : Option ℕ → Option ℕ) : Prop where
  list : ∀ l, r ∉ l → f l = l
  slot : ∀ x, x ≠ some r → h x = x

theorem Local.replace (r r' : ℕ) : Local r (·.replace r r') fun x => if x = some r then some r' else x :=
  ⟨fun _ hl => List.replace_of_not_mem hl, fun _ hx => if_neg hx⟩

theorem Local.erase (r : ℕ) : Local r (·.erase r) (·.filter (· ≠ r)) := by
  refine ⟨fun l hl => List.erase_of_not_mem hl, fun x hx => ?_⟩
  cases x with
  | none => rfl
  | some y =>
    have hy : y ≠ r := fun e => hx (e ▸ rfl)
    simp [Option.filter, hy]

theorem inventory_ne {c : Cylinder} (hone : ∀ c', r ∈ w.children c' → c' = c) {p : ℕ}
    (hp : .player p ≠ c) (i : ℕ) : (if i ∈ slots then (w.player p).inventory i else none) ≠ some r := by
  split
  · rename_i hi
    exact fun e => hp (hone _ (mem_children_player.mpr ⟨i, hi, e⟩))
  · exact nofun

theorem tile_not_mem {c : Cylinder} (hone : ∀ c', r ∈ w.children c' → c' = c) {t : ℕ} (ht : .tile t ≠ c) :
    (w.tile t).ground ≠ some r ∧ r ∉ (w.tile t).topItems ∧ r ∉ (w.tile t).downItems := by
  have hnot : r ∉ w.children (.tile t) := fun hr => ht (hone _ hr)
  rw [mem_children_tile] at hnot
  exact ⟨fun e => hnot (.inl e), fun e => hnot (.inr (.inl e)), fun e => hnot (.inr (.inr e))⟩

variable (hlocal : Local r f h)
include hlocal

theorem placement_itemlist {c : ℕ} (hone : ∀ c', r ∈ w.children c' → c' = .container c)
    (hother : ∀ d, d ≠ c → w'.itemlist d = w.itemlist d) (hc : w'.itemlist c = f (w.itemlist c))
    (hplayer : ∀ p, (w'.player p).inventory = (w.player p).inventory) (htile : w'.tile = w.tile) :
    w'.placement = w.placement.map f h := by
  have hnot := fun t => tile_not_mem hone (t := t) nofun
  ext1
  · funext d
    by_cases hd : d = c
    · subst hd
      exact hc
    · have hr : r ∉ w.itemlist d := fun e => hd (by simpa using hone (.container d) e)
      exact (hother d hd).trans (hlocal.list _ hr).symm
  · funext p i
    simp only [placement, Placement.map, hplayer]
    exact (hlocal.slot _ (inventory_ne hone nofun i)).symm
  · funext t
    simp only [placement, Placement.map, htile]
    exact (hlocal.slot _ (hnot t).1).symm
  · funext t
    simp only [placement, Placement.map, htile]
    exact (hlocal.list _ (hnot t).2.1).symm
  · funext t
    simp only [placement, Placement.map, htile]
    exact (hlocal.list _ (hnot t).2.2).symm

theorem placement_inventory {p : ℕ} (hone : ∀ c', r ∈ w.children c' → c' = .player p)
    (hlist : w'.itemlist = w.itemlist) (hother : ∀ q, q ≠ p → (w'.player q).inventory = (w.player q).inventory)
    (hp : ∀ i ∈ slots, (w'.player p).inventory i = h ((w.player p).inventory i)) (htile : w'.tile = w.tile) :
    w'.placement = w.placement.map f h := by
  have hnot := fun t => tile_not_mem hone (t := t) nofun
  ext1
  · funext d
    have hr : r ∉ w.itemlist d := fun e => nomatch hone (.container d) e
    simp only [placement, Placement.map, hlist]
    exact (hlocal.list _ hr).symm
  · funext q i
    by_cases hq : q = p
    · subst hq
      simp only [placement, Placement.map]
      split
      · rename_i hi
        exact hp i hi
      · exact (hlocal.slot none nofun).symm
    · have hne := inventory_ne hone (p := q) (by simpa using hq) i
      simp only [placement, Placement.map, hother q hq]
      exact (hlocal.slot _ hne).symm
  · funext t
    simp only [placement, Placement.map, htile]
    exact (hlocal.slot _ (hnot t).1).symm
  · funext t
    simp only [placement, Placement.map, htile]
    exact (hlocal.list _ (hnot t).2.1).symm
  · funext t
    simp only [placement, Placement.map, htile]
    exact (hlocal.list _ (hnot t).2.2).symm

theorem placement_tile {t : ℕ} (hone : ∀ c', r ∈ w.children c' → c' = .tile t) (hlist : w'.itemlist = w.itemlist)
    (hplayer : ∀ p, (w'.player p).inventory = (w.player p).inventory) (hother : ∀ t', t' ≠ t → w'.tile t' = w.tile t')
    (hground : (w'.tile t).ground = h (w.tile t).ground) (htop : (w'.tile t).topItems = f (w.tile t).topItems)
    (hdown : (w'.tile t).downItems = f (w.tile t).downItems) : w'.placement = w.placement.map f h := by
  have hnot := fun t' (ht : t' ≠ t) => tile_not_mem hone (t := t') (by simpa using ht)
  ext1
  · funext d
    have hr : r ∉ w.itemlist d := fun e => nomatch hone (.container d) e
    simp only [placement, Placement.map, hlist]
    exact (hlocal.list _ hr).symm
  · funext p i
    simp only [placement, Placement.map, hplayer]
    exact (hlocal.slot _ (inventory_ne hone nofun i)).symm
  · funext t'
    by_cases ht : t' = t
    · subst ht
      exact hground
    · simp only [placement, Placement.map, hother t' ht]
      exact (hlocal.slot _ (hnot t' ht).1).symm
  · funext t'
    by_cases ht : t' = t
    · subst ht
      exact htop
    · simp only [placement, Placement.map, hother t' ht]
      exact (hlocal.list _ (hnot t' ht).2.1).symm
  · funext t'
    by_cases ht : t' = t
    · subst ht
      exact hdown
    · simp only [placement, Placement.map, hother t' ht]
      exact (hlocal.list _ (hnot t' ht).2.2).symm

end Only

/-! ## Replacing -/

/-- `r'` lies where `r` lay; no item changes. -/
structure Swapped (w w' : World) (r r' : ℕ) : Prop where
  placement : w'.placement = w.placement.replace r r'
  plain : ∀ x, (w'.item x).plain = (w.item x).plain

theorem Swapped.after (h : Swapped w w' r r') (h' : Still w' w'') : Swapped w w'' r r' :=
  ⟨h'.placement.trans h.placement, fun x => (h'.plain x).trans (h.plain x)⟩

theorem setItemlist_plain (c : ℕ) (l : List ℕ) (x : ℕ) : ((w.setItemlist c l).item x).plain = (w.item x).plain := by
  unfold setItemlist setContainer
  exact setItem_item Item.plain fun _ => rfl

theorem containerReplaceThing_swapped {c : ℕ} (hone : ∀ c', r ∈ w.children c' → c' = .container c)
    (hr : r ∈ w.itemlist c) : Swapped w (w.containerReplaceThing rules c ((w.itemlist c).idxOf r) r') r r' := by
  have hold : (w.itemlist c)[(w.itemlist c).idxOf r]? = some r := by
    rw [List.getElem?_eq_getElem (List.idxOf_lt_length_iff.mpr hr), List.getElem_idxOf]
  have hset := fun d => itemlist_setItemlist (container_of_mem_itemlist hr)
    (l := (w.itemlist c).set ((w.itemlist c).idxOf r) r') d
  have hswap : Swapped w (w.setItemlist c ((w.itemlist c).set ((w.itemlist c).idxOf r) r')) r r' := by
    refine ⟨placement_itemlist (.replace r r') hone (fun d hd => ?_) ?_ (fun _ => rfl) rfl,
      fun x => setItemlist_plain c _ x⟩
    · rw [hset, if_neg hd]
    · rw [hset, if_pos rfl, Substitution.set_idxOf]
  unfold containerReplaceThing
  rw [hold]
  exact ((hswap.after (.setParent _ _)).after (.updateItemWeight _ _ _ _)).after (.setParent _ _)

theorem playerReplaceThing_swapped {p slot : ℕ} (hone : ∀ c', r ∈ w.children c' → c' = .player p)
    (hslot : slot ∈ slots) (hr : (w.player p).inventory slot = some r)
    (honly : ∀ i ∈ slots, (w.player p).inventory i = some r → i = slot) :
    Swapped w (w.playerReplaceThing p slot r') r r' := by
  have hrange : 1 ≤ (slot : ℤ) ∧ (slot : ℤ) ≤ 10 := by
    simp only [slots, List.mem_cons, List.not_mem_nil, or_false] at hslot
    omega
  have hold : w.getInventoryItem p slot = some r := by
    rw [getInventoryItem, if_pos hrange]
    exact hr
  have hstill : Still w (w.setParent r' (some (.player p))) := .setParent _ _
  unfold playerReplaceThing
  rw [hold]
  refine ⟨placement_inventory (.replace r r') hone (funext hstill.itemlist) (fun q hq => ?_)
    (fun i hi => ?_) rfl, hstill.plain⟩
  · show (Function.update w.player p _ q).inventory = _
    rw [Function.update_of_ne hq]
  · show (Function.update w.player p _ p).inventory i = _
    rw [Function.update_self]
    by_cases his : i = slot
    · rw [his, hr, if_pos rfl]
      exact Function.update_self ..
    · rw [if_neg fun e => his (honly i hi e)]
      exact Function.update_of_ne his _ _

theorem tilePut_swapped {t old : ℕ} {f : Tile → Tile} (hone : ∀ c', r ∈ w.children c' → c' = .tile t)
    (hground : (f (w.tile t)).ground = if (w.tile t).ground = some r then some r' else (w.tile t).ground)
    (htop : (f (w.tile t)).topItems = (w.tile t).topItems.replace r r')
    (hdown : (f (w.tile t)).downItems = (w.tile t).downItems.replace r r') :
    Swapped w (w.tilePut t old r' f) r r' := by
  have hset : Swapped w (w.setTile t f) r r' := by
    have htile : (w.setTile t f).tile t = f (w.tile t) := Function.update_self ..
    refine ⟨placement_tile (.replace r r') hone rfl (fun _ => rfl)
      (fun t' ht => Function.update_of_ne ht _ _) ?_ ?_ ?_, fun _ => rfl⟩
    · rw [htile, hground]
    · rw [htile, htop]
    · rw [htile, hdown]
  exact (hset.after (.setParent _ _)).after (.setParent _ _)

theorem tileReplaceThing_above (creatures t pos r : ℕ) :
    w.tileReplaceThing creatures t ((if (w.tile t).ground.isSome then 1 else 0) + pos) r =
      w.tileReplaceAbove creatures t pos r := by
  unfold tileReplaceThing
  cases hg : (w.tile t).ground with
  | none =>
    rw [Option.isSome_none, if_neg (by decide), Nat.zero_add]
  | some old =>
    rw [Option.isSome_some, if_pos rfl, Nat.add_comm]

theorem tile_split {t : ℕ} (hnodup : (w.children (.tile t)).Nodup) :
    ((w.tile t).ground = some r → r ∉ (w.tile t).topItems ∧ r ∉ (w.tile t).downItems) ∧
      (r ∈ (w.tile t).topItems → r ∉ (w.tile t).downItems) := by
  obtain ⟨hfront, -, hdown⟩ := List.nodup_append.mp hnodup
  obtain ⟨-, -, htop⟩ := List.nodup_append.mp hfront
  refine ⟨fun hg => ?_, fun hr hd => hdown r (List.mem_append_right _ hr) r hd rfl⟩
  have hmem : r ∈ (w.tile t).ground.toList := by simp [hg]
  exact ⟨fun hr => htop r hmem r hr rfl, fun hr => hdown r (List.mem_append_left _ hmem) r hr rfl⟩

theorem tileReplaceThing_swapped (creatures r' : ℕ) {t : ℕ} (hone : ∀ c', r ∈ w.children c' → c' = .tile t)
    (hnodup : (w.children (.tile t)).Nodup) :
    ((w.tile t).ground = some r → Swapped w (w.tileReplaceThing creatures t 0 r') r r') ∧
      ((w.tile t).ground ≠ some r → r ∈ (w.tile t).topItems → Swapped w (w.tileReplaceThing creatures t
          ((if (w.tile t).ground.isSome then 1 else 0) + (w.tile t).topItems.idxOf r) r') r r') ∧
      ((w.tile t).ground ≠ some r → r ∈ (w.tile t).downItems → Swapped w
        (w.tileReplaceThing creatures t ((if (w.tile t).ground.isSome then 1 else 0) +
          ((w.tile t).topItems.length + creatures + (w.tile t).downItems.idxOf r)) r') r r') := by
  obtain ⟨hfirst, hsecond⟩ := tile_split (r := r) hnodup
  have hfind : ∀ l : List ℕ, r ∈ l → l[l.idxOf r]? = some r := fun l hr => by
    rw [List.getElem?_eq_getElem (List.idxOf_lt_length_iff.mpr hr), List.getElem_idxOf]
  refine ⟨fun hg => ?_, fun hg hr => ?_, fun hg hr => ?_⟩
  · obtain ⟨htop, hdown⟩ := hfirst hg
    unfold tileReplaceThing
    rw [hg]
    refine tilePut_swapped hone ?_ ?_ ?_
    · rw [hg, if_pos rfl]
    · rw [List.replace_of_not_mem htop]
    · rw [List.replace_of_not_mem hdown]
  · rw [tileReplaceThing_above]
    unfold tileReplaceAbove
    dsimp only
    rw [hfind _ hr]
    refine tilePut_swapped hone (if_neg hg).symm ?_ ?_
    · exact Substitution.set_idxOf _ _ _
    · rw [List.replace_of_not_mem (hsecond hr)]
  · have htop : r ∉ (w.tile t).topItems := fun h => hsecond h hr
    have hbeyond : (w.tile t).topItems[(w.tile t).topItems.length + creatures +
        (w.tile t).downItems.idxOf r]? = none := List.getElem?_eq_none (by omega)
    have hpos : (w.tile t).topItems.length + creatures + (w.tile t).downItems.idxOf r -
        (w.tile t).topItems.length - creatures = (w.tile t).downItems.idxOf r := by omega
    rw [tileReplaceThing_above]
    unfold tileReplaceAbove
    dsimp only
    rw [hbeyond]
    dsimp only
    rw [if_neg (by omega), hpos, hfind _ hr]
    refine tilePut_swapped hone (if_neg hg).symm ?_ ?_
    · rw [List.replace_of_not_mem htop]
    · exact Substitution.set_idxOf _ _ _

/-! ## Removing -/

/-- `r` lies nowhere any more; no item changes. -/
structure Removed (w w' : World) (r : ℕ) : Prop where
  placement : w'.placement = w.placement.erase r
  plain : ∀ x, (w'.item x).plain = (w.item x).plain
  plate : ∀ x, (w'.item x).container.map Container.plate = (w.item x).container.map Container.plate
  parent : (w'.item r).parent = none

theorem containerRemoveThing_removed {c count : ℕ} (hone : ∀ c', r ∈ w.children c' → c' = .container c)
    (hr : r ∈ w.itemlist c) (hpart : w.isPart rules r count = false) :
    Removed w (w.containerRemoveThing rules c r count) r := by
  unfold containerRemoveThing
  rw [if_neg (not_not.mpr hr)]
  dsimp only
  rw [if_neg (by simp [hpart])]
  generalize hw : updateItemWeight w.depth w c (-(w.getWeight rules r : ℤ)) = w₁
  have hstill : Still w (w₁.setParent r none) :=
    (hw ▸ Still.updateItemWeight _ w c _).trans (.setParent r none)
  have hcontainer : ((w₁.setParent r none).item c).container.isSome = true :=
    container_of_mem_itemlist ((hstill.itemlist c).symm ▸ hr)
  have hlist : w₁.itemlist c = w.itemlist c :=
    ((Still.setParent r none).itemlist c).symm.trans (hstill.itemlist c)
  refine ⟨placement_itemlist (.erase r) hone (fun d hd => ?_) ?_ (fun p => ?_) ?_, fun x => ?_, fun x => ?_, ?_⟩
  · rw [itemlist_setItemlist hcontainer, if_neg hd, hstill.itemlist]
  · rw [itemlist_setItemlist hcontainer, if_pos rfl, hlist]
  · exact hstill.inventory p
  · exact hstill.tile
  · exact (setItemlist_plain _ _ x).trans (hstill.plain x)
  · exact ((SameItems.setItemlist c _).plate x).trans (hstill.plate x)
  · have hparent : ∀ (w : World) (l : List ℕ), ((w.setItemlist c l).item r).parent = (w.item r).parent :=
      fun w l => by
        unfold setItemlist setContainer
        exact setItem_item Item.parent fun _ => rfl
    rw [hparent]
    simp [setParent, setItem]

theorem playerRemoveThing_removed {p count : ℕ} (hone : ∀ c', r ∈ w.children c' → c' = .player p)
    (hr : r ∈ w.children (.player p)) (hpart : w.isPart rules r count = false)
    (honly : ∀ i ∈ slots, ∀ j ∈ slots, ∀ x,
      (w.player p).inventory i = some x → (w.player p).inventory j = some x → i = j) :
    Removed w (w.playerRemoveThing rules p r count) r := by
  obtain ⟨i, hi, hx⟩ := mem_children_player.mp hr
  unfold playerRemoveThing
  cases hfind : slots.find? fun slot => (w.player p).inventory slot = some r with
  | none => exact absurd (by simpa using hx) (List.find?_eq_none.mp hfind i hi)
  | some slot =>
    have hslot : (w.player p).inventory slot = some r := by simpa using List.find?_some hfind
    have hin := List.mem_of_find?_eq_some hfind
    have hstill : Still w (w.setParent r none) := .setParent r none
    dsimp only
    rw [if_neg (by simp [hpart])]
    refine ⟨placement_inventory (.erase r) hone (funext hstill.itemlist) (fun q hq => ?_)
      (fun j hj => ?_) rfl, hstill.plain, hstill.plate, by simp [setParent, setPlayer, setItem]⟩
    · show (Function.update w.player p _ q).inventory = _
      rw [Function.update_of_ne hq]
    · show (Function.update w.player p _ p).inventory j = _
      rw [Function.update_self]
      by_cases hjs : j = slot
      · have hnone : (some r).filter (· ≠ r) = none := by simp [Option.filter]
        rw [hjs, hslot, hnone]
        exact Function.update_self ..
      · have hne : (w.player p).inventory j ≠ some r := fun e => hjs (honly j hj slot hin r e hslot)
        rw [(Local.erase r).slot _ hne]
        exact Function.update_of_ne hjs _ _

theorem setTile_removed {t : ℕ} {f : Tile → Tile} (hone : ∀ c', r ∈ w.children c' → c' = .tile t)
    (hground : (f (w.tile t)).ground = (w.tile t).ground.filter (· ≠ r))
    (htop : (f (w.tile t)).topItems = (w.tile t).topItems.erase r)
    (hdown : (f (w.tile t)).downItems = (w.tile t).downItems.erase r) :
    Removed w ((w.setParent r none).setTile t f) r := by
  have hstill : Still w (w.setParent r none) := .setParent r none
  have htile : ((w.setParent r none).setTile t f).tile t = f (w.tile t) := Function.update_self ..
  refine ⟨placement_tile (.erase r) hone (funext hstill.itemlist) (fun _ => rfl)
    (fun t' ht => Function.update_of_ne ht _ _) ?_ ?_ ?_, hstill.plain, hstill.plate,
    by simp [setParent, setTile, setItem]⟩
  · rw [htile, hground]
  · rw [htile, htop]
  · rw [htile, hdown]

theorem tileRemoveThing_removed {t count : ℕ} (hone : ∀ c', r ∈ w.children c' → c' = .tile t)
    (hnodup : (w.children (.tile t)).Nodup) (hr : w.hasThing rules (.tile t) r = true)
    (hpart : w.isPart rules r count = false) : Removed w (w.tileRemoveThing rules t r count) r := by
  obtain ⟨hfirst, hsecond⟩ := tile_split (r := r) hnodup
  unfold tileRemoveThing
  rw [if_neg (by simp [hr])]
  split
  · rename_i hg
    obtain ⟨htop, hdown⟩ := hfirst hg
    refine setTile_removed hone ?_ (List.erase_of_not_mem htop).symm (List.erase_of_not_mem hdown).symm
    rw [hg]
    simp [Option.filter]
  · rename_i hg
    have hground : (w.tile t).ground = (w.tile t).ground.filter (· ≠ r) := ((Local.erase r).slot _ hg).symm
    simp only [hasThing, hg, decide_false, Bool.false_or] at hr
    split
    · rename_i ht
      have hmem : r ∈ (w.tile t).topItems := by simpa [ht] using hr
      exact setTile_removed hone hground rfl (List.erase_of_not_mem (hsecond hmem)).symm
    · rename_i ht
      have hmem : r ∈ (w.tile t).downItems := by simpa [ht] using hr
      rw [if_neg (by simp [hpart])]
      exact setTile_removed hone hground (List.erase_of_not_mem fun h => hsecond h hmem).symm rfl

/-! ## Adding -/

/-- The items that are not in `out` keep their order and stay what they are. -/
structure Keeps (out : List ℕ) (w w' : World) : Prop where
  placement : w'.placement.without out = w.placement.without out
  plain : ∀ x ∉ out, (w'.item x).plain = (w.item x).plain

namespace Keeps
variable {out : List ℕ}

theorem same (w : World) : Keeps out w w := ⟨rfl, fun _ _ => rfl⟩

theorem trans (h : Keeps out w w') (h' : Keeps out w' w'') : Keeps out w w'' :=
  ⟨h'.placement.trans h.placement, fun x hx => (h'.plain x hx).trans (h.plain x hx)⟩

theorem of_still (h : Still w w') : Keeps out w w' := ⟨by rw [h.placement], fun x _ => h.plain x⟩

theorem setTile {t : ℕ} {f : Tile → Tile}
    (hground : (f (w.tile t)).ground.filter (· ∉ out) = (w.tile t).ground.filter (· ∉ out))
    (htop : (f (w.tile t)).topItems.filter (· ∉ out) = (w.tile t).topItems.filter (· ∉ out))
    (hdown : (f (w.tile t)).downItems.filter (· ∉ out) = (w.tile t).downItems.filter (· ∉ out)) :
    Keeps out w (w.setTile t f) := by
  have hother : ∀ t' ≠ t, (w.setTile t f).tile t' = w.tile t' := fun t' ht => Function.update_of_ne ht _ _
  have htile : (w.setTile t f).tile t = f (w.tile t) := Function.update_self ..
  refine ⟨?_, fun _ _ => rfl⟩
  ext1
  · rfl
  · rfl
  all_goals
    funext t'
    simp only [World.placement, Placement.without, Placement.map]
    by_cases ht : t' = t
    · subst ht
      rw [htile]
      assumption
    · rw [hother t' ht]

theorem tileRemoveThing {t old count : ℕ} (hold : old ∈ out) : Keeps out w (w.tileRemoveThing rules t old count) := by
  have hparent : Keeps out w (w.setParent old none) := of_still (.setParent _ _)
  have herase := Substitution.filter_erase hold
  unfold World.tileRemoveThing
  split
  · exact same w
  split
  · rename_i hg
    refine hparent.trans (setTile ?_ rfl rfl)
    show none = Option.filter _ (w.tile t).ground
    rw [hg]
    simp [Option.filter, hold]
  split
  · exact hparent.trans (setTile rfl (herase _) rfl)
  split
  · refine ⟨by rw [(Recounted.setItemCount old _).toSameLists.placement], fun x hx => ?_⟩
    exact setItem_item Item.plain fun e => absurd (e ▸ hold) hx
  · exact hparent.trans (setTile rfl rfl (herase _))

theorem displace {t old : ℕ} (hold : old ∈ out) : Keeps out w (w.displace rules t old) :=
  (tileRemoveThing hold).trans (of_still (.setParent _ _))

end Keeps

theorem type_of_id (h : ∀ x, (w'.item x).id = (w.item x).id) : w'.type rules = w.type rules :=
  funext fun x => by rw [type, type, h]

theorem isSplash_of_id (h : ∀ x, (w'.item x).id = (w.item x).id) : w'.isSplash rules = w.isSplash rules :=
  funext fun x => by rw [isSplash, isSplash, type_of_id h]

theorem isMagicField_of_id (h : ∀ x, (w'.item x).id = (w.item x).id) : w'.isMagicField rules = w.isMagicField rules :=
  funext fun x => by rw [isMagicField, isMagicField, type_of_id h]

variable (rules w) in
/-- The item finds a place: not on a tile that is full or has a field that stays,
and not in an inventory. -/
def accepts (c : Cylinder) (r : ℕ) : Bool :=
  match c with
  | .tile t => ((w.tile t).topItems ++ (w.tile t).downItems).length < 0xFFFF && !w.isWarded rules t r
  | .container c => 0 < w.capacity c
  | .player _ => false

variable (rules w) in
/-- The ground, splash or field that makes room on a tile for a new one. -/
def makesRoom (c : Cylinder) (r : ℕ) : Option ℕ :=
  match c with
  | .tile t => if w.accepts rules (.tile t) r then w.displaced rules t r else none
  | _ => none

theorem accepts_tile {t : ℕ} (h : ¬0xFFFF ≤ ((w.tile t).topItems ++ (w.tile t).downItems).length) :
    w.accepts rules (.tile t) r = !w.isWarded rules t r := by
  simp only [accepts, not_le.mp h, decide_true, Bool.true_and]

theorem filter_insertTop {out : List ℕ} (hr : r ∈ out) (l : List ℕ) :
    (w.insertTop rules r l).filter (· ∉ out) = l.filter (· ∉ out) := by
  have hneg : ∀ l : List ℕ, (r :: l).filter (· ∉ out) = l.filter (· ∉ out) := fun l =>
    List.filter_cons_of_neg (by simpa using hr)
  induction l with
  | nil => exact hneg []
  | cons y l ih =>
    unfold insertTop
    split
    · exact hneg _
    · rw [List.filter_cons, List.filter_cons, ih]

theorem tileAddThing_keeps (rules : Rules) (w : World) (t r : ℕ) :
    Keeps (r :: (w.makesRoom rules (.tile t) r).toList) w (w.tileAddThing rules t r) := by
  generalize hout : r :: (w.makesRoom rules (.tile t) r).toList = out
  have hr : r ∈ out := hout ▸ List.mem_cons_self
  have hstill : Still w (w.setParent r (some (.tile t))) := .setParent _ _
  have hneg : ∀ l : List ℕ, (r :: l).filter (· ∉ out) = l.filter (· ∉ out) := fun l =>
    List.filter_cons_of_neg (by simpa using hr)
  have hdown : ∀ w : World, Keeps out w (w.setTile t fun x => { x with downItems := r :: x.downItems }) :=
    fun w => .setTile rfl rfl (hneg _)
  unfold tileAddThing
  split
  · exact .same w
  rename_i hfull
  have hmem : ∀ old, w.isWarded rules t r = false → w.displaced rules t r = some old → old ∈ out :=
    fun old hwarded hold => by
      rw [← hout, makesRoom, accepts_tile hfull, hwarded, Bool.not_false, if_pos rfl, hold]
      simp
  dsimp only
  have hsplashes : (w.setParent r (some (.tile t))).isSplash rules = w.isSplash rules := isSplash_of_id hstill.id
  have hfields : (w.setParent r (some (.tile t))).isMagicField rules = w.isMagicField rules :=
    isMagicField_of_id hstill.id
  rw [hfields, type_of_id hstill.id]
  split
  · rename_i hground
    have hold : ∀ old, (w.tile t).ground = some old → old ∈ out := fun old hold =>
      hmem old (by simp [isWarded, hground]) (by rw [displaced, if_pos hground, hold])
    have hput : ∀ w' : World, Keeps out w w' → w'.tile t = w.tile t →
        Keeps out w (w'.setTile t ({ · with ground := some r })) := fun w' h ht =>
      h.trans (.setTile (by
        rw [ht]
        cases hg : (w.tile t).ground with
        | none => simp [Option.filter, hr]
        | some old => simp [Option.filter, hr, hold old hg]) rfl rfl)
    split
    · exact hput _ ((Keeps.of_still hstill).trans (.of_still (.setParent _ _))) rfl
    · exact hput _ (.of_still hstill) rfl
  rename_i hground
  split
  · rename_i htop
    have hdrop : Keeps out w ((w.setParent r (some (.tile t))).dropSplash rules t r) := by
      unfold dropSplash
      split
      · rename_i old hold
        split
        · rename_i hsplash
          rw [hsplashes] at hsplash hold
          have hsplash : old ∈ out := hmem old (by simp [isWarded, htop]) (by
            rw [displaced, if_neg hground, if_pos htop, if_pos hsplash]
            exact hold)
          exact (Keeps.of_still hstill).trans (.displace hsplash)
        · exact .of_still hstill
      · exact .of_still hstill
    exact hdrop.trans (.setTile rfl (filter_insertTop hr _) rfl)
  rename_i htop
  split
  · rename_i old hold
    split
    · rename_i hfield
      have hfound : w.displaced rules t r = some old := by
        rw [displaced, if_neg hground, if_neg htop, if_pos hfield]
        exact hold
      split
      · rename_i hrep
        have hout' : old ∈ out := hmem old (by simp [isWarded, hfound, hrep]) hfound
        exact ((Keeps.of_still hstill).trans (.displace hout')).trans (hdown _)
      · exact (Keeps.of_still hstill).trans (.of_still (.setParent _ _))
    · exact (Keeps.of_still hstill).trans (hdown _)
  · exact (Keeps.of_still hstill).trans (hdown _)

/-- `r` is what it was and lies nowhere, whatever its parent. -/
structure Loose (w w' : World) (r : ℕ) (parent : Option Cylinder) : Prop where
  nowhere : ∀ c, r ∉ w'.children c
  plain : (w'.item r).plain = (w.item r).plain
  parent : (w'.item r).parent = parent

/-- `r` is what it was and lies in the cylinder, or nowhere. -/
structure Settled (w w' : World) (c : Cylinder) (r : ℕ) (settled : Bool) : Prop where
  count : ∀ c', (w'.children c').count r = if c' = c ∧ settled then 1 else 0
  plain : (w'.item r).plain = (w.item r).plain
  parent : (w'.item r).parent = if settled then some c else none

theorem Settled.after {settled : Bool} {c : Cylinder} (h : Settled w w' c r settled) (h' : Still w' w'')
    (hparent : (w''.item r).parent = (w'.item r).parent) : Settled w w'' c r settled :=
  ⟨fun c' => by rw [h'.children, h.count], (h'.plain r).trans h.plain, hparent.trans h.parent⟩

theorem Loose.nowhere_settled {c : Cylinder} (h : Loose w w' r none) {settled : Bool}
    (hnot : settled = false) : Settled w w' c r settled := by
  subst hnot
  refine ⟨fun c' => ?_, h.plain, h.parent⟩
  rw [if_neg (by simp), List.count_eq_zero_of_not_mem (h.nowhere c')]

theorem Loose.setTile {t : ℕ} {f : Tile → Tile} {l : List ℕ} (h : Loose w w' r (some (.tile t)))
    (hlist : ((w'.setTile t f).children (.tile t)).Perm (r :: l)) (hl : r ∉ l) {settled : Bool}
    (hsettled : settled = true) : Settled w (w'.setTile t f) (.tile t) r settled := by
  subst hsettled
  refine ⟨fun c' => ?_, h.plain, h.parent⟩
  by_cases hc : c' = .tile t
  · rw [if_pos ⟨hc, rfl⟩, hc, hlist.count_eq, List.count_cons_self, List.count_eq_zero_of_not_mem hl]
  · have hsame : (w'.setTile t f).children c' = w'.children c' := by
      cases c' with
      | container d => rfl
      | player p => rfl
      | tile t' =>
        have ht : t' ≠ t := fun e => hc (e ▸ rfl)
        simp only [children, World.setTile, Function.update_of_ne ht]
    rw [if_neg fun e => hc e.1, hsame, List.count_eq_zero_of_not_mem (h.nowhere c')]

theorem Loose.setParent {p : Option Cylinder} (h : Loose w w' r p) (q : Option Cylinder) :
    Loose w (w'.setParent r q) r q where
  nowhere c := by
    rw [(Still.setParent r q).children]
    exact h.nowhere c
  plain := ((Still.setParent r q).plain r).trans h.plain
  parent := by simp [World.setParent, setItem]

theorem Loose.setParent_other {p : Option Cylinder} {old : ℕ} (h : Loose w w' r p) (hne : r ≠ old)
    (q : Option Cylinder) : Loose w (w'.setParent old q) r p where
  nowhere c := by
    rw [(Still.setParent old q).children]
    exact h.nowhere c
  plain := ((Still.setParent old q).plain r).trans h.plain
  parent := (setItem_item Item.parent fun e => absurd e hne).trans h.parent

theorem displace_mem {t old x : ℕ} {c : Cylinder} (hx : x ∈ (w.displace rules t old).children c) :
    x ∈ w.children c := by
  rw [displace, (Still.setParent old none).children] at hx
  exact (removeThing_thins (.tile t) 1).children c x hx

theorem displace_parent {t old : ℕ} (hne : r ≠ old) :
    ((w.displace rules t old).item r).parent = (w.item r).parent := by
  have hparent : ∀ w : World, ((w.setParent old none).item r).parent = (w.item r).parent := fun w =>
    setItem_item Item.parent fun e => absurd e hne
  rw [displace, hparent]
  unfold tileRemoveThing
  split
  · rfl
  split
  · exact hparent w
  split
  · exact hparent w
  split
  · exact setItem_item Item.parent fun e => absurd e hne
  · exact hparent w

theorem Loose.displace {t old : ℕ} {p : Option Cylinder} (h : Loose w w' r p) (hne : r ≠ old) :
    Loose w (w'.displace rules t old) r p where
  nowhere c hc := h.nowhere c (displace_mem hc)
  plain := ((Keeps.displace (List.mem_singleton_self old)).plain r (by simpa using hne)).trans h.plain
  parent := (displace_parent hne).trans h.parent

theorem tileAddThing_settled {t : ℕ} (hloose : Loose w w r none) :
    Settled w (w.tileAddThing rules t r) (.tile t) r (w.accepts rules (.tile t) r) := by
  have hstill : Still w (w.setParent r (some (.tile t))) := .setParent _ _
  have hself := hloose.setParent (some (.tile t))
  have hfields : (w.setParent r (some (.tile t))).isMagicField rules = w.isMagicField rules :=
    isMagicField_of_id hstill.id
  have hdown : ∀ w' : World, Loose w w' r (some (.tile t)) → w.accepts rules (.tile t) r = true →
      Settled w (w'.setTile t fun x => { x with downItems := r :: x.downItems }) (.tile t) r
        (w.accepts rules (.tile t) r) := fun w' h ha =>
    h.setTile (by
      simp only [children, World.setTile, Function.update_self]
      exact List.perm_middle) (h.nowhere (.tile t)) ha
  have hne : ∀ old ∈ w.children (.tile t), r ≠ old := fun old hold e => hloose.nowhere _ (e ▸ hold)
  unfold tileAddThing
  split
  · rename_i hfull
    refine hloose.nowhere_settled ?_
    simp only [accepts, not_lt.mpr hfull, decide_false, Bool.false_and]
  rename_i hfull
  have hroom : w.accepts rules (.tile t) r = !w.isWarded rules t r := accepts_tile hfull
  dsimp only
  rw [hfields, type_of_id hstill.id]
  split
  · rename_i hground
    have ha : w.accepts rules (.tile t) r = true := by simp [hroom, isWarded, hground]
    have hput : ∀ w' : World, Loose w w' r (some (.tile t)) →
        Settled w (w'.setTile t ({ · with ground := some r })) (.tile t) r
          (w.accepts rules (.tile t) r) := fun w' h => by
      have hnot := h.nowhere (.tile t)
      rw [mem_children_tile] at hnot
      refine h.setTile (l := (w'.tile t).topItems ++ (w'.tile t).downItems) ?_ ?_ ha
      · simp [children, World.setTile]
      · exact fun h => hnot (.inr (List.mem_append.mp h))
    split
    · rename_i old hold
      exact hput _ (hself.setParent_other (hne old (mem_children_tile.mpr (.inl hold))) none)
    · exact hput _ hself
  rename_i hground
  split
  · rename_i htop
    have ha : w.accepts rules (.tile t) r = true := by simp [hroom, isWarded, htop]
    have hdrop : Loose w ((w.setParent r (some (.tile t))).dropSplash rules t r) r (some (.tile t)) := by
      unfold dropSplash
      split
      · rename_i old hold
        split
        · exact hself.displace (hne old (mem_children_tile.mpr (.inr (.inl (List.mem_of_find?_eq_some hold)))))
        · exact hself
      · exact hself
    refine hdrop.setTile ?_ (hdrop.nowhere (.tile t)) ha
    simp only [children, World.setTile, Function.update_self]
    refine ((List.Perm.append_left _ (insertTop_perm r _)).append_right _).trans ?_
    exact List.perm_middle.append_right _
  rename_i htop
  split
  · rename_i old hold
    have hold' := hne old (mem_children_tile.mpr (.inr (.inr (List.mem_of_find?_eq_some hold))))
    split
    · rename_i hfield
      have hfound : w.displaced rules t r = some old := by
        rw [displaced, if_neg hground, if_neg htop, if_pos hfield]
        exact hold
      split
      · rename_i hrep
        exact hdown _ (hself.displace hold') (by simp [hroom, isWarded, hfound, hrep])
      · rename_i hrep
        refine (hself.setParent none).nowhere_settled ?_
        simp [hroom, isWarded, hground, htop, hfound, hrep]
    · rename_i hfield
      have hfound : w.displaced rules t r = none := by
        rw [displaced, if_neg hground, if_neg htop, if_neg hfield]
      exact hdown _ hself (by simp [hroom, isWarded, hfound])
  · rename_i hnone
    have hfound : w.displaced rules t r = none := by
      rw [displaced, if_neg hground, if_neg htop]
      split
      · exact hnone
      · rfl
    exact hdown _ hself (by simp [hroom, isWarded, hfound])

theorem containerAddThing_added {c : ℕ} (hloose : Loose w w r none) : Keeps [r] w (w.containerAddThing rules c 0 r) ∧
      Settled w (w.containerAddThing rules c 0 r) (.container c) r (w.accepts rules (.container c) r) ∧
      (w.accepts rules (.container c) r = true →
        (w.containerAddThing rules c 0 r).itemlist c = r :: w.itemlist c) := by
  have hstill : Still w (w.setParent r (some (.container c))) := .setParent _ _
  unfold containerAddThing
  split
  · rename_i hfull
    have hnot : w.accepts rules (.container c) r = false := by
      simp only [accepts, decide_eq_false_iff_not]
      omega
    exact ⟨.same w, hloose.nowhere_settled hnot, fun h => absurd (hnot.symm.trans h) (by decide)⟩
  rename_i hroom
  have haccepts : w.accepts rules (.container c) r = true := by
    simp only [accepts, decide_eq_true_eq]
    omega
  have hcontainer : ((w.setParent r (some (.container c))).item c).container.isSome = true := by
    have hsome : (w.item c).container.isSome = true := by
      cases hc : (w.item c).container with
      | none => simp [capacity, hc] at hroom
      | some _ => rfl
    have hmap := congrArg Option.isSome (hstill.container c)
    rw [Option.isSome_map, Option.isSome_map] at hmap
    rw [hmap, hsome]
  have hlist := fun d => itemlist_setItemlist hcontainer (l := r :: w.itemlist c) d
  dsimp only
  generalize hw : (w.setParent r (some (.container c))).setItemlist c (r :: w.itemlist c) = w₁ at hlist ⊢
  have hweight : Still w₁ (updateItemWeight w₁.depth w₁ c (w₁.getWeight rules r)) := .updateItemWeight _ _ _ _
  have htile : w₁.tile = w.tile := by rw [← hw]; rfl
  have hplayer : w₁.player = w.player := by rw [← hw]; rfl
  have hother : ∀ d, d ≠ c → w₁.itemlist d = w.itemlist d := fun d hd => by
    rw [hlist, if_neg hd, hstill.itemlist]
  have hself : w₁.itemlist c = r :: w.itemlist c := by rw [hlist, if_pos rfl]
  refine ⟨.trans ⟨?_, fun x _ => ?_⟩ (.of_still hweight), .after ⟨fun c' => ?_, ?_, ?_⟩ hweight
    (updateItemWeight_item Item.parent (fun _ _ => rfl) _ _ _ _ _), fun _ => ?_⟩
  · ext1
    · funext d
      simp only [placement, Placement.without, Placement.map]
      by_cases hd : d = c
      · rw [hd, hself, List.filter_cons_of_neg (by simp)]
      · rw [hother d hd]
    all_goals simp only [placement, Placement.without, Placement.map, htile, hplayer]
  · rw [← hw]
    exact (setItemlist_plain _ _ x).trans (hstill.plain x)
  · cases c' with
    | container d =>
      have hnot : r ∉ w.itemlist d := hloose.nowhere (.container d)
      show (w₁.itemlist d).count r = _
      by_cases hd : d = c
      · subst hd
        rw [hself, List.count_cons_self, List.count_eq_zero_of_not_mem hnot, if_pos ⟨rfl, haccepts⟩]
      · rw [hother d hd, List.count_eq_zero_of_not_mem hnot, if_neg fun h => hd (by simpa using h.1)]
    | player p =>
      have hnot := hloose.nowhere (.player p)
      simp only [children, hplayer] at hnot ⊢
      rw [List.count_eq_zero_of_not_mem hnot, if_neg fun h => by cases h.1]
    | tile t =>
      have hnot := hloose.nowhere (.tile t)
      simp only [children, htile] at hnot ⊢
      rw [List.count_eq_zero_of_not_mem hnot, if_neg fun h => by cases h.1]
  · rw [← hw]
    exact (setItemlist_plain _ _ r).trans (hstill.plain r)
  · rw [if_pos haccepts, ← hw]
    unfold setItemlist setContainer
    rw [setItem_item Item.parent fun _ => rfl]
    simp [setParent, setItem]
  · rw [hweight.itemlist, hself]

theorem addThing_added {c : Cylinder} (hloose : Loose w w r none) :
    Keeps (r :: (w.makesRoom rules c r).toList) w (w.addThing rules c 0 r) ∧
      Settled w (w.addThing rules c 0 r) c r (w.accepts rules c r) ∧
      ∀ d, c = .container d → w.accepts rules c r = true →
        (w.addThing rules c 0 r).itemlist d = r :: w.itemlist d := by
  cases c with
  | container c =>
    obtain ⟨hkeeps, hsettled, hfront⟩ := containerAddThing_added hloose
    refine ⟨hkeeps, hsettled, fun d hd => ?_⟩
    cases hd
    exact hfront
  | player p => exact ⟨.same w, hloose.nowhere_settled rfl, nofun⟩
  | tile t => exact ⟨tileAddThing_keeps rules w t r, tileAddThing_settled hloose, nofun⟩

end World
end ForgottenServer.Things
