import ForgottenServer.Things.Move

/-! # What the changes do to the lists

Weights, attributes and parents aside, a change takes an item out of the one
list that holds it, puts it into another, or sets the count of a stack. -/
namespace ForgottenServer.Things

def Container.core (c : Container) : Container := { c with totalWeight := 0 }

/-- What a container is apart from its contents. -/
def Container.plate (c : Container) : Container := { c with totalWeight := 0, itemlist := [] }

namespace World
variable {rules : Rules} {w w' w'' : World}

/-- The same items in the same lists; counts, weights, attributes and parents may differ. -/
structure SameLists (w w' : World) : Prop where
  next : w'.next = w.next
  id : ∀ x, (w'.item x).id = (w.item x).id
  container : ∀ x, (w'.item x).container.map Container.core = (w.item x).container.map Container.core
  inventory : ∀ p, (w'.player p).inventory = (w.player p).inventory
  tile : w'.tile = w.tile

/-- The same with the same counts. -/
structure Alike (w w' : World) : Prop extends SameLists w w' where
  count : ∀ x, (w'.item x).count = (w.item x).count

/-- The same but for the count of one item. -/
structure Recounted (w w' : World) (r n : ℕ) : Prop extends SameLists w w' where
  count : ∀ x, (w'.item x).count = if x = r then n else (w.item x).count

/-- The same items, wherever they are. -/
structure SameItems (w w' : World) : Prop where
  next : w'.next = w.next
  id : ∀ x, (w'.item x).id = (w.item x).id
  count : ∀ x, (w'.item x).count = (w.item x).count
  plate : ∀ x, (w'.item x).container.map Container.plate = (w.item x).container.map Container.plate

theorem SameItems.trans (h : SameItems w w') (h' : SameItems w' w'') : SameItems w w'' where
  next := h'.next.trans h.next
  id x := (h'.id x).trans (h.id x)
  count x := (h'.count x).trans (h.count x)
  plate x := (h'.plate x).trans (h.plate x)

theorem isStackable_of_id (h : ∀ x, (w'.item x).id = (w.item x).id) (x : ℕ) :
    w'.isStackable rules x = w.isStackable rules x := by
  simp only [isStackable, type, h]

namespace SameLists

theorem trans (h : SameLists w w') (h' : SameLists w' w'') : SameLists w w'' where
  next := h'.next.trans h.next
  id x := (h'.id x).trans (h.id x)
  container x := (h'.container x).trans (h.container x)
  inventory p := (h'.inventory p).trans (h.inventory p)
  tile := h'.tile.trans h.tile

theorem plate (h : SameLists w w') (x : ℕ) :
    (w'.item x).container.map Container.plate = (w.item x).container.map Container.plate := by
  have hmap : ∀ c : Option Container, c.map Container.plate = (c.map Container.core).map Container.plate := by
    intro c
    cases c <;> rfl
  rw [hmap, h.container, ← hmap]

theorem itemlist (h : SameLists w w') (x : ℕ) : w'.itemlist x = w.itemlist x := by
  have hmap : ∀ c : Option Container, c.map Container.itemlist = (c.map Container.core).map Container.itemlist := by
    intro c
    cases c <;> rfl
  simp only [World.itemlist]
  rw [hmap, h.container, ← hmap]

theorem children (h : SameLists w w') (c : Cylinder) : w'.children c = w.children c := by
  cases c with
  | container r => exact h.itemlist r
  | player p => simp only [World.children, h.inventory]
  | tile t => simp only [World.children, h.tile]

theorem of_setItem {r : ℕ} {f : Item → Item} (hid : (f (w.item r)).id = (w.item r).id)
    (hcontainer : (f (w.item r)).container.map Container.core = (w.item r).container.map Container.core) :
    SameLists w (w.setItem r f) := by
  refine ⟨rfl, fun x => ?_, fun x => ?_, fun _ => rfl, rfl⟩
  all_goals
    by_cases hx : x = r
    · subst hx
      simpa [setItem]
    · simp [setItem, hx]

end SameLists

namespace Alike

theorem same (w : World) : Alike w w := ⟨⟨rfl, fun _ => rfl, fun _ => rfl, fun _ => rfl, rfl⟩, fun _ => rfl⟩

theorem trans (h : Alike w w') (h' : Alike w' w'') : Alike w w'' :=
  ⟨h.toSameLists.trans h'.toSameLists, fun x => (h'.count x).trans (h.count x)⟩

theorem sameItems (h : Alike w w') : SameItems w w' := ⟨h.next, h.id, h.count, h.plate⟩

theorem of_setItem {r : ℕ} {f : Item → Item} (hid : (f (w.item r)).id = (w.item r).id)
    (hcount : (f (w.item r)).count = (w.item r).count)
    (hcontainer : (f (w.item r)).container.map Container.core = (w.item r).container.map Container.core) :
    Alike w (w.setItem r f) := by
  refine ⟨.of_setItem hid hcontainer, fun x => ?_⟩
  by_cases hx : x = r
  · subst hx
    simpa [setItem]
  · simp [setItem, hx]

theorem setParent (r : ℕ) (c : Option Cylinder) : Alike w (w.setParent r c) :=
  of_setItem rfl rfl rfl

theorem updateItemWeight (fuel : ℕ) (w : World) (c : ℕ) (diff : ℤ) : Alike w (updateItemWeight fuel w c diff) := by
  induction fuel generalizing w c with
  | zero => exact same w
  | succ fuel ih =>
    have hset : Alike w (w.setContainer c fun x =>
        { x with totalWeight := ((x.totalWeight + diff) % 2 ^ 32).toNat }) := by
      refine of_setItem rfl rfl ?_
      cases (w.item c).container <;> rfl
    unfold World.updateItemWeight
    dsimp only
    split
    · exact hset.trans (ih _ _)
    · exact hset

theorem updateInventoryWeight (p : ℕ) : Alike w (w.updateInventoryWeight rules p) := by
  unfold World.updateInventoryWeight
  split
  · exact same w
  · refine ⟨⟨rfl, fun _ => rfl, fun _ => rfl, fun p' => ?_, rfl⟩, fun _ => rfl⟩
    by_cases hp : p' = p
    · subst hp
      simp [setPlayer]
    · simp [setPlayer, hp]

theorem notify (c : Cylinder) : Alike w (w.notify rules c) := by
  unfold World.notify
  split
  · exact updateInventoryWeight _
  · split
    · split
      · exact updateInventoryWeight _
      · exact same w
    · exact same w
  · exact same w

theorem afterMove (a b : Cylinder) (moveItem updateItem : Option ℕ) :
    Alike w (w.afterMove rules a b moveItem updateItem) := by
  have hnotify : ∀ (w : World) (P : Prop) [Decidable P], Alike w (if P then w.notify rules b else w) := by
    intro w P _
    split
    · exact notify b
    · exact same w
  exact ((notify a).trans (hnotify _ _)).trans (hnotify _ _)

theorem startDecay (moveItem : Option ℕ) : Alike w (w.startDecay moveItem) := by
  unfold World.startDecay
  split
  · refine of_setItem ?_ ?_ rfl
    all_goals
      simp only [Item.lift]
      split <;> rfl
  · exact same w

end Alike

/-! ## Neat lists -/

/-- No list names an item twice, the ground is no stack and the top items belong on top. -/
structure Neat (rules : Rules) (w : World) : Prop where
  itemlist : ∀ c, (w.itemlist c).Nodup
  inventory : ∀ p, ∀ i ∈ slots, ∀ j ∈ slots, ∀ x,
    (w.player p).inventory i = some x → (w.player p).inventory j = some x → i = j
  tile : ∀ t, (w.children (.tile t)).Nodup
  ground : ∀ t g, (w.tile t).ground = some g → w.isStackable rules g = false
  top : ∀ t, ∀ x ∈ (w.tile t).topItems, (w.type rules x).alwaysOnTop = true

theorem SameLists.neat (h : SameLists w w') (hneat : Neat rules w) : Neat rules w' where
  itemlist c := h.itemlist c ▸ hneat.itemlist c
  inventory p := by
    rw [h.inventory]
    exact hneat.inventory p
  tile t := h.children (.tile t) ▸ hneat.tile t
  ground t g hg := by
    rw [isStackable_of_id h.id]
    exact hneat.ground t g (h.tile ▸ hg)
  top t x hx := by
    rw [type, h.id]
    exact hneat.top t x (h.tile ▸ hx)

theorem mem_children_player {p x : ℕ} : x ∈ w.children (.player p) ↔ ∃ i ∈ slots, (w.player p).inventory i = some x :=
      List.mem_filterMap

theorem mem_children_tile {t x : ℕ} : x ∈ w.children (.tile t) ↔
    (w.tile t).ground = some x ∨ x ∈ (w.tile t).topItems ∨ x ∈ (w.tile t).downItems := by
  simp [children]

/-! ## The lists after a change -/

theorem container_of_mem_itemlist {c x : ℕ} (h : x ∈ w.itemlist c) : (w.item c).container.isSome = true := by
  cases hc : (w.item c).container with
  | none => simp [itemlist, hc] at h
  | some _ => rfl

theorem itemlist_setItemlist {c : ℕ} {l : List ℕ} (hc : (w.item c).container.isSome = true) (c' : ℕ) :
    (w.setItemlist c l).itemlist c' = if c' = c then l else w.itemlist c' := by
  obtain ⟨x, hx⟩ := Option.isSome_iff_exists.mp hc
  by_cases h : c' = c
  · subst h
    simp [setItemlist, setContainer, setItem, itemlist, hx]
  · simp [setItemlist, setContainer, setItem, itemlist, h]

theorem SameItems.of_setItem {r : ℕ} {f : Item → Item} (hid : ∀ x, (f x).id = x.id)
    (hcount : ∀ x, (f x).count = x.count)
    (hplate : ∀ x, (f x).container.map Container.plate = x.container.map Container.plate) :
    SameItems w (w.setItem r f) := by
  have hitem : ∀ {β : Type} (g : Item → β), (∀ x, g (f x) = g x) → ∀ x, g ((w.setItem r f).item x) = g (w.item x) := by
    intro β g hg x
    by_cases hx : x = r
    · subst hx
      simp [setItem, hg]
    · simp [setItem, hx]
  exact ⟨rfl, hitem _ hid, hitem _ hcount, hitem (fun x => x.container.map Container.plate) hplate⟩

theorem SameItems.setItemlist (c : ℕ) (l : List ℕ) : SameItems w (w.setItemlist c l) := by
  unfold World.setItemlist setContainer
  refine .of_setItem (fun _ => rfl) (fun _ => rfl) fun x => ?_
  cases x.container <;> rfl

/-! ## Taking an item out -/

/-- `r` is taken out of every list. -/
structure Detached (rules : Rules) (w w' : World) (r : ℕ) : Prop where
  items : SameItems w w'
  children : ∀ c x, x ∈ w'.children c ↔ x ∈ w.children c ∧ x ≠ r
  inventory : ∀ p, ∀ i ∈ slots, (w'.player p).inventory i =
    if (w.player p).inventory i = some r then none else (w.player p).inventory i
  size : ∀ t, ((w'.tile t).topItems ++ (w'.tile t).downItems).length ≤
    ((w.tile t).topItems ++ (w.tile t).downItems).length
  neat : Neat rules w'

theorem Detached.before {r : ℕ} (h : Alike w w') (h' : Detached rules w' w'' r) : Detached rules w w'' r where
  items := h.sameItems.trans h'.items
  children c x := by rw [h'.children, h.children]
  inventory p := h.inventory p ▸ h'.inventory p
  size t := h.tile ▸ h'.size t
  neat := h'.neat

theorem mem_iff_of_only {c c' : Cylinder} {r x : ℕ} (honly : ∀ c', r ∈ w.children c' → c' = c) (hne : c' ≠ c) :
    x ∈ w.children c' ↔ x ∈ w.children c' ∧ x ≠ r := by
  refine ⟨fun h => ⟨h, ?_⟩, And.left⟩
  rintro rfl
  exact hne (honly c' h)

theorem inventory_of_only {c : Cylinder} {r : ℕ} (honly : ∀ c', r ∈ w.children c' → c' = c) {p i : ℕ} (hi : i ∈ slots)
    (hne : .player p ≠ c) :
    (w.player p).inventory i = if (w.player p).inventory i = some r then none else (w.player p).inventory i := by
  rw [if_neg]
  exact fun h => hne (honly _ (mem_children_player.mpr ⟨i, hi, h⟩))

section Detach
variable {r : ℕ} (hneat : Neat rules w)
include hneat

theorem detached_itemlist {c : ℕ} (honly : ∀ c', r ∈ w.children c' → c' = .container c)
    (hr : r ∈ w.itemlist c) : Detached rules w (w.setItemlist c ((w.itemlist c).erase r)) r where
  items := .setItemlist c _
  children c' x := by
    by_cases hc : c' = .container c
    · subst hc
      show x ∈ (w.setItemlist c _).itemlist c ↔ x ∈ w.itemlist c ∧ x ≠ r
      rw [itemlist_setItemlist (container_of_mem_itemlist hr), if_pos rfl, (hneat.itemlist c).mem_erase_iff]
      exact And.comm
    · rw [← mem_iff_of_only honly hc]
      cases c' with
      | container d =>
        have hd : d ≠ c := fun h => hc (h ▸ rfl)
        show x ∈ (w.setItemlist c _).itemlist d ↔ x ∈ w.itemlist d
        rw [itemlist_setItemlist (container_of_mem_itemlist hr), if_neg hd]
      | player p => rfl
      | tile t => rfl
  inventory p i hi := inventory_of_only honly hi nofun
  size t := le_rfl
  neat := by
    refine ⟨fun d => ?_, hneat.inventory, hneat.tile, fun t g hg => ?_, fun t x hx => ?_⟩
    · rw [itemlist_setItemlist (container_of_mem_itemlist hr)]
      split
      · exact (hneat.itemlist c).erase r
      · exact hneat.itemlist d
    · rw [isStackable_of_id (SameItems.setItemlist c _).id]
      exact hneat.ground t g hg
    · rw [type, (SameItems.setItemlist c _).id]
      exact hneat.top t x hx

theorem detached_inventory {p slot : ℕ} (honly : ∀ c', r ∈ w.children c' → c' = .player p) (hslot : slot ∈ slots)
    (hr : (w.player p).inventory slot = some r) : Detached rules w (w.setPlayer p fun x =>
      { x with inventory := Function.update x.inventory slot none }) r where
  items := ⟨rfl, fun _ => rfl, fun _ => rfl, fun _ => rfl⟩
  children c' x := by
    by_cases hc : c' = .player p
    · subst hc
      simp only [mem_children_player, setPlayer, Function.update_self]
      constructor
      · rintro ⟨i, hi, hx⟩
        have hne : i ≠ slot := by
          rintro rfl
          simp at hx
        rw [Function.update_of_ne hne] at hx
        refine ⟨⟨i, hi, hx⟩, ?_⟩
        rintro rfl
        exact hne (hneat.inventory p i hi slot hslot x hx hr)
      · rintro ⟨⟨i, hi, hx⟩, hne⟩
        have hslot' : i ≠ slot := by
          rintro rfl
          exact hne (Option.some.inj (hx.symm.trans hr))
        exact ⟨i, hi, by rwa [Function.update_of_ne hslot']⟩
    · rw [← mem_iff_of_only honly hc]
      cases c' with
      | container d => rfl
      | player q =>
        have hq : q ≠ p := fun h => hc (h ▸ rfl)
        simp only [mem_children_player, setPlayer, Function.update_of_ne hq]
      | tile t => rfl
  inventory q i hi := by
    by_cases hq : q = p
    · subst hq
      simp only [setPlayer, Function.update_self]
      by_cases his : i = slot
      · rw [his, Function.update_self, if_pos hr]
      · have hne : (w.player q).inventory i ≠ some r := fun h =>
          his (hneat.inventory q i hi slot hslot r h hr)
        rw [Function.update_of_ne his, if_neg hne]
    · simp only [setPlayer, Function.update_of_ne hq]
      exact inventory_of_only honly hi fun h => hq (by injection h)
  size t := le_rfl
  neat := by
    refine ⟨hneat.itemlist, fun q i hi j hj x hx hy => ?_, hneat.tile, hneat.ground, hneat.top⟩
    by_cases hq : q = p
    · subst hq
      simp only [setPlayer, Function.update_self] at hx hy
      have hi' : i ≠ slot := by
        rintro rfl
        simp at hx
      have hj' : j ≠ slot := by
        rintro rfl
        simp at hy
      rw [Function.update_of_ne hi'] at hx
      rw [Function.update_of_ne hj'] at hy
      exact hneat.inventory q i hi j hj x hx hy
    · simp only [setPlayer, Function.update_of_ne hq] at hx hy
      exact hneat.inventory q i hi j hj x hx hy

theorem detached_tile {t : ℕ} {f : Tile → Tile} (honly : ∀ c', r ∈ w.children c' → c' = .tile t)
    (hground : ∀ g, (f (w.tile t)).ground = some g → (w.tile t).ground = some g)
    (htop : (f (w.tile t)).topItems.Sublist (w.tile t).topItems)
    (hdown : (f (w.tile t)).downItems.Sublist (w.tile t).downItems)
    (hlist : (w.setTile t f).children (.tile t) = (w.children (.tile t)).erase r) :
    Detached rules w (w.setTile t f) r where
  items := ⟨rfl, fun _ => rfl, fun _ => rfl, fun _ => rfl⟩
  children c' x := by
    by_cases hc : c' = .tile t
    · subst hc
      rw [hlist, (hneat.tile t).mem_erase_iff]
      exact And.comm
    · rw [← mem_iff_of_only honly hc]
      cases c' with
      | container d => rfl
      | player p => rfl
      | tile t' =>
        have ht : t' ≠ t := fun h => hc (h ▸ rfl)
        simp only [children, setTile, Function.update_of_ne ht]
  inventory p i hi := inventory_of_only honly hi nofun
  size t' := by
    by_cases ht : t' = t
    · subst ht
      simp only [setTile, Function.update_self]
      exact (htop.append hdown).length_le
    · simp only [setTile, Function.update_of_ne ht, le_refl]
  neat := by
    refine ⟨hneat.itemlist, hneat.inventory, fun t' => ?_, fun t' g hg => ?_, fun t' x hx => ?_⟩
    · by_cases ht : t' = t
      · subst ht
        rw [hlist]
        exact (hneat.tile t').erase r
      · have := hneat.tile t'
        simpa only [children, setTile, Function.update_of_ne ht] using this
    · by_cases ht : t' = t
      · subst ht
        simp only [setTile, Function.update_self] at hg
        exact hneat.ground t' g (hground g hg)
      · simp only [setTile, Function.update_of_ne ht] at hg
        exact hneat.ground t' g hg
    · by_cases ht : t' = t
      · subst ht
        simp only [setTile, Function.update_self] at hx
        exact hneat.top t' x (htop.subset hx)
      · simp only [setTile, Function.update_of_ne ht] at hx
        exact hneat.top t' x hx

end Detach

/-! ## `removeThing` -/

theorem mem_of_hasThing {c : Cylinder} {r : ℕ} (h : w.hasThing rules c r = true) : r ∈ w.children c := by
  cases c with
  | container c => simpa [hasThing, children] using h
  | player p => simpa [hasThing] using h
  | tile t =>
    rw [mem_children_tile]
    simp only [hasThing, Bool.or_eq_true, decide_eq_true_eq] at h
    rcases h with h | h
    · exact .inl h
    · split at h
      · exact .inr (.inl (by simpa using h))
      · exact .inr (.inr (by simpa using h))

theorem containerRemoveThing_detached {c r count : ℕ} (hneat : Neat rules w)
    (honly : ∀ c', r ∈ w.children c' → c' = .container c) (hr : r ∈ w.itemlist c)
    (hpart : w.isPart rules r count = false) : Detached rules w (w.containerRemoveThing rules c r count) r := by
  unfold containerRemoveThing
  rw [if_neg (not_not.mpr hr)]
  dsimp only
  rw [if_neg (by rw [hpart]; decide)]
  generalize hw : updateItemWeight w.depth w c (-(w.getWeight rules r : ℤ)) = w₁
  have halike : Alike w (w₁.setParent r none) :=
    (hw ▸ Alike.updateItemWeight _ w c _).trans (.setParent r none)
  have hlist : w₁.itemlist c = (w₁.setParent r none).itemlist c :=
    ((Alike.setParent r none).itemlist c).symm
  rw [hlist]
  refine .before halike (detached_itemlist (halike.neat hneat) (fun c' h => ?_) ?_)
  · exact honly c' (halike.children c' ▸ h)
  · rwa [halike.itemlist]

theorem playerRemoveThing_detached {p r count : ℕ} (hneat : Neat rules w)
    (honly : ∀ c', r ∈ w.children c' → c' = .player p) (hr : r ∈ w.children (.player p))
    (hpart : w.isPart rules r count = false) : Detached rules w (w.playerRemoveThing rules p r count) r := by
  obtain ⟨i, hi, hx⟩ := mem_children_player.mp hr
  unfold playerRemoveThing
  cases hfind : slots.find? fun slot => (w.player p).inventory slot = some r with
  | none => exact absurd (by simpa using hx) (List.find?_eq_none.mp hfind i hi)
  | some slot =>
    have hslot : (w.player p).inventory slot = some r := by simpa using List.find?_some hfind
    dsimp only
    rw [if_neg (by rw [hpart]; decide)]
    have halike : Alike w (w.setParent r none) := .setParent r none
    refine .before halike (detached_inventory (halike.neat hneat) (fun c' h => ?_)
      (List.mem_of_find?_eq_some hfind) hslot)
    exact honly c' (halike.children c' ▸ h)

theorem tileRemoveThing_detached {t r count : ℕ} (hneat : Neat rules w)
    (honly : ∀ c', r ∈ w.children c' → c' = .tile t) (hr : w.hasThing rules (.tile t) r = true)
    (hpart : w.isPart rules r count = false) : Detached rules w (w.tileRemoveThing rules t r count) r := by
  have halike : Alike w (w.setParent r none) := .setParent r none
  have hstart : ∀ {f : Tile → Tile}, (∀ g, (f (w.tile t)).ground = some g → (w.tile t).ground = some g) →
      (f (w.tile t)).topItems.Sublist (w.tile t).topItems →
      (f (w.tile t)).downItems.Sublist (w.tile t).downItems →
      (w.setTile t f).children (.tile t) = (w.children (.tile t)).erase r →
        Detached rules w ((w.setParent r none).setTile t f) r := fun hground htop hdown hlist =>
    .before halike (detached_tile (halike.neat hneat) (fun c' h => honly c' (halike.children c' ▸ h))
      hground htop hdown hlist)
  have hnodup := hneat.tile t
  unfold tileRemoveThing
  rw [if_neg (by simp [hr])]
  split
  · rename_i hground
    refine hstart (fun g hg => by cases hg) (.refl _) (.refl _) ?_
    simp [children, setTile, hground]
  · rename_i hground
    have hg : r ∉ (w.tile t).ground.toList := by simpa using hground
    simp only [hasThing, hground, decide_false, Bool.false_or] at hr
    split
    · rename_i htop
      have hmem : r ∈ (w.tile t).topItems := by simpa [htop] using hr
      refine hstart (fun _ hg => hg) List.erase_sublist (.refl _) ?_
      simp only [children, setTile, Function.update_self, List.append_assoc]
      rw [List.erase_append_right _ hg, List.erase_append_left _ hmem]
    · rename_i htop
      have hmem : r ∈ (w.tile t).downItems := by simpa [htop] using hr
      rw [if_neg (by rw [hpart]; decide)]
      have hnot : r ∉ (w.tile t).ground.toList ++ (w.tile t).topItems := fun h =>
        (List.nodup_append.mp hnodup).2.2 r h r hmem rfl
      refine hstart (fun _ hg => hg) (.refl _) List.erase_sublist ?_
      simp only [children, setTile, Function.update_self]
      rw [List.erase_append_right _ hnot]

theorem removeThing_detached {c : Cylinder} {r count : ℕ} (hneat : Neat rules w)
    (honly : ∀ c', r ∈ w.children c' → c' = c) (hr : w.hasThing rules c r = true)
    (hpart : w.isPart rules r count = false) : Detached rules w (w.removeThing rules c r count) r := by
  cases c with
  | container c => exact containerRemoveThing_detached hneat honly (mem_of_hasThing hr) hpart
  | player p => exact playerRemoveThing_detached hneat honly (mem_of_hasThing hr) hpart
  | tile t => exact tileRemoveThing_detached hneat honly hr hpart

theorem Recounted.setItemCount (r n : ℕ) : Recounted w (w.setItemCount r n) r (n % 2 ^ 8) := by
  refine ⟨.of_setItem rfl rfl, fun x => ?_⟩
  by_cases hx : x = r
  · subst hx
    simp [World.setItemCount, setItem]
  · simp [World.setItemCount, setItem, hx]

theorem Recounted.after {r n : ℕ} (h : Recounted w w' r n) (h' : Alike w' w'') : Recounted w w'' r n :=
  ⟨h.toSameLists.trans h'.toSameLists, fun x => (h'.count x).trans (h.count x)⟩

theorem removeThing_recounted {c : Cylinder} {r count : ℕ} (hneat : Neat rules w) (hr : w.hasThing rules c r = true)
    (hpart : w.isPart rules r count = true) (htop : (w.type rules r).alwaysOnTop = false) :
    Recounted w (w.removeThing rules c r count) r (((w.item r).count - count) % 2 ^ 8) := by
  have hset : Recounted w (w.setItemCount r ((w.item r).count - count)) r _ := .setItemCount r _
  cases c with
  | container c =>
    have hmem : r ∈ w.itemlist c := mem_of_hasThing hr
    show Recounted w (w.containerRemoveThing rules c r count) _ _
    unfold containerRemoveThing
    rw [if_neg (not_not.mpr hmem)]
    dsimp only
    rw [if_pos hpart]
    exact hset.after (.updateItemWeight _ _ _ _)
  | player p =>
    obtain ⟨i, hi, hx⟩ := mem_children_player.mp (mem_of_hasThing hr)
    show Recounted w (w.playerRemoveThing rules p r count) _ _
    unfold playerRemoveThing
    cases hfind : slots.find? fun slot => (w.player p).inventory slot = some r with
    | none => exact absurd (by simpa using hx) (List.find?_eq_none.mp hfind i hi)
    | some slot =>
      dsimp only
      rwa [if_pos hpart]
  | tile t =>
    have hground : (w.tile t).ground ≠ some r := by
      intro hg
      have hstack := hneat.ground t r hg
      simp [isPart, hstack] at hpart
    show Recounted w (w.tileRemoveThing rules t r count) _ _
    unfold tileRemoveThing
    rwa [if_neg (by simp [hr]), if_neg hground, if_neg (by simp [htop]), if_pos hpart]

theorem notify_item (c : Cylinder) : (w.notify rules c).item = w.item := by
  have hweight : ∀ p, (w.updateInventoryWeight rules p).item = w.item := by
    intro p
    unfold updateInventoryWeight
    split <;> rfl
  unfold notify
  repeat' split
  all_goals first
    | exact hweight _
    | rfl

theorem getParent_of_kind {r : ℕ} (hchest : w.kind r ≠ some .depotChest) (hinbox : w.kind r ≠ some .inbox) :
    w.getParent (.container r) = (w.item r).parent := by
  unfold kind at hchest hinbox
  simp only [getParent]

theorem kind_of_plate {c : ℕ}
    (hplate : (w'.item c).container.map Container.plate = (w.item c).container.map Container.plate) :
    w'.kind c = w.kind c := by
  have hmap : ∀ k : Option Container, k.map Container.kind = (k.map Container.plate).map Container.kind := by
    intro k
    cases k <;> rfl
  rw [kind, kind, hmap, hplate, ← hmap]

/-! ## What removing leaves of an item -/

section Item
variable {β : Type} (g : Item → β)

theorem setItem_item {r x : ℕ} {f : Item → Item} (hf : x = r → g (f (w.item x)) = g (w.item x)) :
    g ((w.setItem r f).item x) = g (w.item x) := by
  by_cases hx : x = r
  · subst hx
    simpa [setItem] using hf rfl
  · simp [setItem, hx]

theorem updateItemWeight_item (hcontainer : ∀ y k, g { y with container := k } = g y) (fuel : ℕ) (w : World) (c : ℕ)
    (diff : ℤ) (x : ℕ) : g ((updateItemWeight fuel w c diff).item x) = g (w.item x) := by
  induction fuel generalizing w c with
  | zero => rfl
  | succ fuel ih =>
    unfold updateItemWeight
    dsimp only
    split
    · exact (ih _ _).trans (setItem_item g fun _ => hcontainer _ _)
    · exact setItem_item g fun _ => hcontainer _ _

/-- Removing changes the parent and the count of the item, and the list and the weight of a
container. -/
theorem removeThing_item {r : ℕ} (c : Cylinder) (count x : ℕ) (hparent : x = r → ∀ y p, g { y with parent := p } = g y)
    (hcontainer : ∀ y k, g { y with container := k } = g y) (hcount : x = r → ∀ y n, g { y with count := n } = g y) :
    g ((w.removeThing rules c r count).item x) = g (w.item x) := by
  have hpar : ∀ (w : World), g ((w.setParent r none).item x) = g (w.item x) :=
    fun w => setItem_item g fun hx => hparent hx _ _
  have hlist : ∀ (w : World) (c : ℕ) (l : List ℕ), g ((w.setItemlist c l).item x) = g (w.item x) :=
    fun w c l => by
      unfold setItemlist setContainer
      exact setItem_item g fun _ => hcontainer _ _
  have hnum : g ((w.setItemCount r ((w.item r).count - count)).item x) = g (w.item x) :=
    setItem_item g fun hx => hcount hx _ _
  cases c with
  | container c =>
    show g ((w.containerRemoveThing rules c r count).item x) = _
    unfold containerRemoveThing
    split
    · rfl
    dsimp only
    split
    · exact (updateItemWeight_item g hcontainer _ _ _ _ _).trans hnum
    · exact ((hlist _ c _).trans (hpar _)).trans (updateItemWeight_item g hcontainer _ _ _ _ _)
  | player p =>
    show g ((w.playerRemoveThing rules p r count).item x) = _
    unfold playerRemoveThing
    split
    · rfl
    split
    · exact hnum
    · exact hpar w
  | tile t =>
    show g ((w.tileRemoveThing rules t r count).item x) = _
    unfold tileRemoveThing
    repeat' split
    all_goals first
      | rfl
      | exact hnum
      | exact hpar w

end Item

/-! ## `addThing` -/

/-- `r` is put into the list of `b`. -/
structure Attached (rules : Rules) (w w' : World) (b : Cylinder) (r : ℕ) : Prop where
  items : SameItems w w'
  children : ∀ c x, x ∈ w'.children c ↔ x ∈ w.children c ∨ c = b ∧ x = r
  inventory : ∀ p, b ≠ .player p → (w'.player p).inventory = (w.player p).inventory
  neat : Neat rules w'

theorem Attached.before {b : Cylinder} {r : ℕ} (h : Alike w w') (h' : Attached rules w' w'' b r) :
    Attached rules w w'' b r where
  items := h.sameItems.trans h'.items
  children c x := by rw [h'.children, h.children]
  inventory p hp := (h'.inventory p hp).trans (h.inventory p)
  neat := h'.neat

theorem Attached.after {b : Cylinder} {r : ℕ} (h : Attached rules w w' b r) (h' : Alike w' w'') :
    Attached rules w w'' b r where
  items := h.items.trans h'.sameItems
  children c x := by rw [h'.children, h.children]
  inventory p hp := (h'.inventory p).trans (h.inventory p hp)
  neat := h'.neat h.neat

/-- On a tile the item takes the place of another: a ground, a splash or a field. -/
def replaces (rules : Rules) (w : World) (r : ℕ) : Bool :=
  (w.type rules r).group = .ground || w.isSplash rules r || w.isMagicField rules r

/-- What `Tile::addThing` puts `r` in the place of. -/
def displaced (rules : Rules) (w : World) (t r : ℕ) : Option ℕ :=
  if (w.type rules r).group = .ground then (w.tile t).ground
  else if (w.type rules r).alwaysOnTop then
    if w.isSplash rules r then (w.tile t).topItems.find? (w.isSplash rules) else none
  else if w.isMagicField rules r then (w.tile t).downItems.find? (w.isMagicField rules) else none

/-- On a tile nothing has to make way for the item, and no stack becomes the ground. -/
def Vacant (rules : Rules) (w : World) (c : Cylinder) (r : ℕ) : Prop :=
  ∀ t, c = .tile t → w.displaced rules t r = none ∧ ((w.type rules r).group = .ground → w.isStackable rules r = false)

theorem Vacant.same {c : Cylinder} {r r' : ℕ} (h : Vacant rules w c r) (hr : (w'.item r').id = (w.item r).id)
    (hid : ∀ t, ∀ x ∈ w.children (.tile t), (w'.item x).id = (w.item x).id)
    (htile : w'.tile = w.tile) : Vacant rules w' c r' := by
  intro t ht
  obtain ⟨hnone, hground⟩ := h t ht
  have htype : ∀ x ∈ w.children (.tile t), w'.type rules x = w.type rules x := fun x hx => by
    rw [type, type, hid t x hx]
  have hr' : w'.type rules r' = w.type rules r := by rw [type, type, hr]
  simp only [isStackable, hr']
  refine ⟨?_, hground⟩
  unfold displaced isSplash isMagicField at hnone ⊢
  rw [hr', htile]
  split_ifs at hnone ⊢
  all_goals first
    | exact hnone
    | rfl
    | rw [List.find?_eq_none] at hnone ⊢
      intro x hx
      rw [htype x (mem_children_tile.mpr (by simp [hx]))]
      exact hnone x hx

theorem Vacant.lists {c : Cylinder} {r : ℕ} (h : Vacant rules w c r) (h' : SameLists w w') : Vacant rules w' c r :=
  h.same (h'.id r) (fun _ x _ => h'.id x) h'.tile

theorem displaced_plain {t r : ℕ} (h : w.replaces rules r = false) : w.displaced rules t r = none := by
  simp only [replaces, Bool.or_eq_false_iff, decide_eq_false_iff_not] at h
  obtain ⟨⟨hground, hsplash⟩, hfield⟩ := h
  unfold displaced
  rw [if_neg hground, hsplash, hfield]
  simp

theorem vacant_plain {c : Cylinder} {r : ℕ} (h : w.replaces rules r = false) : Vacant rules w c r := by
  refine fun t _ => ⟨displaced_plain h, fun hground => ?_⟩
  simp [replaces, hground] at h

def HasRoom (w : World) (c : Cylinder) (index : ℤ) : Prop :=
  match c with
  | .container c => (w.item c).container.isSome = true ∧ index < w.capacity c
  | .player p => 1 ≤ index ∧ index ≤ 10 ∧ (w.player p).inventory index.toNat = none
  | .tile t => ((w.tile t).topItems ++ (w.tile t).downItems).length < 0xFFFF

section Attach
variable {r : ℕ} (hneat : Neat rules w) (hloose : ∀ c, r ∉ w.children c)
include hneat hloose

theorem attached_itemlist {c : ℕ} (hc : (w.item c).container.isSome = true) :
    Attached rules w (w.setItemlist c (r :: w.itemlist c)) (.container c) r where
  items := .setItemlist c _
  children c' x := by
    cases c' with
    | container d =>
      show x ∈ (w.setItemlist c _).itemlist d ↔ x ∈ w.itemlist d ∨ _
      rw [itemlist_setItemlist hc]
      split
      · rename_i hd
        subst hd
        simp [or_comm]
      · rename_i hd
        simp [hd]
    | player p => simp [children, setItemlist, setContainer, setItem]
    | tile t => simp [children, setItemlist, setContainer, setItem]
  inventory _ _ := rfl
  neat := by
    refine ⟨fun d => ?_, hneat.inventory, hneat.tile, fun t g hg => ?_, fun t x hx => ?_⟩
    · rw [itemlist_setItemlist hc]
      split
      · exact List.nodup_cons.mpr ⟨hloose (.container c), hneat.itemlist c⟩
      · exact hneat.itemlist d
    · rw [isStackable_of_id (SameItems.setItemlist c _).id]
      exact hneat.ground t g hg
    · rw [type, (SameItems.setItemlist c _).id]
      exact hneat.top t x hx

theorem attached_inventory {p slot : ℕ} (hslot : slot ∈ slots) (hnone : (w.player p).inventory slot = none) :
    Attached rules w (w.setPlayer p fun x => { x with inventory := Function.update x.inventory slot (some r) })
        (.player p) r where
  items := ⟨rfl, fun _ => rfl, fun _ => rfl, fun _ => rfl⟩
  children c' x := by
    cases c' with
    | container d => simp [children, setPlayer, itemlist]
    | player q =>
      by_cases hq : q = p
      · subst hq
        simp only [mem_children_player, setPlayer, Function.update_self, true_and]
        constructor
        · rintro ⟨i, hi, hx⟩
          by_cases his : i = slot
          · subst his
            rw [Function.update_self] at hx
            exact .inr (Option.some.inj hx).symm
          · rw [Function.update_of_ne his] at hx
            exact .inl ⟨i, hi, hx⟩
        · rintro (⟨i, hi, hx⟩ | rfl)
          · have his : i ≠ slot := by
              rintro rfl
              rw [hnone] at hx
              cases hx
            exact ⟨i, hi, by rwa [Function.update_of_ne his]⟩
          · exact ⟨slot, hslot, Function.update_self ..⟩
      · simp [mem_children_player, setPlayer, hq]
    | tile t => simp [children, setPlayer]
  inventory q hq := by
    have hne : q ≠ p := fun h => hq (h ▸ rfl)
    simp only [setPlayer, Function.update_of_ne hne]
  neat := by
    refine ⟨hneat.itemlist, fun q i hi j hj x hx hy => ?_, hneat.tile, hneat.ground, hneat.top⟩
    by_cases hq : q = p
    · subst hq
      have hno : ∀ i ∈ slots, (w.player q).inventory i ≠ some r := fun i hi h =>
        hloose (.player q) (mem_children_player.mpr ⟨i, hi, h⟩)
      simp only [setPlayer, Function.update_self] at hx hy
      by_cases his : i = slot <;> by_cases hjs : j = slot
      · exact his.trans hjs.symm
      · rw [his, Function.update_self] at hx
        rw [Function.update_of_ne hjs, ← Option.some.inj hx] at hy
        exact absurd hy (hno j hj)
      · rw [hjs, Function.update_self] at hy
        rw [Function.update_of_ne his, ← Option.some.inj hy] at hx
        exact absurd hx (hno i hi)
      · rw [Function.update_of_ne his] at hx
        rw [Function.update_of_ne hjs] at hy
        exact hneat.inventory q i hi j hj x hx hy
    · simp only [setPlayer, Function.update_of_ne hq] at hx hy
      exact hneat.inventory q i hi j hj x hx hy

theorem attached_tile {t : ℕ} {f : Tile → Tile}
    (hground : ∀ g, (f (w.tile t)).ground = some g → (w.tile t).ground = some g ∨ w.isStackable rules g = false)
    (htop : ∀ x ∈ (f (w.tile t)).topItems, x ∈ (w.tile t).topItems ∨ (w.type rules x).alwaysOnTop = true)
    (hlist : ((w.setTile t f).children (.tile t)).Perm (r :: w.children (.tile t))) :
    Attached rules w (w.setTile t f) (.tile t) r where
  items := ⟨rfl, fun _ => rfl, fun _ => rfl, fun _ => rfl⟩
  children c' x := by
    cases c' with
    | container d => simp [children, setTile, itemlist]
    | player p => simp [children, setTile]
    | tile t' =>
      by_cases ht : t' = t
      · subst ht
        rw [hlist.mem_iff]
        simp [or_comm]
      · simp [children, setTile, ht]
  inventory _ _ := rfl
  neat := by
    refine ⟨hneat.itemlist, hneat.inventory, fun t' => ?_, fun t' g hg => ?_, fun t' x hx => ?_⟩
    · by_cases ht : t' = t
      · subst ht
        exact hlist.nodup_iff.mpr (List.nodup_cons.mpr ⟨hloose (.tile t'), hneat.tile t'⟩)
      · have := hneat.tile t'
        simpa only [children, setTile, Function.update_of_ne ht] using this
    · by_cases ht : t' = t
      · subst ht
        simp only [setTile, Function.update_self] at hg
        exact (hground g hg).elim (hneat.ground t' g) fun h => h
      · simp only [setTile, Function.update_of_ne ht] at hg
        exact hneat.ground t' g hg
    · by_cases ht : t' = t
      · subst ht
        simp only [setTile, Function.update_self] at hx
        exact (htop x hx).elim (hneat.top t' x) fun h => h
      · simp only [setTile, Function.update_of_ne ht] at hx
        exact hneat.top t' x hx

end Attach

theorem insertTop_perm (r : ℕ) (l : List ℕ) : (w.insertTop rules r l).Perm (r :: l) := by
  induction l with
  | nil => rfl
  | cons y l ih =>
    unfold insertTop
    split
    · rfl
    · exact (ih.cons y).trans (List.Perm.swap r y l)

theorem dropSplash_of_none {t r : ℕ}
    (h : w.isSplash rules r = true → (w.tile t).topItems.find? (w.isSplash rules) = none) :
    w.dropSplash rules t r = w := by
  unfold dropSplash
  split
  · rename_i old hold
    rw [if_neg]
    intro hr
    rw [h hr] at hold
    cases hold
  · rfl

theorem tileAddThing_attached {t r : ℕ} (hneat : Neat rules w) (hloose : ∀ c, r ∉ w.children c)
    (hroom : HasRoom w (.tile t) 0) (hvacant : Vacant rules w (.tile t) r) :
    Attached rules w (w.tileAddThing rules t r) (.tile t) r := by
  have halike : Alike w (w.setParent r (some (.tile t))) := .setParent r _
  obtain ⟨hnone, hstack⟩ := hvacant.lists halike.toSameLists t rfl
  have hloose' : ∀ c, r ∉ (w.setParent r (some (.tile t))).children c := fun c h =>
    hloose c (halike.children c ▸ h)
  unfold tileAddThing
  rw [if_neg (not_le.mpr hroom)]
  dsimp only
  have hneat' := halike.neat hneat
  generalize w.setParent r (some (.tile t)) = w₁ at halike hnone hstack hloose' hneat'
  refine .before halike ?_
  have hkeep : ∀ g, (w₁.tile t).ground = some g → (w₁.tile t).ground = some g ∨
      w₁.isStackable rules g = false := fun g hg => .inl hg
  have hdown : Attached rules w₁ (w₁.setTile t fun x => { x with downItems := r :: x.downItems })
      (.tile t) r := by
    refine attached_tile hneat' hloose' hkeep (fun x hx => .inl hx) ?_
    simp only [children, setTile, Function.update_self]
    exact List.perm_middle
  unfold displaced at hnone
  split
  · -- there is no ground yet
    rename_i hground
    rw [if_pos hground] at hnone
    rw [hnone]
    refine attached_tile hneat' hloose' (fun g hg => .inr ?_) (fun x hx => .inl hx) ?_
    · rw [← Option.some.inj hg]
      exact hstack hground
    · simp [children, setTile, hnone]
  · rename_i hground
    rw [if_neg hground] at hnone
    split
    · rename_i htop
      rw [if_pos htop] at hnone
      rw [dropSplash_of_none fun hsplash => by rwa [if_pos hsplash] at hnone]
      refine attached_tile hneat' hloose' hkeep (fun x hx => ?_) ?_
      · rcases List.mem_cons.mp ((insertTop_perm r _).mem_iff.mp hx) with rfl | hx
        · exact .inr htop
        · exact .inl hx
      simp only [children, setTile, Function.update_self]
      refine ((List.Perm.append_left _ (insertTop_perm r _)).append_right _).trans ?_
      exact (List.perm_middle.append_right _)
    · rename_i htop
      rw [if_neg htop] at hnone
      split
      · rename_i old hold
        rw [if_neg]
        · exact hdown
        · intro hfield
          rw [if_pos hfield, hold] at hnone
          cases hnone
      · exact hdown

theorem addThing_attached {c : Cylinder} {index : ℤ} {r : ℕ} (hneat : Neat rules w)
    (hloose : ∀ c, r ∉ w.children c) (hroom : HasRoom w c index) (hvacant : Vacant rules w c r) :
    Attached rules w (w.addThing rules c index r) c r := by
  cases c with
  | container c =>
    have halike : Alike w (w.setParent r (some (.container c))) := .setParent r _
    show Attached rules w (w.containerAddThing rules c index r) _ r
    unfold containerAddThing
    rw [if_neg (not_le.mpr hroom.2)]
    dsimp only
    rw [← halike.itemlist]
    refine .after (.before halike (attached_itemlist (halike.neat hneat) ?_ ?_)) (.updateItemWeight _ _ _ _)
    · exact fun c h => hloose c (halike.children c ▸ h)
    · have hmap := congrArg Option.isSome (halike.container c)
      simpa [hroom.1] using hmap
  | player p =>
    have halike : Alike w (w.setParent r (some (.player p))) := .setParent r _
    obtain ⟨hlow, hhigh, hnone⟩ := hroom
    show Attached rules w (w.playerAddThing p index r) _ r
    unfold playerAddThing
    rw [if_pos ⟨hlow, hhigh⟩]
    refine .before halike (attached_inventory (halike.neat hneat) ?_ ?_ hnone)
    · exact fun c h => hloose c (halike.children c ▸ h)
    · simp only [slots, List.mem_cons, List.not_mem_nil, or_false]
      omega
  | tile t => exact tileAddThing_attached hneat hloose hroom hvacant

/-! ## `updateThing` and `clone` -/

theorem setID_id_count (items : ℕ → Decay.ItemType) (x : Decay.Item) (id : ℕ) :
    (x.setID items id).id = id ∧ (x.setID items id).count = x.count := by
  unfold Decay.Item.setID
  dsimp only
  repeat' split
  all_goals exact ⟨rfl, rfl⟩

theorem setSubType_id (items : ℕ → Decay.ItemType) (x : Decay.Item) (n : ℤ) : (x.setSubType items n).id = x.id := by
  unfold Decay.Item.setSubType
  dsimp only
  split
  · rfl
  split
  · rfl
  split <;> rfl

theorem Recounted.setIdAndCount {r count : ℕ} (hstack : w.isStackable rules r = true)
    (hfluid : (w.type rules r).isFluid = false) :
    Recounted w (w.setIdAndCount rules r (w.item r).id count) r (count % 2 ^ 8) := by
  obtain ⟨hid, -⟩ := setID_id_count (fun id => (rules.items id).toItemType)
    { id := (w.item r).id, count := (w.item r).count, attributes := (w.item r).attributes }
      (w.item r).id
  have hsub : ∀ x : Decay.Item, x.id = (w.item r).id → x.setSubType (fun id => (rules.items id).toItemType) count =
        { x with count := count % 2 ^ 8 } := by
    intro x hx
    have hnot : (rules.items x.id).toItemType.isFluid = false := by rw [hx]; exact hfluid
    have hyes : (rules.items x.id).toItemType.stackable = true := by rw [hx]; exact hstack
    simp only [Decay.Item.setSubType, hnot, hyes, if_true, Bool.false_eq_true, if_false]
    congr 1
  unfold World.setIdAndCount
  refine ⟨.of_setItem ?_ rfl, fun x => ?_⟩
  · simp only [Item.lift, hsub _ hid]
    exact hid
  · by_cases hx : x = r
    · subst hx
      simp [setItem, Item.lift, hsub _ hid]
    · simp [setItem, hx]

theorem updateThing_recounted {c : Cylinder} {r count : ℕ} (hr : w.hasThing rules c r = true)
    (hstack : w.isStackable rules r = true) (hfluid : (w.type rules r).isFluid = false) :
    Recounted w (w.updateThing rules c r (w.item r).id count) r (count % 2 ^ 8) := by
  have hset : Recounted w (w.setIdAndCount rules r (w.item r).id count) r _ :=
    .setIdAndCount hstack hfluid
  unfold updateThing
  rw [if_neg (by simp [hr])]
  dsimp only
  split
  · exact hset.after (.updateItemWeight _ _ _ _)
  · exact hset

/-- A new item with the count `n`, in no list yet. -/
structure Created (w w' : World) (n : ℕ) : Prop where
  next : w'.next = w.next + 1
  others : ∀ x, x ≠ w.next → w'.item x = w.item x
  count : (w'.item w.next).count = n
  container : (w'.item w.next).container = none
  player : w'.player = w.player
  tile : w'.tile = w.tile

/-- The new item is like `r`. -/
structure Cloned (w w' : World) (r n : ℕ) : Prop extends Created w w' n where
  id : (w'.item w.next).id = (w.item r).id

theorem new_id (items : ℕ → Decay.ItemType) (type count : ℕ) : (Decay.Item.new items type count).id = type := by
  unfold Decay.Item.new
  dsimp only
  repeat' split
  all_goals rfl

theorem copy_id {items : ℕ → Decay.ItemType} {x y : Decay.Item} (h : x.copy items = some y)
    (hid : Decay.Item.createId items x.id = x.id) : y.id = x.id := by
  obtain ⟨z, hz, rfl⟩ := Option.map_eq_some_iff.mp h
  have hzid : z.id = x.id := by
    unfold Decay.Item.create at hz
    dsimp only at hz
    repeat' split at hz
    all_goals cases hz
    · exact new_id items _ _
    · exact (new_id items _ _).trans hid
    · exact (new_id items _ _).trans hid
  split <;> exact hzid

theorem cloneItem_cloned {r n : ℕ} (h : w.cloneItem rules r n = some w')
    (hid : Decay.Item.createId (fun id => (rules.items id).toItemType) (w.item r).id = (w.item r).id) :
    Cloned w w' r (n % 2 ^ 8) := by
  obtain ⟨y, hy, rfl⟩ := Option.map_eq_some_iff.mp h
  have hyid := copy_id hy hid
  refine ⟨⟨rfl, fun x hx => Function.update_of_ne hx _ _, ?_, ?_, rfl, rfl⟩, ?_⟩
  all_goals simp only [Function.update_self]
  · split <;> exact hyid

end World
end ForgottenServer.Things
