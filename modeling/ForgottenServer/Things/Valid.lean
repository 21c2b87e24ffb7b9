import ForgottenServer.Lib.Forest
import ForgottenServer.Things.Shape

/-! # Valid worlds and the units in them

In a valid world every item lies in one place. The units of an item id below
some cylinders are the counts of the stacks and the number of the other items;
each change of the lists alters them by what it takes away or brings. -/
namespace ForgottenServer.Things
open ForgottenServer.Lib.Forest

/-- What the item types promise about stacks. -/
structure Rules.Sane (rules : Rules) : Prop where
  top : ∀ id, (rules.items id).stackable = true → (rules.items id).alwaysOnTop = false
  fluid : ∀ id, (rules.items id).stackable = true → (rules.items id).isFluid = false
  hangable : ∀ id, (rules.items id).stackable = true → (rules.items id).isHangable = false
  made : ∀ id, (rules.items id).stackable = true → Decay.Item.createId (fun id => (rules.items id).toItemType) id = id

namespace World
variable {rules : Rules} {w w' w'' : World}

structure Valid (rules : Rules) (w : World) : Prop extends Neat rules w where
  holder : ∀ c c' x, x ∈ w.children c → x ∈ w.children c' → c = c'
  known : ∀ c x, x ∈ w.children c → x < w.next
  fresh : ∀ x, w.next ≤ x → (w.item x).container = none
  leaf : ∀ x, w.isStackable rules x = true → (w.item x).container = none
  count : ∀ x, w.isStackable rules x = true → (w.item x).count ≤ 100
  capacity : ∀ x c, (w.item x).container = some c → 0 < c.maxSize
  storeInbox : ∀ x c, (w.item x).container = some c → c.kind = .storeInbox → c.unlocked = true

theorem exists_plate {c : Container} {x : ℕ}
    (hplate : (w'.item x).container.map Container.plate = (w.item x).container.map Container.plate)
    (hc : (w'.item x).container = some c) :
    ∃ d, (w.item x).container = some d ∧ d.kind = c.kind ∧ d.maxSize = c.maxSize ∧ d.unlocked = c.unlocked := by
  rw [hc] at hplate
  cases hd : (w.item x).container with
  | none => simp [hd] at hplate
  | some d =>
    rw [hd, Option.map_some, Option.map_some, Option.some.injEq, Container.plate, Container.plate,
      Container.mk.injEq] at hplate
    exact ⟨d, rfl, hplate.1.symm, hplate.2.2.1.symm, hplate.2.2.2.1.symm⟩

theorem container_none {x : ℕ}
    (hplate : (w'.item x).container.map Container.plate = (w.item x).container.map Container.plate)
    (h : (w.item x).container = none) : (w'.item x).container = none := by
  rw [h] at hplate
  exact Option.map_eq_none_iff.mp hplate

theorem Valid.of_items (h : Valid rules w) (hneat : Neat rules w') (hnext : w'.next = w.next)
    (hid : ∀ x, (w'.item x).id = (w.item x).id)
    (hplate : ∀ x, (w'.item x).container.map Container.plate = (w.item x).container.map Container.plate)
    (hcount : ∀ x, w'.isStackable rules x = true → (w'.item x).count ≤ 100)
    (hholder : ∀ c c' x, x ∈ w'.children c → x ∈ w'.children c' → c = c')
    (hknown : ∀ c x, x ∈ w'.children c → x < w.next) : Valid rules w' where
  toNeat := hneat
  holder := hholder
  known c x hx := hnext ▸ hknown c x hx
  fresh x hx := container_none (hplate x) (h.fresh x (hnext ▸ hx))
  leaf x hx := container_none (hplate x) (h.leaf x (isStackable_of_id hid x ▸ hx))
  count := hcount
  capacity x c hc := by
    obtain ⟨d, hd, -, hsize, -⟩ := exists_plate (hplate x) hc
    exact hsize ▸ h.capacity x d hd
  storeInbox x c hc hkind := by
    obtain ⟨d, hd, hkind', -, hlock⟩ := exists_plate (hplate x) hc
    exact hlock ▸ h.storeInbox x d hd (hkind'.trans hkind)

theorem Valid.count_of_same (h : Valid rules w) (h' : SameItems w w') (x : ℕ)
    (hx : w'.isStackable rules x = true) : (w'.item x).count ≤ 100 := by
  rw [isStackable_of_id h'.id] at hx
  rw [h'.count]
  exact h.count x hx

theorem Valid.alike (h : Valid rules w) (h' : Alike w w') : Valid rules w' := by
  refine h.of_items (h'.neat h.toNeat) h'.next h'.id h'.plate (h.count_of_same h'.sameItems) ?_ ?_
  · intro c c' x
    rw [h'.children, h'.children]
    exact h.holder c c' x
  · intro c x
    rw [h'.children]
    exact h.known c x

theorem Valid.recounted {r n : ℕ} (h : Valid rules w) (h' : Recounted w w' r n) (hn : n ≤ 100) : Valid rules w' := by
  refine h.of_items (h'.neat h.toNeat) h'.next h'.id h'.plate ?_ ?_ ?_
  · intro x hx
    rw [isStackable_of_id h'.id] at hx
    rw [h'.count]
    split
    · exact hn
    · exact h.count x hx
  · intro c c' x
    rw [h'.children, h'.children]
    exact h.holder c c' x
  · intro c x
    rw [h'.children]
    exact h.known c x

theorem Valid.detached {r : ℕ} (h : Valid rules w) (h' : Detached rules w w' r) : Valid rules w' := by
  refine h.of_items h'.neat h'.items.next h'.items.id h'.items.plate (h.count_of_same h'.items) ?_ ?_
  · intro c c' x hx hx'
    exact h.holder c c' x ((h'.children c x).mp hx).1 ((h'.children c' x).mp hx').1
  · intro c x hx
    exact h.known c x ((h'.children c x).mp hx).1

theorem Valid.attached {b : Cylinder} {r : ℕ} (h : Valid rules w) (h' : Attached rules w w' b r)
    (hloose : ∀ c, r ∉ w.children c) (hr : r < w.next) : Valid rules w' := by
  refine h.of_items h'.neat h'.items.next h'.items.id h'.items.plate (h.count_of_same h'.items) ?_ ?_
  · intro c c' x hx hx'
    rcases (h'.children c x).mp hx with hx | ⟨rfl, rfl⟩ <;>
      rcases (h'.children c' x).mp hx' with hx' | ⟨hc, hxr⟩
    · exact h.holder c c' x hx hx'
    · exact absurd (hxr ▸ hx) (hloose c)
    · exact absurd hx' (hloose c')
    · exact hc.symm
  · intro c x hx
    rcases (h'.children c x).mp hx with hx | ⟨-, rfl⟩
    · exact h.known c x hx
    · exact hr

theorem Valid.loose {c : Cylinder} {x : ℕ} (h : Valid rules w) (hx : w.next ≤ x) : x ∉ w.children c :=
  fun hmem => absurd (h.known c x hmem) (not_lt.mpr hx)

theorem Created.children {n : ℕ} (h : Valid rules w) (h' : Created w w' n) (c : Cylinder) :
    w'.children c = w.children c := by
  cases c with
  | container d =>
    show w'.itemlist d = w.itemlist d
    by_cases hd : d = w.next
    · subst hd
      simp [itemlist, h'.container, h.fresh w.next le_rfl]
    · simp [itemlist, h'.others d hd]
  | player p => simp only [World.children, h'.player]
  | tile t => simp only [World.children, h'.tile]

theorem Created.isStackable {n : ℕ} (h : Created w w' n) {x : ℕ} (hx : x ≠ w.next) :
    w'.isStackable rules x = w.isStackable rules x := by
  simp only [World.isStackable, type, h.others x hx]

theorem Valid.created {n : ℕ} (h : Valid rules w) (h' : Created w w' n) (hn : n ≤ 100) : Valid rules w' where
  itemlist c := by
    have := h'.children h (.container c)
    exact (show w'.itemlist c = w.itemlist c from this) ▸ h.itemlist c
  inventory p := by
    rw [h'.player]
    exact h.inventory p
  tile t := h'.children h (.tile t) ▸ h.tile t
  ground t g hg := by
    rw [h'.tile] at hg
    have hmem : g ∈ w.children (.tile t) := mem_children_tile.mpr (.inl hg)
    rw [h'.isStackable (h.known _ g hmem).ne]
    exact h.ground t g hg
  top t x hx := by
    rw [h'.tile] at hx
    have hmem : x ∈ w.children (.tile t) := mem_children_tile.mpr (.inr (.inl hx))
    rw [type, h'.others x (h.known _ x hmem).ne]
    exact h.top t x hx
  holder c c' x := by
    rw [h'.children h, h'.children h]
    exact h.holder c c' x
  known c x hx := by
    rw [h'.children h] at hx
    rw [h'.next]
    exact Nat.lt_succ_of_lt (h.known c x hx)
  fresh x hx := by
    rw [h'.next] at hx
    rw [h'.others x (by omega)]
    exact h.fresh x (by omega)
  leaf x hx := by
    by_cases hx' : x = w.next
    · rw [hx']
      exact h'.container
    · rw [h'.others x hx']
      exact h.leaf x (h'.isStackable hx' ▸ hx)
  count x hx := by
    by_cases hx' : x = w.next
    · rw [hx', h'.count]
      exact hn
    · rw [h'.others x hx']
      exact h.count x (h'.isStackable hx' ▸ hx)
  capacity x c hc := by
    by_cases hx' : x = w.next
    · rw [hx', h'.container] at hc
      cases hc
    · exact h.capacity x c (h'.others x hx' ▸ hc)
  storeInbox x c hc := by
    by_cases hx' : x = w.next
    · rw [hx', h'.container] at hc
      cases hc
    · exact h.storeInbox x c (h'.others x hx' ▸ hc)

/-! ## Units -/

/-- The item lies below one of the cylinders, at any depth. -/
def IsBelow (w : World) (S : Set Cylinder) (x : ℕ) : Prop :=
  Below Cylinder.container (fun c x => x ∈ w.children c) S x

/-- The units of `id` that an item stands for: the count of a stack, one of anything else. -/
def amount (rules : Rules) (w : World) (id x : ℕ) : ℕ :=
  if (w.item x).id = id then if w.isStackable rules x then (w.item x).count else 1 else 0

/-- The units of `id` below the cylinders. -/
noncomputable def units (rules : Rules) (w : World) (S : Set Cylinder) (id : ℕ) : ℕ :=
  total (Finset.range w.next) { x | w.IsBelow S x } (w.amount rules id)

section Units
variable {S : Set Cylinder} {a b : Cylinder} {r n : ℕ} (id : ℕ)

theorem amount_of_same (h : SameItems w w') (x : ℕ) : w'.amount rules id x = w.amount rules id x := by
  simp only [amount, h.id, h.count, isStackable_of_id h.id]

theorem not_below_of_loose (hloose : ∀ c, r ∉ w.children c) : ¬ w.IsBelow S r := by
  intro h
  cases h with
  | root _ hx => exact hloose _ hx
  | inside _ hx => exact hloose _ hx

theorem isBelow_of_lists (h : SameLists w w') (x : ℕ) : w'.IsBelow S x ↔ w.IsBelow S x := by
  simp only [IsBelow, h.children]

theorem no_children (h : (w.item r).container = none) : w.children (.container r) = [] := by
  simp [children, itemlist, h]

theorem units_alike (h : Alike w w') : w'.units rules S id = w.units rules S id := by
  unfold units
  rw [h.next]
  exact total_congr (fun x _ => isBelow_of_lists h.toSameLists x) fun x _ => amount_of_same id h.sameItems x

theorem units_relocate (h : Detached rules w w' r) (h' : Attached rules w' w'' b r) (ha : a ∈ S) (hb : b ∈ S)
    (hr : r ∈ w.children a) : w''.units rules S id = w.units rules S id := by
  have hitems := h.items.trans h'.items
  have hset : ∀ x, w''.IsBelow S x ↔ w.IsBelow S x := fun x =>
    below_move ha hb hr fun c y => by rw [h'.children, h.children]
  unfold units
  rw [hitems.next]
  exact total_congr (fun x _ => hset x) fun x _ => amount_of_same id hitems x

theorem units_detach (h : Valid rules w) (h' : Detached rules w w' r) (ha : a ∈ S) (hr : r ∈ w.children a)
    (hleaf : (w.item r).container = none) : w'.units rules S id + w.amount rules id r = w.units rules S id := by
  have hbelow : r ∈ { x | w.IsBelow S x } := .root ha hr
  have hset : ∀ x, w'.IsBelow S x ↔ x ∈ { x | w.IsBelow S x } \ {r} := fun x =>
    below_remove (fun y hy => by rw [no_children hleaf] at hy; cases hy) h'.children
  unfold units
  rw [h'.items.next, total_split (Finset.mem_range.mpr (h.known a r hr)) hbelow]
  congr 1
  exact total_congr (fun x _ => hset x) fun x _ => amount_of_same id h'.items x

/-- The units of `id` that an item and all that is in it stand for. -/
noncomputable def grown (rules : Rules) (w : World) (id r : ℕ) : ℕ :=
  w.units rules {.container r} id + w.amount rules id r

theorem not_below_leaf (hleaf : (w.item r).container = none) (x : ℕ) : ¬ w.IsBelow {.container r} x := by
  intro h
  induction h with
  | root hc hx =>
    rw [Set.mem_singleton_iff.mp hc, no_children hleaf] at hx
    cases hx
  | inside _ _ ih => exact ih

theorem grown_leaf (hleaf : (w.item r).container = none) : w.grown rules id r = w.amount rules id r := by
  have hnone : w.units rules {.container r} id = 0 := by
    unfold units total
    refine Finset.sum_eq_zero fun x _ => ?_
    have hx : x ∉ { x | w.IsBelow {.container r} x } := not_below_leaf hleaf x
    exact Set.indicator_of_notMem hx _
  rw [grown, hnone, Nat.zero_add]

/-- `r` is put into the list of `b`, where `lost` makes way for it. -/
structure Put (w w' : World) (b : Cylinder) (lost : Option ℕ) (r : ℕ) : Prop where
  items : SameItems w w'
  children : ∀ c x, x ∈ w'.children c ↔ x ∈ w.children c ∧ lost ≠ some x ∨ c = b ∧ x = r

theorem Attached.put (h : Attached rules w w' b r) : Put w w' b none r :=
  ⟨h.items, fun c x => by rw [h.children]; simp⟩

/-- What lies below the cylinders is neither the item nor in it. -/
def Apart (w : World) (S : Set Cylinder) (r : ℕ) : Prop :=
  ∀ x, w.IsBelow S x → x ≠ r ∧ ¬ w.IsBelow {.container r} x

/-- An item is put into one of the cylinders, where an item that holds nothing
may make way for it. -/
theorem units_put {lost : Option ℕ} (h' : Put w w' b lost r) (hb : b ∈ S) (hr : r < w.next) (hapart : Apart w S r)
    (hself : ¬ w.IsBelow {.container r} r) (hknown : ∀ y, lost = some y → y < w.next)
    (hleaf : ∀ y, lost = some y → (w.item y).container = none) (hlost : ∀ y, lost = some y → y ∈ w.children b) :
    w'.units rules S id + (lost.map (w.amount rules id)).getD 0 = w.units rules S id + w.grown rules id r := by
  have hset : ∀ x, w'.IsBelow S x ↔ w.IsBelow S x ∧ lost ≠ some x ∨ x = r ∨ w.IsBelow {.container r} x := by
    intro x
    refine below_put hb (fun y hy z hz => ?_) (fun y hy => (hapart y (.root hb (hlost y hy))).2) h'.children
    rw [no_children (hleaf y hy)] at hz
    cases hz
  have hnew : total (Finset.range w.next) ({ x | w.IsBelow {.container r} x } ∪ {r})
      (w.amount rules id) =
      w.grown rules id r := by
    rw [grown, units, total_split (Finset.mem_range.mpr hr) (Set.mem_union_right _ (Set.mem_singleton r))]
    congr 1
    refine total_congr (fun x _ => ?_) fun _ _ => rfl
    simp only [Set.mem_sdiff, Set.mem_union, Set.mem_ofPred_eq, Set.mem_singleton_iff]
    constructor
    · rintro ⟨h | h, hne⟩
      · exact h
      · exact absurd h hne
    · intro h
      refine ⟨.inl h, ?_⟩
      rintro rfl
      exact hself h
  have hkept : total (Finset.range w.next) { x | w.IsBelow S x ∧ lost ≠ some x }
      (w.amount rules id) +
      (lost.map (w.amount rules id)).getD 0 = w.units rules S id := by
    cases lost with
    | none =>
      rw [units, Option.map_none, Option.getD_none, Nat.add_zero]
      exact total_congr (fun x _ => by simp) fun _ _ => rfl
    | some y =>
      have hy : y ∈ { x | w.IsBelow S x } := .root hb (hlost y rfl)
      rw [units, total_split (Finset.mem_range.mpr (hknown y rfl)) hy, Option.map_some, Option.getD_some]
      congr 1
      refine total_congr (fun x _ => ?_) fun _ _ => rfl
      simp [eq_comm]
  have hall : w'.units rules S id =
      total (Finset.range w.next) { x | w.IsBelow S x ∧ lost ≠ some x } (w.amount rules id) +
        w.grown rules id r := by
    rw [units, h'.items.next, ← hnew, ← total_union]
    · refine total_congr (fun x _ => ?_) fun x _ => amount_of_same id h'.items x
      simp only [Set.mem_ofPred_eq, Set.mem_union, Set.mem_singleton_iff, hset]
      tauto
    · rintro x ⟨hx, -⟩ (hx' | hx')
      · exact (hapart x hx).2 hx'
      · exact (hapart x hx).1 hx'
  omega

theorem apart_leaf (hloose : ∀ c, r ∉ w.children c) (hleaf : (w.item r).container = none) : Apart w S r := by
  refine fun x hx => ⟨?_, not_below_leaf hleaf x⟩
  rintro rfl
  exact not_below_of_loose hloose hx

theorem units_attach (h' : Attached rules w w' b r) (hb : b ∈ S) (hloose : ∀ c, r ∉ w.children c) (hr : r < w.next)
    (hleaf : (w.item r).container = none) : w'.units rules S id = w.units rules S id + w.amount rules id r := by
  rw [← grown_leaf id hleaf]
  exact units_put id h'.put hb hr (apart_leaf hloose hleaf) (not_below_leaf hleaf r) nofun nofun nofun

theorem units_recount (h : Valid rules w) (h' : Recounted w w' r n) (ha : a ∈ S) (hr : r ∈ w.children a) :
    w'.units rules S id + w.amount rules id r = w.units rules S id + w'.amount rules id r := by
  have hbelow : r ∈ { x | w.IsBelow S x } := .root ha hr
  have hset : { x | w'.IsBelow S x } = { x | w.IsBelow S x } :=
    Set.ext fun x => isBelow_of_lists h'.toSameLists x
  unfold units
  rw [h'.next, hset]
  refine total_change (Finset.mem_range.mpr (h.known a r hr)) hbelow fun x _ hne => ?_
  simp only [amount, h'.id, h'.count, isStackable_of_id h'.id, if_neg hne]

theorem units_create (h : Valid rules w) (h' : Created w w' n) : w'.units rules S id = w.units rules S id := by
  have hset : { x | w'.IsBelow S x } = { x | w.IsBelow S x } := by
    refine Set.ext fun x => ?_
    simp only [Set.mem_ofPred_eq, IsBelow, h'.children h]
  have hnew : w.next ∉ { x | w.IsBelow S x } := not_below_of_loose fun c => h.loose le_rfl
  unfold units
  rw [h'.next, hset, total_succ hnew]
  refine total_congr (fun _ _ => Iff.rfl) fun x hx => ?_
  have hne : x ≠ w.next := fun e => hnew (e ▸ hx)
  simp only [amount, h'.others x hne, h'.isStackable hne]

end Units

end World
end ForgottenServer.Things
