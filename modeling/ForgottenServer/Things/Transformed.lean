import ForgottenServer.Things.Placement
import Mathlib.Data.List.Find

/-! # What transforming an item does

`transformItem` puts one item for another where that was, takes one out, or takes
it off and adds it again. Nothing else moves and no other item changes. -/
namespace ForgottenServer.Things
open ForgottenServer.Lib

/-- A type that is loaded has its own number. -/
def Rules.Numbered (rules : Rules) : Prop := ∀ id, (rules.items id).id = id ∨ (rules.items id).id = 0

/-! ## Items that change and items that are made -/

theorem create_id {items : ℕ → Decay.ItemType} {type count : ℕ} {y : Decay.Item}
    (h : Decay.Item.create items type count = some y) : y.id = Decay.Item.createId items type := by
  unfold Decay.Item.create at h
  dsimp only at h
  split at h
  · cases h
  split at h
  · rename_i hclass
    cases h
    unfold Decay.Item.createId
    rw [if_pos hclass]
    exact World.new_id items _ _
  · cases h
    exact World.new_id items _ _

namespace World
variable {rules : Rules} {maxItems : ℕ → ℕ} {w w' : World} {r : ℕ}

theorem placement_lift (r : ℕ) (f : Decay.Item → Decay.Item) :
    (w.setItem r (Item.lift f)).placement = w.placement := by
  have hlist : (w.setItem r (Item.lift f)).itemlist = w.itemlist := by
    funext c
    unfold itemlist
    rw [setItem_item Item.container fun _ => rfl]
  simp only [placement, hlist]
  rfl

theorem lift_other {x : ℕ} (hx : x ≠ r) (f : Decay.Item → Decay.Item) :
    (w.setItem r (Item.lift f)).item x = w.item x := Function.update_of_ne hx _ _

theorem lift_self (r : ℕ) (f : Decay.Item → Decay.Item) :
    (w.setItem r (Item.lift f)).item r = Item.lift f (w.item r) := Function.update_self ..

/-- A new item lies nowhere, with nothing in it. -/
structure Made (w w' : World) (y : Decay.Item) : Prop where
  placement : w'.placement = w.placement
  others : ∀ x, x ≠ w.next → w'.item x = w.item x
  id : (w'.item w.next).id = y.id
  attributes : (w'.item w.next).attributes = y.attributes

theorem createItem_made {type count : ℕ} (hfresh : (w.item w.next).container = none)
    (h : w.createItem rules maxItems type count = some w') :
    ∃ y, Decay.Item.create rules.plainTypes type count = some y ∧ Made w w' y := by
  obtain ⟨y, hy, hw⟩ := Option.map_eq_some_iff.mp h
  have hself : w'.item w.next = { id := y.id, count := y.count, attributes := y.attributes
                                  container := newContainer rules maxItems type } := by
    rw [← hw]
    exact Function.update_self ..
  have hother : ∀ x, x ≠ w.next → w'.item x = w.item x := by
    rw [← hw]
    exact fun x hx => Function.update_of_ne hx _ _
  refine ⟨y, hy, ?_, hother, by rw [hself], by rw [hself]⟩
  have hempty : ((newContainer rules maxItems type).map Container.itemlist).getD [] = [] := by
    unfold newContainer
    repeat' split
    all_goals rfl
  have hlist : w'.itemlist = w.itemlist := by
    funext c
    unfold itemlist
    by_cases hc : c = w.next
    · rw [hc, hself, hfresh]
      exact hempty
    · rw [hother c hc]
  simp only [World.placement, hlist]
  rw [← hw]

theorem children_of_placement (h : w'.placement = w.placement) (c : Cylinder) : w'.children c = w.children c := by
  rw [← children_placement, h, children_placement]

theorem hasThing_of_placement (h : w'.placement = w.placement) (hid : (w'.item r).id = (w.item r).id)
    (c : Cylinder) : w'.hasThing rules c r = w.hasThing rules c r := by
  have hchildren := children_of_placement h
  cases c with
  | container c => exact congrArg (fun l => decide (r ∈ l)) (hchildren (.container c))
  | player p => exact congrArg (fun l => decide (r ∈ l)) (hchildren (.player p))
  | tile t =>
    have hground : (w'.tile t).ground = (w.tile t).ground := congrFun (congrArg Placement.ground h) t
    have htop : (w'.tile t).topItems = (w.tile t).topItems := congrFun (congrArg Placement.topItems h) t
    have hdown : (w'.tile t).downItems = (w.tile t).downItems := congrFun (congrArg Placement.downItems h) t
    unfold hasThing type
    dsimp only
    rw [hground, htop, hdown, hid]

theorem inventory_of_placement (h : w'.placement = w.placement) {p i : ℕ} (hi : i ∈ slots) :
    (w'.player p).inventory i = (w.player p).inventory i := by
  have hslot := congrFun (congrFun (congrArg Placement.inventory h) p) i
  simpa only [placement, if_pos hi] using hslot

/-- Everything stays where it is and only `r` changes. -/
structure Altered (w w' : World) (r : ℕ) : Prop where
  placement : w'.placement = w.placement
  others : ∀ x, x ≠ r → (w'.item x).plain = (w.item x).plain

theorem Altered.of_still (h : Still w w') (r : ℕ) : Altered w w' r := ⟨h.placement, fun x _ => h.plain x⟩

theorem Altered.lift (w : World) (r : ℕ) (f : Decay.Item → Decay.Item) : Altered w (w.setItem r (Item.lift f)) r :=
  ⟨placement_lift r f, fun _ hx => congrArg Item.plain (lift_other hx f)⟩

theorem Altered.trans {w'' : World} (h : Altered w w' r) (h' : Altered w' w'' r) : Altered w w'' r :=
  ⟨h'.placement.trans h.placement, fun x hx => (h'.others x hx).trans (h.others x hx)⟩

theorem updateThing_altered {c : Cylinder} {id count : ℕ} (hr : w.hasThing rules c r = true) :
    Altered w (w.updateThing rules c r id count) r ∧ ((w.updateThing rules c r id count).item r).id = id := by
  have hset : Altered w (w.setIdAndCount rules r id count) r := .lift w r _
  have hid : ((w.setIdAndCount rules r id count).item r).id = id := by
    unfold setIdAndCount
    rw [lift_self]
    exact (setSubType_id _ _ _).trans (setID_id_count _ _ _).1
  unfold updateThing
  rw [if_neg (by simp [hr])]
  dsimp only
  split
  · have hweight := fun c diff => Still.updateItemWeight (w.setIdAndCount rules r id count).depth
      (w.setIdAndCount rules r id count) c diff
    exact ⟨hset.trans (.of_still (hweight _ _) r), ((hweight _ _).id r).trans hid⟩
  · exact ⟨hset, hid⟩

end World

/-! ## Where an item is -/

namespace Game
variable {rules : Rules} {maxItems : ℕ → ℕ} {g g' : Game} {c : Cylinder} {r r' : ℕ}

/-- How often an item waits to decay. -/
def occurrences (g : Game) (r : ℕ) : ℕ := g.toDecayItems.count r + ∑ b, (g.decayItems b).count r

/-- Every item lies in one place and knows it; what is not made yet lies nowhere and waits nowhere. -/
structure Sound (g : Game) : Prop where
  itemlist : ∀ c, (g.world.itemlist c).Nodup
  inventory : ∀ p, ∀ i ∈ slots, ∀ j ∈ slots, ∀ x,
    (g.world.player p).inventory i = some x → (g.world.player p).inventory j = some x → i = j
  tile : ∀ t, (g.world.children (.tile t)).Nodup
  parent : ∀ c x, x ∈ g.world.children c → (g.world.item x).parent = some c
  apart : ∀ x, (g.world.item x).parent ≠ some (.container x)
  known : ∀ c x, x ∈ g.world.children c → x < g.world.next
  fresh : ∀ x, g.world.next ≤ x → (g.world.item x).container = none
  queued : ∀ x, g.world.next ≤ x → g.occurrences x = 0

theorem Sound.only (h : g.Sound) (hr : r ∈ g.world.children c) (c' : Cylinder)
    (hr' : r ∈ g.world.children c') : c' = c :=
  Option.some.inj ((h.parent c' r hr').symm.trans (h.parent c r hr))

theorem getThingIndex_found (h : g.getThingIndex rules c r ≠ -1) : g.world.hasThing rules c r = true := by
  unfold getThingIndex at h
  by_contra hnot
  rw [Bool.not_eq_true] at hnot
  rw [hnot] at h
  exact h rfl

/-- The index at which an item is found is the one it is replaced at. -/
theorem replaceThing_swapped (hnodup : ∀ t, (g.world.children (.tile t)).Nodup)
    (hinventory : ∀ p, ∀ i ∈ slots, ∀ j ∈ slots, ∀ x,
      (g.world.player p).inventory i = some x → (g.world.player p).inventory j = some x → i = j)
    (hone : ∀ c', r ∈ g.world.children c' → c' = c) (hr : g.world.hasThing rules c r = true) (r' : ℕ) :
    World.Swapped g.world (g.replaceThing rules c (g.getThingIndex rules c r).toNat r') r r' := by
  have hmem := World.mem_of_hasThing hr
  unfold replaceThing getThingIndex
  rw [if_neg (by simp [hr])]
  cases c with
  | container c =>
    dsimp only
    unfold World.getThingIndex
    rw [if_neg (by simp [hr])]
    exact World.containerReplaceThing_swapped hone hmem
  | player p =>
    obtain ⟨i, hi, hx⟩ := World.mem_children_player.mp hmem
    dsimp only
    unfold World.getThingIndex
    rw [if_neg (by simp [hr])]
    dsimp only
    cases hfind : slots.find? fun slot => (g.world.player p).inventory slot = some r with
    | none => exact absurd (by simpa using hx) (List.find?_eq_none.mp hfind i hi)
    | some slot =>
      have hslot : (g.world.player p).inventory slot = some r := by simpa using List.find?_some hfind
      have hin := List.mem_of_find?_eq_some hfind
      exact World.playerReplaceThing_swapped hone hin hslot fun j hj hjr =>
        hinventory p j hj slot hin r hjr hslot
  | tile t =>
    obtain ⟨hground, htop, hdown⟩ := World.tileReplaceThing_swapped (g.creatures t) r' hone (hnodup t)
    dsimp only
    split
    · rename_i hg
      exact hground hg
    · rename_i hg
      simp only [World.hasThing, hg, decide_false, Bool.false_or] at hr
      split
      · rename_i ht
        rw [if_pos ht] at hr
        have hindex : ((if (g.world.tile t).ground.isSome = true then 0 else -1 : ℤ) +
            ((g.world.tile t).topItems.idxOf r : ℕ) + 1).toNat =
            (if (g.world.tile t).ground.isSome then 1 else 0) + (g.world.tile t).topItems.idxOf r := by
          split <;> omega
        rw [hindex]
        exact htop hg (by simpa using hr)
      · rename_i ht
        rw [if_neg ht] at hr
        have hindex : ((if (g.world.tile t).ground.isSome = true then 0 else -1 : ℤ) +
            ((g.world.tile t).topItems.length : ℕ) + (g.creatures t : ℕ) +
              ((g.world.tile t).downItems.idxOf r : ℕ) + 1).toNat =
            (if (g.world.tile t).ground.isSome then 1 else 0) + ((g.world.tile t).topItems.length +
              g.creatures t + (g.world.tile t).downItems.idxOf r) := by
          split <;> omega
        rw [hindex]
        exact hdown hg (by simpa using hr)

/-- The replacement has the old index if it belongs among the same items. -/
theorem getThingIndex_replace (hp : g'.world.placement = g.world.placement.replace r r')
    (hcreatures : g'.creatures = g.creatures)
    (htop : (g'.world.type rules r').alwaysOnTop = (g.world.type rules r).alwaysOnTop)
    (hnew : r' = r ∨ ∀ c, r' ∉ g.world.children c) (hr : g.world.hasThing rules c r = true) :
    g'.getThingIndex rules c r' = g.getThingIndex rules c r := by
  have hindex : ∀ l : List ℕ, r' = r ∨ r' ∉ l → (l.replace r r').idxOf r' = l.idxOf r := by
    rintro l (rfl | hl)
    · rw [Substitution.replace_self]
    · exact Substitution.idxOf_replace hl
  cases c with
  | container c =>
    have hlist : g'.world.itemlist c = (g.world.itemlist c).replace r r' :=
      congrFun (congrArg Placement.itemlist hp) c
    have hmem : r ∈ g.world.itemlist c := World.mem_of_hasThing hr
    have hr' : g'.world.hasThing rules (.container c) r' = true := by
      simp only [World.hasThing, hlist, decide_eq_true_eq]
      exact Substitution.mem_replace hmem
    unfold getThingIndex
    simp only [hr, hr', World.getThingIndex, Bool.not_true, Bool.false_eq_true, if_false]
    rw [hlist, hindex _ (hnew.imp_right fun h => (h (.container c) : r' ∉ g.world.itemlist c))]
  | player p =>
    have hslot : ∀ i ∈ slots, ((g'.world.player p).inventory i = some r' ↔
        (g.world.player p).inventory i = some r) := by
      intro i hi
      have hi' := congrFun (congrFun (congrArg Placement.inventory hp) p) i
      simp only [World.placement, Placement.replace, Placement.map, if_pos hi] at hi'
      rw [hi']
      split
      · rename_i h
        exact ⟨fun _ => h, fun _ => rfl⟩
      · rename_i h
        refine ⟨fun h' => ?_, fun h' => absurd h' h⟩
        rcases hnew with hnew | hnew
        · exact hnew ▸ h'
        · exact absurd (World.mem_children_player.mpr ⟨i, hi, h'⟩) (hnew (.player p))
    obtain ⟨i, hi, hx⟩ := World.mem_children_player.mp (World.mem_of_hasThing hr)
    have hr' : g'.world.hasThing rules (.player p) r' = true := by
      simp only [World.hasThing, decide_eq_true_eq]
      exact World.mem_children_player.mpr ⟨i, hi, (hslot i hi).mpr hx⟩
    have hfind : (slots.find? fun slot => (g'.world.player p).inventory slot = some r') =
        slots.find? fun slot => (g.world.player p).inventory slot = some r :=
      List.find?_congr fun i hi => decide_eq_decide.mpr (hslot i hi)
    unfold getThingIndex
    simp only [hr, hr', World.getThingIndex, Bool.not_true, Bool.false_eq_true, if_false, hfind]
  | tile t =>
    have hground : (g'.world.tile t).ground =
        if (g.world.tile t).ground = some r then some r' else (g.world.tile t).ground :=
      congrFun (congrArg Placement.ground hp) t
    have htops : (g'.world.tile t).topItems = (g.world.tile t).topItems.replace r r' :=
      congrFun (congrArg Placement.topItems hp) t
    have hdowns : (g'.world.tile t).downItems = (g.world.tile t).downItems.replace r r' :=
      congrFun (congrArg Placement.downItems hp) t
    have hnot : r' = r ∨ (g.world.tile t).ground ≠ some r' ∧ r' ∉ (g.world.tile t).topItems ∧
        r' ∉ (g.world.tile t).downItems := hnew.imp_right fun h => by
      have h := h (.tile t)
      rw [World.mem_children_tile] at h
      exact ⟨fun e => h (.inl e), fun e => h (.inr (.inl e)), fun e => h (.inr (.inr e))⟩
    unfold getThingIndex
    by_cases hg : (g.world.tile t).ground = some r
    · rw [if_pos hg] at hground
      have hr' : g'.world.hasThing rules (.tile t) r' = true := by simp [World.hasThing, hground]
      simp only [hr, hr', hg, hground, Bool.not_true, Bool.false_eq_true, if_false, if_true]
    · rw [if_neg hg] at hground
      have hg' : (g.world.tile t).ground ≠ some r' := by
        rcases hnot with hnot | hnot
        · rwa [hnot]
        · exact hnot.1
      have hr' : g'.world.hasThing rules (.tile t) r' = true := by
        simp only [World.hasThing, hg, decide_false, Bool.false_or] at hr
        simp only [World.hasThing, hground, hg', decide_false, Bool.false_or, htop, htops, hdowns]
        split
        · rename_i ht
          rw [if_pos ht] at hr
          simpa using Substitution.mem_replace (by simpa using hr)
        · rename_i ht
          rw [if_neg ht] at hr
          simpa using Substitution.mem_replace (by simpa using hr)
      simp only [hr, hr', hg, hg', hground, htop, htops, hdowns, hcreatures, List.length_replace, Bool.not_true,
        Bool.false_eq_true, if_false, hindex _ (hnot.imp_right fun h => h.2.1),
        hindex _ (hnot.imp_right fun h => h.2.2)]

/-! ## One item for another -/

/-- `r'` lies where `r` lay, at the same index if it belongs among the same items; the others
are what they were. -/
structure Exchanged (rules : Rules) (g g' : Game) (c : Cylinder) (r r' : ℕ) : Prop where
  placement : g'.world.placement = g.world.placement.replace r r'
  others : ∀ x, x ≠ r → x ≠ r' → (g'.world.item x).plain = (g.world.item x).plain
  single : r' = r ∨ ∀ c', r' ∉ g.world.children c'
  index : (g'.world.type rules r').alwaysOnTop = (g.world.type rules r).alwaysOnTop →
    g'.getThingIndex rules c r' = g.getThingIndex rules c r

theorem Exchanged.of_altered {w : World} (h : World.Altered g.world w r)
    (hr : g.world.hasThing rules c r = true) : Exchanged rules g { g with world := w } c r r := by
  have hp : w.placement = g.world.placement.replace r r := by rw [Placement.replace_self, h.placement]
  exact ⟨hp, fun x hx _ => h.others x hx, .inl rfl, fun htop => getThingIndex_replace hp rfl htop (.inl rfl) hr⟩

theorem Exchanged.after {g'' : Game} (h : Exchanged rules g g' c r r') (hr : g.world.hasThing rules c r = true)
    (hw : World.Altered g'.world g''.world r') (hcreatures : g''.creatures = g.creatures) :
    Exchanged rules g g'' c r r' :=
  ⟨hw.placement.trans h.placement, fun x hx hx' => (hw.others x hx').trans (h.others x hx hx'), h.single,
    fun htop => getThingIndex_replace (hw.placement.trans h.placement) hcreatures htop h.single hr⟩

theorem update_exchanged (hnumbered : rules.Numbered) {newId : ℕ} {newCount : ℤ}
    (hr : g.world.hasThing rules c r = true) (hknown : (rules.items newId).id ≠ 0) :
    Exchanged rules g (g.update rules c r newId newCount) c r r ∧
      ((g.update rules c r newId newCount).world.item r).id = newId := by
  have hitem : (if (rules.items (g.world.item r).id).id ≠ (rules.items newId).id then newId
      else (g.world.item r).id) = newId := by
    split
    · rfl
    · rename_i hsame
      have hsame := not_not.mp hsame
      have hnew := (hnumbered newId).resolve_right hknown
      have hold := (hnumbered (g.world.item r).id).resolve_right (hsame ▸ hknown)
      rw [← hold, hsame, hnew]
  have hnotify : World.Altered g.world (g.world.notify rules c) r := .of_still (.notify c) r
  have hdefault : ∀ p : Prop, [Decidable p] → World.Altered g.world
      (if p then (g.world.notify rules c).setItem r (Item.lift fun x => x.setDefaultSubtype rules.plainTypes)
        else g.world.notify rules c) r ∧
      ((if p then (g.world.notify rules c).setItem r (Item.lift fun x => x.setDefaultSubtype rules.plainTypes)
        else g.world.notify rules c).item r).id = (g.world.item r).id := by
    intro p _
    have hid : ((g.world.notify rules c).item r).id = (g.world.item r).id := by rw [World.notify_item]
    split
    · refine ⟨hnotify.trans (.lift _ r _), ?_⟩
      rw [World.lift_self, ← hid]
      show (Decay.Item.setDefaultSubtype rules.plainTypes _).id = _
      unfold Decay.Item.setDefaultSubtype
      dsimp only
      repeat' split
      all_goals rfl
    · exact ⟨hnotify, hid⟩
  unfold update
  dsimp only
  rw [hitem]
  generalize hw : (if (rules.items (g.world.item r).id).id ≠ (rules.items newId).id ∧
    (rules.items newId).group ≠ (rules.items (g.world.item r).id).group then
      (g.world.notify rules c).setItem r (Item.lift fun x => x.setDefaultSubtype rules.plainTypes)
    else g.world.notify rules c) = w
  obtain ⟨haltered, hid⟩ := hw ▸ hdefault _
  have hr' : w.hasThing rules c r = true := by
    rw [World.hasThing_of_placement haltered.placement hid]
    exact hr
  obtain ⟨hupdated, hid'⟩ := @World.updateThing_altered rules w r c newId _ hr'
  exact ⟨.of_altered ((haltered.trans hupdated).trans (.of_still (.notify c) r)) hr,
    (congrArg Item.id (congrFun (World.notify_item c) r)).trans hid'⟩

theorem exchange_exchanged (hsound : g.Sound) {type count : ℕ} (hr : g.world.hasThing rules c r = true)
    (h : g.exchange rules maxItems c (g.getThingIndex rules c r) r type count = some g') :
    Exchanged rules g g' c r g.world.next ∧ (∃ y, Decay.Item.create rules.plainTypes type count = some y ∧
        (g'.world.item g.world.next).id = y.id ∧
        (g'.world.item g.world.next).attributes = y.attributes) ∧
      g'.toDecayItems = g.toDecayItems ∧ g'.decayItems = g.decayItems ∧ g'.creatures = g.creatures := by
  obtain ⟨w, hw, rfl⟩ := Option.map_eq_some_iff.mp h
  obtain ⟨y, hy, hmade⟩ := World.createItem_made (hsound.fresh _ le_rfl) hw
  have hmem := World.mem_of_hasThing hr
  have hne : r ≠ g.world.next := (hsound.known c r hmem).ne
  have hself : w.item r = g.world.item r := hmade.others r hne
  have hp : w.placement = g.world.placement.replace r r := by rw [Placement.replace_self, hmade.placement]
  have hchildren := World.children_of_placement hmade.placement
  have hr' : w.hasThing rules c r = true := by
    rw [World.hasThing_of_placement hmade.placement (congrArg Item.id hself)]
    exact hr
  have hindex : Game.getThingIndex rules { g with world := w } c r = g.getThingIndex rules c r :=
    getThingIndex_replace hp rfl (by simp only [World.type, hself]) (.inl rfl) hr
  have hswapped : World.Swapped w
      (Game.replaceThing rules { g with world := w } c (g.getThingIndex rules c r).toNat g.world.next)
      r g.world.next := by
    rw [← hindex]
    refine replaceThing_swapped (g := { g with world := w }) (fun t => ?_) (fun p i hi j hj x hx hy => ?_)
      (fun c' hc' => ?_) hr' _
    · rw [hchildren]
      exact hsound.tile t
    · rw [World.inventory_of_placement hmade.placement hi] at hx
      rw [World.inventory_of_placement hmade.placement hj] at hy
      exact hsound.inventory p i hi j hj x hx hy
    · rw [hchildren] at hc'
      exact hsound.only hmem c' hc'
  have hnotify := fun w => @World.Still.notify rules w c
  have hfinal := ((hswapped.after (hnotify _)).after (.setParent r none)).after (hnotify _)
  have hplain : ∀ x, x ≠ g.world.next → (Item.plain _) = (g.world.item x).plain := fun x hx =>
    (hfinal.plain x).trans (congrArg Item.plain (hmade.others x hx))
  have hplacement := hfinal.placement.trans (congrArg (Placement.replace · r g.world.next) hmade.placement)
  have hnew : ∀ c', g.world.next ∉ g.world.children c' := fun c' hc' => (hsound.known c' _ hc').false
  refine ⟨⟨hplacement, fun x _ hx => hplain x hx, .inr hnew, fun htop => ?_⟩, ⟨y, hy, ?_, ?_⟩, rfl, rfl, rfl⟩
  · exact getThingIndex_replace hplacement rfl htop (.inr hnew) hr
  · exact (congrArg Decay.Item.id (hfinal.plain _)).trans hmade.id
  · exact (congrArg Decay.Item.attributes (hfinal.plain _)).trans hmade.attributes

/-! ## Taking out and adding again -/

theorem Sound.found (h : g.Sound) (hparent : g.getParent r = some c) (hr : g.world.hasThing rules c r = true) :
    g.world.kind r ≠ some .depotChest ∧ g.world.kind r ≠ some .inbox := by
  have hraw := h.parent c r (World.mem_of_hasThing hr)
  have hnot : ∀ k, g.world.kind r = some k → k ≠ .depotChest ∧ k ≠ .inbox := by
    intro k hk
    unfold World.kind at hk
    simp only [getParent, World.getParent, hk, hraw] at hparent
    constructor
    all_goals
      rintro rfl
      cases c with
      | container l => exact h.apart l (by simpa using hparent)
      | player p => simp at hparent
      | tile t => simp at hparent
  exact ⟨fun hk => (hnot _ hk).1 rfl, fun hk => (hnot _ hk).2 rfl⟩

theorem removeThing_removed (h : g.Sound) (hr : g.world.hasThing rules c r = true) :
    World.Removed g.world (g.world.removeThing rules c r (g.world.item r).count) r := by
  have hmem := World.mem_of_hasThing hr
  have hone := h.only hmem
  have hpart : g.world.isPart rules r (g.world.item r).count = false := by simp [World.isPart]
  cases c with
  | container c => exact World.containerRemoveThing_removed hone hmem hpart
  | player p => exact World.playerRemoveThing_removed hone hmem hpart (h.inventory p)
  | tile t => exact World.tileRemoveThing_removed hone (h.tile t) hr hpart

theorem renamed_id (newId : ℕ) (newCount : ℤ) (x : Decay.Item) : (renamed rules newId newCount x).id = newId := by
  unfold renamed
  dsimp only
  split
  · exact (World.setSubType_id _ _ _).trans (World.setID_id_count _ _ _).1
  · exact (World.setID_id_count _ _ _).1

/-- The item is off its place and is what it is to be; the others are what and where they were. -/
structure TakenOff (g : Game) (w : World) (r newId : ℕ) : Prop where
  placement : w.placement = g.world.placement.erase r
  others : ∀ x, x ≠ r → (w.item x).plain = (g.world.item x).plain
  id : (w.item r).id = newId

/-- `addThing` has put the item into the cylinder, or has not. -/
structure Readded (rules : Rules) (w : World) (g' : Game) (c : Cylinder) (r : ℕ) : Prop where
  keeps : World.Keeps (r :: (w.makesRoom rules c r).toList) w g'.world
  settled : World.Settled w g'.world c r (w.accepts rules c r)
  front : ∀ d, c = .container d → w.accepts rules c r = true → g'.world.itemlist d = r :: w.itemlist d

theorem readd_readded (h : g.Sound) (hparent : g.getParent r = some c)
    (hr : g.world.hasThing rules c r = true) (newId : ℕ) (newCount : ℤ) :
    ∃ w, TakenOff g w r newId ∧ Readded rules w (g.readd rules c r newId newCount).1 c r ∧
      (g.readd rules c r newId newCount).2 = (if w.accepts rules c r then some r else none) ∧
      ∀ x, (g.readd rules c r newId newCount).1.occurrences x = g.occurrences x := by
  obtain ⟨hchest, hinbox⟩ := h.found hparent hr
  have hremoved := removeThing_removed h hr
  have hnotify := fun w => @World.Still.notify rules w c
  unfold readd
  dsimp only
  generalize hw₁ : (g.world.removeThing rules c r (g.world.item r).count).notify rules c = w₁
  have hstill := hw₁ ▸ hnotify (g.world.removeThing rules c r (g.world.item r).count)
  have hitem : w₁.item = (g.world.removeThing rules c r (g.world.item r).count).item :=
    hw₁ ▸ World.notify_item c
  generalize hw : w₁.setItem r (Item.lift (renamed rules newId newCount)) = w
  have hplacement : w.placement = g.world.placement.erase r := by
    rw [← hw, World.placement_lift, hstill.placement, hremoved.placement]
  have hself : w.item r = Item.lift (renamed rules newId newCount) (w₁.item r) := by
    rw [← hw]
    exact World.lift_self r _
  have hid : (w.item r).id = newId := by
    rw [hself]
    exact renamed_id newId newCount _
  have htaken : TakenOff g w r newId := by
    refine ⟨hplacement, fun x hx => ?_, hid⟩
    rw [← hw, World.lift_other hx, hitem]
    exact hremoved.plain x
  have hloose : World.Loose w w r none := by
    refine ⟨World.loose_of_erase hplacement h.itemlist h.tile, rfl, ?_⟩
    rw [hself]
    exact (congrArg Item.parent (congrFun hitem r)).trans hremoved.parent
  obtain ⟨hkeeps, hsettled, hfront⟩ := @World.addThing_added rules w r c hloose
  have hkind : w.kind r = g.world.kind r := by
    refine World.kind_of_plate ?_
    rw [hself]
    show (w₁.item r).container.map _ = _
    rw [hitem, hremoved.plate]
  have hkind' : (w.addThing rules c 0 r).kind r = g.world.kind r :=
    (World.kind_of_plate ((World.addThing_grows c 0).plate r)).trans hkind
  have hget : (w.addThing rules c 0 r).getParent (.container r) =
      if w.accepts rules c r then some c else none := by
    rw [World.getParent_of_kind (hkind' ▸ hchest) (hkind' ▸ hinbox), hsettled.parent]
  rw [hget]
  refine ⟨w, htaken, ?_⟩
  cases haccepts : w.accepts rules c r with
  | false => exact ⟨⟨hkeeps, hsettled, hfront⟩, rfl, fun _ => rfl⟩
  | true =>
    have hlast := hnotify (w.addThing rules c 0 r)
    refine ⟨⟨hkeeps.trans (.of_still hlast), hsettled.after hlast ?_, fun d hd ha => ?_⟩, rfl, fun _ => rfl⟩
    · exact congrArg Item.parent (congrFun (World.notify_item c) r)
    · exact (hlast.itemlist d).trans (hfront d hd ha)

/-- `internalRemoveItem` asks whether the whole item may go. -/
def removable (rules : Rules) (g : Game) (c : Cylinder) (r : ℕ) : Bool :=
  g.world.queryRemove rules c r (g.world.item r).count { ignoreNotMoveable := true } false = .noError &&
    g.canRemove r

theorem internalRemoveItem_removed (h : g.Sound) (hparent : g.getParent r = some c)
    (hr : g.world.hasThing rules c r = true) :
    (g.removable rules c r = false → g.internalRemoveItem rules r = g) ∧ (g.removable rules c r = true →
        (g.internalRemoveItem rules r).world.placement = g.world.placement.erase r ∧
        (∀ x, ((g.internalRemoveItem rules r).world.item x).plain = (g.world.item x).plain) ∧
        ∀ x, (g.internalRemoveItem rules r).occurrences x = g.occurrences x) := by
  have hremoved := removeThing_removed h hr
  have hstill := @World.Still.notify rules (g.world.removeThing rules c r (g.world.item r).count) c
  unfold internalRemoveItem removable
  rw [hparent]
  dsimp only
  refine ⟨fun hnot => ?_, fun hyes => ?_⟩
  · split
    · rfl
    · rename_i hquery
      rw [decide_eq_true (not_not.mp hquery), Bool.true_and] at hnot
      rw [if_pos (by simp [hnot])]
  · rw [Bool.and_eq_true, decide_eq_true_eq] at hyes
    rw [if_neg (not_not.mpr hyes.1), if_neg (by simp [hyes.2])]
    exact ⟨hstill.placement.trans hremoved.placement, fun x => (hstill.plain x).trans (hremoved.plain x), fun _ => rfl⟩

/-! ## What `transformItem` does -/

/-- The item is as it should be, is not found, cannot be transformed, or the new type is unknown. -/
def Idle (rules : Rules) (g : Game) (r newId : ℕ) (newCount : ℤ) : Prop :=
  g.isSame rules r newId newCount = true ∨ g.getParent r = none ∨
    (∃ c, g.getParent r = some c ∧ g.getThingIndex rules c r = -1) ∨ g.canTransform r = false ∨
    (rules.items newId).id = 0

/-- It is not, and the two types are both top items or both not. -/
structure InPlace (rules : Rules) (g : Game) (c : Cylinder) (r newId : ℕ) (newCount : ℤ) : Prop where
  parent : g.getParent r = some c
  busy : ¬g.Idle rules r newId newCount
  top : (g.world.type rules r).alwaysOnTop = (rules.items newId).alwaysOnTop

def UsedUp (rules : Rules) (g : Game) (r : ℕ) (newCount : ℤ) : Prop :=
  newCount = 0 ∧ ((g.world.type rules r).stackable = true ∨ (g.world.item r).attr.charges.isSome = true)

/-- Nothing is left of it. -/
def Vanishes (rules : Rules) (g : Game) (r newId : ℕ) (newCount : ℤ) : Prop :=
  g.UsedUp rules r newCount ∧ ((g.world.type rules r).stackable = true ∨ g.nextId rules r newId < 0)

/-- Something else is left of it. -/
def Decays (rules : Rules) (g : Game) (r newId : ℕ) (newCount : ℤ) : Prop :=
  g.UsedUp rules r newCount ∧ (g.world.type rules r).stackable = false ∧ 0 ≤ g.nextId rules r newId ∧
    g.nextId rules r newId ≠ newId

/-- There is nothing to make of the item, or it may not be removed. -/
def Refused (rules : Rules) (g : Game) (c : Cylinder) (r newId : ℕ) (newCount : ℤ) : Prop :=
  (g.world.type rules r).type ≠ (rules.items newId).type ∧
      Decay.Item.create rules.plainTypes newId (if newCount = -1 then 0 else (newCount % 2 ^ 16).toNat) = none ∨
    (g.world.type rules r).type = (rules.items newId).type ∧
      (g.Vanishes rules r newId newCount ∧ g.removable rules c r = false ∨ g.Decays rules r newId newCount ∧
          Decay.Item.create rules.plainTypes (g.nextId rules r newId % 2 ^ 16).toNat 1 = none)

/-- The outcomes of `transformItem`. Whether an item that is made of one without
charges decays is left open. -/
inductive Transformed (rules : Rules) (g : Game) (r newId : ℕ) (newCount : ℤ) : Game → Option ℕ → Prop
  | idle {answer : Option ℕ} (h : g.Idle rules r newId newCount)
    (hanswer : answer = if g.getParent r = none ∧ g.isSame rules r newId newCount = false then none else some r) :
    Transformed rules g r newId newCount g answer
  | readded {c : Cylinder} {w : World} {g' : Game} (hc : g.getParent r = some c)
    (hbusy : ¬g.Idle rules r newId newCount)
    (htop : (g.world.type rules r).alwaysOnTop ≠ (rules.items newId).alwaysOnTop)
    (htaken : TakenOff g w r newId) (h : Readded rules w g' c r)
    (hqueue : ∀ x, g'.occurrences x = g.occurrences x) :
    Transformed rules g r newId newCount g' (if w.accepts rules c r then some r else none)
  | refused {c : Cylinder} (hc : g.InPlace rules c r newId newCount) (h : g.Refused rules c r newId newCount) :
    Transformed rules g r newId newCount g none
  | updated {c : Cylinder} {g' : Game} (hc : g.InPlace rules c r newId newCount)
    (htype : (g.world.type rules r).type = (rules.items newId).type)
    (hvanish : ¬g.Vanishes rules r newId newCount) (hdecay : ¬g.Decays rules r newId newCount)
    (h : Exchanged rules g g' c r r) (hid : (g'.world.item r).id = newId)
    (hqueue : ∀ x, g'.occurrences x = g.occurrences x) :
    Transformed rules g r newId newCount g' (some r)
  | removed {c : Cylinder} {g' : Game} (hc : g.InPlace rules c r newId newCount)
    (htype : (g.world.type rules r).type = (rules.items newId).type)
    (hvanish : g.Vanishes rules r newId newCount)
    (hplacement : g'.world.placement = g.world.placement.erase r)
    (hothers : ∀ x, (g'.world.item x).plain = (g.world.item x).plain)
    (hqueue : ∀ x, g'.occurrences x = g.occurrences x) :
    Transformed rules g r newId newCount g' none
  | usedUp {c : Cylinder} {g' : Game} (hc : g.InPlace rules c r newId newCount)
    (htype : (g.world.type rules r).type = (rules.items newId).type)
    (hdecay : g.Decays rules r newId newCount) (h : Exchanged rules g g' c r g.world.next)
    (hid : (g'.world.item g.world.next).id =
      Decay.Item.createId rules.plainTypes (g.nextId rules r newId % 2 ^ 16).toNat)
    (hqueue : ∀ x, x ≠ g.world.next → g'.occurrences x = g.occurrences x) :
    Transformed rules g r newId newCount g' (some g.world.next)
  | replaced {c : Cylinder} {g' : Game} (hc : g.InPlace rules c r newId newCount)
    (htype : (g.world.type rules r).type ≠ (rules.items newId).type)
    (h : Exchanged rules g g' c r g.world.next)
    (hid : (g'.world.item g.world.next).id = Decay.Item.createId rules.plainTypes newId)
    (hqueue : ∀ x, g'.occurrences x = if x = g.world.next then
      if 0 < (g'.world.item x).plain.getDuration then 1 else 0 else g.occurrences x) :
    Transformed rules g r newId newCount g' (some g.world.next)

section Outcomes
variable {newId : ℕ} {newCount : ℤ}

theorem exchange_none {itemIndex : ℤ} {type count : ℕ} : g.exchange rules maxItems c itemIndex r type count = none ↔
      Decay.Item.create rules.plainTypes type count = none := by
  simp only [exchange, World.createItem, Option.map_eq_none_iff]

/-- A new item is queued once if it has a duration, and no other is queued. -/
theorem schedule_queue (hsound : g.Sound) {type count : ℕ} (hr : g.world.hasThing rules c r = true)
    (h : g.exchange rules maxItems c (g.getThingIndex rules c r) r type count = some g') :
    Exchanged rules g (g'.schedule g.world.next) c r g.world.next ∧
      ((g'.schedule g.world.next).world.item g.world.next).id = Decay.Item.createId rules.plainTypes type ∧
      ∀ x, (g'.schedule g.world.next).occurrences x = if x = g.world.next then
        if 0 < ((g'.schedule g.world.next).world.item x).plain.getDuration then 1 else 0
          else g.occurrences x := by
  obtain ⟨hexchanged, ⟨y, hy, hid, hattributes⟩, hlist, hbuckets, hcreatures⟩ := exchange_exchanged hsound hr h
  have hqueue : ∀ x, g'.occurrences x = g.occurrences x := fun x => by
    rw [occurrences, occurrences, hlist, hbuckets]
  have hnone : g.occurrences g.world.next = 0 := hsound.queued _ le_rfl
  have hfresh : (g'.world.item g.world.next).plain.getDecaying = .decayingFalse := by
    rw [← (Decay.Item.create_fresh rules.plainTypes hy).1]
    simp only [Decay.Item.getDecaying, Decay.Item.attr, Item.plain, hattributes]
  unfold schedule
  dsimp only
  split
  · rename_i hdue
    have hself := World.lift_self (w := g'.world) g.world.next (·.setDecaying .decayingTrue)
    refine ⟨hexchanged.after hr (.lift _ _ _) hcreatures, ?_, fun x => ?_⟩
    · rw [hself]
      exact hid.trans (create_id hy)
    · have hcons : ∀ l : List ℕ, (g.world.next :: l).count x = l.count x + if x = g.world.next then 1 else 0 := by
        intro l
        by_cases hx : x = g.world.next
        · rw [hx, List.count_cons_self, if_pos rfl]
        · rw [List.count_cons_of_ne (Ne.symm hx), if_neg hx, Nat.add_zero]
      have hnow : occurrences { g' with
          world := g'.world.setItem g.world.next (Item.lift (·.setDecaying .decayingTrue))
          toDecayItems := g.world.next :: g'.toDecayItems } x =
            g'.occurrences x + if x = g.world.next then 1 else 0 := by
        simp only [occurrences, hcons]
        omega
      rw [hnow, hqueue]
      by_cases hx : x = g.world.next
      · have hduration : 0 < ((g'.world.setItem g.world.next
            (Item.lift (·.setDecaying .decayingTrue))).item g.world.next).plain.getDuration := by
          rw [hself]
          exact hdue.1
        rw [hx, hnone, if_pos rfl, if_pos rfl, if_pos hduration]
      · rw [if_neg hx, if_neg hx, Nat.add_zero]
  · rename_i hnot
    refine ⟨hexchanged, hid.trans (create_id hy), fun x => ?_⟩
    rw [hqueue]
    by_cases hx : x = g.world.next
    · have hduration : ¬0 < (g'.world.item g.world.next).plain.getDuration := fun hpos =>
        hnot ⟨hpos, by rw [hfresh]; decide⟩
      rw [hx, hnone, if_pos rfl, if_neg hduration]
    · rw [if_neg hx]

theorem useUp_transformed (hsound : g.Sound) {again : Game × Option ℕ}
    (hplace : g.InPlace rules c r newId newCount) (hr : g.world.hasThing rules c r = true)
    (htype : (g.world.type rules r).type = (rules.items newId).type) (hused : g.UsedUp rules r newCount)
    (hagain : ¬g.Vanishes rules r newId newCount → ¬g.Decays rules r newId newCount →
      Transformed rules g r newId newCount again.1 again.2) :
    Transformed rules g r newId newCount (g.useUp rules maxItems c r newId again).1
      (g.useUp rules maxItems c r newId again).2 := by
  have hremove : g.Vanishes rules r newId newCount →
      Transformed rules g r newId newCount (g.internalRemoveItem rules r) none := by
    intro hvanish
    obtain ⟨hno, hyes⟩ := internalRemoveItem_removed hsound hplace.parent hr
    cases hremovable : g.removable rules c r with
    | false =>
      rw [hno hremovable]
      exact .refused hplace (.inr ⟨htype, .inl ⟨hvanish, hremovable⟩⟩)
    | true =>
      obtain ⟨hplacement, hothers, hqueue⟩ := hyes hremovable
      exact .removed hplace htype hvanish hplacement hothers hqueue
  unfold useUp
  dsimp only
  split
  · rename_i hstack
    exact hremove ⟨hused, .inl hstack⟩
  rename_i hstack
  split
  · rename_i hneg
    exact hremove ⟨hused, .inr hneg⟩
  rename_i hneg
  split
  · rename_i hne
    have hdecays : g.Decays rules r newId newCount :=
      ⟨hused, Bool.eq_false_iff.mpr hstack, not_lt.mp hneg, hne⟩
    split
    · rename_i hnone
      exact .refused hplace (.inr ⟨htype, .inr ⟨hdecays, exchange_none.mp hnone⟩⟩)
    · rename_i g' hsome
      obtain ⟨hexchanged, ⟨y, hy, hid, -⟩, hlist, hbuckets, -⟩ := exchange_exchanged hsound hr hsome
      refine .usedUp hplace htype hdecays hexchanged (hid.trans (create_id hy)) fun x _ => ?_
      rw [occurrences, occurrences, hlist, hbuckets]
  · rename_i heq
    exact hagain (fun h => h.2.elim hstack hneg) fun h => heq h.2.2.2

theorem remake_transformed (hsound : g.Sound) (hplace : g.InPlace rules c r newId newCount)
    (hr : g.world.hasThing rules c r = true) (htype : (g.world.type rules r).type ≠ (rules.items newId).type) :
    Transformed rules g r newId newCount (g.remake rules maxItems c r newId newCount).1
      (g.remake rules maxItems c r newId newCount).2 := by
  unfold remake
  dsimp only
  split
  · rename_i hnone
    exact .refused hplace (.inl ⟨htype, exchange_none.mp hnone⟩)
  · rename_i g' hsome
    obtain ⟨hexchanged, hid, hqueue⟩ := schedule_queue hsound hr hsome
    exact .replaced hplace htype hexchanged hid hqueue

theorem transformStep_transformed (hsound : g.Sound) (hnumbered : rules.Numbered) {again : Game × Option ℕ}
    (hagain : ∀ c, g.InPlace rules c r newId newCount →
      (g.world.type rules r).type = (rules.items newId).type → ¬g.Vanishes rules r newId newCount →
      ¬g.Decays rules r newId newCount → Transformed rules g r newId newCount again.1 again.2) :
    Transformed rules g r newId newCount (g.transformStep rules maxItems r newId newCount again).1
      (g.transformStep rules maxItems r newId newCount again).2 := by
  unfold transformStep
  by_cases hsame : g.isSame rules r newId newCount = true
  · rw [if_pos hsame]
    exact .idle (.inl hsame) (by simp [hsame])
  rw [if_neg hsame]
  cases hparent : g.getParent r with
  | none => exact .idle (.inr (.inl hparent)) (by simp [hparent, hsame])
  | some c =>
    have hidle : g.Idle rules r newId newCount → Transformed rules g r newId newCount g (some r) :=
      fun hidle => .idle hidle (by simp [hparent])
    dsimp only
    split
    · rename_i hindex
      exact hidle (.inr (.inr (.inl ⟨c, hparent, hindex⟩)))
    rename_i hindex
    split
    · rename_i hcan
      exact hidle (.inr (.inr (.inr (.inl (by simpa using hcan)))))
    rename_i hcan
    split
    · rename_i hknown
      exact hidle (.inr (.inr (.inr (.inr hknown))))
    rename_i hknown
    have hbusy : ¬g.Idle rules r newId newCount := by
      rintro (h | h | ⟨c', h, h'⟩ | h | h)
      · exact hsame h
      · cases h.symm.trans hparent
      · cases h.symm.trans hparent
        exact hindex h'
      · exact hcan (by simp [h])
      · exact hknown h
    have hr := getThingIndex_found hindex
    split
    · rename_i htop
      obtain ⟨w, htaken, hreadded, hanswer, hqueue⟩ := readd_readded hsound hparent hr newId newCount
      rw [hanswer]
      exact .readded hparent hbusy htop htaken hreadded hqueue
    rename_i htop
    have hplace : g.InPlace rules c r newId newCount := ⟨hparent, hbusy, not_not.mp htop⟩
    split
    · rename_i htype
      split
      · rename_i hused
        exact useUp_transformed hsound hplace hr htype hused (hagain c hplace htype)
      · rename_i hnot
        obtain ⟨hexchanged, hid⟩ := update_exchanged hnumbered hr hknown
        exact .updated hplace htype (fun h => hnot h.1) (fun h => hnot h.1) hexchanged hid fun _ => rfl
    · rename_i htype
      exact remake_transformed hsound hplace hr htype

/-- The call of itself finds the item as it should be or updates it. -/
theorem again_transformed (hnumbered : rules.Numbered) (hplace : g.InPlace rules c r newId newCount)
    (htype : (g.world.type rules r).type = (rules.items newId).type)
    (hvanish : ¬g.Vanishes rules r newId newCount) (hdecay : ¬g.Decays rules r newId newCount) :
    Transformed rules g r newId newCount (g.transformStep rules maxItems r newId (-1) (g, some r)).1
      (g.transformStep rules maxItems r newId (-1) (g, some r)).2 := by
  have hindex : g.getThingIndex rules c r ≠ -1 := fun h =>
    hplace.busy (.inr (.inr (.inl ⟨c, hplace.parent, h⟩)))
  have hcan : g.canTransform r ≠ false := fun h => hplace.busy (.inr (.inr (.inr (.inl h))))
  have hknown : (rules.items newId).id ≠ 0 := fun h => hplace.busy (.inr (.inr (.inr (.inr h))))
  have hr := getThingIndex_found hindex
  unfold transformStep
  by_cases hsame : g.isSame rules r newId (-1) = true
  · have hid : (g.world.item r).id = newId := by
      simp only [isSame, Bool.and_eq_true, decide_eq_true_eq] at hsame
      exact hsame.1
    rw [if_pos hsame]
    exact .updated hplace htype hvanish hdecay (.of_altered (.of_still (.same _) r) hr) hid fun _ => rfl
  · rw [if_neg hsame, hplace.parent]
    dsimp only
    rw [if_neg hindex, if_neg (by simpa using hcan), if_neg hknown, if_neg (not_not.mpr hplace.top),
      if_pos htype, if_neg (by simp)]
    obtain ⟨hexchanged, hid⟩ := @update_exchanged rules g c r hnumbered newId (-1) hr hknown
    exact .updated hplace htype hvanish hdecay hexchanged hid fun _ => rfl

end Outcomes

theorem transformItem_transformed (hsound : g.Sound) (hnumbered : rules.Numbered) (r newId : ℕ) (newCount : ℤ) :
    Transformed rules g r newId newCount (g.transformItem rules maxItems r newId newCount).1
      (g.transformItem rules maxItems r newId newCount).2 :=
  transformStep_transformed hsound hnumbered fun _ hplace htype hvanish hdecay =>
    again_transformed hnumbered hplace htype hvanish hdecay

/-! ## A stone beside a puddle -/

/-- A stone, a puddle and a door that does not last. -/
def yardRules : Rules where
  items
    | 1 => { id := 1 }
    | 2 => { id := 2, group := .splash, alwaysOnTop := true }
    | 3 => { id := 3, type := .door, decayTime := 5 }
    | _ => { id := 0 }

def yard : Game where
  world :=
    { item := fun x =>
        if x = 0 then { id := 1, parent := some (.tile 0) }
        else if x = 1 then { id := 2, parent := some (.tile 0) }
        else { id := 0 }
      player := fun _ => { inventory := fun _ => none }
      tile := fun t => if t = 0 then { topItems := [1], downItems := [0] } else {}
      next := 2 }

theorem yard_children (c : Cylinder) : yard.world.children c = if c = .tile 0 then [1, 0] else [] := by
  cases c with
  | container d =>
    have hnone : (yard.world.item d).container = none := by
      simp only [yard]
      split
      · rfl
      · split <;> rfl
    simp [World.children, World.itemlist, hnone]
  | player p => rfl
  | tile t =>
    by_cases ht : t = 0
    · subst ht
      rfl
    · simp [World.children, yard, ht]

theorem yard_sound : yard.Sound where
  itemlist c := by
    have h : yard.world.itemlist c = [] := (yard_children (.container c)).trans (if_neg nofun)
    rw [h]
    exact List.nodup_nil
  inventory _ _ _ _ _ _ hx := nomatch hx
  tile t := by
    rw [yard_children]
    split <;> decide
  parent c x hx := by
    rw [yard_children] at hx
    split at hx
    · rename_i hc
      rw [hc]
      simp only [List.mem_cons, List.not_mem_nil, or_false] at hx
      rcases hx with rfl | rfl <;> rfl
    · cases hx
  apart x := by
    simp only [yard]
    split
    · exact nofun
    · split <;> exact nofun
  known c x hx := by
    rw [yard_children] at hx
    split at hx
    · simp only [List.mem_cons, List.not_mem_nil, or_false] at hx
      rcases hx with rfl | rfl <;> decide
    · cases hx
  fresh x hx := by
    have hx' : 2 ≤ x := hx
    simp only [yard]
    rw [if_neg (by omega), if_neg (by omega)]
  queued _ _ := rfl

theorem yardRules_numbered : yardRules.Numbered := by
  intro id
  unfold yardRules
  dsimp only
  split
  · exact .inl rfl
  · exact .inl rfl
  · exact .inl rfl
  · exact .inr rfl

theorem stone_becomes_door : (yard.transformItem yardRules (fun _ => 0) 0 3 (-1)).2 = some 2 ∧
      Transformed yardRules yard 0 3 (-1) (yard.transformItem yardRules (fun _ => 0) 0 3 (-1)).1
        (yard.transformItem yardRules (fun _ => 0) 0 3 (-1)).2 :=
  ⟨by decide, transformItem_transformed yard_sound yardRules_numbered 0 3 (-1)⟩

/-- One item is put for one, or none for an item that is used up. -/
structure ReplacesOne (rules : Rules) (g g' : Game) (c : Cylinder) (r newId : ℕ) (newCount : ℤ)
    (answer : Option ℕ) : Prop where
  others : World.Keeps (r :: answer.toList) g.world g'.world
  one : ∀ r', answer = some r' → (g'.world.item r').id = newId ∧
    ∀ c', (g'.world.children c').count r' = if c' = c then 1 else 0
  gone : ∀ c', r ∈ g'.world.children c' → answer = some r
  removed : answer = none → g.UsedUp rules r newCount
  index : ∀ r', answer = some r' → (g'.world.type rules r').alwaysOnTop = (g.world.type rules r).alwaysOnTop →
      g'.getThingIndex rules c r' = g.getThingIndex rules c r
  scheduled : ∀ r', answer = some r' → r' ≠ r → 0 < (g'.world.item r').plain.getDuration → g'.occurrences r' = 1

/-- A stone that becomes a puddle wipes out the puddle that was there. -/
theorem puddle_is_lost :
    ¬ReplacesOne yardRules yard (yard.transformItem yardRules (fun _ => 0) 0 2 (-1)).1 (.tile 0) 0 2 (-1)
      (yard.transformItem yardRules (fun _ => 0) 0 2 (-1)).2 := by
  intro h
  have hanswer : (yard.transformItem yardRules (fun _ => 0) 0 2 (-1)).2 = some 0 := by decide
  have htop := congrFun (congrArg Placement.topItems h.others.placement) 0
  rw [hanswer] at htop
  exact absurd htop (by decide)

end Game
end ForgottenServer.Things
