import ForgottenServer.Things.Lossless
import ForgottenServer.Things.Sizes
import Mathlib.Algebra.Group.Pi.Lemmas

/-! # What an added stack changes

`internalAddItem` with a stack that nothing makes way for: no unit of it is
found twice, and everything that lay somewhere lies there still. -/
namespace ForgottenServer.Things
open ForgottenServer.Lib.Forest
namespace World
variable {rules : Rules} {w w' w'' : World} {r : ℕ}

/-! ## What stays -/

/-- Parents, grounds and the ways between tiles stay, but for the parent of `r`. -/
structure Unmoved (w w' : World) (r : ℕ) : Prop where
  parent : ∀ x, x ≠ r → x < w.next → (w'.item x).parent = (w.item x).parent
  tile : ∀ p, (w'.player p).tile = (w.player p).tile
  ground : ∀ t, (w'.tile t).ground = (w.tile t).ground
  floorChange : ∀ t, (w'.tile t).floorChange = (w.tile t).floorChange

namespace Unmoved

theorem same (w : World) (r : ℕ) : Unmoved w w r :=
  ⟨fun _ _ _ => rfl, fun _ => rfl, fun _ => rfl, fun _ => rfl⟩

theorem trans (h : Unmoved w w' r) (h' : Unmoved w' w'' r) (hnext : w.next ≤ w'.next) : Unmoved w w'' r where
  parent x hx hlt := (h'.parent x hx (hlt.trans_le hnext)).trans (h.parent x hx hlt)
  tile p := (h'.tile p).trans (h.tile p)
  ground t := (h'.ground t).trans (h.ground t)
  floorChange t := (h'.floorChange t).trans (h.floorChange t)

theorem of_setItem {x : ℕ} {f : Item → Item} (hf : x ≠ r → ∀ y, (f y).parent = y.parent) :
    Unmoved w (w.setItem x f) r where
  parent _ hy _ := setItem_item Item.parent fun e => hf (e ▸ hy) _
  tile _ := rfl
  ground _ := rfl
  floorChange _ := rfl

theorem setParent (r : ℕ) (c : Option Cylinder) : Unmoved w (w.setParent r c) r :=
  .of_setItem fun h => absurd rfl h

theorem setContainer (c : ℕ) (f : Container → Container) : Unmoved w (w.setContainer c f) r :=
  .of_setItem fun _ _ => rfl

theorem setPlayer {p : ℕ} {f : Player → Player} (hf : ∀ x, (f x).tile = x.tile) : Unmoved w (w.setPlayer p f) r where
  parent _ _ _ := rfl
  tile q := by
    by_cases hq : q = p
    · subst hq
      simp [World.setPlayer, hf]
    · simp [World.setPlayer, hq]
  ground _ := rfl
  floorChange _ := rfl

theorem setTile {t : ℕ} {f : Tile → Tile} (hground : ∀ x, (f x).ground = x.ground)
    (hfloor : ∀ x, (f x).floorChange = x.floorChange) : Unmoved w (w.setTile t f) r where
  parent _ _ _ := rfl
  tile _ := rfl
  ground q := by
    by_cases hq : q = t
    · subst hq
      simp [World.setTile, hground]
    · simp [World.setTile, hq]
  floorChange q := by
    by_cases hq : q = t
    · subst hq
      simp [World.setTile, hfloor]
    · simp [World.setTile, hq]

theorem updateItemWeight (fuel : ℕ) (w : World) (c : ℕ) (diff : ℤ) : Unmoved w (updateItemWeight fuel w c diff) r := by
  induction fuel generalizing w c with
  | zero => exact same w r
  | succ fuel ih =>
    unfold World.updateItemWeight
    dsimp only
    split
    · exact (setContainer _ _).trans (ih _ _) le_rfl
    · exact setContainer _ _

theorem notify (c : Cylinder) : Unmoved w (w.notify rules c) r := by
  have hweight : ∀ p, Unmoved w (w.updateInventoryWeight rules p) r := by
    intro p
    unfold updateInventoryWeight
    split
    · exact same w r
    · exact .setPlayer fun _ => rfl
  unfold World.notify
  repeat' split
  all_goals first
    | exact hweight _
    | exact same w r

theorem beginDecay (x : ℕ) : Unmoved w (w.beginDecay x) r := .of_setItem fun _ _ => rfl

theorem afterMerge (d : Destination) (y : ℕ) : Unmoved w (w.afterMerge rules d y) r := by
  unfold World.afterMerge
  split
  · exact notify _
  · exact same w r

theorem merge (c : Cylinder) (y n : ℕ) : Unmoved w (w.merge rules c (some y) n) r := by
  have hset : ∀ id count, Unmoved w (w.setIdAndCount rules y id count) r :=
    fun _ _ => .of_setItem fun _ _ => rfl
  show Unmoved w (w.updateThing rules c y _ _) r
  unfold updateThing
  split
  · exact same w r
  dsimp only
  split
  · exact (hset _ _).trans (updateItemWeight _ _ _ _) le_rfl
  · exact hset _ _

theorem of_created {n : ℕ} (h : Created w w' n) : Unmoved w w' r where
  parent y _ hlt := by rw [h.others y hlt.ne]
  tile p := by rw [h.player]
  ground t := by rw [h.tile]
  floorChange t := by rw [h.tile]

theorem addThing (hplain : w.replaces rules r = false) (htop : (w.type rules r).alwaysOnTop = false)
    (c : Cylinder) (index : ℤ) : Unmoved w (w.addThing rules c index r) r := by
  have hpar : ∀ c, Unmoved w (w.setParent r c) r := setParent r
  cases c with
  | container c =>
    show Unmoved w (w.containerAddThing rules c index r) r
    unfold containerAddThing
    split
    · exact same w r
    · exact ((hpar _).trans (setContainer _ _) le_rfl).trans (updateItemWeight _ _ _ _) le_rfl
  | player p =>
    show Unmoved w (w.playerAddThing p index r) r
    unfold playerAddThing
    split
    · exact (hpar _).trans (.setPlayer fun _ => rfl) le_rfl
    · exact same w r
  | tile t =>
    have htype : ∀ c x, (w.setParent r c).type rules x = w.type rules x := setParent_type r
    have hground : (w.type rules r).group ≠ .ground := fun h => by
      rw [replaces, h] at hplain
      cases hplain
    have hfield : w.isMagicField rules r = false := by
      rw [replaces, Bool.or_eq_false_iff] at hplain
      exact hplain.2
    have hdown : Unmoved w ((w.setParent r (some (.tile t))).setTile t fun x =>
        { x with downItems := r :: x.downItems }) r :=
      (hpar _).trans (.setTile (fun _ => rfl) fun _ => rfl) le_rfl
    have hfield' : (w.setParent r (some (.tile t))).isMagicField rules r = false := by
      rw [isMagicField, htype]
      exact hfield
    show Unmoved w (w.tileAddThing rules t r) r
    unfold tileAddThing
    split
    · exact same w r
    dsimp only
    rw [htype, if_neg hground, if_neg (by rw [htop]; decide), hfield']
    split
    · rw [if_neg (by decide)]
      exact hdown
    · exact hdown

end Unmoved

theorem addThing_parent {c : Cylinder} {index : ℤ} (hr : r < w.next) (hplain : w.replaces rules r = false)
    (htop : (w.type rules r).alwaysOnTop = false) (hroom : HasRoom w c index) :
    ((w.addThing rules c index r).item r).parent = some c := by
  have hset : ((w.setParent r (some c)).item r).parent = some c := by
    simp [World.setParent, World.setItem]
  -- after the parent is set, only other things change
  have hrest : ∀ {w'}, Unmoved (w.setParent r (some c)) w' w.next → (w'.item r).parent = some c :=
    fun h => (h.parent r hr.ne hr).trans hset
  cases c with
  | container c =>
    show ((w.containerAddThing rules c index r).item r).parent = _
    unfold containerAddThing
    rw [if_neg (not_le.mpr hroom.2)]
    exact hrest ((Unmoved.setContainer _ _).trans (.updateItemWeight _ _ _ _) le_rfl)
  | player p =>
    show ((w.playerAddThing p index r).item r).parent = _
    unfold playerAddThing
    rw [if_pos ⟨hroom.1, hroom.2.1⟩]
    exact hrest (.setPlayer fun _ => rfl)
  | tile t =>
    have htype : ∀ c x, (w.setParent r c).type rules x = w.type rules x := setParent_type r
    have hground : (w.type rules r).group ≠ .ground := fun h => by
      rw [replaces, h] at hplain
      cases hplain
    have hfield : (w.setParent r (some (.tile t))).isMagicField rules r = false := by
      rw [replaces, Bool.or_eq_false_iff] at hplain
      rw [isMagicField, htype]
      exact hplain.2
    have hdown := hrest (Unmoved.setTile (t := t) (f := fun x => { x with downItems := r :: x.downItems })
      (fun _ => rfl) fun _ => rfl)
    show ((w.tileAddThing rules t r).item r).parent = _
    unfold tileAddThing
    rw [if_neg (not_le.mpr hroom)]
    dsimp only
    rw [htype, if_neg hground, if_neg (by rw [htop]; decide), hfield]
    split
    · rw [if_neg (by decide)]
      exact hdown
    · exact hdown

/-- Units of some kinds came to what lies below `S`. What lay somewhere lies there
still, and of other kinds nothing changes. -/
structure Gains (rules : Rules) (w w' : World) (S : Set Cylinder) (ids : Set ℕ) (gain : ℕ → ℕ) :
    Prop where
  tidy : Tidy rules w'
  next : w.next ≤ w'.next
  units : ∀ id, w'.units rules S id = w.units rules S id + gain id
  id : ∀ x < w.next, (w'.item x).id = (w.item x).id
  children : ∀ c x, x ∈ w.children c → x ∈ w'.children c
  placed : ∀ c x, x ∈ w'.children c → x ∈ w.children c ∨ (w'.item x).parent = some c
  parent : ∀ c x, x ∈ w.children c → (w'.item x).parent = (w.item x).parent
  count : ∀ c x, x ∈ w.children c → (w.item x).id ∉ ids → (w'.item x).count = (w.item x).count
  tile : ∀ p, (w'.player p).tile = (w.player p).tile
  floorChange : ∀ t, (w'.tile t).floorChange = (w.tile t).floorChange

variable {S : Set Cylinder} {ids ids' : Set ℕ} {gain gain' : ℕ → ℕ}

theorem Gains.same (h : Tidy rules w) (S : Set Cylinder) (ids : Set ℕ) : Gains rules w w S ids 0 :=
  ⟨h, le_rfl, fun _ => rfl, fun _ _ => rfl, fun _ _ h => h, fun _ _ h => .inl h, fun _ _ _ => rfl,
    fun _ _ _ _ => rfl, fun _ => rfl, fun _ => rfl⟩

theorem Gains.trans (htidy : Tidy rules w) (h : Gains rules w w' S ids gain)
    (h' : Gains rules w' w'' S ids' gain') : Gains rules w w'' S (ids ∪ ids') (gain + gain') where
  tidy := h'.tidy
  next := h.next.trans h'.next
  units id := by rw [h'.units, h.units, Pi.add_apply, Nat.add_assoc]
  id x hx := (h'.id x (hx.trans_le h.next)).trans (h.id x hx)
  children c x hx := h'.children c x (h.children c x hx)
  placed c x hx := by
    rcases h'.placed c x hx with hx | hx
    · rcases h.placed c x hx with hold | hnew
      · exact .inl hold
      · exact .inr ((h'.parent c x hx).trans hnew)
    · exact .inr hx
  parent c x hx := (h'.parent c x (h.children c x hx)).trans (h.parent c x hx)
  count c x hx hid := by
    rw [Set.mem_union, not_or] at hid
    refine (h'.count c x (h.children c x hx) ?_).trans (h.count c x hx hid.1)
    rw [h.id x (htidy.known c x hx)]
    exact hid.2
  tile p := (h'.tile p).trans (h.tile p)
  floorChange t := (h'.floorChange t).trans (h.floorChange t)

theorem IsBelow.grow {S S' : Set Cylinder} {x : ℕ} (h : w.IsBelow S x) (hS : S ⊆ S')
    (hchildren : ∀ c y, y ∈ w.children c → y ∈ w'.children c) : w'.IsBelow S' x := by
  induction h with
  | root hc hx => exact .root (hS hc) (hchildren _ _ hx)
  | inside _ hx ih => exact .inside ih (hchildren _ _ hx)

/-! ## The changes one by one -/

theorem Unmoved.gains (h : Unmoved w w' r) (htidy : Tidy rules w) (hloose : ∀ c, r ∉ w.children c)
    (htidy' : Tidy rules w') (hnext : w.next ≤ w'.next)
    (hunits : ∀ id, w'.units rules S id = w.units rules S id + gain id)
    (hid : ∀ x < w.next, (w'.item x).id = (w.item x).id) (hchildren : ∀ c x, x ∈ w.children c → x ∈ w'.children c)
    (hplaced : ∀ c x, x ∈ w'.children c → x ∈ w.children c ∨ (w'.item x).parent = some c)
    (hcount : ∀ c x, x ∈ w.children c → (w.item x).id ∉ ids → (w'.item x).count = (w.item x).count) :
    Gains rules w w' S ids gain where
  tidy := htidy'
  next := hnext
  units := hunits
  id := hid
  children := hchildren
  placed := hplaced
  parent c x hx := h.parent x (fun e => hloose c (e ▸ hx)) (htidy.known c x hx)
  count := hcount
  tile := h.tile
  floorChange := h.floorChange

theorem Tidy.alike (h : Tidy rules w) (h' : Alike w w') : Tidy rules w' where
  toValid := h.toValid.alike h'
  stacked c x hx hstack := by
    rw [h'.children] at hx
    rw [isStackable_of_id h'.id] at hstack
    rw [h'.count]
    exact h.stacked c x hx hstack
  plain x hx := container_none (h'.plate x) (h.plain x (replaces_of_id (h'.id x) ▸ hx))
  floor t g hg := container_none (h'.plate g) (h.floor t g (h'.tile ▸ hg))
  field x hx := by
    have htype : w'.type rules x = w.type rules x := by rw [type, type, h'.id]
    rw [isMagicField, htype] at hx
    rw [isStackable, htype]
    exact h.field x hx

theorem Tidy.attached {b : Cylinder} (h : Tidy rules w) (h' : Attached rules w w' b r)
    (hloose : ∀ c, r ∉ w.children c) (hr : r < w.next) (hone : 1 ≤ (w.item r).count)
    (hground : ∀ t, (w'.tile t).ground = (w.tile t).ground) : Tidy rules w' where
  toValid := h.toValid.attached h' hloose hr
  stacked c x hx hstack := by
    rw [isStackable_of_id h'.items.id] at hstack
    rw [h'.items.count]
    rcases (h'.children c x).mp hx with hx | ⟨-, rfl⟩
    · exact h.stacked c x hx hstack
    · exact hone
  plain x hx := container_none (h'.items.plate x) (h.plain x (replaces_of_id (h'.items.id x) ▸ hx))
  floor t g hg := container_none (h'.items.plate g) (h.floor t g (hground t ▸ hg))
  field x hx := by
    have htype : w'.type rules x = w.type rules x := by rw [type, type, h'.items.id]
    rw [isMagicField, htype] at hx
    rw [isStackable, htype]
    exact h.field x hx

theorem gains_alike (h : Unmoved w w' r) (htidy : Tidy rules w) (hloose : ∀ c, r ∉ w.children c)
    (h' : Alike w w') : Gains rules w w' S ids 0 :=
  h.gains htidy hloose (htidy.alike h') (Nat.le_of_eq h'.next.symm) (fun id => units_alike id h')
    (fun x _ => h'.id x) (fun c x hx => by rwa [h'.children]) (fun c x hx => .inl (h'.children c ▸ hx))
    fun _ x _ _ => h'.count x

theorem Gains.after (htidy : Tidy rules w) (h : Gains rules w w' S ids gain) (h' : Alike w' w'')
    (hunmoved : Unmoved w' w'' w'.next) : Gains rules w w'' S ids gain := by
  have htail : Gains rules w' w'' S ids 0 :=
    gains_alike hunmoved h.tidy (fun c => h.tidy.toValid.loose le_rfl) h'
  have hboth := h.trans htidy htail
  rwa [Set.union_self, add_zero] at hboth

theorem gains_attached {b : Cylinder} (h : Unmoved w w' r) (htidy : Tidy rules w) (hloose : ∀ c, r ∉ w.children c)
    (hr : r < w.next) (hstack : w.isStackable rules r = true) (hone : 1 ≤ (w.item r).count) (hreach : Reached w S b)
    (hparent : (w'.item r).parent = some b) (h' : Attached rules w w' b r) :
    Gains rules w w' S ids (Pi.single (w.item r).id (w.item r).count) := by
  have hchildren : ∀ c x, x ∈ w.children c → x ∈ w'.children c :=
    fun c x hx => (h'.children c x).mpr (.inl hx)
  have hreach' : Reached w' S b := by
    rcases hreach with hb | ⟨y, hy, hbelow⟩
    · exact .inl hb
    · exact .inr ⟨y, hy, hbelow.grow subset_rfl hchildren⟩
  refine h.gains htidy hloose (htidy.attached h' hloose hr hone h.ground)
    (Nat.le_of_eq h'.items.next.symm) (fun id => ?_) (fun x _ => h'.items.id x) hchildren
    (fun c x hx => ?_) fun _ x _ _ => h'.items.count x
  case refine_2 =>
    rcases (h'.children c x).mp hx with hx | ⟨rfl, rfl⟩
    · exact .inl hx
    · exact .inr hparent
  have hsum := units_attach id h' (Set.mem_insert b S) hloose hr (htidy.leaf r hstack)
  rw [units_reached hreach, units_reached hreach', amount_stack id hstack] at hsum
  rw [hsum, unitsOf, Pi.single_apply]
  by_cases hid : id = (w.item r).id
  · rw [if_pos hid, if_pos hid.symm]
  · rw [if_neg hid, if_neg (Ne.symm hid)]

theorem gains_recounted {b : Cylinder} {y n : ℕ} (h : Unmoved w w' r) (htidy : Tidy rules w)
    (hloose : ∀ c, r ∉ w.children c) (hy : y ∈ w.children b) (hstack : w.isStackable rules y = true)
    (hreach : Reached w S b) (hn : (w.item y).count + n ≤ 100) (h' : Recounted w w' y ((w.item y).count + n)) :
    Gains rules w w' S {(w.item y).id} (Pi.single (w.item y).id n) := by
  have hpos := htidy.stacked b y hy hstack
  refine h.gains htidy hloose (htidy.recounted h' hn (by omega)) (Nat.le_of_eq h'.next.symm)
    (fun id => ?_) (fun x _ => h'.id x) (fun c x hx => by rwa [h'.children])
    (fun c x hx => .inl (h'.children c ▸ hx)) fun c x hx hid => ?_
  · have hsum := units_recount id htidy.toValid h' (Set.mem_insert b S) hy
    rw [units_reached hreach, units_reached (hreach.lists h'.toSameLists), amount_stack id hstack,
      amount_stack id ((isStackable_of_id h'.id y).trans hstack), h'.count, if_pos rfl,
      unitsOf_id id (h'.id y), unitsOf_add] at hsum
    have hgain : w.unitsOf id y n = Pi.single (M := fun _ => ℕ) (w.item y).id n id := by
      rw [unitsOf, Pi.single_apply]
      by_cases hid : id = (w.item y).id
      · rw [if_pos hid, if_pos hid.symm]
      · rw [if_neg hid, if_neg (Ne.symm hid)]
    omega
  · rw [h'.count, if_neg]
    rintro rfl
    exact hid rfl

theorem gains_created {n : ℕ} (htidy : Tidy rules w) (htidy' : Tidy rules w') (h' : Created w w' n) :
    Gains rules w w' S ids 0 := by
  refine (Unmoved.of_created (r := w.next) h').gains htidy (fun c => htidy.toValid.loose le_rfl) htidy'
    (by rw [h'.next]; omega) (fun id => units_create id htidy.toValid h')
    (fun y hy => by rw [h'.others y hy.ne]) (fun c y hy => by rwa [h'.children htidy.toValid])
    (fun c y hy => .inl (h'.children htidy.toValid c ▸ hy)) fun c y hy _ => ?_
  rw [h'.others y (htidy.known c y hy).ne]

/-! ## The place of a stack -/

section Place
variable {d : Destination} {flags : Flags}

theorem searchSlots_stacks {p y : ℕ} {l containers : List ℕ} (h : w.searchSlots rules p r flags l containers = .inl d)
    (hy : d.toItem = some y) : w.isStackable rules r = true ∧ w.canStack r y = true := by
  induction l generalizing containers with
  | nil => cases h
  | cons slot rest ih =>
    unfold searchSlots at h
    split at h
    · split at h
      · cases h
        cases hy
      · exact ih h
    · split at h
      · exact ih h
      · split at h
        · rename_i hstack
          cases h
          cases hy
          exact ⟨hstack.2.1, hstack.2.2.2⟩
        · exact ih h

theorem mergesWith_of_canStack {y : ℕ} (hy : d.toItem = some y) (hstack : w.isStackable rules r = true)
    (hcan : w.canStack r y = true) : w.mergesWith rules d r = some y ∧ (w.item y).count < 100 := by
  obtain ⟨hequal, hless⟩ := Bool.and_eq_true_iff.mp hcan
  refine ⟨Option.filter_eq_some_iff.mpr ⟨hy, ?_⟩, of_decide_eq_true hless⟩
  rw [hstack, equals_comm, hequal]
  rfl

theorem lostTo_plain (hplain : w.replaces rules r = false) (hd : ∀ p, d.cylinder ≠ .player p) :
    w.lostTo rules d r = none := by
  unfold lostTo
  cases hc : d.cylinder with
  | container c => rfl
  | player p => exact absurd hc (hd p)
  | tile t => exact displaced_plain hplain

theorem searchSlots_free {p : ℕ} {containers : List ℕ} (hflags : flags.childIsOwner = false)
    (h : w.searchSlots rules p r flags slots containers = .inl d) :
    w.drops rules d r = true ∨ w.lostTo rules d r = none ∨
      ∃ y, w.mergesWith rules d r = some y ∧ (w.item y).count < 100 := by
  obtain ⟨hp, hlands⟩ := searchSlots_lands hflags (fun _ hi => hi) h
  have hfits := hlands.index
  rw [FitsIndex, hp] at hfits
  by_cases hrange : 1 ≤ d.index ∧ d.index ≤ 10
  · have hlost : w.lostTo rules d r = d.toItem := by
      rw [lostTo, hp, hfits, getInventoryItem, if_pos hrange]
    rw [hlost]
    cases hy : d.toItem with
    | none => exact .inr (.inl rfl)
    | some y =>
      obtain ⟨hstack, hcan⟩ := searchSlots_stacks h hy
      exact .inr (.inr ⟨y, mergesWith_of_canStack hy hstack hcan⟩)
  · left
    rw [drops, hp]
    dsimp only
    rwa [Bool.not_eq_true', ← Bool.not_eq_true, Bool.and_eq_true, decide_eq_true_eq, decide_eq_true_eq]

/-- A stack that may lie anywhere is put where nothing makes way, or it is merged. -/
theorem placeOf_free {c : Cylinder} (hflags : flags.childIsOwner = false)
    (hplain : w.replaces rules r = false) (hd : w.placeOf rules c r whereEver flags = d) :
    w.drops rules d r = true ∨ w.lostTo rules d r = none ∨
      ∃ y, w.mergesWith rules d r = some y ∧ (w.item y).count < 100 := by
  by_cases hplayer : ∃ p, d.cylinder = .player p
  · obtain ⟨p, hp⟩ := hplayer
    cases c with
    | container c =>
      rw [← hd] at hp
      cases (@containerQueryDestination_whereEver rules w r c flags).symm.trans hp
    | tile t =>
      rw [← hd] at hp
      obtain ⟨⟨t', ht⟩, -⟩ := @tileQueryDestination_lands rules w r t whereEver flags hflags _ rfl
      cases ht.symm.trans hp
    | player q =>
      change w.playerQueryDestination rules q whereEver none r flags = d at hd
      unfold playerQueryDestination at hd
      dsimp only at hd
      rw [if_pos (.inr rfl)] at hd
      split at hd
      · rename_i d' hslots
        subst hd
        exact searchSlots_free hflags hslots
      · rename_i containers hslots
        cases hfind : w.searchContainers rules q r flags w.depth containers with
        | some d' =>
          rw [hfind, Option.getD_some] at hd
          subst hd
          obtain ⟨c, hc, -⟩ := searchContainers_asks hfind
          cases hc.symm.trans hp
        | none =>
          rw [hfind, Option.getD_none] at hd
          subst hd
          exact .inl (by simp [drops, whereEver])
  · exact .inr (.inl (lostTo_plain hplain fun p hp => hplayer ⟨p, hp⟩))

/-- A stack is put at its place, or nothing happens. -/
theorem putThing_grows (hsane : rules.Sane) (htidy : Tidy rules w) (hloose : ∀ c, r ∉ w.children c)
    (hr : r < w.next) (hstack : w.isStackable rules r = true) (hplain : w.replaces rules r = false)
    (hone : 1 ≤ (w.item r).count) (hreach : Reached w S d.cylinder) (hopen : IsOpen rules w d r)
    (hfree : w.drops rules d r = true ∨ w.lostTo rules d r = none) :
    ∃ k ≤ (w.item r).count, Gains rules w (w.putThing rules d r) S {(w.item r).id} (Pi.single (w.item r).id k) := by
  have htop := hsane.top _ hstack
  have hunmoved : Unmoved w (w.putThing rules d r) r := by
    unfold putThing
    dsimp only
    have hadd := Unmoved.addThing hplain htop d.cylinder d.index
    split
    · refine hadd.trans (.notify _) ?_
      exact (addThing_grows d.cylinder d.index).next.ge
    · exact hadd
  cases hdrops : w.drops rules d r with
  | true =>
    refine ⟨0, Nat.zero_le _, ?_⟩
    rw [Pi.single_zero]
    exact gains_alike hunmoved htidy hloose ((putThing_put hsane htidy hloose hopen).1 hdrops)
  | false =>
    have hnone : w.lostTo rules d r = none := hfree.resolve_left (by rw [hdrops]; decide)
    have hroom : HasRoom w d.cylinder d.index := by
      unfold HasRoom
      unfold drops at hdrops
      unfold lostTo at hnone
      unfold IsOpen at hopen
      cases hc : d.cylinder with
      | container c =>
        rw [hc] at hdrops hopen
        exact ⟨hopen, not_le.mp (of_decide_eq_false hdrops)⟩
      | player p =>
        rw [hc] at hdrops hnone
        have hrange : 1 ≤ d.index ∧ d.index ≤ 10 := by simpa using hdrops
        exact ⟨hrange.1, hrange.2, hnone⟩
      | tile t =>
        rw [hc] at hopen
        exact hopen
    have hparent : ((w.putThing rules d r).item r).parent = some d.cylinder := by
      have hset := addThing_parent hr hplain htop hroom
      have hnext : (w.addThing rules d.cylinder d.index r).next = w.next := (addThing_grows d.cylinder d.index).next
      unfold putThing
      dsimp only
      split
      · rw [← hnext] at hr
        exact ((Unmoved.notify d.cylinder).parent r hr.ne hr).trans hset
      · exact hset
    refine ⟨_, le_rfl, gains_attached hunmoved htidy hloose hr hstack hone hreach hparent ?_⟩
    exact (addThing_attached htidy.toNeat hloose hroom (vacant_plain hplain)).after (.putThing_tail d _)

/-- The rounds of a call add no unit twice, and what is left over at the end was not added. -/
theorem addRounds_grows {fuel : ℕ} {c : Cylinder} {a : Added} (hsane : rules.Sane) (hc : c ∈ S)
    (hready : Ready rules w S c r whereEver flags) (hstack : w.isStackable rules r = true)
    (hplain : w.replaces rules r = false)
    (h : addRounds rules fuel w c r whereEver flags false = some a) (hret : a.ret = .noError) :
    ∃ k ≤ (w.item r).count, Gains rules w a.world S {(w.item r).id} (Pi.single (w.item r).id k) ∧
      (a.remainderCount ≠ 0 → k + a.remainderCount = (w.item r).count) := by
  induction fuel generalizing w r flags a with
  | zero => cases h
  | succ fuel ih =>
    have htop := hsane.top _ hstack
    have hcount : 1 ≤ (w.item r).count := by
      have hone := hready.one
      rwa [amount_stack _ hstack, unitsOf, if_pos rfl] at hone
    have hflags' := (@placeOf_spec rules w r c whereEver flags hready.asked).1
    have hreach := hready.place
    unfold addRounds at h
    dsimp only at h
    generalize hd : w.placeOf rules c r whereEver flags = d at h hflags' hreach
    have hfree := placeOf_free hready.asked hplain hd
    generalize hcheck : w.checkPlace rules c d r = answer at h
    obtain ⟨ret, maxQueryCount⟩ := answer
    dsimp only at h
    split at h
    · cases h
      exact absurd hret ‹_›
    rename_i hok
    rw [not_not.mp hok] at hcheck
    obtain ⟨hadd, hmax⟩ := checkPlace_noError hcheck
    have hopen : IsOpen rules w d r := isOpen_of_accepts hready.tidy.toValid hflags' hadd
    rw [if_neg (by decide)] at h
    cases hy : w.mergesWith rules d r with
    | none =>
      -- the stack itself is put there
      rw [hy] at h
      cases h
      have hlost : w.drops rules d r = true ∨ w.lostTo rules d r = none := by
        rcases hfree with hdrops | hnone | ⟨y, hmerges, -⟩
        · exact .inl hdrops
        · exact .inr hnone
        · cases hy.symm.trans hmerges
      obtain ⟨k, hk, hgains⟩ := putThing_grows hsane hready.tidy hready.loose hready.known hstack hplain
        hcount hreach hopen hlost
      exact ⟨k, hk, hgains.after hready.tidy (.beginDecay r) (.beginDecay r), fun hrest => absurd rfl hrest⟩
    | some y =>
      rw [hy] at h
      dsimp only at h
      obtain ⟨-, hstacky, hid, hry, hmem, -, -⟩ := mergesWith_spec hready hd hy
      have hhundred := hready.tidy.count y hstacky
      rw [min_eq_left (hmax hstack)] at h
      obtain ⟨hn, hmerge⟩ := merge_recounted (m := (w.item r).count) hsane hready.tidy.toValid hmem hstacky
      have hgrown : Gains rules w (w.merge rules d.cylinder (some y) (w.mergeCount (some y) (w.item r).count)) S
          {(w.item r).id} (Pi.single (w.item r).id (min (100 - (w.item y).count) (w.item r).count)) := by
        rw [hid]
        exact gains_recounted (.merge d.cylinder y _) hready.tidy hready.loose hmem hstacky hreach (by omega) hmerge
      rw [hn] at h hmerge hgrown
      generalize hw₁ : w.merge rules d.cylinder (some y) (min (100 - (w.item y).count) (w.item r).count) = w₁
        at h hmerge hgrown
      have hid₁ := hmerge.id r
      have hcount₁ : (w₁.item r).count = (w.item r).count := by rw [hmerge.count, if_neg hry]
      split at h
      · rename_i hpos
        have hless : 100 - (w.item y).count < (w.item r).count := by omega
        rw [min_eq_left hless.le] at h hw₁ hgrown
        rw [hcount₁] at h
        split at h
        · -- the rest is another stack
          rename_i hne
          obtain ⟨w₂, hclone, hrest⟩ := Option.bind_eq_some_iff.mp h
          obtain ⟨rest, hcall, rfl⟩ := Option.map_eq_some_iff.mp hrest
          obtain ⟨hready₂, hid₂, hcount₂, -, -⟩ :=
            rest_ready hsane hc hready hd hy hless (hw₁.symm ▸ hclone)
          have hmade : Decay.Item.createId (fun id => (rules.items id).toItemType) (w₁.item r).id =
              (w₁.item r).id := by
            rw [hid₁]
            exact hsane.made _ hstack
          have hcloned := cloneItem_cloned hclone hmade
          have hsmall := hready.tidy.count r hstack
          have hcopied : Gains rules w w₂ S {(w.item r).id} (Pi.single (w.item r).id (100 - (w.item y).count)) := by
            have hnew : Gains rules w₁ w₂ S {(w.item r).id} 0 :=
              gains_created hgrown.tidy (hgrown.tidy.cloned hcloned (by omega)) hcloned.toCreated
            have hboth := hgrown.trans hready.tidy hnew
            rwa [Set.union_self, add_zero] at hboth
          rw [hmerge.next] at hcall
          have hstack₂ : w₂.isStackable rules w.next = true := by
            rw [isStackable, type, hid₂]
            exact hstack
          have hplain₂ : w₂.replaces rules w.next = false := by
            simp only [replaces, isSplash, isMagicField, type, hid₂] at hplain ⊢
            exact hplain
          by_cases hrefused : rest.ret = .noError
          · obtain ⟨k, hk, hgains, -⟩ := ih hready₂ hstack₂ hplain₂ hcall hrefused
            rw [hid₂] at hgains
            have hboth := hcopied.trans hready.tidy hgains
            rw [Set.union_self, ← Pi.single_add] at hboth
            refine ⟨_, by omega, hboth.after hready.tidy (.beginDecay r) (.beginDecay r), fun hrest => ?_⟩
            exact absurd (if_neg (not_not.mpr hrefused)) hrest
          · obtain ⟨⟨hworld, -⟩, -⟩ := addRounds_refused hcall hrefused
            dsimp only
            rw [hworld]
            refine ⟨_, hless.le, hcopied.after hready.tidy (.beginDecay r) (.beginDecay r), fun _ => ?_⟩
            rw [if_pos hrefused]
            omega
        · -- the stack at the place is full
          rename_i hsame
          cases h
          have hfull : 100 - (w.item y).count = 0 := by omega
          have hlost : w₁.drops rules d r = true ∨ w₁.lostTo rules d r = none := by
            rw [drops_of_lists hmerge.toSameLists, lostTo_of_lists hmerge.toSameLists]
            rcases hfree with hdrops | hnone | ⟨z, hz, hroom⟩
            · exact .inl hdrops
            · exact .inr hnone
            · cases hz.symm.trans hy
              omega
          obtain ⟨k, hk, hgains⟩ := putThing_grows hsane hgrown.tidy
            (fun c hr => hready.loose c (hmerge.children c ▸ hr)) (hmerge.next ▸ hready.known)
            ((isStackable_of_id hmerge.id r).trans hstack) ((replaces_of_id hid₁).trans hplain)
            (hcount₁ ▸ hcount) (hreach.lists hmerge.toSameLists) (hopen.lists hmerge.toSameLists) hlost
          rw [hid₁] at hgains
          have hboth := hgrown.trans hready.tidy hgains
          rw [Set.union_self, ← Pi.single_add] at hboth
          exact ⟨_, by omega, hboth.after hready.tidy (.beginDecay r) (.beginDecay r),
            fun hrest => absurd rfl hrest⟩
      · -- the stack at the place takes everything
        cases h
        exact ⟨_, min_le_right _ _, (hgrown.after hready.tidy (.afterMerge d y) (.afterMerge d y)).after
          hready.tidy (.beginDecay r) (.beginDecay r), fun hrest => absurd rfl hrest⟩

/-- A call adds at most the stack, and the whole stack where each place that it chooses takes
what is put there. -/
theorem internalAddItem_grows {c : Cylinder} {a : Added} (hsane : rules.Sane) (htidy : Tidy rules w)
    (hloose : ∀ c, r ∉ w.children c) (hr : r < w.next) (hstack : w.isStackable rules r = true)
    (hplain : w.replaces rules r = false) (hone : 1 ≤ (w.item r).count) (hflags : flags.childIsOwner = false)
    (hc : c ∈ S) (hplace : Reached w S (w.placeOf rules c r whereEver flags).cylinder)
    (h : w.internalAddItem rules c r whereEver flags false = some a) (hret : a.ret = .noError) :
    ∃ k ≤ (w.item r).count, Gains rules w a.world S {(w.item r).id} (Pi.single (w.item r).id k) ∧
      (k = (w.item r).count ↔ w.settled rules true c r whereEver flags = true) ∧
      (a.remainderCount ≠ 0 → k + a.remainderCount = (w.item r).count) := by
  have hleaf := htidy.leaf r hstack
  have hamount : w.amount rules (w.item r).id r = (w.item r).count := by
    rw [amount_stack _ hstack, unitsOf, if_pos rfl]
  have hready : Ready rules w S c r whereEver flags :=
    ⟨htidy, hloose, hr, hamount ▸ hone, apart_leaf hloose hleaf, hflags, hplace⟩
  obtain ⟨k, hk, hgains, hrest⟩ := addRounds_grows hsane hc hready hstack hplain h hret
  refine ⟨k, hk, hgains, ?_, hrest⟩
  have hexact := (addRounds_gains hsane hc hready h hret).2
  rw [hgains.units, grown_leaf _ hleaf, hamount, Pi.single_eq_same, Nat.add_left_cancel_iff] at hexact
  exact hexact

end Place

end World
end ForgottenServer.Things
