import ForgottenServer.Things.Add
import ForgottenServer.Things.Conservation

/-! # Where an added item is put

`addThing` ignores an index it does not know, puts a slot's new item over the
old one and, on a tile, a new ground, splash or field in the place of the old.
A place takes an item when nothing of that is at the cost of its kind. -/
namespace ForgottenServer.Things
open ForgottenServer.Lib.Forest
namespace World
variable {rules : Rules} {w w' w'' : World} {r : ℕ}

/-- The item at the place that makes way for a new one. -/
def lostTo (rules : Rules) (w : World) (d : Destination) (r : ℕ) : Option ℕ :=
  match d.cylinder with
  | .container _ => none
  | .player p => (w.player p).inventory d.index.toNat
  | .tile t => w.displaced rules t r

/-- A magic field that cannot be replaced is in the way of another. -/
def isWarded (rules : Rules) (w : World) (t r : ℕ) : Bool :=
  (w.type rules r).group ≠ .ground && !(w.type rules r).alwaysOnTop &&
    (w.displaced rules t r).any fun old => !(w.type rules old).replaceable

/-- `addThing` does nothing. -/
def drops (rules : Rules) (w : World) (d : Destination) (r : ℕ) : Bool :=
  match d.cylinder with
  | .container c => w.capacity c ≤ d.index
  | .player _ => !(1 ≤ d.index && d.index ≤ 10)
  | .tile t => w.isWarded rules t r

/-- The place takes the item, and no unit of its kind makes way for it. -/
def takes (rules : Rules) (w : World) (d : Destination) (r : ℕ) : Bool :=
  !w.drops rules d r && (w.lostTo rules d r).all fun y => (w.item y).id ≠ (w.item r).id

/-- What the server keeps besides: there are no empty stacks, and what a new one
can take the place of on a tile is neither a stack nor a container. -/
structure Tidy (rules : Rules) (w : World) : Prop extends Valid rules w where
  stacked : ∀ c x, x ∈ w.children c → w.isStackable rules x = true → 1 ≤ (w.item x).count
  plain : ∀ x, w.replaces rules x = true → (w.item x).container = none
  floor : ∀ t g, (w.tile t).ground = some g → (w.item g).container = none
  field : ∀ x, w.isMagicField rules x = true → w.isStackable rules x = false ∧ (w.type rules x).alwaysOnTop = false

/-! ## What `addThing` does -/

theorem Put.before {b : Cylinder} {lost : Option ℕ} (h : Alike w w') (h' : Put w' w'' b lost r) :
    Put w w'' b lost r where
  items := h.sameItems.trans h'.items
  children c x := by rw [h'.children, h.children]

theorem Put.after {b : Cylinder} {lost : Option ℕ} (h : Put w w' b lost r) (h' : Alike w' w'') :
    Put w w'' b lost r where
  items := h.items.trans h'.sameItems
  children c x := by rw [h'.children, h.children]

theorem Detached.put {b : Cylinder} {old : ℕ} (h : Detached rules w w' old) (h' : Put w' w'' b none r) :
    Put w w'' b (some old) r where
  items := h.items.trans h'.items
  children c x := by
    rw [h'.children, h.children]
    simp [eq_comm]

theorem put_tile {t : ℕ} {f : Tile → Tile} {lost : Option ℕ} (hvalid : Valid rules w)
    (hlost : ∀ y, lost = some y → y ∈ w.children (.tile t))
    (hlist : ∀ x, x ∈ (w.setTile t f).children (.tile t) ↔ x ∈ w.children (.tile t) ∧ lost ≠ some x ∨ x = r) :
    Put w (w.setTile t f) (.tile t) lost r where
  items := ⟨rfl, fun _ => rfl, fun _ => rfl, fun _ => rfl⟩
  children c x := by
    by_cases hc : c = .tile t
    · subst hc
      rw [hlist]
      simp
    · have hsame : (w.setTile t f).children c = w.children c := by
        cases c with
        | container d => rfl
        | player p => rfl
        | tile t' =>
          have ht : t' ≠ t := fun e => hc (congrArg Cylinder.tile e)
          simp [children, setTile, ht]
      have hother : x ∈ w.children c → lost ≠ some x := fun hx e =>
        hc (hvalid.holder _ _ x hx (hlost x e))
      rw [hsame]
      simp only [hc, false_and, or_false]
      exact ⟨fun h => ⟨h, hother h⟩, And.left⟩

theorem put_slot {p slot : ℕ} (hvalid : Valid rules w) (hslot : slot ∈ slots) :
    Put w (w.setPlayer p fun x => { x with inventory := Function.update x.inventory slot (some r) })
      (.player p) ((w.player p).inventory slot) r where
  items := ⟨rfl, fun _ => rfl, fun _ => rfl, fun _ => rfl⟩
  children c x := by
    have hmem : ∀ y, (w.player p).inventory slot = some y → y ∈ w.children (.player p) := fun y hy =>
      mem_children_player.mpr ⟨slot, hslot, hy⟩
    by_cases hc : c = .player p
    · subst hc
      rw [mem_children_player, mem_children_player]
      simp only [setPlayer, Function.update_self, true_and]
      constructor
      · rintro ⟨i, hi, hx⟩
        by_cases his : i = slot
        · rw [his, Function.update_self] at hx
          exact .inr (Option.some.inj hx).symm
        · rw [Function.update_of_ne his] at hx
          exact .inl ⟨⟨i, hi, hx⟩, fun hy => his (hvalid.inventory p i hi slot hslot x hx hy)⟩
      · rintro (⟨⟨i, hi, hx⟩, hne⟩ | rfl)
        · refine ⟨i, hi, ?_⟩
          rw [Function.update_of_ne, hx]
          rintro rfl
          exact hne hx
        · exact ⟨slot, hslot, by rw [Function.update_self]⟩
    · have hsame : (w.setPlayer p fun x =>
          { x with inventory := Function.update x.inventory slot (some r) }).children c =
            w.children c := by
        cases c with
        | container d => rfl
        | tile t => rfl
        | player q =>
          have hq : q ≠ p := fun e => hc (congrArg Cylinder.player e)
          simp [children, setPlayer, hq]
      have hother : x ∈ w.children c → (w.player p).inventory slot ≠ some x := fun hx e =>
        hc (hvalid.holder _ _ x hx (hmem x e))
      rw [hsame]
      simp only [hc, false_and, or_false]
      exact ⟨fun h => ⟨h, hother h⟩, And.left⟩

theorem setParent_type (x : ℕ) (c : Option Cylinder) (y : ℕ) : (w.setParent x c).type rules y = w.type rules y := by
  rw [type, type, (Alike.setParent x c).id]

theorem displaced_spec {t y : ℕ} (htidy : Tidy rules w) (h : w.displaced rules t r = some y) :
    y ∈ w.children (.tile t) ∧ (w.item y).container = none := by
  unfold displaced at h
  split at h
  · exact ⟨mem_children_tile.mpr (.inl h), htidy.floor t y h⟩
  split at h
  · split at h
    · refine ⟨mem_children_tile.mpr (.inr (.inl (List.mem_of_find?_eq_some h))), htidy.plain y ?_⟩
      simp [replaces, List.find?_some h]
    · cases h
  · split at h
    · refine ⟨mem_children_tile.mpr (.inr (.inr (List.mem_of_find?_eq_some h))), htidy.plain y ?_⟩
      simp [replaces, List.find?_some h]
    · cases h

theorem displace_detached {t old : ℕ} (hvalid : Valid rules w) (hold : old ∈ w.children (.tile t))
    (hthing : w.hasThing rules (.tile t) old = true) (hstack : w.isStackable rules old = false) :
    Detached rules w (w.displace rules t old) old := by
  have hpart : w.isPart rules old 1 = false := by simp [isPart, hstack]
  have h := tileRemoveThing_detached hvalid.toNeat (fun c hc => hvalid.holder c _ old hc hold) hthing hpart
  have hlast : Alike (w.tileRemoveThing rules t old 1) (w.displace rules t old) :=
    .setParent old none
  refine ⟨h.items.trans hlast.sameItems, fun c x => ?_, fun p i hi => ?_, fun t' => ?_, hlast.neat h.neat⟩
  · rw [hlast.children, h.children]
  · rw [hlast.inventory, h.inventory p i hi]
  · rw [hlast.tile]
    exact h.size t'

theorem mem_tile_iff {t : ℕ} {f : Tile → Tile} (x : ℕ) : x ∈ (w.setTile t f).children (.tile t) ↔
    (f (w.tile t)).ground = some x ∨ x ∈ (f (w.tile t)).topItems ∨ x ∈ (f (w.tile t)).downItems := by
  rw [mem_children_tile]
  simp [setTile]

/-- `Tile::addThing` does nothing where a field is in the way that cannot be
replaced, and otherwise puts the item in the place of what makes way for it. -/
theorem tileAddThing_put {t : ℕ} (hsane : rules.Sane) (htidy : Tidy rules w)
    (hsize : ((w.tile t).topItems ++ (w.tile t).downItems).length < 0xFFFF) :
    (w.isWarded rules t r = true → Alike w (w.tileAddThing rules t r)) ∧
      (w.isWarded rules t r = false → Put w (w.tileAddThing rules t r) (.tile t) (w.displaced rules t r) r) := by
  have halike : Alike w (w.setParent r (some (.tile t))) := .setParent r _
  have htype : ∀ y, (w.setParent r (some (.tile t))).type rules y = w.type rules y :=
    setParent_type r _
  have hsplash : (w.setParent r (some (.tile t))).isSplash rules = w.isSplash rules := by
    funext y
    rw [isSplash, isSplash, htype]
  have hfield : (w.setParent r (some (.tile t))).isMagicField rules = w.isMagicField rules := by
    funext y
    rw [isMagicField, isMagicField, htype]
  have hvalid : Valid rules (w.setParent r (some (.tile t))) := htidy.toValid.alike halike
  have htile : (w.setParent r (some (.tile t))).tile = w.tile := rfl
  unfold tileAddThing
  rw [if_neg (not_le.mpr hsize)]
  dsimp only
  rw [htype, hfield, htile]
  generalize w.setParent r (some (.tile t)) = w₁ at halike htype hsplash hfield hvalid htile
  have hhead : ∀ (v : World) (x : ℕ), x ∈ (v.setTile t fun y => { y with downItems := r :: y.downItems }).children
      (.tile t) ↔ x ∈ v.children (.tile t) ∧ none ≠ some x ∨ x = r := by
    intro v x
    rw [mem_tile_iff, mem_children_tile]
    simp only [List.mem_cons, ne_eq, reduceCtorEq, not_false_eq_true, and_true]
    tauto
  unfold isWarded displaced
  split
  · -- a ground
    rename_i hground
    refine ⟨by simp [hground], fun _ => ?_⟩
    have hput : ∀ v, Alike w v → Put w (v.setTile t fun x => { x with ground := some r }) (.tile t)
        (w.tile t).ground r := by
      intro v hv
      refine .before hv (put_tile (htidy.toValid.alike hv) (fun y hy => ?_) fun x => ?_)
      · rw [hv.children]
        exact mem_children_tile.mpr (.inl hy)
      · rw [mem_tile_iff, mem_children_tile, hv.tile]
        have hnodup := htidy.tile t
        simp only [children, List.append_assoc] at hnodup
        have hdisj := List.disjoint_of_nodup_append hnodup
        constructor
        · rintro (h | h)
          · exact .inr (Option.some.inj h).symm
          · refine .inl ⟨.inr h, fun hg => hdisj (a := x) ?_ (List.mem_append.mpr h)⟩
            simp [hg]
        · rintro (⟨h | h, hne⟩ | rfl)
          · exact absurd h hne
          · exact .inr h
          · exact .inl rfl
    split
    · exact hput _ (halike.trans (.setParent _ none))
    · exact hput _ halike
  · rename_i hground
    split
    · -- it is always on top
      rename_i htop
      refine ⟨by simp [htop], fun _ => ?_⟩
      have hput : ∀ v : World, Valid rules v → Put v (v.setTile t fun x =>
          { x with topItems := v.insertTop rules r x.topItems }) (.tile t) none r := by
        intro v hv
        refine put_tile hv (fun _ h => by cases h) fun x => ?_
        rw [mem_tile_iff, mem_children_tile, (insertTop_perm r _).mem_iff]
        simp only [List.mem_cons, ne_eq, reduceCtorEq, not_false_eq_true, and_true]
        tauto
      unfold dropSplash
      rw [hsplash, htile]
      cases hold : (w.tile t).topItems.find? (w.isSplash rules) with
      | none =>
        dsimp only
        rw [ite_self]
        exact .before halike (hput w₁ hvalid)
      | some old =>
        dsimp only
        split
        · have hmem := List.mem_of_find?_eq_some hold
          have hon : (w₁.type rules old).alwaysOnTop = true := hvalid.top t old (htile ▸ hmem)
          have hthing : w₁.hasThing rules (.tile t) old = true := by
            simp only [hasThing, hon, if_true, htile, hmem, decide_true, Bool.or_true]
          have hstack : w₁.isStackable rules old = false := by
            cases h : w₁.isStackable rules old with
            | false => rfl
            | true =>
              have := hsane.top _ h
              rw [← type, hon] at this
              cases this
          have hdet := displace_detached hvalid (mem_of_hasThing hthing) hthing hstack
          exact .before halike (hdet.put (hput _ (hvalid.detached hdet)))
        · exact .before halike (hput w₁ hvalid)
    · -- it lies among the down items
      rename_i htop
      have hput : ∀ v : World, Valid rules v → Put v (v.setTile t fun x =>
          { x with downItems := r :: x.downItems }) (.tile t) none r :=
            fun v hv => put_tile hv (fun _ h => by cases h) (hhead v)
      cases hold : (w.tile t).downItems.find? (w.isMagicField rules) with
      | none =>
        simp only [ite_self, Option.any_none, Bool.and_false, Bool.false_eq_true,
          false_implies, true_and, forall_const]
        exact .before halike (hput w₁ hvalid)
      | some old =>
        dsimp only
        cases hr : w.isMagicField rules r with
        | false =>
          simp only [Bool.false_eq_true, if_false, Option.any_none, Bool.and_false,
            false_implies, true_and, forall_const]
          exact .before halike (hput w₁ hvalid)
        | true =>
          simp only [if_true, Option.any_some]
          rw [htype old]
          have hmem := List.mem_of_find?_eq_some hold
          have hkind := htidy.field old (List.find?_some hold)
          cases hrep : (w.type rules old).replaceable with
          | true =>
            simp only [if_true, Bool.not_true, Bool.and_false, Bool.false_eq_true,
              false_implies, true_and, forall_const]
            have hthing : w₁.hasThing rules (.tile t) old = true := by
              simp [hasThing, htype, hkind.2, htile, hmem]
            have hstack : w₁.isStackable rules old = false := by
              rw [isStackable, htype]
              exact hkind.1
            have hdet := displace_detached hvalid (mem_of_hasThing hthing) hthing hstack
            exact .before halike (hdet.put (hput _ (hvalid.detached hdet)))
          | false =>
            simp only [Bool.false_eq_true, if_false]
            refine ⟨fun _ => halike.trans (.setParent r none), fun h => ?_⟩
            simp [hground, htop] at h

/-! ## What a place loses and gains -/

/-- What `queryAdd` has made sure of at a place. -/
def IsOpen (rules : Rules) (w : World) (d : Destination) (r : ℕ) : Prop :=
  match d.cylinder with
  | .container c => (w.item c).container.isSome = true
  | .player p => ∀ y, w.getInventoryItem p d.index = some y →
    w.isStackable rules y = true ∧ (w.item y).id = (w.item r).id
  | .tile t => ((w.tile t).topItems ++ (w.tile t).downItems).length < 0xFFFF

theorem isOpen_of_accepts {d : Destination} {count : ℕ} (hvalid : Valid rules w)
    (hflags : d.flags.childIsOwner = false)
    (h : w.queryAdd rules d.cylinder d.index r count d.flags false = .noError) : IsOpen rules w d r := by
  obtain ⟨c, index, toItem, flags⟩ := d
  cases c with
  | container c => exact (unlocked_of_accepts hvalid.storeInbox hflags (.inl h)).1
  | player p => exact fun y hy => playerQueryAdd_taken hflags h hy
  | tile t => exact size_of_accepts (.inl h)

theorem IsOpen.lists {d : Destination} (h : IsOpen rules w d r) (h' : SameLists w w') : IsOpen rules w' d r := by
  obtain ⟨c, index, toItem, flags⟩ := d
  cases c with
  | container c =>
    have hmap := congrArg Option.isSome (h'.container c)
    simp only [Option.isSome_map] at hmap
    exact hmap.trans h
  | player p =>
    intro y hy
    have hget : w.getInventoryItem p index = some y := by
      simpa only [getInventoryItem, h'.inventory] using hy
    rw [isStackable_of_id h'.id, h'.id, h'.id]
    exact h y hget
  | tile t =>
    show ((w'.tile t).topItems ++ (w'.tile t).downItems).length < 0xFFFF
    rw [h'.tile]
    exact h

theorem capacity_of_lists (h : SameLists w w') (c : ℕ) : w'.capacity c = w.capacity c :=
  (capacity_of_plate (h.plate c)).1

theorem displaced_of_lists (h : SameLists w w') (t : ℕ) : w'.displaced rules t r = w.displaced rules t r := by
  have htype : ∀ y, w'.type rules y = w.type rules y := fun y => by rw [type, type, h.id]
  have hsplash : w'.isSplash rules = w.isSplash rules := by
    funext y
    rw [isSplash, isSplash, htype]
  have hfield : w'.isMagicField rules = w.isMagicField rules := by
    funext y
    rw [isMagicField, isMagicField, htype]
  simp only [displaced, htype, hsplash, hfield, h.tile]

theorem lostTo_of_lists {d : Destination} (h : SameLists w w') : w'.lostTo rules d r = w.lostTo rules d r := by
  unfold lostTo
  cases d.cylinder with
  | container c => rfl
  | player p => simp only [h.inventory]
  | tile t => exact displaced_of_lists h t

theorem drops_of_lists {d : Destination} (h : SameLists w w') : w'.drops rules d r = w.drops rules d r := by
  have htype : ∀ y, w'.type rules y = w.type rules y := fun y => by rw [type, type, h.id]
  unfold drops
  cases d.cylinder with
  | container c =>
    dsimp only
    rw [capacity_of_lists h]
  | player p => rfl
  | tile t => simp only [isWarded, displaced_of_lists h, htype]

theorem takes_of_lists {d : Destination} (h : SameLists w w') : w'.takes rules d r = w.takes rules d r := by
  simp only [takes, drops_of_lists h, lostTo_of_lists h, h.id]

theorem Alike.putThing_tail (d : Destination) (w' : World) :
    Alike w' (if w'.hasThing rules d.cylinder r then w'.notify rules d.cylinder else w') := by
  split
  · exact .notify _
  · exact .same w'

/-- `addThing` does nothing, or it puts the item in the place of what makes way for it. -/
theorem putThing_put {d : Destination} (hsane : rules.Sane) (htidy : Tidy rules w)
    (hloose : ∀ c, r ∉ w.children c) (hopen : IsOpen rules w d r) :
    (w.drops rules d r = true → Alike w (w.putThing rules d r)) ∧
      (w.drops rules d r = false → Put w (w.putThing rules d r) d.cylinder (w.lostTo rules d r) r) := by
  suffices h : (w.drops rules d r = true → Alike w (w.addThing rules d.cylinder d.index r)) ∧
      (w.drops rules d r = false →
        Put w (w.addThing rules d.cylinder d.index r) d.cylinder (w.lostTo rules d r) r) from
    ⟨fun hd => (h.1 hd).trans (.putThing_tail d _), fun hd => (h.2 hd).after (.putThing_tail d _)⟩
  obtain ⟨c, index, toItem, flags⟩ := d
  cases c with
  | container c =>
    simp only [drops, lostTo, decide_eq_true_eq, decide_eq_false_iff_not]
    refine ⟨fun hd => ?_, fun hd => ?_⟩
    · show Alike w (w.containerAddThing rules c index r)
      rw [containerAddThing, if_pos hd]
      exact .same w
    · have hroom : HasRoom w (.container c) index := ⟨hopen, not_le.mp hd⟩
      exact (addThing_attached htidy.toNeat hloose hroom (fun _ h => by cases h)).put
  | player p =>
    have halike : Alike w (w.setParent r (some (.player p))) := .setParent r _
    simp only [drops, lostTo, Bool.not_eq_true', Bool.not_eq_false', Bool.and_eq_true, decide_eq_true_eq]
    show (_ → Alike w (w.playerAddThing p index r)) ∧ (_ → Put w (w.playerAddThing p index r) _ _ _)
    unfold playerAddThing
    refine ⟨fun hd => ?_, fun hd => ?_⟩
    · rw [if_neg (by simpa using hd)]
      exact .same w
    · rw [if_pos hd]
      have hslot : index.toNat ∈ slots := by
        simp only [slots, List.mem_cons, List.not_mem_nil, or_false]
        omega
      exact .before halike (put_slot (htidy.toValid.alike halike) hslot)
  | tile t => exact tileAddThing_put hsane htidy hopen

theorem lostTo_spec {d : Destination} {y : ℕ} (htidy : Tidy rules w) (hopen : IsOpen rules w d r)
    (hdrop : w.drops rules d r = false) (h : w.lostTo rules d r = some y) :
    y ∈ w.children d.cylinder ∧ (w.item y).container = none := by
  obtain ⟨c, index, toItem, flags⟩ := d
  cases c with
  | container c => cases h
  | player p =>
    have hrange : 1 ≤ index ∧ index ≤ 10 := by simpa [drops] using hdrop
    have hget : w.getInventoryItem p index = some y := by
      rw [getInventoryItem, if_pos hrange]
      exact h
    exact ⟨mem_of_getInventoryItem hget, htidy.leaf y (hopen y hget).1⟩
  | tile t => exact displaced_spec htidy h

theorem amount_pos {c : Cylinder} {x : ℕ} (htidy : Tidy rules w) (hx : x ∈ w.children c) :
    1 ≤ w.amount rules (w.item x).id x := by
  unfold amount
  rw [if_pos rfl]
  split
  · rename_i hstack
    exact htidy.stacked c x hx hstack
  · exact le_rfl

/-- Putting an item somewhere gains its units exactly when the place takes it. -/
theorem putThing_gains {S : Set Cylinder} {d : Destination} (hsane : rules.Sane) (htidy : Tidy rules w)
    (hloose : ∀ c, r ∉ w.children c) (hr : r < w.next) (hone : 1 ≤ w.amount rules (w.item r).id r)
    (hapart : Apart w S r) (hb : d.cylinder ∈ S) (hopen : IsOpen rules w d r) :
    (w.putThing rules d r).units rules S (w.item r).id =
        w.units rules S (w.item r).id + w.grown rules (w.item r).id r ↔
      w.takes rules d r = true := by
  obtain ⟨hdrop, hput⟩ := putThing_put hsane htidy hloose hopen
  cases hd : w.drops rules d r with
  | true =>
    rw [units_alike _ (hdrop hd)]
    simp only [takes, hd, Bool.not_true, Bool.false_and, Bool.false_eq_true, iff_false]
    have : 1 ≤ w.grown rules (w.item r).id r := hone.trans (Nat.le_add_left _ _)
    omega
  | false =>
    have hlost : ∀ y, w.lostTo rules d r = some y → y ∈ w.children d.cylinder ∧ (w.item y).container = none :=
      fun y hy => lostTo_spec htidy hopen hd hy
    have hsum : (w.putThing rules d r).units rules S (w.item r).id +
        ((w.lostTo rules d r).map (w.amount rules (w.item r).id)).getD 0 =
          w.units rules S (w.item r).id + w.grown rules (w.item r).id r :=
      units_put _ (hput hd) hb hr hapart (not_below_of_loose hloose)
        (fun y hy => htidy.known _ y (hlost y hy).1) (fun y hy => (hlost y hy).2) fun y hy => (hlost y hy).1
    simp only [takes, hd, Bool.not_false, Bool.true_and]
    cases hy : w.lostTo rules d r with
    | none =>
      rw [hy] at hsum
      simpa using hsum
    | some y =>
      rw [hy, Option.map_some, Option.getD_some] at hsum
      simp only [Option.all_some, decide_eq_true_eq]
      constructor
      · intro heq hid
        have := amount_pos htidy (hlost y hy).1
        rw [hid] at this
        omega
      · intro hid
        rw [amount, if_neg hid] at hsum
        exact hsum

end World
end ForgottenServer.Things
