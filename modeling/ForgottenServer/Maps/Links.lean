import ForgottenServer.Maps.Index

/-! # The links between leaves

A new leaf is linked with its neighbours as they are then, and they with it. So the
links say at any time which leaves lie to the east and to the south. -/
namespace ForgottenServer.Maps
open ForgottenServer.Lib.Quadtree ForgottenServer.Lib.Run ForgottenServer.Tiles

variable {rules : Rules} {m m' : Map} {p : Position}

namespace Map

/-- `setTile`. What lies on a tile that is replaced stays, and the new things come on top of it. -/
def setAnyTile (types : ℕ → ItemType) (m : Map) (p : Position) (newTile : Tile) : Map :=
  if maxLayers ≤ p.z.toNat then m
  else
    match (m.createLeaf p).getTile p with
    | some _ => (m.createLeaf p).modifyTile p fun tile =>
      (newTile.items.reverse ++ newTile.ground.toList).foldl (·.addItem types) tile
    | none => (m.createLeaf p).modifyLeaf p.path (·.setTile p newTile)

/-- The links of every leaf: to the east and to the south, where the coordinates begin anew at the
borders. -/
structure Linked (m : Map) : Prop where
  east : ∀ x y leaf, m.root.get (path 15 13 x y) = some leaf → leaf.leafE = m.leafAt (x + 8) y
  south : ∀ x y leaf, m.root.get (path 15 13 x y) = some leaf → leaf.leafS = m.leafAt x (y + 8)

def linksAt (m : Map) (way : List Quadrant) : Option (Option (List Quadrant) × Option (List Quadrant)) :=
  (m.root.get way).map fun leaf => (leaf.leafE, leaf.leafS)

end Map

/-! ## A new leaf -/

section Create

theorem way_eq_iff {x y x' y' : ℕ} : path 15 13 x y = path 15 13 x' y' ↔
    x / 8 % 8192 = x' / 8 % 8192 ∧ y / 8 % 8192 = y' / 8 % 8192 := by
  have h : path 15 13 x y = path 15 13 x' y' ↔ x % 2 ^ 16 / 2 ^ 3 = x' % 2 ^ 16 / 2 ^ 3 ∧
      y % 2 ^ 16 / 2 ^ 3 = y' % 2 ^ 16 / 2 ^ 3 := path_eq_iff_mod (b := 15) (m := 3) (by decide)
  rw [h]
  constructor <;> rintro ⟨hx, hy⟩ <;> constructor <;> omega

theorem toNat_sub_block (n : UInt16) : (n - 8).toNat = (n.toNat + 65528) % 65536 := by
  have height : (8 : UInt16).toNat = 8 := rfl
  rw [UInt16.toNat_sub, height]
  omega

theorem toNat_add_block (n : UInt16) : (n + 8).toNat = (n.toNat + 8) % 65536 := UInt16.toNat_add n 8

theorem west_eq_iff {x y : ℕ} :
    path 15 13 x y = path 15 13 (p.x - 8).toNat p.y.toNat ↔ path 15 13 (x + 8) y = p.path := by
  rw [Position.path, way_eq_iff, way_eq_iff, toNat_sub_block]
  omega

theorem north_eq_iff {x y : ℕ} :
    path 15 13 x y = path 15 13 p.x.toNat (p.y - 8).toNat ↔ path 15 13 x (y + 8) = p.path := by
  rw [Position.path, way_eq_iff, way_eq_iff, toNat_sub_block]
  omega

theorem east_way {x y : ℕ} (h : path 15 13 x y = p.path) :
    path 15 13 (p.x + 8).toNat p.y.toNat = path 15 13 (x + 8) y := by
  rw [Position.path, way_eq_iff] at h
  rw [way_eq_iff, toNat_add_block]
  omega

theorem south_way {x y : ℕ} (h : path 15 13 x y = p.path) :
    path 15 13 p.x.toNat (p.y + 8).toNat = path 15 13 x (y + 8) := by
  rw [Position.path, way_eq_iff] at h
  rw [way_eq_iff, toNat_add_block]
  omega

theorem next_ne {x y : ℕ} (h : path 15 13 x y = p.path) :
    path 15 13 (x + 8) y ≠ p.path ∧ path 15 13 x (y + 8) ≠ p.path := by
  rw [Position.path, way_eq_iff] at h
  rw [Position.path, Ne, way_eq_iff, Ne, way_eq_iff]
  omega

theorem isSome_get_modifyLeaf (m : Map) (way way' : List Quadrant) (f : Leaf → Leaf) :
    ((m.modifyLeaf way f).root.get way').isSome = (m.root.get way').isSome := by
  have hmap := QTree.map_get_modify (f := f) (g := fun _ => ()) (fun _ => rfl) m.root way way'
  rw [← Option.isSome_map (f := fun _ : Leaf => ()), ← Option.isSome_map (f := fun _ : Leaf => ())]
  exact congrArg Option.isSome hmap

/-- The leaf of a position is made with links to its neighbours, and its neighbours to the north and
to the west are linked with it. -/
theorem get_createLeaf (hnew : m.root.get p.path = none) (x y : ℕ) : (m.createLeaf p).root.get (path 15 13 x y) =
      if path 15 13 x y = p.path then
        some { leafE := m.leafAt (x + 8) y, leafS := m.leafAt x (y + 8) }
      else (m.root.get (path 15 13 x y)).map fun leaf =>
        { leaf with
          leafE := if path 15 13 (x + 8) y = p.path then some p.path else leaf.leafE
          leafS := if path 15 13 x (y + 8) = p.path then some p.path else leaf.leafS } := by
  have hlength : ∀ x y, (path 15 13 x y).length = 13 := length_path 15 13
  have hcreated : ∀ x y, (m.root.create ({} : Leaf) p.path).get (path 15 13 x y) =
      if path 15 13 x y = p.path then some {} else m.root.get (path 15 13 x y) := by
    intro x y
    rw [QTree.get_create {} m.root (length_positionPath p) (hlength x y), hnew]
    rfl
  unfold Map.createLeaf
  rw [if_neg (by rw [hnew]; exact Bool.false_ne_true)]
  dsimp only
  rw [get_modifyLeaf _ (length_positionPath p) (hlength ..), isSome_get_modifyLeaf,
    isSome_get_modifyLeaf, isSome_get_modifyLeaf, isSome_get_modifyLeaf,
    get_modifyLeaf _ (length_positionPath _) (hlength ..),
    get_modifyLeaf _ (length_positionPath _) (hlength ..)]
  dsimp only
  rw [hcreated]
  have hwest : path 15 13 x y = ({ p with x := p.x - 8 } : Position).path ↔
      path 15 13 (x + 8) y = p.path := @west_eq_iff p x y
  have hnorth : path 15 13 x y = ({ p with y := p.y - 8 } : Position).path ↔
      path 15 13 x (y + 8) = p.path := @north_eq_iff p x y
  by_cases hway : path 15 13 x y = p.path
  · obtain ⟨heast, hsouth⟩ := next_ne hway
    have heastWay : ({ p with x := p.x + 8 } : Position).path = path 15 13 (x + 8) y :=
      east_way hway
    have hsouthWay : ({ p with y := p.y + 8 } : Position).path = path 15 13 x (y + 8) :=
      south_way hway
    rw [if_pos hway, if_neg (mt hwest.mp heast), if_neg (mt hnorth.mp hsouth), if_pos hway,
      if_pos hway, Option.map_some, heastWay, hsouthWay, hcreated, if_neg heast, hcreated,
      if_neg hsouth]
    rfl
  · rw [if_neg hway, if_neg hway, if_neg hway]
    simp only [hwest, hnorth]
    cases m.root.get (path 15 13 x y) with
    | none => split <;> split <;> rfl
    | some leaf => split <;> split <;> rfl

end Create

/-! ## Links that are right -/

section Linked

theorem leafAt_createLeaf (hnew : m.root.get p.path = none) (x y : ℕ) :
    (m.createLeaf p).leafAt x y = if path 15 13 x y = p.path then some p.path else m.leafAt x y := by
  unfold Map.leafAt
  rw [get_createLeaf hnew]
  split
  · rename_i hway
    rw [hway]
    rfl
  · rw [Option.isSome_map]

theorem linked_empty : ({} : Map).Linked where
  east _ _ _ h := by cases h
  south _ _ _ h := by cases h

theorem Map.Linked.createLeaf (h : m.Linked) (p : Position) : (m.createLeaf p).Linked := by
  cases hget : m.root.get p.path with
  | some leaf =>
    rw [Map.createLeaf, hget]
    exact h
  | none =>
    constructor
    · intro x y leaf hleaf
      rw [get_createLeaf hget] at hleaf
      rw [leafAt_createLeaf hget]
      split at hleaf
      · rename_i hway
        cases hleaf
        rw [if_neg (next_ne hway).1]
      · obtain ⟨old, hold, rfl⟩ := Option.map_eq_some_iff.mp hleaf
        rw [h.east x y old hold]
    · intro x y leaf hleaf
      rw [get_createLeaf hget] at hleaf
      rw [leafAt_createLeaf hget]
      split at hleaf
      · rename_i hway
        cases hleaf
        rw [if_neg (next_ne hway).2]
      · obtain ⟨old, hold, rfl⟩ := Option.map_eq_some_iff.mp hleaf
        rw [h.south x y old hold]

theorem Map.Linked.of_links (h : m.Linked) (hm : ∀ way, m'.linksAt way = m.linksAt way) : m'.Linked := by
  have hleafAt : ∀ x y, m'.leafAt x y = m.leafAt x y := by
    intro x y
    have hsome : (m'.root.get (path 15 13 x y)).isSome = (m.root.get (path 15 13 x y)).isSome := by
      have hlinks := congrArg Option.isSome (hm (path 15 13 x y))
      simpa only [Map.linksAt, Option.isSome_map] using hlinks
    rw [Map.leafAt, Map.leafAt, hsome]
  have hold : ∀ x y leaf, m'.root.get (path 15 13 x y) = some leaf → ∃ old,
      m.root.get (path 15 13 x y) = some old ∧ old.leafE = leaf.leafE ∧ old.leafS = leaf.leafS := by
    intro x y leaf hleaf
    have hlinks := hm (path 15 13 x y)
    rw [Map.linksAt, hleaf, Option.map_some] at hlinks
    obtain ⟨old, hget, hold⟩ := Option.map_eq_some_iff.mp hlinks.symm
    exact ⟨old, hget, (Prod.mk.inj hold).1, (Prod.mk.inj hold).2⟩
  constructor
  · intro x y leaf hleaf
    obtain ⟨old, hget, heast, -⟩ := hold x y leaf hleaf
    rw [← heast, hleafAt, h.east x y old hget]
  · intro x y leaf hleaf
    obtain ⟨old, hget, -, hsouth⟩ := hold x y leaf hleaf
    rw [← hsouth, hleafAt, h.south x y old hget]

theorem linksAt_modifyLeaf (m : Map) (way : List Quadrant) {f : Leaf → Leaf}
    (hf : ∀ leaf, (f leaf).leafE = leaf.leafE ∧ (f leaf).leafS = leaf.leafS)
    (way' : List Quadrant) : (m.modifyLeaf way f).linksAt way' = m.linksAt way' :=
  QTree.map_get_modify (fun leaf => Prod.ext (hf leaf).1 (hf leaf).2) m.root way way'

theorem linksAt_modifyTile (m : Map) (p : Position) (f : Tile → Tile) (way : List Quadrant) :
    (m.modifyTile p f).linksAt way = m.linksAt way := by
  have hkept : ∀ leaf : Leaf, (leaf.modifyTile p f).leafE = leaf.leafE ∧
      (leaf.modifyTile p f).leafS = leaf.leafS := fun _ => ⟨rfl, rfl⟩
  exact linksAt_modifyLeaf m p.path hkept way

theorem linksAt_setTile (m : Map) (p : Position) (t : Tile) (way : List Quadrant) :
    (m.modifyLeaf p.path (·.setTile p t)).linksAt way = m.linksAt way := by
  have hkept : ∀ leaf : Leaf, (leaf.setTile p t).leafE = leaf.leafE ∧
      (leaf.setTile p t).leafS = leaf.leafS := fun _ => ⟨rfl, rfl⟩
  exact linksAt_modifyLeaf m p.path hkept way

theorem Map.Linked.setAnyTile (h : m.Linked) (types : ℕ → ItemType) (p : Position) (t : Tile) :
    (m.setAnyTile types p t).Linked := by
  unfold Map.setAnyTile
  split
  · exact h
  · split
    · exact (h.createLeaf p).of_links (linksAt_modifyTile _ p _)
    · exact (h.createLeaf p).of_links (linksAt_setTile _ p t)

end Linked

/-! ## Creatures -/

section Creatures
variable {c : ℕ}

theorem linksAt_addCreature (isPlayer : ℕ → Bool) (m : Map) (c : ℕ) (way way' : List Quadrant) :
    (m.modifyLeaf way (·.addCreature isPlayer c)).linksAt way' = m.linksAt way' := by
  have hkept : ∀ leaf : Leaf, (leaf.addCreature isPlayer c).leafE = leaf.leafE ∧
      (leaf.addCreature isPlayer c).leafS = leaf.leafS := fun _ => ⟨rfl, rfl⟩
  exact linksAt_modifyLeaf m way hkept way'

theorem linksAt_removeCreature (isPlayer : ℕ → Bool) (m : Map) (c : ℕ) (way way' : List Quadrant) :
    (m.modifyLeaf way (·.removeCreature isPlayer c)).linksAt way' = m.linksAt way' := by
  have hkept : ∀ leaf : Leaf, (leaf.removeCreature isPlayer c).leafE = leaf.leafE ∧
      (leaf.removeCreature isPlayer c).leafS = leaf.leafS := fun _ => ⟨rfl, rfl⟩
  exact linksAt_modifyLeaf m way hkept way'

theorem linksAt_addThing (m : Map) (p : Position) (c : ℕ) (way : List Quadrant) :
    (m.addThing rules p c).linksAt way = m.linksAt way := linksAt_modifyTile _ p _ way

theorem linksAt_removeThing (m : Map) (p : Position) (c : ℕ) (way : List Quadrant) :
    (m.removeThing rules p c).linksAt way = m.linksAt way := by
  unfold Map.removeThing
  split
  · exact linksAt_modifyTile _ p _ way
  · rfl

theorem linksAt_getSpectators (isPlayer : ℕ → Bool) (m : Map) (v : Map.View)
    (way : List Quadrant) : (m.getSpectators isPlayer [] v).2.linksAt way = m.linksAt way := by
  obtain ⟨cache, players, hm⟩ := getSpectators_map isPlayer m [] v
  rw [hm]
  rfl

theorem linksAt_moveCreature (m : Map) (c : ℕ) (newPos : Position) (way : List Quadrant) :
    (m.moveCreature rules c newPos).linksAt way = m.linksAt way := by
  unfold Map.moveCreature
  split
  · rfl
  · dsimp only
    rw [linksAt_addThing]
    split
    · rw [linksAt_addCreature, linksAt_removeCreature, linksAt_removeThing, linksAt_getSpectators,
        linksAt_getSpectators]
    · rw [linksAt_removeThing, linksAt_getSpectators, linksAt_getSpectators]

theorem linksAt_step (m : Map) (a : Action) (way : List Quadrant) : (step rules m a).linksAt way = m.linksAt way := by
  cases a with
  | placeCreature c pos extendedPos forced relList =>
    unfold step
    dsimp only
    split
    · rfl
    · cases hplace : m.placeCreature rules pos c extendedPos forced relList with
      | none => rfl
      | some after =>
        obtain ⟨p, -, hplace⟩ := Option.bind_eq_some_iff.mp hplace
        obtain ⟨dest, -, rfl⟩ := Option.map_eq_some_iff.mp hplace
        rw [Option.getD_some, linksAt_addCreature, linksAt_addThing]
  | moveCreature c newPos => exact linksAt_moveCreature m c newPos way
  | removeCreature c =>
    unfold step
    dsimp only
    split
    · rfl
    · split
      · rfl
      · show ((m.getSpectators _ [] _).2.removeFromTile rules _ c).linksAt way = _
        rw [Map.removeFromTile, linksAt_removeThing, linksAt_removeCreature, linksAt_getSpectators]
  | getSpectators spectators v =>
    obtain ⟨cache, players, hm⟩ := getSpectators_map rules.isPlayer m spectators v
    rw [step, hm]
    rfl

theorem Map.Linked.step (h : m.Linked) (rules : Rules) (a : Action) : (step rules m a).Linked :=
  h.of_links (linksAt_step m a)

end Creatures
end ForgottenServer.Maps
