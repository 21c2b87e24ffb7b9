import ForgottenServer.Lib.Shifts
import ForgottenServer.Maps.Index
import ForgottenServer.Maps.Path
import Mathlib.Algebra.Order.Group.Abs
import Mathlib.Algebra.Order.Group.Int

/-! # The walk cache of a monster

A monster remembers for the squares around it whether it can walk there. When it
moves, `onCreatureMove` shifts what it remembers and asks again at the edges only.
Only monsters have such a cache, so that `queryAdd` is the one for monsters. -/
namespace ForgottenServer.Maps
open ForgottenServer.Lib.Shifts ForgottenServer.Tiles

/-! ## Where a monster can walk -/

inductive ReturnValue
  | noError | notPossible | notEnoughRoom
  deriving DecidableEq, Repr

/-- What `queryAdd` asks of a creature that is on a tile. -/
structure Occupant where
  isPlayer : Bool := false
  isInGhostMode : Bool := false
  isMonster : Bool := false
  isPushable : Bool := false
  isSummon : Bool := false
  masterIsPlayer : Bool := false
  deriving DecidableEq, Repr

/-- What it asks of the monster. -/
structure Monster where
  canPushCreatures : Bool := false
  canPushItems : Bool := false
  isSummon : Bool := false
  canWalkOnEnergy : Bool := true
  canWalkOnFire : Bool := true
  canWalkOnPoison : Bool := true
  damageImmunities : BitVec 32 := 0
  ignoreFieldDamage : Bool := false
  deriving DecidableEq, Repr

/-- What it asks of the type of a field: `getDamage` and `getCombatType`. -/
structure FieldType where
  damage : ℤ := 0
  combatType : BitVec 32 := 0

/-- The monster, the types and the creatures. -/
structure WalkRules where
  monster : Monster
  types : ℕ → ItemType
  fields : ℕ → FieldType
  occupant : ℕ → Occupant

/-- `COMBAT_ENERGYDAMAGE`, `COMBAT_FIREDAMAGE` and `COMBAT_EARTHDAMAGE`. -/
def Monster.canWalkOnFieldType (monster : Monster) (combatType : BitVec 32) : Bool :=
  if combatType = 2 then monster.canWalkOnEnergy
  else if combatType = 8 then monster.canWalkOnFire
  else if combatType = 4 then monster.canWalkOnPoison
  else true

def Monster.isImmune (monster : Monster) (combatType : BitVec 32) : Bool :=
  monster.damageImmunities &&& combatType ≠ 0

def getFieldItem (t : Tile) : Option Item :=
  if !t.hasFlag TileState.magicField.mask then none
  else (t.ground.filter (·.itemClass = .magicField)).or (t.items.reverse.find? (·.itemClass = .magicField))

namespace WalkRules
variable (r : WalkRules)

/-- What the creatures of a tile answer: a monster that pushes creatures is held up by those that
it cannot push, another one by all that are to be seen. -/
def creaturesAnswer (creatures : List ℕ) : ReturnValue :=
  if r.monster.canPushCreatures && !r.monster.isSummon then
    let blocks (c : ℕ) : Bool :=
      let o := r.occupant c
      !(o.isPlayer && o.isInGhostMode) && (!o.isMonster || !o.isPushable || (o.isSummon && o.masterIsPlayer))
    if creatures.any blocks then .notPossible else .noError
  else if creatures.any fun c => !(r.occupant c).isInGhostMode then .notEnoughRoom else .noError

/-- `queryAdd` with `FLAG_PATHFINDING | FLAG_IGNOREFIELDDAMAGE`. -/
def queryAdd (t : Tile) : ReturnValue :=
  if t.hasFlag (TileState.floorChange ||| TileState.teleport.mask) then .notPossible
  else if t.ground.isNone then .notPossible
  else if t.hasFlag (TileState.protectionZone.mask ||| TileState.floorChange |||
      TileState.teleport.mask) then .notPossible
  else if r.creaturesAnswer t.creatures ≠ .noError then r.creaturesAnswer t.creatures
  else if t.hasFlag TileState.immovableBlockSolid.mask then .notPossible
  else if t.hasFlag TileState.immovableNoFieldBlockPath.mask then .notPossible
  else if (t.hasFlag TileState.blockSolid.mask || t.hasFlag TileState.noFieldBlockPath.mask) &&
      !r.monster.canPushItems then .notPossible
  else
    match getFieldItem t with
    | none => .noError
    | some field =>
      let combatType := (r.fields field.id).combatType
      if (r.types field.id).blockSolid ∨ (r.fields field.id).damage = 0 then .noError
      else if !r.monster.isImmune combatType &&
          !(r.monster.canWalkOnFieldType combatType || r.monster.ignoreFieldDamage) then
        .notPossible
      else .noError

/-- What the cache holds for a tile, which may be missing. -/
def accepts (t : Option Tile) : Bool := t.any (r.queryAdd · = .noError)

end WalkRules

/-! ## The cache -/

/-- `localMapCache`, by row and column. -/
abbrev MapCache := ℕ → ℕ → Bool

def MapCache.set (cache : MapCache) (row column : ℕ) (b : Bool) : MapCache :=
  Function.update cache row (Function.update (cache row) column b)

/-- `mapWalkWidth` and `mapWalkHeight`. -/
def mapWalkSize : ℕ := 23

/-- The offsets from `-maxWalkCacheWidth` to `maxWalkCacheWidth`. -/
def cacheOffsets : List ℤ := (List.range mapWalkSize).map fun (i : ℕ) => (i : ℤ) - Walker.maxWalkCache

/-- Coordinates are `uint16_t`. -/
def Position.shifted (pos : Position) (dx dy : ℤ) : Position :=
  { pos with x := .ofInt (pos.x.toNat + dx), y := .ofInt (pos.y.toNat + dy) }

section Cache
variable (r : WalkRules) (m : Map) (myPos : Position)

def updateTileCache (cache : MapCache) (tile : Option Tile) (dx dy : ℤ) : MapCache :=
  if |dx| ≤ Walker.maxWalkCache ∧ |dy| ≤ Walker.maxWalkCache then
    cache.set (Walker.maxWalkCache + dy).toNat (Walker.maxWalkCache + dx).toNat (r.accepts tile)
  else cache

/-- `updateTileCache` with a position. -/
def updateTileCacheAt (cache : MapCache) (tile : Option Tile) (pos : Position) : MapCache :=
  if pos.z = myPos.z then
    updateTileCache r cache tile (pos.x.toNat - myPos.x.toNat) (pos.y.toNat - myPos.y.toNat)
  else cache

def updateMapCache (cache : MapCache) : MapCache :=
  cacheOffsets.foldl (fun cache y =>
    cacheOffsets.foldl (fun cache x =>
      let pos := myPos.shifted x y
      updateTileCacheAt r myPos cache (m.getTile pos) pos) cache) cache

/-- The loop over a row at the edge. -/
def updateRow (cache : MapCache) (dy : ℤ) : MapCache :=
  cacheOffsets.foldl (fun cache x => updateTileCache r cache (m.getTile (myPos.shifted x dy)) x dy) cache

/-- The loop over a column at the edge. -/
def updateColumn (cache : MapCache) (dx : ℤ) : MapCache :=
  cacheOffsets.foldl (fun cache y => updateTileCache r cache (m.getTile (myPos.shifted dx y)) dx y) cache

end Cache

/-- `getDistanceY`, which has no sign. -/
def getDistanceY (p q : Position) : ℤ := |(p.y.toNat : ℤ) - q.y.toNat|

/-- The rows, from the first to the last, that are shifted to the side. -/
def shiftedRows (oldPos newPos : Position) : ℤ × ℤ :=
  let starty := 0
  let endy := mapWalkSize - 1
  let dy := getDistanceY oldPos newPos
  if dy < 0 then (starty, endy + dy) else if 0 < dy then (dy, endy) else (starty, endy)

def shiftRows (rows : ℤ × ℤ) (shift : (ℕ → Bool) → ℕ → Bool) (cache : MapCache) : MapCache :=
  mapFrom shift rows.1.toNat (rows.2 + 1 - rows.1).toNat cache

section Moving
variable (r : WalkRules) (m : Map) (cache : MapCache) (oldPos newPos : Position)

/-- To the north or to the south the rows are shifted, and one at the edge is read. -/
def shiftVertically : MapCache :=
  if newPos.y < oldPos.y then
    updateRow r m newPos (shiftUp (mapWalkSize - 1) cache) (-Walker.maxWalkCache)
  else if oldPos.y < newPos.y then
    updateRow r m newPos (shiftDown 0 (mapWalkSize - 1) cache) Walker.maxWalkCache
  else cache

/-- To the east or to the west all but the row that was read should be shifted. -/
def shiftHorizontally : MapCache :=
  let rows := shiftedRows oldPos newPos
  if oldPos.x < newPos.x then
    updateColumn r m newPos (shiftRows rows (shiftDown 0 (mapWalkSize - 1)) cache) Walker.maxWalkCache
  else if newPos.x < oldPos.x then
    updateColumn r m newPos (shiftRows rows (shiftUp (mapWalkSize - 1)) cache) (-Walker.maxWalkCache)
  else cache

/-- What `onCreatureMove` does to the cache of the creature that has moved, on the map after the
move. -/
def onCreatureMove (teleport : Bool) : MapCache :=
  if teleport ∨ oldPos.z ≠ newPos.z then updateMapCache r m newPos cache
  else
    let cache := shiftHorizontally r m (shiftVertically r m cache oldPos newPos) oldPos newPos
    updateTileCacheAt r newPos cache (m.getTile oldPos) oldPos

end Moving

/-! ## What the loops write -/

section Reading
variable (r : WalkRules) (m : Map) (pos : Position) (cache : MapCache) {dx dy : ℤ} {row column : ℕ}

/-- What is to be seen on the square of a cell. Over the border of the map the coordinates wrap. -/
def seen (row column : ℕ) : Bool :=
  r.accepts (m.getTile (pos.shifted (column - Walker.maxWalkCache) (row - Walker.maxWalkCache)))

/-- The square of a cell is on the map. -/
def OnMap (pos : Position) (row column : ℕ) : Prop :=
  (0 ≤ pos.x.toNat + column - Walker.maxWalkCache ∧ pos.x.toNat + column - Walker.maxWalkCache < 2 ^ 16) ∧
    0 ≤ pos.y.toNat + row - Walker.maxWalkCache ∧ pos.y.toNat + row - Walker.maxWalkCache < 2 ^ 16

instance (pos : Position) (row column : ℕ) : Decidable (OnMap pos row column) :=
  inferInstanceAs (Decidable (_ ∧ _))

theorem mem_cacheOffsets {n : ℤ} : n ∈ cacheOffsets ↔ |n| ≤ Walker.maxWalkCache := by
  rw [cacheOffsets, List.mem_map, abs_le, Walker.maxWalkCache]
  constructor
  · rintro ⟨i, hi, rfl⟩
    rw [List.mem_range, mapWalkSize] at hi
    omega
  · intro hn
    refine ⟨(n + 11).toNat, ?_, by omega⟩
    rw [List.mem_range, mapWalkSize]
    omega

theorem set_apply (cache : MapCache) (row column j i : ℕ) (b : Bool) :
    cache.set row column b j i = if j = row ∧ i = column then b else cache j i := by
  rw [MapCache.set]
  by_cases hj : j = row
  · subst hj
    rw [Function.update_self]
    by_cases hi : i = column
    · rw [hi, Function.update_self, if_pos ⟨rfl, rfl⟩]
    · rw [Function.update_of_ne hi, if_neg fun h => hi h.2]
  · rw [Function.update_of_ne hj, if_neg fun h => hj h.1]

theorem updateTileCache_apply (tile : Option Tile) (hx : |dx| ≤ Walker.maxWalkCache)
    (hy : |dy| ≤ Walker.maxWalkCache) (j i : ℕ) : updateTileCache r cache tile dx dy j i =
      if j = Walker.maxWalkCache + dy ∧ i = Walker.maxWalkCache + dx then r.accepts tile
      else cache j i := by
  rw [updateTileCache, if_pos ⟨hx, hy⟩, set_apply]
  rw [abs_le] at hx hy
  have hcell : (j = (Walker.maxWalkCache + dy).toNat ∧ i = (Walker.maxWalkCache + dx).toNat) ↔
      (j : ℤ) = Walker.maxWalkCache + dy ∧ (i : ℤ) = Walker.maxWalkCache + dx := by omega
  simp only [hcell]

theorem exists_offset (i : ℕ) : (∃ n ∈ cacheOffsets, (i : ℤ) = Walker.maxWalkCache + n) ↔ i < mapWalkSize := by
  simp only [mem_cacheOffsets, abs_le, Walker.maxWalkCache, mapWalkSize]
  constructor
  · rintro ⟨n, hn, hi⟩
    omega
  · intro hi
    exact ⟨i - 11, by omega⟩

theorem seen_of_eq {j i : ℕ} (hj : j = Walker.maxWalkCache + dy) (hi : i = Walker.maxWalkCache + dx) :
    r.accepts (m.getTile (pos.shifted dx dy)) = seen r m pos j i := by
  rw [seen, hj, hi, add_sub_cancel_left, add_sub_cancel_left]

theorem updateRow_apply (hy : |dy| ≤ Walker.maxWalkCache) (j i : ℕ) : updateRow r m pos cache dy j i =
      if j = Walker.maxWalkCache + dy ∧ i < mapWalkSize then seen r m pos j i else cache j i := by
  have hloop := foldl_writes (fun c : MapCache => c j i)
    (fun cache x => updateTileCache r cache (m.getTile (pos.shifted x dy)) x dy) (seen r m pos j i)
    (fun x => (j : ℤ) = Walker.maxWalkCache + dy ∧ (i : ℤ) = Walker.maxWalkCache + x) cacheOffsets
    cache ?_
  · rw [updateRow, hloop]
    refine if_congr ?_ rfl rfl
    rw [← exists_offset]
    exact ⟨fun ⟨x, hx, hj, hi⟩ => ⟨hj, x, hx, hi⟩, fun ⟨hj, x, hx, hi⟩ => ⟨x, hx, hj, hi⟩⟩
  · intro c x hx
    rw [updateTileCache_apply r c _ (mem_cacheOffsets.mp hx) hy]
    split
    · rename_i hcell
      exact seen_of_eq r m pos hcell.1 hcell.2
    · rfl

theorem updateColumn_apply (hx : |dx| ≤ Walker.maxWalkCache) (j i : ℕ) : updateColumn r m pos cache dx j i =
      if i = Walker.maxWalkCache + dx ∧ j < mapWalkSize then seen r m pos j i else cache j i := by
  have hloop := foldl_writes (fun c : MapCache => c j i)
    (fun cache y => updateTileCache r cache (m.getTile (pos.shifted dx y)) dx y) (seen r m pos j i)
    (fun y => (j : ℤ) = Walker.maxWalkCache + y ∧ (i : ℤ) = Walker.maxWalkCache + dx) cacheOffsets
    cache ?_
  · rw [updateColumn, hloop]
    refine if_congr ?_ rfl rfl
    rw [← exists_offset]
    exact ⟨fun ⟨y, hy, hj, hi⟩ => ⟨hi, y, hy, hj⟩, fun ⟨hi, y, hy, hj⟩ => ⟨y, hy, hj, hi⟩⟩
  · intro c y hy
    rw [updateTileCache_apply r c _ hx (mem_cacheOffsets.mp hy)]
    split
    · rename_i hcell
      exact seen_of_eq r m pos hcell.1 hcell.2
    · rfl

theorem toNat_ofInt (n : ℤ) : ((UInt16.ofInt n).toNat : ℤ) = n % 2 ^ 16 := by
  rw [UInt16.ofInt, UInt16.toNat_ofNat']
  omega

theorem updateTileCacheAt_apply (tile : Option Tile) (hx : |dx| ≤ Walker.maxWalkCache)
    (hy : |dy| ≤ Walker.maxWalkCache) (j i : ℕ) :
    updateTileCacheAt r pos cache tile (pos.shifted dx dy) j i =
      if (j = Walker.maxWalkCache + dy ∧ i = Walker.maxWalkCache + dx) ∧ OnMap pos j i then
        r.accepts tile
      else cache j i := by
  have hxlt := pos.x.toNat_lt
  have hylt := pos.y.toNat_lt
  have hpx : ((pos.shifted dx dy).x.toNat : ℤ) = _ := toNat_ofInt (pos.x.toNat + dx)
  have hpy : ((pos.shifted dx dy).y.toNat : ℤ) = _ := toNat_ofInt (pos.y.toNat + dy)
  have hz : (pos.shifted dx dy).z = pos.z := rfl
  have hx' := abs_le.mp hx
  have hy' := abs_le.mp hy
  rw [updateTileCacheAt, if_pos hz, hpx, hpy]
  rw [Walker.maxWalkCache] at hx' hy'
  by_cases hin : (0 ≤ pos.x.toNat + dx ∧ pos.x.toNat + dx < 2 ^ 16) ∧ 0 ≤ pos.y.toNat + dy ∧ pos.y.toNat + dy < 2 ^ 16
  · have hdx : (pos.x.toNat + dx) % 2 ^ 16 - pos.x.toNat = dx := by omega
    have hdy : (pos.y.toNat + dy) % 2 ^ 16 - pos.y.toNat = dy := by omega
    rw [hdx, hdy, updateTileCache_apply r cache tile hx hy]
    refine if_congr ?_ rfl rfl
    simp only [OnMap, Walker.maxWalkCache]
    omega
  · have hout : ¬ (|(pos.x.toNat + dx) % 2 ^ 16 - pos.x.toNat| ≤ Walker.maxWalkCache ∧
        |(pos.y.toNat + dy) % 2 ^ 16 - pos.y.toNat| ≤ Walker.maxWalkCache) := by
      rw [abs_le, abs_le, Walker.maxWalkCache]
      omega
    rw [updateTileCache, if_neg hout, if_neg fun hcell => ?_]
    simp only [OnMap, Walker.maxWalkCache] at hcell
    omega

theorem updateMapCache_apply (j i : ℕ) : updateMapCache r m pos cache j i =
      if (j < mapWalkSize ∧ i < mapWalkSize) ∧ OnMap pos j i then seen r m pos j i
      else cache j i := by
  have hrow : ∀ (c : MapCache), ∀ y ∈ cacheOffsets, cacheOffsets.foldl (fun cache x =>
        updateTileCacheAt r pos cache (m.getTile (pos.shifted x y)) (pos.shifted x y)) c j i =
      if (j = Walker.maxWalkCache + y ∧ i < mapWalkSize) ∧ OnMap pos j i then seen r m pos j i
      else c j i := by
    intro c y hy
    have hloop := foldl_writes (fun c : MapCache => c j i) (fun cache x =>
        updateTileCacheAt r pos cache (m.getTile (pos.shifted x y)) (pos.shifted x y))
      (seen r m pos j i)
      (fun x => ((j : ℤ) = Walker.maxWalkCache + y ∧ (i : ℤ) = Walker.maxWalkCache + x) ∧
        OnMap pos j i) cacheOffsets c ?_
    · rw [hloop]
      refine if_congr ?_ rfl rfl
      rw [← exists_offset]
      exact ⟨fun ⟨x, hx, ⟨hj, hi⟩, hmap⟩ => ⟨⟨hj, x, hx, hi⟩, hmap⟩,
        fun ⟨⟨hj, x, hx, hi⟩, hmap⟩ => ⟨x, hx, ⟨hj, hi⟩, hmap⟩⟩
    · intro c x hx
      rw [updateTileCacheAt_apply r pos c _ (mem_cacheOffsets.mp hx) (mem_cacheOffsets.mp hy)]
      split
      · rename_i hcell
        exact seen_of_eq r m pos hcell.1.1 hcell.1.2
      · rfl
  have hloop := foldl_writes (fun c : MapCache => c j i) _ (seen r m pos j i)
    (fun y => ((j : ℤ) = Walker.maxWalkCache + y ∧ i < mapWalkSize) ∧ OnMap pos j i) cacheOffsets
    cache hrow
  rw [updateMapCache, hloop]
  refine if_congr ?_ rfl rfl
  rw [← exists_offset j]
  exact ⟨fun ⟨y, hy, ⟨hj, hi⟩, hmap⟩ => ⟨⟨⟨y, hy, hj⟩, hi⟩, hmap⟩,
    fun ⟨⟨⟨y, hy, hj⟩, hi⟩, hmap⟩ => ⟨y, hy, ⟨hj, hi⟩, hmap⟩⟩

end Reading
end ForgottenServer.Maps
