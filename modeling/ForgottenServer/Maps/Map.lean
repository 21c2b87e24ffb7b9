import ForgottenServer.Lib.Quadtree
import ForgottenServer.Tiles.Tile

/-! # The map and the creatures on it

Tiles lie in the leaves of a quadtree, eight by eight on each floor. A creature is
in the list of its tile and in a list of the leaf of that tile; players are in a
list of players besides. What can be seen from a position is remembered in two
caches. Creatures are numbers, and the pointer to a leaf is the way to it. -/
namespace ForgottenServer.Maps
open ForgottenServer.Lib.Quadtree ForgottenServer.Tiles

structure Position where
  x : UInt16 := 0
  y : UInt16 := 0
  z : UInt8 := 0
  deriving DecidableEq, Repr

/-- The way to the leaf of a position: the lowest `FLOOR_BITS` are left out. -/
def Position.path (p : Position) : List Quadrant := Lib.Quadtree.path 15 13 p.x.toNat p.y.toNat

/-- `QTreeLeafNode`. -/
structure Leaf where
  /-- the tiles by floor, `x & FLOOR_MASK` and `y & FLOOR_MASK` -/
  tiles : ℕ → ℕ → ℕ → Option Tile := fun _ _ _ => none
  creatureList : List ℕ := []
  playerList : List ℕ := []
  leafE : Option (List Quadrant) := none
  leafS : Option (List Quadrant) := none

structure Map where
  root : QTree Leaf 13 := .missing
  /-- the tile that a creature has been set on last -/
  tile : ℕ → Option Position := fun _ => none
  isRemoved : ℕ → Bool := fun _ => false
  spectatorCache : Position → Option (List ℕ) := fun _ => none
  playersSpectatorCache : Position → Option (List ℕ) := fun _ => none

inductive QueryAdd
  | noError | playerIsNotInvited | other
  deriving DecidableEq, Repr

/-- What placing and moving creatures asks of other parts of the server. -/
structure Rules where
  isPlayer : ℕ → Bool
  /-- `queryAdd` for a creature, with `FLAG_IGNOREBLOCKITEM` or without flags -/
  queryAdd : Map → Position → ℕ → Bool → QueryAdd := fun _ _ _ _ => .noError
  isSightClear : Position → Position → Bool := fun _ _ => true
  /-- for a tile of a house that the creature is not invited to: the entry and the temple -/
  wayOut : Position → ℕ → Option (List Position) := fun _ _ => none

/-! ## Leaves -/

namespace Leaf

def modifyTile (leaf : Leaf) (p : Position) (f : Tile → Tile) : Leaf :=
  { leaf with tiles := fun z i j =>
      if z = p.z.toNat ∧ i = p.x.toNat % 8 ∧ j = p.y.toNat % 8 then (leaf.tiles z i j).map f else leaf.tiles z i j }

def setTile (leaf : Leaf) (p : Position) (newTile : Tile) : Leaf :=
  { leaf with tiles := fun z i j =>
      if z = p.z.toNat ∧ i = p.x.toNat % 8 ∧ j = p.y.toNat % 8 then some newTile else leaf.tiles z i j }

/-- The last element takes the place of one, and the list loses its end. -/
def swapRemove (c : ℕ) (l : List ℕ) : List ℕ := (l.set (l.idxOf c) (l.getLastD c)).dropLast

def addCreature (isPlayer : ℕ → Bool) (c : ℕ) (leaf : Leaf) : Leaf :=
  { leaf with
    creatureList := leaf.creatureList ++ [c]
    playerList := if isPlayer c then leaf.playerList ++ [c] else leaf.playerList }

def removeCreature (isPlayer : ℕ → Bool) (c : ℕ) (leaf : Leaf) : Leaf :=
  { leaf with
    creatureList := swapRemove c leaf.creatureList
    playerList := if isPlayer c then swapRemove c leaf.playerList else leaf.playerList }

end Leaf

namespace Map

/-- Where a creature is on the map. -/
def position (m : Map) (c : ℕ) : Option Position := if m.isRemoved c then none else m.tile c

/-- `getLeafStatic`, as a pointer. -/
def leafAt (m : Map) (x y : ℕ) : Option (List Quadrant) :=
  if (m.root.get (path 15 13 x y)).isSome then some (path 15 13 x y) else none

/-- `MAP_MAX_LAYERS`. -/
def maxLayers : ℕ := 16

def getTile (m : Map) (p : Position) : Option Tile :=
  if maxLayers ≤ p.z.toNat then none
  else (m.root.get p.path).bind fun leaf => leaf.tiles p.z.toNat (p.x.toNat % 8) (p.y.toNat % 8)

def modifyLeaf (m : Map) (way : List Quadrant) (f : Leaf → Leaf) : Map := { m with root := m.root.modify f way }

def modifyTile (m : Map) (p : Position) (f : Tile → Tile) : Map := m.modifyLeaf p.path (·.modifyTile p f)

/-- `createLeaf` of the root, with the links between a new leaf and its neighbours. -/
def createLeaf (m : Map) (p : Position) : Map :=
  if (m.root.get p.path).isSome then m
  else
    let north := { p with y := p.y - 8 }.path
    let west := { p with x := p.x - 8 }.path
    let south := { p with y := p.y + 8 }.path
    let east := { p with x := p.x + 8 }.path
    let m := { m with root := m.root.create ({} : Leaf) p.path }
    let m := m.modifyLeaf north fun leaf => { leaf with leafS := some p.path }
    let m := m.modifyLeaf west fun leaf => { leaf with leafE := some p.path }
    m.modifyLeaf p.path fun leaf =>
      { leaf with
        leafS := if (m.root.get south).isSome then some south else leaf.leafS
        leafE := if (m.root.get east).isSome then some east else leaf.leafE }

/-- `setTile` where there is no tile yet. -/
def setTile (m : Map) (p : Position) (newTile : Tile) : Map :=
  if maxLayers ≤ p.z.toNat then m else (m.createLeaf p).modifyLeaf p.path (·.setTile p newTile)

/-! ## Spectators -/

/-- What a call of `getSpectators` asks for. -/
structure View where
  centerPos : Position
  multifloor : Bool := false
  onlyPlayers : Bool := false
  minRangeX : ℤ := 0
  maxRangeX : ℤ := 0
  minRangeY : ℤ := 0
  maxRangeY : ℤ := 0
  deriving DecidableEq, Repr

/-- `maxViewportX` and `maxViewportY`. -/
def maxViewport : ℤ := 11

/-- Coordinates as an `uint16_t` after the limits. -/
def clamp (n : ℤ) : ℕ := (min 0xFFFF (max 0 n)).toNat

def floorOf (n : ℕ) : ℕ := n - n % 8

/-- How many leaves lie from one coordinate to another. -/
def steps (first last : ℕ) : ℕ := if last < first then 0 else (last - first) / 8 + 1

section Scan
variable (m : Map) (list : Leaf → List ℕ) (sees : ℕ → Bool)

/-- One row of leaves, from west to east. -/
def scanRow (ny : ℕ) : ℕ → ℕ → Option (List Quadrant) → List ℕ
  | 0, _, _ => []
  | n + 1, nx, some way =>
    match m.root.get way with
    | some leaf => (list leaf).filter sees ++ scanRow ny n (nx + 8) leaf.leafE
    | none => []
  | n + 1, nx, none => scanRow ny n (nx + 8) (m.leafAt (nx + 8) ny)

/-- The rows from north to south. -/
def scanRows (columns startx : ℕ) : ℕ → ℕ → Option (List Quadrant) → List ℕ
  | 0, _, _ => []
  | n + 1, ny, some way =>
    m.scanRow list sees ny columns startx (some way) ++
      scanRows columns startx n (ny + 8) ((m.root.get way).bind (·.leafS))
  | n + 1, ny, none =>
    m.scanRow list sees ny columns startx none ++ scanRows columns startx n (ny + 8) (m.leafAt startx (ny + 8))

end Scan

/-- The floors that are seen. -/
def floors (centerPos : Position) (multifloor : Bool) : ℤ × ℤ :=
  let z : ℤ := centerPos.z.toNat
  if multifloor then
    if z > 7 then (max (z - 2) 0, min (z + 2) 15)
    else if z = 6 then (0, 8)
    else if z = 7 then (0, 9)
    else (0, 7)
  else (z, z)

/-- The ranges of a call, where those that are not given are the viewport. -/
def ranges (v : View) : (ℤ × ℤ) × (ℤ × ℤ) :=
  ((if v.minRangeX = 0 then -maxViewport else -v.minRangeX, if v.maxRangeX = 0 then maxViewport else v.maxRangeX),
    if v.minRangeY = 0 then -maxViewport else -v.minRangeY, if v.maxRangeY = 0 then maxViewport else v.maxRangeY)

/-- The creature of a list is in sight. -/
def sees (m : Map) (v : View) (c : ℕ) : Bool :=
  let cpos := (m.tile c).getD {}
  let ((minRangeX, maxRangeX), minRangeY, maxRangeY) := ranges v
  let (minRangeZ, maxRangeZ) := floors v.centerPos v.multifloor
  let offsetZ : ℤ := v.centerPos.z.toNat - cpos.z.toNat
  !(minRangeZ > cpos.z.toNat || maxRangeZ < cpos.z.toNat) &&
    !(v.centerPos.y.toNat + minRangeY + offsetZ > cpos.y.toNat ||
      v.centerPos.y.toNat + maxRangeY + offsetZ < cpos.y.toNat ||
      v.centerPos.x.toNat + minRangeX + offsetZ > cpos.x.toNat ||
      v.centerPos.x.toNat + maxRangeX + offsetZ < cpos.x.toNat)

/-- `getSpectatorsInternal`: what it adds to the spectators. -/
def getSpectatorsInternal (m : Map) (v : View) : List ℕ :=
  let ((minRangeX, maxRangeX), minRangeY, maxRangeY) := ranges v
  let (minRangeZ, maxRangeZ) := floors v.centerPos v.multifloor
  let minoffset := v.centerPos.z.toNat - maxRangeZ
  let maxoffset := v.centerPos.z.toNat - minRangeZ
  let startx := floorOf (clamp (v.centerPos.x.toNat + minRangeX + minoffset))
  let starty := floorOf (clamp (v.centerPos.y.toNat + minRangeY + minoffset))
  let endx := floorOf (clamp (v.centerPos.x.toNat + maxRangeX + maxoffset))
  let endy := floorOf (clamp (v.centerPos.y.toNat + maxRangeY + maxoffset))
  m.scanRows (if v.onlyPlayers then Leaf.playerList else Leaf.creatureList) (m.sees v) (steps startx endx) startx
    (steps starty endy) starty (m.leafAt startx starty)

/-- The whole viewport on all floors: what the caches hold. -/
def isCached (v : View) : Bool := ranges v = ((-maxViewport, maxViewport), -maxViewport, maxViewport) && v.multifloor

/-- What is added without the caches. -/
def scan (m : Map) (v : View) : List ℕ := if maxLayers ≤ v.centerPos.z.toNat then [] else m.getSpectatorsInternal v

/-- `getSpectators`: the spectators and the map with its caches. -/
def getSpectators (isPlayer : ℕ → Bool) (m : Map) (spectators : List ℕ) (v : View) : List ℕ × Map :=
  if maxLayers ≤ v.centerPos.z.toNat then (spectators, m)
  else if isCached v then
    match if v.onlyPlayers then m.playersSpectatorCache v.centerPos else none with
    | some cached => (spectators ++ cached, m)
    | none =>
      match m.spectatorCache v.centerPos with
      | some cached => (spectators ++ if v.onlyPlayers then cached.filter isPlayer else cached, m)
      | none =>
        -- the cache takes the result set as it is now
        let spectators := spectators ++ m.getSpectatorsInternal v
        (spectators,
          if v.onlyPlayers then
            { m with playersSpectatorCache := Function.update m.playersSpectatorCache v.centerPos (some spectators) }
          else { m with spectatorCache := Function.update m.spectatorCache v.centerPos (some spectators) })
  else (spectators ++ m.getSpectatorsInternal v, m)

/-- `clearSpectatorCache`, and `clearPlayersSpectatorCache` for a player. -/
def clearSpectatorCaches (isPlayer : ℕ → Bool) (m : Map) (c : ℕ) : Map :=
  { m with
    spectatorCache := fun _ => none
    playersSpectatorCache := if isPlayer c then fun _ => none else m.playersSpectatorCache }

/-! ## Creatures -/

section Creatures
variable (rules : Rules) (m : Map)

/-- `Tile::addThing` and `Tile::internalAddThing` for a creature. -/
def addThing (p : Position) (c : ℕ) : Map :=
  { (m.clearSpectatorCaches rules.isPlayer c).modifyTile p (fun t => { t with creatures := c :: t.creatures }) with
    tile := Function.update m.tile c (some p) }

/-- `Tile::removeThing` for a creature. -/
def removeThing (p : Position) (c : ℕ) : Map :=
  if (m.getTile p).any (c ∈ ·.creatures) then
    (m.clearSpectatorCaches rules.isPlayer c).modifyTile p (·.removeCreature c)
  else m

/-- `Tile::queryDestination`: where a floor change leads, or the tile itself. -/
def floorDestination (p : Position) (t : Tile) : Position :=
  let has (t : Option Tile) (s : TileState) : Bool := t.any (·.hasFlag s.mask)
  let dest : Position :=
    if t.hasFlag TileState.floorChangeDown.mask then
      let dz := p.z + 1
      if has (m.getTile ⟨p.x, p.y - 1, dz⟩) .floorChangeSouthAlt then ⟨p.x, p.y - 2, dz⟩
      else if has (m.getTile ⟨p.x - 1, p.y, dz⟩) .floorChangeEastAlt then ⟨p.x - 2, p.y, dz⟩
      else
        let down := m.getTile ⟨p.x, p.y, dz⟩
        let dy := if has down .floorChangeNorth then p.y + 1 else p.y
        let dy := if has down .floorChangeSouth then dy - 1 else dy
        let dy := if has down .floorChangeSouthAlt then dy - 2 else dy
        let dx := if has down .floorChangeEast then p.x - 1 else p.x
        let dx := if has down .floorChangeEastAlt then dx - 2 else dx
        let dx := if has down .floorChangeWest then dx + 1 else dx
        if down.isSome then ⟨dx, dy, dz⟩ else p
    else if t.hasFlag TileState.floorChange then
      let dy := if t.hasFlag TileState.floorChangeNorth.mask then p.y - 1 else p.y
      let dy := if t.hasFlag TileState.floorChangeSouth.mask then dy + 1 else dy
      let dx := if t.hasFlag TileState.floorChangeEast.mask then p.x + 1 else p.x
      let dx := if t.hasFlag TileState.floorChangeWest.mask then dx - 1 else dx
      let dy := if t.hasFlag TileState.floorChangeSouthAlt.mask then dy + 2 else dy
      let dx := if t.hasFlag TileState.floorChangeEastAlt.mask then dx + 2 else dx
      ⟨dx, dy, p.z - 1⟩
    else p
  if (m.getTile dest).isSome then dest else p

/-- `queryDestination`, with the one of houses; there is no tile if a house has no
entry and the player no temple. -/
def queryDestination (p : Position) (c : ℕ) : Option Position :=
  match if rules.isPlayer c then rules.wayOut p c else none with
  | some way => way.find? fun q => (m.getTile q).isSome
  | none => (m.getTile p).map (m.floorDestination p)

/-- The tile that `placeCreature` finds; `relList` is the list of offsets after the shuffle. -/
def foundTile (centerPos : Position) (c : ℕ) (extendedPos forceLogin : Bool) (relList : List (ℤ × ℤ)) :
    Option Position :=
  let tile := m.getTile centerPos
  let placeInPZ := tile.any (·.hasFlag TileState.protectionZone.mask)
  let ret := rules.queryAdd m centerPos c true
  if tile.isSome && (forceLogin || ret = .noError || ret = .playerIsNotInvited) then some centerPos
  else
    (relList.map fun it =>
      (⟨centerPos.x + UInt16.ofInt it.1, centerPos.y + UInt16.ofInt it.2, centerPos.z⟩ : Position)).find?
      fun tryPos =>
        (m.getTile tryPos).any (fun t => !placeInPZ || t.hasFlag TileState.protectionZone.mask) &&
          rules.queryAdd m tryPos c false = .noError && (!extendedPos || rules.isSightClear centerPos tryPos)

def placeCreature (centerPos : Position) (c : ℕ) (extendedPos forceLogin : Bool) (relList : List (ℤ × ℤ)) :
    Option Map :=
  (m.foundTile rules centerPos c extendedPos forceLogin relList).bind fun p =>
    (m.queryDestination rules p c).map fun dest =>
      (m.addThing rules dest c).modifyLeaf dest.path (·.addCreature rules.isPlayer c)

/-- `moveCreature` to a tile. -/
def moveCreature (c : ℕ) (newPos : Position) : Map :=
  match m.tile c with
  | none => m
  | some oldPos =>
    let m := (m.getSpectators rules.isPlayer [] { centerPos := oldPos, multifloor := true }).2
    let m := (m.getSpectators rules.isPlayer [] { centerPos := newPos, multifloor := true }).2
    let m := m.removeThing rules oldPos c
    let m :=
      if oldPos.path ≠ newPos.path then
        (m.modifyLeaf oldPos.path (·.removeCreature rules.isPlayer c)).modifyLeaf newPos.path
          (·.addCreature rules.isPlayer c)
      else m
    m.addThing rules newPos c

/-- `Tile::removeCreature`. -/
def removeFromTile (p : Position) (c : ℕ) : Map :=
  (m.modifyLeaf p.path (·.removeCreature rules.isPlayer c)).removeThing rules p c

end Creatures
end Map

/-! ## Runs -/

/-- Placing and removing creatures as `Game` does it. -/
inductive Action
  | placeCreature (c : ℕ) (pos : Position) (extendedPos forced : Bool) (relList : List (ℤ × ℤ))
  | moveCreature (c : ℕ) (newPos : Position)
  | removeCreature (c : ℕ)
  | getSpectators (spectators : List ℕ) (v : Map.View)

section Step
variable (rules : Rules)

def step (m : Map) : Action → Map
  | .placeCreature c pos extendedPos forced relList =>
    -- `internalPlaceCreature` refuses a creature that has been on a tile
    if (m.tile c).isSome then m else (m.placeCreature rules pos c extendedPos forced relList).getD m
  | .moveCreature c newPos => m.moveCreature rules c newPos
  | .removeCreature c =>
    if m.isRemoved c then m
    else
      match m.tile c with
      | none => m
      | some p =>
        let m := (m.getSpectators rules.isPlayer [] { centerPos := p, multifloor := true }).2
        { m.removeFromTile rules p c with isRemoved := Function.update m.isRemoved c true }
  | .getSpectators spectators v => (m.getSpectators rules.isPlayer spectators v).2

/-- A creature that moves is on the map and moves to a tile; a house has an entry
that is a tile, or the player a temple. -/
def Legal (m : Map) : Action → Prop
  | .moveCreature c newPos => (m.position c).isSome = true ∧ (m.getTile newPos).isSome = true
  | .placeCreature c pos extendedPos forced relList =>
    (m.foundTile rules pos c extendedPos forced relList).all (fun p => (m.queryDestination rules p c).isSome) = true
  | _ => True

instance (m : Map) : DecidablePred (Legal rules m)
  | .moveCreature c newPos =>
    inferInstanceAs (Decidable ((m.position c).isSome = true ∧ (m.getTile newPos).isSome = true))
  | .placeCreature .. => inferInstanceAs (Decidable (_ = true))
  | .removeCreature _ | .getSpectators _ _ => .isTrue trivial

end Step
end ForgottenServer.Maps
