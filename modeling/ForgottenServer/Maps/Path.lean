import ForgottenServer.Maps.Map

/-! # Paths

The search for a path to a target: nodes in a pool of 512, of which the cheapest
open one is expanded. The directions are read back from the parents of the node
that is found, the last one first. -/
namespace ForgottenServer.Maps

inductive Direction
  | north | east | south | west | southwest | southeast | northwest | northeast
  deriving DecidableEq, Repr

/-- `direction & DIRECTION_DIAGONAL_MASK`. -/
def Direction.isDiagonal : Direction → Bool
  | .north | .east | .south | .west => false
  | .southwest | .southeast | .northwest | .northeast => true

def getNextPosition (direction : Direction) (pos : Position) : Position :=
  match direction with
  | .north => { pos with y := pos.y - 1 }
  | .south => { pos with y := pos.y + 1 }
  | .west => { pos with x := pos.x - 1 }
  | .east => { pos with x := pos.x + 1 }
  | .southwest => { pos with x := pos.x - 1, y := pos.y + 1 }
  | .northwest => { pos with x := pos.x - 1, y := pos.y - 1 }
  | .northeast => { pos with x := pos.x + 1, y := pos.y - 1 }
  | .southeast => { pos with x := pos.x + 1, y := pos.y + 1 }

structure FindPathParams where
  fullPathSearch : Bool := true
  clearSight : Bool := true
  allowDiagonal : Bool := true
  keepDistance : Bool := false
  maxSearchDist : ℤ := 0
  minTargetDist : ℤ := -1
  maxTargetDist : ℤ := -1

/-- What a search asks of the creature. -/
structure Walker where
  position : Position
  useCacheMap : Bool := false
  /-- by the offsets in y and x from its position -/
  localMapCache : ℤ → ℤ → Bool := fun _ _ => false
  /-- `queryAdd` of a tile with the flags of a search is without error -/
  queryAdd : Position → Bool := fun _ => true
  /-- `getTopVisibleCreature` of a tile -/
  seesCreatureOn : Position → Bool := fun _ => false
  /-- it is a monster that does not walk on the field of a tile, and could be hurt by it -/
  avoidsFieldOn : Position → Bool := fun _ => false

/-- A call of `getPathMatching`. -/
structure PathQuery where
  map : Map
  creature : Walker
  /-- `FrozenPathingConditionCall` -/
  targetPos : Position
  fpp : FindPathParams := {}
  isSightClear : Position → Position → Bool := fun _ _ => true

/-- `maxWalkCacheWidth` and `maxWalkCacheHeight`. -/
def Walker.maxWalkCache : ℤ := 11

def Walker.getWalkCache (creature : Walker) (pos : Position) : ℕ :=
  if !creature.useCacheMap then 2
  else
    let myPos := creature.position
    let dx : ℤ := pos.x.toNat - myPos.x.toNat
    let dy : ℤ := pos.y.toNat - myPos.y.toNat
    if myPos.z ≠ pos.z then 0
    else if pos = myPos then 1
    else if |dx| ≤ maxWalkCache ∧ |dy| ≤ maxWalkCache then if creature.localMapCache dy dx then 1 else 0
    else 2

/-! ## Nodes -/

/-- `AStarNode`, with its entry in `openNodes`. The parent is a place in the pool. -/
structure AStarNode where
  parent : Option ℕ
  f : ℕ
  x : UInt16
  y : UInt16
  isOpen : Bool := true
  deriving DecidableEq

structure AStarNodes where
  nodes : List AStarNode
  closedNodes : ℤ := 0

namespace AStarNodes

def maxNodes : ℕ := 512

def mapNormalWalkCost : ℕ := 10

def mapDiagonalWalkCost : ℕ := 25

def createOpenNode (pool : AStarNodes) (parent : ℕ) (x y : UInt16) (f : ℕ) : Option AStarNodes :=
  if maxNodes ≤ pool.nodes.length then none
  else some { pool with nodes := pool.nodes ++ [{ parent := some parent, f, x, y }] }

/-- The search of `getBestNode` from a place on, with the best one before. -/
def bestFrom (best : Option (ℕ × ℕ)) (i : ℕ) : List AStarNode → Option (ℕ × ℕ)
  | [] => best
  | n :: ns => bestFrom (if n.isOpen && n.f < (best.map (·.2)).getD 0x7FFFFFFF then some (i, n.f) else best) (i + 1) ns

def getBestNode (pool : AStarNodes) : Option ℕ := (bestFrom none 0 pool.nodes).map (·.1)

def closeNode (pool : AStarNodes) (i : ℕ) : AStarNodes :=
  { nodes := pool.nodes.modify i fun n => { n with isOpen := false }, closedNodes := pool.closedNodes + 1 }

/-- A cheaper way to a node has been found, and `openNode`. -/
def reparent (pool : AStarNodes) (i : ℕ) (parent f : ℕ) : AStarNodes :=
  { nodes := pool.nodes.modify i fun n => { n with parent := some parent, f, isOpen := true }
    closedNodes := if pool.nodes[i]?.any (·.isOpen) then pool.closedNodes else pool.closedNodes - 1 }

def getNodeByPosition (pool : AStarNodes) (x y : UInt16) : Option ℕ :=
  pool.nodes.findIdx? fun n => n.x = x && n.y = y

def getMapWalkCost (node : AStarNode) (neighborPos : Position) : ℕ :=
  if |(node.x.toNat : ℤ) - neighborPos.x.toNat| = |(node.y.toNat : ℤ) - neighborPos.y.toNat| then mapDiagonalWalkCost
  else mapNormalWalkCost

end AStarNodes

/-! ## Neighbours -/

def dirNeighbors : Direction → List (ℤ × ℤ)
  | .north => [(-1, 0), (0, 1), (1, 0), (1, 1), (-1, 1)]
  | .east => [(-1, 0), (0, 1), (0, -1), (-1, -1), (-1, 1)]
  | .south => [(-1, 0), (1, 0), (0, -1), (-1, -1), (1, -1)]
  | .west => [(0, 1), (1, 0), (0, -1), (1, -1), (1, 1)]
  | .southwest => [(1, 0), (0, -1), (-1, -1), (1, -1), (1, 1)]
  | .southeast => [(-1, 0), (0, -1), (-1, -1), (1, -1), (-1, 1)]
  | .northwest => [(0, 1), (1, 0), (1, -1), (1, 1), (-1, 1)]
  | .northeast => [(-1, 0), (0, 1), (-1, -1), (1, 1), (-1, 1)]

def allNeighbors : List (ℤ × ℤ) := [(-1, 0), (0, 1), (1, 0), (0, -1), (-1, -1), (1, -1), (1, 1), (-1, 1)]

/-- The way back to the parent, for the choice of neighbours. -/
def parentDirection (allowDiagonal : Bool) (offsetX offsetY : ℤ) : Direction :=
  if offsetY = 0 then if offsetX = -1 then .west else .east
  else if !allowDiagonal || offsetX = 0 then if offsetY = -1 then .north else .south
  else if offsetY = -1 then if offsetX = -1 then .northwest else .northeast
  else if offsetX = -1 then .southwest
  else .southeast

/-- The neighbours of a node that are looked at: without diagonal steps the first three, but
the start has all eight. -/
def neighbors (allowDiagonal : Bool) (parent : Option AStarNode) (n : AStarNode) : List (ℤ × ℤ) :=
  match parent with
  | some parent =>
    (dirNeighbors (parentDirection allowDiagonal (parent.x.toNat - n.x.toNat) (parent.y.toNat - n.y.toNat))).take
      (if allowDiagonal then 5 else 3)
  | none => allNeighbors

/-! ## Search -/

namespace PathQuery
variable (q : PathQuery)

def startPos : Position := q.creature.position

def canWalkTo (pos : Position) : Bool :=
  match q.creature.getWalkCache pos with
  | 0 => false
  | 1 => (q.map.getTile pos).isSome
  | _ => (q.map.getTile pos).isSome && (pos = q.creature.position || q.creature.queryAdd pos)

def getTileWalkCost (pos : Position) : ℕ :=
  (if q.creature.seesCreatureOn pos then AStarNodes.mapNormalWalkCost * 3 else 0) +
    if q.creature.avoidsFieldOn pos then AStarNodes.mapNormalWalkCost * 18 else 0

/-- `FrozenPathingConditionCall::isInRange`, for one coordinate. -/
def isInRange1 (start target test : UInt16) : Bool :=
  let d : ℤ := start.toNat - target.toNat
  let max := if q.fpp.fullPathSearch || d ≥ 0 then q.fpp.maxTargetDist else 0
  let min := if q.fpp.fullPathSearch || d ≤ 0 then q.fpp.maxTargetDist else 0
  !((test.toNat : ℤ) > target.toNat + max || (test.toNat : ℤ) < target.toNat - min)

def isInRange (testPos : Position) : Bool :=
  q.isInRange1 q.startPos.x q.targetPos.x testPos.x && q.isInRange1 q.startPos.y q.targetPos.y testPos.y

/-- The call of `FrozenPathingConditionCall`: if it is met, `bestMatchDist` after it. -/
def pathCondition (testPos : Position) (bestMatchDist : ℤ) : Option ℤ :=
  let testDist : ℤ := max |(q.targetPos.x.toNat : ℤ) - testPos.x.toNat| |(q.targetPos.y.toNat : ℤ) - testPos.y.toNat|
  if !q.isInRange testPos || (q.fpp.clearSight && !q.isSightClear testPos q.targetPos) then none
  else if q.fpp.maxTargetDist = 1 then
    if testDist < q.fpp.minTargetDist ∨ testDist > q.fpp.maxTargetDist then none else some bestMatchDist
  else if testDist ≤ q.fpp.maxTargetDist then
    if testDist < q.fpp.minTargetDist then none
    else if testDist = q.fpp.maxTargetDist then some 0
    else if testDist > bestMatchDist then some testDist
    else none
  else none

/-- The neighbour is too far away. -/
def isOutside (pos : Position) : Bool :=
  (q.fpp.maxSearchDist ≠ 0 && (|(q.startPos.x.toNat : ℤ) - pos.x.toNat| > q.fpp.maxSearchDist ||
      |(q.startPos.y.toNat : ℤ) - pos.y.toNat| > q.fpp.maxSearchDist)) ||
    (q.fpp.keepDistance && !q.isInRange pos)

def square (n : AStarNode) : Position := { q.startPos with x := n.x, y := n.y }

def neighbor (pos : Position) (d : ℤ × ℤ) : Position :=
  { pos with x := UInt16.ofInt (pos.x.toNat + d.1), y := UInt16.ofInt (pos.y.toNat + d.2) }

/-- The neighbours of the node `n` at place `k`, one after the other. There is no pool if
it is full and nothing has been found. -/
def visit (found : Bool) (k : ℕ) (n : AStarNode) (pool : AStarNodes) : List (ℤ × ℤ) → Option AStarNodes
  | [] => some pool
  | d :: ds =>
    let pos := neighbor (q.square n) d
    let newf := n.f + AStarNodes.getMapWalkCost n pos + q.getTileWalkCost pos
    if q.isOutside pos then visit found k n pool ds
    else
      match pool.getNodeByPosition pos.x pos.y with
      | some i =>
        if pool.nodes[i]?.all (·.f ≤ newf) then visit found k n pool ds
        else visit found k n (pool.reparent i k newf) ds
      | none =>
        if q.canWalkTo pos then
          match pool.createOpenNode k pos.x pos.y newf with
          | some pool => visit found k n pool ds
          | none => if found then some pool else none
        else visit found k n pool ds

/-- The variables of the loop; `found` comes with the square that it was found at. -/
structure Progress where
  pool : AStarNodes
  bestMatch : ℤ := 0
  found : Option (ℕ × Position) := none

def mark (s : Progress) (k : ℕ) (n : AStarNode) : Progress :=
  match q.pathCondition (q.square n) s.bestMatch with
  | some bestMatch => { s with bestMatch, found := some (k, q.square n) }
  | none => s

/-- The loop, as long as there is fuel; `some none` is a search without success. -/
def search : ℕ → Progress → Option (Option Progress)
  | 0, _ => none
  | fuel + 1, s =>
    if q.fpp.maxSearchDist = 0 ∧ 100 ≤ s.pool.closedNodes then some (some s)
    else
      match s.pool.getBestNode.bind fun k => s.pool.nodes[k]?.map fun n => (k, n) with
      | none => some (s.found.map fun _ => s)
      | some (k, n) =>
        let marked := q.mark s k n
        if (q.pathCondition (q.square n) s.bestMatch).isSome && marked.bestMatch = 0 then some (some marked)
        else
          match q.visit marked.found.isSome k n marked.pool
            (neighbors q.fpp.allowDiagonal (n.parent.bind (s.pool.nodes[·]?)) n) with
          | none => some none
          | some pool => search fuel { marked with pool := pool.closeNode k }

/-- The direction of a step whose end lies `(dx, dy)` before its beginning. -/
def stepDirection (dx dy : ℤ) : Option Direction :=
  if dx = 1 ∧ dy = 1 then some .northwest
  else if dx = -1 ∧ dy = 1 then some .northeast
  else if dx = 1 ∧ dy = -1 then some .southwest
  else if dx = -1 ∧ dy = -1 then some .southeast
  else if dx = 1 then some .west
  else if dx = -1 then some .east
  else if dy = 1 then some .north
  else if dy = -1 then some .south
  else none

/-- The directions back from a square to the start, from parent to parent. -/
def readBack (nodes : List AStarNode) : ℕ → Position → Option ℕ → Option (List Direction)
  | 0, _, _ => none
  | _ + 1, _, none => some []
  | fuel + 1, prev, some j =>
    nodes[j]?.bind fun found =>
      (readBack nodes fuel (q.square found) found.parent).map fun rest =>
        (stepDirection (found.x.toNat - prev.x.toNat) (found.y.toNat - prev.y.toNat)).toList ++ rest

def startPool : AStarNodes := { nodes := [{ parent := none, f := 0, x := q.startPos.x, y := q.startPos.y }] }

/-- What the search puts into an empty `dirList`; `some none` if it returns false. -/
def getPathMatching (fuel : ℕ) : Option (Option (List Direction)) :=
  match q.search fuel { pool := q.startPool } with
  | none => none
  | some none => some none
  | some (some s) =>
    match s.found with
    | none => some none
    | some (k, endPos) => (q.readBack s.pool.nodes fuel endPos (s.pool.nodes[k]?.bind (·.parent))).map some

end PathQuery

/-- The squares on the way of a creature that takes a list of directions from its end. -/
def follow (pos : Position) : List Direction → List Position
  | [] => []
  | d :: ds => getNextPosition d pos :: follow (getNextPosition d pos) ds

end ForgottenServer.Maps
