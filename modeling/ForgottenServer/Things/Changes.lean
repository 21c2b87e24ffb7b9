import ForgottenServer.Things.Queries

/-! # The changes that cylinders make

`addThing`, `removeThing` and `updateThing` of containers, players and tiles. Of
the notifications only what they do to the weight of an inventory is here: the
scripts they run are other programs. -/
namespace ForgottenServer.Things
namespace World
variable (rules : Rules) (w : World)

def setItem (r : ℕ) (f : Item → Item) : World :=
  { w with item := Function.update w.item r (f (w.item r)) }

def setContainer (c : ℕ) (f : Container → Container) : World :=
  w.setItem c fun x => { x with container := x.container.map f }

def setPlayer (p : ℕ) (f : Player → Player) : World :=
  { w with player := Function.update w.player p (f (w.player p)) }

def setTile (t : ℕ) (f : Tile → Tile) : World :=
  { w with tile := Function.update w.tile t (f (w.tile t)) }

def setParent (r : ℕ) (c : Option Cylinder) : World := w.setItem r ({ · with parent := c })

def setItemCount (r n : ℕ) : World := w.setItem r ({ · with count := n % 2 ^ 8 })

def setItemlist (c : ℕ) (l : List ℕ) : World := w.setContainer c ({ · with itemlist := l })

/-! ## Weights -/

/-- `updateItemWeight`, up to the outermost container. -/
def updateItemWeight : ℕ → World → ℕ → ℤ → World
  | 0, w, _, _ => w
  | fuel + 1, w, c, diff =>
    let w := w.setContainer c fun x => { x with totalWeight := ((x.totalWeight + diff) % 2 ^ 32).toNat }
    match w.getParent (.container c) with
    | some (.container d) => updateItemWeight fuel w d diff
    | _ => w

def updateInventoryWeight (p : ℕ) : World :=
  if (w.player p).hasInfiniteCapacity then w
  else w.setPlayer p fun x =>
    { x with inventoryWeight := ((slots.filterMap x.inventory).map (w.getWeight rules)).sum % 2 ^ 32 }

/-- The notifications after an item was added to a cylinder or removed from it. -/
def notify (c : Cylinder) : World :=
  match c with
  | .player p => w.updateInventoryWeight rules p
  | .container c =>
    if w.kind c = some .plain then
      match w.getTopParent c with
      | some (.player p) => w.updateInventoryWeight rules p
      | _ => w
    else w
  | .tile _ => w

/-! ## Removing -/

/-- Only a part of the stack leaves. -/
def isPart (r count : ℕ) : Bool := w.isStackable rules r && count ≠ (w.item r).count

def containerRemoveThing (c r count : ℕ) : World :=
  if r ∉ w.itemlist c then w
  else
    let oldWeight : ℤ := w.getWeight rules r
    if w.isPart rules r count then
      let w := w.setItemCount r ((w.item r).count - count)
      updateItemWeight w.depth w c (w.getWeight rules r - oldWeight)
    else
      let w := updateItemWeight w.depth w c (-oldWeight)
      (w.setParent r none).setItemlist c ((w.itemlist c).erase r)

def playerRemoveThing (p r count : ℕ) : World :=
  match slots.find? fun slot => (w.player p).inventory slot = some r with
  | none => w
  | some slot =>
    if w.isPart rules r count then w.setItemCount r ((w.item r).count - count)
    else (w.setParent r none).setPlayer p fun x =>
      { x with inventory := Function.update x.inventory slot none }

def tileRemoveThing (t r count : ℕ) : World :=
  if !w.hasThing rules (.tile t) r then w
  else if (w.tile t).ground = some r then (w.setParent r none).setTile t ({ · with ground := none })
  else if (w.type rules r).alwaysOnTop then
    (w.setParent r none).setTile t fun x => { x with topItems := x.topItems.erase r }
  else if w.isPart rules r count then w.setItemCount r ((w.item r).count - count)
  else (w.setParent r none).setTile t fun x => { x with downItems := x.downItems.erase r }

def removeThing (c : Cylinder) (r count : ℕ) : World :=
  match c with
  | .container c => w.containerRemoveThing rules c r count
  | .player p => w.playerRemoveThing rules p r count
  | .tile t => w.tileRemoveThing rules t r count

/-! ## Adding -/

def containerAddThing (c : ℕ) (index : ℤ) (r : ℕ) : World :=
  if w.capacity c ≤ index then w
  else
    let w := (w.setParent r (some (.container c))).setItemlist c (r :: w.itemlist c)
    updateItemWeight w.depth w c (w.getWeight rules r)

def playerAddThing (p : ℕ) (index : ℤ) (r : ℕ) : World :=
  if 1 ≤ index ∧ index ≤ 10 then
    (w.setParent r (some (.player p))).setPlayer p fun x =>
      { x with inventory := Function.update x.inventory index.toNat (some r) }
  else w

/-- The place of an item among the top items. -/
def insertTop (r : ℕ) : List ℕ → List ℕ
  | [] => [r]
  | y :: l =>
    if (w.type rules r).alwaysOnTopOrder ≤ (w.type rules y).alwaysOnTopOrder then r :: y :: l
    else y :: insertTop r l

def isSplash (r : ℕ) : Bool := (w.type rules r).group = .splash

def isMagicField (r : ℕ) : Bool := (w.type rules r).type = .magicField

/-- An old splash or field makes place for the new one. -/
def displace (t old : ℕ) : World := (w.tileRemoveThing rules t old 1).setParent old none

/-- A splash takes the place of the old one. -/
def dropSplash (t r : ℕ) : World :=
  match (w.tile t).topItems.find? (w.isSplash rules) with
  | some old => if w.isSplash rules r then w.displace rules t old else w
  | none => w

def tileAddThing (t r : ℕ) : World :=
  if 0xFFFF ≤ ((w.tile t).topItems ++ (w.tile t).downItems).length then w
  else
    let w := w.setParent r (some (.tile t))
    if (w.type rules r).group = .ground then
      let w := match (w.tile t).ground with
        | some old => w.setParent old none
        | none => w
      w.setTile t ({ · with ground := some r })
    else if (w.type rules r).alwaysOnTop then
      let w := w.dropSplash rules t r
      w.setTile t fun x => { x with topItems := w.insertTop rules r x.topItems }
    else
      match (w.tile t).downItems.find? (w.isMagicField rules) with
      | some old =>
        if w.isMagicField rules r then
          if (w.type rules old).replaceable then
            (w.displace rules t old).setTile t fun x => { x with downItems := r :: x.downItems }
          else w.setParent r none
        else w.setTile t fun x => { x with downItems := r :: x.downItems }
      | none => w.setTile t fun x => { x with downItems := r :: x.downItems }

def addThing (c : Cylinder) (index : ℤ) (r : ℕ) : World :=
  match c with
  | .container c => w.containerAddThing rules c index r
  | .player p => w.playerAddThing p index r
  | .tile t => w.tileAddThing rules t r

/-! ## Updating -/

/-- `setID` and `setSubType`. -/
def setIdAndCount (r id count : ℕ) : World :=
  let items := fun id => (rules.items id).toItemType
  w.setItem r (Item.lift fun x => (x.setID items id).setSubType items count)

def updateThing (c : Cylinder) (r id count : ℕ) : World :=
  if !w.hasThing rules c r then w
  else
    let oldWeight : ℤ := w.getWeight rules r
    let w := w.setIdAndCount rules r id count
    match c with
    | .container c => updateItemWeight w.depth w c (w.getWeight rules r - oldWeight)
    | _ => w

end World
end ForgottenServer.Things
