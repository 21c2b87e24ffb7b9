import ForgottenServer.Lib.Substitution
import ForgottenServer.Things.Shape
import Mathlib.Algebra.BigOperators.Fin

/-! # Transforming an item

`Game::transformItem` makes an item into another: in its place, by a new item in
its place, or by taking it off a tile and putting it there again when it becomes
a top item or is one no longer. The parent of an item in a browse field is the
tile. What scripts do when they are told of a change is left out. -/
namespace ForgottenServer.Things

/-- The types as far as items by themselves read them. -/
def Rules.plainTypes (rules : Rules) : ℕ → Decay.ItemType := fun id => (rules.items id).toItemType

/-- The item without its place and its contents. -/
def Item.plain (x : Item) : Decay.Item := { id := x.id, count := x.count, attributes := x.attributes }

namespace World
variable (rules : Rules) (w : World)

/-! ## Replacing -/

def containerReplaceThing (c index r : ℕ) : World :=
  match (w.itemlist c)[index]? with
  | none => w
  | some old =>
    let w := (w.setItemlist c ((w.itemlist c).set index r)).setParent r (some (.container c))
    let w := updateItemWeight w.depth w c (w.getWeight rules r - w.getWeight rules old)
    w.setParent old none

/-- The old item still has its parent. -/
def playerReplaceThing (p index r : ℕ) : World :=
  match w.getInventoryItem p index with
  | none => w
  | some _ =>
    (w.setParent r (some (.player p))).setPlayer p fun x =>
      { x with inventory := Function.update x.inventory index (some r) }

/-- The new item lies on the tile, the old one no longer. -/
def tilePut (t old r : ℕ) (f : Tile → Tile) : World :=
  ((w.setTile t f).setParent r (some (.tile t))).setParent old none

/-- Above the ground there are the top items, the creatures and the down items. -/
def tileReplaceAbove (creatures t pos r : ℕ) : World :=
  let tile := w.tile t
  match tile.topItems[pos]? with
  | some old => w.tilePut t old r fun x => { x with topItems := x.topItems.set pos r }
  | none =>
    let pos := pos - tile.topItems.length
    if pos < creatures then w
    else
      let pos := pos - creatures
      match tile.downItems[pos]? with
      | some old => w.tilePut t old r fun x => { x with downItems := x.downItems.set pos r }
      | none => w

def tileReplaceThing (creatures t index r : ℕ) : World :=
  match (w.tile t).ground, index with
  | some old, 0 => w.tilePut t old r ({ · with ground := some r })
  | some _, pos + 1 => w.tileReplaceAbove creatures t pos r
  | none, pos => w.tileReplaceAbove creatures t pos r

/-! ## Making -/

/-- The container that `CreateItem` makes of a type. -/
def newContainer (maxItems : ℕ → ℕ) (type : ℕ) : Option Container :=
  if (rules.items type).type = .depot then some { kind := .depotLocker, maxSize := 3 }
  else if (rules.items type).group = .container then some { maxSize := maxItems type }
  else none

/-- `CreateItem`; the new item has the reference `next`. -/
def createItem (maxItems : ℕ → ℕ) (type count : ℕ) : Option World :=
  (Decay.Item.create rules.plainTypes type count).map fun y =>
    { w with
      item := Function.update w.item w.next
        { id := y.id, count := y.count, attributes := y.attributes
          container := newContainer rules maxItems type }
      next := w.next + 1 }

end World

structure Game where
  world : World
  /-- how many creatures stand on a tile -/
  creatures : ℕ → ℕ := fun _ => 0
  isHouseTransferItem : ℕ → Bool := fun _ => false
  /-- it is a bed of a house -/
  isHouseBed : ℕ → Bool := fun _ => false
  toDecayItems : List ℕ := []
  decayItems : Fin 4 → List ℕ := fun _ => []

namespace Game
variable (rules : Rules) (maxItems : ℕ → ℕ) (g : Game)

def getParent (r : ℕ) : Option Cylinder := g.world.getParent (.container r)

def canTransform (r : ℕ) : Bool := !g.isHouseTransferItem r

def canRemove (r : ℕ) : Bool :=
  (g.world.kind r = none || g.world.kind r = some .plain) && !g.isHouseBed r

/-- The index of an item, counted with the creatures on a tile. -/
def getThingIndex (c : Cylinder) (r : ℕ) : ℤ :=
  if !g.world.hasThing rules c r then -1
  else match c with
    | .tile t =>
      let tile := g.world.tile t
      if tile.ground = some r then 0
      else
        let n : ℤ := if tile.ground.isSome then 0 else -1
        if (g.world.type rules r).alwaysOnTop then n + tile.topItems.idxOf r + 1
        else n + tile.topItems.length + g.creatures t + tile.downItems.idxOf r + 1
    | c => g.world.getThingIndex rules c r

def replaceThing (c : Cylinder) (index r : ℕ) : World :=
  match c with
  | .container c => g.world.containerReplaceThing rules c index r
  | .player p => g.world.playerReplaceThing p index r
  | .tile t => g.world.tileReplaceThing (g.creatures t) t index r

/-- `internalRemoveItem` of the whole item. It is not looked for among the items
that decay: a removed item cannot. -/
def internalRemoveItem (r : ℕ) : Game :=
  match g.getParent r with
  | none => g
  | some cylinder =>
    let count := (g.world.item r).count
    if g.world.queryRemove rules cylinder r count { ignoreNotMoveable := true } false ≠ .noError then g
    else if !g.canRemove r then g
    else { g with world := (g.world.removeThing rules cylinder r count).notify rules cylinder }

/-- What an item that is taken and added again becomes. -/
def renamed (newId : ℕ) (newCount : ℤ) (x : Decay.Item) : Decay.Item :=
  let y := x.setID rules.plainTypes newId
  if newCount ≠ -1 then y.setSubType rules.plainTypes newCount else y

/-- The item is taken from its place and added as another. -/
def readd (cylinder : Cylinder) (r newId : ℕ) (newCount : ℤ) : Game × Option ℕ :=
  let w := (g.world.removeThing rules cylinder r (g.world.item r).count).notify rules cylinder
  let w := w.setItem r (Item.lift (renamed rules newId newCount))
  let w := w.addThing rules cylinder 0 r
  match w.getParent (.container r) with
  | none => ({ g with world := w }, none)
  | some newParent => ({ g with world := w.notify rules newParent }, some r)

/-- The item is updated in its place. -/
def update (cylinder : Cylinder) (r newId : ℕ) (newCount : ℤ) : Game :=
  let x := g.world.item r
  let curType := rules.items x.id
  let newType := rules.items newId
  let w := g.world.notify rules cylinder
  let count := x.plain.getSubType rules.plainTypes
  let w :=
    if curType.id ≠ newType.id ∧ newType.group ≠ curType.group then
      w.setItem r (Item.lift fun x => x.setDefaultSubtype rules.plainTypes)
    else w
  let itemId := if curType.id ≠ newType.id then newId else x.id
  let count := if newCount ≠ -1 ∧ newType.hasSubType then newCount else count
  { g with world := (w.updateThing rules cylinder r itemId (count % 2 ^ 32).toNat).notify rules cylinder }

/-- A new item takes the place of the old one. -/
def exchange (cylinder : Cylinder) (itemIndex : ℤ) (r type count : ℕ) : Option Game :=
  (g.world.createItem rules maxItems type count).map fun w =>
    let newItem := g.world.next
    let w := { g with world := w }.replaceThing rules cylinder itemIndex.toNat newItem
    let w := (w.notify rules cylinder).setParent r none
    { g with world := w.notify rules cylinder }

def schedule (r : ℕ) : Game :=
  let x := (g.world.item r).plain
  if 0 < x.getDuration ∧ x.getDecaying ≠ .decayingTrue then
    { g with
      world := g.world.setItem r (Item.lift (·.setDecaying .decayingTrue))
      toDecayItems := r :: g.toDecayItems }
  else g

/-- The item is what it should be: a chargeless item stays as it is. -/
def isSame (r newId : ℕ) (newCount : ℤ) : Bool :=
  let x := g.world.item r
  x.id = newId && (newCount = -1 || newCount = x.plain.getSubType rules.plainTypes && newCount ≠ 0)

/-- What an item is without charges. -/
def nextId (r newId : ℕ) : ℤ :=
  let x := g.world.item r
  if (rules.items x.id).id = (rules.items newId).id then x.plain.getDecayTo rules.plainTypes else newId

/-- A stack or the charges of an item are used up. -/
def useUp (cylinder : Cylinder) (r newId : ℕ) (again : Game × Option ℕ) : Game × Option ℕ :=
  let newItemId := g.nextId rules r newId
  if (g.world.type rules r).stackable then (g.internalRemoveItem rules r, none)
  else if newItemId < 0 then (g.internalRemoveItem rules r, none)
  else if newItemId ≠ newId then
    match g.exchange rules maxItems cylinder (g.getThingIndex rules cylinder r) r (newItemId % 2 ^ 16).toNat 1 with
    | none => (g, none)
    | some g' => (g', some g.world.next)
  else again

/-- An item of another kind takes the place of the old one. -/
def remake (cylinder : Cylinder) (r newId : ℕ) (newCount : ℤ) : Game × Option ℕ :=
  let count := if newCount = -1 then 0 else (newCount % 2 ^ 16).toNat
  match g.exchange rules maxItems cylinder (g.getThingIndex rules cylinder r) r newId count with
  | none => (g, none)
  | some g' => (g'.schedule g.world.next, some g.world.next)

/-- `transformItem`; `again` is what it answers when it calls itself. -/
def transformStep (r newId : ℕ) (newCount : ℤ) (again : Game × Option ℕ) : Game × Option ℕ :=
  if g.isSame rules r newId newCount then (g, some r)
  else match g.getParent r with
    | none => (g, none)
    | some cylinder =>
      let newType := rules.items newId
      let curType := g.world.type rules r
      if g.getThingIndex rules cylinder r = -1 then (g, some r)
      else if !g.canTransform r then (g, some r)
      else if newType.id = 0 then (g, some r)
      else if curType.alwaysOnTop ≠ newType.alwaysOnTop then g.readd rules cylinder r newId newCount
      else if curType.type = newType.type then
        if newCount = 0 ∧ (curType.stackable ∨ (g.world.item r).attr.charges.isSome) then
          g.useUp rules maxItems cylinder r newId again
        else (g.update rules cylinder r newId newCount, some r)
      else g.remake rules maxItems cylinder r newId newCount

def transformItem (r newId : ℕ) (newCount : ℤ) : Game × Option ℕ :=
  g.transformStep rules maxItems r newId newCount (g.transformStep rules maxItems r newId (-1) (g, some r))

end Game
end ForgottenServer.Things
