import ForgottenServer.Decay.Item
import Mathlib.Data.List.Basic

/-! # Things and cylinders

Items lie in cylinders: in containers, which are items themselves, in the
inventory of a player or on a tile. References to items, players and tiles are
numbers. What the parents of an item are is written twice, in the item and in
the list of its parent, as in the server. -/
namespace ForgottenServer.Things
open ForgottenServer.Decay (ItemGroup ItemKind Attributes)

/-- `WeaponType_t`. -/
inductive WeaponType
  | none | sword | club | axe | shield | distance | wand | ammo
  deriving DecidableEq, Repr

/-- The bits of `slotPosition` that are read. -/
structure SlotPosition where
  head : Bool := false
  necklace : Bool := false
  backpack : Bool := false
  armor : Bool := false
  right : Bool := true
  left : Bool := true
  legs : Bool := false
  feet : Bool := false
  ring : Bool := false
  ammo : Bool := false
  twoHand : Bool := false
  deriving DecidableEq, Repr

structure ItemType extends Decay.ItemType where
  pickupable : Bool := true
  moveable : Bool := true
  weight : ℕ := 0
  slotPosition : SlotPosition := {}
  weaponType : WeaponType := .none
  blockSolid : Bool := false
  allowPickupable : Bool := false
  hasHeight : Bool := false
  isHangable : Bool := false
  storeItem : Bool := false
  replaceable : Bool := true
  alwaysOnTopOrder : ℕ := 0

inductive ReturnValue
  | noError | notPossible | notEnoughRoom | cannotPickup | thisIsImpossible | containerNotEnoughRoom
  | itemCannotBeMovedThere | cannotMoveItemIsNotStoreItem | notMoveable | needExchange
  | notEnoughCapacity | cannotBeDressed | putThisObjectInBothHands | putThisObjectInYourHand
  | bothHandsNeedToBeFree | dropTwoHandedItem | canOnlyUseOneShield | canOnlyUseOneWeapon
  | depotIsFull | cannotThrow
  /-- what scripts answer besides -/
  | other (code : ℕ)
  deriving DecidableEq, Repr

/-- The flags of `cylinder.h` that moving items reads. -/
structure Flags where
  noLimit : Bool := false
  ignoreBlockCreature : Bool := false
  childIsOwner : Bool := false
  ignoreNotMoveable : Bool := false
  ignoreAutoStack : Bool := false
  deriving DecidableEq, Repr

inductive Cylinder
  | container (r : ℕ)
  | player (p : ℕ)
  | tile (t : ℕ)
  deriving DecidableEq, Repr

inductive ContainerKind
  | plain | depotChest | depotLocker | inbox | storeInbox
  deriving DecidableEq, Repr

structure Container where
  kind : ContainerKind := .plain
  itemlist : List ℕ := []
  maxSize : ℕ := 20
  unlocked : Bool := true
  totalWeight : ℕ := 0
  maxDepotItems : ℕ := 1500
  deriving DecidableEq, Repr

structure Item where
  id : ℕ
  count : ℕ := 1
  attributes : Option Attributes := none
  parent : Option Cylinder := none
  container : Option Container := none
  deriving DecidableEq, Repr

structure Player where
  /-- the slots `1` to `10` -/
  inventory : ℕ → Option ℕ
  tradeItem : Option ℕ := none
  capacity : ℕ := 0
  inventoryWeight : ℕ := 0
  cannotPickupItem : Bool := false
  hasInfiniteCapacity : Bool := false
  tile : Option ℕ := none

structure Tile where
  ground : Option ℕ := none
  /-- the top items and the down items of `TileItemVector` -/
  topItems : List ℕ := []
  downItems : List ℕ := []
  /-- a creature that is not in ghost mode stands on it -/
  occupied : Bool := false
  supportsHangable : Bool := false
  /-- where a floor change leads -/
  floorChange : Option ℕ := none
  /-- a house: whether the actor, if any, is invited -/
  house : Option Bool := none

structure World where
  item : ℕ → Item
  player : ℕ → Player
  tile : ℕ → Tile
  /-- the items made so far have the references below `next` -/
  next : ℕ

/-- What is the same during a call: the item types, the configuration and the
answers of move events. -/
structure Rules where
  items : ℕ → ItemType
  classicEquipmentSlots : Bool := false
  onlyInvitedCanMoveHouseItems : Bool := true
  /-- `onPlayerEquip` as a check: the code of an objection -/
  onPlayerEquip : World → ℕ → ℕ → ℤ → Option ℕ := fun _ _ _ _ => none

/-- `INDEX_WHEREEVER`. -/
def whereEver : ℤ := -1

/-- The slots of a player, `CONST_SLOT_FIRST` to `CONST_SLOT_LAST`. -/
def slots : List ℕ := [1, 2, 3, 4, 5, 6, 7, 8, 9, 10]

namespace Item

/-- Functions of `Item` that are modelled with the decay of items. -/
def lift (f : Decay.Item → Decay.Item) (x : Item) : Item :=
  let y := f { id := x.id, count := x.count, attributes := x.attributes }
  { x with id := y.id, count := y.count, attributes := y.attributes }

def attr (x : Item) : Attributes := x.attributes.getD {}

/-- `equals`: the same id and attributes. -/
def equals (x y : Item) : Bool := x.id = y.id && x.attr = y.attr

end Item

/-! ## What items and cylinders tell -/

namespace World
variable (rules : Rules) (w : World)

def type (r : ℕ) : ItemType := rules.items (w.item r).id

def isStackable (r : ℕ) : Bool := (w.type rules r).stackable

def isStoreItem (r : ℕ) : Bool :=
  match (w.item r).attr.storeItem with
  | some n => n = 1
  | none => (w.type rules r).storeItem

def getBaseWeight (r : ℕ) : ℕ :=
  match (w.item r).attr.weight with
  | some n => (n % 2 ^ 32).toNat
  | none => (w.type rules r).weight

/-- `Item::getWeight` and `Container::getWeight`. -/
def getWeight (r : ℕ) : ℕ :=
  let weight := w.getBaseWeight rules r
  let weight := if w.isStackable rules r then weight * max 1 (w.item r).count else weight
  match (w.item r).container with
  | some c => weight + c.totalWeight
  | none => weight

def itemlist (r : ℕ) : List ℕ := ((w.item r).container.map Container.itemlist).getD []

/-- The items that a cylinder holds itself. -/
def children : Cylinder → List ℕ
  | .container r => w.itemlist r
  | .player p => slots.filterMap (w.player p).inventory
  | .tile t => (w.tile t).ground.toList ++ (w.tile t).topItems ++ (w.tile t).downItems

/-- `getParent`; a depot chest and an inbox name the parent of their locker. -/
def getParent : Cylinder → Option Cylinder
  | .container r =>
    let parent := (w.item r).parent
    match (w.item r).container.map Container.kind with
    | some .depotChest | some .inbox =>
      match parent with
      | some (.container l) => (w.item l).parent
      | some (.player p) => (w.player p).tile.map .tile
      | _ => none
    | _ => parent
  | .player p => (w.player p).tile.map .tile
  | .tile _ => none

/-- The parents of a cylinder, the nearest first. -/
def ancestors : ℕ → Cylinder → List Cylinder
  | 0, _ => []
  | fuel + 1, c =>
    match w.getParent c with
    | none => []
    | some p => p :: ancestors fuel p

/-- No chain of parents is longer. -/
def depth : ℕ := w.next + 2

/-- `getTopParent` of an item: the cylinder below the root, which is the item
itself when it lies on a tile and is a container. -/
def getTopParent (r : ℕ) : Option Cylinder :=
  let this := if (w.item r).container.isSome then some (Cylinder.container r) else none
  match w.getParent (.container r) with
  | none => this
  | some p =>
    match (p :: w.ancestors w.depth p).reverse with
    | _ :: below :: _ => some below
    | [root] => this.or (some root)
    | [] => this

/-- The containers and items below containers, as `ContainerIterator` meets them. -/
def iterate : ℕ → List ℕ → List ℕ
  | 0, _ => []
  | _, [] => []
  | fuel + 1, r :: rest =>
    let l := w.itemlist r
    l ++ iterate fuel (rest ++ l.filter fun x => w.itemlist x ≠ [])

def contents (r : ℕ) : List ℕ := w.iterate w.depth [r]

end World
end ForgottenServer.Things
