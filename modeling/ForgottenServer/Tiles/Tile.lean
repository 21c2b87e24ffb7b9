import ForgottenServer.Lib.Flags
import ForgottenServer.Things.World

/-! # Tiles

A tile has a ground, one vector with its down items and then its top items, the
creatures that stand on it and flags that sum up what lies there. Items are
compared by their references. A list that a tile has not made yet is an empty
one. -/
namespace ForgottenServer.Tiles
open ForgottenServer.Lib.Flags

structure ItemType extends toThingsType : Things.ItemType where
  blockPathFind : Bool := false
  isVertical : Bool := false
  isHorizontal : Bool := false
  /-- some of the `TILESTATE_FLOORCHANGE` flags, which are the lowest seven -/
  floorChange : BitVec 7 := 0

def ItemType.isMagicField (it : ItemType) : Bool := it.type = .magicField

/-- The class that `CreateItem` has made the item of. -/
inductive ItemClass
  | item | container | depotLocker | teleport | magicField | door | trashHolder | mailbox | bed
  deriving DecidableEq, Repr

structure Item extends Decay.Item where
  ref : ℕ
  itemClass : ItemClass := .item
  deriving DecidableEq, Repr

inductive Thing
  | item (x : Item)
  | creature (c : ℕ)
  deriving DecidableEq, Repr

/-- The properties of `ITEMPROPERTY` that the flags of a tile sum up. -/
inductive ItemProperty
  | blockSolid | blockPath | immovableBlockSolid | immovableBlockPath | immovableNoFieldBlockPath
  | noFieldBlockPath | supportHangable
  deriving DecidableEq, Repr

/-- The flags of `tileflags_t`. -/
inductive TileState
  | floorChangeDown | floorChangeNorth | floorChangeSouth | floorChangeEast | floorChangeWest
  | floorChangeSouthAlt | floorChangeEastAlt | protectionZone | noPvpZone | noLogout | pvpZone | teleport
  | magicField | mailbox | trashHolder | bed | depot | blockSolid | blockPath | immovableBlockSolid
  | immovableBlockPath | immovableNoFieldBlockPath | noFieldBlockPath | supportsHangable
  deriving DecidableEq, Repr

namespace TileState

/-- The flag is `1 << bit`: the flags stand in the order of their bits. -/
def bit (s : TileState) : ℕ := s.ctorIdx

def mask (s : TileState) : BitVec 32 := BitVec.twoPow 32 s.bit

def floorChanges : List TileState :=
  [floorChangeDown, floorChangeNorth, floorChangeSouth, floorChangeEast, floorChangeWest,
    floorChangeSouthAlt, floorChangeEastAlt]

/-- `TILESTATE_FLOORCHANGE`. -/
def floorChange : BitVec 32 := floorChanges.foldl (fun flags s => flags ||| s.mask) 0

/-- The flags that `setTileFlags` sets besides. -/
def shown : List TileState :=
  [immovableBlockSolid, blockPath, noFieldBlockPath, immovableNoFieldBlockPath, teleport, magicField, mailbox,
    trashHolder, blockSolid, bed, depot, supportsHangable]

/-- Those that `resetTileFlags` clears if nothing else on the tile has the property. -/
def blocking : List TileState :=
  [blockSolid, immovableBlockSolid, blockPath, noFieldBlockPath, immovableBlockPath, immovableNoFieldBlockPath]

/-- Those that it clears in any case. -/
def kinds : List TileState := [teleport, magicField, mailbox, trashHolder, bed, depot, supportsHangable]

end TileState

section Types
variable (types : ℕ → ItemType)

namespace Item

def type (x : Item) : ItemType := types x.id

def hasUniqueId (x : Item) : Bool := x.attr.uniqueId.isSome

def hasProperty (x : Item) : ItemProperty → Bool
  | .blockSolid => (x.type types).blockSolid
  | .blockPath => (x.type types).blockPathFind
  | .immovableBlockSolid => (x.type types).blockSolid && (!(x.type types).moveable || x.hasUniqueId)
  | .immovableBlockPath => (x.type types).blockPathFind && (!(x.type types).moveable || x.hasUniqueId)
  | .immovableNoFieldBlockPath =>
    !(x.type types).isMagicField && (x.type types).blockPathFind && (!(x.type types).moveable || x.hasUniqueId)
  | .noFieldBlockPath => !(x.type types).isMagicField && (x.type types).blockPathFind
  | .supportHangable => (x.type types).isHorizontal || (x.type types).isVertical

/-- What `setTileFlags` and `resetTileFlags` ask of the item for a flag. -/
def shows (x : Item) : TileState → Bool
  | .teleport => x.itemClass = .teleport
  | .magicField => x.itemClass = .magicField
  | .mailbox => x.itemClass = .mailbox
  | .trashHolder => x.itemClass = .trashHolder
  | .bed => x.itemClass = .bed
  | .depot => x.itemClass = .depotLocker
  | .blockSolid => x.hasProperty types .blockSolid
  | .blockPath => x.hasProperty types .blockPath
  | .immovableBlockSolid => x.hasProperty types .immovableBlockSolid
  | .immovableBlockPath => x.hasProperty types .immovableBlockPath
  | .immovableNoFieldBlockPath => x.hasProperty types .immovableNoFieldBlockPath
  | .noFieldBlockPath => x.hasProperty types .noFieldBlockPath
  | .supportsHangable => x.hasProperty types .supportHangable
  | .protectionZone | .noPvpZone | .noLogout | .pvpZone => false
  | s => (x.type types).floorChange.getLsbD s.bit

/-- The types as far as items by themselves read them. -/
def plainTypes : ℕ → Decay.ItemType := fun id => (types id).toThingsType.toItemType

/-- `setID` and `setSubType`, as `updateThing` calls them. -/
def become (x : Item) (itemId count : ℕ) : Item :=
  { x with toItem := (x.toItem.setID (plainTypes types) itemId).setSubType (plainTypes types) count }

/-- What is left of a stack; the difference is an `int32_t`, the count a `uint8_t`. -/
def takeCount (x : Item) (count : ℕ) : Item :=
  { x with count := (max 0 (Int.bmod (x.count - count) (2 ^ 32))).toNat % 2 ^ 8 }

end Item

structure Tile where
  ground : Option Item := none
  /-- `TileItemVector`: the down items, then the top items -/
  items : List Item := []
  downItemCount : UInt16 := 0
  creatures : List ℕ := []
  flags : BitVec 32 := 0
  deriving DecidableEq, Repr

namespace Tile

def downItems (t : Tile) : List Item := t.items.take t.downItemCount.toNat

def topItems (t : Tile) : List Item := t.items.drop t.downItemCount.toNat

def hasFlag (t : Tile) (flag : BitVec 32) : Bool := t.flags &&& flag ≠ 0

/-- `hasProperty` with an item left out. -/
def hasOther (t : Tile) (exclude : Item) (has : Item → Bool) : Bool :=
  t.ground.any (fun g => exclude.ref ≠ g.ref && has g) || t.items.any fun y => y.ref ≠ exclude.ref && has y

/-- `setTileFlags`. A floor change is noted if there was none. -/
def setTileFlags (t : Tile) (x : Item) : Tile :=
  let flags :=
    if !t.hasFlag TileState.floorChange then t.flags ||| (x.type types).floorChange.setWidth 32 else t.flags
  { t with flags := setFlags (x.shows types) TileState.bit TileState.shown flags }

def resetTileFlags (t : Tile) (x : Item) : Tile :=
  let flags := if (x.type types).floorChange ≠ 0 then t.flags &&& ~~~TileState.floorChange else t.flags
  let flags := resetFlags (fun s => x.shows types s && !t.hasOther x (·.shows types s)) TileState.bit
    TileState.blocking flags
  { t with flags := resetFlags (x.shows types) TileState.bit TileState.kinds flags }

/-! ## Where things are -/

/-- `getThingIndex`; the top items are searched for an item that is always on
top, the creatures for a creature and the down items for other items. -/
def getThingIndex (t : Tile) (thing : Thing) : ℤ :=
  match thing with
  | .item x =>
    if t.ground.any (·.ref = x.ref) then 0
    else
      let n : ℤ := if t.ground.isSome then 0 else -1
      if (x.type types).alwaysOnTop then
        match t.topItems.findIdx? (·.ref = x.ref) with
        | some i => n + i + 1
        | none => -1
      else
        let n := n + t.topItems.length + t.creatures.length
        match t.downItems.findIdx? (·.ref = x.ref) with
        | some i => n + i + 1
        | none => -1
  | .creature c =>
    let n : ℤ := if t.ground.isSome then 0 else -1
    match t.creatures.findIdx? (· = c) with
    | some i => n + t.topItems.length + i + 1
    | none => -1

/-- `getThing` after the ground. -/
def getAbove (t : Tile) (index : ℕ) : Option Thing :=
  if index < t.topItems.length then t.items[t.downItemCount.toNat + index]?.map .item
  else
    let index := index - t.topItems.length
    if index < t.creatures.length then t.creatures[index]?.map .creature
    else
      let index := index - t.creatures.length
      if index < t.downItemCount.toNat then t.items[index]?.map .item else none

def getThing (t : Tile) (index : ℕ) : Option Thing :=
  match t.ground, index with
  | some g, 0 => some (.item g)
  | some _, index + 1 => t.getAbove index
  | none, index => t.getAbove index

def getThingCount (t : Tile) : ℕ := t.ground.toList.length + t.items.length + t.creatures.length

/-! ## Changes -/

/-- Every place where the item is sees the change. -/
def modify (t : Tile) (r : ℕ) (f : Item → Item) : Tile :=
  { t with
    ground := t.ground.map fun y => if y.ref = r then f y else y
    items := t.items.map fun y => if y.ref = r then f y else y }

/-- The first place before which the item belongs, or the end. -/
def insertBefore (before : Item → Bool) (x : Item) : List Item → List Item
  | [] => [x]
  | y :: l => if before y then x :: y :: l else y :: insertBefore before x l

/-- `removeThing` of an item. -/
def removeItem (t : Tile) (x : Item) (count : ℕ) : Tile :=
  if t.getThingIndex types (.item x) = -1 then t
  else if t.ground.any (·.ref = x.ref) then resetTileFlags types { t with ground := none } x
  else if (x.type types).alwaysOnTop then
    if t.topItems.any (·.ref = x.ref) then
      resetTileFlags types { t with items := t.downItems ++ t.topItems.eraseP (·.ref = x.ref) } x
    else t
  else if t.downItems.any (·.ref = x.ref) then
    if (x.type types).stackable && count ≠ x.count then t.modify x.ref (·.takeCount count)
    else
      resetTileFlags types
        { t with
          items := t.downItems.eraseP (·.ref = x.ref) ++ t.topItems
          downItemCount := t.downItemCount - 1 } x
  else t

def putDown (t : Tile) (x : Item) : Tile :=
  setTileFlags types { t with items := x :: t.items, downItemCount := t.downItemCount + 1 } x

def putOnTop (t : Tile) (before : Item → Bool) (x : Item) : Tile :=
  setTileFlags types { t with items := t.downItems ++ insertBefore before x t.topItems } x

/-- Another item has taken the place of one. -/
def exchanged (t : Tile) (oldItem x : Item) : Tile := (t.resetTileFlags types oldItem).setTileFlags types x

/-- The splash that another one replaces. -/
def oldSplash (t : Tile) (x : Item) : Option Item :=
  if (x.type types).group = .splash then t.topItems.find? fun y => (y.type types).group = .splash else none

/-- The field that another one replaces, if it lets it. -/
def oldField (t : Tile) (x : Item) : Option Item :=
  if (x.type types).isMagicField then t.downItems.find? (·.itemClass = .magicField) else none

/-- `addThing` of an item. -/
def addItem (t : Tile) (x : Item) : Tile :=
  let itemType := x.type types
  if 0xFFFF ≤ t.items.length then t
  else if itemType.group = .ground then
    match t.ground with
    | none => setTileFlags types { t with ground := some x } x
    | some oldGround => exchanged types { t with ground := some x } oldGround x
  else if itemType.alwaysOnTop then
    let t := match t.oldSplash types x with
      | some oldSplash => t.removeItem types oldSplash 1
      | none => t
    t.putOnTop types (fun y => itemType.alwaysOnTopOrder ≤ (y.type types).alwaysOnTopOrder) x
  else
    match t.oldField types x with
    | some oldField =>
      if (oldField.type types).replaceable then (t.removeItem types oldField 1).putDown types x
      else t
    | none => t.putDown types x

def addThing (t : Tile) : Thing → Tile
  | .item x => t.addItem types x
  | .creature c => { t with creatures := c :: t.creatures }

/-- `internalAddThing`, which replaces nothing. -/
def internalAddThing (t : Tile) : Thing → Tile
  | .item x =>
    let itemType := x.type types
    if itemType.group = .ground then
      match t.ground with
      | none => setTileFlags types { t with ground := some x } x
      | some _ => t
    else if 0xFFFF ≤ t.items.length then t
    else if itemType.alwaysOnTop then
      t.putOnTop types (fun y => itemType.alwaysOnTopOrder < (y.type types).alwaysOnTopOrder) x
    else t.putDown types x
  | .creature c => { t with creatures := c :: t.creatures }

/-- `updateThing` of an item. -/
def updateItem (t : Tile) (x : Item) (itemId count : ℕ) : Tile :=
  if t.getThingIndex types (.item x) = -1 then t
  else
    let y := x.become types itemId count
    ((t.resetTileFlags types x).modify x.ref fun _ => y).setTileFlags types y

/-- `replaceThing` after the ground; it returns at a creature. -/
def replaceAbove (t : Tile) (pos : ℕ) (x : Item) : Tile :=
  if pos < t.topItems.length then
    match t.topItems[pos]? with
    | some oldItem => exchanged types { t with items := t.downItems ++ t.topItems.set pos x } oldItem x
    | none => t
  else
    let pos := pos - t.topItems.length
    if pos < t.creatures.length then t
    else
      let pos := pos - t.creatures.length
      match t.downItems[pos]? with
      | some oldItem => exchanged types { t with items := t.downItems.set pos x ++ t.topItems } oldItem x
      | none => t

/-- `replaceThing`; the index is one that `getThingIndex` has found, not negative. -/
def replaceThing (t : Tile) (index : ℕ) (x : Item) : Tile :=
  match t.ground, index with
  | some oldItem, 0 => exchanged types { t with ground := some x } oldItem x
  | some _, pos + 1 => t.replaceAbove types pos x
  | none, pos => t.replaceAbove types pos x

/-- `removeThing` of a creature. -/
def removeCreature (t : Tile) (c : ℕ) : Tile := { t with creatures := t.creatures.erase c }

/-- What lies on the tile. -/
def contents (t : Tile) : List Item := t.ground.toList ++ t.items

/-- The item behind a reference. -/
def find (t : Tile) (r : ℕ) : Option Item := t.contents.find? (·.ref = r)

end Tile

/-! ## Runs -/

/-- The operations of a tile. Things that are on it are named by their
references; an item that is not on it has no index and nothing happens. -/
inductive Action
  | addThing (thing : Thing)
  | internalAddThing (thing : Thing)
  | updateThing (r itemId count : ℕ)
  | replaceThing (index : ℕ) (x : Item)
  | removeThing (r count : ℕ)
  | removeCreature (c : ℕ)
  deriving DecidableEq, Repr

def step (t : Tile) : Action → Tile
  | .addThing thing => t.addThing types thing
  | .internalAddThing thing => t.internalAddThing types thing
  | .updateThing r itemId count =>
    match t.find r with
    | some x => t.updateItem types x itemId count
    | none => t
  | .replaceThing index x => t.replaceThing types index x
  | .removeThing r count =>
    match t.find r with
    | some x => t.removeItem types x count
    | none => t
  | .removeCreature c => t.removeCreature c

/-- A thing that is handed to the tile is not on it yet: whoever calls has taken it
from where it was. -/
def Fresh (t : Tile) : Action → Prop
  | .addThing (.item x) | .internalAddThing (.item x) | .replaceThing _ x => ∀ y ∈ t.contents, y.ref ≠ x.ref
  | .addThing (.creature c) | .internalAddThing (.creature c) => c ∉ t.creatures
  | _ => True

instance (t : Tile) : DecidablePred (Fresh t)
  | .addThing (.item x) => inferInstanceAs (Decidable (∀ y ∈ t.contents, y.ref ≠ x.ref))
  | .internalAddThing (.item x) => inferInstanceAs (Decidable (∀ y ∈ t.contents, y.ref ≠ x.ref))
  | .replaceThing _ x => inferInstanceAs (Decidable (∀ y ∈ t.contents, y.ref ≠ x.ref))
  | .addThing (.creature c) => inferInstanceAs (Decidable (c ∉ t.creatures))
  | .internalAddThing (.creature c) => inferInstanceAs (Decidable (c ∉ t.creatures))
  | .updateThing _ _ _ | .removeThing _ _ | .removeCreature _ => .isTrue trivial

end Types
end ForgottenServer.Tiles
