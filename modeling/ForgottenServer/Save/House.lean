import ForgottenServer.Save.Attributes

/-! # The items of houses

`IOMapSerialize`: how the items of a house tile are written and how a tile that
the map has made takes them back. Where an item that is loaded starts to decay is
not part of the model. -/
namespace ForgottenServer.Save
open ForgottenServer.Lib.Wire

/-- The class that `CreateItem` picks for a type. -/
inductive ItemClass
  | depotLocker | container | teleport | magicField | door | trashHolder | mailbox | bed | item
  deriving DecidableEq, Repr

def ItemType.classOf (it : ItemType) : ItemClass :=
  if it.type = .depot then .depotLocker
  else if it.group = .container then .container
  else if it.type = .teleport then .teleport
  else if it.type = .magicField then .magicField
  else if it.type = .door then .door
  else if it.type = .trashHolder then .trashHolder
  else if it.type = .mailbox then .mailbox
  else if it.type = .bed then .bed
  else .item

/-- `getContainer` is not null. -/
def ItemClass.isContainer : ItemClass → Bool
  | .depotLocker | .container => true
  | _ => false

/-- An item with what is in it, the first item first. -/
inductive Tree
  | node (item : Item) (children : List Tree)

def Tree.item : Tree → Item
  | .node x _ => x

def Tree.children : Tree → List Tree
  | .node _ l => l

namespace Item
variable (sv : Server)

def classOf (x : Item) : ItemClass := (x.type sv).classOf

/-- `CreateItem` of a type, with no count. -/
def create (id : ℕ) : Option Item :=
  let it := sv.items id
  if it.group = .deprecated ∨ it.id = 0 then none
  else if it.classOf ≠ .item then some (new sv id 0)
  else some (new sv (Decay.Item.createId (fun id => (sv.items id).toItemType) id) (if it.stackable then 1 else 0))

/-- `BedItem::serializeAttr`. -/
def writeBed (x : Item) : Bytes :=
  (if x.sleeperGUID ≠ 0 then tagged 20 (encode 4 x.sleeperGUID) else []) ++
  if x.sleepStart ≠ 0 then tagged 21 (encode 4 x.sleepStart) else []

def writeDestPos (x : Item) : Bytes :=
  encode 2 x.destPos.1 ++ (encode 2 x.destPos.2.1 ++ encode 1 x.destPos.2.2)

/-- `serializeAttr` of the class of the item; a `Door` writes nothing. -/
def writeAttr (x : Item) : Bytes :=
  match x.classOf sv with
  | .door => []
  | .bed => x.writeBed
  | .teleport => x.serializeAttr sv ++ tagged 8 x.writeDestPos
  | _ => x.serializeAttr sv

/-- What `BedItem::readAttr` does with the player who sleeps there. -/
def setSleeper (x : Item) (guid : ℕ) : Item :=
  let name := sv.getNameByGuid guid
  if guid ≠ 0 ∧ name ≠ [] then
    { x.setStrAttr .description (name ++ " is sleeping there.".toUTF8.toList) with sleeperGUID := guid }
  else x

/-- The three numbers are read one by one. -/
def readDestPos (x : Item) (s : Bytes) : ReadValue × Item × Bytes :=
  match read 2 s with
  | none => (.readError, x, s)
  | some (px, s) =>
    match read 2 s with
    | none => (.readError, { x with destPos := (px, x.destPos.2) }, s)
    | some (py, s) =>
      match read 1 s with
      | none => (.readError, { x with destPos := (px, py, x.destPos.2.2) }, s)
      | some (pz, s) => (.readContinue, { x with destPos := (px, py, pz) }, s)

/-- `readAttr` of a class. The `DepotLocker` passes by the one of `Container`. -/
def readAttrOf (c : ItemClass) : Reader := fun x attr s =>
  match c, attr with
  | .container, 23 =>
    match read 4 s with
    | none => (.readError, x, s)
    | some (n, s) => (.readEnd, { x with serializationCount := n }, s)
  | .depotLocker, 10 => x.readNumber 2 s fun n => { x with depotId := n }
  | .door, 14 => x.readNumber 1 s fun n => x.setIntAttr .doorId n
  | .bed, 20 => x.readNumber 4 s fun n => x.setSleeper sv n
  | .bed, 21 => x.readNumber 4 s fun n => { x with sleepStart := n }
  | .teleport, 8 => x.readDestPos s
  | _, _ => readAttr sv x attr s

/-- `unserializeAttr` of an item of its class. -/
def unserialize (x : Item) (s : Bytes) : Bool × Item × Bytes :=
  unserializeWith (readAttrOf sv (x.classOf sv)) (s.length + 1) x s

end Item

variable (sv : Server)

/-! ## Saving -/

/-- The items of a container that `saveItem` writes, which are counted. -/
def containerHeader (x : Item) (size : ℕ) : Bytes :=
  if (x.classOf sv).isContainer then Item.tagged 23 (encode 4 size) else []

mutual

/-- `IOMapSerialize::saveItem`. -/
def saveItem : Tree → Bytes
  | .node x l => encode 2 x.id ++ (x.writeAttr sv ++ (containerHeader sv x l.length ++ (saveReversed l ++ encode 1 0)))

/-- The items of a container, the last one first. -/
def saveReversed : List Tree → Bytes
  | [] => []
  | t :: l => saveReversed l ++ saveItem t

end

structure Tile where
  position : ℕ × ℕ × ℕ
  ground : Option Tree := none
  /-- the down items and the top items of `TileItemVector` -/
  down : List Tree := []
  top : List Tree := []

def isSaved (t : Tree) : Bool :=
  let it := t.item.type sv
  it.moveable || it.forceSerialize || t.item.classOf sv = .door ||
    ((t.item.classOf sv).isContainer && !t.children.isEmpty) || it.canWriteText || t.item.classOf sv = .bed

/-- `IOMapSerialize::saveTile`. -/
def saveTile (tile : Tile) : Bytes :=
  let items := ((tile.down ++ tile.top).filter (isSaved sv)).reverse
  if items.isEmpty then []
  else encode 2 tile.position.1 ++ (encode 2 tile.position.2.1 ++ (encode 1 tile.position.2.2 ++
    (encode 4 (items.length % 2 ^ 16) ++ items.flatMap (saveItem sv))))

/-! ## Loading -/

/-- `IOMapSerialize::loadContainer`: the items that are left to read go in front of `l`. -/
def loadContainer (loadChild : Bytes → Bool × Option Tree × Bytes) : ℕ → List Tree → Bytes → Bool × List Tree × Bytes
  | 0, l, s =>
    match read 1 s with
    | none => (false, l, s)
    | some (endAttr, s) => (endAttr = 0, l, s)
  | n + 1, l, s =>
    match loadChild s with
    | (false, _, s) => (false, l, s)
    | (true, t, s) => loadContainer loadChild n (t.toList ++ l) s

/-- The id of an item and what is made of it. -/
def loadWith (load : ℕ → Bytes → Bool × Option Tree × Bytes) (s : Bytes) : Bool × Option Tree × Bytes :=
  match read 2 s with
  | none => (false, none, s)
  | some (id, s) => load id s

/-- The branch of `loadItem` that creates an item, behind its id. -/
def loadNew : ℕ → ℕ → Bytes → Bool × Option Tree × Bytes
  | 0, _, s => (false, none, s)
  | fuel + 1, id, s =>
    match Item.create sv id with
    | none => (true, none, s)
    | some x =>
      match x.unserialize sv s with
      | (false, _, s) => (false, none, s)
      | (true, x, s) =>
        if (x.classOf sv).isContainer then
          match loadContainer (loadWith (loadNew fuel)) x.serializationCount [] s with
          | (false, _, s) => (false, none, s)
          | (true, l, s) => (true, some (.node { x with serializationCount := 0 } l), s)
        else (true, some (.node x []), s)

/-- Put an item in front of the first one that `before` tells, else behind all. -/
def insertBy (before : Tree → Bool) (t : Tree) : List Tree → List Tree
  | [] => [t]
  | u :: l => if before u then t :: u :: l else u :: insertBy before t l

/-- The place of a top item that is loaded. -/
def insertTop (t : Tree) : List Tree → List Tree :=
  insertBy (fun u => (u.item.type sv).alwaysOnTopOrder > (t.item.type sv).alwaysOnTopOrder) t

/-- `Tile::internalAddThing`. -/
def Tile.internalAddThing (tile : Tile) (t : Tree) : Tile :=
  let it := t.item.type sv
  if it.group = .ground then if tile.ground.isNone then { tile with ground := some t } else tile
  else if 0xFFFF ≤ tile.down.length + tile.top.length then tile
  else if it.alwaysOnTop then { tile with top := insertTop sv t tile.top }
  else { tile with down := t :: tile.down }

/-- The item of the tile that a saved one is read into. -/
def isCounterpart (id : ℕ) (t : Tree) : Bool :=
  t.item.id = id || (sv.items id).type = .door && t.item.classOf sv = .door ||
    (sv.items id).type = .bed && t.item.classOf sv = .bed

def updateFirst (p : Tree → Bool) (f : Tree → Tree) : List Tree → List Tree
  | [] => []
  | t :: l => if p t then f t :: l else t :: updateFirst p f l

def Tile.updateFirst (tile : Tile) (p : Tree → Bool) (f : Tree → Tree) : Tile :=
  if tile.down.any p then { tile with down := Save.updateFirst p f tile.down }
  else { tile with top := Save.updateFirst p f tile.top }

/-- What is read into an item that the map has put there. -/
def loadInto (e : Tree) (s : Bytes) : Bool × Bool × Tree × Bytes :=
  match e.item.unserialize sv s with
  | (false, x, s) => (true, false, .node x e.children, s)
  | (true, x, s) =>
    if (x.classOf sv).isContainer then
      match loadContainer (loadWith (loadNew sv (s.length + 1))) x.serializationCount e.children s with
      | (false, l, s) => (false, false, .node x l, s)
      | (true, l, s) => (true, true, .node { x with serializationCount := 0 } l, s)
    else (true, true, .node x e.children, s)

/-- What is read and not kept. -/
def skipItem (dummy : Item) (s : Bytes) : Bool × Bytes :=
  match dummy.unserialize sv s with
  | (_, x, s) =>
    if (x.classOf sv).isContainer then
      match loadContainer (loadWith (loadNew sv (s.length + 1))) x.serializationCount [] s with
      | (ok, _, s) => (ok, s)
    else (true, s)

/-! ## Transforming an item of a tile -/

/-- `Tile::addThing`: here a top item goes in front of those of the same order. -/
def Tile.addThing (tile : Tile) (t : Tree) : Tile :=
  let it := t.item.type sv
  if 0xFFFF ≤ tile.down.length + tile.top.length then tile
  else if it.group = .ground then { tile with ground := some t }
  else if it.alwaysOnTop then
    let top :=
      if it.group = .splash then tile.top.eraseP fun u => (u.item.type sv).group = .splash else tile.top
    { tile with top := insertBy (fun u => it.alwaysOnTopOrder ≤ (u.item.type sv).alwaysOnTopOrder) t top }
  else
    let isField := fun u : Tree => (u.item.type sv).type = .magicField
    match if it.type = .magicField then tile.down.find? isField else none with
    | some old =>
      if (old.item.type sv).replaceable then { tile with down := t :: tile.down.eraseP isField } else tile
    | none => { tile with down := t :: tile.down }

/-- What an item that stays in its place becomes. -/
def Item.update (x : Item) (newId : ℕ) : Item :=
  let curType := x.type sv
  let newType := sv.items newId
  let count := x.getSubType sv
  let y := if curType.id ≠ newType.id ∧ newType.group ≠ curType.group then x.setDefaultSubtype sv else x
  (y.setID sv (if curType.id ≠ newType.id then newId else x.id)).setSubType sv count

/-- `transformItem` of the first item that `p` tells, with no count. Where the
index of the item is looked for, a top item is one of the top items. -/
def Tile.transformItem (tile : Tile) (p : Tree → Bool) (newId : ℕ) : Tile :=
  match (tile.down ++ tile.top).find? p with
  | none => tile
  | some t =>
    let curType := t.item.type sv
    let newType := sv.items newId
    if t.item.id = newId then tile
    else if tile.down.any p = curType.alwaysOnTop then tile
    else if newType.id = 0 then tile
    else if curType.alwaysOnTop ≠ newType.alwaysOnTop then
      let taken :=
        if curType.alwaysOnTop then { tile with top := tile.top.eraseP p }
        else { tile with down := tile.down.eraseP p }
      taken.addThing sv (.node (t.item.setID sv newId) t.children)
    else if curType.type = newType.type then
      tile.updateFirst p fun _ => .node (t.item.update sv newId) t.children
    else
      match Item.create sv newId with
      | none => tile
      | some y => tile.updateFirst p fun _ => .node y []

/-- `IOMapSerialize::loadItem` for a tile. -/
def loadItem (tile : Tile) (s : Bytes) : Bool × Tile × Bytes :=
  match read 2 s with
  | none => (false, tile, s)
  | some (id, s) =>
    let it := sv.items id
    if it.moveable || it.forceSerialize then
      match loadNew sv (s.length + 1) id s with
      | (ok, some t, s) => (ok, tile.internalAddThing sv t, s)
      | (ok, none, s) => (ok, tile, s)
    else
      match (tile.down ++ tile.top).find? (isCounterpart sv id) with
      | some e =>
        match loadInto sv e s with
        | (ok, done, e', s) =>
          let tile := tile.updateFirst (isCounterpart sv id) fun _ => e'
          (ok, if done then tile.transformItem sv (isCounterpart sv id) id else tile, s)
      | none =>
        -- the map has changed: the item is read and forgotten
        match Item.create sv id with
        | none => (true, tile, s)
        | some dummy => ((skipItem sv dummy s).1, tile, (skipItem sv dummy s).2)

/-- The loop of `loadHouseItems` over the items of one tile. -/
def loadItems : ℕ → Tile → Bytes → Tile × Bytes
  | 0, tile, s => (tile, s)
  | n + 1, tile, s =>
    let (_, tile, s) := loadItem sv tile s
    loadItems n tile s

/-- `loadHouseItems` of one row: the tile it names and what is read into it. -/
def loadTile (getTile : ℕ × ℕ × ℕ → Option Tile) (s : Bytes) : Option (Tile × Bytes) :=
  (read 2 s).bind fun (x, s) => (read 2 s).bind fun (y, s) => (read 1 s).bind fun (z, s) =>
    (getTile (x, y, z)).bind fun tile => (read 4 s).map fun (itemCount, s) =>
      loadItems sv itemCount tile s

end ForgottenServer.Save
