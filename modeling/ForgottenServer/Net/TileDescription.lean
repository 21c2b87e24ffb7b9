import ForgottenServer.Conditions.Classes
import ForgottenServer.Net.KnownCreatures
import ForgottenServer.Net.Message

/-! # Tile descriptions

Up to ten things of a tile are sent to a client, and of what they look like what it
needs. The functions only write to the message, so that their writes are what they are. -/
namespace ForgottenServer.Net
open ForgottenServer.Lib.Wire
open ForgottenServer.Conditions (Outfit LightInfo)
open ForgottenServer.Maps (Position)

structure ItemType where
  clientId : UInt16
  stackable : Bool := false
  isSplash : Bool := false
  isFluidContainer : Bool := false

structure Item where
  id : UInt16
  itemCount : UInt16 := 1
  fluidType : UInt16 := 0

structure Tile where
  position : Position
  ground : Option Item := none
  topItems : List Item := []
  downItems : List Item := []
  creatures : List Creature := []

/-- What the player sees of a creature. The percentage of the health is given as the byte
that comes out of the floating point numbers. -/
structure Looks where
  creatureType : UInt8 := 0
  name : Bytes := []
  isHealthHidden : Bool := false
  healthPercent : UInt8 := 100
  direction : UInt8 := 0
  currentOutfit : Outfit := {}
  creatureLight : LightInfo := {}
  stepSpeed : Int32 := 220
  skullClient : UInt8 := 0
  partyShield : UInt8 := 0
  guildEmblem : UInt8 := 0

/-- The player and what there is to see: the creatures by their ids, `Item::items` and
`Map::getTile`. -/
structure View where
  game : Game := {}
  player : Player
  order : Order
  looks : ℕ → Looks := fun _ => {}
  items : UInt16 → ItemType
  getTile : UInt16 → UInt16 → UInt8 → Option Tile

def fluidMap : Bytes := [0, 1, 5, 3, 6, 8, 9, 2]

def addItem (v : View) (item : Item) : List Write :=
  let it := v.items item.id
  .add (write16 it.clientId) ::
    if it.stackable then [.addByte (min 0xFF item.itemCount).toUInt8]
    else if it.isSplash || it.isFluidContainer then
      [.addByte (fluidMap.getD (item.fluidType &&& 7).toNat 0)]
    else []

def addOutfit (v : View) (outfit : Outfit) : List Write :=
  .add (write16 outfit.lookType) ::
    if outfit.lookType ≠ 0 then
      [.addByte outfit.lookHead, .addByte outfit.lookBody, .addByte outfit.lookLegs,
        .addByte outfit.lookFeet, .addByte outfit.lookAddons]
    else [.add (write16 (v.items outfit.lookTypeEx).clientId)]

/-- What `AddCreature` starts with: an unknown creature is introduced. -/
def creatureHeader (v : View) (creature : Creature) (known : Bool) (remove : ℕ) : List Write :=
  if known then [.add (write16 0x62), .add (encode 4 creature.id)]
  else
    [.add (write16 0x61), .add (encode 4 remove), .add (encode 4 creature.id),
      .addByte (v.looks creature.id).creatureType, .addString (v.looks creature.id).name]

def addCreature (v : View) (creature : Creature) (known : Bool) (remove : ℕ) : List Write :=
  let looks := v.looks creature.id
  creatureHeader v creature known remove ++
  [.addByte (if looks.isHealthHidden then 0 else looks.healthPercent), .addByte looks.direction] ++
  addOutfit v (if !creature.isInGhostMode && !creature.isInvisible then
    looks.currentOutfit else {}) ++
  [.addByte (if v.player.access then 0xFF else looks.creatureLight.level),
    .addByte looks.creatureLight.color, .add (write16 (looks.stepSpeed / 2).toUInt32.toUInt16),
    .addByte looks.skullClient, .addByte looks.partyShield] ++
  if known then [] else [.addByte looks.guildEmblem]

/-- A call of `addItem` or of `AddCreature`. -/
inductive Thing
  | item (item : Item)
  | creature (creature : Creature) (known : Bool) (remove : ℕ)

def Thing.writes (v : View) : Thing → List Write
  | .item i => addItem v i
  | .creature c known remove => addCreature v c known remove

/-- The things that a part of `GetTileDescription` adds, with the count and the creatures
that are known after it and whether it returns. -/
structure Added where
  things : List Thing
  count : ℕ
  knownCreatureSet : Finset ℕ
  returns : Bool := false

def Added.cons (thing : Thing) (a : Added) : Added := { a with things := thing :: a.things }

/-- The loop over the top items. On the tile of the player room is left for him. -/
def addTopItems (own : Bool) (known : Finset ℕ) : ℕ → List Item → Added
  | count, [] => ⟨[], count, known, false⟩
  | count, item :: items =>
    if count + 1 = 9 && own then ⟨[.item item], count + 1, known, false⟩
    else if count + 1 = 10 then ⟨[.item item], count + 1, known, true⟩
    else (addTopItems own known (count + 1) items).cons (.item item)

/-- The loop over the creatures, the last of the tile first. -/
def addCreatures (v : View) (own : Bool) : ℕ → Bool → Finset ℕ → List Creature → Added
  | count, _, known, [] => ⟨[], count, known, false⟩
  | count, playerAdded, known, creature :: creatures =>
    if !v.player.canSeeCreature creature then addCreatures v own count playerAdded known creatures
    else
      let creature := if own && count = 9 && !playerAdded then v.player.toCreature else creature
      let checked := checkCreatureAsKnown v.game (some v.player) v.order known creature.id
      -- `removedKnown` is not read of a known creature
      let thing := Thing.creature creature checked.known (checked.removedKnown.getD 0)
      if count + 1 = 10 then ⟨[thing], count + 1, checked.knownCreatureSet, true⟩
      else
        (addCreatures v own (count + 1) (playerAdded || creature.id = v.player.id) checked.knownCreatureSet
          creatures).cons thing

def addDownItems : ℕ → List Item → List Thing
  | _, [] => []
  | count, item :: items =>
    .item item :: if count + 1 = 10 then [] else addDownItems (count + 1) items

/-- The things that `GetTileDescription` adds, and the creatures that are known after it. -/
def tileThings (v : View) (tile : Tile) (known : Finset ℕ) : List Thing × Finset ℕ :=
  let own := tile.position = v.player.position
  let ground := tile.ground.toList.map Thing.item
  let top := addTopItems own known ground.length tile.topItems
  if top.returns then (ground ++ top.things, top.knownCreatureSet)
  else
    let creatures := addCreatures v own top.count false top.knownCreatureSet tile.creatures.reverse
    if creatures.returns then (ground ++ top.things ++ creatures.things, creatures.knownCreatureSet)
    else
      (ground ++ top.things ++ creatures.things ++ addDownItems creatures.count tile.downItems,
        creatures.knownCreatureSet)

def getTileDescription (v : View) (tile : Tile) (known : Finset ℕ) : List Write × Finset ℕ :=
  -- environmental effects
  (.add (write16 0x00) :: (tileThings v tile known).1.flatMap (Thing.writes v), (tileThings v tile known).2)

end ForgottenServer.Net
