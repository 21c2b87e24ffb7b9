import ForgottenServer.Things.World

/-! # The queries of cylinders

Whether a cylinder takes an item, how much of it, whether it gives one away, and
where an item that is put into it ends up. Tiles are asked about items only. -/
namespace ForgottenServer.Things
namespace World
variable (rules : Rules) (w : World)

/-! ## Players -/

def getFreeCapacity (p : ℕ) : ℕ :=
  let player := w.player p
  if player.cannotPickupItem then 0
  else if player.hasInfiniteCapacity then 2 ^ 32 - 1
  else
    let free := player.capacity - player.inventoryWeight
    if free < 2 ^ 31 then free else 0

def hasCapacity (p r count : ℕ) : Bool :=
  let player := w.player p
  if player.cannotPickupItem then false
  else if player.hasInfiniteCapacity || w.getTopParent r = some (.player p) then true
  else
    let itemWeight := if (w.item r).container.isSome then w.getWeight rules r else w.getBaseWeight rules r
    let itemWeight := if w.isStackable rules r then itemWeight * count % 2 ^ 32 else itemWeight
    itemWeight ≤ w.getFreeCapacity p

def getInventoryItem (p : ℕ) (index : ℤ) : Option ℕ :=
  if 1 ≤ index ∧ index ≤ 10 then (w.player p).inventory index.toNat else none

/-- What an item that has a slot of its own answers for the wrong one. -/
def wrongSlot (s : SlotPosition) : ReturnValue :=
  if s.head || s.necklace || s.backpack || s.armor || s.legs || s.feet || s.ring then .cannotBeDressed
  else if s.twoHand then .putThisObjectInBothHands
  else if s.right || s.left then
    if !rules.classicEquipmentSlots then .cannotBeDressed else .putThisObjectInYourHand
  else .noError

/-- The classic rule for one hand when the other holds `y`. -/
def otherHand (r count y : ℕ) : ReturnValue :=
  let type := (w.type rules r).weaponType
  let otherType := (w.type rules y).weaponType
  if (w.type rules y).slotPosition.twoHand then .dropTwoHandedItem
  else if r = y ∧ count = (w.item r).count then .noError
  else if otherType = .shield ∧ type = .shield then .canOnlyUseOneShield
  else if otherType = .none ∨ type = .none ∨ otherType = .shield ∨ otherType = .ammo ∨ type = .shield ∨
    type = .ammo then .noError
  else .canOnlyUseOneWeapon

def rightHand (p r count : ℕ) : ReturnValue :=
  let s := (w.type rules r).slotPosition
  let left := (w.player p).inventory 6
  if !rules.classicEquipmentSlots then
    if (w.type rules r).weaponType ≠ .shield then .cannotBeDressed
    else match left with
      | some y =>
        if (w.type rules y).slotPosition.twoHand || s.twoHand then .bothHandsNeedToBeFree else .noError
      | none => .noError
  else if s.twoHand then if left.isSome ∧ left ≠ some r then .bothHandsNeedToBeFree else .noError
  else match left with
    | some y => w.otherHand rules r count y
    | none => .noError

def leftHand (p r count : ℕ) : ReturnValue :=
  let s := (w.type rules r).slotPosition
  let right := (w.player p).inventory 5
  if !rules.classicEquipmentSlots then
    let type := (w.type rules r).weaponType
    if type = .none ∨ type = .shield then .cannotBeDressed
    else if right.isSome ∧ s.twoHand then .bothHandsNeedToBeFree
    else .noError
  else if s.twoHand then if right.isSome ∧ right ≠ some r then .bothHandsNeedToBeFree else .noError
  else match right with
    | some y => w.otherHand rules r count y
    | none => .noError

/-- Whether the item belongs in the slot. -/
def slotAnswer (p : ℕ) (index : ℤ) (r count : ℕ) : ReturnValue :=
  let s := (w.type rules r).slotPosition
  let ret := wrongSlot rules s
  match index with
  | 1 => if s.head then .noError else ret
  | 2 => if s.necklace then .noError else ret
  | 3 => if s.backpack then .noError else ret
  | 4 => if s.armor then .noError else ret
  | 5 => if s.right then w.rightHand rules p r count else ret
  | 6 => if s.left then w.leftHand rules p r count else ret
  | 7 => if s.legs then .noError else ret
  | 8 => if s.feet then .noError else ret
  | 9 => if s.ring then .noError else ret
  | 10 => if s.ammo || rules.classicEquipmentSlots then .noError else ret
  | 0 | -1 => .notEnoughRoom
  | _ => .notPossible

def isExchangeable (r : ℕ) : Bool :=
  match w.getTopParent r with
  | some (.player _) => true
  | some (.container c) => (w.item c).container.map Container.kind = some .depotChest
  | _ => false

/-- `Player::queryAdd`. That there is not enough room is forgotten when the
move events have no objection. -/
def playerQueryAdd (p : ℕ) (index : ℤ) (r count : ℕ) (flags : Flags) : ReturnValue :=
  if flags.childIsOwner then
    if flags.noLimit || w.hasCapacity rules p r count then .noError else .notEnoughCapacity
  else if !(w.type rules r).pickupable then .cannotPickup
  else if w.isStoreItem rules r then .itemCannotBeMovedThere
  else
    let ret := w.slotAnswer rules p index r count
    if ret ≠ .noError ∧ ret ≠ .notEnoughRoom then ret
    else if !w.hasCapacity rules p r count then .notEnoughCapacity
    else
      match rules.onPlayerEquip w p r index with
      | some code => .other code
      | none =>
        match w.getInventoryItem p index with
        | some y =>
          if !w.isStackable rules y || (w.item y).id ≠ (w.item r).id then
            if w.isExchangeable r then .needExchange else .notEnoughRoom
          else .noError
        | none => .noError

/-! ## Tiles -/

/-- An item of the tile leaves no room for `r`. -/
def blocks (r y : ℕ) : Bool :=
  let it := w.type rules r
  let iiType := w.type rules y
  iiType.blockSolid && !(iiType.allowPickupable && it.type ≠ .magicField && !it.blockSolid) &&
    (!it.pickupable || !iiType.hasHeight || iiType.pickupable || iiType.type = .bed)

/-- `Tile::queryAdd` and `HouseTile::queryAdd`. -/
def tileQueryAdd (t r : ℕ) (flags : Flags) (actor : Bool) : ReturnValue :=
  let tile := w.tile t
  let it := w.type rules r
  let itemlist := tile.topItems ++ tile.downItems
  if tile.house.isSome ∧ w.isStoreItem rules r ∧ (w.item r).attr.wrapId = none then .itemCannotBeMovedThere
  else if actor ∧ tile.house = some false then .cannotThrow
  else if 0xFFFF ≤ itemlist.length then .notPossible
  else if flags.noLimit then .noError
  else if w.isStoreItem rules r then .itemCannotBeMovedThere
  else if tile.ground = none ∧ !it.isHangable then .notPossible
  else if tile.occupied ∧ it.blockSolid ∧ !flags.ignoreBlockCreature then .notEnoughRoom
  else if it.isHangable ∧ tile.supportsHangable then
    if itemlist.any fun y => (w.type rules y).isHangable then .needExchange else .noError
  else if (tile.ground.toList ++ itemlist).any (w.blocks rules r) then .notEnoughRoom
  else .noError

/-! ## Containers -/

def size (c : ℕ) : ℕ := (w.itemlist c).length

def capacity (c : ℕ) : ℕ := ((w.item c).container.map Container.maxSize).getD 0

def kind (c : ℕ) : Option ContainerKind := (w.item c).container.map Container.kind

/-- The limit of `DepotChest::queryAdd`. -/
def isDepotFull (c r count : ℕ) : Bool :=
  let addCount :=
    if w.getTopParent r ≠ some (.container c) then
      if (w.item r).container.isSome then (w.contents r).length + 1 else 1
    else if w.isStackable rules r ∧ (w.item r).count ≠ count then 1
    else 0
  ((w.item c).container.map Container.maxDepotItems).getD 0 < (w.contents c).length + addCount

def inboxQueryAdd (c r : ℕ) (flags : Flags) : ReturnValue :=
  if !flags.noLimit then .containerNotEnoughRoom
  else if r = c then .thisIsImpossible
  else if !(w.type rules r).pickupable then .cannotPickup
  else .noError

def storeInboxQueryAdd (c r : ℕ) : ReturnValue :=
  if r = c then .thisIsImpossible
  else if !(w.type rules r).pickupable then .cannotPickup
  else if !w.isStoreItem rules r then .cannotMoveItemIsNotStoreItem
  else if (w.item r).container.isSome ∧ w.itemlist r ≠ [] then .itemCannotBeMovedThere
  else .noError

/-- What the top parent of a container answers to it (`FLAG_CHILDISOWNER`). -/
def ownerQueryAdd (owner : Cylinder) (r count : ℕ) (flags : Flags) (actor : Bool) : ReturnValue :=
  let flags := { flags with childIsOwner := true }
  match owner with
  | .player p => w.playerQueryAdd rules p whereEver r count flags
  | .tile t => w.tileQueryAdd rules t r flags actor
  | .container c =>
    match w.kind c with
    | some .depotChest => if !flags.noLimit && w.isDepotFull rules c r count then .depotIsFull else .noError
    | some .depotLocker => .notEnoughRoom
    | some .inbox => w.inboxQueryAdd rules c r flags
    | some .storeInbox => w.storeInboxQueryAdd rules c r
    | some .plain | none => .noError

/-- `Container::queryAdd`. -/
def plainQueryAdd (c : ℕ) (index : ℤ) (r count : ℕ) (flags : Flags) (actor : Bool) : ReturnValue :=
  let above := w.ancestors w.depth (.container c)
  let inStoreInbox : Bool :=
    match above.head? with
    | some (.container s) => w.kind s = some .storeInbox
    | _ => false
  let isInbox : Cylinder → Bool
    | .container s => w.kind s = some .inbox
    | _ => false
  if flags.childIsOwner then .noError
  else if !((w.item c).container.map Container.unlocked).getD false then .notPossible
  else if !(w.type rules r).pickupable then .cannotPickup
  else if r = c then .thisIsImpossible
  else if w.isStoreItem rules r ∧ w.kind c ≠ some .depotChest then .itemCannotBeMovedThere
  else if w.isStoreItem rules c ∧ inStoreInbox then
    if !w.isStoreItem rules r then .cannotMoveItemIsNotStoreItem else .itemCannotBeMovedThere
  else
    -- the parents are asked one by one
    match above.find? fun a => a = .container r || (!flags.noLimit && isInbox a) with
    | some a => if a = .container r then .thisIsImpossible else .containerNotEnoughRoom
    | none =>
      if !flags.noLimit ∧ index = whereEver ∧ w.capacity c ≤ w.size c then .containerNotEnoughRoom
      else match w.getTopParent c with
        | none => .noError
        | some owner => if owner = .container c then .noError
          else w.ownerQueryAdd rules owner r count flags actor

def containerQueryAdd (c : ℕ) (index : ℤ) (r count : ℕ) (flags : Flags) (actor : Bool) : ReturnValue :=
  match w.kind c with
  | some .depotChest =>
    if !flags.noLimit && w.isDepotFull rules c r count then .depotIsFull
    else w.plainQueryAdd rules c index r count flags actor
  | some .depotLocker => .notEnoughRoom
  | some .inbox => w.inboxQueryAdd rules c r flags
  | some .storeInbox => w.storeInboxQueryAdd rules c r
  | some .plain | none => w.plainQueryAdd rules c index r count flags actor

def queryAdd (c : Cylinder) (index : ℤ) (r count : ℕ) (flags : Flags) (actor : Bool) : ReturnValue :=
  match c with
  | .container c => w.containerQueryAdd rules c index r count flags actor
  | .player p => w.playerQueryAdd rules p index r count flags
  | .tile t => w.tileQueryAdd rules t r flags actor

/-! ## How much -/

/-- The items of a list that `r` can be stacked with. -/
def stacksWith (r : ℕ) (l : List ℕ) : List ℕ :=
  l.filter fun y => y ≠ r ∧ (w.item y).equals (w.item r) ∧ (w.item y).count < 100

def getItemByIndex (c : ℕ) (index : ℤ) : Option ℕ :=
  if 0 ≤ index then (w.itemlist c)[index.toNat]? else none

/-- `Container::queryMaxCount`: the answer and `maxQueryCount`. -/
def containerQueryMaxCount (c : ℕ) (index : ℤ) (r count : ℕ) (flags : Flags) : ReturnValue × ℕ :=
  if flags.noLimit then (.noError, max 1 count)
  else
    let freeSlots := w.capacity c - w.size c
    if w.isStackable rules r then
      let n :=
        if index = whereEver then
          -- any index but `whereEver` is answered alike
          if w.containerQueryAdd rules c 0 r count flags false = .noError then
            ((w.stacksWith r (w.itemlist c)).map fun y => 100 - (w.item y).count).sum
          else 0
        else match w.getItemByIndex c index with
          | some y =>
            if (w.item r).equals (w.item y) ∧ (w.item y).count < 100 ∧
              w.containerQueryAdd rules c index r count flags false = .noError then 100 - (w.item y).count
            else 0
          | none => 0
      let maxQueryCount := freeSlots * 100 + n
      (if maxQueryCount < count then .containerNotEnoughRoom else .noError, maxQueryCount)
    else (if freeSlots = 0 then .containerNotEnoughRoom else .noError, freeSlots)

/-- What one slot adds to `maxQueryCount`. -/
def slotMaxCount (p r : ℕ) (flags : Flags) (slot : ℕ) : ℕ :=
  let x := w.item r
  match (w.player p).inventory slot with
  | some y =>
    if (w.item y).container.isSome then
      ((y :: (w.contents y).filter fun z => (w.item z).container.isSome).map fun c =>
        (w.containerQueryMaxCount rules c whereEver r x.count flags).2).sum
    else if w.isStackable rules y ∧ x.equals (w.item y) ∧ (w.item y).count < 100 then
      let remainder := 100 - (w.item y).count
      if w.playerQueryAdd rules p slot r remainder flags = .noError then remainder else 0
    else 0
  | none =>
    if w.playerQueryAdd rules p slot r x.count flags = .noError then
      if w.isStackable rules r then 100 else 1
    else 0

/-- `Player::queryMaxCount`. -/
def playerQueryMaxCount (p : ℕ) (index : ℤ) (r count : ℕ) (flags : Flags) : ReturnValue × ℕ :=
  let answer (maxQueryCount : ℕ) : ReturnValue × ℕ :=
    (if maxQueryCount < count then .notEnoughRoom else .noError, maxQueryCount)
  if index = whereEver then answer (slots.map (w.slotMaxCount rules p r flags)).sum
  else match w.getInventoryItem p index with
    | some y =>
      answer (if w.isStackable rules y ∧ (w.item r).equals (w.item y) ∧ (w.item y).count < 100 then
        100 - (w.item y).count else 0)
    | none =>
      if w.playerQueryAdd rules p index r count flags = .noError then
        (.noError, if w.isStackable rules r then 100 else 1)
      else answer 0

def queryMaxCount (c : Cylinder) (index : ℤ) (r count : ℕ) (flags : Flags) : ReturnValue × ℕ :=
  match c with
  | .container c => w.containerQueryMaxCount rules c index r count flags
  | .player p => w.playerQueryMaxCount rules p index r count flags
  | .tile _ => (.noError, max 1 count)

/-! ## Taking away -/

/-- `getThingIndex` finds the item; a tile looks among its top or its down items. -/
def hasThing (c : Cylinder) (r : ℕ) : Bool :=
  match c with
  | .container c => r ∈ w.itemlist c
  | .player p => r ∈ w.children (.player p)
  | .tile t =>
    (w.tile t).ground = some r ||
      if (w.type rules r).alwaysOnTop then r ∈ (w.tile t).topItems else r ∈ (w.tile t).downItems

/-- The check of `HouseTile::queryRemove`. -/
def mayTake (c : Cylinder) (actor : Bool) : Bool :=
  match c with
  | .tile t => !(actor && rules.onlyInvitedCanMoveHouseItems && (w.tile t).house = some false)
  | _ => true

def queryRemove (c : Cylinder) (r count : ℕ) (flags : Flags) (actor : Bool) : ReturnValue :=
  if !w.mayTake rules c actor then .notPossible
  else if !w.hasThing rules c r then .notPossible
  else if count = 0 ∨ w.isStackable rules r ∧ (w.item r).count < count then .notPossible
  else if !(w.type rules r).moveable ∧ !flags.ignoreNotMoveable then .notMoveable
  else .noError

variable {rules w} in
theorem queryRemove_zero (c : Cylinder) (r : ℕ) (flags : Flags) (actor : Bool) :
    w.queryRemove rules c r 0 flags actor ≠ .noError := by
  unfold queryRemove
  split
  · exact nofun
  split
  · exact nofun
  · simp

def getThingIndex (c : Cylinder) (r : ℕ) : ℤ :=
  if !w.hasThing rules c r then -1
  else match c with
    | .container c => (w.itemlist c).idxOf r
    | .player p => ((slots.find? fun slot => (w.player p).inventory slot = some r).getD 0 : ℕ)
    | .tile _ => 0

/-! ## Where to -/

/-- What `queryDestination` returns and what it writes through its arguments. -/
structure Destination where
  cylinder : Cylinder
  index : ℤ
  toItem : Option ℕ := none
  flags : Flags := {}
  deriving DecidableEq, Repr

/-- An item is put on top of an equal one that is not full. -/
def canStack (r y : ℕ) : Bool := (w.item y).equals (w.item r) && (w.item y).count < 100

def toCylinder (y : ℕ) : Option Cylinder :=
  if (w.item y).container.isSome then some (.container y) else none

/-- The end of `Container::queryDestination`: an item to stack with. -/
def stackDestination (c : ℕ) (index : ℤ) (toItem : Option ℕ) (r : ℕ) (flags : Flags) : Destination :=
  let this : Destination := { cylinder := .container c, index, toItem, flags }
  if !flags.ignoreAutoStack && w.isStackable rules r && (w.item r).parent ≠ some (.container c) then
    if toItem.any (w.canStack r) then this
    else match (w.itemlist c).find? fun y => y ≠ r ∧ w.canStack r y with
      | some y => { this with index := (w.itemlist c).idxOf y, toItem := some y }
      | none => this
  else this

/-- `Container::queryDestination`. -/
def containerQueryDestination (c : ℕ) (index : ℤ) (toItem : Option ℕ) (r : ℕ) (flags : Flags) : Destination :=
  let this : Destination := { cylinder := .container c, index, flags }
  if !((w.item c).container.map Container.unlocked).getD false then this
  else if index = 254 then
    match w.getParent (.container c) with
    | some (.container d) => { this with cylinder := .container d, index := whereEver }
    | _ => { this with index := whereEver }
  else if index = 255 ∨ w.capacity c ≤ index ∨ index = whereEver then
    let toItem := if index = whereEver then toItem else none
    w.stackDestination rules c whereEver toItem r flags
  else
    let toItem := (w.getItemByIndex c index).or toItem
    match toItem.bind w.toCylinder with
    | some sub => { this with cylinder := sub, index := whereEver }
    | none => w.stackDestination rules c index toItem r flags

/-- The slots of `Player::queryDestination`: a place, or the containers that are worn. -/
def searchSlots (p r : ℕ) (flags : Flags) : List ℕ → List ℕ → Destination ⊕ List ℕ
  | [], containers => .inr containers
  | slot :: rest, containers =>
    match (w.player p).inventory slot with
    | none =>
      if w.playerQueryAdd rules p slot r (w.item r).count flags = .noError then
        .inl { cylinder := .player p, index := slot, flags }
      else searchSlots p r flags rest containers
    | some y =>
      if (w.player p).tradeItem = some y ∨ y = r then searchSlots p r flags rest containers
      else if !flags.ignoreAutoStack ∧ w.isStackable rules r ∧
          w.playerQueryAdd rules p slot r (w.item r).count {} = .noError ∧ w.canStack r y then
        .inl { cylinder := .player p, index := slot, toItem := some y, flags }
      else searchSlots p r flags rest (containers ++ if (w.item y).container.isSome then [y] else [])

/-- The items of one container, in the search for a stack. The index counts
neither the trade item nor the item itself. -/
def searchItems (p c r : ℕ) (flags : Flags) : List ℕ → ℕ → List ℕ → Destination ⊕ (ℕ × List ℕ)
  | [], n, containers => .inr (n, containers)
  | y :: rest, n, containers =>
    if (w.player p).tradeItem = some y ∨ y = r then searchItems p c r flags rest n containers
    else if w.canStack r y then .inl { cylinder := .container c, index := n, toItem := some y, flags }
    else searchItems p c r flags rest (n + 1) (containers ++ if (w.item y).container.isSome then [y] else [])

/-- The containers of `Player::queryDestination`, one after the other. -/
def searchContainers (p r : ℕ) (flags : Flags) : ℕ → List ℕ → Option Destination
  | 0, _ => none
  | _, [] => none
  | fuel + 1, c :: containers =>
    if flags.ignoreAutoStack || !w.isStackable rules r then
      -- every index that is tried gets the same answer
      if w.size c ≠ w.capacity c ∧
          w.containerQueryAdd rules c (w.size c) r (w.item r).count flags false = .noError then
        some { cylinder := .container c, index := w.size c, flags }
      else searchContainers p r flags fuel (containers ++ (w.itemlist c).filter fun y => (w.item y).container.isSome)
    else match w.searchItems p c r flags (w.itemlist c) 0 [] with
      | .inl d => some d
      | .inr (n, subContainers) =>
        if n < w.capacity c ∧ w.containerQueryAdd rules c n r (w.item r).count flags false = .noError then
          some { cylinder := .container c, index := n, flags }
        else searchContainers p r flags fuel (containers ++ subContainers)

/-- `Player::queryDestination`. -/
def playerQueryDestination (p : ℕ) (index : ℤ) (toItem : Option ℕ) (r : ℕ) (flags : Flags) : Destination :=
  let this : Destination := { cylinder := .player p, index, flags }
  if index = 0 ∨ index = whereEver then
    match w.searchSlots rules p r flags slots [] with
    | .inl d => d
    | .inr containers => (w.searchContainers rules p r flags w.depth containers).getD this
  else
    let toItem := (w.getInventoryItem p index).or toItem
    match toItem.bind w.toCylinder with
    | some sub => { this with cylinder := sub, index := whereEver }
    | none => { this with toItem }

/-- `Tile::queryDestination`. -/
def tileQueryDestination (t : ℕ) (index : ℤ) (flags : Flags) : Destination :=
  match (w.tile t).floorChange with
  | none => { cylinder := .tile t, index, toItem := (w.tile t).downItems.head?, flags }
  | some t' =>
    { cylinder := .tile t', index, toItem := (w.tile t').downItems.head?
      flags := { flags with noLimit := true } }

def queryDestination (r : ℕ) (d : Destination) : Destination :=
  match d.cylinder with
  | .container c => w.containerQueryDestination rules c d.index d.toItem r d.flags
  | .player p => w.playerQueryDestination rules p d.index d.toItem r d.flags
  | .tile t => w.tileQueryDestination t d.index d.flags

end World
end ForgottenServer.Things
