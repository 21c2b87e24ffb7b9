import ForgottenServer.Lib.Addresses
import ForgottenServer.Npc.Banker

/-! # Coins that are put into an inventory

`Game::addMoney` on a player, through `Game::internalAddItem`, `Player::queryDestination`
and `Player::queryMaxCount`, for stacks of coins. A stack of coins with attributes of its
own equals no other and is an `other` thing here. The slots are counted from zero; all
coins weigh the same, and weights are natural numbers.

The world of things and cylinders in `Things` has these functions for all items, and there
the amounts are traced. Here an inventory is a tree, in which free slots can be counted;
the two embeddings of the source stand side by side. -/
namespace ForgottenServer.Money.Carry
open ForgottenServer.Lib.Bags ForgottenServer.Lib.Binary64
open ForgottenServer.Things (Coin)

inductive Thing
  | coins (coin : Coin) (count : ℕ) (inTrade : Bool)
  | container (capacity weight : ℕ) (inTrade : Bool)
  | other (weight : ℕ) (inTrade : Bool)
  deriving DecidableEq, Repr

/-- It is the player's `tradeItem`. -/
def Thing.inTrade : Thing → Bool
  | .coins _ _ inTrade | .container _ _ inTrade | .other _ inTrade => inTrade

/-- The weight of a coin in `items.xml`. -/
def coinWeight : ℕ := 10

/-- `Item::getWeight`, without what is in a container. -/
def Thing.getWeight : Thing → ℕ
  | .coins _ count _ => coinWeight * max 1 count
  | .container _ weight _ | .other weight _ => weight

/-- The coins of one kind in a stack. -/
def Thing.units (coin : Coin) : Thing → ℕ
  | .coins c count _ => if c = coin then count else 0
  | _ => 0

def Thing.stackRoom (coin : Coin) : Thing → ℕ
  | .coins c count _ => if c = coin then 100 - count else 0
  | _ => 0

/-- `updateThing` with `n` coins more. -/
def Thing.grow (n : ℕ) : Thing → Thing
  | .coins c count inTrade => .coins c (count + n) inTrade
  | x => x

abbrev Slots := List (Option (Node Thing))

def Slots.total (f : Thing → ℕ) (slots : Slots) : ℕ := (slots.map fun a => a.elim 0 (Node.total f)).sum

/-- What else decides whether a player can wear coins. -/
structure Rules where
  /-- the rules of the slot and the move events let the slot have so many coins -/
  belongs : Slots → ℕ → Coin → ℕ → Bool
  /-- the move events have no objection to coins in no slot at all -/
  unplaced : Coin → Bool

structure Player where
  slots : Slots
  capacity : ℕ
  inventoryWeight : ℕ
  cannotPickupItem : Bool := false
  hasInfiniteCapacity : Bool := false

namespace Player
variable (rules : Rules) (p : Player) (coin : Coin) (count : ℕ)

/-! ## Queries -/

def getFreeCapacity : ℕ :=
  if p.cannotPickupItem then 0
  else if p.hasInfiniteCapacity then 2 ^ 32 - 1
  else p.capacity - p.inventoryWeight

/-- `Player::hasCapacity` for coins that the player does not carry. -/
def hasCapacity : Bool :=
  if p.cannotPickupItem then false
  else if p.hasInfiniteCapacity then true
  else coinWeight * count ≤ p.getFreeCapacity

/-- `Player::queryAdd` for a slot. -/
def slotQueryAdd (slot : ℕ) : Bool :=
  rules.belongs p.slots slot coin count && p.hasCapacity count &&
    match p.slots[slot]? with
    | some (some (.coins c _ _, _)) => c = coin
    | some (some _) => false
    | _ => true

def listRoom : Bag Thing → ℕ
  | .nil => 0
  | .cons x _ rest => x.stackRoom coin + listRoom rest

/-- `Container::queryMaxCount` for a container and all that are in it. -/
def containerMaxCount : Node Thing → ℕ
  | (.container capacity _ _, inside) =>
    (capacity - inside.width) * 100 + (if p.hasCapacity count then listRoom coin inside else 0) + innerMaxCount inside
  | _ => 0
where
  innerMaxCount : Bag Thing → ℕ
  | .nil => 0
  | .cons (.container capacity _ _) inside rest =>
    (capacity - inside.width) * 100 + (if p.hasCapacity count then listRoom coin inside else 0) +
      innerMaxCount inside + innerMaxCount rest
  | .cons _ _ rest => innerMaxCount rest

/-- What a slot adds to `maxQueryCount`. -/
def slotMaxCount (slot : ℕ) : Option (Node Thing) → ℕ
  | none => if p.slotQueryAdd rules coin count slot then 100 else 0
  | some (.coins c n _, _) =>
    if c = coin ∧ n < 100 ∧ p.slotQueryAdd rules coin (100 - n) slot then 100 - n else 0
  | some a => p.containerMaxCount coin count a

/-- `Player::queryMaxCount` for any place. -/
def queryMaxCount : ℕ := (p.slots.mapIdx (p.slotMaxCount rules coin count)).sum

/-! ## The search -/

/-- What `Player::queryDestination` finds: with a stack to add to, its count. -/
inductive Place
  | slot (slot : ℕ)
  | slotStack (slot toCount : ℕ)
  | inside (slot : ℕ) (path : List ℕ)
  | stack (slot : ℕ) (path : List ℕ) (index toCount : ℕ)
  | nowhere
  deriving DecidableEq, Repr

/-- A container that waits for its visit. -/
structure Visit where
  slot : ℕ
  path : List ℕ
  capacity : ℕ
  inside : Bag Thing

def visits (slot : ℕ) (path : List ℕ) : Thing → Bag Thing → List Visit
  | .container capacity _ _, inside => [{ slot, path, capacity, inside }]
  | _, _ => []

def stackCount? : Thing → Option ℕ
  | .coins c n _ => if c = coin ∧ n < 100 then some n else none
  | _ => none

/-- The loop over the slots: a place, or the containers that are worn. -/
def searchSlots : ℕ → Slots → List Visit → Place ⊕ List Visit
  | _, [], queue => .inr queue
  | slot, none :: rest, queue =>
    if p.slotQueryAdd rules coin count slot then .inl (.slot slot) else searchSlots (slot + 1) rest queue
  | slot, some (x, inside) :: rest, queue =>
    if x.inTrade then searchSlots (slot + 1) rest queue
    else
      match (stackCount? coin x).filter fun _ => p.slotQueryAdd rules coin count slot with
      | some toCount => .inl (.slotStack slot toCount)
      | none => searchSlots (slot + 1) rest (queue ++ visits slot [] x inside)

/-- The loop over the items of a container. The trade item is not counted. -/
def searchItems (slot : ℕ) (path : List ℕ) : Bag Thing → ℕ → ℕ → List Visit → Place ⊕ (ℕ × List Visit)
  | .nil, _, n, queue => .inr (n, queue)
  | .cons x inside rest, index, n, queue =>
    if x.inTrade then searchItems slot path rest (index + 1) n queue
    else
      match stackCount? coin x with
      | some toCount => .inl (.stack slot path index toCount)
      | none =>
        searchItems slot path rest (index + 1) (n + 1) (queue ++ visits slot (path ++ [index]) x inside)

/-- The loop over the containers. -/
def searchContainers : ℕ → List Visit → Place
  | 0, _ => .nowhere
  | _ + 1, [] => .nowhere
  | fuel + 1, v :: queue =>
    match searchItems coin v.slot v.path v.inside 0 0 [] with
    | .inl place => place
    | .inr (n, containers) =>
      if n < v.capacity ∧ p.hasCapacity count then .inside v.slot v.path
      else searchContainers fuel (queue ++ containers)

/-- More than there are things in the slots. -/
def searchFuel : ℕ := p.slots.total (fun _ => 1) + 1

/-- `Player::queryDestination` for coins that can go anywhere. -/
def queryDestination : Place :=
  match p.searchSlots rules coin count 0 p.slots [] with
  | .inl place => place
  | .inr queue => p.searchContainers coin count p.searchFuel queue

/-- What the cylinder of the place answers. -/
def placeQueryAdd : Place → Bool
  | .slot slot | .slotStack slot _ => p.slotQueryAdd rules coin count slot
  | .inside _ _ | .stack _ _ _ _ => p.hasCapacity count
  | .nowhere => rules.unplaced coin && p.hasCapacity count

/-! ## Adding -/

def updateInventoryWeight : Player := { p with inventoryWeight := p.slots.total Thing.getWeight }

/-- What a container at an address in a slot holds is changed. -/
def changeInside (slot : ℕ) (path : List ℕ) (h : Bag Thing → Bag Thing) : Player :=
  { p with slots := p.slots.modify slot (Option.map (Node.modifyAt h path)) }

/-- New coins at a place; nothing happens where there is none. -/
def addThing : Place → Player
  | .slot slot => { p with slots := p.slots.set slot (some (.coins coin count false, .nil)) }
  | .inside slot path => p.changeInside slot path (Bag.cons (.coins coin count false) .nil)
  | _ => p

/-- More coins in the stack at a place. -/
def updateThing (n : ℕ) : Place → Player
  | .slotStack slot _ =>
    { p with slots := p.slots.modify slot (Option.map fun a => (a.1.grow n, a.2)) }
  | .stack slot path index _ =>
    p.changeInside slot path (Bag.modify (fun a => (a.1.grow n, a.2)) index)
  | _ => p

end Player

/-- What a call of `internalAddItem` returns, and the coins that it neither places nor refuses. -/
structure Added where
  noError : Bool
  player : Player
  lost : ℕ := 0

/-- `Game::internalAddItem`; what a stack leaves over is added by another call. -/
def addRounds (rules : Rules) (coin : Coin) : ℕ → Player → ℕ → Added
  | 0, p, _ => { noError := false, player := p }
  | fuel + 1, p, count =>
    let place := p.queryDestination rules coin count
    let maxQueryCount := p.queryMaxCount rules coin count
    if ¬ p.placeQueryAdd rules coin count place ∨ maxQueryCount < count then { noError := false, player := p }
    else
      match place with
      | .slotStack _ toCount | .stack _ _ _ toCount =>
        let m := min count maxQueryCount
        let n := min (100 - toCount) m
        let p := p.updateThing n place
        if 0 < m - n then
          let remainder := addRounds rules coin fuel p (m - n)
          { noError := true, player := remainder.player
            lost := if remainder.noError then remainder.lost else m - n }
        else { noError := true, player := p.updateInventoryWeight }
      | .slot _ | .inside _ _ =>
        { noError := true, player := (p.addThing coin count place).updateInventoryWeight }
      -- `Player::addThing` does nothing for an index that is no slot
      | .nowhere => { noError := true, player := p, lost := count }

/-- The player, and the coins that lie on the ground or are nowhere. -/
structure Outcome where
  player : Player
  dropped : List (Coin × ℕ) := []
  lost : ℕ := 0

def addStack (rules : Rules) (o : Outcome) (coin : Coin) (count : ℕ) : Outcome :=
  let added := addRounds rules coin (count + 1) o.player count
  if added.noError then { o with player := added.player, lost := o.lost + added.lost }
  else { o with dropped := (coin, count) :: o.dropped }

/-- The stacks of a number of coins, a hundred in each but the last. -/
def coinStacks : ℕ → ℕ → List ℕ
  | 0, _ => []
  | fuel + 1, n => if n = 0 then [] else min 100 n :: coinStacks fuel (n - min 100 n)

/-- The count of a stackable item that `Item::CreateItem` makes. -/
def createCount (n : ℕ) : ℕ := if n % 2 ^ 16 = 0 then 1 else n % 2 ^ 16 % 2 ^ 8

/-- `Game::addMoney`; the products are computed in 32 bits. -/
def addMoney (rules : Rules) (o : Outcome) (money : ℕ) : Outcome :=
  if money = 0 then o
  else
    let crystalCoins := money / 10000 % 2 ^ 32
    let money := money - crystalCoins * 10000 % 2 ^ 32
    let o := (coinStacks crystalCoins crystalCoins).foldl (fun o n => addStack rules o .crystal (createCount n)) o
    let platinumCoins := money / 100 % 2 ^ 16
    let o := if platinumCoins ≠ 0 then addStack rules o .platinum (createCount platinumCoins) else o
    let money := if platinumCoins ≠ 0 then money - platinumCoins * 100 else money
    if money ≠ 0 then addStack rules o .gold (createCount money) else o

/-! ## The check -/

/-- `getEmptySlots(true)` of a container, in 32 bits. -/
def emptySlots (capacity : ℕ) (inside : Bag Thing) : ℤ :=
  (((capacity : ℤ) - inside.width) + inner inside) % 2 ^ 32
where
  inner : Bag Thing → ℤ
  | .nil => 0
  | .cons (.container capacity _ _) inside rest => (capacity - inside.width) + inner inside + inner rest
  | .cons _ _ rest => inner rest

namespace Player
variable (p : Player)

/-- `getSlotItem(CONST_SLOT_BACKPACK)` and its `getEmptySlots(true)`, if it is a container. -/
def backpackSlots : Option ℤ :=
  match p.slots[2]? with
  | some (some (Thing.container capacity _ _, inside)) => some (emptySlots capacity inside)
  | _ => none

/-- What `canCarryMoney` asks about the player. -/
def scene : Npc.Banker.Scene Unit where
  player := 0
  getFreeCapacity := .fin p.getFreeCapacity
  emptySlots := p.backpackSlots.map fun n : ℤ => .fin n
  weight := fun _ => coinWeight
  getName := ""
  online := fun _ => true
  getPlayerDatabaseInfo := fun _ => none

/-- `Player.canCarryMoney`. -/
def canCarryMoney (amount : ℕ) : Bool := Npc.Banker.canCarryMoney p.scene (.fin amount) = some true

end Player
end ForgottenServer.Money.Carry
