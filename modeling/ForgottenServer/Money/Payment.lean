import ForgottenServer.Lib.Binary64
import ForgottenServer.Things.Add
import ForgottenServer.Things.Transform
import Mathlib.Data.List.Sort

/-! # Taking and giving money

`Game::removeMoney` and `Game::addMoney` for a player, whose coins lie in his
slots and in containers of any depth. What he has no room for goes to his tile.
A trade is closed when what is offered in it changes. -/
namespace ForgottenServer.Things
open ForgottenServer.Lib.Binary64

def goldCoin : ℕ := 2148

def platinumCoin : ℕ := 2152

def crystalCoin : ℕ := 2160

/-- `Item::getWorth`. -/
def Item.getWorth (x : Item) : ℕ :=
  if x.id = goldCoin then x.count
  else if x.id = platinumCoin then x.count * 100
  else if x.id = crystalCoin then x.count * 10000
  else 0

/-- What is known of trades and of who is near. -/
structure Trades where
  tradePartner : ℕ → Option ℕ := fun _ => none
  /-- the trade is in `TRADE_TRANSFER` -/
  transfer : ℕ → Bool := fun _ => false
  /-- who sees what lies on a tile or in a container -/
  sees : ℕ → Cylinder → Bool := fun _ _ => true

namespace World
variable (rules : Rules) (maxItems : ℕ → ℕ) (trades : Trades) (w : World)

/-! ## Trades -/

/-- Of an item in a slot only its player is told. -/
def isTold (q : ℕ) : Cylinder → Bool
  | .player p => q = p
  | c => trades.sees q c

/-- `Game::internalCloseTrade` for each of some players: his partner's trade is closed as well. -/
def closeTrades (closes : ℕ → Bool) : World :=
  let cancelled q := closes q && !trades.transfer q && !(trades.tradePartner q).any trades.transfer
  { w with
    player := fun q =>
      if cancelled q || (trades.tradePartner q).any cancelled then { w.player q with tradeItem := none }
      else w.player q }

/-- The checks of `onRemoveContainerItem` and its like, when `count` of the item
`r` leave: it is offered or lies in what is, or it leaves a container that holds
what is offered further inside. -/
def tradeClosed (c : Cylinder) (r count q : ℕ) : Bool :=
  isTold trades q c && ((w.player q).tradeItem = some r || w.isInTradeItem (w.player q).tradeItem c ||
      match c with
      | .container d => !w.isPart rules r count &&
        (w.player q).tradeItem.any fun i => w.getParent (.container i) ≠ some c && i ∈ w.contents d
      | _ => false)

/-! ## The search for coins -/

/-- The items of a list that are worth something, with their worth. -/
def worths (l : List ℕ) : List (ℕ × ℕ) :=
  (l.filter fun x => (w.item x).container.isNone && (w.item x).getWorth ≠ 0).map fun x =>
    ((w.item x).getWorth, x)

def containersOf (l : List ℕ) : List ℕ := l.filter fun x => (w.item x).container.isSome

/-- The loop over the containers. -/
def searchMoney : ℕ → List ℕ → List (ℕ × ℕ)
  | 0, _ => []
  | _, [] => []
  | fuel + 1, c :: containers =>
    w.worths (w.itemlist c) ++ searchMoney fuel (containers ++ w.containersOf (w.itemlist c))

/-- What a player has, in the order it is met. -/
def coinsOf (p : ℕ) : List (ℕ × ℕ) :=
  let l := w.children (.player p)
  w.worths l ++ w.searchMoney w.depth (w.containersOf l)

/-- `Player::getMoney`, which searches like `removeMoney`. -/
def getMoney (p : ℕ) : ℕ := ((w.coinsOf p).map Prod.fst).sum

/-- The multimap: by worth, and among equals in the order they were met. -/
def moneyMap (p : ℕ) : List (ℕ × ℕ) := (w.coinsOf p).insertionSort fun a b => a.1 ≤ b.1

/-! ## Adding -/

/-- The stack on the tile that an added one is merged with is offered in the trade of `q`. -/
def tradeMerged (t r : ℕ) (flags : Flags) (q : ℕ) : Bool :=
  let d := w.placeOf rules (.tile t) r whereEver flags
  isTold trades q d.cylinder && (w.checkPlace rules (.tile t) d r).1 = .noError &&
    (w.mergesWith rules d r).any fun y => (w.player q).tradeItem = some y

/-- A new stack goes to the player, or else to his tile. The search for a place
among what the player has passes over his own trade item, and nobody else can
offer what he has: no trade is closed there. -/
def addStack (p type count : ℕ) : Option World :=
  match w.createItem rules maxItems type count with
  | none => some w
  | some w' => do
    let added ← w'.internalAddItem rules (.player p) w.next whereEver {} false
    if added.ret = .noError then return added.world
    match (added.world.player p).tile with
    | none => return added.world
    | some t =>
      let flags : Flags := { noLimit := true }
      let dropped ← added.world.internalAddItem rules (.tile t) w.next whereEver flags false
      return dropped.world.closeTrades trades (added.world.tradeMerged rules trades t w.next flags)

/-- The loop of `addMoney`. -/
def addCrystals (p : ℕ) : ℕ → World → ℕ → Option World
  | 0, w, _ => some w
  | fuel + 1, w, crystalCoins =>
    if crystalCoins = 0 then some w
    else do
      let count := min 100 crystalCoins
      let w ← w.addStack rules maxItems trades p crystalCoin count
      addCrystals p fuel w (crystalCoins - count)

/-- `Game::addMoney`. The product with the number of crystal coins has 32 bits. -/
def addMoney (p money : ℕ) : Option World :=
  if money = 0 then some w
  else do
    let crystalCoins := money / 10000 % 2 ^ 32
    let money := money - crystalCoins * 10000 % 2 ^ 32
    let w ← addCrystals rules maxItems trades p crystalCoins w crystalCoins
    let platinumCoins := money / 100 % 2 ^ 16
    let w ← if platinumCoins ≠ 0 then w.addStack rules maxItems trades p platinumCoin platinumCoins else some w
    let money := if platinumCoins ≠ 0 then money - platinumCoins * 100 else money
    if money ≠ 0 then w.addStack rules maxItems trades p goldCoin (money % 2 ^ 16) else some w

/-! ## Removing -/

/-- `Game::internalRemoveItem` of an item of the class `Item`, which can be removed. -/
def internalRemoveItem (r count : ℕ) : World :=
  match w.getParent (.container r) with
  | none => w
  | some cylinder =>
    if w.queryRemove rules cylinder r count { ignoreNotMoveable := true } false ≠ .noError then w
    else
      let closes := w.tradeClosed rules trades cylinder r count
      ((w.removeThing rules cylinder r count).closeTrades trades closes).notify rules cylinder

/-- The loop over the multimap. -/
def removeEntries (p : ℕ) : List (ℕ × ℕ) → World → ℕ → Option World
  | [], w, _ => some w
  | (entry, item) :: moneyMap, w, money =>
    if entry < money then
      removeEntries p moneyMap (w.internalRemoveItem rules trades item (w.item item).count) (money - entry)
    else if money < entry then do
      let worth := entry / (w.item item).count
      let removeCount := ((Double.ofNat money).div (Double.ofNat worth)).ceil.toUInt32
      let w ← w.addMoney rules maxItems trades p (worth * removeCount % 2 ^ 32 - money)
      return w.internalRemoveItem rules trades item removeCount
    else some (w.internalRemoveItem rules trades item (w.item item).count)

/-- `Game::removeMoney`: the answer and the world. -/
def removeMoney (p money : ℕ) : Option (Bool × World) :=
  if money = 0 then some (true, w)
  else if ((w.coinsOf p).map Prod.fst).sum < money then some (false, w)
  else (removeEntries rules maxItems trades p (w.moneyMap p) w money).map (true, ·)

end World
end ForgottenServer.Things
