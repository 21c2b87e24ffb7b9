import ForgottenServer.Lib.Binary64
import ForgottenServer.Lib.Run
import ForgottenServer.Lib.Table
import Mathlib.Algebra.BigOperators.Fin
import Mathlib.Algebra.BigOperators.Group.Finset.Piecewise
import Mathlib.Data.Fintype.Prod
import Mathlib.Data.Fintype.Option

/-! # Market offers

The table `market_offers`, the bank balances and what lies in the depot chests
and inboxes, as `playerCreateMarketOffer`, `playerCancelMarketOffer`,
`playerAcceptMarketOffer` and the two phases of the expiry change them: the
SELECT of `checkExpiredOffers` runs on the database thread, and the rows it
found are handed to `processExpiredOffers` later. Items are counted, not
placed: what the search through chest and inbox meets is part of a visit.
Queries succeed; a balance is the one in memory or, offline, the stored one. -/
namespace ForgottenServer.Market.Offers
open ForgottenServer.Lib.Run ForgottenServer.Lib.Binary64
open ForgottenServer.Lib

/-- The fields of `ItemType` the market reads. -/
structure ItemType where
  id : ℕ
  wareId : ℕ
  stackable : Bool
  pickupable : Bool
  /-- `group == ITEM_GROUP_DEPRECATED` -/
  deprecated : Bool
  /-- a depot, container, teleport, magic field, door, trash holder, mailbox or bed -/
  special : Bool
  deriving DecidableEq, Repr

/-- `Item::items` and the configuration. -/
structure World where
  types : ℕ → ItemType
  /-- a slot of the table that was not loaded has id 0 -/
  types_id : ∀ i, (types i).id = i ∨ (types i).id = 0
  /-- `clientIdToServerIdMap.getServerId` -/
  serverId : ℕ → ℕ
  marketPremium : Bool
  maxMarketOffers : ℕ
  marketOfferDuration : ℤ

def World.getItemIdByClientId (w : World) (spriteId : ℕ) : ItemType :=
  if 100 ≤ spriteId ∧ w.serverId spriteId ≠ 0 then w.types (w.serverId spriteId) else w.types 0

/-- The id of the item `Item::CreateItem` makes, if it makes one. -/
def World.createItem (w : World) (type : ℕ) : Option ℕ :=
  let it := w.types type
  if it.deprecated then none
  else if it.id = 0 then none
  else if it.special then some type
  else if 2210 ≤ it.id ∧ it.id ≤ 2212 then some (type - 3)
  else if it.id = 2215 ∨ it.id = 2216 then some (type - 2)
  else if 2202 ≤ it.id ∧ it.id ≤ 2206 then some (type - 37)
  else if it.id = 2640 then some 6132
  else if it.id = 6301 then some 6300
  else if it.id = 18528 then some 18408
  else some type

inductive MarketAction
  | buy | sell
  deriving DecidableEq, Repr

/-- `MARKETACTION_BUY` and `MARKETACTION_SELL` are the bytes 0 and 1. -/
def MarketAction.ofByte : ℕ → Option MarketAction
  | 0 => some .buy
  | 1 => some .sell
  | _ => none

/-- A row of `market_offers`. -/
structure Offer (P : Type*) where
  id : ℕ
  playerId : P
  type : MarketAction
  itemId : ℕ
  amount : ℕ
  price : ℕ
  created : ℤ
  deriving DecidableEq, Repr

/-- A player's inbox, or his depot chest in one of the depots. -/
abbrev Box (P D : Type*) := P × Option D

/-- An item met by the search of `getMarketItemList` that is not a container
with something in it, or one of an odd size, and has market attributes. -/
structure Found (P D : Type*) where
  box : Box P D
  itemId : ℕ
  itemCount : ℕ
  deriving DecidableEq, Repr

/-- A player at the market, with what the search through his depot chest and
his inbox meets, in order. -/
structure Visit (P D : Type*) where
  player : P
  online : Bool := true
  isInMarket : Bool := true
  isPremium : Bool := true
  depotChest : Option D
  walk : List (Found P D)

abbrev Held (P D : Type*) := Box P D → ℕ → ℕ

structure MarketState (P D : Type*) where
  offers : List (Offer P)
  nextId : ℕ
  bankBalance : P → ℕ
  held : Held P D
  /-- the rows of each expiry SELECT that was not yet processed -/
  pending : List (List (Offer P))
  /-- the creation fees charged so far -/
  fees : ℕ

variable {P D : Type*} [DecidableEq P] [DecidableEq D]

def Held.add (h : Held P D) (b : Box P D) (i n : ℕ) : Held P D :=
  fun b' i' => if b' = b ∧ i' = i then h b' i' + n else h b' i'

def Held.sub (h : Held P D) (b : Box P D) (i n : ℕ) : Held P D :=
  fun b' i' => if b' = b ∧ i' = i then h b' i' - n else h b' i'

/-- The walk meets items that are there: in the chest or the inbox, each in a
stack of its own, not more of a kind than the box holds. -/
def Visit.Sees (w : World) (v : Visit P D) (h : Held P D) : Prop :=
  ∀ f ∈ v.walk, (f.box = (v.player, none) ∨ v.depotChest.isSome ∧ f.box = (v.player, v.depotChest)) ∧
    0 < f.itemCount ∧ f.itemCount ≤ 255 ∧ ((w.types f.itemId).stackable = false → f.itemCount = 1) ∧
    ((v.walk.filter fun g => g.box = f.box ∧ g.itemId = f.itemId).map Found.itemCount).sum ≤ h f.box f.itemId

instance (w : World) (v : Visit P D) (h : Held P D) : Decidable (v.Sees w h) :=
  inferInstanceAs (Decidable (∀ f ∈ v.walk, _))

/-- The loop of `Game::getMarketItemList` over what it meets; `count` stays
below 2 ^ 16. -/
def getMarketItemList (w : World) (wareId sufficientCount : ℕ) :
    List (Found P D) → ℕ → List (Found P D) → List (Found P D)
  | [], _, _ => []
  | f :: walk, count, itemList =>
    if (w.types f.itemId).wareId ≠ wareId then
      getMarketItemList w wareId sufficientCount walk count itemList
    else if sufficientCount ≤ count + f.itemCount then f :: itemList
    else getMarketItemList w wareId sufficientCount walk (count + f.itemCount) (f :: itemList)

/-- Take `tmpAmount` units out of the stacks found. -/
def removeStacks (h : Held P D) : List (Found P D) → ℕ → Held P D
  | [], _ => h
  | f :: itemList, tmpAmount =>
    let removeCount := min tmpAmount f.itemCount
    let h := h.sub f.box f.itemId removeCount
    if tmpAmount - removeCount = 0 then h else removeStacks h itemList (tmpAmount - removeCount)

def removeItems (h : Held P D) (it : ItemType) (itemList : List (Found P D)) (amount : ℕ) : Held P D :=
  if it.stackable then removeStacks h itemList amount
  else itemList.foldl (fun h f => h.sub f.box f.itemId f.itemCount) h

/-- `internalAddItem` of a new item to an inbox with FLAG_NOLIMIT: an inbox is
locked, so nothing is stacked, and it refuses only what cannot be picked up. -/
def addToInbox (w : World) (h : Held P D) (p : P) (type count : ℕ) : Option (Held P D) :=
  match w.createItem type with
  | none => none
  | some i => if (w.types i).pickupable then some (h.add (p, none) i count) else none

/-- The loop that gives stacks of 100; it ends before the fuel does. -/
def addStacks (w : World) (p : P) (type : ℕ) : ℕ → Held P D → ℕ → Held P D
  | 0, h, _ => h
  | fuel + 1, h, tmpAmount =>
    if tmpAmount = 0 then h
    else
      let stackCount := min 100 tmpAmount
      match addToInbox w h p type stackCount with
      | none => h
      | some h => addStacks w p type fuel h (tmpAmount - stackCount)

def addSingles (w : World) (p : P) (type : ℕ) : ℕ → Held P D → Held P D
  | 0, h => h
  | n + 1, h =>
    match addToInbox w h p type 1 with
    | none => h
    | some h => addSingles w p type n h

def giveItems (w : World) (h : Held P D) (p : P) (it : ItemType) (amount : ℕ) : Held P D :=
  if it.stackable then addStacks w p it.id amount h amount else addSingles w p it.id amount h

def credit (bank : P → ℕ) (p : P) (n : ℕ) : P → ℕ :=
  Function.update bank p ((bank p + n) % 2 ^ 64)

def debit (bank : P → ℕ) (p : P) (n : ℕ) : P → ℕ := Function.update bank p (bank p - n)

/-- `(price / 100.) * amount`, kept between 20 and 1000. -/
def marketFee (price amount : ℕ) : ℕ :=
  let fee := (((Double.ofNat price).div (Double.ofNat 100)).mul (Double.ofNat amount)).toUInt64
  if fee < 20 then 20 else if 1000 < fee then 1000 else fee

/-! ## The table -/

/-- `IOMarket::createOffer`. -/
def MarketState.createOffer (s : MarketState P D) (p : P) (action : MarketAction) (itemId amount price : ℕ)
    (now : ℤ) : MarketState P D :=
  { s with
    offers := s.offers ++ [⟨s.nextId, p, action, itemId, amount, price, now⟩]
    nextId := s.nextId + 1 }

/-- `IOMarket::deleteOffer`. -/
def MarketState.deleteOffer (s : MarketState P D) (id : ℕ) : MarketState P D :=
  { s with offers := Table.delete Offer.id id s.offers }

/-- `IOMarket::acceptOffer`. -/
def MarketState.acceptOffer (s : MarketState P D) (id amount : ℕ) : MarketState P D :=
  { s with offers := Table.update Offer.id id (fun o => { o with amount := o.amount - amount }) s.offers }

/-- `IOMarket::getOfferByCounter`: the date is computed in 32 bits. -/
def MarketState.getOfferByCounter (w : World) (s : MarketState P D) (timestamp : ℤ) (counter : ℕ) : Option (Offer P) :=
  let created := (timestamp - w.marketOfferDuration).bmod (2 ^ 32)
  s.offers.find? fun o => o.created = created ∧ o.id % 65536 = counter

/-- `IOMarket::getPlayerOfferCount`. -/
def MarketState.getPlayerOfferCount (s : MarketState P D) (p : P) : ℕ :=
  s.offers.countP fun o => o.playerId = p

/-! ## The operations -/

def World.offeredType (w : World) (spriteId : ℕ) : ItemType :=
  w.getItemIdByClientId (w.getItemIdByClientId spriteId).wareId

/-- `Game::playerCreateMarketOffer`. -/
def playerCreateMarketOffer (w : World) (s : MarketState P D) (v : Visit P D)
    (type spriteId amount price : ℕ) (now : ℤ) : MarketState P D :=
  if amount = 0 ∨ 64000 < amount then s
  else if price = 0 ∨ 999999999 < price then s
  else match MarketAction.ofByte type with
    | none => s
    | some action =>
      if !v.online || !v.isInMarket then s
      else if w.marketPremium && !v.isPremium then s
      else
        let itt := w.getItemIdByClientId spriteId
        if itt.id = 0 ∨ itt.wareId = 0 then s
        else
          let it := w.offeredType spriteId
          if it.id = 0 ∨ it.wareId = 0 then s
          else if !it.stackable ∧ 2000 < amount then s
          else if w.maxMarketOffers ≠ 0 ∧ w.maxMarketOffers ≤ s.getPlayerOfferCount v.player then s
          else
            let fee := marketFee price amount
            match action with
            | .sell =>
              if s.bankBalance v.player < fee then s
              else if v.depotChest.isNone then s
              else
                let itemList := getMarketItemList w it.wareId amount v.walk 0 []
                if itemList.isEmpty then s
                else
                  { s with
                    held := removeItems s.held it itemList amount
                    bankBalance := debit s.bankBalance v.player fee
                    fees := s.fees + fee : MarketState P D }.createOffer v.player .sell it.id amount price now
            | .buy =>
              let totalPrice := price * amount + fee
              if s.bankBalance v.player < totalPrice then s
              else
                { s with
                  bankBalance := debit s.bankBalance v.player totalPrice
                  fees := s.fees + fee : MarketState P D }.createOffer v.player .buy it.id amount price now

/-- `Game::playerCancelMarketOffer`. -/
def playerCancelMarketOffer (w : World) (s : MarketState P D) (v : Visit P D) (timestamp : ℤ)
    (counter : ℕ) : MarketState P D :=
  if !v.online || !v.isInMarket then s
  else match s.getOfferByCounter w timestamp counter with
    | none => s
    | some offer =>
      if offer.playerId ≠ v.player then s
      else match offer.type with
        | .buy =>
          { s with bankBalance := credit s.bankBalance v.player (offer.price * offer.amount)
            : MarketState P D }.deleteOffer offer.id
        | .sell =>
          let it := w.types offer.itemId
          if it.id = 0 then s
          else { s with held := giveItems w s.held v.player it offer.amount
            : MarketState P D }.deleteOffer offer.id

/-- `Game::playerAcceptMarketOffer`. -/
def playerAcceptMarketOffer (w : World) (s : MarketState P D) (v : Visit P D) (timestamp : ℤ)
    (counter amount : ℕ) : MarketState P D :=
  if amount = 0 ∨ 64000 < amount then s
  else if !v.online || !v.isInMarket then s
  else match s.getOfferByCounter w timestamp counter with
    | none => s
    | some offer =>
      if offer.amount < amount then s
      else
        let it := w.types offer.itemId
        if it.id = 0 then s
        else
          let totalPrice := offer.price * amount
          let finish (s : MarketState P D) : MarketState P D :=
            if offer.amount - amount = 0 then s.deleteOffer offer.id
            else s.acceptOffer offer.id amount
          match offer.type with
          | .buy =>
            if v.depotChest.isNone then s
            else
              let itemList := getMarketItemList w it.wareId amount v.walk 0 []
              if itemList.isEmpty then s
              else finish { s with
                bankBalance := credit s.bankBalance v.player totalPrice
                held := giveItems w (removeItems s.held it itemList amount) offer.playerId it amount }
          | .sell =>
            if s.bankBalance v.player < totalPrice then s
            else finish { s with
              bankBalance := credit (debit s.bankBalance v.player totalPrice) offer.playerId totalPrice
              held := giveItems w s.held v.player it amount }

/-- The SELECT of `IOMarket::checkExpiredOffers`. -/
def checkExpiredOffers (s : MarketState P D) (lastExpireDate : ℤ) : MarketState P D :=
  { s with pending := s.pending ++ [s.offers.filter fun o => o.created ≤ lastExpireDate] }

/-- One turn of the loop of `IOMarket::processExpiredOffers`. -/
def processRow (w : World) (s : MarketState P D) (row : Offer P) : MarketState P D :=
  -- moveOfferToHistory fails when the offer is gone
  if (Table.lookup Offer.id row.id s.offers).isNone then s
  else
    let s := s.deleteOffer row.id
    match row.type with
    | .sell =>
      let itemType := w.types row.itemId
      if itemType.id = 0 then s
      else { s with held := giveItems w s.held row.playerId itemType row.amount }
    | .buy => { s with bankBalance := credit s.bankBalance row.playerId (row.price * row.amount) }

/-- `IOMarket::processExpiredOffers` on the `k`-th result that waits. -/
def processExpiredOffers (w : World) (s : MarketState P D) (k : ℕ) : MarketState P D :=
  match s.pending[k]? with
  | none => s
  | some rows => rows.foldl (processRow w) { s with pending := s.pending.eraseIdx k }

inductive Step (P D : Type*)
  | create (v : Visit P D) (type spriteId amount price : ℕ) (now : ℤ)
  | cancel (v : Visit P D) (timestamp : ℤ) (counter : ℕ)
  | accept (v : Visit P D) (timestamp : ℤ) (counter amount : ℕ)
  | select (lastExpireDate : ℤ)
  | expire (k : ℕ)

/-- A step; a visit that does not see what is there does not happen. -/
def step (w : World) (s : MarketState P D) : Step P D → MarketState P D
  | .create v type spriteId amount price now =>
    if v.Sees w s.held then playerCreateMarketOffer w s v type spriteId amount price now else s
  | .cancel v timestamp counter => playerCancelMarketOffer w s v timestamp counter
  | .accept v timestamp counter amount =>
    if v.Sees w s.held then playerAcceptMarketOffer w s v timestamp counter amount else s
  | .select lastExpireDate => checkExpiredOffers s lastExpireDate
  | .expire k => processExpiredOffers w s k

end ForgottenServer.Market.Offers
