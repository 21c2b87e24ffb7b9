import ForgottenServer.Decay.Item
import ForgottenServer.Lib.Bags

/-! # What a player carries

The items in the slots of a player, with what is in them, and how those of one type are
counted and removed. -/
namespace ForgottenServer.Inventory
open ForgottenServer.Lib.Bags

/-- An item; `ref` says which one it is. -/
structure Item extends Decay.Item where
  ref : ℕ
  canRemove : Bool := true

/-- The slots, from `CONST_SLOT_FIRST` to `CONST_SLOT_LAST`: an item and what is in it. -/
abbrev Slots := List (Option (Item × Bag Item))

section Model
variable (types : ℕ → Decay.ItemType)

/-- `Item::countByType`. -/
def countByType (x : Item) (subType : ℤ) : ℕ :=
  if subType = -1 ∨ subType = x.toItem.getSubType types then x.count else 0

def addCount (itemId : ℕ) (subType : ℤ) (count : UInt32) (x : Item) : UInt32 :=
  if x.id = itemId then count + UInt32.ofNat (countByType types x subType) else count

def countSlot (itemId : ℕ) (subType : ℤ) (count : UInt32) : Option (Item × Bag Item) → UInt32
  | none => count
  | some (item, inside) =>
    (inside.breadthFirst.map Prod.fst).foldl (addCount types itemId subType) (addCount types itemId subType count item)

/-- `Player::getItemTypeCount`. -/
def getItemTypeCount (slots : Slots) (itemId : ℕ) (subType : ℤ) : UInt32 :=
  slots.foldl (countSlot types itemId subType) 0

/-- The items of a slot that are looked at: the item there, or those in it. -/
def searched (itemId : ℕ) (ignoreEquipped : Bool) : Option (Item × Bag Item) → List (Item × Bag Item)
  | none => []
  | some (item, inside) =>
    if !ignoreEquipped && item.id = itemId then [(item, inside)]
    else inside.breadthFirst.filter (·.1.id = itemId)

/-- The loops of `removeItemOfType`: the items that are to be removed, if there are enough. -/
def collect (subType : ℤ) (amount : UInt32) : List (Item × Bag Item) → List Item → UInt32 → Option (List Item)
  | [], _, _ => none
  | (item, _) :: rest, itemList, count =>
    let itemCount := countByType types item subType
    if itemCount = 0 then collect subType amount rest itemList count
    else if amount ≤ count + UInt32.ofNat itemCount then some (itemList ++ [item])
    else collect subType amount rest (itemList ++ [item]) (count + UInt32.ofNat itemCount)

def cutSlot (p : Item → Bool) : Option (Item × Bag Item) → Option (Item × Bag Item)
  | none => none
  | some (item, inside) => if p item then none else some (item, inside.cut p)

def updateSlot (p : Item → Bool) (g : Item → Item) : Option (Item × Bag Item) → Option (Item × Bag Item)
  | none => none
  | some (item, inside) => some (if p item then g item else item, inside.update p g)

/-- What is left of a stack; the difference is an `int32_t`, the count a `uint8_t`. -/
def takeCount (count : ℕ) (x : Item) : Item :=
  { x with count := (max 0 (Int.bmod (x.count - count) (2 ^ 32))).toNat % 2 ^ 8 }

/-- `Game::internalRemoveItem`, as far as the slots are concerned: an item that has gone with what
it was in is not in them any more. -/
def internalRemoveItem (slots : Slots) (item : Item) (count : ℕ) : Slots :=
  let stackable := (types item.id).stackable
  if count = 0 || stackable && item.count < count then slots
  else if !item.canRemove then slots
  else if stackable && count ≠ item.count then
    slots.map (updateSlot (fun x => x.ref = item.ref) (takeCount count))
  else slots.map (cutSlot fun x => x.ref = item.ref)

/-- `Game::internalRemoveItems`. -/
def internalRemoveItems (stackable : Bool) : List Item → UInt32 → Slots → Slots
  | [], _, slots => slots
  | item :: itemList, amount, slots =>
    if stackable then
      if amount.toNat < item.count then internalRemoveItem types slots item amount.toNat
      else
        internalRemoveItems stackable itemList (amount - UInt32.ofNat item.count)
          (internalRemoveItem types slots item item.count)
    else
      internalRemoveItems stackable itemList amount (internalRemoveItem types slots item item.count)

/-- `Player::removeItemOfType`. -/
def removeItemOfType (slots : Slots) (itemId : ℕ) (amount : UInt32) (subType : ℤ)
    (ignoreEquipped : Bool) : Bool × Slots :=
  if amount = 0 then (true, slots)
  else
    match collect types subType amount (slots.flatMap (searched itemId ignoreEquipped)) [] 0 with
    | some itemList =>
      (true, internalRemoveItems types (types itemId).stackable itemList amount slots)
    | none => (false, slots)

end Model

/-! ## All items -/

/-- The slots as one list. -/
def contents : Slots → Bag Item
  | [] => .nil
  | none :: slots => contents slots
  | some (item, inside) :: slots => .cons item inside (contents slots)

def matching (types : ℕ → Decay.ItemType) (itemId : ℕ) (subType : ℤ) (x : Item) : ℕ :=
  if x.id = itemId then countByType types x subType else 0

/-- No item is in two places, and the count of an item is a byte. -/
structure Carried (slots : Slots) : Prop where
  distinct : ((contents slots).nodes.map fun a => a.1.ref).Nodup
  counted : ∀ a ∈ (contents slots).nodes, a.1.count < 2 ^ 8

section Contents
variable {types : ℕ → Decay.ItemType} {itemId : ℕ} {subType : ℤ} {slots : Slots}

theorem contents_cut (p : Item → Bool) (slots : Slots) :
    contents (slots.map (cutSlot p)) = (contents slots).cut p := by
  induction slots with
  | nil => rfl
  | cons slot slots ih =>
    cases slot with
    | none => exact ih
    | some slot =>
      cases hp : p slot.1 with
      | true => simp only [List.map_cons, cutSlot, hp, if_true, contents, Bag.cut, ih]
      | false =>
        simp only [List.map_cons, cutSlot, hp, Bool.false_eq_true, if_false, contents, Bag.cut, ih]

theorem contents_update (p : Item → Bool) (g : Item → Item) (slots : Slots) :
    contents (slots.map (updateSlot p g)) = (contents slots).update p g := by
  induction slots with
  | nil => rfl
  | cons slot slots ih =>
    cases slot with
    | none => exact ih
    | some slot => simp only [List.map_cons, updateSlot, contents, Bag.update, ih]

theorem foldl_addCount (count : UInt32) (l : List Item) : l.foldl (addCount types itemId subType) count =
      count + UInt32.ofNat (l.map (matching types itemId subType)).sum := by
  induction l generalizing count with
  | nil => simp
  | cons x l ih =>
    have hadd : addCount types itemId subType count x = count + UInt32.ofNat (matching types itemId subType x) := by
      rw [addCount, matching]
      split
      · rfl
      · simp
    rw [List.foldl_cons, ih, hadd, List.map_cons, List.sum_cons, UInt32.ofNat_add, UInt32.add_assoc]

theorem countSlot_some (count : UInt32) (item : Item) (inside : Bag Item) :
    countSlot types itemId subType count (some (item, inside)) =
      count + UInt32.ofNat (matching types itemId subType item + inside.total (matching types itemId subType)) := by
  have hperm := (inside.breadthFirst_perm.map fun a => matching types itemId subType a.1).sum_eq
  have hitem : addCount types itemId subType count item = [item].foldl (addCount types itemId subType) count := rfl
  rw [countSlot, hitem, ← List.foldl_append, foldl_addCount, List.map_append, List.sum_append,
    List.map_map, Bag.total_eq_sum, ← hperm, List.map_singleton, List.sum_singleton]
  rfl

theorem getItemTypeCount_eq : getItemTypeCount types slots itemId subType =
    UInt32.ofNat ((contents slots).total (matching types itemId subType)) := by
  have hfold : ∀ count : UInt32, slots.foldl (countSlot types itemId subType) count =
      count + UInt32.ofNat ((contents slots).total (matching types itemId subType)) := by
    induction slots with
    | nil => simp [contents, Bag.total]
    | cons slot slots ih =>
      intro count
      cases slot with
      | none => exact ih count
      | some slot =>
        rw [List.foldl_cons, ih, countSlot_some, contents, Bag.total, UInt32.add_assoc, ← UInt32.ofNat_add]
  rw [getItemTypeCount, hfold, UInt32.zero_add]

end Contents
end ForgottenServer.Inventory
