import ForgottenServer.Things.World

/-! # The weight that containers remember

Every container remembers the weight of what is in it and tells its parent of every
change. Here the containers of one player or tile are a tree; a container is named by
the way that leads to it. Weights have 32 bits. -/
namespace ForgottenServer.Weights
open ForgottenServer.Decay (Item)
open ForgottenServer.Things (ItemType ContainerKind)

/-- An item, or a container with its list and the weight that it remembers. -/
inductive Tree
  | item (x : Item)
  | container (x : Item) (kind : ContainerKind) (maxSize totalWeight : ℕ) (itemlist : List Tree)

/-- The item types and `maxItems` of the containers among them. -/
structure Types where
  items : ℕ → ItemType
  maxItems : ℕ → ℕ := fun _ => 8

namespace Tree

def self : Tree → Item
  | .item x => x
  | .container x _ _ _ _ => x

def kind? : Tree → Option ContainerKind
  | .item _ => none
  | .container _ kind _ _ _ => some kind

end Tree

section Model
variable (types : Types)

def decayTypes (id : ℕ) : Decay.ItemType := (types.items id).toItemType

def isStackable (x : Item) : Bool := (types.items x.id).stackable

def getBaseWeight (x : Item) : ℕ :=
  match x.attr.weight with
  | some n => (n % 2 ^ 32).toNat
  | none => (types.items x.id).weight

/-- `Item::getWeight`. -/
def ownWeight (x : Item) : ℕ :=
  (if isStackable types x then getBaseWeight types x * max 1 x.count else getBaseWeight types x) % 2 ^ 32

/-- `getWeight` of an item or a container. -/
def getWeight : Tree → ℕ
  | .item x => ownWeight types x
  | .container x _ _ totalWeight _ => (ownWeight types x + totalWeight) % 2 ^ 32

def addWeight (totalWeight : ℕ) (diff : ℤ) : ℕ := ((totalWeight + diff) % 2 ^ 32).toNat

/-! ## What a call does to the list of a container

Each gives the new list and the difference that it passes to `updateItemWeight`. -/

abbrev Change := ℕ → List Tree → Option (List Tree × ℤ)

def addThing (index : ℤ) (thing : Tree) : Change := fun capacity l =>
  if index ≥ capacity then none else some (thing :: l, getWeight types thing)

def internalAddThing (thing : Tree) : Change := fun _ l => some (thing :: l, getWeight types thing)

/-- Also what `unserializeItemNode` does with the items it has read. -/
def addItemBack (item : Tree) : Change := fun _ l => some (l ++ [item], getWeight types item)

def mapSelf (f : Item → Item) : Tree → Tree
  | .item x => .item (f x)
  | .container x kind maxSize totalWeight l => .container (f x) kind maxSize totalWeight l

def updateItem (f : Item → Item) (index : ℕ) (l : List Tree) : Option (List Tree × ℤ) :=
  (l[index]?).map fun item =>
    (l.set index (mapSelf f item), -(getWeight types item : ℤ) + getWeight types (mapSelf f item))

def updateThing (index itemId count : ℕ) : Change := fun _ l =>
  updateItem types (fun x => (x.setID (decayTypes types) itemId).setSubType (decayTypes types) count) index l

def replaceThing (index : ℕ) (item : Tree) : Change := fun _ l =>
  (l[index]?).map fun replacedItem =>
    (l.set index item, -(getWeight types replacedItem : ℤ) + getWeight types item)

def removeThing (index count : ℕ) : Change := fun _ l =>
  match l[index]? with
  | none => none
  | some item =>
    if isStackable types item.self ∧ count ≠ item.self.count then
      updateItem types (fun x => { x with count := (x.count - count) % 2 ^ 8 }) index l
    else some (l.eraseIdx index, -(getWeight types item : ℤ))

/-! ## `updateItemWeight` -/

/-- Who hears of a difference next: the container around, or the one around that. -/
inductive Call
  | parent (diff : ℤ)
  | overParent (diff : ℤ)

/-- `getParentContainer` of a container; depot chests and inboxes name the parent of their
locker. -/
def callParent (kind : ContainerKind) (diff : ℤ) : Call :=
  if kind = .depotChest ∨ kind = .inbox then .overParent diff else .parent diff

/-- The change of the container at the end of the way, and what it tells those around it. -/
def change (f : Change) : List ℕ → Tree → Option (Tree × Call)
  | _, .item _ => none
  | [], .container x kind maxSize totalWeight l =>
    (f maxSize l).map fun (l, diff) =>
      (.container x kind maxSize (addWeight totalWeight diff) l, callParent kind diff)
  | k :: way, .container x kind maxSize totalWeight l =>
    match l[k]? with
    | none => none
    | some t =>
      match change f way t with
      | none => none
      | some (t, .parent diff) =>
        some (.container x kind maxSize (addWeight totalWeight diff) (l.set k t), callParent kind diff)
      | some (t, .overParent diff) => some (.container x kind maxSize totalWeight (l.set k t), .parent diff)

def follow : List ℕ → Tree → Option Tree
  | [], t => some t
  | _ :: _, .item _ => none
  | k :: way, .container _ _ _ _ l => (l[k]?).bind (follow way)

/-! ## New items -/

/-- The class that `CreateItem` picks. -/
def asTree (x : Item) (type : ItemType) (maxItems : ℕ) : Tree :=
  if type.type = .depot then .container x .depotLocker maxItems 0 []
  else if type.group = .container then .container x .plain maxItems 0 []
  else .item x

def createItem (id count : ℕ) : Option Tree :=
  (Item.create (decayTypes types) id count).map fun x => asTree x (types.items id) (types.maxItems id)

/-- `Item::clone`. -/
def cloneItem (x : Item) : Option Tree :=
  (x.copy (decayTypes types)).map fun y => asTree y (types.items x.id) (types.maxItems x.id)

mutual

/-- `clone`. The items of a container are cloned, and its weight is copied. -/
def clone : Tree → Option Tree
  | .item x => cloneItem types x
  | .container x _ _ totalWeight l =>
    match cloneItem types x with
    | some (.container y kind maxSize _ _) => (cloneAll l).map fun l => .container y kind maxSize totalWeight l
    | _ => none

def cloneAll : List Tree → Option (List Tree)
  | [] => some []
  | t :: l =>
    match clone t, cloneAll l with
    | some t, some l => some (t :: l)
    | _, _ => none

end

/-! ## Sequences of calls -/

/-- How a loose item is put into a container. -/
inductive Insertion
  | addThing (index : ℤ)
  | internalAddThing
  | addItemBack

def Insertion.call (thing : Tree) : Insertion → Change
  | .addThing index => Weights.addThing types index thing
  | .internalAddThing => Weights.internalAddThing types thing
  | .addItemBack => Weights.addItemBack types thing

/-- The calls on the trees of a list, which are not in each other. A container is named by
its tree and the way, an item in it by its index; a loose item is a tree of the list, and
the trees are counted without it. -/
inductive Op
  | createItem (id count : ℕ)
  /-- the constructors of `DepotChest`, `Inbox` and `StoreInbox` -/
  | special (kind : ContainerKind) (id : ℕ)
  | insert (thing tree : ℕ) (way : List ℕ) (how : Insertion)
  | updateThing (tree : ℕ) (way : List ℕ) (index itemId count : ℕ)
  | replaceThing (thing tree : ℕ) (way : List ℕ) (index : ℕ)
  | removeThing (tree : ℕ) (way : List ℕ) (index count : ℕ)
  | clone (tree : ℕ) (way : List ℕ)

def callOn (f : Change) (tree : ℕ) (way : List ℕ) (s : List Tree) : Option (List Tree) :=
  (s[tree]?).bind fun t => (change f way t).map fun (t, _) => s.set tree t

def part (tree : ℕ) (way : List ℕ) (s : List Tree) : Option Tree := (s[tree]?).bind (follow way)

/-- A call that finds nothing to do leaves the trees as they are. -/
def step (s : List Tree) : Op → List Tree
  | .createItem id count => s ++ (createItem types id count).toList
  | .special kind id => s ++ [.container (Item.new (decayTypes types) id 0) kind (types.maxItems id) 0 []]
  | .insert thing tree way how =>
    ((s[thing]?).bind fun t => callOn (how.call types t) tree way (s.eraseIdx thing)).getD s
  | .updateThing tree way index itemId count =>
    (callOn (updateThing types index itemId count) tree way s).getD s
  | .replaceThing thing tree way index =>
    ((s[thing]?).bind fun t => (callOn (replaceThing types index t) tree way (s.eraseIdx thing)).map
      (· ++ (part tree (way ++ [index]) (s.eraseIdx thing)).toList)).getD s
  | .removeThing tree way index count =>
    match part tree (way ++ [index]) s with
    | none => s
    | some item =>
      let loose := if isStackable types item.self ∧ count ≠ item.self.count then [] else [item]
      ((callOn (removeThing types index count) tree way s).map (· ++ loose)).getD s
  | .clone tree way => s ++ ((part tree way s).bind (clone types)).toList

end Model

end ForgottenServer.Weights
