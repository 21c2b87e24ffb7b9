import ForgottenServer.Lib.Run
import ForgottenServer.Lib.Slots
import ForgottenServer.Save.Attributes
import Mathlib.Data.BitVec

/-! # The attributes in memory

`ItemAttributes` and what `Item` does with it. The attributes lie in a vector, with a
word of bits beside it; a custom map lies where its pointer says, and moves whenever the
vector or a slot of it is copied. So what an operation leaves is known up to the
address of that map, which each step names. -/
namespace ForgottenServer.Items
open ForgottenServer.Lib ForgottenServer.Lib.Wire
open ForgottenServer.Save (CustomAttribute CustomAttributeMap)
open ForgottenServer.Save.Item (toLowerCaseString)
open ForgottenServer.Decay (ItemType)

/-- `itemAttrTypes` without the zero, in the order of the bits. -/
inductive ItemAttr
  | actionId | uniqueId | description | text | date | writer | name | article | pluralName | weight
  | attack | defense | extraDefense | armor | hitChance | shootRange | owner | duration | decayState
  | corpseOwner | charges | fluidType | doorId | decayTo | wrapId | storeItem | attackSpeed
  | openContainer | custom
  deriving DecidableEq, Repr

namespace ItemAttr

def bit : ItemAttr → ℕ
  | .custom => 31
  | a => a.ctorIdx

def isStrAttrType (a : ItemAttr) : Bool :=
  a ∈ [.description, .text, .writer, .name, .article, .pluralName]

def isCustomAttrType (a : ItemAttr) : Bool := a = .custom

def isIntAttrType (a : ItemAttr) : Bool := !a.isStrAttrType && !a.isCustomAttrType

theorem bit_lt (a : ItemAttr) : a.bit < 32 := by cases a <;> decide

theorem bit_injective : Function.Injective bit := by
  intro a b h
  have hctor : ∀ a : ItemAttr, (if a.bit = 31 then .custom else ItemAttr.ofNat a.bit) = a := by
    intro a
    cases a <;> rfl
  rw [← hctor a, h, hctor b]

end ItemAttr

/-- The union in a slot. -/
inductive Value
  | integer (v : BitVec 64)
  | string (v : Bytes)
  | custom (address : BitVec 64) (map : CustomAttributeMap)
  deriving DecidableEq, Repr

namespace Value

/-- `value.integer`, whatever it is that lies there. Of a string no one reads it. -/
def word : Value → BitVec 64
  | .integer v => v
  | .string _ => 0
  | .custom address _ => address

/-- `*value.string` -/
def text : Value → Bytes
  | .string v => v
  | _ => []

def mapCustom (f : CustomAttributeMap → CustomAttributeMap) : Value → Value
  | .custom address map => .custom address (f map)
  | v => v

def addWord (n : BitVec 64) : Value → Value
  | .integer v => .integer (v + n)
  | v => v

def move (address : BitVec 64) : Value → Value
  | .custom _ map => .custom address map
  | v => v

end Value

abbrev ItemAttributes := Slots ItemAttr Value 32

namespace ItemAttributes
variable (s : ItemAttributes)

def hasAttribute (a : ItemAttr) : Bool := s.has ItemAttr.bit a

/-- `getExistingAttr` -/
def getExistingAttr (a : ItemAttr) : Option Value := if s.hasAttribute a then s.find a else none

def getIntAttr (a : ItemAttr) : BitVec 64 :=
  if a.isIntAttrType then ((s.getExistingAttr a).map Value.word).getD 0 else 0

/-- Change an attribute, which `getAttr` makes if it is not there. -/
def changeAttr (a : ItemAttr) (fresh : Value) (f : Value → Value) : ItemAttributes :=
  s.alter ItemAttr.bit a fresh f

def setIntAttr (a : ItemAttr) (value : BitVec 64) : ItemAttributes :=
  if a.isIntAttrType then s.changeAttr a (.integer 0) fun _ => .integer value else s

def increaseIntAttr (a : ItemAttr) (value : BitVec 64) : ItemAttributes :=
  if a.isIntAttrType then s.changeAttr a (.integer 0) (Value.addWord value) else s

/-- An empty string is not stored. -/
def setStrAttr (a : ItemAttr) (value : Bytes) : ItemAttributes :=
  if !a.isStrAttrType then s
  else if value = [] then s
  else s.changeAttr a (.string []) fun _ => .string value

def removeAttribute (a : ItemAttr) : ItemAttributes := s.remove ItemAttr.bit a

def removeCustomAttribute (key : Bytes) : ItemAttributes :=
  let key := toLowerCaseString key
  if s.hasAttribute .custom then
    s.changeAttr .custom (.custom 0 []) (Value.mapCustom (List.filter (·.1 ≠ key)))
  else s

/-- A key that is there is removed first. -/
def setCustomAttribute (key : Bytes) (value : CustomAttribute) : ItemAttributes :=
  let key := toLowerCaseString key
  s.changeAttr .custom (.custom 0 []) (Value.mapCustom fun map => map.filter (·.1 ≠ key) ++ [(key, value)])

/-- The same attributes with the custom map at another address. -/
def moveTo (address : BitVec 64) : ItemAttributes :=
  { s with list := s.list.map fun x => (x.1, x.2.move address) }

end ItemAttributes

/-- What can be done to the attributes of an item. -/
inductive Operation
  | setIntAttr (a : ItemAttr) (value : BitVec 64)
  | increaseIntAttr (a : ItemAttr) (value : BitVec 64)
  | setStrAttr (a : ItemAttr) (value : Bytes)
  | removeAttribute (a : ItemAttr)
  | setCustomAttribute (key : Bytes) (value : CustomAttribute)
  | removeCustomAttribute (key : Bytes)

structure Item where
  id : ℕ
  count : ℕ := 1
  /-- `none` while no one has asked for it -/
  attributes : Option ItemAttributes := none
  deriving DecidableEq

namespace Item
variable (x : Item)

/-- `getAttributes`, which makes them. -/
def getAttributes : ItemAttributes := x.attributes.getD {}

def hasAttribute (a : ItemAttr) : Bool := (x.attributes.map (·.hasAttribute a)).getD false

def setIntAttr (a : ItemAttr) (value : BitVec 64) : Item :=
  { x with attributes := some (x.getAttributes.setIntAttr a value) }

def increaseIntAttr (a : ItemAttr) (value : BitVec 64) : Item :=
  { x with attributes := some (x.getAttributes.increaseIntAttr a value) }

def setStrAttr (a : ItemAttr) (value : Bytes) : Item :=
  { x with attributes := some (x.getAttributes.setStrAttr a value) }

def removeAttribute (a : ItemAttr) : Item :=
  { x with attributes := x.attributes.map (·.removeAttribute a) }

def setCustomAttribute (key : Bytes) (value : CustomAttribute) : Item :=
  { x with attributes := some (x.getAttributes.setCustomAttribute key value) }

def removeCustomAttribute (key : Bytes) : Item :=
  { x with attributes := x.attributes.map (·.removeCustomAttribute key) }

def apply : Operation → Item
  | .setIntAttr a value => x.setIntAttr a value
  | .increaseIntAttr a value => x.increaseIntAttr a value
  | .setStrAttr a value => x.setStrAttr a value
  | .removeAttribute a => x.removeAttribute a
  | .setCustomAttribute key value => x.setCustomAttribute key value
  | .removeCustomAttribute key => x.removeCustomAttribute key

def moveTo (address : BitVec 64) : Item := { x with attributes := x.attributes.map (·.moveTo address) }

/-- `getDuration`, of which only the lower half is returned. -/
def getDuration : BitVec 32 := (x.getAttributes.getIntAttr .duration).setWidth 32

def setDecaying (decaying : Bool) : Item := x.setIntAttr .decayState (if decaying then 1 else 0)

section Types
variable (items : ℕ → ItemType)

/-- The constructor. -/
def new (type count : ℕ) : Item :=
  let it := items type
  let x : Item := { id := type }
  let x :=
    if it.isFluid then x.setIntAttr .fluidType count
    else if it.stackable then
      if count ≠ 0 then { x with count := count % 2 ^ 8 }
      else if it.charges ≠ 0 then { x with count := it.charges % 2 ^ 8 }
      else x
    else if it.charges ≠ 0 then
      x.setIntAttr .charges (if count ≠ 0 then count else it.charges % 2 ^ 16)
    else x
  if it.duration ≠ 0 then x.setIntAttr .duration ((BitVec.ofNat 32 it.duration).signExtend 64) else x

/-- `CreateItem`; the classes of items that are not plain take no count. -/
def create (type count : ℕ) : Option Item :=
  let it := items type
  if it.group = .deprecated ∨ it.id = 0 then none
  else
    let count := if it.stackable ∧ count = 0 then 1 else count
    if it.type ∈ [.depot, .teleport, .magicField, .door, .trashHolder, .mailbox, .bed] ∨
      it.group = .container then some (new items type 0)
    else some (new items (Decay.Item.createId items type) count)

/-- The copy of an item with time left is decaying. -/
def clone : Option Item :=
  (create items x.id x.count).map fun y =>
    if x.attributes.isSome then
      let y := { y with attributes := x.attributes }
      if 0 < y.getDuration then y.setDecaying true else y
    else y

end Types

/-- How `equals` compares two values of an attribute. -/
def sameValue (a : ItemAttr) (v v' : Value) : Bool :=
  if a.isStrAttrType then v.text = v'.text else v.word = v'.word

def equals (y : Item) : Bool :=
  if x.id ≠ y.id then false
  else
    match x.attributes, y.attributes with
    | none, none => true
    | none, some t => t.bits = 0
    | some s, none => s.bits = 0
    | some s, some t => if s.bits ≠ t.bits then false else Slots.agree sameValue s.list t.list

end Item
end ForgottenServer.Items
