import ForgottenServer.Decay.Item
import ForgottenServer.Lib.Wire
import Mathlib.Logic.Function.Basic

/-! # The attributes of saved items

`Item::serializeAttr` and `Item::unserializeAttr`. Strings are bytes, doubles and
64-bit numbers their bits. The numbers an attribute may hold have 64 bits; how
many of them are written is up to each attribute. -/
namespace ForgottenServer.Save
open ForgottenServer.Lib.Wire

/-- The attributes of `intAttributeTypes`. -/
inductive IntAttr
  | actionId | uniqueId | date | weight | attack | defense | extraDefense | armor | hitChance
  | shootRange | owner | duration | decayState | corpseOwner | charges | fluidType | doorId | decayTo
  | wrapId | storeItem | attackSpeed | openContainer
  deriving DecidableEq, Repr

/-- The attributes of `stringAttributeTypes`. -/
inductive StrAttr
  | description | text | writer | name | article | pluralName
  deriving DecidableEq, Repr

inductive CustomAttribute
  | blank
  | string (v : Bytes)
  | integer (v : BitVec 64)
  | double (v : BitVec 64)
  | bool (v : Bool)
  deriving DecidableEq, Repr

abbrev CustomAttributeMap := List (Bytes × CustomAttribute)

structure ItemType extends Decay.ItemType where
  moveable : Bool := true
  forceSerialize : Bool := false
  canWriteText : Bool := false
  alwaysOnTopOrder : ℕ := 0
  replaceable : Bool := true

/-- What loading asks the rest of the server. -/
structure Server where
  items : ℕ → ItemType
  /-- `addUniqueItem`: no other item has the id -/
  addUniqueItem : ℕ → Bool := fun _ => true
  getNameByGuid : ℕ → Bytes := fun _ => []

structure Item where
  id : ℕ
  count : ℕ := 1
  int : IntAttr → Option ℤ := fun _ => none
  str : StrAttr → Option Bytes := fun _ => none
  custom : Option CustomAttributeMap := none
  /-- of a `BedItem` -/
  sleeperGUID : ℕ := 0
  sleepStart : ℕ := 0
  /-- of a `Teleport` -/
  destPos : ℕ × ℕ × ℕ := (0, 0, 0)
  /-- of a `DepotLocker` -/
  depotId : ℕ := 0
  /-- of a `Container`: the items that are still to be read -/
  serializationCount : ℕ := 0

namespace Item

def hasInt (x : Item) (a : IntAttr) : Bool := (x.int a).isSome

def getIntAttr (x : Item) (a : IntAttr) : ℤ := (x.int a).getD 0

def setIntAttr (x : Item) (a : IntAttr) (value : ℤ) : Item :=
  { x with int := Function.update x.int a (some value) }

def removeAttribute (x : Item) (a : IntAttr) : Item := { x with int := Function.update x.int a none }

def getStrAttr (x : Item) (a : StrAttr) : Bytes := (x.str a).getD []

/-- An empty string is not stored. -/
def setStrAttr (x : Item) (a : StrAttr) (value : Bytes) : Item :=
  if value = [] then x else { x with str := Function.update x.str a (some value) }

def toLower (b : UInt8) : UInt8 := if 65 ≤ b ∧ b ≤ 90 then b + 32 else b

def toLowerCaseString (key : Bytes) : Bytes := key.map toLower

def getCustomAttribute (x : Item) (key : Bytes) : Option CustomAttribute :=
  ((x.custom.getD []).find? (·.1 = toLowerCaseString key)).map Prod.snd

/-- The order in the map is that of the insertions. -/
def setCustomAttribute (x : Item) (key : Bytes) (value : CustomAttribute) : Item :=
  let key := toLowerCaseString key
  { x with custom := some ((x.custom.getD []).filter (·.1 ≠ key) ++ [(key, value)]) }

def getActionId (x : Item) : ℤ := x.getIntAttr .actionId % 2 ^ 16

/-- `setActionId`, whose argument has 16 bits. -/
def setActionId (x : Item) (n : ℤ) : Item := x.setIntAttr .actionId (if n < 100 then 100 else n)

def getCharges (x : Item) : ℤ := x.getIntAttr .charges % 2 ^ 16

def getFluidType (x : Item) : ℤ := x.getIntAttr .fluidType % 2 ^ 16

def getDecaying (x : Item) : ℤ := x.getIntAttr .decayState % 2 ^ 8

/-- `setDate`, whose argument is an `int32_t`. -/
def setDate (x : Item) (n : ℤ) : Item := x.setIntAttr .date (Int.bmod n (2 ^ 32))

variable (sv : Server)

def type (x : Item) : ItemType := sv.items x.id

def getSubType (x : Item) : ℤ :=
  let it := x.type sv
  if it.isFluid then x.getFluidType
  else if it.stackable then x.count
  else if it.charges ≠ 0 then x.getCharges
  else x.count

def setSubType (x : Item) (n : ℤ) : Item :=
  let it := x.type sv
  if it.isFluid then x.setIntAttr .fluidType (n % 2 ^ 16)
  else if it.stackable then { x with count := (n % 2 ^ 8).toNat }
  else if it.charges ≠ 0 then x.setIntAttr .charges (n % 2 ^ 16)
  else { x with count := (n % 2 ^ 8).toNat }

def setDefaultSubtype (x : Item) : Item :=
  let it := x.type sv
  let x := { x with count := 1 }
  if it.charges ≠ 0 then
    if it.stackable then { x with count := it.charges % 2 ^ 8 } else x.setIntAttr .charges (it.charges % 2 ^ 16)
  else x

/-- `setID`. The decay is forgotten when the new type has none, and starts when it has its own. -/
def setID (x : Item) (newid : ℕ) : Item :=
  let prevIt := x.type sv
  let it := sv.items newid
  let x := { x with id := newid }
  let x :=
    if it.duration = 0 ∧ !it.stopTime ∧ it.decayTo < 0 then
      (x.removeAttribute .decayState).removeAttribute .duration
    else x
  let x := x.removeAttribute .corpseOwner
  if 0 < it.duration ∧ (!prevIt.stopTime ∨ !x.hasInt .duration) then
    (x.setIntAttr .decayState 0).setIntAttr .duration (Int.bmod it.duration (2 ^ 32))
  else x

def setUniqueId (x : Item) (n : ℕ) : Item :=
  if x.hasInt .uniqueId then x
  else if sv.addUniqueItem n then x.setIntAttr .uniqueId n
  else x

/-- The constructor of an item. -/
def new (type count : ℕ) : Item :=
  let it := sv.items type
  let x : Item := { id := type }
  let x :=
    if it.isFluid then x.setIntAttr .fluidType count
    else if it.stackable then
      if count ≠ 0 then { x with count := count % 2 ^ 8 }
      else if it.charges ≠ 0 then { x with count := it.charges % 2 ^ 8 }
      else x
    else if it.charges ≠ 0 then
      x.setIntAttr .charges (if count ≠ 0 then count else it.charges % 2 ^ 16)
    else x
  if it.duration ≠ 0 then x.setIntAttr .duration (Int.bmod it.duration (2 ^ 32)) else x

/-! ## Writing -/

/-- A tag and what belongs to it. -/
def tagged (tag : ℕ) (payload : Bytes) : Bytes := encode 1 tag ++ payload

/-- An attribute that is written when it is there, with its tag and its width. -/
def writeIntAttr (x : Item) (tag : ℕ) (a : IntAttr) (k : ℕ) : Bytes :=
  if x.hasInt a then tagged tag (write k (x.getIntAttr a)) else []

/-- A string that is written when it is not empty. -/
def writeStrAttr (x : Item) (tag : ℕ) (a : StrAttr) : Bytes :=
  if x.getStrAttr a ≠ [] then tagged tag (writeString (x.getStrAttr a)) else []

end Item

/-- `CustomAttribute::serialize`: the kind and the value. -/
def CustomAttribute.serialize : CustomAttribute → Bytes
  | .blank => encode 1 0
  | .string v => encode 1 1 ++ writeString v
  | .integer v => encode 1 2 ++ encode 8 v.toNat
  | .double v => encode 1 3 ++ encode 8 v.toNat
  | .bool v => encode 1 4 ++ encode 1 v.toNat

namespace Item
variable (sv : Server)

def writeCustomAttributes (x : Item) : Bytes :=
  match x.custom with
  | none => []
  | some m => tagged 34 (encode 8 m.length ++ m.flatMap fun e => writeString e.1 ++ e.2.serialize)

/-- The count, the charges and the action id, which depend on the type. -/
def writeSubType (x : Item) : Bytes :=
  let it := x.type sv
  (if it.stackable || it.isFluid then tagged 15 (write 1 (x.getSubType sv)) else []) ++
  (if x.getCharges ≠ 0 then tagged 22 (write 2 x.getCharges) else []) ++
  if it.moveable ∧ x.getActionId ≠ 0 then tagged 4 (write 2 x.getActionId) else []

def writeDecay (x : Item) : Bytes :=
  x.writeIntAttr 16 .duration 4 ++
  if x.getDecaying = 1 ∨ x.getDecaying = 2 then tagged 17 (write 1 x.getDecaying) else []

def writeTexts (x : Item) : Bytes :=
  x.writeStrAttr 6 .text ++
  (if x.getIntAttr .date ≠ 0 then tagged 18 (write 4 (x.getIntAttr .date)) else []) ++
  x.writeStrAttr 19 .writer ++
  x.writeStrAttr 7 .description

def writeNames (x : Item) : Bytes :=
  x.writeStrAttr 24 .name ++ x.writeStrAttr 25 .article ++ x.writeStrAttr 26 .pluralName

/-- What an item may have instead of its type: the tags, in the order they are written. -/
def overrides : List (ℕ × IntAttr × ℕ) :=
  [(27, .weight, 4), (28, .attack, 4), (38, .attackSpeed, 4), (29, .defense, 4), (30, .extraDefense, 4),
    (31, .armor, 4), (32, .hitChance, 1), (33, .shootRange, 1), (35, .decayTo, 4), (36, .wrapId, 2),
    (37, .storeItem, 1), (39, .openContainer, 1)]

/-- `Item::serializeAttr`. -/
def serializeAttr (x : Item) : Bytes :=
  x.writeSubType sv ++ x.writeTexts ++ x.writeDecay ++ x.writeNames ++
    (overrides.flatMap fun (tag, a, k) => x.writeIntAttr tag a k) ++ x.writeCustomAttributes

/-! ## Reading -/

/-- `Attr_ReadValue`. -/
inductive ReadValue
  | readContinue | readError | readEnd
  deriving DecidableEq, Repr

abbrev Reader := Item → ℕ → Bytes → ReadValue × Item × Bytes

def readNumber (x : Item) (k : ℕ) (s : Bytes) (f : ℕ → Item) : ReadValue × Item × Bytes :=
  match read k s with
  | none => (.readError, x, s)
  | some (n, s) => (.readContinue, f n, s)

def readText (x : Item) (s : Bytes) (a : StrAttr) : ReadValue × Item × Bytes :=
  match readString s with
  | (none, s) => (.readError, x, s)
  | (some str, s) => (.readContinue, x.setStrAttr a str, s)

/-- `CustomAttribute::unserialize`. -/
def unserializeCustom (s : Bytes) : Option CustomAttribute × Bytes :=
  match read 1 s with
  | none => (none, s)
  | some (1, s) => ((readString s).1.map .string, (readString s).2)
  | some (2, s) => ((read 8 s).map fun n => .integer (BitVec.ofNat 64 n.1), ((read 8 s).map Prod.snd).getD s)
  | some (3, s) => ((read 8 s).map fun n => .double (BitVec.ofNat 64 n.1), ((read 8 s).map Prod.snd).getD s)
  | some (4, s) => ((read 1 s).map fun n => .bool (n.1 ≠ 0), ((read 1 s).map Prod.snd).getD s)
  | some (_, s) => (none, s)

def readCustomAttributes : ℕ → Item → Bytes → ReadValue × Item × Bytes
  | 0, x, s => (.readContinue, x, s)
  | size + 1, x, s =>
    match readString s with
    | (none, s) => (.readError, x, s)
    | (some key, s) =>
      match unserializeCustom s with
      | (none, s) => (.readError, x, s)
      | (some val, s) => readCustomAttributes size (x.setCustomAttribute key val) s

/-- `Item::readAttr`. -/
def readAttr : Reader := fun x attr s =>
  match attr with
  | 15 | 12 => x.readNumber 1 s fun n => x.setSubType sv n
  | 4 => x.readNumber 2 s fun n => x.setActionId n
  | 5 => x.readNumber 2 s fun n => x.setUniqueId sv n
  | 6 => x.readText s .text
  | 18 => x.readNumber 4 s fun n => x.setDate n
  | 19 => x.readText s .writer
  | 7 => x.readText s .description
  | 22 => x.readNumber 2 s fun n => x.setSubType sv n
  | 16 => x.readNumber 4 s fun n => x.setIntAttr .duration (max 0 (toSigned 4 n))
  | 17 => x.readNumber 1 s fun n => if n ≠ 0 then x.setIntAttr .decayState 2 else x
  | 24 => x.readText s .name
  | 25 => x.readText s .article
  | 26 => x.readText s .pluralName
  | 27 => x.readNumber 4 s fun n => x.setIntAttr .weight n
  | 28 => x.readNumber 4 s fun n => x.setIntAttr .attack (toSigned 4 n)
  | 38 => x.readNumber 4 s fun n => x.setIntAttr .attackSpeed n
  | 29 => x.readNumber 4 s fun n => x.setIntAttr .defense (toSigned 4 n)
  | 30 => x.readNumber 4 s fun n => x.setIntAttr .extraDefense (toSigned 4 n)
  | 31 => x.readNumber 4 s fun n => x.setIntAttr .armor (toSigned 4 n)
  | 32 => x.readNumber 1 s fun n => x.setIntAttr .hitChance (toSigned 1 n)
  | 33 => x.readNumber 1 s fun n => x.setIntAttr .shootRange n
  | 35 => x.readNumber 4 s fun n => x.setIntAttr .decayTo (toSigned 4 n)
  | 36 => x.readNumber 2 s fun n => x.setIntAttr .wrapId n
  | 37 => x.readNumber 1 s fun n => x.setIntAttr .storeItem n
  | 39 => x.readNumber 1 s fun n => x.setIntAttr .openContainer n
  -- what belongs to other classes is passed over
  | 10 => x.readNumber 2 s fun _ => x
  | 14 => x.readNumber 1 s fun _ => x
  | 20 | 21 => x.readNumber 4 s fun _ => x
  | 8 => x.readNumber 5 s fun _ => x
  | 34 =>
    match read 8 s with
    | none => (.readError, x, s)
    | some (size, s) => readCustomAttributes size x s
  | _ => (.readError, x, s)

/-- The loop of `unserializeAttr`, which calls the `readAttr` of the item's class. -/
def unserializeWith (readAttr : Reader) : ℕ → Item → Bytes → Bool × Item × Bytes
  | 0, x, s => (true, x, s)
  | fuel + 1, x, s =>
    match read 1 s with
    | none => (true, x, s)
    | some (attr, s) =>
      if attr = 0 then (true, x, s)
      else match readAttr x attr s with
        | (.readError, x, s) => (false, x, s)
        | (.readEnd, x, s) => (true, x, s)
        | (.readContinue, x, s) => unserializeWith readAttr fuel x s

/-- `Item::unserializeAttr`; every round reads a byte at least. -/
def unserializeAttr (x : Item) (s : Bytes) : Bool × Item × Bytes :=
  unserializeWith (readAttr sv) (s.length + 1) x s

end Item
end ForgottenServer.Save
