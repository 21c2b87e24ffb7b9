import Mathlib.Algebra.Order.Ring.Int
import Mathlib.Data.Int.Order.Basic

/-! # Items and what their types say about decay

The attributes of an item by name where something reads them, the others as one
value; an attribute that is not set is `none`. Durations are stored in 64 bits,
written as `int32_t` and read as `uint32_t`. -/
namespace ForgottenServer.Decay

inductive ItemDecayState
  | decayingFalse | decayingTrue | decayingPending
  deriving DecidableEq, Repr

/-- `itemgroup_t`. -/
inductive ItemGroup
  | none | ground | container | weapon | ammunition | armor | charges | teleport | magicField
  | writeable | key | splash | fluid | door | deprecated
  deriving DecidableEq, Repr

/-- `ItemTypes_t`. -/
inductive ItemKind
  | none | depot | mailbox | trashHolder | container | door | magicField | teleport | bed | key | rune
  deriving DecidableEq, Repr

structure ItemType where
  id : ℕ
  group : ItemGroup := .none
  type : ItemKind := .none
  alwaysOnTop : Bool := false
  stackable : Bool := false
  charges : ℕ := 0
  decayTime : ℕ := 0
  decayTo : ℤ := -1
  stopTime : Bool := false
  deriving DecidableEq, Repr

def ItemType.isFluid (it : ItemType) : Bool := it.group = .fluid || it.group = .splash

def ItemType.hasSubType (it : ItemType) : Bool := it.isFluid || it.stackable || it.charges ≠ 0

/-- `getDefaultDuration`, in 32 bits. -/
def ItemType.duration (it : ItemType) : ℕ := it.decayTime * 1000 % 2 ^ 32

structure Attributes where
  fluidType : Option ℤ := none
  charges : Option ℤ := none
  decayState : Option ItemDecayState := none
  duration : Option ℤ := none
  decayTo : Option ℤ := none
  uniqueId : Option ℤ := none
  corpseOwner : Option ℤ := none
  storeItem : Option ℤ := none
  weight : Option ℤ := none
  wrapId : Option ℤ := none
  others : ℕ := 0
  deriving DecidableEq, Repr

/-- Where an item is: without a parent yet, in the world, in something that was
removed, or removed itself. -/
inductive Place
  | unplaced | world | lost | gone
  deriving DecidableEq, Repr

structure Item where
  id : ℕ
  count : ℕ := 1
  /-- `none` while no attribute was ever set -/
  attributes : Option Attributes := none
  place : Place := .unplaced
  referenceCounter : ℕ := 1
  deriving DecidableEq, Repr

namespace Item

def attr (x : Item) : Attributes := x.attributes.getD {}

/-- Set attributes, which are made when there are none. -/
def setAttr (x : Item) (f : Attributes → Attributes) : Item := { x with attributes := some (f x.attr) }

/-- Remove attributes if there are any. -/
def removeAttr (x : Item) (f : Attributes → Attributes) : Item :=
  { x with attributes := x.attributes.map f }

def isRemoved (x : Item) : Bool := x.place ≠ .world

/-- It has not been removed, be it in the world or not yet. -/
def live (x : Item) : Bool := x.place = .world || x.place = .unplaced

def hasParent (x : Item) : Bool := x.place = .world || x.place = .lost

def getDecaying (x : Item) : ItemDecayState := x.attr.decayState.getD .decayingFalse

def setDecaying (x : Item) (st : ItemDecayState) : Item := x.setAttr ({ · with decayState := some st })

/-- `getDuration`, a `uint32_t`. -/
def getDuration (x : Item) : ℕ := (x.attr.duration.getD 0 % 2 ^ 32).toNat

/-- `setDuration`, whose argument is an `int32_t`. -/
def setDuration (x : Item) (time : ℕ) : Item :=
  x.setAttr ({ · with duration := some (Int.bmod time (2 ^ 32)) })

def decreaseDuration (x : Item) (time : ℤ) : Item :=
  x.setAttr fun a => { a with duration := some (a.duration.getD 0 - time) }

section Types
variable (items : ℕ → ItemType)

def getDecayTo (x : Item) : ℤ := x.attr.decayTo.getD (items x.id).decayTo

def canDecay (x : Item) : Bool :=
  !x.isRemoved && !(x.getDecayTo items < 0 || (items x.id).decayTime = 0) && !x.attr.uniqueId.isSome

def getSubType (x : Item) : ℤ :=
  let it := items x.id
  if it.isFluid then x.attr.fluidType.getD 0
  else if it.stackable then x.count
  else if it.charges ≠ 0 then x.attr.charges.getD 0
  else x.count

def setSubType (x : Item) (n : ℤ) : Item :=
  let it := items x.id
  if it.isFluid then x.setAttr ({ · with fluidType := some (n % 2 ^ 16) })
  else if it.stackable then { x with count := (n % 2 ^ 8).toNat }
  else if it.charges ≠ 0 then x.setAttr ({ · with charges := some (n % 2 ^ 16) })
  else { x with count := (n % 2 ^ 8).toNat }

def setDefaultSubtype (x : Item) : Item :=
  let it := items x.id
  let x := { x with count := 1 }
  if it.charges ≠ 0 then
    if it.stackable then { x with count := it.charges % 2 ^ 8 }
    else x.setAttr ({ · with charges := some (it.charges % 2 ^ 16) })
  else x

/-- `setID`. The decay state is forgotten when the new type has no decay, and
when it starts a decay of its own. -/
def setID (x : Item) (newid : ℕ) : Item :=
  let prevIt := items x.id
  let it := items newid
  let x := { x with id := newid }
  let x :=
    if it.duration = 0 ∧ !it.stopTime ∧ it.decayTo < 0 then
      x.removeAttr ({ · with decayState := none, duration := none })
    else x
  let x := x.removeAttr ({ · with corpseOwner := none })
  if 0 < it.duration ∧ (!prevIt.stopTime ∨ x.attr.duration = none) then
    (x.setDecaying .decayingFalse).setDuration it.duration
  else x

/-- The id that `CreateItem` gives to a new item; worn rings and a few others
are made as what they come from. -/
def createId (type : ℕ) : ℕ :=
  let it := items type
  if it.type ∈ [.depot, .teleport, .magicField, .door, .trashHolder, .mailbox, .bed] ∨ it.group = .container then type
  else if 2210 ≤ it.id ∧ it.id ≤ 2212 then type - 3
  else if it.id = 2215 ∨ it.id = 2216 then type - 2
  else if 2202 ≤ it.id ∧ it.id ≤ 2206 then type - 37
  else if it.id = 2640 then 6132
  else if it.id = 6301 then 6300
  else if it.id = 18528 then 18408
  else type

/-- The constructor of an item. -/
def new (type : ℕ) (count : ℕ) : Item :=
  let it := items type
  let x : Item := { id := type }
  let x :=
    if it.isFluid then x.setAttr ({ · with fluidType := some count })
    else if it.stackable then
      if count ≠ 0 then { x with count := count % 2 ^ 8 }
      else if it.charges ≠ 0 then { x with count := it.charges % 2 ^ 8 }
      else x
    else if it.charges ≠ 0 then
      x.setAttr ({ · with charges := some (if count ≠ 0 then count else it.charges % 2 ^ 16) })
    else x
  if it.duration ≠ 0 then x.setDuration it.duration else x

/-- `CreateItem`; the classes of items that are not plain take no count. -/
def create (type count : ℕ) : Option Item :=
  let it := items type
  if it.group = .deprecated ∨ it.id = 0 then none
  else
    let count := if it.stackable ∧ count = 0 then 1 else count
    if it.type ∈ [.depot, .teleport, .magicField, .door, .trashHolder, .mailbox, .bed] ∨
      it.group = .container then some (new items type 0)
    else some (new items (createId items type) count)

/-- The item that `clone` makes, before it is queued. -/
def copy (x : Item) : Option Item :=
  (create items x.id x.count).map fun y =>
    if x.attributes.isSome then { y with attributes := x.attributes } else y

end Types

/-! ## What keeps the decay state -/

/-- `y` is where `x` is and is decaying only if `x` is, with the same time left. -/
structure Calm (x y : Item) : Prop where
  place : y.place = x.place
  referenceCounter : y.referenceCounter = x.referenceCounter
  decaying : y.getDecaying = .decayingTrue → x.getDecaying = .decayingTrue ∧ y.getDuration = x.getDuration

theorem Calm.same (x : Item) : Calm x x := ⟨rfl, rfl, fun h => ⟨h, rfl⟩⟩

theorem Calm.trans {x y z : Item} (h : Calm x y) (h' : Calm y z) : Calm x z where
  place := h'.place.trans h.place
  referenceCounter := h'.referenceCounter.trans h.referenceCounter
  decaying hz := by
    obtain ⟨hy, hd⟩ := h'.decaying hz
    obtain ⟨hx, hd'⟩ := h.decaying hy
    exact ⟨hx, hd.trans hd'⟩

theorem Calm.of_attr {x y : Item} (hp : y.place = x.place) (hr : y.referenceCounter = x.referenceCounter)
    (hs : y.attr.decayState = x.attr.decayState) (hd : y.attr.duration = x.attr.duration) : Calm x y where
  place := hp
  referenceCounter := hr
  decaying h := ⟨by rwa [getDecaying, ← hs], by simp only [getDuration, hd]⟩

section Types
variable (items : ℕ → ItemType)

theorem setSubType_calm (x : Item) (n : ℤ) : Calm x (x.setSubType items n) := by
  unfold setSubType
  dsimp only
  split
  · exact .of_attr rfl rfl rfl rfl
  · split
    · exact .of_attr rfl rfl rfl rfl
    · split <;> exact .of_attr rfl rfl rfl rfl

theorem setDefaultSubtype_calm (x : Item) : Calm x (x.setDefaultSubtype items) := by
  unfold setDefaultSubtype
  dsimp only
  split
  · split <;> exact .of_attr rfl rfl rfl rfl
  · exact .of_attr rfl rfl rfl rfl

theorem setID_calm (x : Item) (newid : ℕ) : Calm x (x.setID items newid) := by
  have hremoved : ∀ y : Item, Calm y (y.removeAttr ({ · with decayState := none, duration := none })) := by
    intro y
    refine ⟨rfl, rfl, fun h => ?_⟩
    cases ha : y.attributes <;> simp [removeAttr, getDecaying, attr, ha] at h
  have howner : ∀ y : Item, Calm y (y.removeAttr ({ · with corpseOwner := none })) := by
    intro y
    cases ha : y.attributes <;> exact .of_attr rfl rfl (by simp [removeAttr, attr, ha])
      (by simp [removeAttr, attr, ha])
  have hrestarted : ∀ (y : Item) (time : ℕ), Calm y ((y.setDecaying .decayingFalse).setDuration time) :=
    fun y time => ⟨rfl, rfl, fun h => by cases h⟩
  have hid : Calm x { x with id := newid } := .of_attr rfl rfl rfl rfl
  unfold setID
  dsimp only
  split
  · split
    · exact ((hid.trans (hremoved _)).trans (howner _)).trans (hrestarted _ _)
    · exact (hid.trans (hremoved _)).trans (howner _)
  · split
    · exact (hid.trans (howner _)).trans (hrestarted _ _)
    · exact hid.trans (howner _)

theorem new_fresh (type count : ℕ) : (new items type count).getDecaying = .decayingFalse ∧
      (new items type count).referenceCounter = 1 ∧
      (new items type count).place = .unplaced := by
  unfold new
  dsimp only
  repeat' split
  all_goals exact ⟨rfl, rfl, rfl⟩

theorem create_fresh {type count : ℕ} {y : Item} (h : create items type count = some y) :
    y.getDecaying = .decayingFalse ∧ y.referenceCounter = 1 ∧ y.place = .unplaced := by
  unfold create at h
  dsimp only at h
  repeat' split at h
  all_goals cases h
  all_goals exact new_fresh items _ _

theorem copy_fresh {x y : Item} (h : x.copy items = some y) :
    y.referenceCounter = 1 ∧ y.place = .unplaced ∧ (y.getDecaying = .decayingTrue →
      x.attributes.isSome = true ∧ x.getDecaying = .decayingTrue ∧ y.getDuration = x.getDuration) := by
  obtain ⟨z, hz, rfl⟩ := Option.map_eq_some_iff.mp h
  obtain ⟨hstate, hrefs, hplace⟩ := create_fresh items hz
  split
  · rename_i hattr
    exact ⟨hrefs, hplace, fun h => ⟨hattr, h, rfl⟩⟩
  · exact ⟨hrefs, hplace, fun h => by rw [hstate] at h; cases h⟩

end Types
end Item
end ForgottenServer.Decay
