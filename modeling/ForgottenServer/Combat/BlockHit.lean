import ForgottenServer.Combat.Death
import ForgottenServer.Conditions.Condition
import ForgottenServer.Lib.Binary64

/-! # How a hit is blocked

`Creature::blockHit` with what `Player` and `Monster` add to it, and
`Game::combatBlockHit`, which puts the two parts of the damage through it. The answers of
`uniform_random` belong to the creature that is hit; what the attacker notices of it is left out. -/
namespace ForgottenServer.Combat.Strike
open ForgottenServer.Lib.Binary64
open ForgottenServer.Conditions (ConditionType)

/-- `CombatType_t`. -/
inductive CombatType
  | none | physical | energy | earth | fire | undefined | lifedrain | manadrain | healing | drown | ice | holy
  | death
  deriving DecidableEq, Repr

/-- `CombatOrigin`. -/
inductive CombatOrigin
  | none | condition | spell | melee | ranged
  deriving DecidableEq, Repr

/-- `BlockType_t`. -/
inductive BlockType
  | none | defense | armor | immunity
  deriving DecidableEq, Repr

/-- One of the two parts of a `CombatDamage`. -/
structure Part where
  type : CombatType := .none
  value : ℤ := 0
  deriving DecidableEq, Repr

structure CombatDamage where
  primary : Part := {}
  secondary : Part := {}
  origin : CombatOrigin := .none
  blockType : BlockType := .none
  critical : Bool := false
  deriving DecidableEq, Repr

/-- The damage as the health sees it. -/
def CombatDamage.plain (damage : CombatDamage) : Combat.CombatDamage where
  primary := damage.primary.value
  secondary := damage.secondary.value
  undefinedDamage := damage.primary.type = .undefined
  hasOrigin := damage.origin ≠ .none

structure Abilities where
  absorbPercent : CombatType → ℤ := fun _ => 0
  fieldAbsorbPercent : CombatType → ℤ := fun _ => 0

/-- An item in a slot of the inventory. -/
structure Worn where
  /-- `isItemAbilityEnabled` of the slot -/
  enabled : Bool := true
  abilities : Option Abilities := none
  charges : ℕ := 0

structure Target where
  creature : Creature
  /-- it is the caster -/
  isCaster : Bool := false
  skullBlack : Bool := false
  ghostMode : Bool := false
  isImmune : CombatType → Bool := fun _ => false
  isImmuneCondition : ConditionType → Bool := fun _ => false
  blockCount : ℕ := 0
  canUseDefense : Bool := true
  getDefense : ℤ := 0
  getArmor : ℤ := 0
  /-- a player's slots, up to the ammunition -/
  inventory : List (Option Worn) := []
  /-- what is left of an item whose last charge is used -/
  wornOut : Worn → Option Worn := fun _ => none
  /-- a monster's `elementMap`, zero where it has no entry -/
  elementMap : Option (CombatType → ℤ) := none
  /-- what `uniform_random` answers to the defence -/
  defenseRoll : ℤ → ℤ → ℤ := fun _ b => b
  /-- what `uniform_random` answers to the armour -/
  armorRoll : ℤ → ℤ → ℤ := fun _ b => b
  /-- the attacker and the scripts, which are given the types and the origin of the damage -/
  encounter : CombatType → CombatType → CombatOrigin → Encounter := fun _ _ _ => {}

def CombatDamage.encounter (damage : CombatDamage) (t : Target) : Encounter :=
  t.encounter damage.primary.type damage.secondary.type damage.origin

/-! ## The functions -/

/-- `std::round`, which rounds halves away from zero. -/
def round : Double → Double
  | .fin q => .fin (if q < 0 then ⌈q - 1 / 2⌉ else ⌊q + 1 / 2⌋)
  | x => x

/-- `std::round(value * (percent / 100.))`. -/
def percentOf (value percent : ℤ) : ℤ :=
  (round ((Double.rnd value).mul ((Double.rnd percent).div (.fin 100)))).toInt32

/-- What the armour leaves of the damage. -/
def armored (t : Target) (damage : ℤ) : ℤ :=
  let armor := t.getArmor
  if armor > 3 then damage - t.armorRoll (armor.tdiv 2) (armor - (armor.tmod 2 + 1))
  else if armor > 0 then damage - 1
  else damage

/-- The last part of `Creature::blockHit`. -/
def blockArmor (t : Target) (damage : ℤ) (checkArmor : Bool) : BlockType × ℤ × Target :=
  if checkArmor then
    if armored t damage ≤ 0 then (.armor, 0, t) else (.none, armored t damage, t)
  else (.none, damage, t)

/-- `Creature::blockHit`: how it was blocked, the damage that is left and the creature. -/
def Creature.blockHit (t : Target) (combatType : CombatType) (damage : ℤ) (checkDefense checkArmor : Bool) :
    BlockType × ℤ × Target :=
  if t.isImmune combatType then (.immunity, 0, t)
  else if checkDefense || checkArmor then
    let hasDefense : Bool := 0 < t.blockCount
    let t := { t with blockCount := t.blockCount - 1 }
    let defends := checkDefense && hasDefense && t.canUseDefense
    let damage := if defends then damage - t.defenseRoll (t.getDefense.tdiv 2) t.getDefense else damage
    if defends ∧ damage ≤ 0 then (.defense, 0, t)
    else blockArmor t damage checkArmor
  else (.none, damage, t)

/-- The slot after `transformItem(item, item->getID(), charges - 1)`. -/
def useCharge (wornOut : Worn → Option Worn) (item : Worn) : Option Worn :=
  if item.charges = 0 then some item
  else if item.charges = 1 then wornOut item
  else some { item with charges := item.charges - 1 }

/-- One pass of the loop over the slots, for an item with abilities. -/
def absorb (wornOut : Worn → Option Worn) (combatType : CombatType) (field : Bool) (item : Worn)
    (abilities : Abilities) (damage : ℤ) : Option Worn × ℤ :=
  let absorbPercent := abilities.absorbPercent combatType
  let (slot, damage) :=
    if absorbPercent ≠ 0 then (useCharge wornOut item, damage - percentOf damage absorbPercent)
    else (some item, damage)
  let fieldAbsorbPercent := abilities.fieldAbsorbPercent combatType
  if field ∧ fieldAbsorbPercent ≠ 0 then
    -- an item that went with its last charge is not used again
    let slot := if absorbPercent ≠ 0 ∧ item.charges = 1 then slot else slot.bind (useCharge wornOut)
    (slot, damage - percentOf damage fieldAbsorbPercent)
  else (slot, damage)

/-- The loop over the slots. -/
def absorbAll (wornOut : Worn → Option Worn) (combatType : CombatType) (field : Bool) :
    List (Option Worn) → ℤ → List (Option Worn) × ℤ
  | [], damage => ([], damage)
  | none :: slots, damage =>
    let (slots, damage) := absorbAll wornOut combatType field slots damage
    (none :: slots, damage)
  | some item :: slots, damage =>
    match item.enabled, item.abilities with
    | false, _ =>
      let (slots, damage) := absorbAll wornOut combatType field slots damage
      (some item :: slots, damage)
    | true, none =>
      if damage ≤ 0 then (some item :: slots, 0)
      else
        let (slots, damage) := absorbAll wornOut combatType field slots damage
        (some item :: slots, damage)
    | true, some abilities =>
      let (slot, damage) := absorb wornOut combatType field item abilities damage
      let (slots, damage) := absorbAll wornOut combatType field slots damage
      (slot :: slots, damage)

/-- `Player::blockHit`. -/
def Player.blockHit (t : Target) (combatType : CombatType) (damage : ℤ) (checkDefense checkArmor field : Bool) :
    BlockType × ℤ × Target :=
  let (blockType, damage, t) := Creature.blockHit t combatType damage checkDefense checkArmor
  if blockType ≠ .none then (blockType, damage, t)
  else if damage ≤ 0 then (.armor, 0, t)
  else
    let (inventory, damage) := absorbAll t.wornOut combatType field t.inventory damage
    let t := { t with inventory := inventory }
    if damage ≤ 0 then (.armor, 0, t) else (.none, damage, t)

/-- `Monster::blockHit`. -/
def Monster.blockHit (t : Target) (elementMap : CombatType → ℤ) (combatType : CombatType) (damage : ℤ)
    (checkDefense checkArmor : Bool) : BlockType × ℤ × Target :=
  let (blockType, damage, t) := Creature.blockHit t combatType damage checkDefense checkArmor
  let elementMod := elementMap combatType
  if damage ≠ 0 ∧ elementMod ≠ 0 then
    let damage := percentOf damage (100 - elementMod)
    if damage ≤ 0 then (.armor, 0, t) else (blockType, damage, t)
  else (blockType, damage, t)

/-- The virtual `blockHit`. -/
def blockHit (t : Target) (combatType : CombatType) (damage : ℤ) (checkDefense checkArmor field : Bool) :
    BlockType × ℤ × Target :=
  if t.creature.isPlayer then Player.blockHit t combatType damage checkDefense checkArmor field
  else match t.elementMap with
    | some elementMap => Monster.blockHit t elementMap combatType damage checkDefense checkArmor
    | none => Creature.blockHit t combatType damage checkDefense checkArmor

/-- A part of the damage is put through `blockHit` with its sign turned. -/
def blockPart (t : Target) (part : Part) (checkDefense checkArmor field : Bool) : BlockType × Part × Target :=
  if part.type ≠ .none then
    let (blockType, value, t) := blockHit t part.type (-part.value) checkDefense checkArmor field
    (blockType, { part with value := -value }, t)
  else (.none, part, t)

/-- `Game::combatBlockHit`: whether the hit is blocked, the damage and the target. -/
def combatBlockHit (damage : CombatDamage) (t : Target) (checkDefense checkArmor field : Bool) :
    Bool × CombatDamage × Target :=
  if damage.primary.type = .none ∧ damage.secondary.type = .none then (true, damage, t)
  else if t.creature.isPlayer ∧ t.ghostMode then (true, damage, t)
  else if damage.primary.value > 0 then (false, damage, t)
  else
    let (primaryBlockType, primary, t) := blockPart t damage.primary checkDefense checkArmor field
    let (secondaryBlockType, secondary, t) := blockPart t damage.secondary false false field
    (primaryBlockType ≠ .none ∧ secondaryBlockType ≠ .none,
      { damage with primary := primary, secondary := secondary, blockType := primaryBlockType }, t)

end ForgottenServer.Combat.Strike
