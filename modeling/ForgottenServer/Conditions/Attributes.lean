import ForgottenServer.Conditions.Condition
import ForgottenServer.Lib.Binary64
import ForgottenServer.Lib.Run

/-! # Attribute conditions

`ConditionAttributes` change the skills, the special skills and the stats of a
player, and may take its defence away. Percentages are turned into absolute
numbers when the condition starts. Conditions of other classes touch none of
this, so the list holds attribute conditions only. -/
namespace ForgottenServer.Conditions
open ForgottenServer.Lib.Run ForgottenServer.Lib.Rounding
open ForgottenServer.Lib.Binary64 (Double)

/-- `SKILL_FIRST` to `SKILL_LAST`. -/
abbrev Skill := Fin 7

/-- `SPECIALSKILL_FIRST` to `SPECIALSKILL_LAST`. -/
abbrev SpecialSkill := Fin 6

/-- `STAT_FIRST` to `STAT_LAST`. -/
abbrev Stat := Fin 4

local instance statCount : NeZero 4 := ⟨by decide⟩

def maxHitpoints : Stat := 0

def maxManapoints : Stat := 1

def magicPoints : Stat := 3

structure ConditionAttributes extends Condition where
  conditionType := .attributes
  skills : Skill → Int32 := fun _ => 0
  skillsPercent : Skill → Int32 := fun _ => 0
  specialSkills : SpecialSkill → Int32 := fun _ => 0
  stats : Stat → Int32 := fun _ => 0
  statsPercent : Stat → Int32 := fun _ => 0
  disableDefense : Bool := false

structure Creature where
  /-- `getPlayer` finds a player -/
  isPlayer : Bool := true
  conditions : List ConditionAttributes := []
  canUseDefense : Bool := true
  health : Int32 := 1000
  healthMax : Int32 := 1000
  mana : UInt32 := 0
  manaMax : UInt32 := 0
  magLevel : UInt32 := 0
  infiniteMana : Bool := false
  /-- the levels of `skills` -/
  skillLevel : Skill → UInt16 := fun _ => 10
  varSkills : Skill → Int32 := fun _ => 0
  varSpecialSkills : SpecialSkill → Int32 := fun _ => 0
  varStats : Stat → Int32 := fun _ => 0

namespace Creature

def getMaxHealth (p : Creature) : Int32 :=
  let n := p.healthMax + p.varStats maxHitpoints
  if n < 1 then 1 else n

def getMaxMana (p : Creature) : UInt32 :=
  let n := (p.manaMax + (p.varStats maxManapoints).toUInt32).toInt32
  (if n < 0 then 0 else n).toUInt32

/-- `changeHealth`; a death that it queues is another task. -/
def changeHealth (p : Creature) (healthChange : Int32) : Creature :=
  { p with
    health :=
      if 0 < healthChange then
        let rest := p.getMaxHealth - p.health
        p.health + if rest < healthChange then rest else healthChange
      else if p.health + healthChange < 0 then 0 else p.health + healthChange }

def changeMana (p : Creature) (manaChange : Int32) : Creature :=
  if p.infiniteMana then p
  else
    { p with
      mana :=
        if 0 < manaChange then
          let rest := (p.getMaxMana - p.mana).toInt32
          p.mana + (if rest < manaChange then rest else manaChange).toUInt32
        else
          let n := (p.mana + manaChange.toUInt32).toInt32
          (if n < 0 then 0 else n).toUInt32 }

def setVarSkill (p : Creature) (skill : Skill) (modifier : Int32) : Creature :=
  { p with varSkills := Function.update p.varSkills skill (p.varSkills skill + modifier) }

def setVarSpecialSkill (p : Creature) (skill : SpecialSkill) (modifier : Int32) : Creature :=
  { p with varSpecialSkills := Function.update p.varSpecialSkills skill (p.varSpecialSkills skill + modifier) }

def setVarStats (p : Creature) (stat : Stat) (modifier : Int32) : Creature :=
  let p := { p with varStats := Function.update p.varStats stat (p.varStats stat + modifier) }
  if stat = maxHitpoints then
    if p.getMaxHealth < p.health then p.changeHealth (p.getMaxHealth - p.health) else p
  else if stat = maxManapoints then
    if p.getMaxMana < p.mana then p.changeMana (p.getMaxMana - p.mana).toInt32 else p
  else p

end Creature

/-- The signed 32-bit conversion of a single precision product: what `percent`
makes of a base value. -/
def percentOf (base : ℤ) (percent : Int32) : Int32 :=
  let factor := Double.floatDiv (percent - 100).toInt 100
  Int32.ofInt (Double.fin (nearest 23 (-149) (nearest 23 (-149) base * factor))).toInt32

namespace ConditionAttributes

def updatePercentSkills (c : ConditionAttributes) (p : Creature) : ConditionAttributes :=
  { c with
    skills := fun i =>
      if c.skillsPercent i = 0 then c.skills i else percentOf (p.skillLevel i).toNat (c.skillsPercent i) }

/-- `updatePercentStats`; soul points have no percentage. -/
def updatePercentStats (c : ConditionAttributes) (p : Creature) : ConditionAttributes :=
  { c with
    stats := fun i =>
      if c.statsPercent i = 0 then c.stats i
      else if i = maxHitpoints then percentOf p.getMaxHealth.toInt (c.statsPercent i)
      else if i = maxManapoints then percentOf p.getMaxMana.toNat (c.statsPercent i)
      else if i = magicPoints then percentOf p.magLevel.toNat (c.statsPercent i)
      else c.stats i }

def updateStats (c : ConditionAttributes) (p : Creature) : Creature :=
  (List.finRange 4).foldl (fun p i => if c.stats i ≠ 0 then p.setVarStats i (c.stats i) else p) p

def updateSkills (c : ConditionAttributes) (p : Creature) : Creature :=
  let p := (List.finRange 7).foldl (fun p i => if c.skills i ≠ 0 then p.setVarSkill i (c.skills i) else p) p
  (List.finRange 6).foldl
    (fun p i => if c.specialSkills i ≠ 0 then p.setVarSpecialSkill i (c.specialSkills i) else p) p

/-- The percentages and the changes, when a condition starts and when it is merged. -/
def applyTo (c : ConditionAttributes) (p : Creature) : ConditionAttributes × Creature :=
  if p.isPlayer then
    let c := c.updatePercentSkills p
    let p := c.updateSkills p
    let c := c.updatePercentStats p
    (c, c.updateStats p)
  else (c, p)

def startCondition (c : ConditionAttributes) (p : Creature) (now : Int64) : ConditionAttributes × Creature :=
  let c := { c with toCondition := c.toCondition.startCondition now }
  c.applyTo { p with canUseDefense := !c.disableDefense }

/-- What a player loses again. -/
def withdraw (c : ConditionAttributes) (p : Creature) : Creature :=
  let p := (List.finRange 7).foldl
    (fun p i => if c.skills i ≠ 0 ∨ c.skillsPercent i ≠ 0 then p.setVarSkill i (-c.skills i) else p) p
  let p := (List.finRange 6).foldl
    (fun p i => if c.specialSkills i ≠ 0 then p.setVarSpecialSkill i (-c.specialSkills i) else p) p
  (List.finRange 4).foldl (fun p i => if c.stats i ≠ 0 then p.setVarStats i (-c.stats i) else p) p

def endCondition (c : ConditionAttributes) (p : Creature) : Creature :=
  let p := if p.isPlayer then c.withdraw p else p
  if c.disableDefense then { p with canUseDefense := true } else p

/-- `ConditionAttributes::addCondition`: the old condition ends and the new one
is applied in its place. The defence is not taken away again. -/
def addCondition (c : ConditionAttributes) (p : Creature) (add : ConditionAttributes) (now : Int64) :
    ConditionAttributes × Creature :=
  if c.updateCondition add.toCondition now then
    let p := c.endCondition p
    let c :=
      { c with
        toCondition := c.toCondition.setTicks add.ticks now
        skills := add.skills
        specialSkills := add.specialSkills
        skillsPercent := add.skillsPercent
        stats := add.stats
        statsPercent := add.statsPercent
        disableDefense := add.disableDefense }
    c.applyTo p
  else (c, p)

def executeCondition (c : ConditionAttributes) (interval : Int32) : ConditionAttributes :=
  { c with toCondition := c.toCondition.executeCondition interval }

def setTicks (c : ConditionAttributes) (ticks : Int32) (now : Int64) : ConditionAttributes :=
  { c with toCondition := c.toCondition.setTicks ticks now }

/-- The key of `getCondition`; the type is the same for all. -/
def isSame (c d : ConditionAttributes) : Bool := c.id = d.id && c.subId = d.subId

end ConditionAttributes

namespace Creature

/-- The condition with the same key, with what comes before and after it. -/
def split (add : ConditionAttributes) :
    List ConditionAttributes → Option (List ConditionAttributes × ConditionAttributes × List ConditionAttributes)
  | [] => none
  | c :: l => if c.isSame add then some ([], c, l) else (split add l).map fun (l₁, d, l₂) => (c :: l₁, d, l₂)

/-- `Creature::addCondition`. -/
def addCondition (p : Creature) (add : ConditionAttributes) (now : Int64) : Creature :=
  match split add p.conditions with
  | some (before, prevCond, after) =>
    let (c, p) := prevCond.addCondition p add now
    { p with conditions := before ++ c :: after }
  | none =>
    let (c, p) := add.startCondition p now
    { p with conditions := p.conditions ++ [c] }

/-- The conditions that `ends` chooses are erased and end, from the front of the
list on. Ending a condition does not look at the list. -/
def removeConditions (p : Creature) (ends : ConditionAttributes → Bool) : Creature :=
  let kept := { p with conditions := p.conditions.filter fun c => !ends c }
  (p.conditions.filter ends).foldl (fun p c => c.endCondition p) kept

/-- `removeCondition` for one condition of the list. -/
def removeCondition (p : Creature) (index : ℕ) : Creature :=
  match p.conditions[index]? with
  | some c => c.endCondition { p with conditions := p.conditions.eraseIdx index }
  | none => p

def executeConditions (p : Creature) (interval : UInt32) (now : Int64) : Creature :=
  let executed := p.conditions.map fun c => c.executeCondition interval.toInt32
  { p with conditions := executed }.removeConditions fun c => !c.goesOn now

/-- `setTicks` on one condition, as `onCombatRemoveCondition` calls it. -/
def setTicks (p : Creature) (index : ℕ) (ticks : Int32) (now : Int64) : Creature :=
  { p with conditions := p.conditions.modify index fun c => c.setTicks ticks now }

end Creature

/-- Modifiers of equipment and scripts. -/
structure Modifiers where
  skills : Skill → Int32 := fun _ => 0
  specialSkills : SpecialSkill → Int32 := fun _ => 0
  stats : Stat → Int32 := fun _ => 0

inductive Action
  | addCondition (c : ConditionAttributes) (now : Int64)
  /-- `removeCondition(CONDITION_ATTRIBUTES)` -/
  | removeType
  | removeId (id : Int8)
  | removeCondition (index : ℕ)
  | setTicks (index : ℕ) (ticks : Int32) (now : Int64)
  | executeConditions (interval : UInt32) (now : Int64)
  /-- `Player::death` ends the persistent conditions -/
  | death
  /-- an item is put on or taken off -/
  | equip (m : Modifiers)
  /-- levels and maxima change -/
  | advance (healthMax : Int32) (manaMax magLevel : UInt32) (skillLevel : Skill → UInt16)

def Creature.equip (p : Creature) (m : Modifiers) : Creature :=
  let p := (List.finRange 7).foldl (fun p i => if m.skills i ≠ 0 then p.setVarSkill i (m.skills i) else p) p
  let p := (List.finRange 6).foldl
    (fun p i => if m.specialSkills i ≠ 0 then p.setVarSpecialSkill i (m.specialSkills i) else p) p
  (List.finRange 4).foldl (fun p i => if m.stats i ≠ 0 then p.setVarStats i (m.stats i) else p) p

def step (p : Creature) : Action → Creature
  | .addCondition c now => p.addCondition c now
  | .removeType => p.removeConditions fun _ => true
  | .removeId id => p.removeConditions fun c => c.id = id
  | .removeCondition index => p.removeCondition index
  | .setTicks index ticks now => p.setTicks index ticks now
  | .executeConditions interval now => p.executeConditions interval now
  | .death => p.removeConditions fun c => c.isPersistent
  | .equip m => p.equip m
  | .advance healthMax manaMax magLevel skillLevel => { p with healthMax, manaMax, magLevel, skillLevel }

end ForgottenServer.Conditions
