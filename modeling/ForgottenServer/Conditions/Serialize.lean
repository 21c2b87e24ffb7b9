import ForgottenServer.Conditions.Classes
import ForgottenServer.Lib.Wire

/-! # Saved conditions

`Condition::serialize`, `Condition::unserialize` and the loops of `savePlayer` and
`loadPlayer` that call them. A condition is a list of tagged fields; the first six
are read before the class is known. -/
namespace ForgottenServer.Conditions
open ForgottenServer.Lib.Wire

/-- `ConditionAttr_t`; `last` is `CONDITIONATTR_END`. -/
inductive ConditionAttr
  | type | id | ticks | healthTicks | healthGain | manaTicks | manaGain | delayed | owner | intervalData
  | speedDelta | formulaMinA | formulaMinB | formulaMaxA | formulaMaxB | lightColor | lightLevel | lightTicks
  | lightInterval | soulTicks | soulGain | skills | stats | outfit | periodDamage | isBuff | subId
  | isAggressive | disableDefense | last
  deriving DecidableEq, Repr

namespace ConditionAttr

/-- The attributes from `CONDITIONATTR_TYPE` on, which are numbered from one. -/
def numbered : List ConditionAttr :=
  [type, id, ticks, healthTicks, healthGain, manaTicks, manaGain, delayed, owner, intervalData, speedDelta,
    formulaMinA, formulaMinB, formulaMaxA, formulaMaxB, lightColor, lightLevel, lightTicks, lightInterval,
    soulTicks, soulGain, skills, stats, outfit, periodDamage, isBuff, subId, isAggressive, disableDefense]

def code (attr : ConditionAttr) : UInt8 :=
  if attr = last then 254 else UInt8.ofNat (numbered.idxOf attr + 1)

def ofCode (n : UInt8) : Option ConditionAttr :=
  if n = 254 then some last else if n = 0 then none else numbered[n.toNat - 1]?

@[simp] theorem ofCode_code (attr : ConditionAttr) : ofCode attr.code = some attr := by
  cases attr <;> rfl

end ConditionAttr

namespace ConditionType

/-- The types from `CONDITION_POISON` on; each is a bit. -/
def bits : List ConditionType :=
  [poison, fire, energy, bleeding, haste, paralyze, outfit, invisible, light, manaShield, infight, drunk,
    exhaustWeapon, regeneration, soul, drown, muted, channelMutedTicks, yellTicks, attributes, freezing, dazzled,
    cursed, exhaustCombat, exhaustHeal, pacified, spellCooldown, spellGroupCooldown]

def code (type : ConditionType) : UInt32 :=
  if type = none then 0 else 1 <<< UInt32.ofNat (bits.idxOf type)

/-- A number that is no type stands for none. -/
def ofCode (n : UInt32) : ConditionType := (bits.find? fun type => type.code = n).getD none

@[simp] theorem ofCode_code (type : ConditionType) : ofCode type.code = type := by
  cases type <;> decide

end ConditionType

/-- An attribute and its value. -/
def tagged (attr : ConditionAttr) (value : Bytes) : Bytes := write8 attr.code ++ value

def writeBool (b : Bool) : Bytes := write8 b.toUInt8

def readBool (s : Bytes) : Option (Bool × Bytes) := (read8 s).map fun (n, s) => (n ≠ 0, s)

def writeInt (n : Int32) : Bytes := write32 n.toUInt32

def readInt (s : Bytes) : Option (Int32 × Bytes) := (read32 s).map fun (n, s) => (n.toInt32, s)

@[simp] theorem readBool_writeBool (b : Bool) (r : Bytes) : readBool (writeBool b ++ r) = some (b, r) := by
  cases b <;> rfl

@[simp] theorem readInt_writeInt (n : Int32) (r : Bytes) : readInt (writeInt n ++ r) = some (n, r) := by
  rw [readInt, writeInt, read32_write32]
  simp only [Option.map_some, Int32.toInt32_toUInt32]

/-! ## Writing -/

/-- `Condition::serialize`; the id is widened with its sign. -/
def Condition.serialize (c : Condition) : Bytes :=
  tagged .type (write32 c.conditionType.code) ++ tagged .id (write32 c.id.toInt32.toUInt32) ++
    tagged .ticks (writeInt c.ticks) ++ tagged .isBuff (writeBool c.isBuff) ++
    tagged .subId (write32 c.subId) ++ tagged .isAggressive (writeBool c.aggressive)

/-- The special skills and the percentages are not written. -/
def ConditionAttributes.serialize (c : ConditionAttributes) : Bytes :=
  c.toCondition.serialize ++ ((List.finRange 7).flatMap fun i => tagged .skills (writeInt (c.skills i))) ++
    ((List.finRange 4).flatMap fun i => tagged .stats (writeInt (c.stats i))) ++
    tagged .disableDefense (writeBool c.disableDefense)

def ConditionRegeneration.serialize (c : ConditionRegeneration) : Bytes :=
  c.toCondition.serialize ++ tagged .healthTicks (write32 c.healthTicks) ++
    tagged .healthGain (write32 c.healthGain) ++ tagged .manaTicks (write32 c.manaTicks) ++
    tagged .manaGain (write32 c.manaGain)

def ConditionSoul.serialize (c : ConditionSoul) : Bytes :=
  c.toCondition.serialize ++ tagged .soulGain (write32 c.soulGain) ++ tagged .soulTicks (write32 c.soulTicks)

def IntervalInfo.write (info : IntervalInfo) : Bytes :=
  writeInt info.timeLeft ++ writeInt info.value ++ writeInt info.interval

def ConditionDamage.serialize (c : ConditionDamage) : Bytes :=
  c.toCondition.serialize ++ tagged .delayed (writeBool c.delayed) ++ tagged .periodDamage (writeInt c.periodDamage) ++
    c.damageList.flatMap fun info => tagged .intervalData info.write

def ConditionSpeed.serialize (c : ConditionSpeed) : Bytes :=
  c.toCondition.serialize ++ tagged .speedDelta (writeInt c.speedDelta) ++ tagged .formulaMinA (write32 c.mina) ++
    tagged .formulaMinB (write32 c.minb) ++ tagged .formulaMaxA (write32 c.maxa) ++
    tagged .formulaMaxB (write32 c.maxb)

def Outfit.write (o : Outfit) : Bytes :=
  write16 o.lookType ++ write16 o.lookTypeEx ++ write16 o.lookMount ++ write8 o.lookHead ++ write8 o.lookBody ++
    write8 o.lookLegs ++ write8 o.lookFeet ++ write8 o.lookAddons ++ write8 o.padding

def ConditionOutfit.serialize (c : ConditionOutfit) : Bytes :=
  c.toCondition.serialize ++ tagged .outfit c.outfit.write

def ConditionLight.serialize (c : ConditionLight) : Bytes :=
  c.toCondition.serialize ++ tagged .lightColor (write32 c.lightInfo.color.toUInt32) ++
    tagged .lightLevel (write32 c.lightInfo.level.toUInt32) ++
    tagged .lightTicks (write32 c.internalLightTicks) ++ tagged .lightInterval (write32 c.lightChangeInterval)

def AnyCondition.serialize : AnyCondition → Bytes
  | .generic c => c.serialize
  | .attributes c => c.serialize
  | .regeneration c => c.serialize
  | .soul c => c.serialize
  | .damage c => c.serialize
  | .speed c => c.serialize
  | .outfit c => c.serialize
  | .light c => c.serialize

/-- What `savePlayer` stores of the conditions of a player. -/
def saveConditions (conditions : List AnyCondition) : Bytes :=
  (conditions.filter fun c => c.base.isPersistent).flatMap fun c =>
    c.serialize ++ write8 ConditionAttr.last.code

/-! ## Reading -/

/-- The value of an attribute that has to come next. -/
def readTagged {α : Type} (attr : ConditionAttr) (readValue : Bytes → Option (α × Bytes)) (s : Bytes) :
    Option (α × Bytes) := do let (n, s) ← read8 s if n = attr.code then readValue s else none

/-- `Condition::createCondition` for a stream. -/
def createFrom (s : Bytes) : Option (AnyCondition × Bytes) := do
  let (type, s) ← readTagged .type read32 s
  let (id, s) ← readTagged .id read32 s
  let (ticks, s) ← readTagged .ticks read32 s
  let (buff, s) ← readTagged .isBuff readBool s
  let (subId, s) ← readTagged .subId read32 s
  let (aggressive, s) ← readTagged .isAggressive readBool s
  let c ← createCondition id.toUInt8.toInt8 (.ofCode type) ticks.toInt32 0 buff subId aggressive
  pure (c, s)

/-- `Condition::unserializeProp`. -/
def Condition.unserializeProp (c : Condition) (attr : ConditionAttr) (s : Bytes) : Option (Condition × Bytes) :=
  match attr with
  | .type => (read32 s).map fun (n, s) => ({ c with conditionType := .ofCode n }, s)
  | .id => (read32 s).map fun (n, s) => ({ c with id := n.toUInt8.toInt8 }, s)
  | .ticks => (readInt s).map fun (ticks, s) => ({ c with ticks }, s)
  | .isBuff => (readBool s).map fun (isBuff, s) => ({ c with isBuff }, s)
  | .subId => (read32 s).map fun (subId, s) => ({ c with subId }, s)
  | .isAggressive => (readBool s).map fun (aggressive, s) => ({ c with aggressive }, s)
  | .last => some (c, s)
  | _ => none

/-- The entry of an array that is read next; what comes after the last is dropped. -/
def setEntry {n : ℕ} (entries : Fin n → Int32) (current : ℕ) (value : Int32) : Fin n → Int32 :=
  if h : current < n then Function.update entries ⟨current, h⟩ value else entries

def IndexedAttributes.unserializeProp (c : IndexedAttributes) (attr : ConditionAttr) (s : Bytes) :
    Option (IndexedAttributes × Bytes) :=
  match attr with
  | .skills => (readInt s).map fun (n, s) =>
    ({ c with skills := setEntry c.skills c.currentSkill n, currentSkill := c.currentSkill + 1 }, s)
  | .stats => (readInt s).map fun (n, s) =>
    ({ c with stats := setEntry c.stats c.currentStat n, currentStat := c.currentStat + 1 }, s)
  | .disableDefense => (readBool s).map fun (disableDefense, s) => ({ c with disableDefense }, s)
  | _ => (c.toCondition.unserializeProp attr s).map fun (base, s) => ({ c with toCondition := base }, s)

def ConditionRegeneration.unserializeProp (c : ConditionRegeneration) (attr : ConditionAttr) (s : Bytes) :
    Option (ConditionRegeneration × Bytes) :=
  match attr with
  | .healthTicks => (read32 s).map fun (healthTicks, s) => ({ c with healthTicks }, s)
  | .healthGain => (read32 s).map fun (healthGain, s) => ({ c with healthGain }, s)
  | .manaTicks => (read32 s).map fun (manaTicks, s) => ({ c with manaTicks }, s)
  | .manaGain => (read32 s).map fun (manaGain, s) => ({ c with manaGain }, s)
  | _ => (c.toCondition.unserializeProp attr s).map fun (base, s) => ({ c with toCondition := base }, s)

def ConditionSoul.unserializeProp (c : ConditionSoul) (attr : ConditionAttr) (s : Bytes) :
    Option (ConditionSoul × Bytes) :=
  match attr with
  | .soulGain => (read32 s).map fun (soulGain, s) => ({ c with soulGain }, s)
  | .soulTicks => (read32 s).map fun (soulTicks, s) => ({ c with soulTicks }, s)
  | _ => (c.toCondition.unserializeProp attr s).map fun (base, s) => ({ c with toCondition := base }, s)

def IntervalInfo.read (s : Bytes) : Option (IntervalInfo × Bytes) := do
  let (timeLeft, s) ← readInt s
  let (value, s) ← readInt s
  let (interval, s) ← readInt s
  pure ({ timeLeft, value, interval }, s)

/-- A round that was read, and its time. -/
def ConditionDamage.pushBack (c : ConditionDamage) (damageInfo : IntervalInfo) (now : Int64) : ConditionDamage :=
  { c with
    damageList := c.damageList ++ [damageInfo]
    toCondition :=
      if c.ticks ≠ -1 then c.toCondition.setTicks (c.ticks + damageInfo.interval) now else c.toCondition }

def ConditionDamage.unserializeProp (now : Int64) (c : ConditionDamage) (attr : ConditionAttr) (s : Bytes) :
    Option (ConditionDamage × Bytes) :=
  match attr with
  | .delayed => (readBool s).map fun (delayed, s) => ({ c with delayed }, s)
  | .periodDamage => (readInt s).map fun (periodDamage, s) => ({ c with periodDamage }, s)
  -- skipped
  | .owner => (read32 s).map fun (_, s) => (c, s)
  | .intervalData => (IntervalInfo.read s).map fun (damageInfo, s) => (c.pushBack damageInfo now, s)
  | _ => (c.toCondition.unserializeProp attr s).map fun (base, s) => ({ c with toCondition := base }, s)

def ConditionSpeed.unserializeProp (c : ConditionSpeed) (attr : ConditionAttr) (s : Bytes) :
    Option (ConditionSpeed × Bytes) :=
  match attr with
  | .speedDelta => (readInt s).map fun (speedDelta, s) => ({ c with speedDelta }, s)
  | .formulaMinA => (read32 s).map fun (mina, s) => ({ c with mina }, s)
  | .formulaMinB => (read32 s).map fun (minb, s) => ({ c with minb }, s)
  | .formulaMaxA => (read32 s).map fun (maxa, s) => ({ c with maxa }, s)
  | .formulaMaxB => (read32 s).map fun (maxb, s) => ({ c with maxb }, s)
  | _ => (c.toCondition.unserializeProp attr s).map fun (base, s) => ({ c with toCondition := base }, s)

def Outfit.read (s : Bytes) : Option (Outfit × Bytes) := do
  let (lookType, s) ← read16 s
  let (lookTypeEx, s) ← read16 s
  let (lookMount, s) ← read16 s
  let (lookHead, s) ← read8 s
  let (lookBody, s) ← read8 s
  let (lookLegs, s) ← read8 s
  let (lookFeet, s) ← read8 s
  let (lookAddons, s) ← read8 s
  let (padding, s) ← read8 s
  pure ({ lookType, lookTypeEx, lookMount, lookHead, lookBody, lookLegs, lookFeet, lookAddons, padding }, s)

def ConditionOutfit.unserializeProp (c : ConditionOutfit) (attr : ConditionAttr) (s : Bytes) :
    Option (ConditionOutfit × Bytes) :=
  match attr with
  | .outfit => (Outfit.read s).map fun (outfit, s) => ({ c with outfit }, s)
  | _ => (c.toCondition.unserializeProp attr s).map fun (base, s) => ({ c with toCondition := base }, s)

def ConditionLight.unserializeProp (c : ConditionLight) (attr : ConditionAttr) (s : Bytes) :
    Option (ConditionLight × Bytes) :=
  match attr with
  | .lightColor => (read32 s).map fun (n, s) => ({ c with lightInfo.color := n.toUInt8 }, s)
  | .lightLevel => (read32 s).map fun (n, s) => ({ c with lightInfo.level := n.toUInt8 }, s)
  | .lightTicks => (read32 s).map fun (internalLightTicks, s) => ({ c with internalLightTicks }, s)
  | .lightInterval => (read32 s).map fun (lightChangeInterval, s) => ({ c with lightChangeInterval }, s)
  | _ => (c.toCondition.unserializeProp attr s).map fun (base, s) => ({ c with toCondition := base }, s)

def AnyCondition.unserializeProp (now : Int64) (c : AnyCondition) (attr : ConditionAttr) (s : Bytes) :
    Option (AnyCondition × Bytes) :=
  match c with
  | .generic c => (c.unserializeProp attr s).map fun (c, s) => (.generic c, s)
  | .attributes c => (c.unserializeProp attr s).map fun (c, s) => (.attributes c, s)
  | .regeneration c => (c.unserializeProp attr s).map fun (c, s) => (.regeneration c, s)
  | .soul c => (c.unserializeProp attr s).map fun (c, s) => (.soul c, s)
  | .damage c => (c.unserializeProp now attr s).map fun (c, s) => (.damage c, s)
  | .speed c => (c.unserializeProp attr s).map fun (c, s) => (.speed c, s)
  | .outfit c => (c.unserializeProp attr s).map fun (c, s) => (.outfit c, s)
  | .light c => (c.unserializeProp attr s).map fun (c, s) => (.light c, s)

/-- The loop of `Condition::unserialize`; a round takes a byte at least, so that
there are no more rounds than bytes. What comes after a bad attribute is left. -/
def unserialize (now : Int64) : ℕ → AnyCondition → Bytes → Option AnyCondition × Bytes
  | 0, c, s => (some c, s)
  | rounds + 1, c, s =>
    match read8 s with
    | none => (some c, s)
    | some (n, s) =>
      match ConditionAttr.ofCode n with
      | none => (none, s)
      | some .last => (some c, s)
      | some attr =>
        match c.unserializeProp now attr s with
        | none => (none, s)
        | some (c, s) => unserialize now rounds c s

/-- The loop of `loadPlayer`; `push_front` turns the list around. -/
def loadConditions (now : Int64) : ℕ → List AnyCondition → Bytes → List AnyCondition
  | 0, stored, _ => stored
  | rounds + 1, stored, s =>
    match createFrom s with
    | none => stored
    | some (c, s) =>
      match unserialize now s.length c s with
      | (some c, s) => loadConditions now rounds (c :: stored) s
      | (none, s) => loadConditions now rounds stored s

/-- `storedConditionList` after `loadPlayer`. -/
def storedConditions (now : Int64) (s : Bytes) : List AnyCondition := loadConditions now s.length [] s

end ForgottenServer.Conditions
