import ForgottenServer.Conditions.Attributes

/-! # The classes of conditions

The classes that a player's condition may be of, with the fields that are saved
or decide what executing the condition does. Single precision numbers are their
bits. The bounds that damage is rolled from when it starts without rounds are left
out. -/
namespace ForgottenServer.Conditions

/-- `ConditionAttributes` with its counters: the entries that are read next. -/
structure IndexedAttributes extends ConditionAttributes where
  currentSkill : ℕ := 0
  currentStat : ℕ := 0

structure ConditionRegeneration extends Condition where
  internalHealthTicks : UInt32 := 0
  internalManaTicks : UInt32 := 0
  healthTicks : UInt32 := 1000
  manaTicks : UInt32 := 1000
  healthGain : UInt32 := 0
  manaGain : UInt32 := 0

structure ConditionSoul extends Condition where
  internalSoulTicks : UInt32 := 0
  soulTicks : UInt32 := 0
  soulGain : UInt32 := 0

structure IntervalInfo where
  timeLeft : Int32
  value : Int32
  interval : Int32
  deriving DecidableEq, Repr

structure ConditionDamage extends Condition where
  periodDamage : Int32 := 0
  periodDamageTick : Int32 := 0
  tickInterval : Int32 := 2000
  delayed : Bool := false
  /-- a field of a map deals it -/
  field : Bool := false
  /-- the id of the creature that deals it -/
  owner : UInt32 := 0
  damageList : List IntervalInfo := []

structure ConditionSpeed extends Condition where
  speedDelta : Int32
  mina : UInt32 := 0
  minb : UInt32 := 0
  maxa : UInt32 := 0
  maxb : UInt32 := 0

/-- `Outfit_t`, with the byte that fills it up to its size. -/
structure Outfit where
  lookType : UInt16 := 0
  lookTypeEx : UInt16 := 0
  lookMount : UInt16 := 0
  lookHead : UInt8 := 0
  lookBody : UInt8 := 0
  lookLegs : UInt8 := 0
  lookFeet : UInt8 := 0
  lookAddons : UInt8 := 0
  padding : UInt8 := 0
  deriving DecidableEq, Repr

structure ConditionOutfit extends Condition where
  outfit : Outfit := {}

structure LightInfo where
  level : UInt8 := 0
  color : UInt8 := 0
  deriving DecidableEq, Repr

structure ConditionLight extends Condition where
  lightInfo : LightInfo := {}
  internalLightTicks : UInt32 := 0
  lightChangeInterval : UInt32 := 0

/-- A condition of some class. The classes without fields of their own are one:
`ConditionGeneric`, `ConditionInvisible` and those of the cooldowns. -/
inductive AnyCondition
  | generic (c : Condition)
  | attributes (c : IndexedAttributes)
  | regeneration (c : ConditionRegeneration)
  | soul (c : ConditionSoul)
  | damage (c : ConditionDamage)
  | speed (c : ConditionSpeed)
  | outfit (c : ConditionOutfit)
  | light (c : ConditionLight)

def AnyCondition.base : AnyCondition → Condition
  | .generic c => c
  | .attributes c => c.toCondition
  | .regeneration c => c.toCondition
  | .soul c => c.toCondition
  | .damage c => c.toCondition
  | .speed c => c.toCondition
  | .outfit c => c.toCondition
  | .light c => c.toCondition

/-- `createCondition`: the class for a type. -/
def createCondition (id : Int8) (type : ConditionType) (ticks param : Int32) (buff : Bool) (subId : UInt32)
    (aggressive : Bool) : Option AnyCondition :=
  let base := Condition.new id type ticks buff subId aggressive
  match type with
  | .poison | .fire | .energy | .drown | .freezing | .dazzled | .cursed | .bleeding =>
    some (.damage { toCondition := .new id type 0 buff subId aggressive })
  | .haste | .paralyze => some (.speed { toCondition := base, speedDelta := param })
  | .outfit => some (.outfit { toCondition := base })
  | .light =>
    let lightInfo := { level := param.toUInt32.toUInt8, color := (param.toUInt32 >>> 8).toUInt8 }
    some (.light { toCondition := base, lightInfo })
  | .regeneration => some (.regeneration { toCondition := base })
  | .soul => some (.soul { toCondition := base })
  | .attributes => some (.attributes { toCondition := base })
  | .invisible | .spellCooldown | .spellGroupCooldown => some (.generic base)
  | .infight | .drunk | .exhaustWeapon | .exhaustCombat | .exhaustHeal | .muted | .channelMutedTicks
  | .yellTicks | .pacified | .manaShield => some (.generic base)
  | .none => none

/-! ## Executing -/

/-- One call of `executeCondition` and what it looks up: whether the creature is
in a protection zone, the condition that the damage of the field under it
belongs to, and the creatures, each of which is a player or not. -/
structure Think where
  interval : Int32
  protectionZone : Bool := false
  field : Option ConditionType := none
  getCreatureByID : UInt32 → Option Bool := fun _ => none

/-- A damage that is put through the defences: with the creature that is found to
have dealt it, if any, and whether it is that of a field. -/
structure Hit where
  value : Int32
  attacker : Option UInt32
  field : Bool
  deriving DecidableEq, Repr

/-- What the creature gets: gains, the damage asked of `doDamage`, what becomes of
it there, and whether its light grows weaker. -/
structure Given where
  health : UInt32 := 0
  mana : UInt32 := 0
  soul : UInt32 := 0
  damage : Option Int32 := none
  hit : Option Hit := none
  dims : Bool := false
  deriving DecidableEq, Repr

/-- A clock of a condition: when the period is over and the condition may act, it starts again. -/
def elapse (internal period : UInt32) (interval : Int32) (acts : Bool) : UInt32 × Bool :=
  let internal := internal + interval.toUInt32
  if acts ∧ period ≤ internal then (0, true) else (internal, false)

def ConditionRegeneration.executeCondition (c : ConditionRegeneration) (t : Think) : ConditionRegeneration × Given :=
  let (internalHealthTicks, heals) := elapse c.internalHealthTicks c.healthTicks t.interval !t.protectionZone
  let (internalManaTicks, refills) := elapse c.internalManaTicks c.manaTicks t.interval !t.protectionZone
  ({ c with toCondition := c.toCondition.executeCondition t.interval, internalHealthTicks, internalManaTicks },
    { health := if heals then c.healthGain else 0, mana := if refills then c.manaGain else 0 })

def ConditionSoul.executeCondition (c : ConditionSoul) (t : Think) : ConditionSoul × Given :=
  let (internalSoulTicks, gains) := elapse c.internalSoulTicks c.soulTicks t.interval !t.protectionZone
  ({ c with toCondition := c.toCondition.executeCondition t.interval, internalSoulTicks },
    { soul := if gains then c.soulGain else 0 })

def ConditionLight.executeCondition (c : ConditionLight) (t : Think) : ConditionLight × Given :=
  let (internalLightTicks, dims) := elapse c.internalLightTicks c.lightChangeInterval t.interval true
  ({ c with toCondition := c.toCondition.executeCondition t.interval, internalLightTicks }, { dims })

/-- The types of `ConditionDamage`. -/
def ConditionType.isDamage : ConditionType → Bool
  | .poison | .fire | .energy | .drown | .freezing | .dazzled | .cursed | .bleeding => true
  | _ => false

/-- `onTickCondition`: a field decides whether a round is used up. -/
def onTickCondition (field : Option ConditionType) (type : ConditionType) (bRemove : Bool) : Bool :=
  match field with
  | none => bRemove
  | some damage => if type.isDamage then damage ≠ type else bRemove

def ConditionDamage.executeCondition (c : ConditionDamage) (t : Think) : ConditionDamage × Given :=
  if c.periodDamage ≠ 0 then
    let periodDamageTick := c.periodDamageTick + t.interval
    let hits := c.tickInterval ≤ periodDamageTick
    ({ c with
        toCondition := c.toCondition.executeCondition t.interval
        periodDamageTick := if hits then 0 else periodDamageTick },
      { damage := if hits then some c.periodDamage else none })
  else
    match c.damageList with
    | [] => ({ c with toCondition := c.toCondition.executeCondition t.interval }, {})
    | damageInfo :: rest =>
      let bRemove := onTickCondition t.field c.conditionType (c.ticks ≠ -1)
      let timeLeft := damageInfo.timeLeft - t.interval
      let damageList :=
        if 0 < timeLeft then { damageInfo with timeLeft } :: rest
        else if bRemove then rest
        else { damageInfo with timeLeft := damageInfo.interval } :: rest
      -- a round that is not used up takes no time of the condition
      let endTime := if !bRemove ∧ 0 < c.ticks then c.endTime + t.interval.toInt64 else c.endTime
      let base : Condition := { c.toCondition with endTime }
      ({ c with toCondition := base.executeCondition (if bRemove then t.interval else 0), damageList },
        { damage := if 0 < timeLeft then none else some damageInfo.value })

/-- `std::round(value / 2.)`, which rounds halves away from zero. -/
def halved (value : Int32) : Int32 := .ofInt ((value.toInt + value.toInt.sign).tdiv 2)

/-- `doDamage` to a player that is not immune to the type. -/
def ConditionDamage.doDamage (c : ConditionDamage) (t : Think) (healthChange : Int32) : Hit :=
  let attacker := t.getCreatureByID c.owner
  { value := if c.field && attacker = some true then halved healthChange else healthChange
    attacker := if attacker.isSome then some c.owner else none
    field := c.field }

/-- `executeCondition` with the call of `doDamage`. -/
def ConditionDamage.deal (c : ConditionDamage) (t : Think) : ConditionDamage × Given :=
  let (d, given) := c.executeCondition t
  (d, { given with hit := given.damage.map (c.doDamage t) })

def AnyCondition.executeCondition : AnyCondition → Think → AnyCondition × Given
  | .generic c, t => (.generic (c.executeCondition t.interval), {})
  | .attributes c, t => (.attributes { c with toCondition := c.toCondition.executeCondition t.interval }, {})
  | .regeneration c, t => ((.regeneration (c.executeCondition t).1), (c.executeCondition t).2)
  | .soul c, t => ((.soul (c.executeCondition t).1), (c.executeCondition t).2)
  | .damage c, t => ((.damage (c.deal t).1), (c.deal t).2)
  | .speed c, t => (.speed { c with toCondition := c.toCondition.executeCondition t.interval }, {})
  | .outfit c, t => (.outfit { c with toCondition := c.toCondition.executeCondition t.interval }, {})
  | .light c, t => ((.light (c.executeCondition t).1), (c.executeCondition t).2)

end ForgottenServer.Conditions
