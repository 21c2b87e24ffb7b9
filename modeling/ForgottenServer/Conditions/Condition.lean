import Mathlib.Data.Nat.Notation

/-! # Conditions

What all classes of conditions have in common: the fields of `Condition` and
the functions that most classes do not override. Times are milliseconds; what
the clock `OTSYS_TIME` shows is an argument. -/
namespace ForgottenServer.Conditions

/-- `ConditionType_t`. -/
inductive ConditionType
  | none | poison | fire | energy | bleeding | haste | paralyze | outfit | invisible | light | manaShield
  | infight | drunk | exhaustWeapon | regeneration | soul | drown | muted | channelMutedTicks | yellTicks
  | attributes | freezing | dazzled | cursed | exhaustCombat | exhaustHeal | pacified | spellCooldown
  | spellGroupCooldown
  deriving DecidableEq, Repr

/-- `CONDITIONID_DEFAULT`; the ids from one on are the slots of the inventory. -/
def idDefault : Int8 := -1

/-- `CONDITIONID_COMBAT`. -/
def idCombat : Int8 := 0

structure Condition where
  conditionType : ConditionType
  id : Int8 := idDefault
  subId : UInt32 := 0
  ticks : Int32 := 0
  endTime : Int64 := 0
  isBuff : Bool := false
  aggressive : Bool := false
  deriving DecidableEq, Repr

namespace Condition

/-- The constructor: without a limit, the condition never ends. -/
def new (id : Int8) (type : ConditionType) (ticks : Int32) (buff : Bool) (subId : UInt32) (aggressive : Bool) :
    Condition :=
  { conditionType := type, id, subId, ticks, isBuff := buff, aggressive
    endTime := if ticks = -1 then Int64.maxValue else 0 }

def setTicks (c : Condition) (newTicks : Int32) (now : Int64) : Condition :=
  { c with ticks := newTicks, endTime := newTicks.toInt64 + now }

def startCondition (c : Condition) (now : Int64) : Condition :=
  if 0 < c.ticks then { c with endTime := c.ticks.toInt64 + now } else c

/-- `executeCondition`: the remaining time goes down. -/
def executeCondition (c : Condition) (interval : Int32) : Condition :=
  if c.ticks = -1 then c
  else { c with ticks := if c.ticks - interval < 0 then 0 else c.ticks - interval }

theorem executeCondition_limited {c : Condition} (h : c.ticks ≠ -1) (interval : Int32) :
    (c.executeCondition interval).ticks ≠ -1 := by
  rw [executeCondition, if_neg h]
  dsimp only
  split
  · decide
  · rename_i hneg
    intro hend
    rw [hend] at hneg
    exact hneg (by decide)

/-- What `executeCondition` answers: the condition goes on. -/
def goesOn (c : Condition) (now : Int64) : Bool := c.ticks = -1 || now ≤ c.endTime

/-- `updateCondition`: the added condition takes the place of this one. -/
def updateCondition (c add : Condition) (now : Int64) : Bool :=
  if c.conditionType ≠ add.conditionType then false
  else if c.ticks = -1 ∧ 0 < add.ticks then false
  else if 0 ≤ add.ticks ∧ now + add.ticks.toInt64 < c.endTime then false
  else true

def isPersistent (c : Condition) : Bool :=
  if c.ticks = -1 then false
  else c.id = idDefault || c.id = idCombat || c.conditionType = .muted

end Condition
end ForgottenServer.Conditions
