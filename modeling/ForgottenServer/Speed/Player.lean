import ForgottenServer.Conditions.Classes

/-! # What changes the speed of a player

Haste and paralysis, mounts, zones and levels all change `varSpeed` by a difference.
Of the conditions only those of speed and outfits are looked at. -/
namespace ForgottenServer.Speed
open ForgottenServer.Conditions

structure Mount where
  id : UInt8
  clientId : UInt16
  speed : Int32
  premium : Bool
  deriving DecidableEq, Repr

abbrev Mounts := List Mount

def Mounts.getMountByID (mounts : Mounts) (id : UInt8) : Option Mount :=
  mounts.find? fun m => m.id = id

def Mounts.getMountByClientID (mounts : Mounts) (clientId : UInt16) : Option Mount :=
  mounts.find? fun m => m.clientId = clientId

/-- The fields of `Outfit_t` that are looked at. -/
structure Look where
  lookType : UInt16 := 0
  lookAddons : UInt8 := 0
  lookMount : UInt16 := 0
  deriving DecidableEq, Repr

inductive Active
  | speed (c : ConditionSpeed)
  | outfit (c : ConditionOutfit)

def Active.base : Active → Condition
  | .speed c => c.toCondition
  | .outfit c => c.toCondition

/-- `executeCondition`, for the conditions of both classes that of the base. -/
def Active.execute (interval : Int32) : Active → Active
  | .speed c => .speed { c with toCondition := c.toCondition.executeCondition interval }
  | .outfit c => .outfit { c with toCondition := c.toCondition.executeCondition interval }

/-- `getCondition` finds `c` when it looks for the type and the ids of `add`. -/
def Active.sameAs (c add : Active) : Bool :=
  c.base.conditionType = add.base.conditionType && c.base.id = add.base.id && c.base.subId = add.base.subId

/-- What a function looks up outside the player: the clock, the delay of the walk at a
speed, the group, the account, the tile, the outfits and what `uniform_random` gives for
the formula of a condition and the base speed. -/
structure Env where
  now : Int64
  walkDelay : Int32 → Int32 := fun _ => 0
  isSuppress : ConditionType → Bool := fun _ => false
  access : Bool := false
  premium : Bool := false
  protectionZone : Bool := false
  allowChangeOutfit : Bool := true
  isOutfit : UInt16 → Bool := fun _ => true
  canWear : UInt16 → UInt8 → Bool := fun _ _ => true
  drawn : ConditionSpeed → UInt32 → Int32 := fun _ _ => 0

def PLAYER_MAX_SPEED : UInt32 := 1500

def PSTRG_MOUNTS_RANGE_START : ℕ := 10002001

def PSTRG_MOUNTS_CURRENTMOUNT : ℕ := PSTRG_MOUNTS_RANGE_START + 10

/-- The key of the storage in which the mount is a bit. -/
def mountKey (mountId : UInt8) : ℕ := PSTRG_MOUNTS_RANGE_START + (mountId - 1).toNat / 31

def mountBit (mountId : UInt8) : Int32 := 1 <<< Int32.ofNat ((mountId - 1).toNat % 31)

structure Player where
  level : UInt32 := 1
  vocationBaseSpeed : UInt32 := 220
  setMaxSpeed : Bool := false
  baseSpeed : UInt32 := 220
  varSpeed : Int32 := 0
  conditions : List Active := []
  storageMap : ℕ → Option Int32 := fun _ => none
  defaultOutfit : Look := {}
  wasMounted : Bool := false
  lastToggleMount : Int64 := 0

namespace Player

def getSpeed (p : Player) : Int32 := (p.baseSpeed + p.varSpeed.toUInt32).toInt32

/-- `Game::changeSpeed`, where the difference to the base speed is one of `uint32_t`. -/
def changeSpeed (p : Player) (varSpeedDelta : Int32) : Player :=
  { p with varSpeed := (p.getSpeed.toUInt32 - p.baseSpeed).toInt32 + varSpeedDelta }

def updateBaseSpeed (p : Player) : Player :=
  { p with baseSpeed :=
      if !p.setMaxSpeed then p.vocationBaseSpeed + 2 * (p.level - 1) else PLAYER_MAX_SPEED }

/-- What `addExperience` and `removeExperience` do when the level is another one. -/
def changeLevel (p : Player) (level : UInt32) : Player :=
  if p.level ≠ level then ({ p with level } : Player).updateBaseSpeed.changeSpeed 0 else p

/-! ## Mounts -/

def isMounted (p : Player) : Bool := p.defaultOutfit.lookMount ≠ 0

def addStorageValue (p : Player) (key : ℕ) (value : Int32) : Player :=
  { p with storageMap := fun k => if k = key then (if value ≠ -1 then some value else none) else p.storageMap k }

def getCurrentMount (p : Player) : UInt8 :=
  ((p.storageMap PSTRG_MOUNTS_CURRENTMOUNT).getD 0).toUInt32.toUInt8

def setCurrentMount (p : Player) (mountId : UInt8) : Player :=
  p.addStorageValue PSTRG_MOUNTS_CURRENTMOUNT (mountId.toUInt32.toInt32)

def hasMount (p : Player) (env : Env) (mount : Mount) : Bool :=
  if env.access then true
  else if mount.premium && !env.premium then false
  else
    match p.storageMap (mountKey mount.id) with
    | none => false
    | some value => mountBit mount.id &&& value ≠ 0

def tameMount (p : Player) (mounts : Mounts) (mountId : UInt8) : Player × Bool :=
  if (mounts.getMountByID mountId).isNone then (p, false)
  else
    let value := (p.storageMap (mountKey mountId)).getD 0
    (p.addStorageValue (mountKey mountId) (value ||| mountBit mountId), true)

def dismount (p : Player) (mounts : Mounts) : Player :=
  let p :=
    match mounts.getMountByID p.getCurrentMount with
    | none => p
    | some mount => if 0 < mount.speed then p.changeSpeed (-mount.speed) else p
  { p with defaultOutfit := { p.defaultOutfit with lookMount := 0 } }

def untameMount (p : Player) (mounts : Mounts) (mountId : UInt8) : Player × Bool :=
  if (mounts.getMountByID mountId).isNone then (p, false)
  else
    match p.storageMap (mountKey mountId) with
    | none => (p, true)
    | some value =>
      let p := p.addStorageValue (mountKey mountId) (value &&& ~~~mountBit mountId)
      if p.getCurrentMount = mountId then
        ((if p.isMounted then p.dismount mounts else p).setCurrentMount 0, true)
      else (p, true)

def hasCondition (p : Player) (env : Env) (type : ConditionType) : Bool :=
  !env.isSuppress type && p.conditions.any fun c =>
    c.base.conditionType = type && c.base.subId = 0 && (env.now ≤ c.base.endTime || c.base.ticks = -1)

/-- What the checks of `toggleMount` lead to when the player wants to mount. -/
inductive Ride
  | refused
  /-- The current mount is not the player's any more. -/
  | forgotten
  | on (mount : Mount)

def ride (p : Player) (mounts : Mounts) (env : Env) : Ride :=
  if p.isMounted then .refused
  else if !env.access && env.protectionZone then .refused
  else if !env.isOutfit p.defaultOutfit.lookType then .refused
  else if p.getCurrentMount = 0 then .refused
  else
    match mounts.getMountByID p.getCurrentMount with
    | none => .refused
    | some currentMount =>
      if !p.hasMount env currentMount then .forgotten
      else if currentMount.premium && !env.premium then .refused
      else if p.hasCondition env .outfit then .refused
      else .on currentMount

def isExhausted (p : Player) (env : Env) : Bool :=
  env.now - p.lastToggleMount < 3000 && !p.wasMounted

def toggleMount (p : Player) (mounts : Mounts) (env : Env) (mount : Bool) : Player × Bool :=
  if p.isExhausted env then (p, false)
  else if mount then
    match p.ride mounts env with
    | .refused => (p, false)
    | .forgotten => (p.setCurrentMount 0, false)
    | .on currentMount =>
      let p := { p with defaultOutfit := { p.defaultOutfit with lookMount := currentMount.clientId } }
      let p := if currentMount.speed ≠ 0 then p.changeSpeed currentMount.speed else p
      ({ p with lastToggleMount := env.now }, true)
  else if !p.isMounted then (p, false)
  else ({ p.dismount mounts with lastToggleMount := env.now }, true)

/-- `onChangeZone`, for the protection zone and for the others. -/
def onChangeZone (p : Player) (mounts : Mounts) (env : Env) (protection : Bool) : Player :=
  if protection then
    if !env.access && p.isMounted then { p.dismount mounts with wasMounted := true } else p
  else if p.wasMounted then { (p.toggleMount mounts env true).1 with wasMounted := false }
  else p

/-- The end of `playerChangeOutfit`. -/
def wear (p : Player) (env : Env) (outfit : Look) : Player :=
  if env.canWear outfit.lookType outfit.lookAddons then { p with defaultOutfit := outfit } else p

/-- `Game::playerChangeOutfit` -/
def playerChangeOutfit (p : Player) (mounts : Mounts) (env : Env) (outfit : Look) : Player :=
  if !env.allowChangeOutfit then p
  else
    let outfit := if env.isOutfit outfit.lookType then outfit else { outfit with lookMount := 0 }
    if outfit.lookMount ≠ 0 then
      match mounts.getMountByClientID outfit.lookMount with
      | none => p
      | some mount =>
        if !p.hasMount env mount then p
        else if p.isMounted then
          let q :=
            match mounts.getMountByID p.getCurrentMount with
            | none => p
            | some prevMount => p.changeSpeed (mount.speed - prevMount.speed)
          (q.setCurrentMount mount.id).wear env outfit
        else (p.setCurrentMount mount.id).wear env { outfit with lookMount := 0 }
    else (if p.isMounted then p.dismount mounts else p).wear env outfit

/-! ## Conditions -/

/-- `startCondition`: without a delta it is drawn from the formula. -/
def startSpeed (p : Player) (env : Env) (c : ConditionSpeed) : Player × ConditionSpeed :=
  let c := { c with
    toCondition := c.toCondition.startCondition env.now
    speedDelta := if c.speedDelta = 0 then env.drawn c p.baseSpeed else c.speedDelta }
  (p.changeSpeed c.speedDelta, c)

def startCondition (p : Player) (env : Env) : Active → Player × Active
  | .speed c => ((p.startSpeed env c).1, .speed (p.startSpeed env c).2)
  | .outfit c => (p, .outfit { c with toCondition := c.toCondition.startCondition env.now })

def endCondition (p : Player) : Active → Player
  | .speed c => p.changeSpeed (-c.speedDelta)
  | .outfit _ => p

/-- `ConditionSpeed::addCondition`: the added condition takes the place of `c`. -/
def mergeSpeed (p : Player) (env : Env) (c add : ConditionSpeed) : Player × ConditionSpeed :=
  if c.conditionType ≠ add.conditionType then (p, c)
  else if c.ticks = -1 ∧ 0 < add.ticks then (p, c)
  else
    let new := { add with
      toCondition := c.toCondition.setTicks add.ticks env.now
      speedDelta := if add.speedDelta = 0 then env.drawn add p.baseSpeed else add.speedDelta }
    let newSpeedChange := new.speedDelta - c.speedDelta
    (if newSpeedChange ≠ 0 then p.changeSpeed newSpeedChange else p, new)

/-- `addCondition` of the condition that is there already. Its class is that of its type. -/
def mergeCondition (p : Player) (env : Env) : Active → Active → Player × Active
  | .speed c, .speed add => ((p.mergeSpeed env c add).1, .speed (p.mergeSpeed env c add).2)
  | .outfit c, .outfit add =>
    if c.toCondition.updateCondition add.toCondition env.now then
      (p, .outfit { add with toCondition := c.toCondition.setTicks add.ticks env.now })
    else (p, .outfit c)
  | c, _ => (p, c)

/-- The first condition in the place is merged with the added one. -/
def mergeFirst (p : Player) (env : Env) (add : Active) : List Active → Player × List Active
  | [] => (p, [])
  | c :: l =>
    if c.sameAs add then ((p.mergeCondition env c add).1, (p.mergeCondition env c add).2 :: l)
    else ((p.mergeFirst env add l).1, c :: (p.mergeFirst env add l).2)

/-- The loop of `removeCondition`, over the conditions that are left: those that match
end, and a paralysis stays while the player walks. -/
def removeLoop (p : Player) (env : Env) (force : Bool) (hits : Condition → Bool) : List Active → Player × List Active
  | [] => (p, [])
  | c :: l =>
    if !hits c.base then
      ((p.removeLoop env force hits l).1, c :: (p.removeLoop env force hits l).2)
    else if !force && c.base.conditionType = .paralyze && 0 < env.walkDelay p.getSpeed then
      (p, c :: l)
    else (p.endCondition c).removeLoop env force hits l

def removeWhere (p : Player) (env : Env) (force : Bool) (hits : Condition → Bool) : Player :=
  { (p.removeLoop env force hits p.conditions).1 with
    conditions := (p.removeLoop env force hits p.conditions).2 }

def removeCondition (p : Player) (env : Env) (type : ConditionType) (force : Bool) : Player :=
  p.removeWhere env force fun c => c.conditionType = type

def removeConditionOfId (p : Player) (env : Env) (type : ConditionType) (id : Int8) (force : Bool) : Player :=
  p.removeWhere env force fun c => c.conditionType = type && c.id = id

/-- What `death` does with the conditions. -/
def removePersistent (p : Player) (env : Env) : Player :=
  p.removeWhere env true Condition.isPersistent

/-- `removeCondition` of the condition at a place of the list. -/
def removeConditionAt (p : Player) (env : Env) (i : ℕ) (force : Bool) : Player :=
  match p.conditions[i]? with
  | none => p
  | some c =>
    if !force && c.base.conditionType = .paralyze && 0 < env.walkDelay p.getSpeed then p
    else ({ p with conditions := p.conditions.eraseIdx i } : Player).endCondition c

/-- `Creature::onAddCondition` and what `Player::onAddCondition` adds to it. -/
def onAddCondition (p : Player) (mounts : Mounts) (env : Env) (type : ConditionType) : Player :=
  let p :=
    if type = .paralyze ∧ p.hasCondition env .haste then p.removeCondition env .haste false
    else if type = .haste ∧ p.hasCondition env .paralyze then p.removeCondition env .paralyze false
    else p
  if type = .outfit ∧ p.isMounted then p.dismount mounts else p

/-- `addCondition`. Haste has to wait while a paralysed player walks. -/
def addCondition (p : Player) (mounts : Mounts) (env : Env) (add : Active) (force : Bool) : Player × Bool :=
  if !force && add.base.conditionType = .haste && p.hasCondition env .paralyze && 0 < env.walkDelay p.getSpeed then
    (p, false)
  else if p.conditions.any (Active.sameAs · add) then
    ({ (p.mergeFirst env add p.conditions).1 with conditions := (p.mergeFirst env add p.conditions).2 }, true)
  else
    let (p, c) := p.startCondition env add
    (({ p with conditions := p.conditions ++ [c] } : Player).onAddCondition mounts env
      c.base.conditionType, true)

/-- The loop of `executeConditions`: those whose time is over end. -/
def executeLoop (p : Player) (env : Env) (interval : Int32) : List Active → Player × List Active
  | [] => (p, [])
  | c :: l =>
    let c := c.execute interval
    if c.base.goesOn env.now then
      ((p.executeLoop env interval l).1, c :: (p.executeLoop env interval l).2)
    else (p.endCondition c).executeLoop env interval l

def executeConditions (p : Player) (env : Env) (interval : Int32) : Player :=
  { (p.executeLoop env interval p.conditions).1 with conditions := (p.executeLoop env interval p.conditions).2 }

end Player

/-! ## Steps -/

inductive Event
  | addCondition (env : Env) (add : Active) (force : Bool)
  | removeCondition (env : Env) (type : ConditionType) (force : Bool)
  | removeConditionOfId (env : Env) (type : ConditionType) (id : Int8) (force : Bool)
  | removeConditionAt (env : Env) (i : ℕ) (force : Bool)
  | removePersistent (env : Env)
  | executeConditions (env : Env) (interval : Int32)
  | toggleMount (env : Env) (mount : Bool)
  | playerChangeOutfit (env : Env) (outfit : Look)
  | tameMount (mountId : UInt8)
  | untameMount (mountId : UInt8)
  | onChangeZone (env : Env) (protection : Bool)
  | changeLevel (level : UInt32)

def Player.step (mounts : Mounts) (p : Player) : Event → Player
  | .addCondition env add force => (p.addCondition mounts env add force).1
  | .removeCondition env type force => p.removeCondition env type force
  | .removeConditionOfId env type id force => p.removeConditionOfId env type id force
  | .removeConditionAt env i force => p.removeConditionAt env i force
  | .removePersistent env => p.removePersistent env
  | .executeConditions env interval => p.executeConditions env interval
  | .toggleMount env mount => (p.toggleMount mounts env mount).1
  | .playerChangeOutfit env outfit => p.playerChangeOutfit mounts env outfit
  | .tameMount mountId => (p.tameMount mounts mountId).1
  | .untameMount mountId => (p.untameMount mounts mountId).1
  | .onChangeZone env protection => p.onChangeZone mounts env protection
  | .changeLevel level => p.changeLevel level

/-- The player after the login: on foot and without conditions. -/
def Player.login (p : Player) : Player :=
  { p with
    varSpeed := 0
    conditions := []
    defaultOutfit := { p.defaultOutfit with lookMount := 0 }
    wasMounted := false
    lastToggleMount := 0 }

end ForgottenServer.Speed
