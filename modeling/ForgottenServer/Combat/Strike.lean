import ForgottenServer.Combat.BlockHit

/-! # Combat against one target and in an area

`Combat::doTargetCombat` and `Combat::doAreaCombat`, which say the same in two copies. An
outcome is the creature with its new health and mana and what was asked for after that: the
conditions given to `addCombatCondition`, the type of condition that is dispelled, and
whether the callback is called. -/
namespace ForgottenServer.Combat.Strike
open ForgottenServer.Conditions (Condition ConditionType)

structure Caster where
  isPlayer : Bool
  z : ℤ := 7
  /-- `PlayerFlag_IgnoreProtectionZone` -/
  ignoreProtectionZone : Bool := false
  healthMissing : Bool := false
  manaMissing : Bool := false
  criticalHitChance : ℤ := 0
  criticalHitAmount : ℤ := 0
  lifeLeechChance : ℤ := 0
  lifeLeechAmount : ℤ := 0
  manaLeechChance : ℤ := 0
  manaLeechAmount : ℤ := 0
  /-- the random numbers up to a hundred -/
  criticalRoll : ℤ := 100
  lifeLeechRoll : ℤ := 100
  manaLeechRoll : ℤ := 100

/-- What the caster regains of its health and its mana: a primary and a secondary value. -/
structure Leech where
  life : Option (ℤ × ℤ) := none
  mana : Option (ℤ × ℤ) := none
  deriving DecidableEq, Repr

structure CombatParams where
  conditionList : List Condition := []
  itemId : ℕ := 0
  dispelType : ConditionType := .none
  blockedByArmor : Bool := false
  blockedByShield : Bool := false
  targetCasterOrTopMost : Bool := false
  aggressive : Bool := true
  /-- there is a target callback -/
  targetCallback : Bool := false
  tileCallback : Option (Target → Target) := none

structure Outcome where
  target : Target
  conditions : List Condition := []
  dispelled : Option ConditionType := none
  called : Bool := false

/-- A tile of the area. -/
structure Square where
  z : ℤ := 7
  blockProjectile : Bool := false
  floorChange : Bool := false
  teleport : Bool := false
  protectionZone : Bool := false
  /-- `eventCreatureOnAreaCombat` has no objection -/
  onAreaCombat : Bool := true
  /-- the caster stands on the tile -/
  casterHere : Bool := false
  /-- what `Combat::canDoCombat` answers for the caster and a creature -/
  canDoCombat : Target → Bool := fun _ => true
  /-- what a field does to a creature when it is laid under it -/
  layField : Target → Target := id
  /-- the first is on top -/
  creatures : List Target := []

/-! ## The functions -/

def checkCriticalHit (caster : Caster) (damage : CombatDamage) : CombatDamage :=
  if damage.critical ∨ damage.origin = .condition then damage
  else if damage.primary.value > 0 ∨ damage.secondary.value > 0 then damage
  else if caster.criticalHitAmount ≠ 0 ∧ caster.criticalHitChance ≠ 0 ∧
      caster.criticalRoll ≤ caster.criticalHitChance then
    { damage with
      primary.value := damage.primary.value + percentOf damage.primary.value caster.criticalHitAmount
      secondary.value := damage.secondary.value + percentOf damage.secondary.value caster.criticalHitAmount
      critical := true }
  else damage

def checkLeech (caster : Caster) (damage : CombatDamage) : Leech :=
  if damage.origin = .condition then {}
  else if damage.primary.value > 0 ∨ damage.secondary.value > 0 then {}
  else
    let amount (skill : ℤ) := (percentOf |damage.primary.value| skill, percentOf |damage.secondary.value| skill)
    { life :=
        if caster.healthMissing ∧ caster.lifeLeechAmount ≠ 0 ∧ caster.lifeLeechChance ≠ 0 ∧
          caster.lifeLeechRoll ≤ caster.lifeLeechChance then some (amount caster.lifeLeechAmount) else none
      mana :=
        if caster.manaMissing ∧ caster.manaLeechAmount ≠ 0 ∧ caster.manaLeechChance ≠ 0 ∧
          caster.manaLeechRoll ≤ caster.manaLeechChance then some (amount caster.manaLeechAmount) else none }

/-- Players do each other half the damage. -/
def halve (damage : CombatDamage) : CombatDamage :=
  { damage with
    primary.value := damage.primary.value.tdiv 2
    secondary.value := damage.secondary.value.tdiv 2 }

/-- `Game::combatChangeMana`, with the call it makes to itself after a script. -/
def changeManaBody (again : Target → Combat.CombatDamage → Bool × Target) (e : Encounter) (t : Target)
    (damage : Combat.CombatDamage) : Bool × Target :=
  if ¬ t.creature.isPlayer then (true, t)
  else
    let manaChange := damage.primary + damage.secondary
    if manaChange > 0 then
      if e.blackSkull then (false, t)
      else match asked damage e.manaChange with
        | some script => again t { script damage with hasOrigin := false }
        | none => (true, { t with creature := t.creature.changeMana manaChange })
    else if ¬ e.isAttackable then (false, t)
    else if e.blackSkull then (false, t)
    else
      let (blockType, manaLoss, t) :=
        blockHit t .manadrain (min t.creature.mana (-manaChange)) false false false
      if blockType ≠ .none then (false, t)
      else if manaLoss ≤ 0 then (true, t)
      else match asked damage e.manaChange with
        | some script => again t { script damage with hasOrigin := false }
        | none => (true, { t with creature := t.creature.changeMana (-manaLoss) })

/-- Without an origin no script is asked, so the second call is the last. -/
def combatChangeMana (e : Encounter) : Target → Combat.CombatDamage → Bool × Target :=
  changeManaBody (changeManaBody (fun t _ => (true, t)) e) e

/-- The health or the mana is changed: whether the hit is blocked, whether the change
succeeds, and the damage and the target after it. -/
def hit (damage : CombatDamage) (params : CombatParams) (t : Target) : Bool × Bool × CombatDamage × Target :=
  if damage.primary.type ≠ .manadrain then
    let (blocked, damage, t) :=
      combatBlockHit damage t params.blockedByShield params.blockedByArmor (params.itemId ≠ 0)
    if blocked then (true, false, damage, t)
    else
      let (success, creature) := combatChangeHealth (damage.encounter t) t.creature damage.plain
      (false, success, damage, { t with creature := creature })
  else
    let (success, t) := combatChangeMana (damage.encounter t) t damage.plain
    (false, success, damage, t)

/-- The conditions of the list that the target is not immune to. -/
def effective (params : CombatParams) (t : Target) : List Condition :=
  params.conditionList.filter fun c => t.isCaster || !t.isImmuneCondition c.conditionType

/-- What follows a successful change, for the kind of block that is looked at. -/
def follow (params : CombatParams) (blockType : BlockType) (success : Bool) (t : Target) : Outcome where
  target := t
  conditions := if success ∧ (blockType = .none ∨ blockType = .armor) then effective params t else []
  dispelled := if success then some params.dispelType else none
  called := params.targetCallback

/-- The damage of `doTargetCombat` before it hits, and the leech. -/
def preparedDamage (caster : Option Caster) (damage : CombatDamage) (t : Target) : Leech × CombatDamage :=
  match caster with
  | none => ({}, damage)
  | some caster =>
    if caster.isPlayer ∧ (damage.primary.value < 0 ∨ damage.secondary.value < 0) then
      let damage := if t.creature.isPlayer ∧ ¬ t.skullBlack then halve damage else damage
      let damage := checkCriticalHit caster damage
      (checkLeech caster damage, damage)
    else ({}, damage)

def doTargetCombat (caster : Option Caster) (damage : CombatDamage) (params : CombatParams) (t : Target) :
    Leech × Outcome :=
  let (leech, damage) := preparedDamage caster damage t
  let (blocked, success, damage, t) := hit damage params t
  (leech, if blocked then { target := t } else follow params damage.blockType success t)

/-- `Combat::canDoCombat` for a tile. -/
def canDoCombat (caster : Option Caster) (s : Square) (aggressive : Bool) : Bool :=
  if s.blockProjectile || s.floorChange || s.teleport then false
  else
    match caster with
    | none => !(aggressive && s.protectionZone) && s.onAreaCombat
    | some caster =>
      if caster.z ≠ s.z then false
      else if caster.isPlayer && caster.ignoreProtectionZone then true
      else !(aggressive && s.protectionZone) && s.onAreaCombat

/-- `Combat::combatTileEffects`, as far as it touches a creature. -/
def combatTileEffects (params : CombatParams) (s : Square) (t : Target) : Target :=
  let t := if params.itemId ≠ 0 then s.layField t else t
  match params.tileCallback with
  | some tileCallback => tileCallback t
  | none => t

/-- The critical hit of `doAreaCombat`: what it adds to the two values, and the damage. -/
def areaCritical (caster : Caster) (damage : CombatDamage) : ℤ × ℤ × CombatDamage :=
  if ¬ damage.critical ∧ damage.origin ≠ .condition ∧ (damage.primary.value < 0 ∨ damage.secondary.value < 0) ∧
      caster.criticalHitChance ≠ 0 ∧ caster.criticalRoll ≤ caster.criticalHitChance then
    (percentOf damage.primary.value caster.criticalHitAmount,
      percentOf damage.secondary.value caster.criticalHitAmount, { damage with critical := true })
  else (0, 0, damage)

/-- The copy of the damage for one creature. -/
def damageCopy (casterIsPlayer : Bool) (damage : CombatDamage) (criticalPrimary criticalSecondary : ℤ)
    (t : Target) : CombatDamage :=
  if (damage.primary.value < 0 ∨ damage.secondary.value < 0) ∧ t.creature.isPlayer ∧ casterIsPlayer ∧
      ¬ t.skullBlack then
    { halve damage with
      primary.value := (halve damage).primary.value + criticalPrimary.tdiv 2
      secondary.value := (halve damage).secondary.value + criticalSecondary.tdiv 2 }
  else
    { damage with
      primary.value := damage.primary.value + criticalPrimary
      secondary.value := damage.secondary.value + criticalSecondary }

section Area
variable (caster : Option Caster) (damage : CombatDamage) (criticalPrimary criticalSecondary : ℤ)
  (params : CombatParams) (s : Square)

def casterIsPlayer : Bool := caster.any Caster.isPlayer

/-- One creature of the area is hit: whether the hit is blocked, and the outcome. -/
def hitInArea (t : Target) : Bool × Outcome :=
  let (blocked, success, _, t) :=
    hit (damageCopy (casterIsPlayer caster) damage criticalPrimary criticalSecondary t) params t
  -- the block that is looked at is that of the damage all creatures share
  (blocked, if blocked then { target := t } else follow params damage.blockType success t)

/-- `targetCasterOrTopMost` passes over the creature. -/
def passedOver (top : Bool) (t : Target) : Bool :=
  params.targetCasterOrTopMost && (if caster.isSome && s.casterHere then !t.isCaster else !top)

def mayBeHit (t : Target) : Bool := !params.aggressive || (!t.isCaster && s.canDoCombat t)

/-- The loop over the creatures of a tile. -/
def creatureLoop : Bool → List Target → List Outcome
  | _, [] => []
  | top, t :: rest =>
    if passedOver caster params s top t then { target := t } :: creatureLoop false rest
    else if mayBeHit params s t then
      let (blocked, outcome) := hitInArea caster damage criticalPrimary criticalSecondary params t
      if ¬ blocked ∧ params.targetCasterOrTopMost then outcome :: rest.map fun t => { target := t }
      else outcome :: creatureLoop false rest
    else { target := t } :: creatureLoop false rest

/-- The body of the loop over the tiles. -/
def tileLoop : List Outcome :=
  if canDoCombat caster s params.aggressive then
    creatureLoop caster damage criticalPrimary criticalSecondary params s true
      (s.creatures.map (combatTileEffects params s))
  else s.creatures.map fun t => { target := t }

end Area

/-- The outcomes for the creatures of each tile of the area. -/
def doAreaCombat (caster : Option Caster) (damage : CombatDamage) (params : CombatParams)
    (area : List Square) : Leech × List (List Outcome) :=
  match caster with
  | none => ({}, area.map (tileLoop caster damage 0 0 params))
  | some player =>
    if player.isPlayer then
      let leech := checkLeech player damage
      let (criticalPrimary, criticalSecondary, damage) := areaCritical player damage
      (leech, area.map (tileLoop caster damage criticalPrimary criticalSecondary params))
    else ({}, area.map (tileLoop caster damage 0 0 params))

end ForgottenServer.Combat.Strike
