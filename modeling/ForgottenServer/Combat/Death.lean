import ForgottenServer.Lib.Run
import Mathlib.Algebra.Order.Ring.Int
import Mathlib.Tactic.Linarith

/-! # Health, death and the tasks between them

A creature whose health is changed to zero is not dead yet: `changeHealth` queues
`executeDeath`, and other tasks run before it. The model has one creature, the
number of its queued deaths, and two logs: the health at each `onDeath` and how
often the health has dropped to zero. -/
namespace ForgottenServer.Combat
open ForgottenServer.Lib.Run

structure Creature where
  isPlayer : Bool
  health : ℤ
  healthMax : ℤ
  /-- `varStats[STAT_MAXHITPOINTS]` -/
  varMaxHealth : ℤ := 0
  mana : ℤ := 0
  manaMax : ℤ := 0
  /-- `varStats[STAT_MAXMANAPOINTS]` -/
  varMaxMana : ℤ := 0
  infiniteMana : Bool := false
  removed : Bool := false
  /-- the queued `executeDeath` tasks -/
  pending : ℕ := 0
  /-- the health at each `onDeath` -/
  deaths : List ℤ := []
  /-- how often the health came down to zero -/
  drops : ℕ := 0
  deriving DecidableEq, Repr

namespace Creature

/-- `getMaxHealth`, which `Player` overrides. -/
def getMaxHealth (c : Creature) : ℤ :=
  if c.isPlayer then max 1 (c.healthMax + c.varMaxHealth) else c.healthMax

def getMaxMana (c : Creature) : ℤ := max 0 (c.manaMax + c.varMaxMana)

/-- The health after `changeHealth`. -/
def changedHealth (c : Creature) (healthChange : ℤ) : ℤ :=
  if healthChange > 0 then c.health + min healthChange (c.getMaxHealth - c.health)
  else max 0 (c.health + healthChange)

def changeHealth (c : Creature) (healthChange : ℤ) : Creature :=
  let health := c.changedHealth healthChange
  { c with
    health := health
    pending := if health ≤ 0 then c.pending + 1 else c.pending
    drops := if 0 < c.health ∧ health ≤ 0 then c.drops + 1 else c.drops }

def changeMana (c : Creature) (manaChange : ℤ) : Creature :=
  if c.infiniteMana then c
  else if manaChange > 0 then { c with mana := c.mana + min manaChange (c.getMaxMana - c.mana) }
  else { c with mana := max 0 (c.mana + manaChange) }

end Creature

structure CombatDamage where
  primary : ℤ
  secondary : ℤ := 0
  /-- the type of the primary damage is `COMBAT_UNDEFINEDDAMAGE` -/
  undefinedDamage : Bool := false
  /-- the origin is not `ORIGIN_NONE` -/
  hasOrigin : Bool := true
  deriving DecidableEq, Repr

/-- What `combatChangeHealth` asks of the two creatures, and the scripts registered
for the target: what they make of the damage, if there are any. -/
structure Encounter where
  /-- the attacker's black skull does not let it touch this target -/
  blackSkull : Bool := false
  isAttackable : Bool := true
  /-- the target is a player with a mana shield -/
  manaShield : Bool := false
  healthChange : Option (CombatDamage → CombatDamage) := none
  manaChange : Option (CombatDamage → CombatDamage) := none
  /-- every `CREATURE_EVENT_PREPAREDEATH` agrees -/
  prepareDeath : Bool := true

def asked (damage : CombatDamage) (script : Option (CombatDamage → CombatDamage)) :
    Option (CombatDamage → CombatDamage) :=
  if damage.hasOrigin then script else none

/-- A handler for the damage a script has changed, and its answer. -/
abbrev Again := Creature → CombatDamage → Bool × Creature

def absorb (damage : CombatDamage) (manaDamage : ℤ) : CombatDamage :=
  if damage.primary - manaDamage < 0 then
    { damage with
      primary := 0
      secondary := max 0 (damage.secondary + (damage.primary - manaDamage)) }
  else { damage with primary := damage.primary - manaDamage }

/-- The mana shield; without a result, `combatChangeHealth` is done. -/
def shield (e : Encounter) (target : Creature) (damage : CombatDamage) : Option (Creature × CombatDamage) :=
  if e.manaShield ∧ ¬ damage.undefinedDamage then
    if min target.mana (damage.primary + damage.secondary) = 0 then some (target, damage)
    else
      match asked damage e.manaChange with
      | some script =>
        let damage' := { script damage with hasOrigin := damage.hasOrigin }
        let healthChange := damage'.primary + damage'.secondary
        if healthChange = 0 then none
        else
          let manaDamage := min target.mana healthChange
          some (target.changeMana (-manaDamage), absorb damage' manaDamage)
      | none =>
        let manaDamage := min target.mana (damage.primary + damage.secondary)
        some (target.changeMana (-manaDamage), absorb damage manaDamage)
  else some (target, damage)

def clamp (targetHealth : ℤ) (damage : CombatDamage) : CombatDamage :=
  if damage.primary ≥ targetHealth then { damage with primary := targetHealth, secondary := 0 }
  else if damage.secondary ≠ 0 then
    { damage with secondary := min damage.secondary (targetHealth - damage.primary) }
  else damage

/-- The last part: the target loses health, unless a script keeps it alive. -/
def hit (e : Encounter) (target : Creature) (damage : CombatDamage) : Bool × Creature :=
  let clamped := clamp target.health damage
  let realDamage := clamped.primary + clamped.secondary
  if realDamage = 0 then (true, target)
  else if realDamage ≥ target.health ∧ ¬ e.prepareDeath then (false, target)
  else (true, target.changeHealth (-realDamage))

/-- `combatChangeHealth`, with the call it makes to itself after a script. -/
def combatBody (again : Again) (e : Encounter) (target : Creature) (damage : CombatDamage) : Bool × Creature :=
  if damage.primary > 0 then
    if target.health ≤ 0 then (false, target)
    else if e.blackSkull then (false, target)
    else
      match asked damage e.healthChange with
      | some script => again target { script damage with hasOrigin := false }
      | none => (true, target.changeHealth damage.primary)
  else if ¬ e.isAttackable then (true, target)
  else if e.blackSkull then (false, target)
  else
    let damage := { damage with primary := |damage.primary|, secondary := |damage.secondary| }
    if damage.primary + damage.secondary = 0 then (true, target)
    else
      match shield e target damage with
      | none => (true, target)
      | some (target, damage) =>
        if damage.primary + damage.secondary = 0 then (true, target)
        else
          match asked damage e.healthChange with
          | some script => again target { script damage with hasOrigin := false }
          | none => hit e target damage

/-- Without an origin no script is asked, so the second call is the last. -/
def combatChangeHealth (e : Encounter) : Again :=
  combatBody (combatBody (fun target _ => (true, target)) e) e

/-- What a condition does to the health when its turn has come. -/
inductive Effect
  /-- `ConditionDamage` -/
  | damage (e : Encounter) (damage : CombatDamage)
  /-- `ConditionRegeneration`, whose gain is an unsigned number -/
  | regeneration (healthGain : ℕ)

def executeCondition (c : Creature) : Effect → Creature
  | .damage e damage => (combatChangeHealth e c damage).2
  | .regeneration healthGain => c.changeHealth (Int.bmod healthGain (2 ^ 32))

def executeConditions (c : Creature) (effects : List Effect) : Creature :=
  run executeCondition c effects

/-- `checkCreatures` passes over the creatures that have no health. -/
def checkCreature (c : Creature) (effects : List Effect) : Creature :=
  if 0 < c.health then executeConditions c effects else c

/-- `savePlayer` before it writes anything. -/
def savePlayer (c : Creature) : Creature :=
  if c.health ≤ 0 then c.changeHealth 1 else c

/-- `setVarStats` for the hitpoints. -/
def setVarMaxHealth (c : Creature) (modifier : ℤ) : Creature :=
  let c := { c with varMaxHealth := c.varMaxHealth + modifier }
  if c.health > c.getMaxHealth then c.changeHealth (c.getMaxHealth - c.health) else c

/-- What `Player::death` finds. -/
structure Loss where
  skillLoss : Bool := true
  blackSkull : Bool := false
  /-- the levels lost, and what each takes -/
  levels : ℕ := 0
  hpGain : ℤ := 0
  manaGain : ℤ := 0
  deriving DecidableEq, Repr

/-- `healthMax` after some levels are lost. -/
def loseLevels (gain : ℤ) : ℕ → ℤ → ℤ
  | 0, m => m
  | n + 1, m => loseLevels gain n (max 0 (m - gain))

/-- `death`: a monster's does nothing to its health. -/
def death (c : Creature) (l : Loss) : Creature :=
  if ¬ c.isPlayer then c
  else if l.skillLoss then
    let healthMax := loseLevels l.hpGain l.levels c.healthMax
    let manaMax := loseLevels l.manaGain l.levels c.manaMax
    { c with
      healthMax := healthMax
      manaMax := manaMax
      health := if l.blackSkull then 40 else healthMax
      mana := if l.blackSkull then 0 else manaMax }
  else { c with health := c.healthMax }

def onDeath (c : Creature) (l : Loss) (droppedCorpse : Bool) : Creature :=
  let c := death { c with deaths := c.health :: c.deaths } l
  if droppedCorpse then { c with removed := true } else c

/-- The dispatcher runs one of the queued `executeDeath` tasks. -/
def executeDeath (c : Creature) (l : Loss) (droppedCorpse : Bool) : Creature :=
  if c.pending = 0 then c
  else
    let c := { c with pending := c.pending - 1 }
    if ¬ c.removed then onDeath c l droppedCorpse else c

inductive Event
  | combat (e : Encounter) (damage : CombatDamage)
  | checkCreature (effects : List Effect)
  /-- the other callers of `changeHealth`: the cost of a weapon, a bed, a monster crushed -/
  | changeHealth (healthChange : ℤ)
  | savePlayer
  | setVarMaxHealth (modifier : ℤ)
  | executeDeath (l : Loss) (droppedCorpse : Bool)
  /-- the creature leaves the game -/
  | remove

def step (c : Creature) : Event → Creature
  | .combat e damage => (combatChangeHealth e c damage).2
  | .checkCreature effects => checkCreature c effects
  | .changeHealth healthChange => c.changeHealth healthChange
  | .savePlayer => savePlayer c
  | .setVarMaxHealth modifier => setVarMaxHealth c modifier
  | .executeDeath l droppedCorpse => executeDeath c l droppedCorpse
  | .remove => { c with removed := true }

/-! ## What combat can do -/

/-- Only the mana, or the health of a creature that still has some. -/
inductive Touched (c : Creature) : Creature → Prop
  | mana (m : ℤ) : Touched c { c with mana := m }
  | health (m n : ℤ) : 0 < c.health → Touched c ({ c with mana := m }.changeHealth n)

theorem Touched.of_mana {c c' : Creature} {m : ℤ} (h : Touched { c with mana := m } c') : Touched c c' := by
  cases h with
  | mana m' => exact .mana m'
  | health m' n hn => exact .health m' n hn

theorem changeMana_eq (c : Creature) (n : ℤ) : ∃ m, c.changeMana n = { c with mana := m } := by
  unfold Creature.changeMana
  split_ifs
  · exact ⟨c.mana, rfl⟩
  · exact ⟨_, rfl⟩
  · exact ⟨_, rfl⟩

theorem absorb_primary (damage : CombatDamage) (manaDamage : ℤ) : 0 ≤ (absorb damage manaDamage).primary := by
  unfold absorb
  split_ifs with h
  · exact le_rfl
  · exact not_lt.mp h

theorem shield_eq {e : Encounter} {c c' : Creature} {damage damage' : CombatDamage}
    (h : shield e c damage = some (c', damage')) (hd : 0 ≤ damage.primary) :
    (∃ m, c' = { c with mana := m }) ∧ 0 ≤ damage'.primary := by
  unfold shield at h
  split at h
  · split at h
    · cases h; exact ⟨⟨c.mana, rfl⟩, hd⟩
    · split at h
      · dsimp only at h
        split at h
        · cases h
        · cases h; exact ⟨changeMana_eq _ _, absorb_primary _ _⟩
      · cases h; exact ⟨changeMana_eq _ _, absorb_primary _ _⟩
  · cases h; exact ⟨⟨c.mana, rfl⟩, hd⟩

theorem hit_touched (e : Encounter) {c : Creature} {damage : CombatDamage}
    (hc : 0 ≤ c.health) (hd : 0 ≤ damage.primary) : Touched c (hit e c damage).2 := by
  unfold hit
  dsimp only
  split_ifs with h₁ h₂
  · exact .mana c.mana
  · exact .mana c.mana
  · refine .health c.mana _ (lt_of_le_of_ne hc fun h₀ => h₁ ?_)
    simp [clamp, ← h₀, hd]

theorem combatBody_touched {again : Again} (e : Encounter) {c : Creature} (hc : 0 ≤ c.health)
    (hagain : ∀ m d, Touched c (again { c with mana := m } d).2) (damage : CombatDamage) :
    Touched c (combatBody again e c damage).2 := by
  unfold combatBody
  split
  · split_ifs with h₁ h₂
    · exact .mana c.mana
    · exact .mana c.mana
    · split
      · exact hagain c.mana _
      · exact .health c.mana _ (not_le.mp h₁)
  · dsimp only
    split
    · exact .mana c.mana
    split
    · exact .mana c.mana
    split
    · exact .mana c.mana
    split
    · exact .mana c.mana
    · rename_i hs
      obtain ⟨⟨m, rfl⟩, hp⟩ := shield_eq hs (abs_nonneg _)
      split
      · exact .mana m
      split
      · exact hagain m _
      · have hhit : Touched { c with mana := m } (hit e { c with mana := m } _).2 :=
          hit_touched e hc hp
        exact hhit.of_mana

theorem combatChangeHealth_touched (e : Encounter) {c : Creature} (hc : 0 ≤ c.health)
    (damage : CombatDamage) : Touched c (combatChangeHealth e c damage).2 :=
  combatBody_touched e hc (fun m d => (combatBody_touched e (c := { c with mana := m }) hc
      (fun m' _ => .mana m') d).of_mana) damage

/-! ## One death for each drop -/

structure Sound (c : Creature) : Prop where
  health : 0 ≤ c.health
  healthMax : 0 ≤ c.healthMax
  zero : ∀ h ∈ c.deaths, h = 0
  atMost : c.deaths.length ≤ c.drops
  once : c.removed = false → c.deaths.length + c.pending = c.drops
  due : c.removed = false → c.pending = 0 ∨ c.pending = 1 ∧ c.health = 0

theorem getMaxHealth_nonneg {c : Creature} (hc : 0 ≤ c.healthMax) : 0 ≤ c.getMaxHealth := by
  unfold Creature.getMaxHealth
  split_ifs
  · exact le_trans zero_le_one (le_max_left _ _)
  · exact hc

theorem changedHealth_nonneg {c : Creature} (hc : Sound c) (n : ℤ) : 0 ≤ c.changedHealth n := by
  have hmax := getMaxHealth_nonneg hc.healthMax
  have hhealth := hc.health
  unfold Creature.changedHealth
  split_ifs
  · omega
  · exact le_max_left _ _

theorem Sound.changeHealth {c : Creature} (hc : Sound c) (hlife : 0 < c.health) (n : ℤ) :
    Sound (c.changeHealth n) := by
  have hn := changedHealth_nonneg hc n
  have hidle : c.removed = false → c.pending = 0 := fun hr =>
    (hc.due hr).resolve_right fun h => hlife.ne' h.2
  refine ⟨hn, hc.healthMax, hc.zero, ?_, fun hr => ?_, fun hr => ?_⟩
  · refine le_trans hc.atMost ?_
    simp only [Creature.changeHealth]
    split_ifs <;> omega
  · have honce := hc.once hr
    simp only [Creature.changeHealth, hlife, true_and]
    split_ifs <;> omega
  · simp only [Creature.changeHealth, hidle hr]
    split_ifs with h
    · exact .inr ⟨rfl, le_antisymm h hn⟩
    · exact .inl rfl

theorem Sound.mana {c : Creature} (hc : Sound c) (m : ℤ) : Sound { c with mana := m } :=
  ⟨hc.health, hc.healthMax, hc.zero, hc.atMost, hc.once, hc.due⟩

theorem Sound.touched {c c' : Creature} (hc : Sound c) (h : Touched c c') : Sound c' := by
  cases h with
  | mana m => exact hc.mana m
  | health m n hn => exact (hc.mana m).changeHealth hn n

theorem Sound.setVarMaxHealth {c : Creature} (hc : Sound c) (modifier : ℤ) :
    Sound (setVarMaxHealth c modifier) := by
  unfold ForgottenServer.Combat.setVarMaxHealth
  have hv : Sound { c with varMaxHealth := c.varMaxHealth + modifier } :=
    ⟨hc.health, hc.healthMax, hc.zero, hc.atMost, hc.once, hc.due⟩
  dsimp only
  split_ifs with h
  · exact hv.changeHealth (lt_of_le_of_lt (getMaxHealth_nonneg hv.healthMax) h) _
  · exact hv

theorem loseLevels_nonneg (gain : ℤ) {m : ℤ} (hm : 0 ≤ m) (n : ℕ) : 0 ≤ loseLevels gain n m := by
  induction n generalizing m with
  | zero => exact hm
  | succ n ih => exact ih (le_max_left _ _)

theorem Sound.death {c : Creature} (hc : Sound c) (hp : c.removed = false → c.pending = 0)
    (l : Loss) : Sound (death c l) := by
  unfold ForgottenServer.Combat.death
  have hmax := loseLevels_nonneg l.hpGain hc.healthMax l.levels
  split
  · exact hc
  split
  · refine ⟨?_, hmax, hc.zero, hc.atMost, hc.once, fun hr => .inl (hp hr)⟩
    dsimp only
    split_ifs
    · decide
    · exact hmax
  · exact ⟨hc.healthMax, hc.healthMax, hc.zero, hc.atMost, hc.once, fun hr => .inl (hp hr)⟩

theorem Sound.remove {c : Creature} (hc : Sound c) : Sound { c with removed := true } :=
  ⟨hc.health, hc.healthMax, hc.zero, hc.atMost, nofun, nofun⟩

theorem Sound.executeDeath {c : Creature} (hc : Sound c) (l : Loss) (droppedCorpse : Bool) :
    Sound (executeDeath c l droppedCorpse) := by
  unfold ForgottenServer.Combat.executeDeath
  split_ifs with hp
  · exact hc
  · dsimp only
    split
    · -- the task is the only one, and the health is still zero
      rename_i hr
      have hr : c.removed = false := by simpa using hr
      obtain ⟨hpending, hhealth⟩ := (hc.due hr).resolve_left hp
      have honce := hc.once hr
      have hdead : Sound { c with
          pending := c.pending - 1
          deaths := c.health :: c.deaths } := by
        refine ⟨hc.health, hc.healthMax, ?_, ?_, fun _ => ?_, fun _ => .inl ?_⟩
        · intro h hh
          rcases List.mem_cons.mp hh with rfl | hh
          · exact hhealth
          · exact hc.zero h hh
        · simp only [List.length_cons]; omega
        · simp only [List.length_cons]; omega
        · simp only [hpending]
      have hafter := hdead.death (fun _ => by simp only [hpending]) l
      unfold onDeath
      dsimp only
      split
      · exact hafter.remove
      · exact hafter
    · rename_i hr
      exact ⟨hc.health, hc.healthMax, hc.zero, hc.atMost,
        fun h => absurd h (by simpa using hr), fun h => absurd h (by simpa using hr)⟩

def Effect.Timely (c : Creature) : Effect → Prop
  | .damage _ _ => True
  | .regeneration _ => 0 < c.health

instance : ∀ c e, Decidable (Effect.Timely c e)
  | _, .damage _ _ => .isTrue trivial
  | c, .regeneration _ => inferInstanceAs (Decidable (0 < c.health))

/-- Outside combat, no change of health on a creature without any. -/
def Event.Timely (c : Creature) : Event → Prop
  | .checkCreature effects => 0 < c.health → Along executeCondition Effect.Timely c effects
  | .changeHealth _ => 0 < c.health
  | .savePlayer => 0 < c.health
  | _ => True

instance : ∀ c e, Decidable (Event.Timely c e)
  | c, .checkCreature effects => inferInstanceAs
      (Decidable (0 < c.health → Along executeCondition Effect.Timely c effects))
  | c, .changeHealth _ => inferInstanceAs (Decidable (0 < c.health))
  | c, .savePlayer => inferInstanceAs (Decidable (0 < c.health))
  | _, .combat _ _ => .isTrue trivial
  | _, .setVarMaxHealth _ => .isTrue trivial
  | _, .executeDeath _ _ => .isTrue trivial
  | _, .remove => .isTrue trivial

theorem Sound.condition {c : Creature} (hc : Sound c) {e : Effect} (he : e.Timely c) :
    Sound (executeCondition c e) := by
  cases e with
  | damage e damage => exact hc.touched (combatChangeHealth_touched e hc.health damage)
  | regeneration healthGain => exact hc.changeHealth he _

theorem Sound.check {c : Creature} (hc : Sound c) {effects : List Effect}
    (he : 0 < c.health → Along executeCondition Effect.Timely c effects) : Sound (checkCreature c effects) := by
  unfold checkCreature
  split_ifs with h
  · exact inv_run (fun c e hc he => hc.condition he) hc (he h)
  · exact hc

theorem Sound.next {c : Creature} (hc : Sound c) {e : Event} (he : e.Timely c) : Sound (step c e) := by
  cases e with
  | combat e damage => exact hc.touched (combatChangeHealth_touched e hc.health damage)
  | checkCreature effects => exact hc.check he
  | changeHealth n => exact hc.changeHealth he n
  | savePlayer =>
    have hlife : ¬ c.health ≤ 0 := not_le.mpr he
    simpa only [step, savePlayer, if_neg hlife] using hc
  | setVarMaxHealth modifier => exact hc.setVarMaxHealth modifier
  | executeDeath l droppedCorpse => exact hc.executeDeath l droppedCorpse
  | remove => exact hc.remove

/-- A creature that has just come into the game. -/
structure Fresh (c : Creature) : Prop where
  health : 0 ≤ c.health
  healthMax : 0 ≤ c.healthMax
  removed : c.removed = false
  pending : c.pending = 0
  deaths : c.deaths = []
  drops : c.drops = 0

theorem Fresh.sound {c : Creature} (hc : Fresh c) : Sound c where
  health := hc.health
  healthMax := hc.healthMax
  zero := by simp [hc.deaths]
  atMost := by simp [hc.deaths]
  once _ := by simp [hc.deaths, hc.pending, hc.drops]
  due _ := .inl hc.pending

/-- Every death found the health at zero, no drop has caused two, and one whose task
has run on a creature still in the game has caused one. -/
structure DiesOnce (c : Creature) : Prop where
  zero : ∀ h ∈ c.deaths, h = 0
  atMost : c.deaths.length ≤ c.drops
  exactly : c.removed = false → c.pending = 0 → c.deaths.length = c.drops

instance (c : Creature) : Decidable (DiesOnce c) :=
  decidable_of_iff ((∀ h ∈ c.deaths, h = 0) ∧ c.deaths.length ≤ c.drops ∧
      (c.removed = false → c.pending = 0 → c.deaths.length = c.drops))
    ⟨fun ⟨h₁, h₂, h₃⟩ => ⟨h₁, h₂, h₃⟩, fun ⟨h₁, h₂, h₃⟩ => ⟨h₁, h₂, h₃⟩⟩

theorem Sound.diesOnce {c : Creature} (hc : Sound c) : DiesOnce c :=
  ⟨hc.zero, hc.atMost, fun hr hp => by simpa [hp] using hc.once hr⟩

theorem dies_once_for_each_drop (c : Creature) (es : List Event) (hc : Fresh c) (hes : Along step Event.Timely c es) :
    ∀ pre, pre <+: es → DiesOnce (run step c pre) := by
  intro pre hpre
  have hstep : ∀ s e, Sound s → Event.Timely s e → Sound (step s e) :=
    fun s e hs he => hs.next he
  exact (inv_reached hstep hc.sound hes pre hpre).diesOnce

def tenPoints : Effect := .damage {} { primary := -10 }

def survivor : Creature := { isPlayer := true, health := 10, healthMax := 10 }

/-- The survivor of a PvP zone. -/
def defeat : Event := .executeDeath { skillLoss := false } false

theorem dies_once_for_each_drop_twice : DiesOnce (run step survivor
      [.checkCreature [tenPoints], defeat, .checkCreature [.regeneration 1, tenPoints], defeat]) :=
  dies_once_for_each_drop survivor _ (by constructor <;> decide)
    (by decide) _ (List.prefix_refl _)

/-- Poison kills and the next condition of the same round regenerates. With a gain the
player dies at health one, without one the player dies twice. -/
theorem regeneration_before_the_death :
    (run step survivor [.checkCreature [tenPoints, .regeneration 1], defeat]).deaths = [1] ∧
    (run step survivor [.checkCreature [tenPoints, .regeneration 0], defeat, defeat]).drops = 1 ∧
    (run step survivor [.checkCreature [tenPoints, .regeneration 0], defeat, defeat]).deaths = [10, 0] := by
  decide

end ForgottenServer.Combat
