import ForgottenServer.Combat.Absorption
import ForgottenServer.Conditions.Attributes
import ForgottenServer.Lib.Words

/-! # Damage and the mana shield

`combatChangeHealth` on machine integers, for damage. Where the damage, the health and
the mana are in range, it does what the version over the integers does, and there the
damage is split between mana and health without a rest. -/
namespace ForgottenServer.Combat.ManaShield
open ForgottenServer.Lib.Words

structure Damage where
  primary : Int32
  secondary : Int32 := 0
  /-- the type of the primary damage is `COMBAT_UNDEFINEDDAMAGE` -/
  undefinedDamage : Bool := false
  /-- the origin is not `ORIGIN_NONE` -/
  hasOrigin : Bool := true
  deriving DecidableEq, Repr

/-- The scripts registered for the target. -/
structure Scripts where
  healthChange : Option (Damage → Damage) := none
  manaChange : Option (Damage → Damage) := none
  /-- every `CREATURE_EVENT_PREPAREDEATH` agrees -/
  prepareDeath : Bool := true

/-- What is asked of the two creatures. -/
structure Meeting where
  /-- the attacker's black skull does not let it touch this target -/
  blackSkull : Bool := false
  isAttackable : Bool := true
  /-- the target is a player with a mana shield -/
  manaShield : Bool := false
  deriving DecidableEq, Repr

def asked (damage : Damage) (script : Option (Damage → Damage)) : Option (Damage → Damage) :=
  if damage.hasOrigin then script else none

def absorb (damage : Damage) (manaDamage : Int32) : Damage :=
  let primary := damage.primary - manaDamage
  if primary < 0 then { damage with primary := 0, secondary := max 0 (damage.secondary + primary) }
  else { damage with primary }

/-- The mana shield; without a result, `combatChangeHealth` is done. -/
def shield (scripts : Scripts) (m : Meeting) (target : Conditions.Creature) (damage : Damage) :
    Option (Conditions.Creature × Damage) :=
  if m.manaShield ∧ ¬ damage.undefinedDamage then
    let manaDamage := min target.mana.toInt32 (damage.primary + damage.secondary)
    if manaDamage = 0 then some (target, damage)
    else
      match asked damage scripts.manaChange with
      | some script =>
        let damage := { script damage with hasOrigin := damage.hasOrigin }
        let healthChange := damage.primary + damage.secondary
        if healthChange = 0 then none
        else
          let manaDamage := min target.mana.toInt32 healthChange
          some (target.changeMana (-manaDamage), absorb damage manaDamage)
      | none => some (target.changeMana (-manaDamage), absorb damage manaDamage)
  else some (target, damage)

def clamp (targetHealth : Int32) (damage : Damage) : Damage :=
  if targetHealth ≤ damage.primary then { damage with primary := targetHealth, secondary := 0 }
  else if damage.secondary ≠ 0 then { damage with secondary := min damage.secondary (targetHealth - damage.primary) }
  else damage

/-- The last part: the target loses health, unless a script keeps it alive. -/
def hit (scripts : Scripts) (target : Conditions.Creature) (damage : Damage) : Bool × Conditions.Creature :=
  let clamped := clamp target.health damage
  let realDamage := clamped.primary + clamped.secondary
  if realDamage = 0 then (true, target)
  else if target.health ≤ realDamage ∧ ¬ scripts.prepareDeath then (false, target)
  else (true, target.changeHealth (-realDamage))

/-- A handler for the damage a script has changed, and its answer. -/
abbrev Again := Conditions.Creature → Damage → Bool × Conditions.Creature

def combatBody (again : Again) (scripts : Scripts) (m : Meeting) (target : Conditions.Creature)
    (damage : Damage) : Bool × Conditions.Creature :=
  if 0 < damage.primary then
    if target.health ≤ 0 then (false, target)
    else if m.blackSkull then (false, target)
    else
      match asked damage scripts.healthChange with
      | some script => again target { script damage with hasOrigin := false }
      | none => (true, target.changeHealth damage.primary)
  else if ¬ m.isAttackable then (true, target)
  else if m.blackSkull then (false, target)
  else
    let damage := { damage with primary := damage.primary.abs, secondary := damage.secondary.abs }
    if damage.primary + damage.secondary = 0 then (true, target)
    else
      match shield scripts m target damage with
      | none => (true, target)
      | some (target, damage) =>
        if damage.primary + damage.secondary = 0 then (true, target)
        else
          match asked damage scripts.healthChange with
          | some script => again target { script damage with hasOrigin := false }
          | none => hit scripts target damage

/-- `combatChangeHealth`; the call to itself asks no script again. -/
def combatChangeHealth (scripts : Scripts) (m : Meeting) : Again :=
  combatBody (combatBody (fun target _ => (true, target)) scripts m) scripts m

/-! ## Against the integers -/

def Damage.toCombat (d : Damage) : CombatDamage :=
  { primary := d.primary.toInt
    secondary := d.secondary.toInt
    undefinedDamage := d.undefinedDamage
    hasOrigin := d.hasOrigin }

@[simp] theorem Damage.toCombat_primary (d : Damage) : d.toCombat.primary = d.primary.toInt := rfl

@[simp] theorem Damage.toCombat_secondary (d : Damage) : d.toCombat.secondary = d.secondary.toInt := rfl

/-- Without scripts. -/
def Meeting.toEncounter (m : Meeting) : Encounter :=
  { blackSkull := m.blackSkull, isAttackable := m.isAttackable, manaShield := m.manaShield }

@[simp] theorem Meeting.toEncounter_blackSkull (m : Meeting) : m.toEncounter.blackSkull = m.blackSkull := rfl

@[simp] theorem Meeting.toEncounter_isAttackable (m : Meeting) : m.toEncounter.isAttackable = m.isAttackable := rfl

/-- The health and the mana are those of the target. -/
structure Stands (c : Creature) (target : Conditions.Creature) : Prop where
  health : c.health = target.health.toInt
  mana : c.mana = target.mana.toNat
  infiniteMana : c.infiniteMana = target.infiniteMana

/-- Both components are positive, and so is their sum. -/
structure InRange (d : Damage) : Prop where
  primary : 0 ≤ d.primary.toInt
  secondary : 0 ≤ d.secondary.toInt
  sum : d.primary.toInt + d.secondary.toInt < 2 ^ 31

variable {c : Creature} {target : Conditions.Creature} {d : Damage}

theorem InRange.toInt_sum (h : InRange d) : (d.primary + d.secondary).toInt = d.primary.toInt + d.secondary.toInt := by
  have hprimary := h.primary
  have hsecondary := h.secondary
  exact toInt_add (by omega) h.sum

theorem InRange.sum_eq_zero (h : InRange d) :
    d.primary + d.secondary = 0 ↔ d.primary.toInt + d.secondary.toInt = 0 := by
  rw [← h.toInt_sum, ← Int32.toInt_inj]
  rfl

theorem absorb_agrees {manaDamage : Int32} (h : InRange d) (hnonneg : 0 ≤ manaDamage.toInt)
    (hle : manaDamage.toInt ≤ d.primary.toInt + d.secondary.toInt) :
    (absorb d manaDamage).toCombat = Combat.absorb d.toCombat manaDamage.toInt ∧ InRange (absorb d manaDamage) := by
  obtain ⟨hprimary, hsecondary, hsum⟩ := h
  have hsub : (d.primary - manaDamage).toInt = d.primary.toInt - manaDamage.toInt := toInt_sub (by omega) (by omega)
  unfold absorb Combat.absorb
  dsimp only
  rw [Damage.toCombat_primary, Damage.toCombat_secondary]
  by_cases hneg : d.primary.toInt - manaDamage.toInt < 0
  · have hlt : d.primary - manaDamage < 0 := Int32.lt_iff_toInt_lt.mpr (by rw [hsub]; exact hneg)
    have hadd : (d.secondary + (d.primary - manaDamage)).toInt =
        d.secondary.toInt + (d.primary.toInt - manaDamage.toInt) := by
      rw [toInt_add (by omega) (by omega), hsub]
    have hmax : (max 0 (d.secondary + (d.primary - manaDamage))).toInt =
        max 0 (d.secondary.toInt + (d.primary.toInt - manaDamage.toInt)) := by
      rw [toInt_max, hadd]
      rfl
    rw [if_pos hlt, if_pos hneg]
    refine ⟨?_, le_rfl, ?_, ?_⟩
    · simp only [Damage.toCombat, hmax]
      rfl
    · dsimp only
      rw [hmax]
      exact le_max_left _ _
    · dsimp only
      rw [hmax]
      change 0 + _ < _
      omega
  · have hnlt : ¬ d.primary - manaDamage < 0 := fun hlt => hneg (hsub ▸ Int32.lt_iff_toInt_lt.mp hlt)
    rw [if_neg hnlt, if_neg hneg]
    refine ⟨?_, ?_, hsecondary, ?_⟩
    · simp only [Damage.toCombat, hsub]
    · dsimp only
      omega
    · dsimp only
      omega

theorem clamp_agrees {health : Int32} (h : InRange d) (hhealth : 0 < health.toInt) :
    (clamp health d).toCombat = Combat.clamp health.toInt d.toCombat ∧ InRange (clamp health d) := by
  obtain ⟨hprimary, hsecondary, hsum⟩ := h
  have hlt := health.toInt_lt
  unfold clamp Combat.clamp
  rw [Damage.toCombat_primary, Damage.toCombat_secondary]
  by_cases hle : d.primary.toInt ≥ health.toInt
  · rw [if_pos (Int32.le_iff_toInt_le.mpr hle), if_pos hle]
    exact ⟨rfl, hhealth.le, le_rfl, by change health.toInt + 0 < _; omega⟩
  · rw [if_neg fun h => hle (Int32.le_iff_toInt_le.mp h), if_neg hle]
    have hzero : d.secondary = 0 ↔ d.secondary.toInt = 0 := by
      rw [← Int32.toInt_inj]
      rfl
    have hsub : (health - d.primary).toInt = health.toInt - d.primary.toInt := toInt_sub (by omega) (by omega)
    have hmin : (min d.secondary (health - d.primary)).toInt =
        min d.secondary.toInt (health.toInt - d.primary.toInt) := by
      rw [toInt_min, hsub]
    by_cases hnone : d.secondary.toInt = 0
    · rw [if_neg (not_not.mpr (hzero.mpr hnone)), if_neg (not_not.mpr hnone)]
      exact ⟨rfl, hprimary, hsecondary, hsum⟩
    · rw [if_pos fun h => hnone (hzero.mp h), if_pos hnone]
      refine ⟨?_, hprimary, ?_, ?_⟩
      · simp only [Damage.toCombat, hmin]
      · dsimp only
        omega
      · dsimp only
        omega

theorem changeMana_agrees {n : Int32} (h : Stands c target) (hmana : target.mana.toNat < 2 ^ 31)
    (hnonneg : 0 ≤ n.toInt) (hle : n.toInt ≤ target.mana.toNat) :
    Stands (c.changeMana (-n.toInt)) (target.changeMana (-n)) := by
  obtain ⟨hhealth, hsame, hflag⟩ := h
  have hneg : (-n).toInt = -n.toInt := toInt_neg (by omega)
  unfold Creature.changeMana Conditions.Creature.changeMana
  rw [hflag]
  split
  · exact ⟨hhealth, hsame, hflag⟩
  · have hnot : ¬ 0 < -n := by
      intro hpos
      have hpos := Int32.lt_iff_toInt_lt.mp hpos
      rw [hneg] at hpos
      change 0 < _ at hpos
      omega
    rw [if_neg (by omega), if_neg hnot]
    have hrest : (target.mana + (-n).toUInt32).toInt32.toInt = target.mana.toNat - n.toInt := by
      change (target.mana.toInt32 + -n).toInt = _
      have hword := toInt_toInt32 hmana
      rw [toInt_add (by omega) (by omega), hword, hneg, sub_eq_add_neg]
    have hkeep : ¬ (target.mana + (-n).toUInt32).toInt32 < 0 := by
      intro hlt
      have hlt := Int32.lt_iff_toInt_lt.mp hlt
      rw [hrest] at hlt
      change _ < 0 at hlt
      omega
    refine ⟨hhealth, ?_, rfl⟩
    dsimp only
    rw [if_neg hkeep, toNat_toUInt32 (by omega), hrest, hsame, max_eq_right (by omega), sub_eq_add_neg]

theorem changeHealth_agrees {n : Int32} (h : Stands c target) (hnonneg : 0 ≤ n.toInt)
    (hle : n.toInt ≤ target.health.toInt) : Stands (c.changeHealth (-n.toInt)) (target.changeHealth (-n)) := by
  obtain ⟨hhealth, hsame, hflag⟩ := h
  have hneg : (-n).toInt = -n.toInt := toInt_neg (by omega)
  have hlt := target.health.toInt_lt
  refine ⟨?_, hsame, hflag⟩
  have hrest : (target.health + -n).toInt = target.health.toInt - n.toInt := by
    rw [toInt_add (by omega) (by omega), hneg, sub_eq_add_neg]
  have hnot : ¬ 0 < -n := by
    intro hpos
    have hpos := Int32.lt_iff_toInt_lt.mp hpos
    rw [hneg] at hpos
    change 0 < _ at hpos
    omega
  have hkeep : ¬ target.health + -n < 0 := by
    intro hlt
    have hlt := Int32.lt_iff_toInt_lt.mp hlt
    rw [hrest] at hlt
    change _ < 0 at hlt
    omega
  simp only [Creature.changeHealth, Creature.changedHealth, Conditions.Creature.changeHealth]
  rw [if_neg (by omega), if_neg hnot, if_neg hkeep, hrest, hhealth, max_eq_right (by omega), sub_eq_add_neg]

theorem shield_agrees (m : Meeting) (h : Stands c target) (hd : InRange d) (hmana : target.mana.toNat < 2 ^ 31) :
    ∃ c' target' d', shield {} m target d = some (target', d') ∧
      Combat.shield m.toEncounter c d.toCombat = some (c', d'.toCombat) ∧ Stands c' target' ∧ InRange d' ∧
      target'.health = target.health := by
  have hkept : (target.changeMana (-min target.mana.toInt32 (d.primary + d.secondary))).health = target.health := by
    unfold Conditions.Creature.changeMana
    split <;> rfl
  have hmin : (min target.mana.toInt32 (d.primary + d.secondary)).toInt =
      min c.mana (d.primary.toInt + d.secondary.toInt) := by
    rw [toInt_min, toInt_toInt32 hmana, hd.toInt_sum, h.mana]
  have hzero : min target.mana.toInt32 (d.primary + d.secondary) = 0 ↔
      min c.mana (d.primary.toInt + d.secondary.toInt) = 0 := by
    rw [← hmin, ← Int32.toInt_inj]
    rfl
  have hmana' := h.mana
  have hprimary := hd.primary
  have hsecondary := hd.secondary
  unfold shield Combat.shield
  by_cases hshield : m.manaShield ∧ ¬ d.undefinedDamage
  · have hshield' : m.toEncounter.manaShield ∧ ¬ d.toCombat.undefinedDamage := hshield
    rw [if_pos hshield, if_pos hshield']
    dsimp only
    rw [Damage.toCombat_primary, Damage.toCombat_secondary]
    by_cases hnone : min c.mana (d.primary.toInt + d.secondary.toInt) = 0
    · rw [if_pos (hzero.mpr hnone), if_pos hnone]
      exact ⟨_, _, _, rfl, rfl, h, hd, rfl⟩
    · rw [if_neg fun h => hnone (hzero.mp h), if_neg hnone]
      have hasked : asked d none = none := ite_self none
      have hasked' : Combat.asked d.toCombat m.toEncounter.manaChange = none := ite_self none
      simp only [hasked, hasked']
      obtain ⟨habsorb, hrange⟩ := absorb_agrees hd (by rw [hmin]; omega) (by rw [hmin]; omega)
      have hstands := changeMana_agrees h hmana (by rw [hmin]; omega) (by rw [hmin]; omega)
      refine ⟨_, _, _, rfl, ?_, hstands, hrange, hkept⟩
      rw [habsorb, hmin]
  · have hshield' : ¬ (m.toEncounter.manaShield ∧ ¬ d.toCombat.undefinedDamage) := hshield
    rw [if_neg hshield, if_neg hshield']
    exact ⟨_, _, _, rfl, rfl, h, hd, rfl⟩

theorem hit_agrees (m : Meeting) (h : Stands c target) (hd : InRange d) (hhealth : 0 < target.health.toInt) :
    (hit {} target d).1 = (Combat.hit m.toEncounter c d.toCombat).1 ∧
      Stands (Combat.hit m.toEncounter c d.toCombat).2 (hit {} target d).2 := by
  obtain ⟨hclamp, hrange⟩ := clamp_agrees hd hhealth
  have htotal := clamp_total d.toCombat target.health.toInt hd.secondary
  rw [← hclamp, Damage.toCombat_primary, Damage.toCombat_secondary, ← hrange.toInt_sum] at htotal
  have hprimary := hrange.primary
  have hsecondary := hrange.secondary
  have hsum := hrange.toInt_sum
  unfold hit Combat.hit
  dsimp only
  rw [h.health, ← hclamp, Damage.toCombat_primary, Damage.toCombat_secondary, ← hsum]
  generalize hreal : (clamp target.health d).primary + (clamp target.health d).secondary = realDamage at *
  have hzero : realDamage = 0 ↔ realDamage.toInt = 0 := by
    rw [← Int32.toInt_inj]
    rfl
  by_cases hnone : realDamage.toInt = 0
  · rw [if_pos (hzero.mpr hnone), if_pos hnone]
    exact ⟨rfl, h⟩
  · rw [if_neg fun h => hnone (hzero.mp h), if_neg hnone, if_neg fun h => h.2 rfl, if_neg fun h => h.2 rfl]
    exact ⟨rfl, changeHealth_agrees h (by omega) (by omega)⟩

theorem abs_agrees (hprimary : d.primary ≤ 0) (hsecondary : d.secondary ≤ 0)
    (hsum : -(d.primary.toInt + d.secondary.toInt) < 2 ^ 31) :
    let d' : Damage := { d with primary := d.primary.abs, secondary := d.secondary.abs }
    InRange d' ∧ d'.toCombat =
      { d.toCombat with primary := |d.toCombat.primary|, secondary := |d.toCombat.secondary| } := by
  have hfirst : d.primary.toInt ≤ 0 := Int32.le_iff_toInt_le.mp hprimary
  have hsecond : d.secondary.toInt ≤ 0 := Int32.le_iff_toInt_le.mp hsecondary
  have habs : d.primary.abs.toInt = |d.primary.toInt| := toInt_abs (by omega)
  have habs' : d.secondary.abs.toInt = |d.secondary.toInt| := toInt_abs (by omega)
  refine ⟨⟨?_, ?_, ?_⟩, ?_⟩
  · dsimp only
    rw [habs]
    exact abs_nonneg _
  · dsimp only
    rw [habs']
    exact abs_nonneg _
  · dsimp only
    rw [habs, habs', abs_of_nonpos hfirst, abs_of_nonpos hsecond]
    omega
  · simp only [Damage.toCombat, habs, habs']

theorem combatChangeHealth_agrees (m : Meeting) (h : Stands c target) (hprimary : d.primary ≤ 0)
    (hsecondary : d.secondary ≤ 0) (hsum : -(d.primary.toInt + d.secondary.toInt) < 2 ^ 31)
    (hhealth : 0 < target.health) (hmana : target.mana.toNat < 2 ^ 31) :
    (combatChangeHealth {} m target d).1 = (Combat.combatChangeHealth m.toEncounter c d.toCombat).1 ∧
      Stands (Combat.combatChangeHealth m.toEncounter c d.toCombat).2 (combatChangeHealth {} m target d).2 := by
  have hnot : ¬ 0 < d.primary := fun hlt => Int32.lt_irrefl (Int32.lt_of_lt_of_le hlt hprimary)
  have hnot' : ¬ d.toCombat.primary > 0 := not_lt.mpr (Int32.le_iff_toInt_le.mp hprimary)
  obtain ⟨hrange, hcombat⟩ := abs_agrees hprimary hsecondary hsum
  unfold combatChangeHealth Combat.combatChangeHealth
  rw [combatBody, Combat.combatBody, if_neg hnot, if_neg hnot', Meeting.toEncounter_isAttackable,
    Meeting.toEncounter_blackSkull]
  by_cases hattackable : m.isAttackable
  · rw [if_neg (not_not.mpr hattackable), if_neg (not_not.mpr hattackable)]
    by_cases hskull : m.blackSkull
    · rw [if_pos hskull, if_pos hskull]
      exact ⟨rfl, h⟩
    · rw [if_neg hskull, if_neg hskull]
      rw [← hcombat]
      generalize ({ d with primary := d.primary.abs, secondary := d.secondary.abs } : Damage) = d' at hrange ⊢
      dsimp only
      obtain ⟨c', target', rest, hshield, hshield', hstands, hrest, hkept⟩ := shield_agrees m h hrange hmana
      have hasked : asked rest none = none := ite_self none
      have hasked' : Combat.asked rest.toCombat m.toEncounter.healthChange = none := ite_self none
      simp only [hshield, hshield', hasked, hasked', Damage.toCombat_primary, Damage.toCombat_secondary]
      by_cases hzero : d'.primary.toInt + d'.secondary.toInt = 0
      · rw [if_pos (hrange.sum_eq_zero.mpr hzero), if_pos hzero]
        exact ⟨rfl, h⟩
      · rw [if_neg fun h => hzero (hrange.sum_eq_zero.mp h), if_neg hzero]
        by_cases hnone : rest.primary.toInt + rest.secondary.toInt = 0
        · rw [if_pos (hrest.sum_eq_zero.mpr hnone), if_pos hnone]
          exact ⟨rfl, hstands⟩
        · rw [if_neg fun h => hnone (hrest.sum_eq_zero.mp h), if_neg hnone]
          have hlife : 0 < target'.health.toInt := by
            rw [hkept]
            exact Int32.lt_iff_toInt_lt.mp hhealth
          exact hit_agrees m hstands hrest hlife
  · rw [if_pos hattackable, if_pos hattackable]
    exact ⟨rfl, h⟩

/-! ## The split -/

/-- The whole of a damage. -/
def Damage.total (d : Damage) : ℤ := -(d.primary.toInt + d.secondary.toInt)

def Damage.toMana (d : Damage) (m : Meeting) (mana : UInt32) : ℤ :=
  if m.manaShield ∧ ¬ d.undefinedDamage then min mana.toNat d.total else 0

theorem absorbed_eq (m : Meeting) (h : Stands c target) (hprimary : d.primary ≤ 0) (hsecondary : d.secondary ≤ 0) :
    |d.toCombat.primary + d.toCombat.secondary| = d.total ∧
      absorbed m.toEncounter c d.toCombat = d.toMana m target.mana := by
  have habs : |d.toCombat.primary + d.toCombat.secondary| = d.total :=
    abs_of_nonpos (add_nonpos (Int32.le_iff_toInt_le.mp hprimary) (Int32.le_iff_toInt_le.mp hsecondary))
  refine ⟨habs, ?_⟩
  unfold absorbed Damage.toMana
  rw [habs, h.mana]
  rfl

theorem Damage.toMana_nonneg (d : Damage) (m : Meeting) (mana : UInt32) (hprimary : d.primary ≤ 0)
    (hsecondary : d.secondary ≤ 0) : 0 ≤ d.toMana m mana := by
  have hfirst : d.primary.toInt ≤ 0 := Int32.le_iff_toInt_le.mp hprimary
  have hsecond : d.secondary.toInt ≤ 0 := Int32.le_iff_toInt_le.mp hsecondary
  unfold Damage.toMana Damage.total
  split
  · omega
  · exact le_rfl

theorem Damage.toMana_le (d : Damage) (m : Meeting) (mana : UInt32) : d.toMana m mana ≤ mana.toNat := by
  unfold Damage.toMana
  split
  · exact min_le_left _ _
  · exact Int.natCast_nonneg _

/-- Unless a black skull forbids it, the mana gives what it can and the health the rest;
infinite mana is not used up. -/
theorem damage_split (m : Meeting) (target : Conditions.Creature) (d : Damage) (hattackable : m.isAttackable = true)
    (hprimary : d.primary ≤ 0) (hsecondary : d.secondary ≤ 0) (hsum : d.total < 2 ^ 31)
    (hhealth : 0 < target.health) (hmana : target.mana.toNat < 2 ^ 31) :
    let result := combatChangeHealth {} m target d
    let toMana := d.toMana m target.mana
    if m.blackSkull then result = (false, target)
    else
      result.1 = true ∧ (result.2.mana.toNat : ℤ) = target.mana.toNat - (if target.infiniteMana then 0 else toMana) ∧
        result.2.health.toInt = target.health.toInt - min target.health.toInt (d.total - toMana) ∧
        0 ≤ result.2.health.toInt := by
  have hnot : ¬ 0 < d.primary := fun hlt => Int32.lt_irrefl (Int32.lt_of_lt_of_le hlt hprimary)
  dsimp only
  split
  · rename_i hskull
    unfold combatChangeHealth combatBody
    rw [if_neg hnot, if_neg (not_not.mpr hattackable), if_pos hskull]
  · rename_i hskull
    let c : Creature :=
      { isPlayer := true, health := target.health.toInt, healthMax := 0, mana := target.mana.toNat
        infiniteMana := target.infiniteMana }
    have hstands : Stands c target := ⟨rfl, rfl, rfl⟩
    have hlife : 0 < c.health := Int32.lt_iff_toInt_lt.mp hhealth
    obtain ⟨habs, habsorbed⟩ := absorbed_eq m hstands hprimary hsecondary
    obtain ⟨hanswer, hafter⟩ := combatChangeHealth_agrees m hstands hprimary hsecondary hsum hhealth hmana
    obtain ⟨hanswer', hmana', hhealth'⟩ := combatChangeHealth_drains m.toEncounter c d.toCombat rfl rfl rfl
      hattackable (Bool.eq_false_iff.mpr hskull) (Int32.le_iff_toInt_le.mp hprimary)
      (Int32.le_iff_toInt_le.mp hsecondary)
      (Int.natCast_nonneg _) hlife
    rw [habs, habsorbed, hafter.health] at hhealth'
    rw [habsorbed, hafter.mana] at hmana'
    refine ⟨hanswer.trans hanswer', ?_, hhealth', ?_⟩
    · rw [hmana', changeMana_drains _ (d.toMana_nonneg m _ hprimary hsecondary) (d.toMana_le m _)]
    · rw [hhealth']
      have hle := min_le_left c.health (d.total - d.toMana m target.mana)
      exact sub_nonneg.mpr hle

theorem split_ninety :
    let result := combatChangeHealth {} { manaShield := true } { mana := 50, health := 100 }
      { primary := -60, secondary := -30 }
    (result.2.mana.toNat : ℤ) = 50 - 50 ∧ result.2.health.toInt = 100 - 40 := by
  obtain ⟨_, hmana, hhealth, _⟩ := damage_split { manaShield := true } { mana := 50, health := 100 }
    { primary := -60, secondary := -30 } rfl (by decide) (by decide) (by decide) (by decide) (by decide)
  exact ⟨hmana, hhealth⟩

/-- The mana is spared from a black skull, and where it is infinite. -/
theorem shield_spared : (combatChangeHealth {} { manaShield := true, blackSkull := true } { mana := 50, health := 100 }
        { primary := -30 }).2.mana = 50 ∧
      (combatChangeHealth {} { manaShield := true } { mana := 50, health := 100, infiniteMana := true }
        { primary := -30 }).2.mana = 50 ∧
      (50 : ℤ) ≠ 50 - min 50 ({ primary := -30 } : Damage).total := by
  decide

end ForgottenServer.Combat.ManaShield
