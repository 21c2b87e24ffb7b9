import ForgottenServer.Combat.Death

/-! # What damage takes

Without scripts, a mana shield takes its part of the damage and the health the rest,
as far as there is any: over the integers, nothing is lost between the two components
of a damage. -/
namespace ForgottenServer.Combat

variable {e : Encounter} {c : Creature} {damage : CombatDamage}

theorem absorb_total {manaDamage : ℤ} (hsecondary : 0 ≤ damage.secondary)
    (hle : manaDamage ≤ damage.primary + damage.secondary) :
    (absorb damage manaDamage).primary + (absorb damage manaDamage).secondary =
        damage.primary + damage.secondary - manaDamage ∧
      0 ≤ (absorb damage manaDamage).secondary := by
  unfold absorb
  split
  · have hmax : max 0 (damage.secondary + (damage.primary - manaDamage)) =
        damage.secondary + (damage.primary - manaDamage) := max_eq_right (by omega)
    dsimp only
    rw [hmax]
    constructor <;> omega
  · exact ⟨by dsimp only; omega, hsecondary⟩

theorem clamp_total (damage : CombatDamage) (health : ℤ) (hsecondary : 0 ≤ damage.secondary) :
    (clamp health damage).primary + (clamp health damage).secondary =
      min health (damage.primary + damage.secondary) := by
  unfold clamp
  split
  · have hmin : min health (damage.primary + damage.secondary) = health := min_eq_left (by omega)
    rw [hmin]
    exact add_zero health
  · split
    · dsimp only
      omega
    · have hmin : min health (damage.primary + damage.secondary) = damage.primary + damage.secondary :=
        min_eq_right (by omega)
      rw [hmin]

/-- What a shield takes of the damage, whatever its sign. -/
def absorbed (e : Encounter) (c : Creature) (damage : CombatDamage) : ℤ :=
  if e.manaShield ∧ ¬ damage.undefinedDamage then min c.mana |damage.primary + damage.secondary| else 0

theorem changeMana_zero (hmana : 0 ≤ c.mana) : c.changeMana (-0) = c := by
  unfold Creature.changeMana
  split_ifs
  · rfl
  · omega
  · rw [neg_zero, add_zero, max_eq_right hmana]

theorem changeMana_drains {n : ℤ} (c : Creature) (hnonneg : 0 ≤ n) (hle : n ≤ c.mana) :
    (c.changeMana (-n)).mana = c.mana - if c.infiniteMana then 0 else n := by
  unfold Creature.changeMana
  split
  · exact (sub_zero _).symm
  · rw [if_neg (by omega)]
    exact max_eq_right (by omega)

theorem shield_drains (damage : CombatDamage) (hscript : e.manaChange = none) (hprimary : 0 ≤ damage.primary)
    (hsecondary : 0 ≤ damage.secondary) (hmana : 0 ≤ c.mana) :
    ∃ d : CombatDamage, shield e c damage = some (c.changeMana (-absorbed e c damage), d) ∧
      d.primary + d.secondary = damage.primary + damage.secondary - absorbed e c damage ∧
      0 ≤ d.primary ∧ 0 ≤ d.secondary := by
  unfold shield absorbed
  rw [abs_of_nonneg (add_nonneg hprimary hsecondary)]
  split
  · split
    · rename_i hzero
      rw [hzero, changeMana_zero hmana]
      exact ⟨damage, rfl, (sub_zero _).symm, hprimary, hsecondary⟩
    · have hasked : asked damage e.manaChange = none := by
        rw [hscript, asked, ite_self]
      simp only [hasked]
      obtain ⟨htotal, hsecond⟩ := absorb_total hsecondary (min_le_right c.mana (damage.primary + damage.secondary))
      exact ⟨_, rfl, htotal, absorb_primary _ _, hsecond⟩
  · rw [changeMana_zero hmana]
    exact ⟨damage, rfl, (sub_zero _).symm, hprimary, hsecondary⟩

theorem hit_drains (hscript : e.prepareDeath = true) (hhealth : 0 < c.health) (hprimary : 0 ≤ damage.primary)
    (hsecondary : 0 ≤ damage.secondary) :
    (hit e c damage).1 = true ∧ (hit e c damage).2.mana = c.mana ∧
      (hit e c damage).2.health = c.health - min c.health (damage.primary + damage.secondary) := by
  unfold hit
  dsimp only
  rw [clamp_total _ _ hsecondary]
  split
  · rename_i hzero
    exact ⟨rfl, rfl, by rw [hzero, sub_zero]⟩
  · rename_i hzero
    rw [if_neg (by simp [hscript])]
    refine ⟨rfl, rfl, ?_⟩
    simp only [Creature.changeHealth, Creature.changedHealth]
    rw [if_neg (by omega), max_eq_right (by omega), ← sub_eq_add_neg]

/-- The damage is split between mana and health. -/
theorem combatChangeHealth_drains (e : Encounter) (c : Creature) (damage : CombatDamage)
    (hhealthChange : e.healthChange = none) (hmanaChange : e.manaChange = none) (hprepareDeath : e.prepareDeath = true)
    (hattackable : e.isAttackable = true) (hskull : e.blackSkull = false) (hprimary : damage.primary ≤ 0)
    (hsecondary : damage.secondary ≤ 0) (hmana : 0 ≤ c.mana) (hhealth : 0 < c.health) :
    (combatChangeHealth e c damage).1 = true ∧
      (combatChangeHealth e c damage).2.mana = (c.changeMana (-absorbed e c damage)).mana ∧
      (combatChangeHealth e c damage).2.health =
        c.health - min c.health (|damage.primary + damage.secondary| - absorbed e c damage) := by
  have habs : |damage.primary| + |damage.secondary| = |damage.primary + damage.secondary| := by
    rw [abs_of_nonpos hprimary, abs_of_nonpos hsecondary, abs_of_nonpos (add_nonpos hprimary hsecondary), neg_add]
  have habsorbed : absorbed e c { damage with primary := |damage.primary|, secondary := |damage.secondary| } =
      absorbed e c damage := by
    simp only [absorbed, habs, abs_abs]
  have hasked : ∀ d : CombatDamage, asked d e.healthChange = none := by
    intro d
    rw [hhealthChange, asked, ite_self]
  have hle : absorbed e c damage ≤ |damage.primary + damage.secondary| := by
    unfold absorbed
    split
    · exact min_le_right _ _
    · exact abs_nonneg _
  unfold combatChangeHealth
  rw [combatBody, if_neg (not_lt.mpr hprimary), if_neg (by simp [hattackable]), if_neg (by simp [hskull])]
  dsimp only
  rw [habs]
  split
  · rename_i hzero
    have hnone : absorbed e c damage = 0 := by
      unfold absorbed
      rw [hzero, min_eq_right hmana, ite_self]
    rw [hnone, hzero, changeMana_zero hmana, sub_zero, min_eq_right hhealth.le, sub_zero]
    exact ⟨rfl, rfl, rfl⟩
  · obtain ⟨d, hd, htotal, hfirst, hsecond⟩ := shield_drains
      { damage with primary := |damage.primary|, secondary := |damage.secondary| } hmanaChange (abs_nonneg _)
      (abs_nonneg _) hmana
    rw [habsorbed] at hd htotal
    dsimp only at htotal
    rw [habs] at htotal
    simp only [hd, hasked]
    have hkept : (c.changeMana (-absorbed e c damage)).health = c.health := by
      obtain ⟨m, hm⟩ := changeMana_eq c (-absorbed e c damage)
      rw [hm]
    split
    · rename_i hzero
      have hrest : |damage.primary + damage.secondary| - absorbed e c damage = 0 := htotal.symm.trans hzero
      rw [hrest, min_eq_right hhealth.le, sub_zero]
      exact ⟨rfl, rfl, hkept⟩
    · obtain ⟨hanswer, hsame, hhit⟩ := hit_drains hprepareDeath (hkept ▸ hhealth) hfirst hsecond
      rw [hkept, htotal] at hhit
      exact ⟨hanswer, hsame, hhit⟩

end ForgottenServer.Combat
