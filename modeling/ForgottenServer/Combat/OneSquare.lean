import ForgottenServer.Combat.Strike

/-! # An area of one square

Against a creature that stands alone in a one-square area, the two copies of the combat differ
in the block they look at before they add conditions: the copy for areas looks at the
damage that all its creatures share, and no block is ever noted there. -/
namespace ForgottenServer.Combat.Strike
open ForgottenServer.Conditions (Condition)

variable {t : Target}

/-- The hit is stopped by immunity or by the defence. -/
def Stops (t : Target) (combatType : CombatType) (damage : ℤ) (checkDefense : Bool) : Prop :=
  t.isImmune combatType = true ∨ (checkDefense = true ∧ 0 < t.blockCount ∧ t.canUseDefense = true ∧
    damage ≤ t.defenseRoll (t.getDefense.tdiv 2) t.getDefense)

/-- No condition may follow such a block. -/
def BlockType.bars (b : BlockType) : Prop := ¬ (b = .none ∨ b = .armor)

/-! ## Blocks -/

@[simp] theorem bars_none : ¬ BlockType.bars .none := fun h => h (.inl rfl)
@[simp] theorem bars_armor : ¬ BlockType.bars .armor := fun h => h (.inr rfl)
@[simp] theorem bars_defense : BlockType.bars .defense := by simp [BlockType.bars]
@[simp] theorem bars_immunity : BlockType.bars .immunity := by simp [BlockType.bars]

theorem blockArmor_not_bars (value : ℤ) (checkArmor : Bool) : ¬ (blockArmor t value checkArmor).1.bars := by
  unfold blockArmor
  split
  · split
    · exact bars_armor
    · exact bars_none
  · exact bars_none

theorem creature_cases (combatType : CombatType) (value : ℤ) (checkDefense checkArmor : Bool) :
    (Stops t combatType value checkDefense ∧ (Creature.blockHit t combatType value checkDefense checkArmor).1.bars ∧
        (Creature.blockHit t combatType value checkDefense checkArmor).2.1 = 0) ∨
      (¬ Stops t combatType value checkDefense ∧
        ¬ (Creature.blockHit t combatType value checkDefense checkArmor).1.bars) := by
  unfold Creature.blockHit Stops
  by_cases himmune : t.isImmune combatType = true
  · left
    simp [himmune]
  · simp only [himmune, if_false, Bool.false_eq_true, false_or]
    by_cases hdefends : (checkDefense && decide (0 < t.blockCount) && t.canUseDefense) = true
    · obtain ⟨⟨rfl, hcount⟩, huse⟩ : (checkDefense = true ∧ 0 < t.blockCount) ∧ t.canUseDefense = true := by
        simpa using hdefends
      simp only [hcount, huse, decide_true, Bool.and_self, Bool.true_or, if_true, true_and]
      by_cases hvalue : value - t.defenseRoll (t.getDefense.tdiv 2) t.getDefense ≤ 0
      · left
        rw [if_pos hvalue]
        exact ⟨by omega, bars_defense, rfl⟩
      · right
        rw [if_neg hvalue]
        exact ⟨by omega, blockArmor_not_bars _ _⟩
    · right
      constructor
      · intro ⟨hcheck, hcount, huse, _⟩
        exact hdefends (by simp [hcheck, hcount, huse])
      · split
        · rw [if_neg (fun h => hdefends h.1)]
          exact blockArmor_not_bars _ _
        · exact bars_none

/-- What a player wears and the elements of a monster leave such a block as it is. -/
theorem blockHit_bars_iff (combatType : CombatType) (value : ℤ) (checkDefense checkArmor field : Bool) :
    (blockHit t combatType value checkDefense checkArmor field).1.bars ↔ Stops t combatType value checkDefense := by
  have hcases := creature_cases (t := t) combatType value checkDefense checkArmor
  unfold blockHit
  split
  · unfold Player.blockHit
    rcases hcases with ⟨hstops, hbars, -⟩ | ⟨hstops, hbars⟩
    · have hne : (Creature.blockHit t combatType value checkDefense checkArmor).1 ≠ .none :=
        fun h => hbars (.inl h)
      simp only [hne, ne_eq, not_false_eq_true, if_true, hbars, hstops]
    · simp only [hstops, iff_false]
      split
      · exact hbars
      · split
        · exact bars_armor
        · split
          · exact bars_armor
          · exact bars_none
  · split
    · unfold Monster.blockHit
      rcases hcases with ⟨hstops, hbars, hvalue⟩ | ⟨hstops, hbars⟩
      · simp only [hvalue, ne_eq, not_true_eq_false, false_and, if_false, hbars, hstops]
      · simp only [hstops, iff_false]
        split
        · split
          · exact bars_armor
          · exact hbars
        · exact hbars
    · rcases hcases with ⟨hstops, hbars, -⟩ | ⟨hstops, hbars⟩
      · exact iff_of_true hbars hstops
      · exact iff_of_false hbars hstops

theorem blockPart_bars_iff (part : Part) (checkDefense checkArmor field : Bool) :
    (blockPart t part checkDefense checkArmor field).1.bars ↔
      part.type ≠ .none ∧ Stops t part.type (-part.value) checkDefense := by
  unfold blockPart
  split
  · rename_i htype
    simp only [htype, ne_eq, not_false_eq_true, true_and]
    exact blockHit_bars_iff ..
  · rename_i htype
    simp only [bars_none, htype, false_and]

/-! ## Immunity is kept -/

/-- What decides which conditions a target gets. -/
def Target.immunity (t : Target) := (t.isCaster, t.isImmuneCondition)

theorem blockArmor_immunity (value : ℤ) (checkArmor : Bool) :
    (blockArmor t value checkArmor).2.2.immunity = t.immunity := by
  unfold blockArmor
  split_ifs <;> rfl

theorem creatureBlockHit_immunity (combatType : CombatType) (value : ℤ) (checkDefense checkArmor : Bool) :
    (Creature.blockHit t combatType value checkDefense checkArmor).2.2.immunity = t.immunity := by
  unfold Creature.blockHit
  dsimp only
  repeat' split
  all_goals first | rfl | exact blockArmor_immunity _ _

theorem blockHit_immunity (combatType : CombatType) (value : ℤ) (checkDefense checkArmor field : Bool) :
    (blockHit t combatType value checkDefense checkArmor field).2.2.immunity = t.immunity := by
  have h := creatureBlockHit_immunity (t := t) combatType value checkDefense checkArmor
  unfold blockHit Player.blockHit Monster.blockHit
  dsimp only
  repeat' split
  all_goals exact h

theorem blockPart_immunity (part : Part) (checkDefense checkArmor field : Bool) :
    (blockPart t part checkDefense checkArmor field).2.2.immunity = t.immunity := by
  unfold blockPart
  split
  · exact blockHit_immunity _ _ _ _ _
  · rfl

theorem changeManaBody_immunity {again : Target → Combat.CombatDamage → Bool × Target}
    (hagain : ∀ t damage, (again t damage).2.immunity = t.immunity) (e : Encounter) (damage : Combat.CombatDamage) :
    (changeManaBody again e t damage).2.immunity = t.immunity := by
  have hblock := blockHit_immunity (t := t) .manadrain
    (min t.creature.mana (-(damage.primary + damage.secondary))) false false false
  unfold changeManaBody
  dsimp only
  repeat' split
  all_goals first | rfl | exact hblock | exact hagain _ _ | exact (hagain _ _).trans hblock

theorem combatChangeMana_immunity (e : Encounter) (damage : Combat.CombatDamage) :
    (combatChangeMana e t damage).2.immunity = t.immunity := by
  unfold combatChangeMana
  exact changeManaBody_immunity (fun _ _ => changeManaBody_immunity (fun _ _ => rfl) _ _) _ _

theorem hit_immunity (damage : CombatDamage) (params : CombatParams) :
    (hit damage params t).2.2.2.immunity = t.immunity := by
  have hparts : ∀ field, (blockPart (blockPart t damage.primary params.blockedByShield params.blockedByArmor field).2.2
      damage.secondary false false field).2.2.immunity = t.immunity := fun _ =>
    (blockPart_immunity _ _ _ _).trans (blockPart_immunity _ _ _ _)
  unfold hit combatBlockHit
  dsimp only
  repeat' split
  all_goals first | rfl | exact hparts _ | exact combatChangeMana_immunity _ _

theorem effective_hit (damage : CombatDamage) (params : CombatParams) :
    effective params (hit damage params t).2.2.2 = effective params t := by
  obtain ⟨hcaster, himmune⟩ := Prod.mk.inj (hit_immunity (t := t) damage params)
  simp only [effective, hcaster, himmune]

/-! ## One hit -/

section Hit
variable {damage : CombatDamage} {params : CombatParams} {caster : Option Caster} {s : Square}

/-- What is compared: health, mana and the set of conditions. -/
def SameEffect (o o' : Outcome) : Prop :=
  o.target.creature.health = o'.target.creature.health ∧ o.target.creature.mana = o'.target.creature.mana ∧
    ∀ c, c ∈ o.conditions ↔ c ∈ o'.conditions

/-- The first part of the damage is stopped and the second gets through: the health is
changed, and there is a condition that would follow. -/
structure Overlooked (damage : CombatDamage) (params : CombatParams) (t : Target) : Prop where
  typed : damage.primary.type ≠ .none ∧ damage.primary.type ≠ .manadrain
  harmful : damage.primary.value ≤ 0
  seen : ¬ (t.creature.isPlayer = true ∧ t.ghostMode = true)
  stopped : Stops t damage.primary.type (-damage.primary.value) params.blockedByShield
  through : (blockPart (blockPart t damage.primary params.blockedByShield params.blockedByArmor false).2.2
    damage.secondary false false false).1 = .none
  changed : (hit damage params t).2.1 = true
  condition : effective params t ≠ []

theorem combatBlockHit_bars_iff (hfresh : damage.blockType = .none) (checkDefense checkArmor field : Bool) :
    (combatBlockHit damage t checkDefense checkArmor field).1 = false ∧
        (combatBlockHit damage t checkDefense checkArmor field).2.1.blockType.bars ↔
      damage.primary.type ≠ .none ∧ damage.primary.value ≤ 0 ∧ ¬ (t.creature.isPlayer = true ∧ t.ghostMode = true) ∧
        Stops t damage.primary.type (-damage.primary.value) checkDefense ∧
        (blockPart (blockPart t damage.primary checkDefense checkArmor field).2.2 damage.secondary
          false false field).1 = .none := by
  unfold combatBlockHit
  split
  · rename_i hnone
    simp [hnone.1]
  · split
    · rename_i hghost
      simp [hghost]
    · rename_i hseen
      split
      · rename_i hheal
        simp [hfresh, hheal]
      · rename_i hharm
        have hbars := blockPart_bars_iff (t := t) damage.primary checkDefense checkArmor field
        have hne : (blockPart t damage.primary checkDefense checkArmor field).1.bars →
            (blockPart t damage.primary checkDefense checkArmor field).1 ≠ .none := fun h hn => h (.inl hn)
        simp only [decide_eq_false_iff_not, not_and, not_not, hbars]
        constructor
        · intro ⟨hopen, htype, hstops⟩
          have hthrough := hopen (hne (hbars.mpr ⟨htype, hstops⟩))
          exact ⟨htype, not_lt.mp hharm, fun hp hg => hseen ⟨hp, hg⟩, hstops, hthrough⟩
        · intro ⟨htype, _, _, hstops, hthrough⟩
          exact ⟨fun _ => hthrough, htype, hstops⟩

theorem overlooked_iff (hfresh : damage.blockType = .none) (hitem : params.itemId = 0) :
    Overlooked damage params t ↔ (hit damage params t).1 = false ∧ (hit damage params t).2.1 = true ∧
      (hit damage params t).2.2.1.blockType.bars ∧ effective params (hit damage params t).2.2.2 ≠ [] := by
  rw [effective_hit]
  by_cases hmana : damage.primary.type = .manadrain
  · have hbars : ¬ (hit damage params t).2.2.1.blockType.bars := by
      simp only [hit, hmana, ne_eq, not_true_eq_false, if_false, hfresh]
      exact bars_none
    exact iff_of_false (fun h => h.typed.2 hmana) fun h => hbars h.2.2.1
  · have hblock := combatBlockHit_bars_iff (t := t) hfresh params.blockedByShield params.blockedByArmor false
    have hhit : (hit damage params t).1 =
          (combatBlockHit damage t params.blockedByShield params.blockedByArmor false).1 ∧
        (hit damage params t).2.2.1 =
            (combatBlockHit damage t params.blockedByShield params.blockedByArmor false).2.1 := by
      simp only [hit, hmana, ne_eq, not_false_eq_true, if_true, hitem, not_true_eq_false, decide_false]
      split
      · rename_i h
        exact ⟨h.symm, rfl⟩
      · rename_i h
        exact ⟨(Bool.eq_false_iff.mpr h).symm, rfl⟩
    rw [hhit.1, hhit.2]
    constructor
    · intro h
      obtain ⟨hopen, hbars⟩ := hblock.mpr ⟨h.typed.1, h.harmful, h.seen, h.stopped, h.through⟩
      exact ⟨hopen, h.changed, hbars, h.condition⟩
    · intro ⟨hopen, hchanged, hbars, hcondition⟩
      obtain ⟨htype, hharm, hseen, hstops, hthrough⟩ := hblock.mp ⟨hopen, hbars⟩
      exact ⟨⟨htype, hmana⟩, hharm, hseen, hstops, hthrough, hchanged, hcondition⟩

theorem follow_sameEffect (blockType : BlockType) (success : Bool) :
    SameEffect (follow params .none success t) (follow params blockType success t) ↔
      ¬ (success = true ∧ blockType.bars ∧ effective params t ≠ []) := by
  unfold SameEffect follow BlockType.bars
  simp only [true_and, true_or, and_true]
  cases success with
  | false => simp
  | true =>
    by_cases hblock : blockType = .none ∨ blockType = .armor
    · simp [hblock]
    · simp [hblock, List.eq_nil_iff_forall_not_mem]

/-- The hit changes neither health nor mana, and no condition follows it. -/
structure Harmless (damage : CombatDamage) (params : CombatParams) (t : Target) : Prop where
  health : (hit damage params t).2.2.2.creature.health = t.creature.health
  mana : (hit damage params t).2.2.2.creature.mana = t.creature.mana
  condition : (hit damage params t).1 = true ∨ (hit damage params t).2.1 = false ∨
    (hit damage params t).2.2.1.blockType.bars ∨ effective params t = []

theorem idle_sameEffect_iff : SameEffect { target := t }
      (if (hit damage params t).1 = true then { target := (hit damage params t).2.2.2 }
        else follow params (hit damage params t).2.2.1.blockType (hit damage params t).2.1
          (hit damage params t).2.2.2) ↔ Harmless damage params t := by
  constructor
  · intro ⟨hhealth, hmana, hconditions⟩
    split at hhealth
    · rename_i hblocked
      rw [if_pos hblocked] at hmana
      exact ⟨hhealth.symm, hmana.symm, .inl hblocked⟩
    · rename_i hopen
      rw [if_neg hopen] at hmana hconditions
      refine ⟨hhealth.symm, hmana.symm, .inr ?_⟩
      by_cases hsuccess : (hit damage params t).2.1 = false
      · exact .inl hsuccess
      · by_cases hbars : (hit damage params t).2.2.1.blockType.bars
        · exact .inr (.inl hbars)
        · refine .inr (.inr (List.eq_nil_iff_forall_not_mem.mpr fun c hc => ?_))
          have happlied := hconditions c
          simp only [follow, Bool.not_eq_false, effective_hit] at happlied hsuccess
          rw [if_pos ⟨hsuccess, not_not.mp hbars⟩] at happlied
          exact List.not_mem_nil (happlied.mpr hc)
  · intro ⟨hhealth, hmana, hcondition⟩
    split
    · exact ⟨hhealth.symm, hmana.symm, fun c => Iff.rfl⟩
    · rename_i hopen
      refine ⟨hhealth.symm, hmana.symm, fun c => ?_⟩
      simp only [follow, effective_hit]
      rcases hcondition with hblocked | hfailed | hbars | hnone
      · exact absurd hblocked hopen
      · simp [hfailed]
      · rw [if_neg fun h => hbars h.2]
      · simp [hnone]

end Hit

/-! ## The two copies -/

section Copies
variable {damage : CombatDamage} {params : CombatParams} {caster : Option Caster} {s : Square}

def Plain (caster : Option Caster) : Prop :=
  ∀ c ∈ caster, c.criticalHitChance = 0 ∧ c.lifeLeechChance = 0 ∧ c.manaLeechChance = 0

/-- What `doAreaCombat` asks before it hits a creature that is alone on the tile. -/
def Reaches (caster : Option Caster) (params : CombatParams) (s : Square) (t : Target) : Prop :=
  canDoCombat caster s params.aggressive = true ∧ passedOver caster params s true t = false ∧
    mayBeHit params s t = true

theorem preparedDamage_plain (hplain : Plain caster)
    (hpair : ¬ (casterIsPlayer caster = true ∧ t.creature.isPlayer = true)) :
    preparedDamage caster damage t = ({}, damage) := by
  cases caster with
  | none => rfl
  | some c =>
    obtain ⟨hcritical, hlife, hmana⟩ := hplain c rfl
    simp only [preparedDamage]
    split
    · rename_i hplayer
      have hother : ¬ (t.creature.isPlayer = true ∧ ¬ t.skullBlack = true) := fun h => hpair ⟨hplayer.1, h.1⟩
      rw [if_neg hother]
      simp [checkCriticalHit, checkLeech, hcritical, hlife, hmana]
    · rfl

theorem damageCopy_plain (hpair : ¬ (casterIsPlayer caster = true ∧ t.creature.isPlayer = true)) :
    damageCopy (casterIsPlayer caster) damage 0 0 t = damage := by
  unfold damageCopy
  rw [if_neg fun h => hpair ⟨h.2.2.1, h.2.1⟩]
  simp

theorem doAreaCombat_plain (hplain : Plain caster) (area : List Square) :
    (doAreaCombat caster damage params area).2 = area.map (tileLoop caster damage 0 0 params) := by
  cases caster with
  | none => rfl
  | some c =>
    have hcritical := (hplain c rfl).1
    simp only [doAreaCombat]
    split
    · simp [areaCritical, hcritical]
    · rfl

theorem tileLoop_alone (hitem : params.itemId = 0) (htile : params.tileCallback = none) (halone : s.creatures = [t]) :
    tileLoop caster damage 0 0 params s = [(hitInArea caster damage 0 0 params t).2] ∧ Reaches caster params s t ∨
      tileLoop caster damage 0 0 params s = [{ target := t }] ∧ ¬ Reaches caster params s t := by
  have htileEffects : combatTileEffects params s t = t := by simp [combatTileEffects, hitem, htile]
  unfold tileLoop Reaches
  simp only [halone, List.map_cons, List.map_nil, htileEffects, creatureLoop]
  grind

/-- The effect in the area is that on a target unless a block is overlooked. -/
theorem area_agrees_iff (caster : Option Caster) (damage : CombatDamage) (params : CombatParams) (s : Square)
    (t : Target) (hfresh : damage.blockType = .none) (hplain : Plain caster)
    (hpair : ¬ (casterIsPlayer caster = true ∧ t.creature.isPlayer = true))
    (hitem : params.itemId = 0) (htile : params.tileCallback = none) (halone : s.creatures = [t]) :
    ∃ o, (doAreaCombat caster damage params [s]).2 = [[o]] ∧ (SameEffect o (doTargetCombat caster damage params t).2 ↔
        (Reaches caster params s t ∧ ¬ Overlooked damage params t) ∨
          (¬ Reaches caster params s t ∧ Harmless damage params t)) := by
  have htarget : (doTargetCombat caster damage params t).2 =
      if (hit damage params t).1 = true then { target := (hit damage params t).2.2.2 }
      else follow params (hit damage params t).2.2.1.blockType (hit damage params t).2.1
        (hit damage params t).2.2.2 := by
    simp only [doTargetCombat, preparedDamage_plain hplain hpair]
  rw [doAreaCombat_plain hplain, List.map_singleton, htarget]
  rcases tileLoop_alone hitem htile halone with ⟨htileLoop, hreaches⟩ | ⟨htileLoop, hreaches⟩
  · refine ⟨_, by rw [htileLoop], ?_⟩
    simp only [hitInArea, damageCopy_plain hpair, hreaches, true_and, not_true_eq_false, false_and, or_false,
      overlooked_iff hfresh hitem, hfresh]
    split
    · rename_i hblocked
      simp [hblocked, SameEffect]
    · rename_i hopen
      rw [follow_sameEffect]
      simp only [hopen, true_and]
  · refine ⟨_, by rw [htileLoop], ?_⟩
    rw [idle_sameEffect_iff]
    simp only [hreaches, false_and, not_false_eq_true, true_and, false_or]

end Copies

/-! ## A block that is overlooked -/

/-- A monster that no physical damage hurts. -/
def ghost : Target where
  creature := { isPlayer := false, health := 150, healthMax := 150 }
  isImmune := fun combatType => combatType = .physical
  elementMap := some fun _ => 0

def burning : Condition := { conditionType := .fire }

def strikeParams : CombatParams := { conditionList := [burning], dispelType := .none }

def strikeDamage : CombatDamage where
  primary := { type := .physical, value := -50 }
  secondary := { type := .energy, value := -30 }
  origin := .spell

def knight : Caster := { isPlayer := true }

/-- The ghost burns in the area only. -/
theorem ghost_burns_in_area : (doAreaCombat (some knight) strikeDamage strikeParams [{ creatures := [ghost] }]).2.map
        (·.map fun o => (o.target.creature.health, o.conditions)) = [[(120, [burning])]] ∧
      (doTargetCombat (some knight) strikeDamage strikeParams ghost).2.target.creature.health = 120 ∧
      (doTargetCombat (some knight) strikeDamage strikeParams ghost).2.conditions = [] := by
  refine ⟨?_, ?_, ?_⟩ <;> decide +kernel

theorem area_agrees_iff_ghost :
    ∃ o, (doAreaCombat (some knight) strikeDamage strikeParams [{ creatures := [ghost] }]).2 = [[o]] ∧
      (SameEffect o (doTargetCombat (some knight) strikeDamage strikeParams ghost).2 ↔
        (Reaches (some knight) strikeParams { creatures := [ghost] } ghost ∧
            ¬ Overlooked strikeDamage strikeParams ghost) ∨
          (¬ Reaches (some knight) strikeParams { creatures := [ghost] } ghost ∧
            Harmless strikeDamage strikeParams ghost)) :=
  area_agrees_iff (some knight) strikeDamage strikeParams { creatures := [ghost] } ghost rfl
    (by intro c hc; cases hc; decide) (by decide) rfl rfl rfl

end ForgottenServer.Combat.Strike
