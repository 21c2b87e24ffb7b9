import ForgottenServer.Lib.Binary64
import ForgottenServer.Progress.Training

/-! # What a death takes

The loss of the magic level and of the skills in `death`, for a player who has
`skillLoss`. The fraction that is lost is a double; the level itself is treated
with the experience. -/
namespace ForgottenServer.Progress
open ForgottenServer.Lib.Ladder ForgottenServer.Lib.Binary64

/-- `for (c = first; c <= level; ++c)` over a counter of `w` bits. There are no more than `2 ^ w`
steps, unless the loop never ends because every counter is a level. -/
def sumRequired (w : ℕ) (req : ℕ → UInt64) (level : ℕ) : ℕ → ℕ → UInt64 → Option UInt64
  | 0, _, _ => none
  | fuel + 1, c, sum =>
    if c ≤ level then sumRequired w req level fuel ((c + 1) % 2 ^ w) (sum + req c) else some sum

/-- The loop over the magic levels, down to level zero. -/
def loseMagicLevels (req : ℕ → UInt64) : ℕ → UInt64 → UInt64 → ℕ × UInt64 × UInt64
  | 0, manaSpent, lostMana => (0, manaSpent, lostMana)
  | level + 1, manaSpent, lostMana =>
    if manaSpent < lostMana then loseMagicLevels req level (req (level + 1)) (lostMana - manaSpent)
    else (level + 1, manaSpent, lostMana)

/-- The loop over the levels of a skill. At level 10 and below it ends with nothing left. -/
def loseSkillLevels (req : ℕ → UInt64) : ℕ → UInt64 → UInt32 → ℕ × UInt64 × UInt32
  | 0, tries, lostSkillTries =>
    if tries < lostSkillTries.toUInt64 then (10, 0, 0) else (0, tries, lostSkillTries)
  | level + 1, tries, lostSkillTries =>
    if tries < lostSkillTries.toUInt64 then
      if level + 1 ≤ 10 then (10, 0, 0)
      else loseSkillLevels req level (req (level + 1)) (lostSkillTries.toUInt64 - tries).toUInt32
    else (level + 1, tries, lostSkillTries)

/-- `std::max<int32_t>(0, tries - lostSkillTries)` -/
def keptTries (tries : UInt64) (lostSkillTries : UInt32) : UInt64 :=
  let n := (tries - lostSkillTries.toUInt64).toUInt32.toInt32
  if n < 0 then 0 else n.toUInt32.toUInt64

def lostMana (sumMana : UInt64) (deathLossPercent : Double) : UInt64 :=
  .ofNat ((Double.ofNat sumMana.toNat).mul deathLossPercent).toUInt64

def lostSkillTries (sumSkillTries : UInt64) (deathLossPercent : Double) : UInt32 :=
  .ofNat ((Double.ofNat sumSkillTries.toNat).mul deathLossPercent).toUInt32

def Skill.loseMagic (s : Skill UInt32) (getReqMana : UInt32 → UInt64) (deathLossPercent : Double) :
    Option (Skill UInt32) := do
  let req := fun i : ℕ => getReqMana (.ofNat i)
  let sumMana ← sumRequired 32 req s.level.toNat (2 ^ 32) 1 0
  let (level, manaSpent, lost) :=
    loseMagicLevels req s.level.toNat s.tries (lostMana (sumMana + s.tries) deathLossPercent)
  let magLevel := UInt32.ofNat level
  let manaSpent := manaSpent - lost
  let nextReqMana := getReqMana (magLevel + 1)
  return { level := magLevel
           tries := manaSpent
           percent :=
             if getReqMana magLevel < nextReqMana then getPercentLevel manaSpent nextReqMana else 0 }

/-- The levels, the tries and the loss that is left, before the last subtraction. -/
def Skill.lossOf (s : Skill UInt16) (getReqSkillTries : UInt16 → UInt64)
    (deathLossPercent : Double) : Option (ℕ × UInt64 × UInt32) := do
  let req := fun i : ℕ => getReqSkillTries (.ofNat i)
  let sumSkillTries ← sumRequired 16 req s.level.toNat (2 ^ 16) 11 0
  return loseSkillLevels req s.level.toNat s.tries (lostSkillTries (sumSkillTries + s.tries) deathLossPercent)

def Skill.loseSkill (s : Skill UInt16) (getReqSkillTries : UInt16 → UInt64)
    (deathLossPercent : Double) : Option (Skill UInt16) := do
  let (level, tries, lost) ← s.lossOf getReqSkillTries deathLossPercent
  let level := UInt16.ofNat level
  let tries := keptTries tries lost
  return { level, tries, percent := getPercentLevel tries (getReqSkillTries level) }

/-- The skills in the order of the loop. -/
def SkillName.all : List SkillName := [fist, club, sword, axe, distance, shield, fishing]

def Trainee.loseSkills (v : Requirements) (deathLossPercent : Double) : List SkillName → Trainee → Option Trainee
  | [], p => some p
  | name :: names, p => do
    let s ← (p.skills name).loseSkill (v.getReqSkillTries name) deathLossPercent
    loseSkills v deathLossPercent names (p.setSkill name s)

/-- The losses in `death`. -/
def Trainee.death (v : Requirements) (p : Trainee) (deathLossPercent : Double) : Option Trainee := do
  let magic ← p.magic.loseMagic v.getReqMana deathLossPercent
  { p with magic }.loseSkills v deathLossPercent SkillName.all

/-! ## What has been done in all -/

/-- The mana for the magic levels, with what was spent after the last of them. -/
def totalMana (getReqMana : UInt32 → UInt64) (s : Skill UInt32) : ℕ :=
  cost (fun i => (getReqMana (.ofNat i)).toNat) s.level.toNat + s.tries.toNat

/-- The tries for the levels from 11 on, with those after the last of them. -/
def totalTries (getReqSkillTries : UInt16 → UInt64) (s : Skill UInt16) : ℕ :=
  cost (fun i => (getReqSkillTries (.ofNat (10 + i))).toNat) (s.level.toNat - 10) + s.tries.toNat

section Sums
variable {w : ℕ} {req : ℕ → UInt64} {level : ℕ}

theorem sumRequired_eq_none (h : level + 1 = 2 ^ w) {fuel c : ℕ} {sum : UInt64} (hc : c < 2 ^ w) :
    sumRequired w req level fuel c sum = none := by
  induction fuel generalizing c sum with
  | zero => rfl
  | succ fuel ih =>
    rw [sumRequired, if_pos (by omega)]
    exact ih (Nat.mod_lt _ (Nat.two_pow_pos w))

theorem sumRequired_eq (req : ℕ → UInt64) (h : level + 1 < 2 ^ w) (fuel c : ℕ) (sum : UInt64)
    (hfuel : level < c + fuel) : sumRequired w req level (fuel + 1) (c + 1) sum =
      some (sum + UInt64.ofNat (cost (fun i => (req (c + i)).toNat) (level - c))) := by
  induction fuel generalizing c sum with
  | zero =>
    rw [sumRequired, if_neg (by omega), Nat.sub_eq_zero_of_le (by omega), cost_zero]
    simp
  | succ fuel ih =>
    rcases Nat.lt_or_ge level (c + 1) with hlt | hle
    · rw [sumRequired, if_neg (by omega), Nat.sub_eq_zero_of_le (by omega), cost_zero]
      simp
    · have hsucc : level - c = level - (c + 1) + 1 := by omega
      rw [sumRequired, if_pos hle, Nat.mod_eq_of_lt (by omega), ih _ _ (by omega), hsucc, cost_succ',
        UInt64.ofNat_add, UInt64.ofNat_toNat, UInt64.add_assoc]
      simp only [Nat.add_assoc, Nat.add_comm 1]

end Sums

section Loops
variable {req : ℕ → UInt64} {level : ℕ} {tries : UInt64}

theorem loseMagicLevels_spec (req : ℕ → UInt64) (lost : UInt64)
    (h : lost.toNat ≤ cost (fun i => (req i).toNat) level + tries.toNat) :
    (loseMagicLevels req level tries lost).2.2 ≤ (loseMagicLevels req level tries lost).2.1 ∧
      descend (fun i => (req i).toNat) level tries.toNat lost.toNat = ((loseMagicLevels req level tries lost).1,
          ((loseMagicLevels req level tries lost).2.1 - (loseMagicLevels req level tries lost).2.2).toNat) := by
  induction level generalizing tries lost with
  | zero =>
    rw [cost_zero, Nat.zero_add] at h
    have hle : lost ≤ tries := UInt64.le_iff_toNat_le.mpr h
    rw [loseMagicLevels, descend, UInt64.toNat_sub_of_le _ _ hle]
    exact ⟨hle, rfl⟩
  | succ level ih =>
    rw [loseMagicLevels]
    split
    · rename_i hlt
      have hsub := UInt64.toNat_sub_of_le _ _ (UInt64.le_of_lt hlt)
      rw [cost_succ] at h
      rw [descend_of_lt (UInt64.lt_iff_toNat_lt.mp hlt), ← hsub]
      exact ih _ (by rw [hsub]; omega)
    · rename_i hnot
      have hle := UInt64.not_lt.mp hnot
      rw [descend_of_le (UInt64.le_iff_toNat_le.mp hle), UInt64.toNat_sub_of_le _ _ hle]
      exact ⟨hle, rfl⟩

theorem loseMagicLevels_of_lt (req : ℕ → UInt64) (lost : UInt64)
    (h : cost (fun i => (req i).toNat) level + tries.toNat < lost.toNat) :
    (loseMagicLevels req level tries lost).1 = 0 ∧
      cost (fun i => (req i).toNat) level + tries.toNat + (loseMagicLevels req level tries lost).2.2.toNat =
        (loseMagicLevels req level tries lost).2.1.toNat + lost.toNat := by
  induction level generalizing tries lost with
  | zero =>
    rw [loseMagicLevels, cost_zero, Nat.zero_add]
    exact ⟨rfl, rfl⟩
  | succ level ih =>
    have hlt : tries < lost := UInt64.lt_iff_toNat_lt.mpr (by omega)
    have hsub := UInt64.toNat_sub_of_le _ _ (UInt64.le_of_lt hlt)
    rw [cost_succ] at h
    obtain ⟨hzero, hrest⟩ := ih (lost - tries) (show _ + (req (level + 1)).toNat < _ by rw [hsub]; omega)
    rw [loseMagicLevels, if_pos hlt, cost_succ]
    refine ⟨hzero, ?_⟩
    rw [hsub] at hrest
    omega

theorem toNat_left {lost : UInt32} (h : tries < lost.toUInt64) :
    (lost.toUInt64 - tries).toUInt32.toNat = lost.toNat - tries.toNat := by
  have hlost := lost.toNat_lt
  have hsub := UInt64.toNat_sub_of_le _ _ (UInt64.le_of_lt h)
  rw [UInt64.toNat_toUInt32, hsub, UInt32.toNat_toUInt64]
  omega

theorem loseSkillLevels_spec (req : ℕ → UInt64) (lost : UInt32)
    (h : lost.toNat ≤ cost (fun i => (req (10 + i)).toNat) (level - 10) + tries.toNat) :
    (loseSkillLevels req level tries lost).2.2.toUInt64 ≤ (loseSkillLevels req level tries lost).2.1 ∧
      descend (fun i => (req (10 + i)).toNat) (level - 10) tries.toNat lost.toNat =
        ((loseSkillLevels req level tries lost).1 - 10, ((loseSkillLevels req level tries lost).2.1 -
            (loseSkillLevels req level tries lost).2.2.toUInt64).toNat) := by
  induction level generalizing tries lost with
  | zero =>
    rw [Nat.zero_sub, cost_zero, Nat.zero_add] at h
    have hle : lost.toUInt64 ≤ tries := UInt64.le_iff_toNat_le.mpr (by simpa using h)
    rw [loseSkillLevels, if_neg (UInt64.not_lt.mpr hle), Nat.zero_sub, descend,
      UInt64.toNat_sub_of_le _ _ hle, UInt32.toNat_toUInt64]
    exact ⟨hle, rfl⟩
  | succ level ih =>
    rw [loseSkillLevels]
    split
    · rename_i hlt
      have hlt' : tries.toNat < lost.toNat := by simpa using UInt64.lt_iff_toNat_lt.mp hlt
      split
      · rename_i hten
        rw [Nat.sub_eq_zero_of_le hten, cost_zero, Nat.zero_add] at h
        exact absurd hlt' (not_lt.mpr h)
      · rename_i hten
        have hsucc : level + 1 - 10 = level - 10 + 1 := by omega
        have hreq : 10 + (level - 10 + 1) = level + 1 := by omega
        have hsub := toNat_left hlt
        rw [hsucc, cost_succ, hreq] at h
        rw [hsucc, descend_of_lt hlt', hreq, ← hsub]
        exact ih _ (by rw [hsub]; omega)
    · rename_i hnot
      have hle := UInt64.not_lt.mp hnot
      have hle' : lost.toNat ≤ tries.toNat := by simpa using UInt64.le_iff_toNat_le.mp hle
      rw [descend_of_le hle', UInt64.toNat_sub_of_le _ _ hle, UInt32.toNat_toUInt64]
      exact ⟨hle, rfl⟩

theorem loseSkillLevels_fst_le (req : ℕ → UInt64) (level : ℕ) (tries : UInt64) (lost : UInt32) :
    (loseSkillLevels req level tries lost).1 ≤ max level 10 := by
  induction level generalizing tries lost with
  | zero =>
    rw [loseSkillLevels]
    split
    · exact le_max_right _ _
    · exact le_max_left _ _
  | succ level ih =>
    rw [loseSkillLevels]
    split
    · split
      · exact le_max_right _ _
      · exact (ih _ _).trans (max_le_max_right 10 (Nat.le_succ level))
    · exact le_max_left _ _

theorem loseSkillLevels_tries_le (req : ℕ → UInt64) {level : ℕ} {tries : UInt64} (lost : UInt32)
    (h : tries ≤ req (level + 1)) :
    (loseSkillLevels req level tries lost).2.1 ≤ req ((loseSkillLevels req level tries lost).1 + 1) := by
  induction level generalizing tries lost with
  | zero =>
    rw [loseSkillLevels]
    split
    · exact UInt64.zero_le
    · exact h
  | succ level ih =>
    rw [loseSkillLevels]
    split
    · split
      · exact UInt64.zero_le
      · exact ih _ (UInt64.le_refl _)
    · exact h

theorem loseSkillLevels_of_lt (req : ℕ → UInt64) (lost : UInt32)
    (h : cost (fun i => (req (10 + i)).toNat) (level - 10) + tries.toNat < lost.toNat) :
    loseSkillLevels req level tries lost = (10, 0, 0) := by
  have hlt : tries < lost.toUInt64 := by
    rw [UInt64.lt_iff_toNat_lt, UInt32.toNat_toUInt64]
    omega
  induction level generalizing tries lost with
  | zero => rw [loseSkillLevels, if_pos hlt]
  | succ level ih =>
    rw [loseSkillLevels, if_pos hlt]
    split
    · rfl
    · rename_i hten
      have hsucc : level + 1 - 10 = level - 10 + 1 := by omega
      have hreq : 10 + (level - 10 + 1) = level + 1 := by omega
      have hsub := toNat_left hlt
      rw [hsucc, cost_succ, hreq] at h
      have hmore : cost (fun i => (req (10 + i)).toNat) (level - 10) + (req (level + 1)).toNat <
          (lost.toUInt64 - tries).toUInt32.toNat := by
        rw [hsub]
        omega
      refine ih _ hmore ?_
      rw [UInt64.lt_iff_toNat_lt, UInt32.toNat_toUInt64]
      omega

end Loops

theorem tries_le {L : Type} [Add L] [OfNat L 1] {req : L → UInt64} {s : Skill L}
    (h : Normalised req s) : s.tries ≤ req (s.level + 1) := by
  rcases h with hlt | ⟨-, hzero⟩
  · exact UInt64.le_of_lt hlt
  · rw [hzero]
    exact UInt64.zero_le

/-! ## The magic level -/

section Magic
variable {getReqMana : UInt32 → UInt64} {q : ℚ} {s s' : Skill UInt32}

/-- Exactly the fraction is lost, of a sum that does not overflow, and what is left is at most a
full requirement. -/
structure MagicLost (getReqMana : UInt32 → UInt64) (q : ℚ) (s s' : Skill UInt32) : Prop where
  exact : totalMana getReqMana s' + ⌊totalMana getReqMana s * q⌋₊ = totalMana getReqMana s
  le : s'.tries ≤ getReqMana (s'.level + 1)
  sum : totalMana getReqMana s < 2 ^ 64

/-- When this is so: the product of doubles has the integer part of the product. -/
structure MagicExact (getReqMana : UInt32 → UInt64) (q : ℚ) (s : Skill UInt32) : Prop where
  level : s.level.toNat + 1 < 2 ^ 32
  sum : totalMana getReqMana s < 2 ^ 64
  product : (lostMana (.ofNat (totalMana getReqMana s)) (.fin q)).toNat = ⌊totalMana getReqMana s * q⌋₊

theorem floor_mul_le {q : ℚ} (hq : q ≤ 1) (n : ℕ) : ⌊n * q⌋₊ ≤ n := by
  apply Nat.floor_le_of_le
  exact mul_le_of_le_one_right (Nat.cast_nonneg n) hq

def magicLeft (getReqMana : UInt32 → UInt64) (s : Skill UInt32) (lost : UInt64) : Skill UInt32 :=
  let r := loseMagicLevels (fun i => getReqMana (.ofNat i)) s.level.toNat s.tries lost
  { level := .ofNat r.1
    tries := r.2.1 - r.2.2
    percent := shownPercent getReqMana (.ofNat r.1) (r.2.1 - r.2.2) }

theorem loseMagic_eq (hlevel : s.level.toNat + 1 < 2 ^ 32) (deathLossPercent : Double) :
    s.loseMagic getReqMana deathLossPercent = some (magicLeft getReqMana s
        (lostMana (.ofNat (totalMana getReqMana s)) deathLossPercent)) := by
  have hsum : sumRequired 32 (fun i => getReqMana (.ofNat i)) s.level.toNat (2 ^ 32) 1 0 =
      some (.ofNat (cost (fun i => (getReqMana (.ofNat i)).toNat) s.level.toNat)) := by
    have hloop := sumRequired_eq (fun i => getReqMana (.ofNat i)) hlevel (2 ^ 32 - 1) 0 0 (by omega)
    simp only [Nat.zero_add, Nat.sub_zero, UInt64.zero_add] at hloop
    exact hloop
  have htotal : UInt64.ofNat (cost (fun i => (getReqMana (.ofNat i)).toNat) s.level.toNat) + s.tries =
      UInt64.ofNat (totalMana getReqMana s) := by
    rw [totalMana, UInt64.ofNat_add, UInt64.ofNat_toNat]
  rw [Skill.loseMagic]
  simp only [hsum, Option.bind_eq_bind, Option.bind_some, htotal]
  rfl

theorem loseMagic_of_max (hlevel : s.level.toNat + 1 = 2 ^ 32) (deathLossPercent : Double) :
    s.loseMagic getReqMana deathLossPercent = none := by
  rw [Skill.loseMagic]
  simp only [sumRequired_eq_none hlevel (show 1 < 2 ^ 32 by decide)]
  rfl

theorem magicLeft_eq {lost : UInt64} (h : lost.toNat ≤ totalMana getReqMana s) :
    (magicLeft getReqMana s lost).level.toNat =
        (descend (fun i => (getReqMana (.ofNat i)).toNat) s.level.toNat s.tries.toNat lost.toNat).1 ∧
      (magicLeft getReqMana s lost).tries.toNat =
        (descend (fun i => (getReqMana (.ofNat i)).toNat) s.level.toNat s.tries.toNat lost.toNat).2 := by
  have hdescend := (loseMagicLevels_spec (fun i => getReqMana (.ofNat i)) lost h).2
  have hlevel := descend_fst_le (fun i => (getReqMana (.ofNat i)).toNat) s.level.toNat s.tries.toNat lost.toNat
  rw [hdescend] at hlevel ⊢
  exact ⟨UInt32.toNat_ofNat_of_lt' (Nat.lt_of_le_of_lt hlevel s.level.toNat_lt), rfl⟩

theorem totalMana_of_le {lost : UInt64} (h : lost.toNat ≤ totalMana getReqMana s) :
    totalMana getReqMana (magicLeft getReqMana s lost) + lost.toNat = totalMana getReqMana s := by
  obtain ⟨hlevel, htries⟩ := magicLeft_eq h
  rw [totalMana, hlevel, htries]
  exact descend_cost h

/-- With more lost than there is, the last subtraction underflows. -/
theorem lt_totalMana_of_lt {lost : UInt64} (h : totalMana getReqMana s < lost.toNat) :
    totalMana getReqMana s < totalMana getReqMana (magicLeft getReqMana s lost) := by
  obtain ⟨hzero, hrest⟩ := loseMagicLevels_of_lt (fun i => getReqMana (.ofNat i)) lost h
  have hlost := lost.toNat_lt
  have hsub := UInt64.toNat_sub (loseMagicLevels (fun i => getReqMana (.ofNat i)) s.level.toNat s.tries lost).2.1
    (loseMagicLevels (fun i => getReqMana (.ofNat i)) s.level.toNat s.tries lost).2.2
  have hleft := (loseMagicLevels (fun i => getReqMana (.ofNat i)) s.level.toNat s.tries lost).2.2.toNat_lt
  rw [totalMana] at h ⊢
  rw [totalMana, magicLeft, hzero, hsub]
  dsimp only
  omega

theorem loseMagic_iff (hq : q ≤ 1) (hs : Normalised getReqMana s) :
    (∃ s', s.loseMagic getReqMana (.fin q) = some s' ∧ MagicLost getReqMana q s s') ↔ MagicExact getReqMana q s := by
  by_cases hmax : s.level.toNat + 1 = 2 ^ 32
  · constructor
    · rintro ⟨s', hsome, -⟩
      rw [loseMagic_of_max hmax] at hsome
      cases hsome
    · intro hexact
      exact absurd hexact.level (by omega)
  have hlevel : s.level.toNat + 1 < 2 ^ 32 := by
    have := s.level.toNat_lt
    omega
  have hle : s.tries.toNat ≤ (getReqMana (.ofNat (s.level.toNat + 1))).toNat := by
    rw [UInt32.ofNat_add, UInt32.ofNat_toNat]
    exact UInt64.le_iff_toNat_le.mp (tries_le hs)
  have hfloor := floor_mul_le hq (totalMana getReqMana s)
  rw [loseMagic_eq hlevel]
  constructor
  · rintro ⟨s', hs', hdone⟩
    have hexact := hdone.exact
    rw [← Option.some.inj hs'] at hexact
    refine ⟨hlevel, hdone.sum, ?_⟩
    rcases le_or_gt (lostMana (.ofNat (totalMana getReqMana s)) (.fin q)).toNat
      (totalMana getReqMana s) with hfits | hmore
    · have hloss := totalMana_of_le hfits
      omega
    · have hloss := lt_totalMana_of_lt hmore
      omega
  · intro hexact
    have hfits : (lostMana (.ofNat (totalMana getReqMana s)) (.fin q)).toNat ≤
        totalMana getReqMana s := hexact.product.trans_le hfloor
    refine ⟨_, rfl, ?_, ?_, hexact.sum⟩
    · rw [← hexact.product]
      exact totalMana_of_le hfits
    · obtain ⟨hlevel', htries⟩ := magicLeft_eq hfits
      have hdescend := descend_le (fun i => (getReqMana (.ofNat i)).toNat)
        (lostMana (.ofNat (totalMana getReqMana s)) (.fin q)).toNat hle
      rw [← htries, ← hlevel', UInt32.ofNat_add, UInt32.ofNat_toNat] at hdescend
      exact UInt64.le_iff_toNat_le.mpr hdescend

end Magic

/-! ## The skills -/

section Skills
variable {getReqSkillTries : UInt16 → UInt64} {q : ℚ} {s s' : Skill UInt16}

/-- Exactly the fraction is lost, of a sum that does not overflow, what is left is at most a full
requirement, and it fits into the `int32_t` that it is converted to. -/
structure SkillLost (getReqSkillTries : UInt16 → UInt64) (q : ℚ) (s s' : Skill UInt16) : Prop where
  exact : totalTries getReqSkillTries s' + ⌊totalTries getReqSkillTries s * q⌋₊ = totalTries getReqSkillTries s
  le : s'.tries ≤ getReqSkillTries (s'.level + 1)
  sum : totalTries getReqSkillTries s < 2 ^ 64
  kept : ∀ r, s.lossOf getReqSkillTries (.fin q) = some r → (r.2.1 - r.2.2.toUInt64).toNat < 2 ^ 31

/-- When this is so: the product, in 32 bits, is the integer part, and where it leads there are
not too many tries left. -/
structure SkillExact (getReqSkillTries : UInt16 → UInt64) (q : ℚ) (s : Skill UInt16) : Prop where
  level : s.level.toNat + 1 < 2 ^ 16
  sum : totalTries getReqSkillTries s < 2 ^ 64
  product : (lostSkillTries (.ofNat (totalTries getReqSkillTries s)) (.fin q)).toNat =
    ⌊totalTries getReqSkillTries s * q⌋₊
  kept : (descend (fun i => (getReqSkillTries (.ofNat (10 + i))).toNat) (s.level.toNat - 10)
    s.tries.toNat ⌊totalTries getReqSkillTries s * q⌋₊).2 < 2 ^ 31

theorem lossOf_eq (hlevel : s.level.toNat + 1 < 2 ^ 16) (deathLossPercent : Double) :
    s.lossOf getReqSkillTries deathLossPercent =
      some (loseSkillLevels (fun i => getReqSkillTries (.ofNat i)) s.level.toNat s.tries
        (lostSkillTries (.ofNat (totalTries getReqSkillTries s)) deathLossPercent)) := by
  have hsum : sumRequired 16 (fun i => getReqSkillTries (.ofNat i)) s.level.toNat (2 ^ 16) 11 0 =
      some (.ofNat (cost (fun i => (getReqSkillTries (.ofNat (10 + i))).toNat) (s.level.toNat - 10))) := by
    have hloop := sumRequired_eq (fun i => getReqSkillTries (.ofNat i)) hlevel (2 ^ 16 - 1) 10 0 (by omega)
    rw [UInt64.zero_add] at hloop
    exact hloop
  have htotal : UInt64.ofNat (cost (fun i => (getReqSkillTries (.ofNat (10 + i))).toNat)
      (s.level.toNat - 10)) + s.tries = UInt64.ofNat (totalTries getReqSkillTries s) := by
    rw [totalTries, UInt64.ofNat_add, UInt64.ofNat_toNat]
  rw [Skill.lossOf]
  simp only [hsum, Option.bind_eq_bind, Option.bind_some, htotal]
  rfl

theorem lossOf_of_max (hlevel : s.level.toNat + 1 = 2 ^ 16) (deathLossPercent : Double) :
    s.lossOf getReqSkillTries deathLossPercent = none := by
  rw [Skill.lossOf]
  simp only [sumRequired_eq_none hlevel (show 11 < 2 ^ 16 by decide)]
  rfl

theorem keptTries_eq {tries : UInt64} {lost : UInt32} (h : (tries - lost.toUInt64).toNat < 2 ^ 31) :
    keptTries tries lost = tries - lost.toUInt64 := by
  generalize hleft : tries - lost.toUInt64 = left at h
  have hsmall : left.toUInt32.toNat = left.toNat := by
    rw [UInt64.toNat_toUInt32]
    exact Nat.mod_eq_of_lt (h.trans (by decide))
  have hnot : ¬ left.toUInt32.toInt32 < 0 := by
    rw [Int32.lt_iff_toInt_lt, toInt_toInt32 (hsmall.trans_lt h), Int32.toInt_zero]
    omega
  rw [keptTries, hleft, if_neg hnot, UInt32.toUInt32_toInt32, ← UInt64.toNat_inj, UInt32.toNat_toUInt64, hsmall]

/-- What is left of a skill after a loss. -/
def skillLeft (getReqSkillTries : UInt16 → UInt64) (s : Skill UInt16) (lost : UInt32) : Skill UInt16 :=
  let r := loseSkillLevels (fun i => getReqSkillTries (.ofNat i)) s.level.toNat s.tries lost
  { level := .ofNat r.1
    tries := keptTries r.2.1 r.2.2
    percent := getPercentLevel (keptTries r.2.1 r.2.2) (getReqSkillTries (.ofNat r.1)) }

theorem loseSkill_eq (hlevel : s.level.toNat + 1 < 2 ^ 16) (deathLossPercent : Double) :
    s.loseSkill getReqSkillTries deathLossPercent = some (skillLeft getReqSkillTries s
      (lostSkillTries (.ofNat (totalTries getReqSkillTries s)) deathLossPercent)) := by
  rw [Skill.loseSkill, lossOf_eq hlevel]
  rfl

/-- Where a loss of no more than there is leads, if it is not truncated. -/
theorem skillLeft_eq {lost : UInt32} (h : lost.toNat ≤ totalTries getReqSkillTries s)
    (hkept : (descend (fun i => (getReqSkillTries (.ofNat (10 + i))).toNat) (s.level.toNat - 10)
      s.tries.toNat lost.toNat).2 < 2 ^ 31) :
    (skillLeft getReqSkillTries s lost).level.toNat - 10 =
        (descend (fun i => (getReqSkillTries (.ofNat (10 + i))).toNat) (s.level.toNat - 10)
          s.tries.toNat lost.toNat).1 ∧
      (skillLeft getReqSkillTries s lost).tries.toNat =
        (descend (fun i => (getReqSkillTries (.ofNat (10 + i))).toNat) (s.level.toNat - 10)
          s.tries.toNat lost.toNat).2 := by
  have hdescend := (loseSkillLevels_spec (fun i => getReqSkillTries (.ofNat i)) lost h).2
  rw [hdescend] at hkept ⊢
  refine ⟨?_, ?_⟩
  · have hle := loseSkillLevels_fst_le (fun i => getReqSkillTries (.ofNat i)) s.level.toNat s.tries lost
    have hlt := s.level.toNat_lt
    rw [skillLeft, UInt16.toNat_ofNat_of_lt' (show _ < 2 ^ 16 by omega)]
  · rw [skillLeft]
    dsimp only
    rw [keptTries_eq hkept]

theorem skillLeft_tries_le {lost : UInt32} (hs : Normalised getReqSkillTries s)
    (h : lost.toNat ≤ totalTries getReqSkillTries s)
    (hkept : (descend (fun i => (getReqSkillTries (.ofNat (10 + i))).toNat) (s.level.toNat - 10)
      s.tries.toNat lost.toNat).2 < 2 ^ 31) :
    (skillLeft getReqSkillTries s lost).tries ≤ getReqSkillTries ((skillLeft getReqSkillTries s lost).level + 1) := by
  obtain ⟨hle, hdescend⟩ := loseSkillLevels_spec (fun i => getReqSkillTries (.ofNat i)) lost h
  rw [hdescend] at hkept
  have hnext : s.tries ≤ getReqSkillTries (.ofNat (s.level.toNat + 1)) := by
    rw [UInt16.ofNat_add, UInt16.ofNat_toNat]
    exact tries_le hs
  have hfull := loseSkillLevels_tries_le (fun i => getReqSkillTries (.ofNat i)) lost hnext
  rw [UInt16.ofNat_add] at hfull
  have hsub := UInt64.toNat_sub_of_le _ _ hle
  rw [skillLeft, keptTries_eq hkept]
  exact UInt64.le_trans (UInt64.le_iff_toNat_le.mpr (hsub.trans_le (Nat.sub_le _ _))) hfull

theorem totalTries_of_le {lost : UInt32} (h : lost.toNat ≤ totalTries getReqSkillTries s)
    (hkept : (descend (fun i => (getReqSkillTries (.ofNat (10 + i))).toNat) (s.level.toNat - 10)
      s.tries.toNat lost.toNat).2 < 2 ^ 31) :
    totalTries getReqSkillTries (skillLeft getReqSkillTries s lost) + lost.toNat =
      totalTries getReqSkillTries s := by
  obtain ⟨hlevel, htries⟩ := skillLeft_eq h hkept
  rw [totalTries, hlevel, htries]
  exact descend_cost h

theorem totalTries_of_lt {lost : UInt32} (h : totalTries getReqSkillTries s < lost.toNat) :
    totalTries getReqSkillTries (skillLeft getReqSkillTries s lost) = 0 := by
  have hnone := loseSkillLevels_of_lt (fun i => getReqSkillTries (.ofNat i)) lost h
  rw [totalTries, skillLeft, hnone]
  rfl

theorem lostSkillTries_of_all {n : ℕ} (hq : q ≤ 1) (hn : n < 2 ^ 32) (h : ⌊n * q⌋₊ = n) :
    (lostSkillTries (.ofNat n) (.fin q)).toNat = n := by
  have hproduct : (n : ℚ) * q = n := by
    apply le_antisymm (mul_le_of_le_one_right (Nat.cast_nonneg n) hq)
    rcases Nat.eq_zero_or_pos n with rfl | hpos
    · simp
    · exact (Nat.le_floor_iff' hpos.ne').mp h.ge
  have htoNat : (UInt64.ofNat n).toNat = n := UInt64.toNat_ofNat_of_lt' (hn.trans (by decide))
  rw [lostSkillTries, htoNat, Double.ofNat_eq (by omega), Double.mul, hproduct,
    Double.rnd_natCast (by omega), Double.toUInt32_natCast (by omega), Nat.mod_eq_of_lt hn]
  exact UInt32.toNat_ofNat_of_lt' hn

theorem loseSkill_iff (hq : q ≤ 1) (hs : Normalised getReqSkillTries s) :
    (∃ s', s.loseSkill getReqSkillTries (.fin q) = some s' ∧ SkillLost getReqSkillTries q s s') ↔
      SkillExact getReqSkillTries q s := by
  by_cases hmax : s.level.toNat + 1 = 2 ^ 16
  · constructor
    · rintro ⟨s', hsome, -⟩
      rw [Skill.loseSkill, lossOf_of_max hmax] at hsome
      cases hsome
    · intro hexact
      exact absurd hexact.level (by omega)
  have hlevel : s.level.toNat + 1 < 2 ^ 16 := by
    have := s.level.toNat_lt
    omega
  have hfloor := floor_mul_le hq (totalTries getReqSkillTries s)
  rw [loseSkill_eq hlevel]
  constructor
  · rintro ⟨s', hs', hdone⟩
    have hexact := hdone.exact
    have hkept := hdone.kept _ (lossOf_eq hlevel _)
    rw [← Option.some.inj hs'] at hexact
    rcases le_or_gt (lostSkillTries (.ofNat (totalTries getReqSkillTries s)) (.fin q)).toNat
      (totalTries getReqSkillTries s) with hfits | hmore
    · have hdescend := (loseSkillLevels_spec (fun i => getReqSkillTries (.ofNat i)) _ hfits).2
      have hkept : (descend (fun i => (getReqSkillTries (.ofNat (10 + i))).toNat) (s.level.toNat - 10) s.tries.toNat
            (lostSkillTries (.ofNat (totalTries getReqSkillTries s)) (.fin q)).toNat).2 < 2 ^ 31 := by
        rw [hdescend]
        exact hkept
      have hloss := totalTries_of_le hfits hkept
      have hproduct : (lostSkillTries (.ofNat (totalTries getReqSkillTries s)) (.fin q)).toNat =
          ⌊totalTries getReqSkillTries s * q⌋₊ := by omega
      exact ⟨hlevel, hdone.sum, hproduct, hproduct ▸ hkept⟩
    · -- all of it would have to be lost, and then the product is exact
      rw [totalTries_of_lt hmore, Nat.zero_add] at hexact
      have hsmall := (lostSkillTries (.ofNat (totalTries getReqSkillTries s)) (.fin q)).toNat_lt
      have hall := lostSkillTries_of_all hq (hmore.trans hsmall) hexact
      omega
  · intro hexact
    have hfits : (lostSkillTries (.ofNat (totalTries getReqSkillTries s)) (.fin q)).toNat ≤
        totalTries getReqSkillTries s := hexact.product.trans_le hfloor
    have hkept := hexact.kept
    rw [← hexact.product] at hkept
    refine ⟨_, rfl, ?_, ?_, hexact.sum, ?_⟩
    · rw [← hexact.product]
      exact totalTries_of_le hfits hkept
    · exact skillLeft_tries_le hs hfits hkept
    · intro r hr
      rw [lossOf_eq hlevel, Option.some.injEq] at hr
      have hdescend := (loseSkillLevels_spec (fun i => getReqSkillTries (.ofNat i)) _ hfits).2
      rw [hdescend, hr] at hkept
      exact hkept

end Skills

/-! ## The death -/

section Death
variable {v : Requirements} {p p' : Trainee} {q : ℚ} {percent : Double} {names : List SkillName}

theorem SkillName.mem_all (name : SkillName) : name ∈ SkillName.all := by
  cases name <;> decide

theorem loseSkills_spec (hnodup : names.Nodup) (h : p.loseSkills v percent names = some p') :
    p'.magic = p.magic ∧ (∀ name ∉ names, p'.skills name = p.skills name) ∧
      ∀ name ∈ names, (p.skills name).loseSkill (v.getReqSkillTries name) percent = some (p'.skills name) := by
  induction names generalizing p with
  | nil =>
    obtain rfl : p = p' := Option.some.inj h
    exact ⟨rfl, fun _ _ => rfl, fun name hname => absurd hname List.not_mem_nil⟩
  | cons first names ih =>
    obtain ⟨hfirst, hnodup⟩ := List.nodup_cons.mp hnodup
    obtain ⟨s, hs, hrest⟩ := Option.bind_eq_some_iff.mp h
    obtain ⟨hmagic, hother, hnames⟩ := ih hnodup hrest
    have hne : ∀ name, name ≠ first → (p.setSkill first s).skills name = p.skills name :=
      fun name hname => Function.update_of_ne hname _ _
    refine ⟨hmagic, fun name hname => ?_, fun name hname => ?_⟩
    · obtain ⟨hne', hname⟩ := not_or.mp (mt List.mem_cons.mpr hname)
      rw [hother name hname, hne name hne']
    · rcases List.mem_cons.mp hname with rfl | hname
      · have hself : (p.setSkill name s).skills name = s := Function.update_self _ _ _
        rw [hs, hother name hfirst, hself]
      · rw [← hnames name hname, hne name fun heq => hfirst (heq ▸ hname)]

theorem loseSkills_isSome (hnodup : names.Nodup)
    (h : ∀ name ∈ names, ∃ s, (p.skills name).loseSkill (v.getReqSkillTries name) percent = some s) :
    ∃ p', p.loseSkills v percent names = some p' := by
  induction names generalizing p with
  | nil => exact ⟨p, rfl⟩
  | cons first names ih =>
    obtain ⟨hfirst, hnodup⟩ := List.nodup_cons.mp hnodup
    obtain ⟨s, hs⟩ := h first List.mem_cons_self
    obtain ⟨p', hp'⟩ := ih (p := p.setSkill first s) hnodup fun name hname => by
      have hne : name ≠ first := fun heq => hfirst (heq ▸ hname)
      have hsame : (p.setSkill first s).skills name = p.skills name := Function.update_of_ne hne _ _
      rw [hsame]
      exact h name (List.mem_cons_of_mem _ hname)
    refine ⟨p', ?_⟩
    rw [Trainee.loseSkills, hs]
    exact hp'

theorem death_eq_some_iff : p.death v percent = some p' ↔ p.magic.loseMagic v.getReqMana percent = some p'.magic ∧
      { p with magic := p'.magic }.loseSkills v percent SkillName.all = some p' := by
  have hnodup : SkillName.all.Nodup := by decide
  rw [Trainee.death]
  constructor
  · intro h
    obtain ⟨magic, hmagic, hskills⟩ := Option.bind_eq_some_iff.mp h
    obtain rfl : p'.magic = magic := (loseSkills_spec hnodup hskills).1
    exact ⟨hmagic, hskills⟩
  · rintro ⟨hmagic, hskills⟩
    rw [hmagic]
    exact hskills

/-- A death takes exactly the fraction of the mana and of the tries if and only if the products of
doubles are exact enough and nothing is truncated. -/
theorem death_is_exact_iff (hq : 0 ≤ q ∧ q ≤ 1) (hmagic : Normalised v.getReqMana p.magic)
    (hskills : ∀ name, Normalised (v.getReqSkillTries name) (p.skills name)) :
    (∃ p', p.death v (.fin q) = some p' ∧ MagicLost v.getReqMana q p.magic p'.magic ∧
      ∀ name, SkillLost (v.getReqSkillTries name) q (p.skills name) (p'.skills name)) ↔
    MagicExact v.getReqMana q p.magic ∧ ∀ name, SkillExact (v.getReqSkillTries name) q (p.skills name) := by
  have hnodup : SkillName.all.Nodup := by decide
  constructor
  · rintro ⟨p', hdeath, hmagicLost, hskillsLost⟩
    obtain ⟨hloseMagic, hloseSkills⟩ := death_eq_some_iff.mp hdeath
    obtain ⟨-, -, heach⟩ := loseSkills_spec hnodup hloseSkills
    refine ⟨(loseMagic_iff hq.2 hmagic).mp ⟨p'.magic, hloseMagic, hmagicLost⟩, fun name => ?_⟩
    exact (loseSkill_iff hq.2 (hskills name)).mp ⟨p'.skills name, heach name name.mem_all, hskillsLost name⟩
  · rintro ⟨hmagicExact, hskillsExact⟩
    obtain ⟨magic, hloseMagic, hmagicLost⟩ := (loseMagic_iff hq.2 hmagic).mpr hmagicExact
    have hloss := fun name => (loseSkill_iff hq.2 (hskills name)).mpr (hskillsExact name)
    have hall : ∀ name ∈ SkillName.all, ∃ s, (({ p with magic } : Trainee).skills name).loseSkill
        (v.getReqSkillTries name) (.fin q) = some s := by
      intro name _
      obtain ⟨s, hs, -⟩ := hloss name
      exact ⟨s, hs⟩
    obtain ⟨p', hp'⟩ := loseSkills_isSome hnodup hall
    obtain ⟨hsame, -, heach⟩ := loseSkills_spec hnodup hp'
    obtain rfl : p'.magic = magic := hsame
    refine ⟨p', death_eq_some_iff.mpr ⟨hloseMagic, hp'⟩, hmagicLost, fun name => ?_⟩
    obtain ⟨s, hs, hlost⟩ := hloss name
    have heq := heach name name.mem_all
    dsimp only at heq
    rw [hs, Option.some.injEq] at heq
    rwa [← heq]

/-- Every skill level requires twice the tries of the one before, up to level 37. -/
def doubling : Requirements where
  getReqMana magLevel := if magLevel = 0 then 0 else 1600
  getReqSkillTries _ level := .ofNat (50 * 2 ^ (min level.toNat 37 - 11))

/-- A player near the next level of the sword skill, which requires 3355443200 tries. -/
def swordsman : Trainee where
  magic := { level := 2, tries := 800 }
  skills name := if name = .sword then { level := 36, tries := 3000000000 } else { level := 10 }

theorem swordsman_normalised : Normalised doubling.getReqMana swordsman.magic ∧
    ∀ name, Normalised (doubling.getReqSkillTries name) (swordsman.skills name) := by
  refine ⟨by decide, fun name => ?_⟩
  cases name <;> decide

theorem death_is_exact_swordsman : (∃ p', swordsman.death doubling (.fin (1 / 2)) = some p' ∧
      MagicLost doubling.getReqMana (1 / 2) swordsman.magic p'.magic ∧
      ∀ name, SkillLost (doubling.getReqSkillTries name) (1 / 2) (swordsman.skills name) (p'.skills name)) ↔
    MagicExact doubling.getReqMana (1 / 2) swordsman.magic ∧
      ∀ name, SkillExact (doubling.getReqSkillTries name) (1 / 2) (swordsman.skills name) :=
  death_is_exact_iff (by norm_num) swordsman_normalised.1 swordsman_normalised.2

/-- An eighth of 6355443150 tries is to be lost, but the 2205569607 tries that should be left on
the level are negative as an `int32_t`, and none is left. -/
theorem tries_are_truncated : ((swordsman.skills .sword).loseSkill
      (doubling.getReqSkillTries .sword) (.fin (1 / 8))).map (fun s => (s.level, s.tries)) = some (36, 0) ∧
    ¬ ∃ p', swordsman.death doubling (.fin (1 / 8)) = some p' ∧
      MagicLost doubling.getReqMana (1 / 8) swordsman.magic p'.magic ∧
      ∀ name, SkillLost (doubling.getReqSkillTries name) (1 / 8) (swordsman.skills name) (p'.skills name) := by
  have hleft : ((swordsman.skills .sword).loseSkill
      (doubling.getReqSkillTries .sword) (.fin (1 / 8))).map (fun s => (s.level, s.tries)) =
        some (36, 0) := by decide +kernel
  refine ⟨hleft, ?_⟩
  rintro ⟨p', hdeath, -, hskills⟩
  obtain ⟨-, hlose⟩ := death_eq_some_iff.mp hdeath
  obtain ⟨-, -, heach⟩ := loseSkills_spec (by decide) hlose
  have hsword : (swordsman.skills .sword).loseSkill (doubling.getReqSkillTries .sword)
      (.fin (1 / 8)) = some (p'.skills .sword) := heach .sword SkillName.sword.mem_all
  rw [hsword, Option.map_some, Option.some.injEq, Prod.mk.injEq] at hleft
  have hexact := (hskills .sword).exact
  rw [totalTries, hleft.1, hleft.2] at hexact
  have hnot : ¬ (cost (fun i => (doubling.getReqSkillTries .sword (.ofNat (10 + i))).toNat)
      ((36 : UInt16).toNat - 10) + (0 : UInt64).toNat +
        ⌊(totalTries (doubling.getReqSkillTries .sword) (swordsman.skills .sword) : ℚ) * (1 / 8)⌋₊ =
      totalTries (doubling.getReqSkillTries .sword) (swordsman.skills .sword)) := by
    decide +kernel
  exact hnot hexact

end Death
end ForgottenServer.Progress
