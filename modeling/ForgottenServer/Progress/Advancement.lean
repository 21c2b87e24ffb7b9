import ForgottenServer.Progress.Training

/-! # The law of advancement

Adding tries in two parts or at once, while playing or in offline training,
should come to the same. For skills it does. The magic level keeps an old
percent when it comes to its cap. -/
namespace ForgottenServer.Progress
open ForgottenServer.Lib.Ladder

section Adding
variable {L : Type} [Add L] [OfNat L 1] {req : L → UInt64} {s : Skill L} {n : ℕ} {count : UInt64}

/-- The tries of a skill together with those that are added. -/
def Skill.total (s : Skill L) (count : UInt64) : ℕ := s.tries.toNat + count.toNat

theorem startAdvance_lands (resets : Bool) (h : Capped req s.level n) (hn : n ≠ 0) (htotal : s.total count < 2 ^ 64) :
    Lands req s n (s.total count) resets (s.startAdvance req resets count) := by
  obtain ⟨m, rfl⟩ := Nat.exists_eq_succ_of_ne_zero hn
  have hsum : (s.tries + count).toNat = s.total count := by
    rw [UInt64.toNat_add]
    exact Nat.mod_eq_of_lt htotal
  rw [← hsum]
  exact advanceLevels_lands h (le_refl _)

end Adding

namespace Trainee
variable {v : Requirements} {p : Trainee} {name : SkillName} {n : ℕ}

theorem addSkillAdvance_eq (count : UInt64) (h : Capped (v.getReqSkillTries name) (p.skills name).level n)
    (htotal : (p.skills name).total count < 2 ^ 64) : p.addSkillAdvance v name count id =
      if n = 0 ∨ count = 0 then p
      else p.setSkill name (aim (v.getReqSkillTries name) (p.skills name).level n ((p.skills name).total count)) := by
  rw [addSkillAdvance]
  simp only [h.stops_iff, id_eq]
  split
  · rename_i hcap
    rw [if_pos (.inl hcap)]
  · rename_i hn
    split
    · rename_i hzero
      rw [if_pos (.inr hzero)]
    · rename_i hcount
      rw [if_neg (not_or.mpr ⟨hn, hcount⟩), (startAdvance_lands true h hn htotal).addTries htotal]

theorem addManaSpent_eq (count : UInt64) (h : Capped v.getReqMana p.magic.level n)
    (htotal : p.magic.total count < 2 ^ 64) : p.addManaSpent v count id =
      if p.notGainMana = true ∨ n = 0 ∨ count = 0 then p
      else if cost (rungs v.getReqMana p.magic.level) n ≤ p.magic.total count then
        { p with
          magic := { aim v.getReqMana p.magic.level n (p.magic.total count) with
            percent := p.magic.percent } }
      else { p with magic := aim v.getReqMana p.magic.level n (p.magic.total count) } := by
  rw [addManaSpent]
  simp only [h.stops_iff, id_eq]
  split
  · rename_i hflag
    rw [if_pos (.inl hflag)]
  · rename_i hflag
    split
    · rename_i hcap
      rw [if_pos (.inr (.inl hcap))]
    · rename_i hn
      split
      · rename_i hzero
        rw [if_pos (.inr (.inr hzero))]
      · rename_i hcount
        have hlands := startAdvance_lands false h hn htotal
        have haim := hlands.addTries htotal
        rw [if_neg (not_or.mpr ⟨hflag, not_or.mpr ⟨hn, hcount⟩⟩)]
        cases hmaxed : (p.magic.startAdvance v.getReqMana false count).maxed with
        | true =>
          have htop := of_decide_eq_true (hlands.maxed ▸ hmaxed)
          have hpercent := hlands.percent rfl
          rw [if_pos rfl, if_pos (climb_eq_iff.mp htop), ← haim, hmaxed, ← hpercent]
          simp only [Skill.addTries, if_true, UInt64.add_zero]
        | false =>
          have htop := of_decide_eq_false (hlands.maxed ▸ hmaxed)
          rw [hmaxed] at haim
          rw [if_neg (by decide), if_neg (mt climb_eq_iff.mpr htop), ← haim]
          rfl

theorem addOfflineTrainingTries_skill (v : Requirements) (p : Trainee) (name : SkillName) (tries : UInt64) :
    (p.addOfflineTrainingTries v (.skill name) tries id).1 = p.addSkillAdvance v name tries id := by
  rw [addOfflineTrainingTries, addSkillAdvance]
  simp only [id_eq]
  split
  · split <;> rfl
  · split <;> rfl

theorem addOfflineTrainingTries_magLevel (count : UInt64) (h : Capped v.getReqMana p.magic.level n)
    (htotal : p.magic.total count < 2 ^ 64) :
    (p.addOfflineTrainingTries v .magLevel count id).1 =
      if n = 0 ∨ count = 0 then p
      else { p with magic := aim v.getReqMana p.magic.level n (p.magic.total count) } := by
  rw [addOfflineTrainingTries]
  simp only [h.stops_iff, id_eq]
  split
  · rename_i hzero
    rw [if_pos (.inr hzero)]
  · rename_i hcount
    split
    · rename_i hcap
      rw [if_pos (.inl hcap)]
    · rename_i hn
      rw [if_neg (not_or.mpr ⟨hn, hcount⟩), (startAdvance_lands false h hn htotal).addTries htotal]

end Trainee

/-! ## The law -/

/-- What the law asks of a skill after some tries, after some more, after both at once, and after
the first ones in offline training. -/
structure Law {L : Type} [Add L] [OfNat L 1] (req : L → UInt64)
    (after afterBoth atOnce offline : Skill L) : Prop where
  additive : afterBoth = atOnce
  offline : offline = after
  normalised : Normalised req after
  shown : Shown req after

namespace Trainee
variable {v : Requirements} {p : Trainee} {name : SkillName} {n : ℕ} {a b : UInt64}

def SkillLaw (v : Requirements) (p : Trainee) (name : SkillName) (a b : UInt64) : Prop :=
  Law (v.getReqSkillTries name) ((p.addSkillAdvance v name a id).skills name)
    (((p.addSkillAdvance v name a id).addSkillAdvance v name b id).skills name)
    ((p.addSkillAdvance v name (a + b) id).skills name)
    ((p.addOfflineTrainingTries v (.skill name) a id).1.skills name)

def MagicLaw (v : Requirements) (p : Trainee) (a b : UInt64) : Prop :=
  Law v.getReqMana (p.addManaSpent v a id).magic ((p.addManaSpent v a id).addManaSpent v b id).magic
    (p.addManaSpent v (a + b) id).magic
    (p.addOfflineTrainingTries v .magLevel a id).1.magic

/-- With nothing gained the percent has to be right before. -/
def SkillHolds (v : Requirements) (p : Trainee) (name : SkillName) (n : ℕ) (a : UInt64) : Prop :=
  n = 0 ∨ a = 0 → Shown (v.getReqSkillTries name) (p.skills name)

/-- For the magic level nothing may be gained with `PlayerFlag_NotGainMana`, and a percent that
was there before the cap is reached has to be the right one by chance. -/
structure MagicHolds (v : Requirements) (p : Trainee) (n : ℕ) (a b : UInt64) : Prop where
  gains : p.notGainMana = true → n = 0 ∨ a = 0
  shown : n = 0 ∨ a = 0 → Shown v.getReqMana p.magic
  reached : n ≠ 0 → a ≠ 0 → cost (rungs v.getReqMana p.magic.level) n ≤ p.magic.total a → p.magic.percent = 0
  later : n ≠ 0 → a ≠ 0 → p.magic.total a < cost (rungs v.getReqMana p.magic.level) n →
    cost (rungs v.getReqMana p.magic.level) n ≤ p.magic.total a + b.toNat →
    p.magic.percent = (aim v.getReqMana p.magic.level n (p.magic.total a)).percent

theorem skills_setSkill (p : Trainee) (name : SkillName) (s : Skill UInt16) :
    (p.setSkill name s).skills name = s := Function.update_self _ _ _

theorem add_ne_zero (ha : a ≠ 0) (hsum : a.toNat + b.toNat < 2 ^ 64) : a + b ≠ 0 := by
  intro h
  have htoNat := congrArg UInt64.toNat h
  rw [UInt64.toNat_add, Nat.mod_eq_of_lt hsum] at htoNat
  exact ha (UInt64.toNat_inj.mp (Nat.eq_zero_of_add_eq_zero_right htoNat))

theorem total_add {L : Type} {s : Skill L} (hsum : s.total a + b.toNat < 2 ^ 64) :
    s.total (a + b) = s.total a + b.toNat := by
  rw [Skill.total] at *
  rw [UInt64.toNat_add, Nat.mod_eq_of_lt (by omega), Skill.total, Nat.add_assoc]

theorem skillLaw_iff (h : Capped (v.getReqSkillTries name) (p.skills name).level n)
    (hnorm : Normalised (v.getReqSkillTries name) (p.skills name))
    (hsum : (p.skills name).total a + b.toNat < 2 ^ 64) : SkillLaw v p name a b ↔ SkillHolds v p name n a := by
  have htotal : (p.skills name).total a < 2 ^ 64 := by omega
  have hboth := total_add hsum
  have heq := addSkillAdvance_eq a h htotal
  have honce := addSkillAdvance_eq (a + b) h (hboth ▸ hsum)
  rw [hboth] at honce
  rw [SkillLaw, addOfflineTrainingTries_skill, SkillHolds]
  by_cases hnone : n = 0 ∨ a = 0
  · rw [if_pos hnone] at heq
    rw [heq]
    refine ⟨fun hlaw _ => hlaw.shown, fun hshown => ⟨?_, rfl, hnorm, hshown hnone⟩⟩
    rcases hnone with hn | ha
    · have hb := addSkillAdvance_eq b h (by rw [Skill.total] at *; omega)
      rw [hb, honce, if_pos (.inl hn), if_pos (.inl hn)]
    · rw [ha, UInt64.zero_add]
  · obtain ⟨hn, ha⟩ := not_or.mp hnone
    rw [if_neg hnone] at heq
    rw [if_neg (not_or.mpr ⟨hn, add_ne_zero ha (by rw [Skill.total] at hsum; omega)⟩)] at honce
    have hskill := congrArg (fun q => q.skills name) heq
    simp only [skills_setSkill] at hskill
    have hle := aim_tries_le (v.getReqSkillTries name) (p.skills name).level n htotal
    have hcapped : Capped (v.getReqSkillTries name) ((p.addSkillAdvance v name a id).skills name).level
        (levelsLeft (v.getReqSkillTries name) (p.skills name).level n ((p.skills name).total a)) := by
      rw [hskill]
      exact h.aim _
    have hb := addSkillAdvance_eq b hcapped (by rw [hskill, Skill.total]; omega)
    refine ⟨fun _ hn => absurd hn hnone, fun _ => ⟨?_, rfl, ?_, ?_⟩⟩
    · rw [hb, honce, skills_setSkill]
      split
      · rename_i hstays
        rw [hskill]
        rcases hstays with htop | hb
        · have hcost := levelsLeft_eq_zero.mp htop
          rw [aim_of_cost_le hcost, aim_of_cost_le (hcost.trans (Nat.le_add_right _ _))]
        · rw [hb]
          rfl
      · rw [skills_setSkill, hskill]
        exact aim_aim _ htotal
    · rw [hskill]
      exact aim_normalised h htotal
    · rw [hskill]
      exact aim_shown _ _ _ _

/-- Where the first tries reach the cap, the percent is kept. -/
theorem magicLaw_of_reached (h : Capped v.getReqMana p.magic.level n) (hsum : p.magic.total a + b.toNat < 2 ^ 64)
    (hflag : p.notGainMana = false) (hn : n ≠ 0) (ha : a ≠ 0)
    (hcap : cost (rungs v.getReqMana p.magic.level) n ≤ p.magic.total a) : MagicLaw v p a b ↔ p.magic.percent = 0 := by
  have htotal : p.magic.total a < 2 ^ 64 := by omega
  have hcap' := hcap.trans (Nat.le_add_right _ b.toNat)
  have hgains : ∀ c : UInt64, c ≠ 0 → ¬ (p.notGainMana = true ∨ n = 0 ∨ c = 0) := by
    intro c hc
    simp [hflag, hn, hc]
  have hboth := add_ne_zero (b := b) ha (by rw [Skill.total] at hsum; omega)
  have hafter := addManaSpent_eq a h htotal
  rw [if_neg (hgains a ha), if_pos hcap, aim_of_cost_le hcap, h.shownPercent_top] at hafter
  have honce := addManaSpent_eq (a + b) h (by rw [total_add hsum]; exact hsum)
  rw [if_neg (hgains _ hboth), total_add hsum, if_pos hcap', aim_of_cost_le hcap', h.shownPercent_top] at honce
  have hoffline := addOfflineTrainingTries_magLevel a h htotal
  rw [if_neg (not_or.mpr ⟨hn, ha⟩), aim_of_cost_le hcap, h.shownPercent_top] at hoffline
  have htop : Capped v.getReqMana (above p.magic.level n) 0 := by
    have htop := h.above (le_refl n)
    rwa [Nat.sub_self] at htop
  have hstays := addManaSpent_eq b (p := p.addManaSpent v a id) (n := 0) (by rw [hafter]; exact htop)
    (by rw [hafter, Skill.total]; have := b.toNat_lt; simpa using this)
  rw [if_pos (.inr (.inl rfl))] at hstays
  rw [MagicLaw, hstays, hoffline, honce, hafter]
  constructor
  · intro hlaw
    exact (congrArg Skill.percent hlaw.offline).symm
  · intro hpercent
    rw [hpercent]
    refine ⟨rfl, rfl, .inr ⟨?_, rfl⟩, ?_⟩
    · exact htop.stops_iff.mpr rfl
    · exact (h.shownPercent_top _).symm

/-- Where they do not, the percent is right, but it is kept if the others do. -/
theorem magicLaw_of_below (h : Capped v.getReqMana p.magic.level n)
    (hsum : p.magic.total a + b.toNat < 2 ^ 64) (hflag : p.notGainMana = false) (hn : n ≠ 0)
    (ha : a ≠ 0) (hcap : p.magic.total a < cost (rungs v.getReqMana p.magic.level) n) :
    MagicLaw v p a b ↔ (cost (rungs v.getReqMana p.magic.level) n ≤ p.magic.total a + b.toNat →
        p.magic.percent = (aim v.getReqMana p.magic.level n (p.magic.total a)).percent) := by
  have htotal : p.magic.total a < 2 ^ 64 := by omega
  have hgains : ∀ c : UInt64, c ≠ 0 → ¬ (p.notGainMana = true ∨ n = 0 ∨ c = 0) := by
    intro c hc
    simp [hflag, hn, hc]
  have hboth := add_ne_zero (b := b) ha (by rw [Skill.total] at hsum; omega)
  have hafter := addManaSpent_eq a h htotal
  rw [if_neg (hgains a ha), if_neg (not_le.mpr hcap)] at hafter
  have honce := addManaSpent_eq (a + b) h (by rw [total_add hsum]; exact hsum)
  rw [if_neg (hgains _ hboth), total_add hsum] at honce
  have hoffline := addOfflineTrainingTries_magLevel a h htotal
  rw [if_neg (not_or.mpr ⟨hn, ha⟩)] at hoffline
  have hle := aim_tries_le v.getReqMana p.magic.level n htotal
  have hlast := addManaSpent_eq b (p := p.addManaSpent v a id)
    (by rw [hafter]; exact h.aim _) (by rw [hafter, Skill.total]; dsimp only; omega)
  have hleft : levelsLeft v.getReqMana p.magic.level n (p.magic.total a) ≠ 0 :=
    mt levelsLeft_eq_zero.mp (not_le.mpr hcap)
  have hmagic : (p.addManaSpent v a id).magic = aim v.getReqMana p.magic.level n (p.magic.total a) := by rw [hafter]
  have hflag' : (p.addManaSpent v a id).notGainMana = false := by rw [hafter, hflag]
  have hcost : cost (rungs v.getReqMana (p.addManaSpent v a id).magic.level)
      (levelsLeft v.getReqMana p.magic.level n (p.magic.total a)) ≤ (p.addManaSpent v a id).magic.total b ↔
      cost (rungs v.getReqMana p.magic.level) n ≤ p.magic.total a + b.toNat := by
    rw [hmagic]
    exact cost_aim_le htotal
  have haim : aim v.getReqMana (p.addManaSpent v a id).magic.level
      (levelsLeft v.getReqMana p.magic.level n (p.magic.total a)) ((p.addManaSpent v a id).magic.total b) =
      aim v.getReqMana p.magic.level n (p.magic.total a + b.toNat) := by
    rw [hmagic]
    exact aim_aim _ htotal
  simp only [hcost, haim] at hlast
  simp only [hmagic, hflag', hleft, false_or, Bool.false_eq_true] at hlast
  have hadditive : ((p.addManaSpent v a id).addManaSpent v b id).magic = (p.addManaSpent v (a + b) id).magic ↔
        (cost (rungs v.getReqMana p.magic.level) n ≤ p.magic.total a + b.toNat →
          p.magic.percent = (aim v.getReqMana p.magic.level n (p.magic.total a)).percent) := by
    rw [hlast, honce]
    by_cases hb : b = 0
    · have hzero : b.toNat = 0 := congrArg UInt64.toNat hb
      rw [if_pos hb, hzero, Nat.add_zero, if_neg (not_le.mpr hcap), hmagic]
      exact ⟨fun _ hle => absurd hcap (not_lt.mpr hle), fun _ => rfl⟩
    · rw [if_neg hb]
      split
      · rename_i hle
        constructor
        · intro heq _
          exact (congrArg Skill.percent heq).symm
        · intro hpercent
          rw [hpercent hle]
      · rename_i hlt
        exact ⟨fun _ hle => absurd hle hlt, fun _ => rfl⟩
  rw [MagicLaw, hoffline, hmagic]
  constructor
  · intro hlaw
    exact hadditive.mp hlaw.additive
  · intro hpercent
    exact ⟨hadditive.mpr hpercent, rfl, aim_normalised h htotal, aim_shown _ _ _ _⟩

theorem magicLaw_iff (h : Capped v.getReqMana p.magic.level n) (hnorm : Normalised v.getReqMana p.magic)
    (hsum : p.magic.total a + b.toNat < 2 ^ 64) : MagicLaw v p a b ↔ MagicHolds v p n a b := by
  have htotal : p.magic.total a < 2 ^ 64 := by omega
  have hboth := total_add hsum
  have heq := addManaSpent_eq a h htotal
  have honce := addManaSpent_eq (a + b) h (hboth ▸ hsum)
  have hoffline := addOfflineTrainingTries_magLevel a h htotal
  rw [hboth] at honce
  by_cases hnone : n = 0 ∨ a = 0
  · -- nothing is gained, with or without the flag
    rw [MagicLaw, hoffline, if_pos hnone, heq, if_pos (.inr hnone)]
    refine ⟨fun hlaw => ⟨fun _ => hnone, fun _ => hlaw.shown, fun hn ha => ?_, fun hn ha => ?_⟩,
      fun hholds => ⟨?_, rfl, hnorm, hholds.shown hnone⟩⟩
    · exact absurd hnone (not_or.mpr ⟨hn, ha⟩)
    · exact absurd hnone (not_or.mpr ⟨hn, ha⟩)
    · rcases hnone with hn | ha
      · have hb := addManaSpent_eq b h (by rw [Skill.total] at *; omega)
        rw [hb, honce, if_pos (.inr (.inl hn)), if_pos (.inr (.inl hn))]
      · rw [ha, UInt64.zero_add]
  · obtain ⟨hn, ha⟩ := not_or.mp hnone
    have hgain : 0 < a.toNat := Nat.pos_of_ne_zero fun hzero => ha (UInt64.toNat_inj.mp hzero)
    cases hflag : p.notGainMana with
    | true =>
      rw [MagicLaw, hoffline, if_neg hnone, heq, if_pos (.inl hflag)]
      refine ⟨fun hlaw => ?_, fun hholds => absurd (hholds.gains hflag) hnone⟩
      exact absurd hlaw.offline (aim_ne h (Nat.pos_of_ne_zero hn) hgain htotal)
    | false =>
      have hgains : p.notGainMana = true → n = 0 ∨ a = 0 := by
        rw [hflag]
        intro htrue
        cases htrue
      rcases le_or_gt (cost (rungs v.getReqMana p.magic.level) n) (p.magic.total a) with hcap | hcap
      · rw [magicLaw_of_reached h hsum hflag hn ha hcap]
        refine ⟨fun hpercent => ⟨hgains, fun hnot => absurd hnot hnone, fun _ _ _ => hpercent,
          fun _ _ hlt => absurd hcap (not_le.mpr hlt)⟩, fun hholds => hholds.reached hn ha hcap⟩
      · rw [magicLaw_of_below h hsum hflag hn ha hcap]
        exact ⟨fun hpercent => ⟨hgains, fun hnot => absurd hnot hnone,
          fun _ _ hle => absurd hcap (not_lt.mpr hle), fun _ _ _ => hpercent⟩,
          fun hholds => hholds.later hn ha hcap⟩

/-- The law holds for the magic level and for a skill exactly on these conditions. -/
theorem advancement_law_iff {m : ℕ} (hmagic : Capped v.getReqMana p.magic.level m)
    (hskill : Capped (v.getReqSkillTries name) (p.skills name).level n) (hmagicNorm : Normalised v.getReqMana p.magic)
    (hskillNorm : Normalised (v.getReqSkillTries name) (p.skills name))
    (hmagicSum : p.magic.total a + b.toNat < 2 ^ 64) (hskillSum : (p.skills name).total a + b.toNat < 2 ^ 64) :
    (MagicLaw v p a b ↔ MagicHolds v p m a b) ∧ (SkillLaw v p name a b ↔ SkillHolds v p name n a) :=
  ⟨magicLaw_iff hmagic hmagicNorm hmagicSum, skillLaw_iff hskill hskillNorm hskillSum⟩

end Trainee

/-- A vocation whose mana multiplier is 4000000000: the third level requires more than 64 bits
hold, and the conversion makes nothing of it. -/
def steep : Requirements where
  getReqMana magLevel := if magLevel = 1 then 1600 else if magLevel = 2 then 6400000000000 else 0
  getReqSkillTries _ level := if level < 14 then 50 * (level.toUInt64 + 1) else 0

/-- Half way to the last level. -/
def adept : Trainee := { magic := { level := 1, tries := 3200000000000, percent := 50 } }

theorem steep_capped : Capped steep.getReqMana 1 1 ∧ Capped (steep.getReqSkillTries .sword) 10 3 := by
  exact ⟨⟨by decide, by decide⟩, ⟨by decide, by decide⟩⟩

theorem advancement_law_adept : (Trainee.MagicLaw steep adept 1000 500 ↔ Trainee.MagicHolds steep adept 1 1000 500) ∧
      (Trainee.SkillLaw steep adept .sword 1000 500 ↔ Trainee.SkillHolds steep adept .sword 3 1000) :=
  Trainee.advancement_law_iff steep_capped.1 steep_capped.2 (by decide) (by decide) (by decide)
    (by decide)

/-- The last level is reached, and the percent stays at 50 where offline training shows zero. -/
theorem cap_keeps_the_percent : Capped steep.getReqMana adept.magic.level 1 ∧
    Normalised steep.getReqMana adept.magic ∧ ¬ Trainee.MagicLaw steep adept 3200000000000 0 := by
  refine ⟨steep_capped.1, by decide, fun hlaw => ?_⟩
  have hnot : ¬ Shown steep.getReqMana (adept.addManaSpent steep 3200000000000 id).magic := by
    decide +kernel
  exact hnot hlaw.shown

end ForgottenServer.Progress
