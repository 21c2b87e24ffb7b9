import ForgottenServer.Lib.Ladder
import ForgottenServer.Progress.Experience

/-! # Skills and the magic level

`addManaSpent`, `addSkillAdvance` and `addOfflineTrainingTries`. All three pay
for levels in the same way, but do not leave the same percent behind. What a
level requires depends on the vocation; what the Lua event `onGainSkillTries`
answers is a parameter of each call. -/
namespace ForgottenServer.Progress
open ForgottenServer.Lib.Ladder

/-- `struct Skill`. The magic level is kept in the same way, in 32 bits. -/
structure Skill (L : Type) where
  level : L
  tries : UInt64 := 0
  percent : UInt8 := 0
  deriving DecidableEq, Repr

/-- The skills from `SKILL_FIRST` to `SKILL_LAST`. -/
inductive SkillName
  | fist | club | sword | axe | distance | shield | fishing
  deriving DecidableEq, Repr

/-- `skills_t` -/
inductive SkillType
  | skill (s : SkillName)
  | magLevel
  | level
  deriving DecidableEq, Repr

structure Requirements where
  getReqMana : UInt32 → UInt64
  getReqSkillTries : SkillName → UInt16 → UInt64

/-- A player with `PlayerFlag_NotGainMana` or without, and the fields `magLevel`, `manaSpent` and
`magLevelPercent`, and `skills`. -/
structure Trainee where
  notGainMana : Bool := false
  magic : Skill UInt32 := { level := 0 }
  skills : SkillName → Skill UInt16 := fun _ => { level := 10 }

section Levels
variable {L : Type} [Add L] [OfNat L 1]

/-- Where the loop over the levels ends, with its variables and whether it was left at the cap. -/
structure Advance (L : Type) where
  skill : Skill L
  count : UInt64
  currReq : UInt64
  nextReq : UInt64
  advanced : Bool
  maxed : Bool

/-- The next level begins. The percent of a skill is set to zero, that of the magic level not. -/
def Skill.levelUp (s : Skill L) (resets : Bool) : Skill L :=
  { level := s.level + 1, tries := 0, percent := if resets then 0 else s.percent }

/-- The loop over the levels. With every one of them `tries + count` gets less, so that as many
steps are enough. -/
def advanceLevels (req : L → UInt64) (resets : Bool) : ℕ → Bool → Skill L → UInt64 → UInt64 → UInt64 → Advance L
  | 0, advanced, s, count, currReq, nextReq => ⟨s, count, currReq, nextReq, advanced, false⟩
  | fuel + 1, advanced, s, count, currReq, nextReq =>
    if s.tries + count < nextReq then ⟨s, count, currReq, nextReq, advanced, false⟩
    else
      let count := count - (nextReq - s.tries)
      let s := s.levelUp resets
      let currReq := nextReq
      let nextReq := req (s.level + 1)
      if nextReq ≤ currReq then ⟨s, count, currReq, nextReq, true, true⟩
      else advanceLevels req resets fuel true s count currReq nextReq

def Skill.startAdvance (s : Skill L) (req : L → UInt64) (resets : Bool) (count : UInt64) : Advance L :=
  advanceLevels req resets (s.tries + count).toNat false s count (req s.level) (req (s.level + 1))

/-- The rest is added, and the percent is that of the new tries. -/
def Skill.addTries (s : Skill L) (count currReq nextReq : UInt64) : Skill L :=
  { s with
    tries := s.tries + count
    percent := if currReq < nextReq then getPercentLevel (s.tries + count) nextReq else 0 }

end Levels

namespace Trainee

def setSkill (p : Trainee) (skill : SkillName) (s : Skill UInt16) : Trainee :=
  { p with skills := Function.update p.skills skill s }

def addSkillAdvance (v : Requirements) (p : Trainee) (skill : SkillName) (count : UInt64)
    (onGainSkillTries : UInt64 → UInt64) : Trainee :=
  let s := p.skills skill
  let req := v.getReqSkillTries skill
  -- the player has reached the maximum skill
  if req (s.level + 1) ≤ req s.level then p
  else
    let count := onGainSkillTries count
    if count = 0 then p
    else
      let a := s.startAdvance req true count
      let count := if a.maxed then 0 else a.count
      p.setSkill skill (a.skill.addTries count a.currReq a.nextReq)

def addManaSpent (v : Requirements) (p : Trainee) (amount : UInt64) (onGainSkillTries : UInt64 → UInt64) : Trainee :=
  if p.notGainMana then p
  else
    let s := p.magic
    -- the player has reached the maximum magic level
    if v.getReqMana (s.level + 1) ≤ v.getReqMana s.level then p
    else
      let amount := onGainSkillTries amount
      if amount = 0 then p
      else
        let a := s.startAdvance v.getReqMana false amount
        -- at the cap the function returns out of the loop
        if a.maxed then { p with magic := a.skill }
        else { p with magic := a.skill.addTries a.count a.currReq a.nextReq }

/-- Whether `sendUpdate` is set: a level was gained or the percent is another. -/
def sendUpdate {L : Type} (advanced : Bool) (percent : UInt8) (s : Skill L) : Bool :=
  advanced || s.percent != percent

/-- `addOfflineTrainingTries`, with the answer whether something has changed for the client. -/
def addOfflineTrainingTries (v : Requirements) (p : Trainee) (skill : SkillType) (tries : UInt64)
    (onGainSkillTries : UInt64 → UInt64) : Trainee × Bool :=
  if tries = 0 then (p, false)
  else
    match skill with
    | .level => (p, false)
    | .magLevel =>
      let s := p.magic
      if v.getReqMana (s.level + 1) ≤ v.getReqMana s.level then (p, false)
      else
        let a := s.startAdvance v.getReqMana false (onGainSkillTries tries)
        let tries := if a.maxed then 0 else a.count
        let s := a.skill.addTries tries a.currReq a.nextReq
        ({ p with magic := s }, sendUpdate a.advanced a.skill.percent s)
    | .skill name =>
      let s := p.skills name
      let req := v.getReqSkillTries name
      if req (s.level + 1) ≤ req s.level then (p, false)
      else
        let a := s.startAdvance req true (onGainSkillTries tries)
        let tries := if a.maxed then 0 else a.count
        let s := a.skill.addTries tries a.currReq a.nextReq
        (p.setSkill name s, sendUpdate a.advanced a.skill.percent s)

end Trainee

/-! ## Where tries lead -/

section Levels
variable {L : Type} [Add L] [OfNat L 1] {req : L → UInt64} {level : L} {n : ℕ}

/-- The `i`-th level above. -/
def above (level : L) (i : ℕ) : L := (· + 1)^[i] level

def rungs (req : L → UInt64) (level : L) (i : ℕ) : ℕ := (req (above level i)).toNat

/-- The requirements grow for `n` levels, and the level after them is the last. -/
structure Capped (req : L → UInt64) (level : L) (n : ℕ) : Prop where
  grows : ∀ i < n, req (above level i) < req (above level (i + 1))
  stops : req (above level (n + 1)) ≤ req (above level n)

def shownPercent (req : L → UInt64) (level : L) (tries : UInt64) : UInt8 :=
  if req level < req (level + 1) then getPercentLevel tries (req (level + 1)) else 0

/-- The percent is the one of the tries. -/
def Shown (req : L → UInt64) (s : Skill L) : Prop := s.percent = shownPercent req s.level s.tries

instance (req : L → UInt64) (s : Skill L) : Decidable (Shown req s) :=
  inferInstanceAs (Decidable (_ = _))

/-- The tries are too few for the next level; at the cap there may be none as well. -/
def Normalised (req : L → UInt64) (s : Skill L) : Prop :=
  s.tries < req (s.level + 1) ∨ req (s.level + 1) ≤ req s.level ∧ s.tries = 0

instance (req : L → UInt64) (s : Skill L) : Decidable (Normalised req s) :=
  inferInstanceAs (Decidable (_ ∨ _))

/-- What has been done for `total` in all above a level, with the cap `n` levels above. -/
def aim (req : L → UInt64) (level : L) (n total : ℕ) : Skill L :=
  let (k, rest) := climb (rungs req level) n total
  { level := above level k
    tries := UInt64.ofNat rest
    percent := shownPercent req (above level k) (UInt64.ofNat rest) }

theorem above_add (level : L) (i j : ℕ) : above (above level i) j = above level (i + j) := by
  rw [above, above, above, Nat.add_comm i j, Function.iterate_add_apply]

theorem above_succ (level : L) (i : ℕ) : above level (i + 1) = above level i + 1 :=
  Function.iterate_succ_apply' _ _ _

theorem Capped.tail (h : Capped req level (n + 1)) : Capped req (level + 1) n :=
  ⟨fun i hi => h.grows (i + 1) (Nat.succ_lt_succ hi), h.stops⟩

theorem Capped.above (h : Capped req level n) {k : ℕ} (hk : k ≤ n) : Capped req (above level k) (n - k) := by
  constructor
  · intro i hi
    rw [above_add, above_add]
    exact h.grows (k + i) (by omega)
  · have hsum : k + (n - k) = n := by omega
    rw [above_add, above_add, ← Nat.add_assoc, hsum]
    exact h.stops

theorem Capped.stops_iff (h : Capped req level n) : req (level + 1) ≤ req level ↔ n = 0 := by
  constructor
  · intro hle
    by_contra hn
    exact UInt64.not_lt.mpr hle (h.grows 0 (Nat.pos_of_ne_zero hn))
  · rintro rfl
    exact h.stops

theorem Capped.lt (h : Capped req level n) {k : ℕ} (hpos : 0 < k) (hk : k ≤ n) :
    req level < req (ForgottenServer.Progress.above level k) := by
  induction k, hpos using Nat.le_induction with
  | base => exact h.grows 0 hk
  | succ k hpos ih => exact UInt64.lt_trans (ih (Nat.le_of_succ_le hk)) (h.grows k hk)

/-- Where the loop ends, in terms of the ladder of the levels. -/
structure Lands (req : L → UInt64) (s : Skill L) (n total : ℕ) (resets : Bool) (a : Advance L) :
    Prop where
  level : a.skill.level = above s.level (climb (rungs req s.level) n total).1
  currReq : a.currReq = req a.skill.level
  nextReq : a.nextReq = req (a.skill.level + 1)
  maxed : a.maxed = decide ((climb (rungs req s.level) n total).1 = n)
  tries_of_maxed : a.maxed = true → a.skill.tries = 0
  rest : a.maxed = false → (a.skill.tries + a.count).toNat = (climb (rungs req s.level) n total).2
  percent : resets = false → a.skill.percent = s.percent

theorem toNat_count {tries count next : UInt64} (h : next ≤ tries + count) :
    (0 + (count - (next - tries))).toNat = (tries + count).toNat - next.toNat := by
  have heq : 0 + (count - (next - tries)) = tries + count - next := by grind
  rw [heq, UInt64.toNat_sub_of_le _ _ h]

theorem Lands.of_lt {s : Skill L} {count : UInt64} {resets advanced : Bool} (h : s.tries + count < req (s.level + 1)) :
    Lands req s (n + 1) (s.tries + count).toNat resets
      ⟨s, count, req s.level, req (s.level + 1), advanced, false⟩ := by
  have hclimb : climb (rungs req s.level) (n + 1) (s.tries + count).toNat =
      (0, (s.tries + count).toNat) := climb_of_lt (UInt64.lt_iff_toNat_lt.mp h)
  refine ⟨?_, rfl, rfl, ?_, ?_, ?_, fun _ => rfl⟩
  · rw [hclimb]
    rfl
  · rw [hclimb]
    exact (decide_eq_false (Nat.zero_ne_add_one n)).symm
  · intro hmaxed
    cases hmaxed
  · intro _
    rw [hclimb]

theorem Lands.cap {s : Skill L} {count currReq : UInt64} {resets advanced : Bool} {total : ℕ}
    (hcurr : currReq = req s.level) (htries : s.tries = 0) :
    Lands req s 0 total resets ⟨s, count, currReq, req (s.level + 1), advanced, true⟩ := by
  refine ⟨rfl, hcurr, rfl, rfl, fun _ => htries, ?_, fun _ => rfl⟩
  intro hmaxed
  cases hmaxed

theorem Lands.levelUp {s : Skill L} {total : ℕ} {resets : Bool} {a : Advance L}
    (hle : (req (s.level + 1)).toNat ≤ total)
    (h : Lands req (s.levelUp resets) n (total - (req (s.level + 1)).toNat) resets a) :
    Lands req s (n + 1) total resets a := by
  have hclimb := climb_of_le (rungs req s.level) n hle
  refine ⟨?_, h.currReq, h.nextReq, ?_, h.tries_of_maxed, ?_, ?_⟩
  · rw [hclimb]
    exact h.level
  · rw [hclimb, h.maxed]
    exact decide_eq_decide.mpr Nat.succ_inj.symm
  · intro hmaxed
    rw [hclimb]
    exact h.rest hmaxed
  · intro hresets
    rw [h.percent hresets, hresets]
    rfl

theorem advanceLevels_lands {resets advanced : Bool} {fuel : ℕ} {s : Skill L} {count : UInt64}
    (h : Capped req s.level (n + 1)) (hfuel : (s.tries + count).toNat ≤ fuel) :
    Lands req s (n + 1) (s.tries + count).toNat resets
      (advanceLevels req resets fuel advanced s count (req s.level) (req (s.level + 1))) := by
  induction fuel generalizing s count n advanced with
  | zero =>
    have hgrows := UInt64.lt_iff_toNat_lt.mp (h.grows 0 n.succ_pos)
    apply Lands.of_lt
    rw [UInt64.lt_iff_toNat_lt]
    exact lt_of_le_of_lt hfuel (Nat.zero_lt_of_lt hgrows)
  | succ fuel ih =>
    have hgrows := UInt64.lt_iff_toNat_lt.mp (h.grows 0 n.succ_pos)
    rw [advanceLevels]
    split
    · rename_i hlt
      exact .of_lt hlt
    · rename_i hle
      rw [UInt64.not_lt] at hle
      have hsum := toNat_count hle
      apply Lands.levelUp (UInt64.le_iff_toNat_le.mp hle)
      dsimp only
      split
      · rename_i hcap
        obtain rfl : n = 0 := h.tail.stops_iff.mp hcap
        exact .cap rfl rfl
      · rename_i hnot
        obtain ⟨m, rfl⟩ := Nat.exists_eq_succ_of_ne_zero (mt h.tail.stops_iff.mpr hnot)
        rw [← hsum]
        refine ih h.tail ?_
        have hpos : 0 < (req (s.level + 1)).toNat := Nat.zero_lt_of_lt hgrows
        exact hsum.trans_le (by omega)

theorem toNat_ofNat_rest {need : ℕ → ℕ} {total : ℕ} (h : total < 2 ^ 64) :
    (UInt64.ofNat (climb need n total).2).toNat = (climb need n total).2 := by
  apply UInt64.toNat_ofNat_of_lt'
  rcases (climb_le need n total).lt_or_eq with hlt | heq
  · have hcost := (climb_spec hlt).2
    exact lt_of_le_of_lt (by omega) h
  · rw [climb_top heq]
    decide

theorem Capped.shownPercent_top (h : Capped req level n) (tries : UInt64) :
    shownPercent req (ForgottenServer.Progress.above level n) tries = 0 := by
  rw [shownPercent, if_neg (UInt64.not_lt.mpr ?_)]
  have hstops := h.stops
  rw [above_succ] at hstops
  exact hstops

theorem Lands.addTries {s : Skill L} {total : ℕ} {resets : Bool} {a : Advance L}
    (h : Lands req s n total resets a) (htotal : total < 2 ^ 64) :
    a.skill.addTries (if a.maxed = true then 0 else a.count) a.currReq a.nextReq = aim req s.level n total := by
  have htries : a.skill.tries + (if a.maxed = true then 0 else a.count) =
      UInt64.ofNat (climb (rungs req s.level) n total).2 := by
    cases hmaxed : a.maxed with
    | false =>
      apply UInt64.toNat_inj.mp
      rw [toNat_ofNat_rest htotal, ← h.rest hmaxed]
      rfl
    | true =>
      have htop : (climb (rungs req s.level) n total).1 = n := of_decide_eq_true (h.maxed ▸ hmaxed)
      rw [h.tries_of_maxed hmaxed, climb_top htop]
      rfl
  rw [Skill.addTries, htries, h.currReq, h.nextReq, h.level]
  rfl

theorem aim_level (req : L → UInt64) (level : L) (n total : ℕ) : (aim req level n total).level =
    ForgottenServer.Progress.above level (climb (rungs req level) n total).1 := rfl

theorem aim_tries (req : L → UInt64) (level : L) (n : ℕ) {total : ℕ} (h : total < 2 ^ 64) :
    (aim req level n total).tries.toNat = (climb (rungs req level) n total).2 := toNat_ofNat_rest h

theorem aim_shown (req : L → UInt64) (level : L) (n total : ℕ) : Shown req (aim req level n total) :=
  rfl

theorem aim_normalised {total : ℕ} (h : Capped req level n) (htotal : total < 2 ^ 64) :
    Normalised req (aim req level n total) := by
  rcases (climb_le (rungs req level) n total).lt_or_eq with hlt | htop
  · left
    rw [UInt64.lt_iff_toNat_lt, aim_tries _ _ _ htotal, aim_level, ← above_succ]
    exact (climb_spec hlt).1
  · right
    refine ⟨?_, ?_⟩
    · rw [aim_level, htop, ← above_succ]
      exact h.stops
    · rw [← UInt64.toNat_inj, aim_tries _ _ _ htotal, climb_top htop]
      rfl

theorem aim_of_cost_le {total : ℕ} (h : cost (rungs req level) n ≤ total) :
    aim req level n total = { level := above level n, percent := shownPercent req (above level n) 0 } := by
  rw [aim, climb_of_cost_le h]
  rfl

/-- How many levels are left to the cap. -/
def levelsLeft (req : L → UInt64) (level : L) (n total : ℕ) : ℕ :=
  n - (climb (rungs req level) n total).1

theorem Capped.aim (h : Capped req level n) (total : ℕ) :
    Capped req (aim req level n total).level (levelsLeft req level n total) :=
  h.above (climb_le _ _ _)

theorem rungs_aim (req : L → UInt64) (level : L) (n total : ℕ) :
    rungs req (aim req level n total).level = fun i => rungs req level ((climb (rungs req level) n total).1 + i) := by
  funext i
  rw [rungs, aim_level, above_add]
  rfl

theorem levelsLeft_eq_zero {total : ℕ} : levelsLeft req level n total = 0 ↔ cost (rungs req level) n ≤ total := by
  have hle := climb_le (rungs req level) n total
  rw [← climb_eq_iff, levelsLeft]
  omega

theorem cost_aim_le {total extra : ℕ} (htotal : total < 2 ^ 64) :
    cost (rungs req (aim req level n total).level) (levelsLeft req level n total) ≤
        (aim req level n total).tries.toNat + extra ↔
      cost (rungs req level) n ≤ total + extra := by
  rw [rungs_aim, aim_tries _ _ _ htotal]
  exact cost_le_iff extra

theorem aim_aim {total : ℕ} (extra : ℕ) (htotal : total < 2 ^ 64) :
    aim req (aim req level n total).level (levelsLeft req level n total)
      ((aim req level n total).tries.toNat + extra) = aim req level n (total + extra) := by
  have hadd := climb_add (rungs req level) n total extra
  rw [aim_tries _ _ _ htotal, aim, rungs_aim, aim_level, aim, hadd]
  simp only [above_add, levelsLeft]

theorem aim_tries_le (req : L → UInt64) (level : L) (n : ℕ) {total : ℕ} (htotal : total < 2 ^ 64) :
    (aim req level n total).tries.toNat ≤ total := by
  rw [aim_tries _ _ _ htotal]
  rcases (climb_le (rungs req level) n total).lt_or_eq with hlt | htop
  · have hcost := (climb_spec hlt).2
    omega
  · rw [climb_top htop]
    exact Nat.zero_le _

theorem aim_ne {s : Skill L} {extra : ℕ} (h : Capped req s.level n) (hn : 0 < n) (hextra : 0 < extra)
    (htotal : s.tries.toNat + extra < 2 ^ 64) : aim req s.level n (s.tries.toNat + extra) ≠ s := by
  intro heq
  have htries := aim_tries req s.level n htotal
  have hlevel := aim_level req s.level n (s.tries.toNat + extra)
  rw [heq] at htries hlevel
  rcases Nat.eq_zero_or_pos (climb (rungs req s.level) n (s.tries.toNat + extra)).1 with hzero | hpos
  · have hcost := (climb_spec (hzero.trans_lt hn)).2
    rw [hzero, cost_zero, ← htries] at hcost
    omega
  · have hlt := h.lt hpos (climb_le _ _ _)
    rw [← hlevel] at hlt
    exact UInt64.lt_irrefl _ hlt

end Levels
end ForgottenServer.Progress
