import ForgottenServer.Lib.Run
import Mathlib.Data.UInt
import Mathlib.Tactic.Linarith
import Mathlib.Tactic.NormNum
import Mathlib.Tactic.Ring

/-! # Experience and levels

`addExperience`, `removeExperience` and the level loss of `death`, on the
machine integers of the server. The thresholds of the levels are a cubic in 64
bits; `table` is the same without a bound. What the Lua events `onGainExperience`
and `onLoseExperience` answer is a parameter of each call. -/
namespace ForgottenServer.Progress
open ForgottenServer.Lib.Run

structure Vocation where
  /-- the id is `VOCATION_NONE` -/
  isNone : Bool := false
  gainHP : UInt32 := 5
  gainMana : UInt32 := 5
  gainCap : UInt32 := 500
  deriving DecidableEq, Repr

structure Player where
  vocation : Vocation := {}
  level : UInt32 := 1
  experience : UInt64 := 0
  levelPercent : UInt8 := 0
  health : Int32 := 1000
  healthMax : Int32 := 1000
  mana : UInt32 := 0
  manaMax : UInt32 := 0
  capacity : UInt32 := 40000
  /-- `varStats[STAT_MAXHITPOINTS]` -/
  varMaxHealth : Int32 := 0
  /-- `varStats[STAT_MAXMANAPOINTS]` -/
  varMaxMana : Int32 := 0
  deriving DecidableEq, Repr

def getExpForLevel (lv : Int32) : UInt64 :=
  if lv ≤ 0 then 0
  else
    let ulv := (lv - 1).toInt64.toUInt64
    (50 * ulv * ulv * ulv - 150 * ulv * ulv + 400 * ulv) / 3

/-- The threshold of a level, which is unsigned where it is kept. -/
def expFor (level : UInt32) : UInt64 := getExpForLevel level.toInt32

def getPercentLevel (count nextLevelCount : UInt64) : UInt8 :=
  if nextLevelCount = 0 then 0
  else
    let result := (count * 100 / nextLevelCount).toUInt8
    if result > 100 then 0 else result

/-- `std::max<int32_t>(0, value - gain)`. -/
def lowered (value gain : UInt32) : Int32 :=
  let n := (value - gain).toInt32
  if n < 0 then 0 else n

namespace Player

def getMaxHealth (p : Player) : Int32 :=
  let n := p.healthMax + p.varMaxHealth
  if n < 1 then 1 else n

def getMaxMana (p : Player) : UInt32 :=
  let n := (p.manaMax + p.varMaxMana.toUInt32).toInt32
  (if n < 0 then 0 else n).toUInt32

def levelUp (p : Player) : Player :=
  { p with
    level := p.level + 1
    healthMax := (p.healthMax.toUInt32 + p.vocation.gainHP).toInt32
    health := (p.health.toUInt32 + p.vocation.gainHP).toInt32
    manaMax := p.manaMax + p.vocation.gainMana
    mana := p.mana + p.vocation.gainMana
    capacity := p.capacity + p.vocation.gainCap }

def levelDown (p : Player) : Player :=
  { p with
    level := p.level - 1
    healthMax := lowered p.healthMax.toUInt32 p.vocation.gainHP
    manaMax := (lowered p.manaMax p.vocation.gainMana).toUInt32
    capacity := (lowered p.capacity p.vocation.gainCap).toUInt32 }

/-- The loop of `addExperience`, with `currLevelExp` and `nextLevelExp`. -/
def gainLevels : ℕ → Player → UInt64 → UInt64 → Player × UInt64 × UInt64
  | 0, p, currLevelExp, nextLevelExp => (p, currLevelExp, nextLevelExp)
  | fuel + 1, p, currLevelExp, nextLevelExp =>
    if p.experience < nextLevelExp then (p, currLevelExp, nextLevelExp)
    else
      let p := p.levelUp
      let currLevelExp := nextLevelExp
      let nextLevelExp := expFor (p.level + 1)
      -- the player has reached the maximum level
      if nextLevelExp ≤ currLevelExp then (p, currLevelExp, nextLevelExp)
      else gainLevels fuel p currLevelExp nextLevelExp

/-- The loop of `removeExperience` and `death`. -/
def loseLevels : ℕ → Player → Player
  | 0, p => p
  | fuel + 1, p => if 1 < p.level ∧ p.experience < expFor p.level then loseLevels fuel p.levelDown else p

/-- Health and mana are full after the level has changed. -/
def refill (p : Player) : Player := { p with health := p.getMaxHealth, mana := p.getMaxMana }

def setLevelPercent (p : Player) (currLevelExp nextLevelExp : UInt64) : Player :=
  { p with
    levelPercent :=
      if currLevelExp < nextLevelExp then
        getPercentLevel (p.experience - currLevelExp) (nextLevelExp - currLevelExp)
      else 0 }

/-- `addExperience`. From level `2 ^ 31` on the threshold is zero, so the loop
ends before the fuel does. -/
def addExperience (p : Player) (exp : UInt64) (onGainExperience : UInt64 → UInt64) : Player :=
  let currLevelExp := expFor p.level
  let nextLevelExp := expFor (p.level + 1)
  if nextLevelExp ≤ currLevelExp then { p with levelPercent := 0 }
  else
    let exp := onGainExperience exp
    if exp = 0 then p
    else
      let p := { p with experience := p.experience + exp }
      let (q, currLevelExp, nextLevelExp) := gainLevels (2 ^ 31) p currLevelExp nextLevelExp
      let q := if q.level ≠ p.level then q.refill else q
      q.setLevelPercent currLevelExp nextLevelExp

/-- The experience that is left: `std::max<int64_t>(0, experience - exp)`. -/
def reduced (p : Player) (exp : UInt64) : UInt64 :=
  let n := (p.experience - exp).toInt64
  if n < 0 then 0 else n.toUInt64

def removeExperience (p : Player) (exp : UInt64) (onLoseExperience : UInt64 → UInt64) : Player :=
  if p.experience = 0 ∨ exp = 0 then p
  else
    let exp := onLoseExperience exp
    if exp = 0 then p
    else
      let p := { p with experience := p.reduced exp }
      let q := p.loseLevels p.level.toNat
      let q := if q.level ≠ p.level then q.refill else q
      q.setLevelPercent (expFor q.level) (expFor (q.level + 1))

/-- Players of low level keep their experience, once they have a vocation. -/
def loseExperience (p : Player) (expLoss : UInt64) : Player :=
  if p.vocation.isNone ∨ 7 < p.level then { p with experience := p.experience - expLoss } else p

/-- Health and mana at the end of `death`. -/
def revive (p : Player) (blackSkull : Bool) : Player :=
  { p with
    health := if blackSkull then 40 else p.healthMax
    mana := if blackSkull then 0 else p.manaMax }

/-- The level loss of `death`, where `onLoseExperience` has answered `expLoss`. -/
def death (p : Player) (expLoss : UInt64) (blackSkull : Bool) : Player :=
  if expLoss = 0 then p.revive blackSkull
  else
    let p := p.loseExperience expLoss
    let q := p.loseLevels p.level.toNat
    (q.setLevelPercent (expFor q.level) (expFor (q.level + 1))).revive blackSkull

end Player

inductive Change
  | addExperience (exp : UInt64) (onGainExperience : UInt64 → UInt64)
  | removeExperience (exp : UInt64) (onLoseExperience : UInt64 → UInt64)
  | death (expLoss : UInt64) (blackSkull : Bool)

def step (p : Player) : Change → Player
  | .addExperience exp event => p.addExperience exp event
  | .removeExperience exp event => p.removeExperience exp event
  | .death expLoss blackSkull => p.death expLoss blackSkull

/-! ## The thresholds without a bound -/

/-- The threshold of the level `u + 1`. -/
def table : ℕ → ℕ
  | 0 => 0
  | u + 1 => table u + (50 * u * u + 100 - 50 * u)

theorem table_eq (u : ℕ) : 3 * table u + 150 * u * u = 50 * u * u * u + 400 * u := by
  induction u with
  | zero => rfl
  | succ u ih =>
    have hle : 50 * u ≤ 50 * u * u := by
      rcases Nat.eq_zero_or_pos u with rfl | hu
      · simp
      · exact Nat.le_mul_of_pos_right _ hu
    have hstep : table (u + 1) + 50 * u = table u + (50 * u * u + 100) := by
      rw [table]
      omega
    have hall : 3 * table (u + 1) + 150 * u = 3 * table u + 150 * u * u + 300 := by linarith
    rw [ih] at hall
    have : 150 * (u + 1) * (u + 1) = 150 * u * u + 300 * u + 150 := by ring
    have : 50 * (u + 1) * (u + 1) * (u + 1) = 50 * u * u * u + 150 * u * u + 150 * u + 50 := by ring
    linarith

theorem table_lt_succ (u : ℕ) : table u < table (u + 1) := by
  have hle : 50 * u ≤ 50 * u * u := by
    rcases Nat.eq_zero_or_pos u with rfl | hu
    · simp
    · exact Nat.le_mul_of_pos_right _ hu
  rw [table]
  omega

theorem table_strictMono : StrictMono table := strictMono_nat_of_lt_succ table_lt_succ

/-- The last level whose threshold fits into 64 bits. -/
def lastLevel : UInt32 := 717217

theorem table_fits {u : ℕ} (h : u ≤ 717216) : 3 * table u < 2 ^ 64 := by
  have hmono : table u ≤ table 717216 := table_strictMono.monotone h
  have := table_eq 717216
  omega

/-- What is below `2 ^ 62` is far from where the thresholds overflow. -/
theorem lt_of_table_lt {u : ℕ} (h : table u < 2 ^ 62) : u < 651635 := by
  by_contra hle
  have hmono : table 651635 ≤ table u := table_strictMono.monotone (not_lt.mp hle)
  have := table_eq 651635
  omega

theorem toInt_toInt32 {n : UInt32} (h : n.toNat < 2 ^ 31) : n.toInt32.toInt = n.toNat := by
  have hmod : n.toInt32.toInt = Int.bmod n.toNat (2 ^ 32) := BitVec.toInt_eq_toNat_bmod n.toBitVec
  rw [hmod, Int.bmod_eq_of_le_mul_two] <;> omega

/-- No product overflows and the division has no rest. -/
theorem expFor_toNat {level : UInt32} {u : ℕ} (hlevel : level.toNat = u + 1) (hu : u ≤ 717216) :
    (expFor level).toNat = table u := by
  have hlv : level.toInt32.toInt = u + 1 := by
    rw [toInt_toInt32 (by omega), hlevel]
    rfl
  have hpos : ¬ level.toInt32 ≤ 0 := by
    rw [Int32.le_iff_toInt_le, hlv]
    simp only [Int32.toInt_zero]
    omega
  have hulv : (level.toInt32 - 1).toInt64.toUInt64 = UInt64.ofNat u := by
    have hsub : (level.toInt32 - 1).toInt = u := by
      rw [Int32.toInt_sub, hlv, Int32.toInt_one, Int.bmod_eq_of_le_mul_two] <;> omega
    have hwide : (level.toInt32 - 1).toInt64 = Int64.ofNat u := by
      have hsize : Int64.size = 2 ^ 64 := rfl
      apply Int64.toInt_inj.mp
      rw [Int32.toInt_toInt64, hsub, Int64.toInt_ofNat', Int.bmod_eq_of_le_mul_two] <;> omega
    rw [hwide, Int64.toUInt64_ofNat']
  have hcubic : 3 * UInt64.ofNat (table u) + 150 * UInt64.ofNat u * UInt64.ofNat u =
      50 * UInt64.ofNat u * UInt64.ofNat u * UInt64.ofNat u + 400 * UInt64.ofNat u := by
    have := congrArg UInt64.ofNat (table_eq u)
    simp only [UInt64.ofNat_add, UInt64.ofNat_mul] at this
    exact this
  have hvalue : 50 * UInt64.ofNat u * UInt64.ofNat u * UInt64.ofNat u - 150 * UInt64.ofNat u * UInt64.ofNat u +
      400 * UInt64.ofNat u = UInt64.ofNat (3 * table u) := by
    rw [UInt64.ofNat_mul]
    grind
  have hfits := table_fits hu
  rw [expFor, getExpForLevel, if_neg hpos]
  dsimp only
  rw [hulv, hvalue, UInt64.toNat_div, UInt64.toNat_ofNat_of_lt' hfits]
  exact Nat.mul_div_cancel_left _ (by decide)

/-! ## The level and the experience -/

/-- The level is the one that the experience stands for. -/
def Leveled (p : Player) : Prop := expFor p.level ≤ p.experience ∧ p.experience < expFor (p.level + 1)

instance (p : Player) : Decidable (Leveled p) := inferInstanceAs (Decidable (_ ∧ _))

/-- The player has the level `u + 1`, and at least the experience for it. -/
structure Reached (p : Player) (u : ℕ) : Prop where
  level : p.level.toNat = u + 1
  table_le : table u ≤ p.experience.toNat
  small : p.experience.toNat < 2 ^ 62

theorem Reached.lt {p : Player} {u : ℕ} (h : Reached p u) : u < 651635 :=
  lt_of_table_lt (lt_of_le_of_lt h.table_le h.small)

theorem Reached.expFor {p : Player} {u : ℕ} (h : Reached p u) : (expFor p.level).toNat = table u := by
  have := h.lt
  exact expFor_toNat h.level (by omega)

theorem Reached.toNat_succ {p : Player} {u : ℕ} (h : Reached p u) : (p.level + 1).toNat = u + 2 := by
  have := h.lt
  rw [UInt32.toNat_add, h.level]
  exact Nat.mod_eq_of_lt (by simp; omega)

theorem Reached.expFor_succ {p : Player} {u : ℕ} (h : Reached p u) :
    (Progress.expFor (p.level + 1)).toNat = table (u + 1) := by
  have := h.lt
  exact expFor_toNat h.toNat_succ (by omega)

theorem Reached.leveled {p : Player} {u : ℕ} (h : Reached p u) (hlt : p.experience.toNat < table (u + 1)) :
    Leveled p := by
  refine ⟨UInt64.le_iff_toNat_le.mpr ?_, UInt64.lt_iff_toNat_lt.mpr ?_⟩
  · rw [h.expFor]
    exact h.table_le
  · rw [h.expFor_succ]
    exact hlt

theorem Leveled.reached {p : Player} (h : Leveled p) (hlevel : p.level ≤ lastLevel)
    (hsmall : p.experience.toNat < 2 ^ 62) : ∃ u, Reached p u ∧ p.experience.toNat < table (u + 1) := by
  obtain ⟨hle, hlt⟩ := h
  have hpos : p.level ≠ 0 := by
    rintro h0
    rw [h0] at hlt
    have hzero : expFor (0 + 1) = 0 := by decide
    rw [hzero] at hlt
    exact UInt64.not_lt_zero hlt
  have hbound : p.level.toNat ≤ 717217 := UInt32.le_iff_toNat_le.mp hlevel
  obtain ⟨u, hu⟩ : ∃ u, p.level.toNat = u + 1 :=
    Nat.exists_eq_succ_of_ne_zero fun h0 => hpos (UInt32.toNat_inj.mp h0)
  have hreached : Reached p u := by
    refine ⟨hu, ?_, hsmall⟩
    rw [← expFor_toNat hu (by omega)]
    exact UInt64.le_iff_toNat_le.mp hle
  refine ⟨u, hreached, ?_⟩
  rw [← hreached.expFor_succ]
  exact UInt64.lt_iff_toNat_lt.mp hlt

/-! ## The maxima and the level -/

/-- `healthMax - gainHP * level`, in the arithmetic of the server. -/
def baseHealth (p : Player) : UInt32 := p.healthMax.toUInt32 - p.vocation.gainHP * p.level

def baseMana (p : Player) : UInt32 := p.manaMax - p.vocation.gainMana * p.level

def baseCapacity (p : Player) : UInt32 := p.capacity - p.vocation.gainCap * p.level

structure Kept (p q : Player) : Prop where
  vocation : q.vocation = p.vocation
  health : baseHealth q = baseHealth p
  mana : baseMana q = baseMana p
  capacity : baseCapacity q = baseCapacity p

theorem Kept.refl (p : Player) : Kept p p := ⟨rfl, rfl, rfl, rfl⟩

theorem Kept.trans {p q r : Player} (h : Kept p q) (h' : Kept q r) : Kept p r :=
  ⟨h'.vocation.trans h.vocation, h'.health.trans h.health, h'.mana.trans h.mana, h'.capacity.trans h.capacity⟩

theorem Kept.of_experience {p q : Player} {experience : UInt64} (h : Kept { p with experience } q) : Kept p q :=
  ⟨h.vocation, h.health, h.mana, h.capacity⟩

theorem Kept.levelUp (p : Player) : Kept p p.levelUp := by
  refine ⟨rfl, ?_, ?_, ?_⟩
  · simp only [baseHealth, Player.levelUp, UInt32.toUInt32_toInt32]
    grind
  · simp only [baseMana, Player.levelUp]
    grind
  · simp only [baseCapacity, Player.levelUp]
    grind

/-- No maximum is clamped when a level is lost. -/
def Player.isUnclamped (p : Player) : Bool :=
  0 ≤ (p.healthMax.toUInt32 - p.vocation.gainHP).toInt32 && 0 ≤ (p.manaMax - p.vocation.gainMana).toInt32 &&
    0 ≤ (p.capacity - p.vocation.gainCap).toInt32

theorem lowered_of_le {value gain : UInt32} (h : 0 ≤ (value - gain).toInt32) :
    (lowered value gain).toUInt32 = value - gain := by
  rw [lowered, if_neg (Int32.not_lt.mpr h), UInt32.toUInt32_toInt32]

theorem Kept.levelDown {p : Player} (h : p.isUnclamped = true) : Kept p p.levelDown := by
  simp only [Player.isUnclamped, Bool.and_eq_true, decide_eq_true_eq] at h
  obtain ⟨⟨hhealth, hmana⟩, hcapacity⟩ := h
  refine ⟨rfl, ?_, ?_, ?_⟩
  · simp only [baseHealth, Player.levelDown, lowered_of_le hhealth]
    grind
  · simp only [baseMana, Player.levelDown, lowered_of_le hmana]
    grind
  · simp only [baseCapacity, Player.levelDown, lowered_of_le hcapacity]
    grind

/-! ## The loops -/

theorem gainLevels_spec {fuel u : ℕ} {p q : Player} {currLevelExp nextLevelExp : UInt64} (h : Reached p u)
    (hfuel : 651635 ≤ u + fuel)
    (hrun : p.gainLevels fuel (expFor p.level) (expFor (p.level + 1)) = (q, currLevelExp, nextLevelExp)) :
    ∃ u', Reached q u' ∧ q.experience.toNat < table (u' + 1) ∧ q.experience = p.experience ∧ Kept p q := by
  induction fuel generalizing p u with
  | zero =>
    have := h.lt
    omega
  | succ fuel ih =>
    rw [Player.gainLevels] at hrun
    split at hrun
    · rename_i hlt
      cases hrun
      refine ⟨u, h, ?_, rfl, .refl _⟩
      rw [← h.expFor_succ]
      exact UInt64.lt_iff_toNat_lt.mp hlt
    · rename_i hge
      have hle : table (u + 1) ≤ p.experience.toNat := by
        rw [← h.expFor_succ]
        exact UInt64.le_iff_toNat_le.mp (UInt64.not_lt.mp hge)
      have hup : Reached p.levelUp (u + 1) := ⟨h.toNat_succ, hle, h.small⟩
      dsimp only at hrun
      split at hrun
      · -- the thresholds grow
        rename_i hmax
        have hmax := UInt64.le_iff_toNat_le.mp hmax
        rw [hup.expFor_succ, h.expFor_succ] at hmax
        exact absurd hmax (not_le.mpr (table_lt_succ (u + 1)))
      · obtain ⟨u', hreached, hlt, hexp, hkept⟩ := ih hup (by omega) hrun
        exact ⟨u', hreached, hlt, hexp, (Kept.levelUp p).trans hkept⟩

/-- No maximum is clamped in the loop of `loseLevels`. -/
def Player.losesUnclamped : ℕ → Player → Bool
  | 0, _ => true
  | fuel + 1, p =>
    if 1 < p.level ∧ p.experience < expFor p.level then p.isUnclamped && losesUnclamped fuel p.levelDown else true

theorem loseLevels_spec (fuel : ℕ) {u : ℕ} {p : Player} (hlevel : p.level.toNat = u + 1) (hu : u ≤ 717216)
    (hfuel : u ≤ fuel) (hsmall : p.experience.toNat < 2 ^ 62) (hlt : p.experience.toNat < table (u + 1)) :
    ∃ u', Reached (p.loseLevels fuel) u' ∧ (p.loseLevels fuel).experience.toNat < table (u' + 1) ∧
      (p.loseLevels fuel).experience = p.experience ∧ (p.losesUnclamped fuel = true → Kept p (p.loseLevels fuel)) := by
  induction fuel generalizing p u with
  | zero =>
    obtain rfl : u = 0 := by omega
    exact ⟨0, ⟨hlevel, Nat.zero_le _, hsmall⟩, hlt, rfl, fun _ => .refl p⟩
  | succ fuel ih =>
    rw [Player.loseLevels, Player.losesUnclamped]
    split
    · rename_i hcond
      obtain ⟨hone, hless⟩ := hcond
      have hone : 1 < p.level.toNat := UInt32.lt_iff_toNat_lt.mp hone
      have hless := UInt64.lt_iff_toNat_lt.mp hless
      rw [expFor_toNat hlevel hu] at hless
      obtain ⟨v, rfl⟩ : ∃ v, u = v + 1 := ⟨u - 1, by omega⟩
      have hdown : p.levelDown.level.toNat = v + 1 := by
        have hsub : p.levelDown.level.toNat = p.level.toNat - 1 :=
          UInt32.toNat_sub_of_le _ _ (UInt32.le_iff_toNat_le.mpr hone.le)
        omega
      obtain ⟨u', hreached, hlt', hexp, hkept⟩ := ih hdown (by omega) (by omega) hsmall hless
      refine ⟨u', hreached, hlt', hexp, fun hunclamped => ?_⟩
      rw [Bool.and_eq_true] at hunclamped
      exact (Kept.levelDown hunclamped.1).trans (hkept hunclamped.2)
    · rename_i hcond
      refine ⟨u, ⟨hlevel, ?_, hsmall⟩, hlt, rfl, fun _ => .refl p⟩
      rcases Nat.eq_zero_or_pos u with rfl | hpos
      · exact Nat.zero_le _
      · by_contra hless
        refine hcond ⟨UInt32.lt_iff_toNat_lt.mpr ?_, UInt64.lt_iff_toNat_lt.mpr ?_⟩
        · rw [hlevel]
          exact Nat.lt_add_of_pos_left hpos
        · rw [expFor_toNat hlevel hu]
          exact not_le.mp hless

/-! ## The steps -/

/-- The amounts keep the experience below `2 ^ 62`. A removal may ask for more
than there is, up to `2 ^ 63`: beyond that the difference is no negative number. -/
def Allowed (p : Player) : Change → Prop
  | .addExperience exp event => p.experience.toNat + (event exp).toNat < 2 ^ 62
  | .removeExperience exp event => (event exp).toNat ≤ p.experience.toNat + 2 ^ 63
  | .death expLoss _ => expLoss ≤ p.experience

instance (p : Player) : ∀ c, Decidable (Allowed p c)
  | .addExperience _ _ => inferInstanceAs (Decidable (_ < _))
  | .removeExperience _ _ => inferInstanceAs (Decidable (_ ≤ _))
  | .death _ _ => inferInstanceAs (Decidable (_ ≤ _))

/-- No maximum is clamped at zero. -/
def isUnclamped (p : Player) : Change → Bool
  | .addExperience _ _ => true
  | .removeExperience exp event =>
    p.experience = 0 || exp = 0 || event exp = 0 ||
      { p with experience := p.reduced (event exp) }.losesUnclamped p.level.toNat
  | .death expLoss _ => expLoss = 0 || (p.loseExperience expLoss).losesUnclamped p.level.toNat

/-- The level is right and the experience far from the overflow. -/
def Sound (p : Player) : Prop := ∃ u, Reached p u ∧ p.experience.toNat < table (u + 1)

/-- Two players with the same level, experience and maxima. -/
structure Alike (p q : Player) : Prop where
  vocation : q.vocation = p.vocation
  level : q.level = p.level
  experience : q.experience = p.experience
  healthMax : q.healthMax = p.healthMax
  manaMax : q.manaMax = p.manaMax
  capacity : q.capacity = p.capacity

theorem Alike.sound {p q : Player} (h : Alike p q) (hp : Sound p) : Sound q := by
  obtain ⟨u, hreached, hlt⟩ := hp
  refine ⟨u, ⟨?_, ?_, ?_⟩, ?_⟩
  · rw [h.level]
    exact hreached.level
  · rw [h.experience]
    exact hreached.table_le
  · rw [h.experience]
    exact hreached.small
  · rw [h.experience]
    exact hlt

theorem Alike.kept {p q : Player} (h : Alike p q) : Kept p q := by
  refine ⟨h.vocation, ?_, ?_, ?_⟩
  · simp only [baseHealth, h.healthMax, h.vocation, h.level]
  · simp only [baseMana, h.manaMax, h.vocation, h.level]
  · simp only [baseCapacity, h.capacity, h.vocation, h.level]

theorem Alike.trans {p q r : Player} (h : Alike p q) (h' : Alike q r) : Alike p r :=
  ⟨h'.vocation.trans h.vocation, h'.level.trans h.level, h'.experience.trans h.experience,
    h'.healthMax.trans h.healthMax, h'.manaMax.trans h.manaMax, h'.capacity.trans h.capacity⟩

theorem Alike.setLevelPercent (p : Player) (currLevelExp nextLevelExp : UInt64) :
    Alike p (p.setLevelPercent currLevelExp nextLevelExp) := ⟨rfl, rfl, rfl, rfl, rfl, rfl⟩

theorem Alike.revive (p : Player) (blackSkull : Bool) : Alike p (p.revive blackSkull) :=
  ⟨rfl, rfl, rfl, rfl, rfl, rfl⟩

theorem Alike.finish (p q : Player) (currLevelExp nextLevelExp : UInt64) :
    Alike q ((if q.level ≠ p.level then q.refill else q).setLevelPercent currLevelExp nextLevelExp) := by
  split
  · have hrefill : Alike q q.refill := ⟨rfl, rfl, rfl, rfl, rfl, rfl⟩
    exact hrefill.trans (.setLevelPercent q.refill _ _)
  · exact .setLevelPercent q _ _

theorem toNat_add_small {a b : UInt64} (h : a.toNat + b.toNat < 2 ^ 62) : (a + b).toNat = a.toNat + b.toNat := by
  rw [UInt64.toNat_add]
  exact Nat.mod_eq_of_lt (by omega)

theorem addExperience_spec {p : Player} {exp : UInt64} {event : UInt64 → UInt64} (hp : Sound p)
    (hsum : p.experience.toNat + (event exp).toNat < 2 ^ 62) :
    Sound (p.addExperience exp event) ∧ (p.addExperience exp event).experience = p.experience + event exp ∧
      Kept p (p.addExperience exp event) := by
  obtain ⟨u, hreached, hlt⟩ := hp
  have hmax : ¬ expFor (p.level + 1) ≤ expFor p.level := by
    rw [UInt64.le_iff_toNat_le, hreached.expFor, hreached.expFor_succ]
    exact not_le.mpr (table_lt_succ u)
  rw [Player.addExperience, if_neg hmax]
  dsimp only
  split
  · rename_i hzero
    rw [hzero]
    exact ⟨⟨u, hreached, hlt⟩, (UInt64.add_zero _).symm, .refl p⟩
  · have hadd := toNat_add_small hsum
    have hmore : Reached { p with experience := p.experience + event exp } u := by
      refine ⟨hreached.level, ?_, ?_⟩
      · show table u ≤ (p.experience + event exp).toNat
        rw [hadd]
        exact hreached.table_le.trans (Nat.le_add_right _ _)
      · show (p.experience + event exp).toNat < 2 ^ 62
        rw [hadd]
        exact hsum
    generalize hrun : Player.gainLevels _ _ _ _ = result
    obtain ⟨q, currLevelExp, nextLevelExp⟩ := result
    obtain ⟨u', hreached', hlt', hexp, hkept⟩ := gainLevels_spec hmore (by omega) hrun
    have halike := Alike.finish p q currLevelExp nextLevelExp
    exact ⟨halike.sound ⟨u', hreached', hlt'⟩, halike.experience.trans hexp, .trans hkept.of_experience halike.kept⟩

theorem toInt64_neg_iff (n : UInt64) : n.toInt64 < 0 ↔ 2 ^ 63 ≤ n.toNat := by
  have hmod : n.toInt64.toInt = Int.bmod n.toNat (2 ^ 64) := BitVec.toInt_eq_toNat_bmod n.toBitVec
  have hlt := n.toNat_lt
  rw [Int64.lt_iff_toInt_lt, hmod, Int64.toInt_zero, Int.bmod_def]
  split <;> omega

theorem reduced_toNat {p : Player} {exp : UInt64} (hsmall : p.experience.toNat < 2 ^ 62)
    (hexp : exp.toNat ≤ p.experience.toNat + 2 ^ 63) : (p.reduced exp).toNat = p.experience.toNat - exp.toNat := by
  have hsub : (p.experience - exp).toNat = (2 ^ 64 - exp.toNat + p.experience.toNat) % 2 ^ 64 :=
    UInt64.toNat_sub _ _
  have hlt := exp.toNat_lt
  rw [Player.reduced]
  split
  · rename_i hneg
    have hge := (toInt64_neg_iff _).mp hneg
    rw [UInt64.toNat_zero]
    omega
  · rename_i hneg
    have hge := mt (toInt64_neg_iff _).mpr hneg
    rw [UInt64.toUInt64_toInt64]
    omega

theorem lose_spec {p : Player} (left : UInt64) (hp : Sound p) (hleft : left.toNat ≤ p.experience.toNat) :
    Sound ({ p with experience := left }.loseLevels p.level.toNat) ∧
      ({ p with experience := left }.loseLevels p.level.toNat).experience = left ∧
        ({ p with experience := left }.losesUnclamped p.level.toNat = true →
          Kept p ({ p with experience := left }.loseLevels p.level.toNat)) := by
  obtain ⟨u, hreached, hlt⟩ := hp
  have hbound := hreached.lt
  obtain ⟨u', hreached', hlt', hexp, hkept⟩ := loseLevels_spec (p := { p with experience := left })
    p.level.toNat hreached.level (by omega) (by have := hreached.level; omega)
    (lt_of_le_of_lt hleft hreached.small) (lt_of_le_of_lt hleft hlt)
  exact ⟨⟨u', hreached', hlt'⟩, hexp, fun h => (hkept h).of_experience⟩

theorem removeExperience_spec {p : Player} (exp : UInt64) (event : UInt64 → UInt64) (hp : Sound p)
    (hexp : (event exp).toNat ≤ p.experience.toNat + 2 ^ 63) :
    Sound (p.removeExperience exp event) ∧ (exp ≠ 0 → (p.removeExperience exp event).experience.toNat =
        p.experience.toNat - (event exp).toNat) ∧
        (isUnclamped p (.removeExperience exp event) = true → Kept p (p.removeExperience exp event)) := by
  rw [Player.removeExperience]
  split
  · rename_i hnone
    refine ⟨hp, fun hne => ?_, fun _ => .refl p⟩
    rw [hnone.resolve_right hne, UInt64.toNat_zero, Nat.zero_sub]
  · rename_i hsome
    dsimp only
    split
    · rename_i hzero
      refine ⟨hp, fun _ => ?_, fun _ => .refl p⟩
      rw [hzero, UInt64.toNat_zero, Nat.sub_zero]
    · rename_i hne
      have hsmall : p.experience.toNat < 2 ^ 62 := hp.elim fun _ h => h.1.small
      have hleft := reduced_toNat hsmall hexp
      obtain ⟨hsound, hsame, hkept⟩ := lose_spec (p.reduced (event exp)) hp (by omega)
      generalize Player.loseLevels _ _ = q at hsound hsame hkept
      have halike := Alike.finish p q
      refine ⟨(halike _ _).sound hsound, fun _ => ?_, fun hunclamped => ?_⟩
      · rw [(halike _ _).experience, hsame, hleft]
      · refine (hkept ?_).trans (halike _ _).kept
        simpa only [isUnclamped, not_or.mp hsome, hne, decide_false, Bool.false_or] using hunclamped

theorem loseExperience_eq {p : Player} {expLoss : UInt64} (hle : expLoss ≤ p.experience) :
    ∃ left : UInt64, p.loseExperience expLoss = { p with experience := left } ∧ left.toNat ≤ p.experience.toNat := by
  rw [Player.loseExperience]
  split
  · refine ⟨p.experience - expLoss, rfl, ?_⟩
    rw [UInt64.toNat_sub_of_le _ _ hle]
    exact Nat.sub_le _ _
  · exact ⟨p.experience, rfl, le_rfl⟩

theorem death_spec {p : Player} {expLoss : UInt64} (blackSkull : Bool) (hp : Sound p)
    (hle : expLoss ≤ p.experience) : Sound (p.death expLoss blackSkull) ∧
      (isUnclamped p (.death expLoss blackSkull) = true → Kept p (p.death expLoss blackSkull)) := by
  rw [Player.death, isUnclamped]
  split
  · exact ⟨(Alike.revive p blackSkull).sound hp, fun _ => (Alike.revive p blackSkull).kept⟩
  · rename_i hne
    obtain ⟨left, heq, hleft⟩ := loseExperience_eq hle
    rw [heq]
    obtain ⟨hsound, -, hkept⟩ := lose_spec _ hp hleft
    dsimp only
    generalize Player.loseLevels _ _ = q at hsound hkept
    have halike := (Alike.setLevelPercent q (expFor q.level) (expFor (q.level + 1))).trans (Alike.revive _ blackSkull)
    refine ⟨halike.sound hsound, fun hunclamped => (hkept ?_).trans halike.kept⟩
    simpa only [hne, decide_false, Bool.false_or] using hunclamped

theorem step_sound {p : Player} {c : Change} (hp : Sound p) (hc : Allowed p c) :
    Sound (step p c) ∧ (isUnclamped p c = true → Kept p (step p c)) := by
  cases c with
  | addExperience exp event =>
    obtain ⟨hsound, -, hkept⟩ := addExperience_spec hp hc
    exact ⟨hsound, fun _ => hkept⟩
  | removeExperience exp event =>
    obtain ⟨hsound, -, hkept⟩ := removeExperience_spec _ _ hp hc
    exact ⟨hsound, hkept⟩
  | death expLoss blackSkull => exact death_spec blackSkull hp hc

/-- The level, the maxima and the capacity are the same again. -/
structure Restored (p q : Player) : Prop where
  level : q.level = p.level
  healthMax : q.healthMax = p.healthMax
  manaMax : q.manaMax = p.manaMax
  capacity : q.capacity = p.capacity

theorem Sound.level_unique {p q : Player} (hp : Sound p) (hq : Sound q)
    (h : q.experience.toNat = p.experience.toNat) : q.level = p.level := by
  obtain ⟨u, hu, hlt⟩ := hp
  obtain ⟨v, hv, hlt'⟩ := hq
  have hle : u < v + 1 := table_strictMono.lt_iff_lt.mp (by have := hu.table_le; omega)
  have hge : v < u + 1 := table_strictMono.lt_iff_lt.mp (by have := hv.table_le; omega)
  apply UInt32.toNat_inj.mp
  rw [hu.level, hv.level]
  omega

theorem Kept.restored {p q : Player} (h : Kept p q) (hlevel : q.level = p.level) : Restored p q := by
  have hhealth := h.health
  have hmana := h.mana
  have hcapacity := h.capacity
  simp only [baseHealth, baseMana, baseCapacity, h.vocation, hlevel] at hhealth hmana hcapacity
  refine ⟨hlevel, ?_, ?_, ?_⟩
  · have hbits : q.healthMax.toUInt32 = p.healthMax.toUInt32 := by grind
    exact congrArg UInt32.toInt32 hbits
  · grind
  · grind

theorem gain_then_lose {p : Player} {exp exp' : UInt64} {onGain onLose : UInt64 → UInt64} (hp : Sound p)
    (hgain : Allowed p (.addExperience exp onGain)) (hexp : exp' ≠ 0) (hsame : onLose exp' = onGain exp)
    (hunclamped : isUnclamped (p.addExperience exp onGain) (.removeExperience exp' onLose) = true) :
    Restored p ((p.addExperience exp onGain).removeExperience exp' onLose) := by
  have hsum : p.experience.toNat + (onGain exp).toNat < 2 ^ 62 := hgain
  obtain ⟨hsound, hmore, hkept⟩ := addExperience_spec hp hsum
  have hmore : (p.addExperience exp onGain).experience.toNat = p.experience.toNat + (onGain exp).toNat := by
    rw [hmore, toNat_add_small hsum]
  obtain ⟨hsound', hless, hkept'⟩ := removeExperience_spec exp' onLose hsound (by rw [hsame]; omega)
  refine (hkept.trans (hkept' hunclamped)).restored (hp.level_unique hsound' ?_)
  rw [hless hexp, hmore, hsame]
  omega

/-- The level follows the experience in every run, and the maxima follow the
level as long as none of them is clamped at zero. -/
theorem levels_follow_experience {p : Player} {cs : List Change} (hp : Leveled p) (hlevel : p.level ≤ lastLevel)
    (hsmall : p.experience.toNat < 2 ^ 62) (hcs : Along step Allowed p cs) :
    (∀ pre, pre <+: cs → Leveled (run step p pre) ∧
      (Along step (fun q c => isUnclamped q c = true) p pre → Kept p (run step p pre))) ∧
    ∀ (exp exp' : UInt64) (onGain onLose : UInt64 → UInt64),
      Allowed (run step p cs) (.addExperience exp onGain) → exp' ≠ 0 → onLose exp' = onGain exp →
      isUnclamped (step (run step p cs) (.addExperience exp onGain)) (.removeExperience exp' onLose) = true →
      Restored (run step p cs)
        (run step (run step p cs) [.addExperience exp onGain, .removeExperience exp' onLose]) := by
  have hsound : Sound p := hp.reached hlevel hsmall
  have hkeeps : ∀ q c, Sound q → Allowed q c → Sound (step q c) :=
    fun _ _ hq hc => (step_sound hq hc).1
  have hreach := inv_reached hkeeps hsound hcs
  refine ⟨fun pre hpre => ⟨?_, fun hun => ?_⟩, fun exp exp' onGain onLose hgain hexp hsame hun => ?_⟩
  · obtain ⟨u, hu, hlt⟩ := hreach pre hpre
    exact hu.leveled hlt
  · -- soundness and what is kept go along the run together
    have hok : Along step (fun q c => Allowed q c ∧ isUnclamped q c = true) p pre := by
      obtain ⟨post, rfl⟩ := hpre
      exact hcs.left.and hun
    have hinv : ∀ q c, Sound q ∧ Kept p q → Allowed q c ∧ isUnclamped q c = true →
        Sound (step q c) ∧ Kept p (step q c) :=
      fun q c hq hc => ⟨(step_sound hq.1 hc.1).1, hq.2.trans ((step_sound hq.1 hc.1).2 hc.2)⟩
    exact (inv_run hinv ⟨hsound, .refl p⟩ hok).2
  · exact gain_then_lose (hreach cs (List.prefix_refl cs)) hgain hexp hsame hun

def knight : Player :=
  { vocation := { gainHP := 15, gainMana := 5, gainCap := 2500 }
    level := 8, experience := 4200, healthMax := 185, manaMax := 35, capacity := 47000 }

def hunt : List Change := [.addExperience 5000 id, .removeExperience 3000 (· / 2), .death 2000 false]

theorem levels_follow_experience_hunt : Leveled (run step knight hunt) ∧ Kept knight (run step knight hunt) ∧
    Restored (run step knight hunt) (run step (run step knight hunt)
      [.addExperience 10000 (· * 2), .removeExperience 20000 id]) := by
  have hsmall : knight.experience.toNat < 2 ^ 62 := by decide +kernel
  have hallowed : Along step Allowed knight hunt := by decide +kernel
  obtain ⟨hreached, hback⟩ := levels_follow_experience (by decide +kernel)
    (by decide +kernel) hsmall hallowed
  obtain ⟨hleveled, hkept⟩ := hreached hunt (List.prefix_refl hunt)
  exact ⟨hleveled, hkept (by decide +kernel),
    hback 10000 20000 (· * 2) id (by decide +kernel) (by decide) (by decide) (by decide +kernel)⟩

/-- A level whose threshold has overflowed many times. -/
def veteran : Player := { level := 2147483000, experience := 45365766443833266 }

/-- The next threshold is lower, so the loop takes the level for the last one. -/
theorem veteran_outgrows_the_levels : ¬ ∀ (p : Player) (exp : UInt64) (onGainExperience : UInt64 → UInt64),
    Leveled p → p.experience.toNat + (onGainExperience exp).toNat < 2 ^ 62 →
      Leveled (step p (.addExperience exp onGainExperience)) := by
  intro h
  have hstep := h veteran 3074317866576413603 id (by decide +kernel) (by decide +kernel)
  have hnot : ¬ Leveled (step veteran (.addExperience 3074317866576413603 id)) := by decide +kernel
  exact hnot hstep

end ForgottenServer.Progress
