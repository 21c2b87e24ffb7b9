import ForgottenServer.Lib.Binary64
import ForgottenServer.Lib.Run
import Mathlib.Order.Bounds.Basic

/-! # Guild levels

`GuildEnhanced.addGuildXP` adds to the experience of a guild and looks once
whether the next level is reached. A guild whose total passes two thresholds in
one call goes up by one level only and stays behind its experience; while every
call passes at most one, the level is the one its experience is worth. Statements
succeed when what they write is a number. -/
namespace ForgottenServer.Guild.Levels
open ForgottenServer.Lib ForgottenServer.Lib.Run ForgottenServer.Lib.Binary64

/-- `GuildEnhanced.config.maxGuildLevel`. -/
def maxGuildLevel : ℕ := 50

def GUILD_XP_BASE : ℕ := 59500
def GUILD_LEVEL_BASE : ℕ := 59900

def levelXP (i : ℕ) : ℕ := i * i * 1000

/-- `GuildEnhanced.LEVEL_XP`, a table from 1 to 50. -/
def LEVEL_XP : Double → Option Double
  | .fin q => if q.den = 1 ∧ 1 ≤ q ∧ q ≤ 50 then some (.fin (levelXP q.num.toNat)) else none
  | _ => none

/-- The column `value` is text. `number x` is what `result.getNumber` makes of the text
that `x` was written as. -/
structure Column where
  number : Double → Double
  /-- fourteen digits are written in full -/
  number_fin : ∀ n : ℕ, n < 10 ^ 14 → number (.fin n) = .fin n

/-- The rows of `guild_storage`: what was written for a guild under a key. -/
abbrev GuildStorage := ℤ × ℕ → Option Double

section Functions
variable (column : Column) (s : GuildStorage) (guildId : ℤ)

/-- `GuildEnhanced.getGuildLevel`. -/
def getGuildLevel : Double :=
  if guildId ≤ 0 then .fin 1
  else
    match s (guildId, GUILD_LEVEL_BASE) with
    | some value => Double.max (.fin 1) (column.number value)
    | none => .fin 1

/-- `GuildEnhanced.getGuildXP`. -/
def getGuildXP : Double :=
  if guildId ≤ 0 then .fin 0
  else
    match s (guildId, GUILD_XP_BASE) with
    | some value => column.number value
    | none => .fin 0

/-- `GuildEnhanced.setGuildStorage`; the statement fails on a literal that is no number. -/
def setGuildStorage (key : ℕ) : Double → GuildStorage
  | .fin q => Function.update s (guildId, key) (some (.fin q))
  | _ => s

/-- `GuildEnhanced.addGuildXP`, with what the members online are told. -/
def addGuildXP (xpAmount : Double) : GuildStorage × Option String :=
  if guildId ≤ 0 || xpAmount.le (.fin 0) then (s, none)
  else
    let currentXP := getGuildXP column s guildId
    let currentLevel := getGuildLevel column s guildId
    let newXP := currentXP.add xpAmount
    let s := setGuildStorage s guildId GUILD_XP_BASE newXP
    if currentLevel.lt (.fin maxGuildLevel) then
      match LEVEL_XP (currentLevel.add (.fin 1)) with
      | some nextLevelXP =>
        if nextLevelXP.le newXP then
          let newLevel := currentLevel.add (.fin 1)
          (setGuildStorage s guildId GUILD_LEVEL_BASE newLevel,
            some ("Your guild has reached level " ++ newLevel.text ++ "!"))
        else (s, none)
      | none => (s, none)
    else (s, none)

end Functions

/-- A call names a guild and an amount. -/
abbrev Call := ℤ × Double

def step (column : Column) (s : GuildStorage) (call : Call) : GuildStorage :=
  (addGuildXP column s call.1 call.2).1

/-- Nothing is stored. -/
def GuildStorage.empty : GuildStorage := fun _ => none

/-! ## The level of a total -/

/-- What a guild was given. -/
def total (guildId : ℤ) (calls : List Call) : ℚ :=
  (calls.map fun call => match call.2 with
    | .fin q => if call.1 = guildId then q else 0
    | _ => 0).sum

/-- The greatest level that so much experience is worth. -/
def IsLevelOf (xp : ℚ) (level : ℕ) : Prop :=
  IsGreatest {l : ℕ | 1 ≤ l ∧ l ≤ maxGuildLevel ∧ (l = 1 ∨ (levelXP l : ℚ) ≤ xp)} level

/-- What is stored for a guild: so much experience, and the level it is worth. -/
def Follows (column : Column) (s : GuildStorage) (guildId : ℤ) (xp : ℚ) : Prop :=
  getGuildXP column s guildId = .fin xp ∧ ∃ level : ℕ, getGuildLevel column s guildId = .fin level ∧ IsLevelOf xp level

/-- The call adds a whole number, the sum has at most fourteen digits, and it is less than
what the level after the next costs. -/
def OneLevelAtMost (column : Column) (s : GuildStorage) (call : Call) : Prop :=
  ∃ xp level amount : ℕ, getGuildXP column s call.1 = .fin xp ∧
    getGuildLevel column s call.1 = .fin level ∧ call.2 = .fin amount ∧ 0 < amount ∧
    xp + amount < 10 ^ 14 ∧ (level + 2 ≤ maxGuildLevel → xp + amount < levelXP (level + 2))

theorem levelXP_mono {i j : ℕ} (h : i ≤ j) : levelXP i ≤ levelXP j :=
  Nat.mul_le_mul_right 1000 (Nat.mul_le_mul h h)

theorem isLevelOf_natCast {xp level : ℕ} : IsLevelOf xp level ↔
    1 ≤ level ∧ level ≤ maxGuildLevel ∧ (level = 1 ∨ levelXP level ≤ xp) ∧
      (level + 1 ≤ maxGuildLevel → xp < levelXP (level + 1)) := by
  simp only [IsLevelOf, IsGreatest, upperBounds, Set.mem_ofPred_eq, Nat.cast_le, and_assoc]
  refine and_congr_right fun hone => and_congr_right fun hmax => and_congr_right fun hreached => ?_
  constructor
  · intro hbound hnext
    by_contra hle
    have := hbound ⟨Nat.le_add_left 1 level, hnext, .inr (not_lt.mp hle)⟩
    omega
  · intro hnext l ⟨hl, hlmax, hlreached⟩
    by_contra hlt
    rcases hlreached with rfl | hle
    · exact hlt hone
    · have := levelXP_mono (show level + 1 ≤ l by omega)
      have := hnext (by omega)
      omega

theorem LEVEL_XP_natCast {n : ℕ} (h : 1 ≤ n) (h' : n ≤ 50) : LEVEL_XP (.fin n) = some (.fin (levelXP n)) := by
  have h1 : (1 : ℚ) ≤ n := by exact_mod_cast h
  have h50 : (n : ℚ) ≤ 50 := by exact_mod_cast h'
  simp [LEVEL_XP, h1, h50]

theorem max_natCast {n : ℕ} (h : 1 ≤ n) : Double.max (.fin 1) (.fin n) = .fin n := by
  rcases h.eq_or_lt with rfl | hlt
  · simp [Double.max]
  · have : (1 : ℚ) < n := by exact_mod_cast hlt
    simp [Double.max, Double.lt, this]

/-! ## One call -/

variable {column : Column} {s : GuildStorage} {g : ℤ}

theorem addGuildXP_numbers {xp level amount : ℕ} (hg : 0 < g) (hxp : getGuildXP column s g = .fin xp)
    (hlevel : getGuildLevel column s g = .fin level) (hone : 1 ≤ level) (hmax : level ≤ maxGuildLevel)
    (hpos : 0 < amount) (hsum : xp + amount < 10 ^ 14) :
    getGuildXP column (addGuildXP column s g (.fin amount)).1 g = .fin (xp + amount : ℕ) ∧
    getGuildLevel column (addGuildXP column s g (.fin amount)).1 g =
      .fin (if level + 1 ≤ maxGuildLevel ∧ levelXP (level + 1) ≤ xp + amount then level + 1 else level : ℕ) := by
  have hpos' : ¬ ((amount : ℚ) ≤ 0) := by
    rw [not_le]
    exact_mod_cast hpos
  have hg' : ¬ g ≤ 0 := not_le.mpr hg
  have hadd : (Double.fin xp).add (.fin amount) = .fin (xp + amount : ℕ) := by
    rw [Double.add_natCast, Double.ofNat_eq (by omega)]
  have hnext : (Double.fin level).add (.fin 1) = .fin (level + 1 : ℕ) := by
    unfold maxGuildLevel at hmax
    have := Double.add_natCast level 1
    rw [Nat.cast_one] at this
    rw [this, Double.ofNat_eq (by omega)]
  have hkeys : GUILD_LEVEL_BASE ≠ GUILD_XP_BASE := by decide
  have hlt : ((Double.fin level).lt (.fin maxGuildLevel) = true) ↔ level + 1 ≤ maxGuildLevel := by
    simp only [Double.lt, decide_eq_true_eq, Nat.cast_lt]
    exact Iff.rfl
  simp only [getGuildLevel, hg', if_false] at hlevel
  simp only [addGuildXP, hg', decide_false, Bool.false_or, Double.le, hpos', Bool.false_eq_true, if_false, hxp,
    hadd, getGuildLevel, hlevel, hnext, hlt]
  by_cases hroom : level + 1 ≤ maxGuildLevel
  · rw [if_pos hroom, LEVEL_XP_natCast (Nat.le_add_left 1 level) hroom]
    by_cases hreached : levelXP (level + 1) ≤ xp + amount
    · have hreached' : ((levelXP (level + 1) : ℕ) : ℚ) ≤ (xp + amount : ℕ) := by exact_mod_cast hreached
      have hsmall : level + 1 < 10 ^ 14 := by
        unfold maxGuildLevel at hroom
        omega
      simp only [hreached', decide_true, if_true, setGuildStorage, getGuildXP, hg', if_false, ne_eq,
        Prod.mk.injEq, hkeys.symm, and_false, not_false_eq_true, Function.update_of_ne, Function.update_self,
        column.number_fin _ hsum, column.number_fin _ hsmall, max_natCast (Nat.le_add_left 1 level), true_and]
      rw [if_pos ⟨hroom, hreached⟩]
    · have hreached' : ¬ ((levelXP (level + 1) : ℕ) : ℚ) ≤ (xp + amount : ℕ) := by exact_mod_cast hreached
      simp only [hreached', decide_false, Bool.false_eq_true, if_false, setGuildStorage, getGuildXP, hg', ne_eq,
        Prod.mk.injEq, hkeys, and_false, not_false_eq_true, Function.update_of_ne, Function.update_self,
        column.number_fin _ hsum, hlevel, true_and]
      rw [if_neg fun h => hreached h.2]
  · rw [if_neg hroom, if_neg fun h => hroom h.1]
    simp only [setGuildStorage, getGuildXP, hg', if_false, ne_eq, Prod.mk.injEq, hkeys, and_false,
      not_false_eq_true, Function.update_of_ne, Function.update_self, column.number_fin _ hsum, hlevel, true_and]

theorem setGuildStorage_of_ne {g' : ℤ} (h : g' ≠ g) (key key' : ℕ) (value : Double) :
    setGuildStorage s g key value (g', key') = s (g', key') := by
  cases value <;> simp [setGuildStorage, h]

theorem addGuildXP_of_ne {g' : ℤ} (h : g' ≠ g) (amount : Double) (key : ℕ) :
    (addGuildXP column s g amount).1 (g', key) = s (g', key) := by
  unfold addGuildXP
  dsimp only
  split
  · rfl
  · split
    · split
      · split
        · exact (setGuildStorage_of_ne h ..).trans (setGuildStorage_of_ne h ..)
        · exact setGuildStorage_of_ne h ..
      · exact setGuildStorage_of_ne h ..
    · exact setGuildStorage_of_ne h ..

theorem follows_of_ne {g' : ℤ} {xp : ℚ} (h : g' ≠ g) (amount : Double) (hf : Follows column s g' xp) :
    Follows column (addGuildXP column s g amount).1 g' xp := by
  simpa only [Follows, getGuildXP, getGuildLevel, addGuildXP_of_ne h] using hf

/-- A call that passes one threshold at most keeps the level at what the experience is worth. -/
theorem follows_step {xp : ℚ} {amount : Double} (hg : 0 < g) (hf : Follows column s g xp)
    (hok : OneLevelAtMost column s (g, amount)) :
    ∃ a : ℕ, amount = .fin a ∧ Follows column (addGuildXP column s g amount).1 g (xp + a) := by
  obtain ⟨hstored, level', hlevel', hworth⟩ := hf
  obtain ⟨n, level, a, hxp, hlevel, rfl, hpos, hsum, hskip⟩ := hok
  obtain rfl : xp = n := by
    rw [hstored] at hxp
    simpa using hxp
  obtain rfl : level' = level := by
    rw [hlevel'] at hlevel
    simpa using hlevel
  obtain ⟨hone, hmax, hreached, hnext⟩ := isLevelOf_natCast.mp hworth
  obtain ⟨hxp', hlevel''⟩ := addGuildXP_numbers hg hxp hlevel hone hmax hpos hsum
  have hcast : ((n : ℚ) + a) = (n + a : ℕ) := by push_cast; rfl
  refine ⟨a, rfl, by rw [hxp', hcast], _, hlevel'', ?_⟩
  rw [hcast, isLevelOf_natCast]
  split
  · rename_i hup
    exact ⟨Nat.le_add_left 1 _, hup.1, .inr hup.2, hskip⟩
  · rename_i hstay
    refine ⟨hone, hmax, hreached.imp_right fun hle => hle.trans (Nat.le_add_right n a), fun hroom => ?_⟩
    exact not_le.mp fun hle => hstay ⟨hroom, hle⟩

/-! ## Every run -/

theorem total_concat (calls : List Call) (call : Call) :
    total g (calls ++ [call]) = total g calls + total g [call] := by
  simp [total]

theorem follows_run {calls : List Call} (hg : 0 < g)
    (hok : Along (step column) (OneLevelAtMost column) GuildStorage.empty calls) :
    Follows column (run (step column) GuildStorage.empty calls) g (total g calls) := by
  induction calls using List.reverseRecOn with
  | nil =>
    have hg' : ¬ g ≤ 0 := not_le.mpr hg
    refine ⟨by simp [getGuildXP, hg', GuildStorage.empty, total], 1,
      by simp [getGuildLevel, hg', GuildStorage.empty], ?_⟩
    exact (@isLevelOf_natCast 0 1).mpr (by decide)
  | append_singleton calls call ih =>
    have hbefore := ih hok.left
    rw [run_append, run_cons, run_nil, total_concat]
    obtain ⟨g', amount⟩ := call
    by_cases hsame : g' = g
    · subst hsame
      obtain ⟨a, rfl, hafter⟩ := follows_step hg hbefore hok.last
      have hone : total g' [(g', .fin a)] = a := by simp [total]
      rw [hone]
      exact hafter
    · have hzero : total g [(g', amount)] = 0 := by
        cases amount <;> simp [total, hsame]
      rw [hzero, add_zero]
      exact follows_of_ne (fun heq => hsame heq.symm) amount hbefore

/-- For every run of calls from empty rows that pass one threshold at most each: after each
call a guild has what it was given, and the level that this is worth; and two such runs
that give the same come to the same level. -/
theorem level_follows_experience (column : Column) (g : ℤ) (hg : 0 < g) (calls : List Call)
    (hok : Along (step column) (OneLevelAtMost column) GuildStorage.empty calls) :
    (∀ pre, pre <+: calls → Follows column (run (step column) GuildStorage.empty pre) g (total g pre)) ∧
    ∀ calls', Along (step column) (OneLevelAtMost column) GuildStorage.empty calls' → total g calls' = total g calls →
      getGuildLevel column (run (step column) GuildStorage.empty calls') g =
        getGuildLevel column (run (step column) GuildStorage.empty calls) g := by
  constructor
  · intro pre ⟨post, hpost⟩
    subst hpost
    exact follows_run hg hok.left
  · intro calls' hok' htotal
    obtain ⟨-, level, hlevel, hworth⟩ := follows_run hg hok
    obtain ⟨-, level', hlevel', hworth'⟩ := follows_run hg hok'
    rw [htotal] at hworth'
    rw [hlevel, hlevel', hworth'.unique hworth]

/-- A column that gives every number back. -/
def plain : Column := ⟨id, fun _ _ => rfl⟩

/-- Two guilds, one of which reaches the second level. -/
def twoGuilds : List Call := [(1, .fin 100), (2, .fin 50), (1, .fin 3900)]

theorem two_guilds_follow :
    (∀ pre, pre <+: twoGuilds → Follows plain (run (step plain) GuildStorage.empty pre) 1 (total 1 pre)) ∧
    ∀ calls', Along (step plain) (OneLevelAtMost plain) GuildStorage.empty calls' →
      total 1 calls' = total 1 twoGuilds →
      getGuildLevel plain (run (step plain) GuildStorage.empty calls') 1 =
        getGuildLevel plain (run (step plain) GuildStorage.empty twoGuilds) 1 := by
  refine level_follows_experience plain 1 Int.one_pos twoGuilds ⟨?_, ?_, ?_, trivial⟩
  · exact ⟨0, 1, 100, by decide +kernel⟩
  · exact ⟨0, 1, 50, by decide +kernel⟩
  · exact ⟨100, 1, 3900, by decide +kernel⟩

/-- Nine thousand at once are worth the third level and bring the second. -/
theorem second_threshold_passed : ¬ ∀ calls : List Call, (∀ call ∈ calls, (Double.fin 0).lt call.2 = true) →
    ∀ g, 0 < g → Follows plain (run (step plain) GuildStorage.empty calls) g (total g calls) := by
  intro h
  obtain ⟨-, level, hlevel, hworth⟩ := h [(1, .fin 9000)] (by simp [Double.lt]) 1 Int.one_pos
  have htotal : total 1 [(1, .fin 9000)] = (9000 : ℕ) := by simp [total]
  have hsecond : getGuildLevel plain (run (step plain) GuildStorage.empty [(1, .fin 9000)]) 1 =
      .fin (2 : ℕ) := by decide +kernel
  rw [hsecond, Double.fin.injEq, Nat.cast_inj] at hlevel
  rw [htotal, ← hlevel, isLevelOf_natCast] at hworth
  exact absurd (hworth.2.2.2 (by decide)) (by decide)

end ForgottenServer.Guild.Levels
