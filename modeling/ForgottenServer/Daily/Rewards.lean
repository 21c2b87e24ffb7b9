import ForgottenServer.Lib.Calendar
import ForgottenServer.Tasks.Counting

/-! # Daily rewards

`DailyRewards` pays one of seven rewards for each day. The streak and the date of
the last claim are storage values of the player; what a claim pays and shows is
the list of its effects. -/
namespace ForgottenServer.Daily
open ForgottenServer.Lib.Calendar ForgottenServer.Lib.Run
open ForgottenServer.Tasks (Storage getStorageValue setStorageValue storageKey)

/-! ## Constants -/

def storageStreak : ℤ := 64000

def storageLastClaim : ℤ := 64001

def storageLastYear : ℤ := 64002

def storageLastYday : ℤ := 64003

def storageBonusXP : ℤ := 64004

def cycleLength : ℤ := 7

structure Item where
  id : ℕ
  count : ℕ
  fillWith : Option (List (ℕ × ℕ)) := none
  deriving DecidableEq

structure Reward where
  gold : ℕ
  items : List Item
  bonusXP : Bool := false
  description : String
  deriving DecidableEq

def rewardList : List Reward :=
  [{ gold := 500, items := [], description := "500 gold" },
    { gold := 1000
      items := [{ id := 7618, count := 5 }]
      description := "1000 gold + 5 small health potions" },
    { gold := 2000
      items := [{ id := 7620, count := 5 }]
      description := "2000 gold + 5 small mana potions" },
    { gold := 3000
      items := [{ id := 7588, count := 2 }]
      description := "3000 gold + 2 strong health potions" },
    { gold := 5000
      items := [{ id := 7590, count := 2 }]
      description := "5000 gold + 2 strong mana potions" },
    { gold := 7500
      items := [{ id := 1988, count := 1, fillWith := some [(7618, 5), (7620, 5), (7588, 2), (7590, 2)] }]
      description := "7500 gold + 1 backpack with mixed supplies" },
    { gold := 15000
      items := []
      bonusXP := true
      description := "15000 gold + bonus XP scroll (2x XP for 1 hour)" }]

/-- `DailyRewards.rewards[day]`. -/
def rewards (day : ℤ) : Option Reward := if 1 ≤ day then rewardList[day.toNat - 1]? else none

/-! ## Storage helpers -/

def getStreak (s : Storage) : ℤ :=
  let v := getStorageValue s storageStreak
  if v < 1 then 0 else v

def setStreak (s : Storage) (streak : ℤ) : Storage := setStorageValue s storageStreak streak

def getLastClaim (s : Storage) : Option (ℤ × ℤ) :=
  let year := getStorageValue s storageLastYear
  let yday := getStorageValue s storageLastYday
  if year < 0 ∨ yday < 0 then none else some (year, yday)

/-- What the clock and the inventory say during a call. The year that `os.date`
gives is an `int`; `hasRoom` is whether `player:addItem` creates the backpack. -/
structure Call where
  date : Date
  year_lt : date.year < 2 ^ 31
  time : ℤ
  hasRoom : Bool := true

def setLastClaim (s : Storage) (now : Call) : Storage :=
  let s := setStorageValue s storageLastClaim now.time
  let s := setStorageValue s storageLastYear now.date.year
  setStorageValue s storageLastYday now.date.yday

/-! ## Day comparison -/

def isLeapYear (y : ℤ) : Bool := (y % 4 = 0 && y % 100 ≠ 0) || y % 400 = 0

def daysSinceLastClaim (s : Storage) (now : Call) : ℤ :=
  match getLastClaim s with
  | none => -1
  | some (year, yday) =>
    if now.date.year = year then now.date.yday - yday
    else
      let daysInLastYear : ℤ := if isLeapYear year then 366 else 365
      let daysRemaining := daysInLastYear - yday
      let totalDays := daysRemaining + now.date.yday
      if 1 < now.date.year - year then totalDays + 365 * (now.date.year - year - 1) else totalDays

/-! ## Claims -/

inductive Effect
  | addMoney (gold : ℕ)
  | addItem (id count : ℕ)
  /-- `backpack:addItem` of a backpack that was just created -/
  | addSupply (id count : ℕ)
  | sendTextMessage (text : String)
  | sendMagicEffect
  deriving DecidableEq

def giveItem (hasRoom : Bool) (item : Item) : List Effect :=
  .addItem item.id item.count ::
    match item.fillWith with
    | some supplies => if hasRoom then supplies.map fun supply => .addSupply supply.1 supply.2 else []
    | none => []

/-- What `claimReward` does for a player who gets the reward of a day. -/
def award (now : Call) (newStreak : ℤ) (reward : Reward) : List Effect :=
  (if 0 < reward.gold then [.addMoney reward.gold] else []) ++
  reward.items.flatMap (giveItem now.hasRoom) ++
  (if reward.bonusXP then
    [.sendTextMessage "[Daily Reward] Bonus XP activated! You gain 2x experience for the next hour."]
  else []) ++
  [.sendTextMessage ("[Daily Reward] Day " ++ toString newStreak ++ "/" ++ toString cycleLength ++
    " claimed: " ++ reward.description ++ "!")] ++
  (if newStreak = cycleLength then
    [.sendTextMessage ("[Daily Reward] Congratulations! You completed the full 7-day cycle! " ++
      "The cycle will reset tomorrow.")]
  else []) ++
  [.sendMagicEffect]

def claimReward (s : Storage) (now : Call) : Storage × Except String (List Effect) :=
  let daysSince := daysSinceLastClaim s now
  let streak := getStreak s
  if daysSince = 0 then
    (s, .error "You have already claimed your daily reward today. Come back tomorrow!")
  else
    let newStreak := if daysSince = 1 then streak % cycleLength + 1 else 1
    match rewards newStreak with
    | none => (s, .error "Reward configuration error.")
    | some reward =>
      let s := if reward.bonusXP then setStorageValue s storageBonusXP (now.time + 3600) else s
      (setLastClaim (setStreak s newStreak) now, .ok (award now newStreak reward))

def step (s : Storage) (now : Call) : Storage := (claimReward s now).1

/-! ## The streak -/

def daysOf (calls : List Call) : List ℕ := calls.map fun c => c.date.number

def placeInCycle (days : List ℕ) (n : ℕ) : ℤ := ((runLength days n - 1) % 7 + 1 : ℕ)

/-- What the values of a player say after some calls. -/
def Recorded (calls : List Call) (s : Storage) : Prop :=
  match calls.getLast? with
  | none => getLastClaim s = none
  | some c => getLastClaim s = some ((c.date.year : ℤ), (c.date.yday : ℤ)) ∧
    getStreak s = placeInCycle (daysOf calls) c.date.number

theorem isLeapYear_natCast (year : ℕ) : isLeapYear year = isLeap year := by
  unfold isLeapYear isLeap
  congr 1
  · congr 1 <;> congr 1 <;> simp only [eq_iff_iff, ne_eq, not_iff_not] <;> omega
  · congr 1
    simp only [eq_iff_iff]
    omega

theorem daysInYear_natCast (year : ℕ) : (if isLeapYear year then 366 else 365 : ℤ) = daysInYear year := by
  rw [isLeapYear_natCast, daysInYear]
  split <;> rfl

theorem daysSinceLastClaim_spec {s : Storage} {d : Date} {now : Call}
    (hs : getLastClaim s = some ((d.year : ℤ), (d.yday : ℤ))) (h : d.Le now.date) :
    (daysSinceLastClaim s now = 0 ↔ now.date = d) ∧
    (daysSinceLastClaim s now = 1 ↔ now.date.number = d.number + 1) := by
  have hnum := Date.le_iff_number.mp h
  suffices hdays : daysSinceLastClaim s now = now.date.number - d.number ∨
      1 < daysSinceLastClaim s now ∧ d.number + 1 < now.date.number by
    rw [← Date.number_inj]
    rcases hdays with heq | ⟨hlong, hlong'⟩ <;> omega
  have hyday := d.yday_le
  have hpos := now.date.yday_pos
  unfold daysSinceLastClaim
  simp only [hs, daysInYear_natCast]
  split
  · rename_i hyear
    have hyear : now.date.year = d.year := by exact_mod_cast hyear
    left
    simp only [Date.number, hyear]
    omega
  · rename_i hyear
    have hlt : d.year < now.date.year := by
      rcases h with hlt | ⟨heq, _⟩
      · exact hlt
      · exact absurd (by rw [heq]) hyear
    split
    · have hlater := Date.number_of_later_year (d := d) (e := now.date) (by omega)
      right
      omega
    · have hnext := Date.number_of_next_year (d := d) (e := now.date) (by omega)
      left
      omega

theorem getStorageValue_own {key value : ℤ} (s : Storage) (hlow : 64000 ≤ key) (hhigh : key ≤ 64004) (hpos : 0 ≤ value)
    (hlt : value < 2 ^ 31) : getStorageValue (setStorageValue s key value) key = value := by
  have hkey : storageKey key = key.toNat := by
    unfold storageKey
    congr 1
    omega
  rw [Tasks.getStorageValue_set]
  · exact Int.bmod_eq_of_le_mul_two (by omega) (by omega)
  · rw [hkey, Tasks.isReserved, Bool.and_eq_false_iff, decide_eq_false_iff_not]
    left
    omega

theorem getStorageValue_other {key key' value : ℤ} (s : Storage) (hlow : 64000 ≤ key)
    (hhigh : key ≤ 64004) (hlow' : 64000 ≤ key') (hhigh' : key' ≤ 64004) (hne : key' ≠ key) :
    getStorageValue (setStorageValue s key value) key' = getStorageValue s key' := by
  refine Tasks.getStorageValue_set_of_ne ?_
  unfold storageKey
  omega

theorem getLastClaim_setLastClaim (s : Storage) (now : Call) :
    getLastClaim (setLastClaim s now) = some ((now.date.year : ℤ), (now.date.yday : ℤ)) := by
  have hyear := now.year_lt
  have hyday := now.date.yday_le
  have hyday' : daysInYear now.date.year ≤ 366 := by
    unfold daysInYear
    split <;> omega
  unfold getLastClaim setLastClaim
  dsimp only
  rw [getStorageValue_other _ (by decide) (by decide) (by decide) (by decide) (by decide),
    getStorageValue_own _ (by decide) (by decide) (by omega) (by omega),
    getStorageValue_own _ (by decide) (by decide) (by omega) (by omega), if_neg (by omega)]

theorem getStreak_setLastClaim {s : Storage} {now : Call} {streak : ℤ} (hpos : 1 ≤ streak)
    (hle : streak ≤ cycleLength) : getStreak (setLastClaim (setStreak s streak) now) = streak := by
  unfold cycleLength at hle
  unfold getStreak setLastClaim setStreak
  dsimp only
  rw [getStorageValue_other _ (by decide) (by decide) (by decide) (by decide) (by decide),
    getStorageValue_other _ (by decide) (by decide) (by decide) (by decide) (by decide),
    getStorageValue_other _ (by decide) (by decide) (by decide) (by decide) (by decide),
    getStorageValue_own _ (by decide) (by decide) (by omega) (by omega), if_neg (by omega)]

theorem rewards_isSome {day : ℤ} (hpos : 1 ≤ day) (hle : day ≤ cycleLength) : ∃ reward, rewards day = some reward := by
  unfold cycleLength at hle
  have hlt : day.toNat - 1 < rewardList.length := by
    have : rewardList.length = 7 := rfl
    omega
  exact ⟨rewardList[day.toNat - 1], by rw [rewards, if_pos hpos, List.getElem?_eq_getElem hlt]⟩

section Steps
variable {calls : List Call} {s : Storage} {now : Call}

theorem daysOf_snoc : daysOf (calls ++ [now]) = daysOf calls ++ [now.date.number] := by
  simp [daysOf]

theorem placeInCycle_bounds (days : List ℕ) (n : ℕ) : 1 ≤ placeInCycle days n ∧ placeInCycle days n ≤ cycleLength := by
  unfold placeInCycle cycleLength
  omega

/-- The place of a day that a claim is made on for the first time, from the one before. -/
theorem placeInCycle_snoc {n : ℕ} (hlast : ∀ m ∈ daysOf calls, m < n) : placeInCycle (daysOf calls ++ [n]) n =
      if ∃ m ∈ daysOf calls, n = m + 1 then placeInCycle (daysOf calls) (n - 1) % cycleLength + 1
      else 1 := by
  unfold placeInCycle cycleLength
  cases n with
  | zero =>
    have hnone : ¬∃ m ∈ daysOf calls, 0 = m + 1 := by simp
    rw [if_neg hnone]
    simp [runLength]
  | succ n =>
    have hold : runLength (daysOf calls ++ [n + 1]) n = runLength (daysOf calls) n := by
      refine runLength_congr fun m hm => ?_
      have hne : m ≠ n + 1 := by omega
      simp [hne]
    rw [runLength_succ (by simp), hold]
    simp only [Nat.add_sub_cancel]
    split
    · rename_i hnext
      obtain ⟨m, hm, hnm⟩ := hnext
      obtain rfl : n = m := by omega
      have hpos := runLength_pos hm
      omega
    · rename_i hnext
      have hnot : n ∉ daysOf calls := fun hm => hnext ⟨n, hm, rfl⟩
      rw [runLength_of_not_mem hnot]
      rfl

/-- Calls on dates that never go backwards. -/
def Forward (calls : List Call) : Prop := calls.Pairwise fun c c' => c.date.Le c'.date

instance (calls : List Call) : Decidable (Forward calls) :=
  inferInstanceAs (Decidable (calls.Pairwise fun c c' => c.date.Le c'.date))

theorem Forward.le_last {c : Call} (h : Forward (calls ++ [c])) : ∀ m ∈ daysOf (calls ++ [c]), m ≤ c.date.number := by
  intro m hm
  rw [daysOf_snoc, List.mem_append, List.mem_singleton] at hm
  rcases hm with hm | rfl
  · obtain ⟨c', hc', rfl⟩ := List.mem_map.mp hm
    exact Date.le_iff_number.mp ((List.pairwise_append.mp h).2.2 c' hc' c (by simp))
  · exact le_refl _

/-- After a call without one before it the date is new; otherwise the date is that of the
last call or a later one, and only the last call counts. -/
theorem claimReward_again (hs : Recorded calls s) (h : Forward (calls ++ [now]))
    (hmem : now.date.number ∈ daysOf calls) :
    claimReward s now = (s, .error "You have already claimed your daily reward today. Come back tomorrow!") := by
  cases calls using List.reverseRecOn with
  | nil => simp [daysOf] at hmem
  | append_singleton calls c =>
    simp only [Recorded, List.getLast?_concat] at hs
    have hle : c.date.Le now.date := (List.pairwise_append.mp h).2.2 c (by simp) now (by simp)
    have hlast := Forward.le_last (List.pairwise_append.mp h).1 _ hmem
    have hsame : now.date = c.date := by
      have := Date.le_iff_number.mp hle
      exact Date.number_inj.mp (by omega)
    have hzero := (daysSinceLastClaim_spec hs.1 hle).1.mpr hsame
    simp only [claimReward, hzero, if_true]

theorem claimReward_first (hs : Recorded calls s) (h : Forward (calls ++ [now]))
    (hmem : now.date.number ∉ daysOf calls) :
    ∃ reward, rewards (placeInCycle (daysOf calls ++ [now.date.number]) now.date.number) = some reward ∧
      (claimReward s now).2 = .ok
        (award now (placeInCycle (daysOf calls ++ [now.date.number]) now.date.number) reward) ∧
      Recorded (calls ++ [now]) (claimReward s now).1 := by
  obtain ⟨hpos, hle⟩ := placeInCycle_bounds (daysOf calls ++ [now.date.number]) now.date.number
  obtain ⟨reward, hreward⟩ := rewards_isSome hpos hle
  suffices hnew : daysSinceLastClaim s now ≠ 0 ∧
      (if daysSinceLastClaim s now = 1 then getStreak s % cycleLength + 1 else 1) =
        placeInCycle (daysOf calls ++ [now.date.number]) now.date.number by
    refine ⟨reward, hreward, ?_⟩
    simp only [claimReward, hnew.1, if_false, hnew.2, hreward, true_and]
    simp only [Recorded, List.getLast?_concat]
    rw [getLastClaim_setLastClaim, getStreak_setLastClaim hpos hle, daysOf_snoc]
    exact ⟨rfl, rfl⟩
  cases calls using List.reverseRecOn with
  | nil =>
    have hnever : daysSinceLastClaim s now = -1 := by
      simp only [Recorded, List.getLast?_nil] at hs
      simp only [daysSinceLastClaim, hs]
    rw [placeInCycle_snoc (by simp [daysOf]), hnever]
    simp [daysOf]
  | append_singleton calls c =>
    simp only [Recorded, List.getLast?_concat] at hs
    have hle : c.date.Le now.date := (List.pairwise_append.mp h).2.2 c (by simp) now (by simp)
    have hlast := Forward.le_last (List.pairwise_append.mp h).1
    have hc : c.date.number ∈ daysOf (calls ++ [c]) := by simp [daysOf]
    have hlt : ∀ m ∈ daysOf (calls ++ [c]), m < now.date.number := by
      intro m hm
      have hcn := Date.le_iff_number.mp hle
      have hne : c.date.number ≠ now.date.number := fun heq => hmem (heq ▸ hc)
      have := hlast m hm
      omega
    obtain ⟨hzero, hone⟩ := daysSinceLastClaim_spec hs.1 hle
    constructor
    · intro hsame
      rw [hzero.mp hsame] at hmem
      exact hmem hc
    · rw [placeInCycle_snoc hlt, hs.2]
      -- a day before this one is the last of the days, if it is one of them
      have hiff : (∃ m ∈ daysOf (calls ++ [c]), now.date.number = m + 1) ↔ now.date.number = c.date.number + 1 := by
        constructor
        · intro hex
          obtain ⟨m, hm, hnow⟩ := hex
          have := hlast m hm
          have := hlt _ hc
          omega
        · exact fun hnow => ⟨_, hc, hnow⟩
      by_cases hnext : now.date.number = c.date.number + 1
      · rw [if_pos (hone.mpr hnext), if_pos (hiff.mpr hnext), hnext, Nat.add_sub_cancel]
      · rw [if_neg (fun h1 => hnext (hone.mp h1)), if_neg (fun h1 => hnext (hiff.mp h1))]

theorem recorded_run (hs : getLastClaim s = none) (h : Forward calls) : Recorded calls (run step s calls) := by
  induction calls using List.reverseRecOn with
  | nil => exact hs
  | append_singleton calls c ih =>
    have hprev := ih (List.pairwise_append.mp h).1
    rw [run_append]
    by_cases hmem : c.date.number ∈ daysOf calls
    · have hsame := claimReward_again hprev h hmem
      simp only [run_cons, run_nil, step, hsame]
      cases calls using List.reverseRecOn with
      | nil => simp [daysOf] at hmem
      | append_singleton calls c' =>
        -- the date is that of the call before
        have hle : c'.date.Le c.date := (List.pairwise_append.mp h).2.2 c' (by simp) c (by simp)
        have hlast := Forward.le_last (List.pairwise_append.mp h).1 _ hmem
        have hdate : c.date = c'.date := by
          have := Date.le_iff_number.mp hle
          exact Date.number_inj.mp (by omega)
        simp only [Recorded, List.getLast?_concat] at hprev ⊢
        rw [hdate]
        refine ⟨hprev.1, hprev.2.trans ?_⟩
        have hdays : daysOf (calls ++ [c'] ++ [c]) = daysOf (calls ++ [c']) ++ [c'.date.number] := by
          rw [daysOf_snoc, hdate]
        unfold placeInCycle
        rw [hdays, runLength_congr]
        intro m _
        rw [daysOf_snoc]
        simp
    · obtain ⟨_, _, _, hnext⟩ := claimReward_first hprev h hmem
      exact hnext

end Steps

/-- For every sequence of calls on dates that never go backwards, a call pays exactly if it
is the first one on its date, and then the reward of the run of days with a claim that ends
on that date. -/
theorem daily_streak_law (s : Storage) (before : List Call) (now : Call)
    (hs : getLastClaim s = none) (h : Forward (before ++ [now])) :
    let r := runLength (daysOf (before ++ [now])) now.date.number
    let answer := (claimReward (run step s before) now).2
    ((∃ effects, answer = .ok effects) ↔ ∀ c ∈ before, c.date ≠ now.date) ∧
    ∀ effects, answer = .ok effects → ∃ reward, rewards ((r - 1) % 7 + 1 : ℕ) = some reward ∧
      effects = award now ((r - 1) % 7 + 1 : ℕ) reward := by
  have hrec := recorded_run hs (List.pairwise_append.mp h).1
  have hday : now.date.number ∈ daysOf before ↔ ¬∀ c ∈ before, c.date ≠ now.date := by
    simp only [daysOf, List.mem_map, Date.number_inj]
    push Not
    rfl
  dsimp only
  by_cases hmem : now.date.number ∈ daysOf before
  · rw [claimReward_again hrec h hmem]
    simp [hday.mp hmem]
  · obtain ⟨reward, hreward, hpaid, _⟩ := claimReward_first hrec h hmem
    rw [← daysOf_snoc] at hreward hpaid
    rw [hpaid]
    refine ⟨⟨fun _ => not_not.mp fun hnot => hmem (hday.mpr hnot), fun _ => ⟨_, rfl⟩⟩, ?_⟩
    intro effects heffects
    exact ⟨reward, hreward, (Except.ok.inj heffects).symm⟩

/-- New year's eve of a leap year, asked for twice. -/
def newYearsEve : List Call :=
  [{ date := ⟨2024, 366, by decide, by decide⟩, year_lt := by decide, time := 1735646400 },
    { date := ⟨2024, 366, by decide, by decide⟩, year_lt := by decide, time := 1735650000 }]

def newYearsDay : Call :=
  { date := ⟨2025, 1, by decide, by decide⟩, year_lt := by decide, time := 1735732800 }

theorem newYearsDay_number : newYearsDay.date.number = daysBefore 2024 + 365 + 2 := by
  have hyears : daysBefore 2025 = daysBefore 2024 + daysInYear 2024 := daysBefore_succ 2024
  have hleap : daysInYear 2024 = 366 := by decide
  simp only [newYearsDay, Date.number, hyears, hleap, Nat.add_assoc]

theorem daily_streak_law_new_year : getLastClaim (fun _ => none) = none ∧ Forward (newYearsEve ++ [newYearsDay]) ∧
    ∃ reward, rewards 2 = some reward ∧ (claimReward (run step (fun _ => none) newYearsEve) newYearsDay).2 =
        .ok (award newYearsDay 2 reward) := by
  have hforward : Forward (newYearsEve ++ [newYearsDay]) := by decide
  have hrun : runLength (daysOf (newYearsEve ++ [newYearsDay])) newYearsDay.date.number = 2 := by
    rw [daysOf_snoc, newYearsDay_number, runLength_succ (by simp), runLength_succ, runLength_of_not_mem]
    · simp [daysOf, newYearsEve, Date.number]
    · simp [daysOf, newYearsEve, Date.number]
  obtain ⟨hpays, hreward⟩ := daily_streak_law (fun _ => none) newYearsEve newYearsDay rfl hforward
  obtain ⟨effects, heffects⟩ := hpays.mpr (by decide)
  obtain ⟨reward, htable, rfl⟩ := hreward effects heffects
  rw [hrun] at htable heffects
  exact ⟨rfl, hforward, reward, htable, heffects⟩

end ForgottenServer.Daily
