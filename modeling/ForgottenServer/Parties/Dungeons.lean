import ForgottenServer.Parties.Life
import ForgottenServer.Tasks.Counting

/-! # Weekly dungeons

`WeeklyDungeons`, with the entrance that a party leader uses: the party enters as a
whole, and not again for seven days. Players come and go in the parties meanwhile. The
times are in seconds; what is only shown to the players is left out. -/
namespace ForgottenServer.Parties.Dungeons
open ForgottenServer.Lib.Run
open ForgottenServer.Tasks (Storage getStorageValue setStorageValue storageKey isReserved)

def storageCooldownBase : ℤ := 62000

/-- Seven days. -/
def cooldownSeconds : ℤ := 7 * 24 * 3600

def minPartySize : ℕ := 3

/-- `minLevel`, of the dungeons there are; none has a prerequisite. -/
def minLevel : ℤ → Option ℕ
  | 1 => some 50
  | 2 => some 100
  | 3 => some 150
  | 4 => some 80
  | 5 => some 200
  | _ => none

def cooldownKey (dungeonId : ℤ) : ℤ := storageCooldownBase + (dungeonId - 1)

def isReady (s : Storage) (dungeonId now : ℤ) : Bool :=
  let lastEntry := getStorageValue s (cooldownKey dungeonId)
  if lastEntry ≤ 0 then true else now - lastEntry ≥ cooldownSeconds

def getRemainingCooldown (s : Storage) (dungeonId now : ℤ) : ℤ :=
  let lastEntry := getStorageValue s (cooldownKey dungeonId)
  if lastEntry ≤ 0 then 0 else max 0 (lastEntry + cooldownSeconds - now)

def startCooldown (s : Storage) (dungeonId now : ℤ) : Storage := setStorageValue s (cooldownKey dungeonId) now

/-! ## The weekly reset -/

/-- The local time of a server, in seconds east of Greenwich at every moment. Its days begin at
midnight, and its clocks are never set back by more than a day. -/
structure TimeZone where
  offset : ℤ → ℤ
  /-- `os.time` at 0:00 of a day since 1970 -/
  midnight : ℤ → ℤ
  midnight_local : ∀ day, midnight day + offset (midnight day) = day * 86400
  back_le : ∀ t t', offset t - offset t' ≤ 86400

section Reset
variable (zone : TimeZone)

/-- `os.date("*t", timestamp)`: the days since 1970. -/
def TimeZone.dayOf (timestamp : ℤ) : ℤ := (timestamp + zone.offset timestamp) / 86400

def TimeZone.secondOf (timestamp : ℤ) : ℤ := (timestamp + zone.offset timestamp) % 86400

/-- `wday`: 1 on a Sunday. The first of January 1970 was a Thursday. -/
def TimeZone.wday (timestamp : ℤ) : ℤ := (zone.dayOf timestamp + 4) % 7 + 1

/-- On a Monday it is the next one. -/
def daysUntilMonday (wday : ℤ) : ℤ := if (9 - wday) % 7 = 0 then 7 else (9 - wday) % 7

/-- `getNextWeeklyReset`; `os.time` takes any day of the month. -/
def getNextWeeklyReset (timestamp : ℤ) : ℤ :=
  zone.midnight (zone.dayOf timestamp + daysUntilMonday (zone.wday timestamp))

/-- `validateCooldown`, without the description. -/
def validateCooldown (s : Storage) (dungeonId now : ℤ) : Bool × ℤ :=
  let lastEntry := getStorageValue s (cooldownKey dungeonId)
  if lastEntry ≤ 0 then (true, 0)
  else
    let sevenDayExpiry := lastEntry + cooldownSeconds
    let nextReset := getNextWeeklyReset zone lastEntry
    if now ≥ sevenDayExpiry ∧ now ≥ nextReset then (true, 0)
    else (false, max 0 (max sevenDayExpiry nextReset - now))

/-- The entry was on a Monday, less time after midnight than the clocks are set back until the
Monday after. -/
def TimeZone.SetBack (timestamp : ℤ) : Prop :=
  zone.wday timestamp = 2 ∧
    zone.secondOf timestamp < zone.offset timestamp - zone.offset (getNextWeeklyReset zone timestamp)

theorem lt_getNextWeeklyReset_iff (timestamp : ℤ) :
    timestamp + cooldownSeconds < getNextWeeklyReset zone timestamp ↔ zone.SetBack timestamp := by
  have hreset : getNextWeeklyReset zone timestamp + zone.offset (getNextWeeklyReset zone timestamp) =
      (zone.dayOf timestamp + daysUntilMonday (zone.wday timestamp)) * 86400 := zone.midnight_local _
  have hback := zone.back_le timestamp (getNextWeeklyReset zone timestamp)
  have hweek : cooldownSeconds = 7 * 86400 := rfl
  have hdays : daysUntilMonday (zone.wday timestamp) ≤ 7 ∧
      (daysUntilMonday (zone.wday timestamp) = 7 ↔ zone.wday timestamp = 2) := by
    rw [daysUntilMonday, TimeZone.wday]
    split <;> omega
  rw [TimeZone.SetBack, ← hdays.2, TimeZone.secondOf]
  generalize daysUntilMonday (zone.wday timestamp) = days at hreset hdays
  rw [TimeZone.dayOf] at hreset
  omega

/-- Seven days are over before the reset then only: at every other entry to ask for the reset as
well changes nothing. -/
theorem validateCooldown_eq_iff (s : Storage) (dungeonId : ℤ) : (∀ now, validateCooldown zone s dungeonId now =
      (isReady s dungeonId now, getRemainingCooldown s dungeonId now)) ↔
      getStorageValue s (cooldownKey dungeonId) ≤ 0 ∨ ¬ zone.SetBack (getStorageValue s (cooldownKey dungeonId)) := by
  simp only [validateCooldown, isReady, getRemainingCooldown]
  rw [← lt_getNextWeeklyReset_iff]
  generalize getStorageValue s (cooldownKey dungeonId) = lastEntry
  by_cases hentry : lastEntry ≤ 0
  · simp only [hentry, if_true, implies_true, true_or]
  simp only [hentry, if_false, false_or, not_lt]
  constructor
  · intro hall
    by_contra hlate
    have hweek := hall (lastEntry + cooldownSeconds)
    rw [if_neg (by omega), Prod.mk.injEq, decide_eq_true (by omega)] at hweek
    cases hweek.1
  · intro hle now
    split
    · rw [decide_eq_true (by omega), max_eq_left (by omega)]
    · rw [decide_eq_false (by omega), max_eq_left hle]

/-- Two hours east of Greenwich, and one from the end of October 2026 on. -/
def centralEurope : TimeZone where
  offset t := if t < 1792890000 then 7200 else 3600
  midnight day := if day * 86400 < 1792890000 + 7200 then day * 86400 - 7200 else day * 86400 - 3600
  midnight_local day := by
    split <;> split <;> omega
  back_le t t' := by
    split <;> split <;> omega

/-- An entry at the first moment of the Monday before counts for an hour longer. -/
example : validateCooldown centralEurope (fun _ => some 1792360800) 1 1792965600 = (false, 3600) ∧
    isReady (fun _ => some 1792360800) 1 1792965600 = true := by decide

end Reset

/-! ## The entrance -/

structure Entry where
  player : ℕ
  dungeonId : ℤ
  now : ℤ
  deriving DecidableEq, Repr

structure Realm where
  world : World := {}
  level : ℕ → ℕ := fun _ => 1
  storage : ℕ → Storage := fun _ _ => none
  /-- who was teleported into a dungeon, oldest first -/
  entries : List Entry := []

/-- `#party:getMembers() + 1`, or 1. -/
def Realm.memberCount (s : Realm) (player : ℕ) : ℕ :=
  match (s.world.party player).bind s.world.parties with
  | none => 1
  | some P => P.memberList.length + 1

def Realm.canEnter (s : Realm) (player : ℕ) (dungeonId now : ℤ) : Bool :=
  match minLevel dungeonId with
  | none => false
  | some minLevel =>
    minLevel ≤ s.level player && isReady (s.storage player) dungeonId now && minPartySize ≤ s.memberCount player

def Realm.enter (s : Realm) (dungeonId now : ℤ) (member : ℕ) : Realm :=
  { s with
    storage := Function.update s.storage member (startCooldown (s.storage member) dungeonId now)
    entries := s.entries ++ [{ player := member, dungeonId, now }] }

def Realm.enterDungeon (s : Realm) (leader : ℕ) (dungeonId now : ℤ) : Realm :=
  let members :=
    match (s.world.party leader).bind s.world.parties with
    | none => [leader]
    | some P => P.memberList ++ [leader]
  if members.all fun member => s.canEnter member dungeonId now then
    members.foldl (fun s member => s.enter dungeonId now member) s
  else s

/-- The action of the entrance. -/
def Realm.onUse (s : Realm) (player : ℕ) (dungeonId now : ℤ) : Realm :=
  if dungeonId < 1 || dungeonId > 5 then s
  else match (s.world.party player).bind s.world.parties with
    | none => s
    | some P =>
      if P.leader ≠ player then s
      else if (P.memberList ++ [player]).all fun member => s.canEnter member dungeonId now then
        s.enterDungeon player dungeonId now
      else s

inductive Step
  | party (event : Event)
  | level (player level : ℕ)
  | use (player : ℕ) (dungeonId now : ℤ)

def Realm.step (s : Realm) : Step → Realm
  | .party event => { s with world := s.world.step event }
  | .level player level => { s with level := Function.update s.level player level }
  | .use player dungeonId now => s.onUse player dungeonId now

/-- New parties are made at free addresses, and a time is a storage value. -/
def Realm.Legal (s : Realm) : Step → Prop
  | .party event => s.world.Fresh event
  | .level _ _ => True
  | .use _ _ now => 0 < now ∧ now < 2 ^ 31

theorem minLevel_bounds {dungeonId : ℤ} {level : ℕ} (h : minLevel dungeonId = some level) :
    1 ≤ dungeonId ∧ dungeonId ≤ 5 := by
  unfold minLevel at h
  split at h
  all_goals first | omega | cases h

theorem cooldownKey_inj {a b : ℤ} (ha : 1 ≤ a ∧ a ≤ 5) (hb : 1 ≤ b ∧ b ≤ 5)
    (h : storageKey (cooldownKey a) = storageKey (cooldownKey b)) : a = b := by
  simp only [storageKey, cooldownKey, storageCooldownBase] at h
  omega

theorem getStorageValue_startCooldown (s : Storage) {dungeonId now : ℤ} (hd : 1 ≤ dungeonId ∧ dungeonId ≤ 5)
    (hnow : 0 < now ∧ now < 2 ^ 31) :
    getStorageValue (startCooldown s dungeonId now) (cooldownKey dungeonId) = now := by
  have hreserved : isReserved (storageKey (cooldownKey dungeonId)) = false := by
    have hkey : storageKey (cooldownKey dungeonId) < 10000000 := by
      simp only [storageKey, cooldownKey, storageCooldownBase]
      omega
    rw [isReserved, Bool.and_eq_false_iff]
    exact .inl (decide_eq_false (by omega))
  rw [startCooldown, Tasks.getStorageValue_set hreserved]
  exact Int.bmod_eq_of_le_mul_two (by omega) (by omega)

theorem getStorageValue_startCooldown_of_ne (s : Storage) {a b now : ℤ} (ha : 1 ≤ a ∧ a ≤ 5) (hb : 1 ≤ b ∧ b ≤ 5)
    (hne : b ≠ a) : getStorageValue (startCooldown s a now) (cooldownKey b) = getStorageValue s (cooldownKey b) :=
  Tasks.getStorageValue_set_of_ne fun heq => hne (cooldownKey_inj hb ha heq)

/-- Two entries of one player into one dungeon are a week apart. -/
def Apart (e e' : Entry) : Prop :=
  e.player = e'.player → e.dungeonId = e'.dungeonId → e.now + cooldownSeconds ≤ e'.now

/-- All of a party entered, and they were three at least. -/
def Whole (entries : List Entry) (e : Entry) : Prop :=
  ∃ group : List ℕ, group.Nodup ∧ minPartySize ≤ group.length ∧ e.player ∈ group ∧
    ∀ member ∈ group, { e with player := member } ∈ entries

structure Weekly (s : Realm) : Prop where
  inv : Inv s.world
  /-- what is stored is the last entry -/
  stored : ∀ e ∈ s.entries, (1 ≤ e.dungeonId ∧ e.dungeonId ≤ 5) ∧ 0 < e.now ∧
    e.now ≤ getStorageValue (s.storage e.player) (cooldownKey e.dungeonId)
  apart : s.entries.Pairwise Apart

theorem Weekly.of_canEnter {s : Realm} (h : Weekly s) {member : ℕ} {dungeonId now : ℤ}
    (hready : isReady (s.storage member) dungeonId now = true) :
    ∀ e ∈ s.entries, Apart e { player := member, dungeonId, now } := by
  rintro e he (rfl : e.player = member) (rfl : e.dungeonId = dungeonId)
  obtain ⟨-, hpos, hstored⟩ := h.stored e he
  rw [isReady, if_neg (by omega)] at hready
  have hweek := of_decide_eq_true hready
  change e.now + cooldownSeconds ≤ now
  omega

theorem Weekly.enter {s : Realm} (h : Weekly s) {member : ℕ} {dungeonId now : ℤ}
    (hd : 1 ≤ dungeonId ∧ dungeonId ≤ 5) (hnow : 0 < now ∧ now < 2 ^ 31)
    (hready : isReady (s.storage member) dungeonId now = true) : Weekly (s.enter dungeonId now member) where
  inv := h.inv
  stored := by
    intro e he
    rcases List.mem_append.mp he with he | he
    · obtain ⟨hbounds, hpos, hstored⟩ := h.stored e he
      refine ⟨hbounds, hpos, ?_⟩
      change _ ≤ getStorageValue (Function.update s.storage member _ e.player) _
      by_cases hplayer : e.player = member
      · rw [hplayer, Function.update_self]
        by_cases hdungeon : e.dungeonId = dungeonId
        · have hweek := h.of_canEnter hready e he hplayer hdungeon
          rw [hdungeon, getStorageValue_startCooldown _ hd hnow]
          have hcooldown : cooldownSeconds = 604800 := rfl
          have hlater : e.now + cooldownSeconds ≤ now := hweek
          omega
        · rw [getStorageValue_startCooldown_of_ne _ hd hbounds hdungeon]
          exact hplayer ▸ hstored
      · rw [Function.update_of_ne hplayer]
        exact hstored
    · rw [List.mem_singleton.mp he]
      refine ⟨hd, hnow.1, ?_⟩
      change now ≤ getStorageValue (Function.update s.storage member _ member) _
      rw [Function.update_self, getStorageValue_startCooldown _ hd hnow]
  apart := by
    rw [Realm.enter, List.pairwise_append]
    refine ⟨h.apart, List.pairwise_singleton _ _, fun e he e' he' => ?_⟩
    rw [List.mem_singleton.mp he']
    exact h.of_canEnter hready e he

theorem Weekly.enterAll {s : Realm} (h : Weekly s) {dungeonId now : ℤ} (hd : 1 ≤ dungeonId ∧ dungeonId ≤ 5)
    (hnow : 0 < now ∧ now < 2 ^ 31) {members : List ℕ} (hnodup : members.Nodup)
    (hready : ∀ member ∈ members, isReady (s.storage member) dungeonId now = true) :
    Weekly (members.foldl (fun s member => s.enter dungeonId now member) s) := by
  induction members generalizing s with
  | nil => exact h
  | cons member members ih =>
    rw [List.nodup_cons] at hnodup
    refine ih (h.enter hd hnow (hready member (List.mem_cons_self ..))) hnodup.2 fun other hother => ?_
    have hne : other ≠ member := fun heq => hnodup.1 (heq ▸ hother)
    change isReady (Function.update s.storage member _ other) dungeonId now = true
    rw [Function.update_of_ne hne]
    exact hready other (List.mem_cons_of_mem _ hother)

theorem entries_enterAll (s : Realm) (dungeonId now : ℤ) (members : List ℕ) :
    (members.foldl (fun s member => s.enter dungeonId now member) s).entries =
      s.entries ++ members.map fun member => { player := member, dungeonId, now } := by
  induction members generalizing s with
  | nil => exact (List.append_nil _).symm
  | cons member members ih =>
    rw [List.foldl_cons, ih, Realm.enter, List.map_cons, List.append_assoc]
    rfl

theorem onUse_cases (s : Realm) (player : ℕ) (dungeonId now : ℤ) :
    s.onUse player dungeonId now = s ∨ ∃ p P, s.world.party player = some p ∧ s.world.parties p = some P ∧
      P.leader = player ∧ (∀ member ∈ P.memberList ++ [player], s.canEnter member dungeonId now = true) ∧
      s.onUse player dungeonId now =
        (P.memberList ++ [player]).foldl (fun s member => s.enter dungeonId now member) s := by
  rw [Realm.onUse]
  split
  · exact .inl rfl
  cases hparty : (s.world.party player).bind s.world.parties with
  | none => exact .inl rfl
  | some P =>
    obtain ⟨p, hp, hP⟩ := Option.bind_eq_some_iff.mp hparty
    simp only
    split
    · exact .inl rfl
    · rename_i hleader
      split
      · rename_i hall
        refine .inr ⟨p, P, hp, hP, not_not.mp hleader, List.all_eq_true.mp hall, ?_⟩
        rw [Realm.enterDungeon, hparty]
        exact if_pos hall
      · exact .inl rfl

theorem canEnter_spec {s : Realm} {player : ℕ} {dungeonId now : ℤ} (h : s.canEnter player dungeonId now = true) :
    (1 ≤ dungeonId ∧ dungeonId ≤ 5) ∧ isReady (s.storage player) dungeonId now = true ∧
      minPartySize ≤ s.memberCount player := by
  rw [Realm.canEnter] at h
  split at h
  · cases h
  · rename_i level hlevel
    rw [Bool.and_eq_true, Bool.and_eq_true] at h
    exact ⟨minLevel_bounds hlevel, h.1.2, of_decide_eq_true h.2⟩

theorem Whole.mono {entries more : List Entry} {e : Entry} (h : Whole entries e) : Whole (entries ++ more) e := by
  obtain ⟨group, hnodup, hsize, hin, hall⟩ := h
  exact ⟨group, hnodup, hsize, hin, fun member hmember => List.mem_append_left _ (hall member hmember)⟩

theorem Weekly.onUse {s : Realm} (h : Weekly s) (hwhole : ∀ e ∈ s.entries, Whole s.entries e) {player : ℕ}
    {dungeonId now : ℤ} (hnow : 0 < now ∧ now < 2 ^ 31) :
    Weekly (s.onUse player dungeonId now) ∧
      ∀ e ∈ (s.onUse player dungeonId now).entries, Whole (s.onUse player dungeonId now).entries e := by
  rcases onUse_cases s player dungeonId now with hsame | ⟨p, P, hp, hP, hleader, hall, hafter⟩
  · rw [hsame]
    exact ⟨h, hwhole⟩
  have hnodup : (P.memberList ++ [player]).Nodup := by
    refine List.nodup_append.mpr ⟨h.inv.members p P hP, List.nodup_singleton _, ?_⟩
    rintro member hmember _ hplayer rfl
    rw [List.mem_singleton.mp hplayer, ← hleader] at hmember
    exact h.inv.leader p P hP hmember
  have hsize : minPartySize ≤ (P.memberList ++ [player]).length := by
    have hcount := (canEnter_spec (hall player (by simp))).2.2
    rw [Realm.memberCount, hp, Option.bind_some, hP] at hcount
    rw [List.length_append, List.length_singleton]
    exact hcount
  have hd := (canEnter_spec (hall player (by simp))).1
  rw [hafter]
  refine ⟨h.enterAll hd hnow hnodup fun member hmember => (canEnter_spec (hall member hmember)).2.1, ?_⟩
  rw [entries_enterAll]
  intro e he
  rcases List.mem_append.mp he with he | he
  · exact (hwhole e he).mono
  · obtain ⟨member, hmember, rfl⟩ := List.mem_map.mp he
    refine ⟨P.memberList ++ [player], hnodup, hsize, hmember, fun other hother => ?_⟩
    exact List.mem_append_right _ (List.mem_map.mpr ⟨other, hother, rfl⟩)

/-- Whatever the parties do meanwhile: a player enters a dungeon once in seven days, and
with the whole of a party of three or more. -/
theorem dungeons_once_a_week {steps : List Step} (hlegal : Along Realm.step Realm.Legal {} steps) :
    (run Realm.step {} steps).entries.Pairwise Apart ∧
      ∀ e ∈ (run Realm.step {} steps).entries, Whole (run Realm.step {} steps).entries e := by
  have hrun := @inv_run _ _ Realm.step Realm.Legal
    (fun s => Weekly s ∧ ∀ e ∈ s.entries, Whole s.entries e) ?_ {} steps ⟨⟨inv_init, nofun, List.Pairwise.nil⟩, nofun⟩
    hlegal
  · exact ⟨hrun.1.apart, hrun.2⟩
  · intro s step h hok
    cases step with
    | party event => exact ⟨⟨inv_step s.world event h.1.inv hok, h.1.stored, h.1.apart⟩, h.2⟩
    | level player level => exact ⟨⟨h.1.inv, h.1.stored, h.1.apart⟩, h.2⟩
    | use player dungeonId now => exact h.1.onUse h.2 hok

/-- Three players form a party and enter the crypts. -/
def crypts : List Step :=
  [.level 1 50, .level 2 60, .level 3 70, .party (.invite 1 2 100), .party (.join 2 1), .party (.invite 1 3 200),
    .party (.join 3 1), .use 1 1 1000000, .use 1 1 1600000]

theorem crypts_once_a_week : (run Realm.step {} crypts).entries = [⟨2, 1, 1000000⟩, ⟨3, 1, 1000000⟩, ⟨1, 1, 1000000⟩] ∧
      (run Realm.step {} crypts).entries.Pairwise Apart := by
  have hfirst : (0 : ℤ) < 1000000 ∧ (1000000 : ℤ) < 2 ^ 31 := by decide
  have hsecond : (0 : ℤ) < 1600000 ∧ (1600000 : ℤ) < 2 ^ 31 := by decide
  have hlegal : Along Realm.step Realm.Legal {} crypts :=
    ⟨trivial, trivial, trivial, rfl, trivial, rfl, trivial, hfirst, hsecond, trivial⟩
  exact ⟨by decide +kernel, (dungeons_once_a_week hlegal).1⟩

end ForgottenServer.Parties.Dungeons
