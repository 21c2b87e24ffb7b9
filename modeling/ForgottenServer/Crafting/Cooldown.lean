import ForgottenServer.Lib.Binary64

/-! # Cooldowns

`Crafting.setCooldown` keeps the time in milliseconds in a player's storage, and
`Crafting.checkCooldown` compares it with the clock. Storage values have 32 bits,
which is too few for such a time: whatever the conversion makes of it lies so far
back that no cooldown is running. -/
namespace ForgottenServer.Crafting.Cooldown
open ForgottenServer.Lib ForgottenServer.Lib.Binary64 ForgottenServer.Lib.Rounding

/-- `getNumber<int32_t>`. The language leaves open what becomes of a number out of range. -/
structure Narrowing where
  getNumber : Double → Int32
  inRange : ∀ q, -2 ^ 31 ≤ Double.trunc q → Double.trunc q < 2 ^ 31 → (getNumber (.fin q)).toInt = Double.trunc q

/-- The storage of a player. -/
abbrev StorageMap := UInt32 → Option Int32

def PSTRG_RESERVED_RANGE_START : ℕ := 10000000
def PSTRG_RESERVED_RANGE_SIZE : ℕ := 10000000

def isReserved (key : UInt32) : Bool :=
  PSTRG_RESERVED_RANGE_START ≤ key.toNat && key.toNat - PSTRG_RESERVED_RANGE_START ≤ PSTRG_RESERVED_RANGE_SIZE

/-- `Player::addStorageValue` of a key that is not reserved. -/
def addStorageValue (storageMap : StorageMap) (key : UInt32) (value : Int32) : StorageMap :=
  Function.update storageMap key (if value = -1 then none else some value)

/-- `player:getStorageValue`. -/
def getStorageValue (storageMap : StorageMap) (key : UInt32) : Int32 := (storageMap key).getD (-1)

/-- `player:setStorageValue`. -/
def setStorageValue (narrowing : Narrowing) (storageMap : StorageMap) (key : UInt32) (value : Double) : StorageMap :=
  if isReserved key then storageMap else addStorageValue storageMap key (narrowing.getNumber value)

/-- `os.mtime`, milliseconds since 1970. -/
def mtime (now : ℕ) : Double := .ofNat now

/-- `Crafting.checkCooldown`, with the message of a refusal. -/
def checkCooldown (storageMap : StorageMap) (storageKey : UInt32) (cooldownMs : Double) (now : ℕ) :
    Bool × Option String :=
  let lastTime := getStorageValue storageMap storageKey
  if 0 < lastTime then
    let elapsed := (mtime now).sub (.fin lastTime.toInt)
    if elapsed.lt cooldownMs then
      let remaining := ((cooldownMs.sub elapsed).div (.fin 1000)).ceil
      (false, some ("You must wait " ++ remaining.text ++ " seconds before doing that again."))
    else (true, none)
  else (true, none)

/-- `Crafting.setCooldown`. -/
def setCooldown (narrowing : Narrowing) (storageMap : StorageMap) (storageKey : UInt32) (now : ℕ) :
    StorageMap := setStorageValue narrowing storageMap storageKey (mtime now)

/-- The first moment of the year 2000. -/
def year2000 : ℕ := 946684800000

/-- A 32-bit time is more than `2 ^ 31` milliseconds before the year 2000. -/
theorem elapsed_not_lt (lastTime : Int32) {d : ℚ} (hd : d < 2 ^ 31) {now : ℕ} (hnow : year2000 ≤ now) :
    ((mtime now).sub (.fin lastTime.toInt)).lt (.fin d) = false := by
  have hlast : ((lastTime.toInt : ℤ) : ℚ) < 2 ^ 31 := by exact_mod_cast Int32.toInt_lt lastTime
  have hnow' : ((year2000 : ℕ) : ℚ) ≤ now := by exact_mod_cast hnow
  unfold mtime Double.ofNat
  rcases Double.rnd_cases (Nat.cast_nonneg now) with hinf | ⟨r, hr⟩
  · rw [hinf]
    rfl
  · have hle : ((year2000 : ℕ) : ℚ) ≤ r := by
      rw [Double.rnd_eq hr]
      exact le_nearest (by norm_num) (by norm_num [year2000]) hnow'
    have hfar : ((2 ^ 31 : ℕ) : ℚ) ≤ r + -lastTime.toInt := by
      norm_num [year2000] at hle ⊢
      linarith
    rw [hr, Double.sub, Double.neg, Double.add]
    rcases Double.rnd_cases ((Nat.cast_nonneg _).trans hfar) with hinf | ⟨e, he⟩
    · rw [hinf]
      rfl
    · rw [he, Double.lt, decide_eq_false_iff_not, not_lt, Double.rnd_eq he]
      refine le_trans ?_ (le_nearest (by norm_num) (by norm_num) hfar)
      push_cast
      exact hd.le

theorem checkCooldown_eq (storageMap : StorageMap) (storageKey : UInt32) {d : ℚ} (hd : d < 2 ^ 31) {now : ℕ}
    (hnow : year2000 ≤ now) : checkCooldown storageMap storageKey (.fin d) now = (true, none) := by
  unfold checkCooldown
  dsimp only
  split
  · rw [if_neg]
    rw [elapsed_not_lt _ hd hnow]
    exact Bool.false_ne_true
  · rfl

/-- A cooldown that was set is checked rightly exactly when it has run out. -/
theorem cooldown_kept_iff (narrowing : Narrowing) (storageMap : StorageMap) (storageKey : UInt32) (d : ℚ)
    (hd : d < 2 ^ 31) (t₁ t₂ : ℕ) (h₁ : year2000 ≤ t₁) (h₁₂ : t₁ ≤ t₂) :
    ((checkCooldown (setCooldown narrowing storageMap storageKey t₁) storageKey (.fin d) t₂).1 = true ↔
      d ≤ (t₂ : ℚ) - t₁) ↔ d ≤ (t₂ : ℚ) - t₁ := by
  rw [checkCooldown_eq _ _ hd (h₁.trans h₁₂)]
  simp only [true_iff]

/-- Out of range the instruction answers `-2 ^ 31`. -/
def machine : Narrowing where
  getNumber x := .ofInt x.toInt32
  inRange q hlow hhigh := by
    rw [Double.toInt32, if_pos ⟨hlow, hhigh⟩]
    exact Int32.toInt_ofInt_of_le hlow hhigh

/-- Three seconds after a second, in 2026. -/
theorem second_passed :
    ((checkCooldown (setCooldown machine (fun _ => none) 45400 1775000000000) 45400 (.fin 3000) 1775000001000).1 =
      true ↔ (3000 : ℚ) ≤ (1775000001000 : ℕ) - (1775000000000 : ℕ)) ↔
      (3000 : ℚ) ≤ (1775000001000 : ℕ) - (1775000000000 : ℕ) :=
  cooldown_kept_iff machine (fun _ => none) 45400 3000 (by norm_num) _ _ (by norm_num [year2000]) (by norm_num)

/-- A second later the cooldown of three seconds is not noticed. -/
theorem cooldown_ignored : ¬ ((checkCooldown (setCooldown machine (fun _ => none) 45400 1775000000000) 45400
    (.fin 3000) 1775000001000).1 = true ↔ (3000 : ℚ) ≤ (1775000001000 : ℕ) - (1775000000000 : ℕ)) := by
  rw [checkCooldown_eq _ _ (by norm_num) (by norm_num [year2000])]
  norm_num

end ForgottenServer.Crafting.Cooldown
