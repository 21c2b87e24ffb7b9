import ForgottenServer.Npc.Banker

/-! # Whether the withdraw check returns

The loops of `Player.canCarryMoney` take a hundred coins at a time from a number
that was typed. Above `2 ^ 60` a double does not change when a hundred is taken from
it; below, it becomes less with every turn. -/
namespace ForgottenServer.Npc.Banker
open ForgottenServer.Lib.Binary64 ForgottenServer.Lib.Rounding ForgottenServer.Things

variable {P : Type*}

/-- `takeCoins` with so many turns for the loop. -/
def takeCoinsWithin (fuel : ℕ) (sc : Scene P) (k : Coin) (worth amount : Double) (load : Double × Double) :
    Option (Double × Double × Double) :=
  let coins := (amount.div worth).floor
  if (Double.fin 0).lt coins then
    (stackLoop sc k fuel coins load).map (amount.sub (coins.mul worth), ·)
  else some (amount, load)

/-- `Player.canCarryMoney` with so many turns for each of its loops. -/
def canCarryMoneyWithin (fuel : ℕ) (sc : Scene P) (amount : Double) : Option Bool := do
  if amount = .fin 0 then return true
  let (amount, load) ← takeCoinsWithin fuel sc .crystal (.fin 10000) amount (.fin 0, .fin 0)
  let (amount, load) ← takeCoinsWithin fuel sc .platinum (.fin 100) amount load
  let (totalWeight, inventorySlots) ← stackLoop sc .gold fuel amount load
  if sc.getFreeCapacity.lt totalWeight then return false
  match sc.emptySlots with
  | none => return false
  | some slots => return !slots.lt inventorySlots

/-- All three loops end. -/
def Returns (sc : Scene P) (amount : Double) : Prop :=
  ∃ fuel result, canCarryMoneyWithin fuel sc amount = some result

/-! ## One turn of a loop -/

theorem stackLoop_zero (sc : Scene P) (k : Coin) (fuel : ℕ) {q : ℚ} (hq : q ≤ 0) (load : Double × Double) :
    stackLoop sc k (fuel + 1) (.fin q) load = some load := by
  simp [stackLoop, Double.lt, not_lt.mpr hq]

theorem stackLoop_turn (sc : Scene P) (k : Coin) (fuel : ℕ) {coins : Double}
    (hpos : (Double.fin 0).lt coins = true) (load : Double × Double) :
    ∃ load', stackLoop sc k (fuel + 1) coins load =
      stackLoop sc k fuel (coins.sub (Double.min (.fin 100) coins)) load' := by
  let count := Double.min (.fin 100) coins
  refine ⟨(load.1.add (getWeight sc k count), load.2.add (.fin 1)), ?_⟩
  rw [stackLoop, if_pos hpos]

theorem sub_self (q : ℚ) : (Double.fin q).sub (.fin q) = .fin 0 := by
  have hzero : Double.rnd ((0 : ℕ) : ℚ) = .fin ((0 : ℕ) : ℚ) := Double.rnd_natCast (by norm_num)
  simpa [Double.sub, Double.neg, Double.add] using hzero

theorem sub_hundred {q : ℚ} (h100 : 100 < q) (hq : q < 2 ^ 60 + 100) :
    ∃ r, (Double.fin q).sub (.fin 100) = .fin r ∧ r ≤ q - 36 := by
  have habs : |q + -100| < 2 ^ (59 + 1) := by
    rw [abs_of_pos (by linarith)]
    norm_num at hq ⊢
    linarith
  obtain ⟨r, hr, hclose⟩ := Double.rnd_close (k := 59) (by norm_num) habs
  refine ⟨r, by simpa [Double.sub, Double.neg, Double.add] using hr, ?_⟩
  have := (abs_le.mp hclose).2
  norm_num at this
  linarith

theorem stackLoop_ends (sc : Scene P) (k : Coin) : ∀ (n fuel : ℕ) (q : ℚ) (load : Double × Double),
    q ≤ n → q < 2 ^ 60 + 100 → n + 2 ≤ fuel → ∃ r, stackLoop sc k fuel (.fin q) load = some r := by
  intro n
  induction n with
  | zero =>
    intro fuel q load hn _ hfuel
    obtain ⟨fuel, rfl⟩ := Nat.exists_eq_add_of_le' hfuel
    exact ⟨load, stackLoop_zero sc k (fuel + 1) (by exact_mod_cast hn) load⟩
  | succ n ih =>
    intro fuel q load hn hq hfuel
    obtain ⟨fuel, rfl⟩ := Nat.exists_eq_add_of_le' hfuel
    rcases le_or_gt q 0 with hzero | hpos
    · exact ⟨load, stackLoop_zero sc k _ hzero load⟩
    have hsome : (Double.fin 0).lt (.fin q) = true := decide_eq_true hpos
    obtain ⟨load', hturn⟩ := stackLoop_turn sc k (fuel + n + 2) hsome load
    rw [show fuel + (n + 1 + 2) = fuel + n + 2 + 1 by omega, hturn, min_hundred]
    rcases le_or_gt q 100 with hsmall | hlarge
    · rw [min_eq_right hsmall, sub_self]
      exact ⟨load', stackLoop_zero sc k (fuel + n + 1) le_rfl load'⟩
    · obtain ⟨r, hr, hless⟩ := sub_hundred hlarge hq
      rw [min_eq_left hlarge.le, hr]
      push_cast at hn
      exact ih _ _ _ (by linarith) (by linarith) (by omega)

theorem stackLoop_stuck (sc : Scene P) (k : Coin) {coins : Double} (hpos : (Double.fin 0).lt coins = true)
    (hsub : coins.sub (Double.min (.fin 100) coins) = coins) (fuel : ℕ) (load : Double × Double) :
    stackLoop sc k fuel coins load = none := by
  induction fuel generalizing load with
  | zero => rfl
  | succ fuel ih =>
    obtain ⟨load', hturn⟩ := stackLoop_turn sc k fuel hpos load
    rw [hturn, hsub]
    exact ih load'

/-! ## Amounts that are paid out -/

theorem div_fin {p q : ℚ} (hq : q ≠ 0) : (Double.fin p).div (.fin q) = Double.rnd (p / q) := by
  simp [Double.div, hq]

/-- Where the quotient is close enough, the coins are counted, and what is left of the
amount is small. -/
theorem takeCoins_ends (sc : Scene P) (k : Coin) {a w c : ℚ} (hw : 1 ≤ w) (hlow : -2 ^ 22 < a)
    (hhigh : a ≤ 10000 * 2 ^ 60) (hc : Double.rnd (a / w) = .fin c) (hlt : c < 2 ^ 60 + 100)
    (hclose : |c - a / w| * w + w ≤ 650000) (load : Double × Double) {fuel : ℕ} (hfuel : 2 ^ 60 + 102 ≤ fuel) :
    ∃ b load', |b| < 2 ^ 22 ∧ takeCoinsWithin fuel sc k (.fin w) (.fin a) load = some (.fin b, load') := by
  have hw0 : (0 : ℚ) < w := by linarith
  have hcw : |c * w - a| ≤ |c - a / w| * w := by
    rw [← abs_of_pos hw0, ← abs_mul, abs_of_pos hw0, sub_mul, div_mul_cancel₀ _ hw0.ne']
  obtain ⟨hcw1, hcw2⟩ := abs_le.mp hcw
  have hfloor : (⌊c⌋ : ℚ) ≤ c := Int.floor_le c
  have hfloor' : c < ⌊c⌋ + 1 := Int.lt_floor_add_one c
  unfold takeCoinsWithin
  dsimp only
  rw [div_fin hw0.ne', hc, Double.floor]
  by_cases hpos : (0 : ℚ) < ⌊c⌋
  · obtain ⟨load', hload⟩ := stackLoop_ends sc k (2 ^ 60 + 100) fuel ⌊c⌋ load
      (by push_cast; linarith) (by linarith) (by omega)
    have hle : (⌊c⌋ : ℚ) * w ≤ c * w := by gcongr
    have hge : c * w ≤ ⌊c⌋ * w + w := by nlinarith
    obtain ⟨m, hm, hmclose⟩ := Double.rnd_close (q := ⌊c⌋ * w) (k := 73) (by norm_num) (by
      rw [abs_of_pos (by positivity)]
      norm_num at hhigh ⊢
      linarith)
    obtain ⟨hm1, hm2⟩ := abs_le.mp hmclose
    norm_num at hm1 hm2
    have hrest : |a + -m| < 2 ^ (20 + 1) := by
      rw [abs_lt]
      norm_num
      constructor <;> linarith
    obtain ⟨b, hb, hbclose⟩ := Double.rnd_close (q := a + -m) (k := 20) (by norm_num) hrest
    obtain ⟨hb1, hb2⟩ := abs_le.mp hbclose
    rw [abs_lt] at hrest
    norm_num at hb1 hb2 hrest
    refine ⟨b, load', by rw [abs_lt]; norm_num; constructor <;> linarith, ?_⟩
    rw [if_pos (by simpa [Double.lt] using hpos), hload]
    simp only [Option.map_some, Double.mul, hm, Double.sub, Double.neg, Double.add, hb]
  · refine ⟨a, load, ?_, by rw [if_neg (by simpa [Double.lt] using hpos)]⟩
    have hc1 : c * w ≤ 1 * w := by
      have : c ≤ 1 := by linarith
      gcongr
    rw [abs_lt]
    norm_num at hlow ⊢
    constructor <;> linarith

/-- An amount up to `10000 * 2 ^ 60` is so many crystal coins that they can be counted. -/
theorem crystal_ends (sc : Scene P) {a : ℚ} (h0 : -1 ≤ a) (ha : a ≤ 10000 * 2 ^ 60)
    (load : Double × Double) {fuel : ℕ} (hfuel : 2 ^ 60 + 102 ≤ fuel) :
    ∃ b load', |b| < 2 ^ 22 ∧ takeCoinsWithin fuel sc .crystal (.fin 10000) (.fin a) load = some (.fin b, load') := by
  obtain ⟨c, hc, hclose, hlt⟩ : ∃ c, Double.rnd (a / 10000) = .fin c ∧ |c - a / 10000| ≤ 64 ∧ c < 2 ^ 60 + 100 := by
    have hquot : a / 10000 ≤ 2 ^ 60 := (div_le_iff₀ (by norm_num)).mpr (by linarith)
    rcases hquot.lt_or_eq with hless | heq
    · obtain ⟨c, hc, hclose⟩ := Double.rnd_close (q := a / 10000) (k := 59) (by norm_num) (by
        rw [abs_lt]
        norm_num at hless ⊢
        constructor <;> linarith)
      norm_num at hclose
      have := (abs_le.mp hclose).2
      exact ⟨c, hc, hclose, by linarith⟩
    · have hexact : Double.rnd (2 ^ 60) = .fin (2 ^ 60) := by decide +kernel
      rw [heq]
      exact ⟨2 ^ 60, hexact, by norm_num, by norm_num⟩
  exact takeCoins_ends sc .crystal (by norm_num) (by linarith) ha hc hlt (by linarith) load hfuel

theorem platinum_ends (sc : Scene P) {b : ℚ} (hb : |b| < 2 ^ 22) (load : Double × Double) {fuel : ℕ}
    (hfuel : 2 ^ 60 + 102 ≤ fuel) :
    ∃ g load', |g| < 2 ^ 22 ∧ takeCoinsWithin fuel sc .platinum (.fin 100) (.fin b) load = some (.fin g, load') := by
  obtain ⟨hb1, hb2⟩ := abs_lt.mp hb
  obtain ⟨c, hc, hclose⟩ := Double.rnd_close (q := b / 100) (k := 53) (by norm_num) (by
    rw [abs_lt]
    norm_num at hb1 hb2 ⊢
    constructor <;> linarith)
  norm_num at hclose
  have := (abs_le.mp hclose).2
  exact takeCoins_ends sc .platinum (by norm_num) hb1 (by norm_num at hb2 ⊢; linarith) hc
    (by norm_num at hb2 ⊢; linarith) (by linarith) load hfuel

theorem returns_of_le (sc : Scene P) {a : ℚ} (h0 : -1 ≤ a) (ha : a ≤ 10000 * 2 ^ 60) : Returns sc (.fin a) := by
  obtain ⟨b, load, hb, hcrystal⟩ := crystal_ends sc h0 ha (.fin 0, .fin 0) (le_refl (2 ^ 60 + 102))
  obtain ⟨g, load', hg, hplatinum⟩ := platinum_ends sc hb load (le_refl (2 ^ 60 + 102))
  have hgold := (abs_lt.mp hg).2
  obtain ⟨⟨totalWeight, inventorySlots⟩, hloop⟩ := stackLoop_ends sc .gold (2 ^ 22)
    (2 ^ 60 + 102) g load' (by push_cast; exact hgold.le) (by norm_num at hgold ⊢; linarith)
    (by norm_num)
  unfold Returns canCarryMoneyWithin
  refine ⟨2 ^ 60 + 102, ?_⟩
  split
  · exact ⟨true, rfl⟩
  · simp only [hcrystal, hplatinum, hloop, Option.bind_eq_bind, Option.bind_some, Option.pure_def]
    split
    · exact ⟨false, rfl⟩
    · cases sc.emptySlots with
      | none => exact ⟨false, rfl⟩
      | some slots => exact ⟨_, rfl⟩

/-! ## Amounts that are not -/

theorem not_returns_of_stuck {sc : Scene P} {amount : Double} (h0 : amount ≠ .fin 0)
    (hpos : (Double.fin 0).lt (amount.div (.fin 10000)).floor = true)
    (hstuck : (amount.div (.fin 10000)).floor.sub
      (Double.min (.fin 100) (amount.div (.fin 10000)).floor) = (amount.div (.fin 10000)).floor) :
    ¬ Returns sc amount := by
  intro ⟨fuel, result, h⟩
  have hcrystal : takeCoinsWithin fuel sc .crystal (.fin 10000) amount (.fin 0, .fin 0) = none := by
    rw [takeCoinsWithin, if_pos hpos, stackLoop_stuck sc .crystal hpos hstuck]
    rfl
  rw [canCarryMoneyWithin, if_neg h0] at h
  simp only [hcrystal, Option.bind_eq_bind, Option.bind_none] at h
  cases h

theorem not_returns_inf (sc : Scene P) : ¬ Returns sc (.inf false) :=
  not_returns_of_stuck (by simp) rfl rfl

/-- A number is above `10000 * 2 ^ 60` by a whole unit. -/
theorem gap_above {n : ℕ} {a : ℚ} (h : Double.ofNat n = .fin a) (ha : 10000 * 2 ^ 60 < a) :
    10000 * 2 ^ 60 + 2 ^ 21 ≤ a := by
  have hr := Double.rnd_eq h
  have hn : (1 : ℚ) ≤ |(n : ℚ)| := by
    rw [Nat.abs_cast]
    rcases Nat.eq_zero_or_pos n with rfl | hpos
    · have hzero := Double.ofNat_eq (n := 0) (by norm_num)
      rw [h, Double.fin.injEq] at hzero
      norm_num [hzero] at ha
    · exact_mod_cast hpos
  obtain ⟨z, hz⟩ := exists_nearest_eq_mul (k := 73) hn (show (-1074 : ℤ) ≤ -(52 : ℕ) by norm_num)
    (by rw [← hr]; norm_num at ha ⊢; linarith)
  rw [← hr] at hz
  norm_num at hz
  have hint : (10000 * 2 ^ 39 : ℤ) < z := by
    have : (10000 * 2 ^ 39 : ℚ) < z := by
      rw [hz] at ha
      norm_num at ha ⊢
      linarith
    exact_mod_cast this
  have : (10000 * 2 ^ 39 + 1 : ℚ) ≤ z := by exact_mod_cast hint
  rw [hz]
  norm_num at this ⊢
  linarith

theorem not_returns_of_gt (sc : Scene P) {n : ℕ} {a : ℚ} (h : Double.ofNat n = .fin a)
    (ha : 10000 * 2 ^ 60 < a) : ¬ Returns sc (.fin a) := by
  have hgap := gap_above h ha
  have hquot : (2 ^ 60 + 209 : ℚ) ≤ a / 10000 := by
    rw [le_div_iff₀ (by norm_num)]
    norm_num at hgap ⊢
    linarith
  have hpos : (0 : ℚ) < a / 10000 := by linarith [show (0 : ℚ) < 2 ^ 60 by positivity]
  have hone : 1 ≤ |a / 10000| := by
    rw [abs_of_pos hpos]
    norm_num at hquot
    linarith
  have ha0 : (Double.fin a) ≠ .fin 0 := by
    intro h0
    rw [Double.fin.injEq] at h0
    norm_num [h0] at ha
  have hdiv : (Double.fin a).div (.fin 10000) = Double.rnd (a / 10000) := div_fin (by norm_num)
  rcases Double.rnd_cases hpos.le with hinf | ⟨c, hc⟩
  · exact not_returns_of_stuck ha0 (by rw [hdiv, hinf]; rfl) (by rw [hdiv, hinf]; rfl)
  have hr := Double.rnd_eq hc
  have hlow : (2 ^ 60 : ℚ) < c := by
    have hulp := ulp_le_div hone (show (-1074 : ℤ) ≤ -(52 : ℕ) by norm_num)
    have herr := abs_nearest_sub_le 52 (-1074) (a / 10000)
    rw [← hr] at herr
    have := (abs_le.mp herr).1
    rw [abs_of_pos hpos] at hulp
    norm_num at hulp hquot ⊢
    linarith
  obtain ⟨z, hz⟩ := exists_nearest_eq_mul hone (show (-1074 : ℤ) ≤ -(52 : ℕ) by norm_num) (hr ▸ hlow)
  rw [← hr] at hz
  norm_num at hz
  have hint : (2 ^ 52 : ℤ) < z := by
    have : (2 ^ 52 : ℚ) < z := by
      rw [hz] at hlow
      norm_num at hlow ⊢
      linarith
    exact_mod_cast this
  have hc100 : (2 ^ 60 + 100 : ℚ) ≤ c := by
    have : (2 ^ 52 + 1 : ℚ) ≤ z := by exact_mod_cast hint
    rw [hz]
    norm_num at this ⊢
    linarith
  -- a whole number, from which a hundred cannot be taken
  have hfloor : (⌊c⌋ : ℚ) = c := by
    rw [hz]
    exact_mod_cast congrArg ((↑) : ℤ → ℚ) (Int.floor_intCast (R := ℚ) (z * 256))
  have hsub := Double.rnd_sub hone hc (d := 100) (k := 60) (by norm_num) (by norm_num) hc100
  have hcoins : ((Double.fin a).div (.fin 10000)).floor = .fin c := by rw [hdiv, hc, Double.floor, hfloor]
  refine not_returns_of_stuck ha0 ?_ ?_
  · rw [hcoins]
    exact decide_eq_true (by linarith)
  · rw [hcoins, min_hundred, min_eq_left (by linarith), Double.sub, Double.neg, Double.add,
      ← sub_eq_add_neg, hsub]

/-- `canCarryMoney` returns for what a player types when that is at most
`10000 * 2 ^ 60` as a double. -/
theorem withdraw_check_returns_iff (sc : Scene P) (message : String) :
    Returns sc (getMoneyCount message) ↔ (getMoneyCount message).le (.fin (10000 * 2 ^ 60)) = true := by
  have hnone : Returns sc (.fin (-1)) := returns_of_le sc le_rfl (by norm_num)
  have hle : (Double.fin (-1)).le (.fin (10000 * 2 ^ 60)) = true := decide_eq_true (by norm_num)
  unfold getMoneyCount
  dsimp only
  split
  · exact iff_of_true hnone hle
  · split
    · rename_i hvalid
      rcases Double.ofNat_cases (decimal (digits message)) with hinf | ⟨m, hm⟩
      · rw [hinf]
        exact iff_of_false (not_returns_inf sc) Bool.false_ne_true
      · rw [hm, Double.le, decide_eq_true_eq]
        constructor
        · intro hret
          by_contra hgt
          exact not_returns_of_gt sc hm (not_le.mp hgt) hret
        · exact returns_of_le sc (by linarith [Nat.cast_nonneg (α := ℚ) m])
    · exact iff_of_true hnone hle

/-- Nobody has to own the gold that he asks for. -/
theorem withdraw_check_hangs : ¬ ∃ sc : Scene Unit, Returns sc (getMoneyCount "withdraw 20000000000000000000000") := by
  intro ⟨sc, h⟩
  have htyped : getMoneyCount "withdraw 20000000000000000000000" = .fin (20000000000000000000000 : ℕ) := by
    decide +kernel
  have hnumber : Double.ofNat 20000000000000000000000 = .fin (20000000000000000000000 : ℕ) := by
    decide +kernel
  rw [htyped] at h
  exact not_returns_of_gt sc hnumber (by norm_num) h

end ForgottenServer.Npc.Banker
