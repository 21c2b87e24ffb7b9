import ForgottenServer.Lib.Run
import ForgottenServer.Lib.Table
import ForgottenServer.Money.Exact

/-! # The guild bank

`GuildEnhanced.deposit` and `GuildEnhanced.withdraw` move gold between a
member's coins and a number stored in `guild_storage`. Amounts are whatever
`tonumber` made of the typed word. Neither function looks at the result of
`removeMoney` or of the SQL statement, so the sum of the two is kept only when
the amount is a number, the statement succeeds and the coins find a place. A
guild stands for its id, which is positive; reading the table succeeds. The
players are those of the world of things and cylinders. -/
namespace ForgottenServer.Guild.Bank
open ForgottenServer.Lib ForgottenServer.Lib.Run ForgottenServer.Lib.Binary64 ForgottenServer.Things

/-- `GuildEnhanced.config.maxBankBalance`. -/
def maxBankBalance : ℕ := 100000000

variable {G : Type*}

structure GuildState (G : Type*) where
  world : World
  /-- the number in `guild_storage`, once there is a row -/
  stored : G → Option Double
  /-- `PLAYER_GUILD_CONTRIBUTION` of each player -/
  contribution : ℕ → Option ℤ

/-- `GuildEnhanced.getBankBalance`: a text that is no integer is read as 0. -/
def GuildState.getBankBalance (s : GuildState G) (g : G) : Double :=
  match s.stored g with
  | some (.fin q) => if q.den = 1 then .fin q else .fin 0
  | _ => .fin 0

/-- The contribution that `deposit` keeps count of. -/
def GuildState.addContribution (s : GuildState G) (p : ℕ) (amount : Double) : GuildState G :=
  let contrib := Double.fin ((s.contribution p).getD (-1))
  let contrib := if contrib.lt (.fin 0) then .fin 0 else contrib
  { s with contribution := Function.update s.contribution p (some (contrib.add amount).toInt32) }

/-- A call answers with success and a message. -/
abbrev Answer := Bool × String

/-- The checks of `GuildEnhanced.deposit`: the guild, the amount and the balance it goes on with. -/
def checkDeposit (s : GuildState G) (player : ℕ) (guild : Option G) (amount : Double) :
    Except String (G × Double × Double) :=
  match guild with
  | none => .error "You are not in a guild."
  | some guildId =>
    let amount := amount.floor
    if amount.le (.fin 0) then .error "Invalid amount."
    else if (Double.ofNat (s.world.getMoney player)).lt amount then .error "You do not have enough gold."
    else
      let balance := s.getBankBalance guildId
      if (Double.fin maxBankBalance).lt (balance.add amount) then
        .error ("The guild bank cannot hold that much gold (max: " ++ (Double.fin maxBankBalance).text ++ ").")
      else .ok (guildId, amount, balance)

/-- The checks of `GuildEnhanced.withdraw`. -/
def checkWithdraw (s : GuildState G) (guild : Option G) (rank : ℕ) (amount : Double) :
    Except String (G × Double × Double) :=
  match guild with
  | none => .error "You are not in a guild."
  | some guildId =>
    let amount := amount.floor
    if rank < 2 then .error "Only guild leaders and vice leaders can withdraw from the bank."
    else if amount.le (.fin 0) then .error "Invalid amount."
    else
      let balance := s.getBankBalance guildId
      if balance.lt amount then
        .error ("Insufficient guild bank funds (balance: " ++ balance.text ++ " gold).")
      else .ok (guildId, amount, balance)

section Code
variable (rules : Rules) (maxItems : ℕ → ℕ) [DecidableEq G]

/-- `GuildEnhanced.setBankBalance`; the statement fails on a literal that is no
number. -/
def GuildState.setBankBalance (s : GuildState G) (g : G) (amount : Double) (queryOk : Bool) : GuildState G :=
  match Double.max (.fin 0) (amount.min (.fin maxBankBalance)) with
  | .fin q => if queryOk then { s with stored := Function.update s.stored g (some (.fin q)) } else s
  | _ => s

/-- `GuildEnhanced.deposit`. -/
def deposit (trades : Trades) (s : GuildState G) (player : ℕ) (guild : Option G) (amount : Double)
    (queryOk : Bool) : Option (GuildState G × Answer) :=
  match checkDeposit s player guild amount with
  | .error message => some (s, false, message)
  | .ok (guildId, amount, balance) =>
    (s.world.removeMoney rules maxItems trades player amount.toUInt64).map fun (_, world) =>
      let s := { s with world }
      let s := s.setBankBalance guildId (balance.add amount) queryOk
      (s.addContribution player amount, true, "Deposited " ++ amount.text ++
        " gold into the guild bank. New balance: " ++ (balance.add amount).text ++ " gold.")

/-- `GuildEnhanced.withdraw`. -/
def withdraw (trades : Trades) (s : GuildState G) (player : ℕ) (guild : Option G) (rank : ℕ) (amount : Double)
    (queryOk : Bool) : Option (GuildState G × Answer) :=
  match checkWithdraw s guild rank amount with
  | .error message => some (s, false, message)
  | .ok (guildId, amount, balance) =>
    let s := s.setBankBalance guildId (balance.sub amount) queryOk
    (s.world.addMoney rules maxItems trades player amount.toUInt64).map fun world =>
      ({ s with world }, true, "Withdrew " ++ amount.text ++ " gold from the guild bank. Remaining: " ++
        (balance.sub amount).text ++ " gold.")

/-- A call with what the game answers to it: the trades that go on, the player's
guild and rank, and whether the statement succeeds. -/
inductive Call (G : Type*)
  | deposit (trades : Trades) (player : ℕ) (guild : Option G) (amount : Double) (queryOk : Bool)
  | withdraw (trades : Trades) (player : ℕ) (guild : Option G) (rank : ℕ) (amount : Double) (queryOk : Bool)

def Call.player : Call G → ℕ
  | .deposit _ p .. => p
  | .withdraw _ p .. => p

def call (s : GuildState G) : Call G → Option (GuildState G × Answer)
  | .deposit trades p g amount queryOk => Bank.deposit rules maxItems trades s p g amount queryOk
  | .withdraw trades p g rank amount queryOk => Bank.withdraw rules maxItems trades s p g rank amount queryOk

/-- Calls, and what else happens to the world in between. -/
inductive Event (G : Type*)
  | call (c : Call G)
  | meanwhile (world : World)

/-- A null dereference would end the process, and the state with it. -/
def step (s : GuildState G) : Event G → GuildState G
  | .call c => ((call rules maxItems s c).map Prod.fst).getD s
  | .meanwhile world => { s with world }

end Code

/-! ## Conservation -/

def GuildState.gold (s : GuildState G) (g : G) : ℕ :=
  match s.getBankBalance g with
  | .fin q => ⌊q⌋.toNat
  | _ => 0

/-- Stored numbers are integers from 0 to the maximum. -/
structure Inv (rules : Rules) (s : GuildState G) : Prop where
  stored : ∀ g x, s.stored g = some x → ∃ n : ℕ, x = .fin n ∧ n ≤ maxBankBalance
  orderly : World.Orderly rules s.world

theorem Inv.balance {rules : Rules} {s : GuildState G} (h : Inv rules s) (g : G) :
    s.getBankBalance g = .fin (s.gold g) ∧ s.gold g ≤ maxBankBalance := by
  unfold GuildState.gold GuildState.getBankBalance
  cases hg : s.stored g with
  | none => simp
  | some x =>
    obtain ⟨n, rfl, hn⟩ := h.stored g x hg
    simpa using hn

/-- The coins in some places and the stored balances. -/
noncomputable def total [Fintype G] (S : Set Cylinder) (s : GuildState G) : ℕ :=
  s.world.worth S + ∑ g, s.gold g

/-- When the checks let a call through, the amount is a number, the statement succeeds and the
coins settle: the change of a deposit, the stacks of a withdrawal. -/
def Call.Clean (rules : Rules) (maxItems : ℕ → ℕ) (s : GuildState G) : Call G → Prop
  | .deposit trades p guild amount queryOk =>
    ∀ r ∈ (checkDeposit s p guild amount).toOption, amount ≠ .nan ∧ queryOk = true ∧
      World.changeSettles rules maxItems trades p (s.world.moneyMap p) s.world r.2.1.toUInt64 = true
  | .withdraw trades p guild rank amount queryOk =>
    ∀ r ∈ (checkWithdraw s guild rank amount).toOption, amount ≠ .nan ∧ queryOk = true ∧
      s.world.moneySettles rules maxItems trades p r.2.1.toUInt64 = true

/-- What else happens makes and takes no coins. -/
def Clean (rules : Rules) (maxItems : ℕ → ℕ) (s : GuildState G) : Event G → Prop
  | .call c => c.Clean rules maxItems s
  | .meanwhile world => World.Orderly rules world ∧ world.worth Set.univ = s.world.worth Set.univ

/-- A call is answered, changes nothing when it reports failure, and moves gold between the
coins of the player, or what lies at his feet, and the bank. -/
def Lawful [Fintype G] [DecidableEq G] (rules : Rules) (maxItems : ℕ → ℕ) (s : GuildState G) :
    Event G → GuildState G → Prop
  | .call c, t => ∃ answer, call rules maxItems s c = some (t, answer) ∧ (answer.1 = false → t = s) ∧
      ∀ S, s.world.home c.player ⊆ S → total S t = total S s
  | .meanwhile _, t => t.stored = s.stored

theorem setBankBalance_eq [DecidableEq G] (s : GuildState G) (g : G) {n : ℕ} (h : n ≤ maxBankBalance) :
    s.setBankBalance g (.fin n) true = { s with stored := Function.update s.stored g (some (.fin n)) } := by
  have hmin : (Double.fin n).min (.fin maxBankBalance) = .fin n := by
    have : ¬((maxBankBalance : ℚ) < n) := not_lt.mpr (by exact_mod_cast h)
    simp [Double.min, Double.lt, this]
  have hmax : Double.max (.fin 0) (.fin n) = .fin n := by
    rcases Nat.eq_zero_or_pos n with rfl | hpos
    · simp [Double.max]
    · simp [Double.max, Double.lt, hpos]
  unfold GuildState.setBankBalance
  rw [hmin, hmax]
  rfl

theorem setBankBalance_fails [DecidableEq G] (s : GuildState G) (g : G) (amount : Double) :
    s.setBankBalance g amount false = s := by
  unfold GuildState.setBankBalance
  split <;> rfl

variable {rules : Rules} {maxItems : ℕ → ℕ} {s : GuildState G}

/-- What the checks of a deposit let through: the player has it and the bank can hold it. -/
theorem checkDeposit_ok (h : Inv rules s) {p : ℕ} {guild : Option G} {amount : Double} (hnan : amount ≠ .nan)
    {r : G × Double × Double} (hr : checkDeposit s p guild amount = .ok r) :
    ∃ (g : G) (n : ℕ), r = (g, .fin n, .fin (s.gold g)) ∧ n ≠ 0 ∧ n ≤ s.world.getMoney p ∧
      s.gold g + n ≤ maxBankBalance := by
  unfold checkDeposit at hr
  cases guild with
  | none => cases hr
  | some g =>
  obtain ⟨hbal, hmax⟩ := h.balance g
  dsimp only at hr
  cases hpos : amount.floor.le (.fin 0) with
  | true =>
    rw [if_pos hpos] at hr
    cases hr
  | false =>
  rw [if_neg (by rw [hpos]; decide)] at hr
  cases hmoney : (Double.ofNat (s.world.getMoney p)).lt amount.floor with
  | true =>
    rw [if_pos hmoney] at hr
    cases hr
  | false =>
  rw [if_neg (by rw [hmoney]; decide)] at hr
  cases hcap : (Double.fin maxBankBalance).lt ((s.getBankBalance g).add amount.floor) with
  | true =>
    rw [if_pos hcap] at hr
    cases hr
  | false =>
  rw [if_neg (by rw [hcap]; decide)] at hr
  cases hr
  rcases Double.floor_pos_cases hnan hpos with hinf | ⟨n, hn, hfloor⟩
  · -- an infinite amount exceeds the capacity
    rw [hinf, hbal] at hcap
    simp [Double.add, Double.lt] at hcap
  · rw [hfloor] at hmoney
    rw [hfloor, hbal, Double.add_natCast] at hcap
    have hle : s.gold g + n ≤ maxBankBalance := Double.le_of_ofNat_le (by decide) hcap
    have hsmall : n ≤ 2 ^ 53 := (Nat.le_add_left _ _).trans (hle.trans (by decide))
    exact ⟨g, n, by rw [hfloor, hbal], by omega, Double.le_of_le_ofNat hsmall hmoney, hle⟩

/-- What the checks of a withdrawal let through: the bank has it. -/
theorem checkWithdraw_ok (h : Inv rules s) {guild : Option G} {rank : ℕ} {amount : Double} (hnan : amount ≠ .nan)
    {r : G × Double × Double} (hr : checkWithdraw s guild rank amount = .ok r) :
    ∃ (g : G) (n : ℕ), r = (g, .fin n, .fin (s.gold g)) ∧ n ≤ s.gold g := by
  unfold checkWithdraw at hr
  cases guild with
  | none => cases hr
  | some g =>
  obtain ⟨hbal, hmax⟩ := h.balance g
  dsimp only at hr
  by_cases hrank : rank < 2
  · rw [if_pos hrank] at hr
    cases hr
  rw [if_neg hrank] at hr
  cases hpos : amount.floor.le (.fin 0) with
  | true =>
    rw [if_pos hpos] at hr
    cases hr
  | false =>
  rw [if_neg (by rw [hpos]; decide)] at hr
  cases hfunds : (s.getBankBalance g).lt amount.floor with
  | true =>
    rw [if_pos hfunds] at hr
    cases hr
  | false =>
  rw [if_neg (by rw [hfunds]; decide)] at hr
  cases hr
  rcases Double.floor_pos_cases hnan hpos with hinf | ⟨n, hn, hfloor⟩
  · rw [hinf, hbal] at hfunds
    simp [Double.lt] at hfunds
  · rw [hfloor, hbal] at hfunds
    exact ⟨g, n, by rw [hfloor, hbal], by simpa [Double.lt] using hfunds⟩

section Calls
variable [DecidableEq G]

/-- What a call does: it is refused, or moves gold from the coins of the player
to the stored balance of the guild, or back. -/
theorem call_cases (hsane : rules.Sane) (hcoined : rules.Coined) (h : Inv rules s) {c : Call G}
    (hc : c.Clean rules maxItems s) :
    (∃ message, call rules maxItems s c = some (s, false, message)) ∨
    ∃ (t : GuildState G) (message : String) (g : G) (m : ℕ), call rules maxItems s c = some (t, true, message) ∧
      m ≤ maxBankBalance ∧ World.Orderly rules t.world ∧ t.stored = Function.update s.stored g (some (.fin m)) ∧
      ∀ S, s.world.home c.player ⊆ S → t.world.worth S + m = s.world.worth S + s.gold g := by
  cases c with
  | deposit trades p guild amount queryOk =>
    simp only [call]
    unfold Bank.deposit
    cases hcheck : checkDeposit s p guild amount with
    | error message => exact .inl ⟨message, rfl⟩
    | ok r =>
      obtain ⟨hnan, rfl, hsettles⟩ := hc r (by rw [hcheck]; rfl)
      obtain ⟨g, n, rfl, hn, hhas, hle⟩ := checkDeposit_ok h hnan hcheck
      have hmax : maxBankBalance < 2 ^ 53 := by decide
      rw [Double.toUInt64_natCast (by omega)] at hsettles
      obtain ⟨w, hremove, hw, hpaid⟩ :=
        World.removeMoney_paid maxItems trades hsane hcoined h.orderly hn hhas hsettles
      right
      dsimp only
      rw [Double.add_natCast, Double.ofNat_eq (by omega), Double.toUInt64_natCast (by omega), hremove]
      refine ⟨_, _, g, s.gold g + n, rfl, hle, ?_, ?_, fun S hS => ?_⟩
      · rw [setBankBalance_eq _ _ hle]
        exact hw
      · rw [setBankBalance_eq _ _ hle]
        rfl
      · rw [setBankBalance_eq _ _ hle]
        have := hpaid S hS
        change w.worth S + _ = _
        omega
  | withdraw trades p guild rank amount queryOk =>
    simp only [call]
    unfold Bank.withdraw
    cases hcheck : checkWithdraw s guild rank amount with
    | error message => exact .inl ⟨message, rfl⟩
    | ok r =>
      obtain ⟨hnan, rfl, hsettles⟩ := hc r (by rw [hcheck]; rfl)
      obtain ⟨g, n, rfl, hle⟩ := checkWithdraw_ok h hnan hcheck
      have hmax : maxBankBalance < 2 ^ 32 := by decide
      have hgold := (h.balance g).2
      rw [Double.toUInt64_natCast (by omega)] at hsettles
      obtain ⟨w, hadd, hw, -, hpaid⟩ :=
        World.addMoney_paid maxItems trades hsane hcoined h.orderly (by omega) hsettles
      have hrest : s.gold g - n ≤ maxBankBalance := (Nat.sub_le _ _).trans hgold
      right
      dsimp only
      rw [Double.sub_natCast (by omega) hle, Double.toUInt64_natCast (by omega), setBankBalance_eq _ _ hrest]
      dsimp only
      rw [hadd]
      refine ⟨_, _, g, s.gold g - n, rfl, hrest, hw, rfl, fun S hS => ?_⟩
      have := hpaid S hS
      change w.worth S + _ = _
      omega

theorem step_inv (hsane : rules.Sane) (hcoined : rules.Coined) (h : Inv rules s) {e : Event G}
    (he : Clean rules maxItems s e) : Inv rules (step rules maxItems s e) := by
  cases e with
  | call c =>
    simp only [step]
    rcases call_cases hsane hcoined h he with ⟨message, heq⟩ | ⟨t, message, g, m, heq, hm, hw, hstored, -⟩
    · rw [heq]
      exact h
    · rw [heq]
      refine ⟨fun g' x hx => ?_, hw⟩
      dsimp only [Option.map_some, Option.getD_some] at hx
      rw [hstored, Function.update_apply] at hx
      split at hx
      · exact ⟨m, (Option.some.inj hx).symm, hm⟩
      · exact h.stored g' x hx
  | meanwhile world => exact ⟨h.stored, he.1⟩

variable [Fintype G]

theorem total_stored {t : GuildState G} {g : G} {m : ℕ} {S : Set Cylinder}
    (hstored : t.stored = Function.update s.stored g (some (.fin m)))
    (hworth : t.world.worth S + m = s.world.worth S + s.gold g) : total S t = total S s := by
  have hgold : ∀ g', t.gold g' = Function.update s.gold g m g' := by
    intro g'
    unfold GuildState.gold GuildState.getBankBalance
    rw [hstored]
    by_cases hg : g' = g
    · subst hg
      simp
    · rw [Function.update_of_ne hg, Function.update_of_ne hg]
  have hguilds : ∑ g', t.gold g' + s.gold g = ∑ g', s.gold g' + m := by
    rw [Finset.sum_congr rfl fun g' _ => hgold g']
    exact Table.sum_function_update s.gold g m id
  unfold total
  omega

theorem step_lawful (hsane : rules.Sane) (hcoined : rules.Coined) (h : Inv rules s) {e : Event G}
    (he : Clean rules maxItems s e) : Lawful rules maxItems s e (step rules maxItems s e) := by
  cases e with
  | call c =>
    simp only [step]
    rcases call_cases hsane hcoined h he with ⟨message, heq⟩ | ⟨t, message, g, m, heq, -, -, hstored, hworth⟩
    · rw [heq]
      exact ⟨_, heq, fun _ => rfl, fun _ _ => rfl⟩
    · rw [heq]
      exact ⟨_, heq, nofun, fun S hS => total_stored hstored (hworth S hS)⟩
  | meanwhile world => exact rfl

theorem step_total (hsane : rules.Sane) (hcoined : rules.Coined) (h : Inv rules s) {e : Event G}
    (he : Clean rules maxItems s e) : total Set.univ (step rules maxItems s e) = total Set.univ s := by
  have hlawful := step_lawful hsane hcoined h he
  cases e with
  | call c =>
    obtain ⟨_, _, _, htotal⟩ := hlawful
    exact htotal Set.univ (Set.subset_univ _)
  | meanwhile world => simp only [step, total, GuildState.gold, GuildState.getBankBalance, he.2]

/-- The gold of a run so far: as much as at the start, each guild within its bounds. -/
def Conserved (s t : GuildState G) : Prop :=
  total Set.univ t = total Set.univ s ∧ ∀ g, t.getBankBalance g = .fin (t.gold g) ∧ t.gold g ≤ maxBankBalance

/-- In every run of calls that are clean when they are made, every state reached
has the gold of the first and balances within bounds, and each call is lawful:
one that reports failure changes nothing. -/
theorem guild_bank_conserves (hsane : rules.Sane) (hcoined : rules.Coined) (maxItems : ℕ → ℕ) (s : GuildState G)
    (es : List (Event G)) (hs : Inv rules s) (hclean : Along (step rules maxItems) (Clean rules maxItems) s es) :
    (∀ pre, pre <+: es → Conserved s (run (step rules maxItems) s pre)) ∧
    ∀ pre e, pre ++ [e] <+: es → Lawful rules maxItems (run (step rules maxItems) s pre) e
        (step rules maxItems (run (step rules maxItems) s pre) e) := by
  have hstep : ∀ (t : GuildState G) (e : Event G), Inv rules t ∧ total Set.univ t = total Set.univ s →
      Clean rules maxItems t e →
      Inv rules (step rules maxItems t e) ∧ total Set.univ (step rules maxItems t e) = total Set.univ s :=
    fun t e ht he => ⟨step_inv hsane hcoined ht.1 he, (step_total hsane hcoined ht.1 he).trans ht.2⟩
  have hreach := inv_reached hstep ⟨hs, rfl⟩ hclean
  refine ⟨fun pre hpre => ⟨(hreach pre hpre).2, (hreach pre hpre).1.balance⟩, fun pre e hpre => ?_⟩
  have hinv := (hreach pre ((List.prefix_append pre [e]).trans hpre)).1
  obtain ⟨post, rfl⟩ := hpre
  exact step_lawful hsane hcoined hinv hclean.left.last

end Calls

local instance guildCount : NeZero 1 := ⟨by decide⟩

/-- A guild that has nothing stored; its first member carries 50000 gold. -/
def founding : GuildState (Fin 1) where
  world := World.wallet crystalCoin 5 none
  stored := fun _ => none
  contribution := fun _ => none

theorem founding_inv : Inv World.bagsAndCoins founding :=
  ⟨nofun, World.wallet_orderly none (by decide) (by decide)⟩

/-- A deposit of a fraction, one of too much, and a withdrawal by another member, who gets the
gold at his feet. -/
def business : List (Event (Fin 1)) :=
  [.call (.deposit {} 0 (some 0) (.fin (24691 / 2)) true), .call (.deposit {} 0 (some 0) (.inf false) true),
    .call (.withdraw {} 1 (some 0) 2 (.fin 345) true)]

theorem guild_bank_conserves_business :
    Conserved founding (run (step World.bagsAndCoins fun _ => 20) founding business) :=
  (guild_bank_conserves World.bagsAndCoins_sane World.bagsAndCoins_coined (fun _ => 20) founding business founding_inv
    ⟨by unfold Clean Call.Clean; decide +kernel, by unfold Clean Call.Clean; decide +kernel,
      by unfold Clean Call.Clean; decide +kernel, trivial⟩).1 business List.prefix_rfl

/-- A deposit whose statement fails takes the gold and stores nothing. -/
theorem guild_bank_loses_gold :
    ∃ t message, call World.bagsAndCoins (fun _ => 20) founding (.deposit {} 0 (some 0) (.fin 1000) false) =
      some (t, true, message) ∧ total Set.univ t + 1000 = total Set.univ founding := by
  obtain ⟨w, hremove, -, hpaid⟩ := World.removeMoney_paid (fun _ => 20) {} World.bagsAndCoins_sane
    World.bagsAndCoins_coined founding_inv.orderly (p := 0) (show 1000 ≠ 0 by decide) (by decide +kernel)
    (by decide +kernel)
  have hcheck : checkDeposit founding 0 (some 0) (.fin 1000) = .ok (0, .fin 1000, .fin 0) := by decide +kernel
  have hcost : (Double.fin 1000).toUInt64 = 1000 := by decide +kernel
  have hworth := hpaid Set.univ (Set.subset_univ _)
  simp only [call, deposit, hcheck, hcost, hremove, Option.map_some, setBankBalance_fails]
  refine ⟨_, _, rfl, ?_⟩
  change w.worth Set.univ + _ + 1000 = founding.world.worth Set.univ + _
  rw [← hworth, Nat.add_right_comm]
  rfl

end ForgottenServer.Guild.Bank
