import ForgottenServer.Lib.Run
import ForgottenServer.Money.Exact

/-! # Bounties

`PvPSystems.placeBounty` takes gold from a player and adds an active bounty;
`PvPSystems.collectBounties` pays the bounties on a killed player to the killer
and drops them from the list. The checks of the amount are written as
rejections, which a NaN passes, and the result of `removeMoney` is ignored.
What the database finds for a typed name is part of the command. The players
are those of the world of things and cylinders. -/
namespace ForgottenServer.Pvp.Bounties
open ForgottenServer.Lib.Run ForgottenServer.Lib.Binary64 ForgottenServer.Things

/-- The bounty entries of `PvPSystems.config`. -/
structure Config where
  bountyEnabled : Bool := true
  bountyMinAmount : ℕ := 1000
  bountyMaxAmount : ℕ := 10000000
  bountyMaxPerTarget : ℕ := 3
  bountyTaxPercent : ℕ := 10

def config : Config := {}

structure Bounty where
  targetName : String
  placedBy : String
  amount : Double
  timestamp : ℤ
  deriving DecidableEq

structure BountyState where
  world : World
  activeBounties : List Bounty
  /-- the taxes paid so far -/
  taxes : ℕ

abbrev Answer := Bool × String

/-- `math.floor(amount * bountyTaxPercent / 100)`. -/
def taxOf (amount : Double) : Double :=
  ((amount.mul (.fin config.bountyTaxPercent)).div (.fin 100)).floor

def onTarget (targetNameLower : String) (b : Bounty) : Bool := b.targetName.toLower == targetNameLower

section Code
variable (rules : Rules) (maxItems : ℕ → ℕ) (trades : Trades) (name : ℕ → String)

/-- The checks of `PvPSystems.placeBounty`: the amount and the name it goes on with. -/
def checkBounty (s : BountyState) (player : ℕ) (targetName : String) (amount : Double) (found : Option String) :
    Except String (Double × String) :=
  if !config.bountyEnabled then .error "The bounty system is currently disabled."
  else
    let amount := amount.floor
    if amount.lt (.fin config.bountyMinAmount) then
      .error ("Minimum bounty is " ++ (Double.fin config.bountyMinAmount).text ++ " gold.")
    else if (Double.fin config.bountyMaxAmount).lt amount then
      .error ("Maximum bounty is " ++ (Double.fin config.bountyMaxAmount).text ++ " gold.")
    else
      let tax := taxOf amount
      let totalCost := amount.add tax
      if (Double.ofNat (s.world.getMoney player)).lt totalCost then
        .error ("You need " ++ totalCost.text ++ " gold (" ++ amount.text ++ " bounty + " ++ tax.text ++ " tax).")
      else match found with
        | none => .error ("Player '" ++ targetName ++ "' does not exist.")
        | some actualName =>
          if actualName.toLower = (name player).toLower then .error "You cannot place a bounty on yourself."
          else
            let bountyCount := s.activeBounties.countP (onTarget targetName.toLower)
            if config.bountyMaxPerTarget ≤ bountyCount then
              .error ("Maximum bounties on this player reached (" ++ toString config.bountyMaxPerTarget ++ ").")
            else .ok (amount, actualName)

/-- `PvPSystems.placeBounty`, called by the `!bounty` command with a number. -/
def placeBounty (s : BountyState) (player : ℕ) (targetName : String) (amount : Double) (found : Option String)
    (now : ℤ) : Option (BountyState × Answer) :=
  match checkBounty name s player targetName amount found with
  | .error message => some (s, false, message)
  | .ok (amount, actualName) =>
    let tax := taxOf amount
    let totalCost := amount.add tax
    (s.world.removeMoney rules maxItems trades player totalCost.toUInt64).map fun (_, world) =>
      ({ world
         activeBounties := s.activeBounties ++ [⟨actualName, name player, amount, now⟩]
         taxes := s.taxes + tax.toUInt64 },
        true, "Bounty of " ++ amount.text ++ " gold placed on " ++ actualName ++ " (tax: " ++ tax.text ++ " gold).")

/-- A bounty on the target that the killer did not place himself. -/
def due (killerName targetName : String) (b : Bounty) : Bool :=
  onTarget targetName.toLower b && b.placedBy.toLower != killerName.toLower

/-- The loop of `PvPSystems.collectBounties`: the world, the total collected and the
bounties that remain. -/
def collectLoop (killer : ℕ) (killerName targetName : String) :
    List Bounty → World × Double × List Bounty → Option (World × Double × List Bounty)
  | [], acc => some acc
  | b :: bs, (world, totalCollected, remaining) =>
    if due killerName targetName b then
      (world.addMoney rules maxItems trades killer b.amount.toUInt64).bind fun world =>
        collectLoop killer killerName targetName bs (world, totalCollected.add b.amount, remaining)
    else collectLoop killer killerName targetName bs (world, totalCollected, remaining ++ [b])

/-- `PvPSystems.collectBounties`. -/
def collectBounties (s : BountyState) (killer target : ℕ) : Option (BountyState × Double) :=
  if !config.bountyEnabled then some (s, .fin 0)
  else if killer = target then some (s, .fin 0)
  else
    (collectLoop rules maxItems trades killer (name killer) (name target) s.activeBounties
      (s.world, .fin 0, [])).map fun (world, totalCollected, remaining) =>
        ({ s with world, activeBounties := remaining }, totalCollected)

/-- Commands, kills, and what else happens in between. -/
inductive Event
  | place (trades : Trades) (player : ℕ) (targetName : String) (amount : Double) (found : Option String) (now : ℤ)
  | kill (trades : Trades) (killer target : ℕ)
  | meanwhile (world : World)

/-- A null dereference would end the process, and the state with it. -/
def step (s : BountyState) : Event → BountyState
  | .place trades p targetName amount found now =>
    ((placeBounty rules maxItems trades name s p targetName amount found now).map Prod.fst).getD s
  | .kill trades killer target => ((collectBounties rules maxItems trades name s killer target).map Prod.fst).getD s
  | .meanwhile world => { s with world }

end Code

/-! ## The law -/

def Bounty.gold (b : Bounty) : ℕ := b.amount.toUInt64

/-- The bounties are integers within the bounds, not too many on any target. -/
structure Inv (rules : Rules) (s : BountyState) : Prop where
  amounts : ∀ b ∈ s.activeBounties, ∃ a : ℕ, b.amount = .fin a ∧
    config.bountyMinAmount ≤ a ∧ a ≤ config.bountyMaxAmount
  perTarget : ∀ t, s.activeBounties.countP (onTarget t) ≤ config.bountyMaxPerTarget
  orderly : World.Orderly rules s.world

/-- The coins that lie somewhere, the gold of the active bounties and of the taxes. -/
noncomputable def total (s : BountyState) : ℕ :=
  s.world.worth Set.univ + (s.activeBounties.map Bounty.gold).sum + s.taxes

/-- What an event may do: a command adds no bounty, or one of `a` gold that cost
the placer `a` and the tax; a kill moves the bounties that are due to the killer.
Gold is taken from the player and his tile, and put there. -/
def Lawful (name : ℕ → String) (s : BountyState) (e : Event) (t : BountyState) : Prop :=
  match e with
  | .place _ p _ _ _ _ =>
    t = s ∨ ∃ (a : ℕ) (b : Bounty), config.bountyMinAmount ≤ a ∧ a ≤ config.bountyMaxAmount ∧
      b.amount = .fin a ∧ t.activeBounties = s.activeBounties ++ [b] ∧
      (∀ S, s.world.home p ⊆ S → t.world.worth S + (a + a * config.bountyTaxPercent / 100) = s.world.worth S) ∧
      t.taxes = s.taxes + a * config.bountyTaxPercent / 100
  | .kill _ killer target =>
    t = s ∨ t.activeBounties = s.activeBounties.filter (fun b => !due (name killer) (name target) b) ∧
      (∀ S, s.world.home killer ⊆ S → t.world.worth S = s.world.worth S +
        ((s.activeBounties.filter (due (name killer) (name target))).map Bounty.gold).sum) ∧
      t.taxes = s.taxes
  | .meanwhile _ => t.activeBounties = s.activeBounties ∧ t.taxes = s.taxes

section Conditions
variable (rules : Rules) (maxItems : ℕ → ℕ) (name : ℕ → String)

/-- The payments settle, one after the other. -/
def payoutsSettle (trades : Trades) (p : ℕ) : List ℕ → World → Bool
  | [], _ => true
  | a :: l, w =>
    w.moneySettles rules maxItems trades p a && (w.addMoney rules maxItems trades p a).all (payoutsSettle trades p l)

/-- The typed amount is a number, the database finds the typed name up to case, and the
change or the payments settle. What else happens makes and takes no coins. -/
def Clean (s : BountyState) : Event → Prop
  | .place trades p targetName amount found _ =>
    amount ≠ .nan ∧ (∀ n ∈ found, n.toLower = targetName.toLower) ∧
      ∀ r ∈ (checkBounty name s p targetName amount found).toOption,
        World.changeSettles rules maxItems trades p (s.world.moneyMap p) s.world (r.1.add (taxOf r.1)).toUInt64 = true
  | .kill trades killer target => killer ≠ target → payoutsSettle rules maxItems trades killer
      ((s.activeBounties.filter (due (name killer) (name target))).map Bounty.gold) s.world = true
  | .meanwhile world => World.Orderly rules world ∧ world.worth Set.univ = s.world.worth Set.univ

end Conditions

theorem taxOf_natCast {a : ℕ} (h : a ≤ config.bountyMaxAmount) :
    taxOf (.fin a) = .fin (a * config.bountyTaxPercent / 100 : ℕ) := by
  have hmax : a ≤ 10000000 := h
  have hprod : (Double.fin a).mul (.fin config.bountyTaxPercent) = Double.ofNat (a * config.bountyTaxPercent) := by
    simp [Double.mul, Double.ofNat]
  have hlt : a * config.bountyTaxPercent < 2 ^ 32 := by
    simp only [config]
    omega
  have h100 : Double.fin 100 = Double.ofNat 100 := by
    rw [Double.ofNat_eq (by norm_num)]
    norm_num
  unfold taxOf
  rw [hprod, h100]
  exact (Double.div_ofNat hlt (by norm_num) (by norm_num)).1

theorem amount_in_range {amount : Double} (hnan : amount ≠ .nan)
    (hmin : amount.floor.lt (.fin config.bountyMinAmount) = false)
    (hmax : (Double.fin config.bountyMaxAmount).lt amount.floor = false) :
    ∃ a : ℕ, amount.floor = .fin a ∧ config.bountyMinAmount ≤ a ∧ a ≤ config.bountyMaxAmount := by
  have hpos : amount.floor.le (.fin 0) = false := by
    cases amount with
    | nan => rfl
    | inf neg => cases neg <;> simp_all [Double.floor, Double.lt]
    | fin q =>
      simp only [Double.floor, Double.lt, decide_eq_false_iff_not, not_lt] at hmin
      have : (0 : ℚ) < config.bountyMinAmount := by norm_num [config]
      simp only [Double.floor, Double.le, decide_eq_false_iff_not, not_le]
      exact this.trans_le hmin
  rcases Double.floor_pos_cases hnan hpos with hinf | ⟨a, -, ha⟩
  · rw [hinf] at hmax
    simp [Double.lt] at hmax
  · rw [ha] at hmin hmax
    simp only [Double.lt, decide_eq_false_iff_not, not_lt, Nat.cast_le] at hmin hmax
    exact ⟨a, ha, hmin, hmax⟩

variable {rules : Rules} {maxItems : ℕ → ℕ} {trades : Trades} {name : ℕ → String} {s : BountyState}

theorem checkBounty_ok {p : ℕ} {targetName : String} {amount : Double} {found : Option String} (hnan : amount ≠ .nan)
    {r : Double × String} (h : checkBounty name s p targetName amount found = .ok r) :
    ∃ a : ℕ, r.1 = .fin a ∧ config.bountyMinAmount ≤ a ∧ a ≤ config.bountyMaxAmount ∧ r.2 ∈ found ∧
      a + a * config.bountyTaxPercent / 100 ≤ s.world.getMoney p ∧
      s.activeBounties.countP (onTarget targetName.toLower) < config.bountyMaxPerTarget := by
  unfold checkBounty at h
  rw [if_neg (by decide)] at h
  dsimp only at h
  cases hmin : amount.floor.lt (.fin config.bountyMinAmount) with
  | true =>
    rw [if_pos hmin] at h
    cases h
  | false =>
  cases hmax : (Double.fin config.bountyMaxAmount).lt amount.floor with
  | true =>
    rw [if_neg (by rw [hmin]; decide), if_pos hmax] at h
    cases h
  | false =>
  obtain ⟨a, hfloor, hlo, hhi⟩ := amount_in_range hnan hmin hmax
  have hbound : a ≤ 10000000 := hhi
  have hcost : a + a * config.bountyTaxPercent / 100 ≤ 2 ^ 53 := by
    simp only [config]
    omega
  rw [if_neg (by rw [hmin]; decide), if_neg (by rw [hmax]; decide), hfloor, taxOf_natCast hhi, Double.add_natCast,
    Double.ofNat_eq hcost] at h
  cases hmoney : (Double.ofNat (s.world.getMoney p)).lt (.fin (a + a * config.bountyTaxPercent / 100 : ℕ)) with
  | true =>
    rw [if_pos hmoney] at h
    cases h
  | false =>
  rw [if_neg (by rw [hmoney]; decide)] at h
  cases found with
  | none => cases h
  | some actualName =>
  dsimp only at h
  split at h
  · cases h
  split at h
  · cases h
  · cases h
    exact ⟨a, rfl, hlo, hhi, rfl, Double.le_of_le_ofNat hcost hmoney, Nat.lt_of_not_le ‹_›⟩

theorem place_cases (hsane : rules.Sane) (hcoined : rules.Coined) (hs : Inv rules s) {p : ℕ} {targetName : String}
    {amount : Double} {found : Option String} {now : ℤ}
    (hclean : Clean rules maxItems name s (.place trades p targetName amount found now)) :
    (∃ answer, placeBounty rules maxItems trades name s p targetName amount found now = some (s, answer)) ∨
    ∃ (a : ℕ) (actualName : String) (w : World) (answer : Answer), config.bountyMinAmount ≤ a ∧
      a ≤ config.bountyMaxAmount ∧ actualName ∈ found ∧
      s.activeBounties.countP (onTarget targetName.toLower) < config.bountyMaxPerTarget ∧
      World.Orderly rules w ∧
      (∀ S, s.world.home p ⊆ S → w.worth S + (a + a * config.bountyTaxPercent / 100) = s.world.worth S) ∧
      placeBounty rules maxItems trades name s p targetName amount found now = some
        ({ world := w
           activeBounties := s.activeBounties ++ [⟨actualName, name p, .fin a, now⟩]
           taxes := s.taxes + a * config.bountyTaxPercent / 100 }, answer) := by
  obtain ⟨hnan, -, hsettles⟩ := hclean
  unfold placeBounty
  cases hcheck : checkBounty name s p targetName amount found with
  | error message => exact .inl ⟨_, rfl⟩
  | ok r =>
    obtain ⟨amount', actualName⟩ := r
    obtain ⟨a, ha, hlo, hhi, hfound, hmoney, hfree⟩ := checkBounty_ok hnan hcheck
    obtain rfl : amount' = .fin a := ha
    have hbound : a ≤ 10000000 := hhi
    have hmin : 1000 ≤ a := hlo
    have hcost : a + a * config.bountyTaxPercent / 100 < 2 ^ 53 := by
      simp only [config]
      omega
    have hchange := hsettles (.fin a, actualName) (by rw [hcheck]; rfl)
    dsimp only at hchange ⊢
    rw [taxOf_natCast hhi, Double.add_natCast, Double.ofNat_eq hcost.le, Double.toUInt64_natCast (by omega)] at hchange
    obtain ⟨w, hremove, hw, hpaid⟩ :=
      World.removeMoney_paid maxItems trades hsane hcoined hs.orderly (by omega) hmoney hchange
    rw [taxOf_natCast hhi, Double.add_natCast, Double.ofNat_eq hcost.le, Double.toUInt64_natCast (by omega),
      Double.toUInt64_natCast (by omega), hremove]
    exact .inr ⟨a, actualName, w, _, hlo, hhi, hfound, hfree, hw, hpaid, rfl⟩

theorem gold_of_amount {b : Bounty} {a : ℕ} (h : b.amount = .fin a)
    (ha : a ≤ config.bountyMaxAmount) : b.gold = a := by
  have : a ≤ 10000000 := ha
  unfold Bounty.gold
  rw [h, Double.toUInt64_natCast (by omega)]

/-- The loop pays what is due and keeps the rest. -/
theorem collectLoop_spec (hsane : rules.Sane) (hcoined : rules.Coined) (killer : ℕ) (killerName targetName : String)
    (bs : List Bounty) (hbs : ∀ b ∈ bs, ∃ a : ℕ, b.amount = .fin a ∧ a ≤ config.bountyMaxAmount) {w : World}
    (totalCollected : Double) (remaining : List Bounty) (hw : World.Orderly rules w)
    (hsettles : payoutsSettle rules maxItems trades killer
      ((bs.filter (due killerName targetName)).map Bounty.gold) w = true) :
    ∃ w' collected, collectLoop rules maxItems trades killer killerName targetName bs (w, totalCollected, remaining) =
        some (w', collected, remaining ++ bs.filter fun b => !due killerName targetName b) ∧
      World.Orderly rules w' ∧
      ∀ S, w.home killer ⊆ S →
        w'.worth S = w.worth S + ((bs.filter (due killerName targetName)).map Bounty.gold).sum := by
  induction bs generalizing w totalCollected remaining with
  | nil => exact ⟨w, totalCollected, by simp [collectLoop], hw, fun S _ => rfl⟩
  | cons b bs ih =>
    have hrest := fun b' hb' => hbs b' (List.mem_cons_of_mem b hb')
    cases hdue : due killerName targetName b with
    | true =>
      obtain ⟨a, ha, hmax⟩ := hbs b (by simp)
      have hgold := gold_of_amount ha hmax
      have hsmall : b.gold < 4294970000 := by
        have : a ≤ 10000000 := hmax
        omega
      rw [List.filter_cons_of_pos hdue, List.map_cons, payoutsSettle, Bool.and_eq_true] at hsettles
      obtain ⟨w₁, hadd, hw₁, hhome, hgiven⟩ :=
        World.addMoney_paid maxItems trades hsane hcoined hw hsmall hsettles.1
      rw [hadd, Option.all_some] at hsettles
      obtain ⟨w', collected, hloop, hw', hpaid⟩ := ih hrest (totalCollected.add b.amount) remaining hw₁ hsettles.2
      have hadd' : w.addMoney rules maxItems trades killer b.amount.toUInt64 = some w₁ := hadd
      refine ⟨w', collected, ?_, hw', fun S hS => ?_⟩
      · simp only [collectLoop, hdue, hadd', hloop, if_true, Option.bind_some, Bool.not_true, Bool.false_eq_true,
          not_false_eq_true, List.filter_cons_of_neg]
      · rw [hpaid S (hhome.subset.trans hS), hgiven S hS, List.filter_cons_of_pos hdue, List.map_cons, List.sum_cons,
          Nat.add_assoc]
    | false =>
      have hskip : (b :: bs).filter (due killerName targetName) = bs.filter (due killerName targetName) :=
        List.filter_cons_of_neg (by rw [hdue]; decide)
      rw [hskip] at hsettles ⊢
      obtain ⟨w', collected, hloop, hw', hpaid⟩ := ih hrest totalCollected (remaining ++ [b]) hw hsettles
      refine ⟨w', collected, ?_, hw', hpaid⟩
      simp only [collectLoop, hdue, hloop, Bool.false_eq_true, if_false, Bool.not_false, List.filter_cons_of_pos,
        List.append_assoc, List.singleton_append]

theorem kill_cases (hsane : rules.Sane) (hcoined : rules.Coined) (hs : Inv rules s) {killer target : ℕ}
    (hclean : Clean rules maxItems name s (.kill trades killer target)) :
    collectBounties rules maxItems trades name s killer target = some (s, .fin 0) ∨
    ∃ w collected, World.Orderly rules w ∧ (∀ S, s.world.home killer ⊆ S → w.worth S = s.world.worth S +
        ((s.activeBounties.filter (due (name killer) (name target))).map Bounty.gold).sum) ∧
      collectBounties rules maxItems trades name s killer target = some ({ s with
            world := w
            activeBounties := s.activeBounties.filter fun b => !due (name killer) (name target) b }, collected) := by
  unfold collectBounties
  rw [if_neg (by decide)]
  split
  · exact .inl rfl
  · right
    have hsettles := hclean ‹_›
    obtain ⟨w, collected, hloop, hw, hpaid⟩ := collectLoop_spec hsane hcoined killer (name killer) (name target)
      s.activeBounties (fun b hb => (hs.amounts b hb).imp fun a ha => ⟨ha.1, ha.2.2⟩) (.fin 0) [] hs.orderly hsettles
    refine ⟨w, collected, hw, hpaid, ?_⟩
    rw [hloop]
    rfl

theorem sum_filter_not (f : Bounty → ℕ) (d : Bounty → Bool) (l : List Bounty) :
    ((l.filter d).map f).sum + ((l.filter fun b => !d b).map f).sum = (l.map f).sum := by
  rw [← List.sum_append, ← List.map_append]
  exact ((List.filter_append_perm d l).map f).sum_eq

theorem Inv.step (hsane : rules.Sane) (hcoined : rules.Coined) (hs : Inv rules s) {e : Event}
    (he : Clean rules maxItems name s e) : Inv rules (step rules maxItems name s e) := by
  cases e with
  | place trades p targetName amount found now =>
    simp only [Bounties.step]
    rcases place_cases hsane hcoined hs he with
      ⟨answer, heq⟩ | ⟨a, actualName, w, answer, hlo, hhi, hfound, hroom, hw, -, heq⟩
    · rw [heq]
      exact hs
    · rw [heq]
      refine ⟨fun b hb => ?_, fun t => ?_, hw⟩
      · rcases List.mem_append.mp hb with hb | hb
        · exact hs.amounts b hb
        · rw [List.mem_singleton.mp hb]
          exact ⟨a, rfl, hlo, hhi⟩
      · dsimp only [Option.map_some, Option.getD_some]
        rw [List.countP_append, List.countP_singleton]
        have hold := hs.perTarget t
        by_cases ht : onTarget t ⟨actualName, name p, .fin a, now⟩ = true
        · -- the target counted is the target found
          have : targetName.toLower = t := by
            rw [← he.2.1 actualName hfound]
            simpa [onTarget] using ht
          rw [if_pos ht, ← this]
          omega
        · rw [if_neg ht]
          exact hold
  | kill trades killer target =>
    simp only [Bounties.step]
    rcases kill_cases hsane hcoined hs he with heq | ⟨w, collected, hw, -, heq⟩
    · rw [heq]
      exact hs
    · rw [heq]
      exact ⟨fun b hb => hs.amounts b (List.mem_of_mem_filter hb),
        fun t => (List.filter_sublist.countP_le).trans (hs.perTarget t), hw⟩
  | meanwhile world => exact ⟨hs.amounts, hs.perTarget, he.1⟩

theorem step_lawful (hsane : rules.Sane) (hcoined : rules.Coined) (hs : Inv rules s) {e : Event}
    (he : Clean rules maxItems name s e) : Lawful name s e (step rules maxItems name s e) := by
  cases e with
  | place trades p targetName amount found now =>
    simp only [Bounties.step]
    rcases place_cases hsane hcoined hs he with
      ⟨answer, heq⟩ | ⟨a, actualName, w, answer, hlo, hhi, -, -, -, hpaid, heq⟩
    · rw [heq]
      exact .inl rfl
    · rw [heq]
      exact .inr ⟨a, ⟨actualName, name p, .fin a, now⟩, hlo, hhi, rfl, rfl, hpaid, rfl⟩
  | kill trades killer target =>
    simp only [Bounties.step]
    rcases kill_cases hsane hcoined hs he with heq | ⟨w, collected, -, hpaid, heq⟩
    · rw [heq]
      exact .inl rfl
    · rw [heq]
      exact .inr ⟨rfl, hpaid, rfl⟩
  | meanwhile world => exact ⟨rfl, rfl⟩

theorem step_total (hsane : rules.Sane) (hcoined : rules.Coined) (hs : Inv rules s) {e : Event}
    (he : Clean rules maxItems name s e) : total (step rules maxItems name s e) = total s := by
  cases e with
  | place trades p targetName amount found now =>
    simp only [Bounties.step]
    rcases place_cases hsane hcoined hs he with
      ⟨answer, heq⟩ | ⟨a, actualName, w, answer, -, hhi, -, -, -, hpaid, heq⟩
    · rw [heq]
      rfl
    · have hall := hpaid Set.univ (Set.subset_univ _)
      have hgold := gold_of_amount (b := ⟨actualName, name p, .fin a, now⟩) rfl hhi
      rw [heq]
      simp only [total, Option.map_some, Option.getD_some, List.map_append, List.map_cons, List.map_nil,
        List.sum_append, List.sum_cons, List.sum_nil, hgold]
      omega
  | kill trades killer target =>
    simp only [Bounties.step]
    rcases kill_cases hsane hcoined hs he with heq | ⟨w, collected, -, hpaid, heq⟩
    · rw [heq]
      rfl
    · have hall := hpaid Set.univ (Set.subset_univ _)
      have hsplit := sum_filter_not Bounty.gold (due (name killer) (name target)) s.activeBounties
      rw [heq]
      simp only [total, Option.map_some, Option.getD_some]
      omega
  | meanwhile world => simp only [Bounties.step, total, he.2]

/-- In every run of commands with amounts that are numbers and of kills, whose coins settle, every
state reached has the gold of the first in coins, bounties and taxes, bounties
that are integers within the bounds and no target with too many; each event is
lawful: a bounty is paid for in full, and paid out when it leaves the list. -/
theorem bounties_conserve (hsane : rules.Sane) (hcoined : rules.Coined) (maxItems : ℕ → ℕ) (name : ℕ → String)
    (s : BountyState) (es : List Event) (hs : Inv rules s)
    (hclean : Along (step rules maxItems name) (Clean rules maxItems name) s es) :
    (∀ pre, pre <+: es → Inv rules (run (step rules maxItems name) s pre) ∧
      total (run (step rules maxItems name) s pre) = total s) ∧
    ∀ pre e, pre ++ [e] <+: es → Lawful name (run (step rules maxItems name) s pre) e
        (step rules maxItems name (run (step rules maxItems name) s pre) e) := by
  have hstep : ∀ (t : BountyState) (e : Event), Inv rules t ∧ total t = total s → Clean rules maxItems name t e →
      Inv rules (step rules maxItems name t e) ∧ total (step rules maxItems name t e) = total s :=
    fun t e ht he => ⟨ht.1.step hsane hcoined he, (step_total hsane hcoined ht.1 he).trans ht.2⟩
  have hreach := inv_reached hstep ⟨hs, rfl⟩ hclean
  refine ⟨hreach, fun pre e hpre => ?_⟩
  have hinv := (hreach pre ((List.prefix_append pre [e]).trans hpre)).1
  obtain ⟨post, rfl⟩ := hpre
  exact step_lawful hsane hcoined hinv hclean.left.last

def names : ℕ → String
  | 0 => "Ann"
  | 1 => "Bob"
  | _ => "Cat"

/-- No bounty yet; the first player carries 50000 gold. -/
def peace : BountyState where
  world := World.wallet crystalCoin 5 none
  activeBounties := []
  taxes := 0

theorem peace_inv : Inv World.bagsAndCoins peace :=
  ⟨by simp [peace], by simp [peace], World.wallet_orderly none (by decide) (by decide)⟩

/-- A bounty of a fraction more than 1000 on the second player, whom the third kills. Without a
backpack he gets the gold at his feet. -/
def hunt : List Event := [.place {} 0 "bob" (.fin (2001 / 2)) (some "Bob") 7, .kill {} 2 1]

theorem bounties_conserve_hunt : (run (step World.bagsAndCoins (fun _ => 20) names) peace hunt).activeBounties = [] ∧
    (run (step World.bagsAndCoins (fun _ => 20) names) peace hunt).world.getMoney 0 = 48900 ∧
    total (run (step World.bagsAndCoins (fun _ => 20) names) peace hunt) = total peace :=
  ⟨by decide +kernel, by decide +kernel,
    ((bounties_conserve World.bagsAndCoins_sane World.bagsAndCoins_coined (fun _ => 20) names peace hunt peace_inv
      ⟨⟨by decide, by decide +kernel, by decide +kernel⟩, fun _ => by decide +kernel, trivial⟩).1 hunt
        List.prefix_rfl).2⟩

/-- A bounty of NaN gold is placed and costs nothing. -/
theorem bounty_of_nan : (run (step World.bagsAndCoins (fun _ => 20) names) peace
      [.place {} 0 "bob" .nan (some "Bob") 7]).activeBounties = [⟨"Bob", "Ann", .nan, 7⟩] ∧
    (run (step World.bagsAndCoins (fun _ => 20) names) peace
      [.place {} 0 "bob" .nan (some "Bob") 7]).world.getMoney 0 = peace.world.getMoney 0 := by
  decide +kernel

end ForgottenServer.Pvp.Bounties
