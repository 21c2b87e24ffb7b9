import ForgottenServer.Money.Coinage

/-! # Giving money

`addMoney` makes stacks of coins, one after the other. What arrives of a stack is
all of it exactly when the places that are chosen take what is put there. -/
namespace ForgottenServer.Things
open ForgottenServer.Lib.Forest
namespace World
variable {rules : Rules} {maxItems : ℕ → ℕ} {trades : Trades} {w w' w'' : World} {S : Set Cylinder} {p : ℕ}

/-! ## One stack -/

theorem Alike.closeTrades (closes : ℕ → Bool) : Alike w (w.closeTrades trades closes) where
  next := rfl
  id _ := rfl
  container _ := rfl
  inventory q := by
    unfold World.closeTrades
    dsimp only
    split <;> rfl
  tile := rfl
  count _ := rfl

theorem Unmoved.closeTrades {r : ℕ} (closes : ℕ → Bool) : Unmoved w (w.closeTrades trades closes) r where
  parent _ _ _ := rfl
  tile q := by
    unfold World.closeTrades
    dsimp only
    split <;> rfl
  ground _ := rfl
  floorChange _ := rfl

/-- A player and his tile, with the tile that a floor change of it leads to. -/
def home (w : World) (p : ℕ) : Set Cylinder :=
  { c | c = .player p ∨ ∃ t, (w.player p).tile = some t ∧
    (c = .tile t ∨ c = .tile ((w.tile t).floorChange.getD t)) }

/-- The queries before an item is added have no objection. -/
def isChecked (rules : Rules) (w : World) (c : Cylinder) (r : ℕ) (flags : Flags) : Bool :=
  (w.checkPlace rules c (w.placeOf rules c r whereEver flags) r).1 = .noError

/-- The player takes a new stack, or refuses it and his tile takes it. -/
def stackSettles (rules : Rules) (maxItems : ℕ → ℕ) (w : World) (p id n : ℕ) : Bool :=
  match w.createItem rules maxItems id n with
  | none => false
  | some w' =>
    if w'.isChecked rules (.player p) w.next {} then w'.settled rules true (.player p) w.next whereEver {}
    else (w'.player p).tile.any fun t =>
      w'.isChecked rules (.tile t) w.next { noLimit := true } &&
        w'.settled rules true (.tile t) w.next whereEver { noLimit := true }

theorem Gains.home {ids : Set ℕ} {gain : ℕ → ℕ} (h : Gains rules w w' S ids gain) (p : ℕ) : w'.home p = w.home p := by
  simp only [World.home, h.tile, h.floorChange]

/-- A loose stack of coins. -/
structure Offered (rules : Rules) (w : World) (r id n : ℕ) : Prop where
  tidy : Tidy rules w
  loose : ∀ c, r ∉ w.children c
  known : r < w.next
  coin : coinWorth id ≠ 0
  nonzero : n ≠ 0
  id_eq : (w.item r).id = id
  count_eq : (w.item r).count = n

theorem createItem_offered (maxItems : ℕ → ℕ) (hsane : rules.Sane) (hcoined : rules.Coined)
    (htidy : Tidy rules w) {id n : ℕ} (hcoin : coinWorth id ≠ 0) (hn : n ≠ 0) (hn' : n ≤ 100) :
    ∃ w', w.createItem rules maxItems id n = some w' ∧ Offered rules w' w.next id n ∧
      ∀ S ids, Gains rules w w' S ids 0 := by
  obtain ⟨w', hcreate, hcreated, hid⟩ := createItem_coin (w := w) maxItems hsane hcoined hcoin hn hn'
  have hplain := plain_of_coin (w := w') hcoined (x := w.next) (by rwa [hid])
  have htidy' : Tidy rules w' := htidy.created hcreated hn' fun h => by
    rw [hplain.2.2] at h
    cases h
  refine ⟨w', hcreate, ⟨htidy', fun c => ?_, by rw [hcreated.next]; omega, hcoin, hn, hid, hcreated.count⟩,
    fun S ids => gains_created htidy htidy' hcreated⟩
  rw [hcreated.children htidy.toValid]
  exact htidy.toValid.loose le_rfl

variable {r id n : ℕ} {c : Cylinder} {flags : Flags}

theorem Reached.mono {S' : Set Cylinder} (h : Reached w S c) (hS : S ⊆ S') : Reached w S' c := by
  rcases h with hc | ⟨y, hy, hbelow⟩
  · exact .inl (hS hc)
  · exact .inr ⟨y, hy, hbelow.grow hS fun _ _ hx => hx⟩

theorem placeOf_home (rules : Rules) (r : ℕ) (hflags : flags.childIsOwner = false)
    (hc : c = .player p ∨ ∃ t, (w.player p).tile = some t ∧ c = .tile t) :
    c ∈ w.home p ∧ Reached w (w.home p) (w.placeOf rules c r whereEver flags).cylinder := by
  rcases hc with rfl | ⟨t, ht, rfl⟩
  · have hself : Cylinder.player p ∈ w.home p := .inl rfl
    exact ⟨hself, (playerQueryDestination_reached whereEver hflags).mono (Set.singleton_subset_iff.mpr hself)⟩
  · refine ⟨.inr ⟨t, ht, .inl rfl⟩, .inl (.inr ⟨t, ht, .inr ?_⟩)⟩
    change (w.tileQueryDestination t whereEver flags).cylinder = _
    unfold tileQueryDestination
    cases (w.tile t).floorChange <;> rfl

theorem Offered.internalAddItem (flags : Flags) (hsane : rules.Sane) (hcoined : rules.Coined)
    (h : Offered rules w r id n) (hS : w.home p ⊆ S) (hflags : flags.childIsOwner = false)
    (hc : c = .player p ∨ ∃ t, (w.player p).tile = some t ∧ c = .tile t) :
    ∃ a, w.internalAddItem rules c r whereEver flags false = some a ∧
      (a.ret = .noError ↔ w.isChecked rules c r flags = true) ∧
      (a.ret ≠ .noError → a.world = w ∧ a.remainderCount = 0) ∧
      (a.ret = .noError → ∃ k ≤ n, Gains rules w a.world S {id} (Pi.single id k) ∧
        (k = n ↔ w.settled rules true c r whereEver flags = true) ∧
        (a.remainderCount ≠ 0 → k + a.remainderCount = n)) := by
  obtain ⟨hhome, hplace⟩ := placeOf_home rules r hflags hc
  have hmem := hS hhome
  replace hplace := hplace.mono hS
  have hcoin : coinWorth (w.item r).id ≠ 0 := h.id_eq ▸ h.coin
  obtain ⟨hstack, hplain, -⟩ := plain_of_coin hcoined hcoin
  have hone : 1 ≤ (w.item r).count := by
    rw [h.count_eq]
    exact Nat.one_le_iff_ne_zero.mpr h.nonzero
  have hleaf := h.tidy.leaf r hstack
  have hready : Ready rules w S c r whereEver flags :=
    ⟨h.tidy, h.loose, h.known, by rwa [amount_stack _ hstack, unitsOf, if_pos rfl],
      apart_leaf h.loose hleaf, hflags, hplace⟩
  have hzero : (w.item r).id ≠ 0 := fun hid => hcoin (by rw [hid]; rfl)
  have hsome := addRounds_isSome hsane hmem hready
    ⟨by rw [hcoined.group _ hcoin]; decide, by rw [hcoined.id _ hcoin]; exact hzero⟩
      (Nat.lt_succ_self (w.item r).count)
  obtain ⟨a, ha⟩ := Option.isSome_iff_exists.mp hsome
  refine ⟨a, ha, ⟨fun hret => decide_eq_true (addRounds_checked ha hret), fun hcheck => ?_⟩,
    fun hret => (addRounds_refused ha hret).1, fun hret => ?_⟩
  · by_contra hret
    exact (addRounds_refused ha hret).2 (of_decide_eq_true hcheck)
  · obtain ⟨k, hk, hgains, hall, hrest⟩ := internalAddItem_grows hsane h.tidy h.loose h.known hstack hplain
      hone hflags hmem hplace ha hret
    rw [h.id_eq, h.count_eq] at *
    exact ⟨k, hk, hgains, hall, hrest⟩

theorem addStack_grows (maxItems : ℕ → ℕ) (trades : Trades) (hsane : rules.Sane) (hcoined : rules.Coined)
    (htidy : Tidy rules w) (hcoin : coinWorth id ≠ 0) (hn : n ≠ 0) (hn' : n ≤ 100) (hS : w.home p ⊆ S) :
    ∃ w', w.addStack rules maxItems trades p id n = some w' ∧ ∃ k ≤ n, Gains rules w w' S {id} (Pi.single id k) ∧
        (k = n ↔ w.stackSettles rules maxItems p id n = true) := by
  obtain ⟨w₁, hcreate, hoffered, hmade⟩ :=
    createItem_offered maxItems hsane hcoined htidy hcoin hn hn'
  have hhome : w₁.home p ⊆ S := ((hmade ∅ ∅).home p).subset.trans hS
  have hthen : ∀ {w' : World} {k : ℕ}, Gains rules w₁ w' S {id} (Pi.single id k) →
      Gains rules w w' S {id} (Pi.single id k) := by
    intro w' k h
    have hboth := (hmade S {id}).trans htidy h
    rwa [Set.union_self, zero_add] at hboth
  have hnothing : Gains rules w w₁ S {id} (Pi.single id 0) := by
    rw [Pi.single_zero]
    exact hmade _ _
  have hnot : ∀ {b : Bool}, b = false → (0 = n ↔ b = true) := by
    rintro b rfl
    simp [hn.symm]
  obtain ⟨a, ha, hcheck, hsame, hgrow⟩ := hoffered.internalAddItem {} hsane hcoined hhome rfl
    (.inl (rfl : Cylinder.player p = .player p))
  unfold addStack stackSettles
  rw [hcreate]
  simp only [ha, Option.bind_eq_bind, Option.bind_some, Option.pure_def]
  by_cases hret : a.ret = .noError
  · obtain ⟨k, hk, hgains, hall, -⟩ := hgrow hret
    rw [if_pos hret, if_pos (hcheck.mp hret)]
    exact ⟨_, rfl, k, hk, hthen hgains, hall⟩
  · rw [if_neg hret, (hsame hret).1, if_neg fun h => hret (hcheck.mpr h)]
    cases ht : (w₁.player p).tile with
    | none => exact ⟨_, rfl, 0, Nat.zero_le _, hnothing, hnot rfl⟩
    | some t =>
      obtain ⟨b, hb, hcheck', hsame', hgrow'⟩ := hoffered.internalAddItem { noLimit := true }
        hsane hcoined hhome rfl (.inr ⟨t, ht, (rfl : Cylinder.tile t = .tile t)⟩)
      simp only [hb, Option.bind_some, Option.any_some]
      by_cases hret' : b.ret = .noError
      · obtain ⟨k, hk, hgains, hall, -⟩ := hgrow' hret'
        rw [hcheck'.mp hret', Bool.true_and]
        exact ⟨_, rfl, k, hk, hthen (hgains.after hoffered.tidy (.closeTrades _) (.closeTrades _)), hall⟩
      · have hfalse : w₁.isChecked rules (.tile t) w.next { noLimit := true } = false :=
          Bool.eq_false_iff.mpr fun h => hret' (hcheck'.mpr h)
        rw [(hsame' hret').1, hfalse, Bool.false_and]
        exact ⟨_, rfl, 0, Nat.zero_le _, hnothing.after htidy (.closeTrades _) (.closeTrades _), hnot rfl⟩

/-! ## Many stacks -/

def crystalStacks : ℕ → ℕ → List (ℕ × ℕ)
  | 0, _ => []
  | fuel + 1, n => if n = 0 then [] else (crystalCoin, min 100 n) :: crystalStacks fuel (n - min 100 n)

/-- The stacks that an amount is paid in, with the counts as `addMoney` has them. -/
def moneyStacks (money : ℕ) : List (ℕ × ℕ) :=
  let crystalCoins := money / 10000 % 2 ^ 32
  let money := money - crystalCoins * 10000 % 2 ^ 32
  let platinumCoins := money / 100 % 2 ^ 16
  let money := if platinumCoins ≠ 0 then money - platinumCoins * 100 else money
  crystalStacks crystalCoins crystalCoins ++ (if platinumCoins ≠ 0 then [(platinumCoin, platinumCoins)] else []) ++
    (if money ≠ 0 then [(goldCoin, money % 2 ^ 16)] else [])

def addStacks (rules : Rules) (maxItems : ℕ → ℕ) (trades : Trades) (p : ℕ) : List (ℕ × ℕ) → World → Option World
  | [], w => some w
  | (id, n) :: rest, w => (w.addStack rules maxItems trades p id n).bind (addStacks rules maxItems trades p rest)

/-- Each of the stacks settles in the world that those before it have left. -/
def stacksSettle (rules : Rules) (maxItems : ℕ → ℕ) (trades : Trades) (p : ℕ) : List (ℕ × ℕ) → World → Bool
  | [], _ => true
  | (id, n) :: rest, w =>
    w.stackSettles rules maxItems p id n &&
      (w.addStack rules maxItems trades p id n).all (stacksSettle rules maxItems trades p rest)

theorem addStacks_append (l l' : List (ℕ × ℕ)) (w : World) : addStacks rules maxItems trades p (l ++ l') w =
      (addStacks rules maxItems trades p l w).bind (addStacks rules maxItems trades p l') := by
  induction l generalizing w with
  | nil => rfl
  | cons s l ih =>
    rw [List.cons_append, addStacks, addStacks, Option.bind_assoc]
    exact congrArg _ (funext ih)

theorem addCrystals_eq (fuel n : ℕ) (w : World) :
    addCrystals rules maxItems trades p fuel w n = addStacks rules maxItems trades p (crystalStacks fuel n) w := by
  induction fuel generalizing w n with
  | zero => rfl
  | succ fuel ih =>
    unfold addCrystals crystalStacks
    split
    · rfl
    · exact congrArg (Option.bind _) (funext fun w' => ih _ w')

theorem addMoney_eq (p money : ℕ) (w : World) :
    w.addMoney rules maxItems trades p money = addStacks rules maxItems trades p (moneyStacks money) w := by
  unfold addMoney moneyStacks
  split
  · rename_i hzero
    subst hzero
    rfl
  · dsimp only
    rw [addStacks_append, addStacks_append, addCrystals_eq, Option.bind_assoc]
    refine congrArg (Option.bind _) (funext fun w' => ?_)
    have hone : ∀ (b : Prop) [Decidable b] (id n : ℕ) (w : World),
        addStacks rules maxItems trades p (if b then [(id, n)] else []) w =
          if b then w.addStack rules maxItems trades p id n else some w := by
      intro b _ id n w
      split
      · rw [addStacks]
        exact Option.bind_fun_some _
      · rfl
    rw [hone]
    split
    · exact congrArg (Option.bind _) (funext fun w'' => (hone _ _ _ w'').symm)
    · exact (hone _ _ _ w').symm

def stacksWorth (l : List (ℕ × ℕ)) : ℕ := (l.map fun s => s.2 * coinWorth s.1).sum

/-- What units of the kinds are worth. -/
def unitsWorth (gain : ℕ → ℕ) : ℕ := gain goldCoin + 100 * gain platinumCoin + 10000 * gain crystalCoin

theorem unitsWorth_add (gain gain' : ℕ → ℕ) : unitsWorth (gain + gain') = unitsWorth gain + unitsWorth gain' := by
  simp only [unitsWorth, Pi.add_apply]
  omega

/-- A stack that can be made. -/
def IsStack (s : ℕ × ℕ) : Prop := coinWorth s.1 ≠ 0 ∧ s.2 ≠ 0 ∧ s.2 ≤ 100

theorem addStacks_grows (maxItems : ℕ → ℕ) (trades : Trades) (hsane : rules.Sane) (hcoined : rules.Coined)
    {l : List (ℕ × ℕ)} (hl : ∀ s ∈ l, IsStack s) (htidy : Tidy rules w) (hS : w.home p ⊆ S) :
    ∃ w', addStacks rules maxItems trades p l w = some w' ∧
      ∃ gain, Gains rules w w' S { id | id ∈ l.map Prod.fst } gain ∧
        unitsWorth gain ≤ stacksWorth l ∧
        (unitsWorth gain = stacksWorth l ↔ stacksSettle rules maxItems trades p l w = true) := by
  induction l generalizing w with
  | nil => exact ⟨w, rfl, 0, .same htidy _ _, le_rfl, by simp [stacksSettle, unitsWorth, stacksWorth]⟩
  | cons s l ih =>
    obtain ⟨id, n⟩ := s
    obtain ⟨hcoin, hn, hn'⟩ := hl _ List.mem_cons_self
    obtain ⟨w₁, hadd, k, hk, hgains, hall⟩ :=
      addStack_grows maxItems trades hsane hcoined htidy hcoin hn hn' hS
    obtain ⟨w', hrest, gain, hgains', hle, hall'⟩ :=
      ih (fun s hs => hl s (List.mem_cons_of_mem _ hs)) hgains.tidy ((hgains.home p).subset.trans hS)
    have hids : {id} ∪ { id | id ∈ l.map Prod.fst } = { i | i ∈ ((id, n) :: l).map Prod.fst } := by
      ext i
      simp
    have hboth := hgains.trans htidy hgains'
    rw [hids] at hboth
    have hfirst : unitsWorth (Pi.single id k) = k * coinWorth id := worth_single hcoin k
    have hpart : k * coinWorth id ≤ n * coinWorth id := Nat.mul_le_mul_right _ hk
    have hsame : k * coinWorth id = n * coinWorth id ↔ k = n :=
      Nat.mul_left_inj hcoin
    refine ⟨w', by rw [addStacks, hadd, Option.bind_some, hrest], _, hboth, ?_, ?_⟩
    · rw [unitsWorth_add, hfirst]
      simp only [stacksWorth, List.map_cons, List.sum_cons] at hle ⊢
      omega
    · rw [unitsWorth_add, hfirst, stacksSettle, hadd, Option.all_some, Bool.and_eq_true, ← hall, ← hall', ← hsame]
      simp only [stacksWorth, List.map_cons, List.sum_cons] at hle ⊢
      omega

/-! ## An amount -/

theorem crystalStacks_spec (fuel n : ℕ) (h : n ≤ fuel) :
    (∀ s ∈ crystalStacks fuel n, s.1 = crystalCoin ∧ s.2 ≠ 0 ∧ s.2 ≤ 100 ∧ n ≠ 0) ∧
      stacksWorth (crystalStacks fuel n) = n * 10000 := by
  induction fuel generalizing n with
  | zero =>
    obtain rfl : n = 0 := by omega
    exact ⟨nofun, rfl⟩
  | succ fuel ih =>
    unfold crystalStacks
    split
    · rename_i hzero
      subst hzero
      exact ⟨nofun, rfl⟩
    · rename_i hzero
      obtain ⟨hall, hsum⟩ := ih (n - min 100 n) (by omega)
      refine ⟨fun s hs => ?_, ?_⟩
      · rcases List.mem_cons.mp hs with rfl | hs
        · exact ⟨rfl, by dsimp only; omega, min_le_left _ _, hzero⟩
        · obtain ⟨hid, hn, hn', -⟩ := hall s hs
          exact ⟨hid, hn, hn', hzero⟩
      · have hcrystal : coinWorth crystalCoin = 10000 := rfl
        rw [stacksWorth, List.map_cons, List.sum_cons, hcrystal]
        rw [stacksWorth] at hsum
        omega

theorem stacksWorth_append (l l' : List (ℕ × ℕ)) : stacksWorth (l ++ l') = stacksWorth l + stacksWorth l' := by
  simp [stacksWorth]

/-- As long as no product and no count is cut off, the stacks are worth the amount. -/
theorem moneyStacks_spec {money : ℕ} (h : money < 4294970000) :
    (∀ s ∈ moneyStacks money, IsStack s ∧ coinWorth s.1 ≤ money) ∧ stacksWorth (moneyStacks money) = money := by
  have hc : money / 10000 % 2 ^ 32 = money / 10000 := Nat.mod_eq_of_lt (by omega)
  have hprod : money / 10000 * 10000 % 2 ^ 32 = money / 10000 * 10000 := Nat.mod_eq_of_lt (by omega)
  have hrest : money - money / 10000 * 10000 = money % 10000 := by omega
  have hp : money % 10000 / 100 % 2 ^ 16 = money % 10000 / 100 := Nat.mod_eq_of_lt (by omega)
  have hlast : (if money % 10000 / 100 ≠ 0 then money % 10000 - money % 10000 / 100 * 100 else money % 10000) =
      money % 100 := by
    split <;> omega
  have hg : money % 100 % 2 ^ 16 = money % 100 := Nat.mod_eq_of_lt (by omega)
  have hworths : coinWorth goldCoin = 1 ∧ coinWorth platinumCoin = 100 ∧ coinWorth crystalCoin = 10000 :=
    ⟨rfl, rfl, rfl⟩
  obtain ⟨hall, hsum⟩ := crystalStacks_spec (money / 10000) (money / 10000) le_rfl
  unfold moneyStacks
  dsimp only
  rw [hc, hprod, hrest, hp, hlast, hg]
  constructor
  · intro s hs
    rw [List.mem_append, List.mem_append] at hs
    rcases hs with (hs | hs) | hs
    · obtain ⟨hid, hn, hn', hzero⟩ := hall s hs
      refine ⟨⟨by rw [hid, hworths.2.2]; decide, hn, hn'⟩, ?_⟩
      rw [hid, hworths.2.2]
      omega
    · split at hs
      · rename_i hzero
        obtain rfl := List.mem_singleton.mp hs
        dsimp only
        refine ⟨⟨by rw [hworths.2.1]; decide, hzero, by dsimp only; omega⟩, ?_⟩
        rw [hworths.2.1]
        omega
      · cases hs
    · split at hs
      · rename_i hzero
        obtain rfl := List.mem_singleton.mp hs
        dsimp only
        refine ⟨⟨by rw [hworths.1]; decide, hzero, by dsimp only; omega⟩, ?_⟩
        rw [hworths.1]
        omega
      · cases hs
  · have hone : ∀ (b : Prop) [Decidable b] (id n : ℕ),
        stacksWorth (if b then [(id, n)] else []) = if b then n * coinWorth id else 0 := by
      intro b _ id n
      split <;> simp [stacksWorth]
    rw [stacksWorth_append, stacksWorth_append, hsum, hone, hone, hworths.1, hworths.2.1]
    split <;> split <;> omega

/-- Every stack of an amount settles. -/
def moneySettles (rules : Rules) (maxItems : ℕ → ℕ) (trades : Trades) (w : World) (p money : ℕ) : Bool :=
  stacksSettle rules maxItems trades p (moneyStacks money) w

theorem addMoney_grows (maxItems : ℕ → ℕ) (trades : Trades) (hsane : rules.Sane) (hcoined : rules.Coined)
    (htidy : Tidy rules w) (hS : w.home p ⊆ S) {money : ℕ} (hmoney : money < 4294970000) :
    ∃ w', w.addMoney rules maxItems trades p money = some w' ∧
      ∃ ids gain, Gains rules w w' S ids gain ∧ (∀ id ∈ ids, coinWorth id ≤ money) ∧
        unitsWorth gain ≤ money ∧ (unitsWorth gain = money ↔ w.moneySettles rules maxItems trades p money = true) := by
  obtain ⟨hall, hsum⟩ := moneyStacks_spec hmoney
  obtain ⟨w', hadd, gain, hgains, hle, hexact⟩ :=
    addStacks_grows maxItems trades hsane hcoined (fun s hs => (hall s hs).1) htidy hS
  rw [hsum] at hle hexact
  refine ⟨w', (addMoney_eq p money w).trans hadd, _, gain, hgains, fun id hid => ?_, hle, hexact⟩
  obtain ⟨s, hs, rfl⟩ := List.mem_map.mp hid
  exact (hall s hs).2

end World
end ForgottenServer.Things
