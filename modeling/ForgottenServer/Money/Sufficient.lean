import ForgottenServer.Money.Placing

/-! # What the check is worth

`Player.canCarryMoney` compares the stacks that an amount is paid in with the empty slots under
the backpack, and their weight with the free capacity. `Game::addMoney` looks for a place for
each stack by itself. -/
namespace ForgottenServer.Money.Carry
open ForgottenServer.Lib.Bags ForgottenServer.Lib.Binary64
open ForgottenServer.Things (Coin)

/-- The stacks that an amount is paid in, in the order in which they are added. -/
def moneyStacks (amount : ℕ) : List (Coin × ℕ) :=
  (coinStacks (amount / 10000) (amount / 10000)).map (.crystal, ·) ++
    (coinStacks (amount / 100 % 100) (amount / 100 % 100)).map (.platinum, ·) ++
    (coinStacks (amount % 100) (amount % 100)).map (.gold, ·)

/-- The coins of each kind that an amount is paid in. -/
def moneyCoins (amount : ℕ) : Coin → ℕ
  | .crystal => amount / 10000
  | .platinum => amount / 100 % 100
  | .gold => amount % 100

/-- The coins of each kind in some stacks. -/
def stackCoins (piles : List (Coin × ℕ)) : Coin → ℕ := (piles.map fun s => Pi.single s.1 s.2).sum

def stackTotal (piles : List (Coin × ℕ)) : ℕ := (piles.map Prod.snd).sum

variable {rules : Rules} {o : Outcome} {p : Player} {coin : Coin} {count n fuel amount : ℕ} {piles : List (Coin × ℕ)}

/-! ## Stacks -/

theorem coinStacks_count (hfuel : n ≤ fuel) : ∀ m ∈ coinStacks fuel n, 0 < m ∧ m ≤ 100 := by
  induction fuel generalizing n with
  | zero => exact nofun
  | succ fuel ih =>
    unfold coinStacks
    split
    · exact nofun
    · intro m hm
      rcases List.mem_cons.mp hm with rfl | hm
      · omega
      · exact ih (by omega) m hm

theorem coinStacks_sum (hfuel : n ≤ fuel) : (coinStacks fuel n).sum = n := by
  induction fuel generalizing n with
  | zero =>
    obtain rfl := Nat.le_zero.mp hfuel
    rfl
  | succ fuel ih =>
    unfold coinStacks
    split
    · rename_i hzero
      rw [hzero, List.sum_nil]
    · rw [List.sum_cons, ih (by omega)]
      omega

theorem coinStacks_length (hfuel : n ≤ fuel) : (coinStacks fuel n).length = (n + 99) / 100 := by
  induction fuel generalizing n with
  | zero =>
    obtain rfl := Nat.le_zero.mp hfuel
    rfl
  | succ fuel ih =>
    unfold coinStacks
    split
    · rename_i hzero
      rw [hzero, List.length_nil]
    · rw [List.length_cons, ih (by omega)]
      omega

theorem coinStacks_zero (fuel : ℕ) : coinStacks fuel 0 = [] := by cases fuel <;> rfl

theorem coinStacks_single (hn : 0 < n) (hle : n ≤ 100) : coinStacks n n = [n] := by
  obtain ⟨fuel, rfl⟩ := Nat.exists_eq_succ_of_ne_zero hn.ne'
  rw [coinStacks, if_neg (Nat.succ_ne_zero _), min_eq_right hle, Nat.sub_self, coinStacks_zero]

theorem coinStacks_whole (fuel n : ℕ) : (coinStacks fuel n).Pairwise fun m _ => m = 100 := by
  induction fuel generalizing n with
  | zero => exact .nil
  | succ fuel ih =>
    unfold coinStacks
    split
    · exact .nil
    · refine .cons (fun m hm => ?_) (ih _)
      by_contra hpart
      have hend : n - min 100 n = 0 := by omega
      rw [hend, coinStacks_zero] at hm
      cases hm

theorem moneyStacks_count : ∀ s ∈ moneyStacks amount, 0 < s.2 ∧ s.2 ≤ 100 := by
  intro s hs
  simp only [moneyStacks, List.mem_append, List.mem_map] at hs
  rcases hs with (⟨m, hm, rfl⟩ | ⟨m, hm, rfl⟩) | ⟨m, hm, rfl⟩
  · exact coinStacks_count (Nat.le_refl _) m hm
  · exact coinStacks_count (Nat.le_refl _) m hm
  · exact coinStacks_count (Nat.le_refl _) m hm

theorem moneyStacks_length : (moneyStacks amount).length =
    (amount / 10000 + 99) / 100 + (amount / 100 % 100 + 99) / 100 + (amount % 100 + 99) / 100 := by
  simp only [moneyStacks, List.length_append, List.length_map, coinStacks_length (Nat.le_refl _)]

/-- No stack of a kind comes after one that has room. -/
def Orderly (piles : List (Coin × ℕ)) : Prop := piles.Pairwise fun s s' => s.2 = 100 ∨ s'.1 ≠ s.1

theorem moneyStacks_orderly (amount : ℕ) : Orderly (moneyStacks amount) := by
  have hkind : ∀ (coin : Coin) (n : ℕ), Orderly ((coinStacks n n).map (coin, ·)) := by
    intro coin n
    exact List.pairwise_map.mpr ((coinStacks_whole n n).imp .inl)
  have hother : ∀ {coin coin' : Coin} (l l' : List ℕ), coin' ≠ coin →
      ∀ s ∈ l.map (coin, ·), ∀ s' ∈ l'.map (coin', ·), s.2 = 100 ∨ s'.1 ≠ s.1 := by
    intro coin coin' l l' hne s hs s' hs'
    obtain ⟨m, -, rfl⟩ := List.mem_map.mp hs
    obtain ⟨m', -, rfl⟩ := List.mem_map.mp hs'
    exact .inr hne
  refine List.pairwise_append.mpr ⟨List.pairwise_append.mpr ⟨hkind _ _, hkind _ _, hother _ _ (by decide)⟩,
    hkind _ _, ?_⟩
  intro s hs
  rcases List.mem_append.mp hs with hs | hs
  · exact hother _ _ (by decide) s hs
  · exact hother _ _ (by decide) s hs

theorem stackTotal_map (coin : Coin) (l : List ℕ) : stackTotal (l.map (coin, ·)) = l.sum := by
  simp [stackTotal, Function.comp_def]

theorem stackCoins_map (coin : Coin) (l : List ℕ) : stackCoins (l.map (coin, ·)) = Pi.single coin l.sum := by
  induction l with
  | nil => simp [stackCoins]
  | cons n l ih =>
    have hcons : stackCoins ((n :: l).map (coin, ·)) = Pi.single coin n + stackCoins (l.map (coin, ·)) := rfl
    rw [hcons, ih, List.sum_cons, Pi.single_add]

theorem stackTotal_moneyStacks :
    stackTotal (moneyStacks amount) = amount / 10000 + amount / 100 % 100 + amount % 100 := by
  have happend : ∀ l l' : List (Coin × ℕ), stackTotal (l ++ l') = stackTotal l + stackTotal l' := by
    intro l l'
    simp [stackTotal]
  simp only [moneyStacks, happend, stackTotal_map, coinStacks_sum (Nat.le_refl _)]

theorem stackCoins_moneyStacks : stackCoins (moneyStacks amount) = moneyCoins amount := by
  have happend : ∀ l l' : List (Coin × ℕ), stackCoins (l ++ l') = stackCoins l + stackCoins l' := by
    intro l l'
    simp [stackCoins]
  funext coin
  simp only [moneyStacks, happend, stackCoins_map, coinStacks_sum (Nat.le_refl _)]
  cases coin <;> simp [moneyCoins]

/-! ## All stacks -/

/-- Some stacks were added without a loss. -/
structure Outcome.Placed (o : Outcome) (piles : List (Coin × ℕ)) (o' : Outcome) : Prop where
  dropped : o'.dropped = o.dropped
  lost : o'.lost = o.lost
  gained : o.player.Gained o'.player (stackCoins piles) (coinWeight * stackTotal piles)
  settled : o'.player.Settled

def addStacks (rules : Rules) (o : Outcome) (piles : List (Coin × ℕ)) : Outcome :=
  piles.foldl (fun o s => addStack rules o s.1 s.2) o

theorem addStack_placed (rules : Rules) (coin : Coin) (hcount : 0 < count) (hle : count ≤ 100)
    (hroom : ∀ trade, 0 < o.player.room trade) (hbears : o.player.Bears (coinWeight * count)) :
    o.Placed [(coin, count)] (addStack rules o coin count) ∧
      ∀ trade, o.player.room trade ≤ (addStack rules o coin count).player.room trade + 1 := by
  have hadded := addRounds_placed rules coin (count + 1) (Nat.lt_succ_self _) hcount hle hroom hbears
  have hgained := hadded.gained
  unfold addStack
  simp only [hadded.noError, if_true]
  refine ⟨⟨rfl, by simp [hadded.lost], ?_, hadded.settled⟩, hadded.room⟩
  simpa [stackCoins, stackTotal] using hgained

theorem addStacks_placed (hstacks : ∀ s ∈ piles, 0 < s.2 ∧ s.2 ≤ 100)
    (hroom : ∀ trade, piles.length ≤ o.player.room trade) (hbears : o.player.Bears (coinWeight * stackTotal piles))
    (hsettled : o.player.Settled) : o.Placed piles (addStacks rules o piles) := by
  induction piles generalizing o with
  | nil => exact ⟨rfl, rfl, Player.Gained.refl _, hsettled⟩
  | cons s piles ih =>
    obtain ⟨coin, count⟩ := s
    obtain ⟨hcount, hstacks⟩ := List.forall_mem_cons.mp hstacks
    have htotal : stackTotal ((coin, count) :: piles) = count + stackTotal piles := by simp [stackTotal]
    rw [htotal, Nat.mul_add] at hbears
    obtain ⟨hone, hless⟩ := addStack_placed rules coin hcount.1 hcount.2
      (fun trade => Nat.lt_of_lt_of_le (Nat.succ_pos _) (hroom trade)) (hbears.mono (Nat.le_add_right _ _))
    have hgained : o.player.Gained (addStack rules o coin count).player
        (Pi.single coin count) (coinWeight * count) := by
      simpa [stackCoins, stackTotal] using hone.gained
    have hrest := ih hstacks (fun trade => Nat.le_of_succ_le_succ ((hroom trade).trans (hless trade)))
      (hbears.rest hgained) hone.settled
    refine ⟨hrest.dropped.trans hone.dropped, hrest.lost.trans hone.lost, ?_, hrest.settled⟩
    have hboth := hgained.trans hrest.gained
    rwa [← Nat.mul_add, ← htotal] at hboth

/-- A coin lies on the ground or is nowhere. -/
def Outcome.Spilt (o : Outcome) : Prop := o.dropped ≠ [] ∨ 0 < o.lost

theorem addStack_spilt (hspilt : o.Spilt) : (addStack rules o coin count).Spilt := by
  unfold addStack
  dsimp only
  split
  · exact hspilt.imp_right (Nat.lt_of_lt_of_le · (Nat.le_add_right _ _))
  · exact .inl (List.cons_ne_nil _ _)

theorem addStacks_spilt (hspilt : o.Spilt) : (addStacks rules o piles).Spilt := by
  induction piles generalizing o with
  | nil => exact hspilt
  | cons s piles ih => exact ih (addStack_spilt hspilt)

theorem addStack_full (hrules : ∀ slots slot coin n, rules.belongs slots slot coin n = false)
    (hfull : o.player.slots.total (Thing.stackRoom coin) = 0) (hcount : 0 < count)
    (hwhole : ¬(addStack rules o coin count).Spilt) :
    (addStack rules o coin count).player.room false + 1 = o.player.room false ∧
      ∀ c, (addStack rules o coin count).player.slots.total (Thing.stackRoom c) =
        o.player.slots.total (Thing.stackRoom c) + (Thing.coins coin count false).stackRoom c := by
  have hadded := addRounds_full count hrules hfull count
  unfold addStack at hwhole ⊢
  dsimp only at hwhole ⊢
  split
  · rename_i hok
    rw [if_pos hok] at hwhole
    rcases hadded with hfailed | hlost | hplaced
    · rw [hfailed] at hok
      cases hok
    · refine absurd (.inr ?_) hwhole
      simp only [hlost]
      omega
    · exact hplaced
  · rename_i hfailed
    rw [if_neg hfailed] at hwhole
    exact absurd (.inl (List.cons_ne_nil _ _)) hwhole

theorem addStacks_full (hrules : ∀ slots slot coin n, rules.belongs slots slot coin n = false)
    (hcounts : ∀ s ∈ piles, 0 < s.2) (horderly : Orderly piles)
    (hfull : ∀ s ∈ piles, o.player.slots.total (Thing.stackRoom s.1) = 0) (hwhole : ¬(addStacks rules o piles).Spilt) :
    (addStacks rules o piles).player.room false + piles.length = o.player.room false := by
  induction piles generalizing o with
  | nil => rfl
  | cons s piles ih =>
    obtain ⟨coin, count⟩ := s
    obtain ⟨hcount, hcounts⟩ := List.forall_mem_cons.mp hcounts
    obtain ⟨hfirst, horderly⟩ := List.pairwise_cons.mp horderly
    obtain ⟨hnone, hfull⟩ := List.forall_mem_cons.mp hfull
    obtain ⟨hone, hstacks⟩ := addStack_full hrules hnone hcount fun hspilt =>
      hwhole (addStacks_spilt (o := addStack rules o coin count) hspilt)
    have hrest : ∀ s ∈ piles, (addStack rules o coin count).player.slots.total (Thing.stackRoom s.1) = 0 := by
      intro s hs
      rw [hstacks, hfull s hs, Nat.zero_add, Thing.stackRoom]
      rcases hfirst s hs with hhundred | hother
      · rw [show count = 100 from hhundred, Nat.sub_self, ite_self]
      · exact if_neg (Ne.symm hother)
    have hlength := ih hcounts horderly hrest hwhole
    rw [List.length_cons, ← hone, ← hlength]
    rfl

theorem createCount_eq (hcount : 0 < n) (hle : n ≤ 100) : createCount n = n := by
  unfold createCount
  split <;> omega

theorem addStacks_append (piles piles' : List (Coin × ℕ)) :
    addStacks rules o (piles ++ piles') = addStacks rules (addStacks rules o piles) piles' := List.foldl_append

theorem addStacks_map (coin : Coin) {l : List ℕ} (hl : ∀ n ∈ l, 0 < n ∧ n ≤ 100) :
    addStacks rules o (l.map (coin, ·)) = l.foldl (fun o n => addStack rules o coin (createCount n)) o := by
  rw [addStacks, List.foldl_map]
  refine List.foldl_ext _ _ _ fun o n hn => ?_
  rw [createCount_eq (hl n hn).1 (hl n hn).2]

theorem addStacks_single (coin : Coin) (hle : n ≤ 100) : addStacks rules o ((coinStacks n n).map (coin, ·)) =
      if n ≠ 0 then addStack rules o coin (createCount n) else o := by
  split
  · rename_i hne
    rw [coinStacks_single (Nat.pos_of_ne_zero hne) hle, createCount_eq (Nat.pos_of_ne_zero hne) hle]
    rfl
  · rename_i hzero
    rw [not_not.mp hzero]
    rfl

theorem gold_left (amount : ℕ) :
    (if amount / 100 % 100 ≠ 0 then amount % 10000 - amount / 100 % 100 * 100 else amount % 10000) = amount % 100 := by
  split
  · omega
  · omega

/-- For an amount of 32 bits no product overflows. -/
theorem addMoney_eq (hamount : amount < 2 ^ 32) :
    addMoney rules o amount = addStacks rules o (moneyStacks amount) := by
  unfold addMoney
  split
  · rename_i hzero
    subst hzero
    rfl
  · have hcrystal : amount / 10000 % 2 ^ 32 = amount / 10000 := Nat.mod_eq_of_lt (by omega)
    have hrest : amount - amount / 10000 * 10000 % 2 ^ 32 = amount % 10000 := by omega
    have hplatinum : amount % 10000 / 100 % 2 ^ 16 = amount / 100 % 100 := by omega
    simp only [hcrystal, hrest, hplatinum, gold_left]
    rw [moneyStacks, addStacks_append, addStacks_append, addStacks_map .crystal (coinStacks_count (Nat.le_refl _)),
      addStacks_single .platinum (by omega), addStacks_single .gold (by omega)]

/-! ## The check -/

open Npc.Banker (stackLoop takeCoins getWeight loopFuel)

theorem getWeight_eq (sc : Npc.Banker.Scene Unit) (coin : Coin) (hcount : 0 < n) (hle : n ≤ 100)
    (hweight : sc.weight coin * n ≤ 2 ^ 53) : getWeight sc coin (.fin n) = .fin (sc.weight coin * n : ℕ) := by
  unfold getWeight
  have hmod : ((n : ℤ) % 2 ^ 16).toNat = n := by omega
  rw [Double.toInt32_natCast (by omega), hmod, max_eq_right (by omega), Double.ofNat_eq hweight]

theorem stackLoop_eq (sc : Npc.Banker.Scene Unit) (coin : Coin) (fuel weight slots : ℕ) (hfuel : n + 100 ≤ 100 * fuel)
    (hweight : weight + sc.weight coin * n ≤ 2 ^ 53) (hslots : slots + n ≤ 2 ^ 53) :
    stackLoop sc coin fuel (.fin n) (.fin weight, .fin slots) =
      some (.fin (weight + sc.weight coin * n : ℕ), .fin (slots + (n + 99) / 100 : ℕ)) := by
  induction fuel generalizing n weight slots with
  | zero => omega
  | succ fuel ih =>
    have hzero : (Double.fin 0).lt (.fin n) = decide (0 < n) := by simp [Double.lt]
    unfold stackLoop
    rw [hzero]
    by_cases h0 : 0 < n
    · have hsplit : sc.weight coin * n = sc.weight coin * min 100 n + sc.weight coin * (n - min 100 n) := by
        rw [← Nat.mul_add, Nat.add_sub_cancel' (min_le_right _ _)]
      have hload : weight + sc.weight coin * min 100 n + sc.weight coin * (n - min 100 n) =
          weight + sc.weight coin * n := by omega
      have hcount : slots + 1 + (n - min 100 n + 99) / 100 = slots + (n + 99) / 100 := by omega
      have hone : (Double.fin slots).add (.fin 1) = .fin (slots + 1 : ℕ) := by
        have hadd := Double.add_natCast slots 1
        rwa [Nat.cast_one, Double.ofNat_eq (by omega)] at hadd
      simp only [h0, decide_true, if_true]
      rw [Npc.Banker.min_hundred_natCast, Double.sub_natCast (by omega) (Nat.min_le_right 100 n),
        getWeight_eq sc coin (by omega) (Nat.min_le_left _ _) (by omega), Double.add_natCast,
        Double.ofNat_eq (by omega), hone, ih _ _ (by omega) (by omega) (by omega), hload, hcount]
    · obtain rfl : n = 0 := by omega
      simp

theorem takeCoins_eq (sc : Npc.Banker.Scene Unit) (coin : Coin) (weight slots : ℕ) {w : ℕ} (hamount : amount < 2 ^ 32)
    (hw : 0 < w) (hw' : w < 2 ^ 20) (hweight : weight + sc.weight coin * (amount / w) ≤ 2 ^ 53)
    (hslots : slots + amount / w ≤ 2 ^ 53) :
    takeCoins sc coin (.fin w) (.fin amount) (.fin weight, .fin slots) =
      some (.fin (amount % w : ℕ), .fin (weight + sc.weight coin * (amount / w) : ℕ),
        .fin (slots + (amount / w + 99) / 100 : ℕ)) := by
  have hle : amount / w ≤ amount := Nat.div_le_self amount w
  have hloop := stackLoop_eq sc coin (n := amount / w) loopFuel weight slots (by unfold loopFuel; omega)
    hweight hslots
  have hzero : (Double.fin 0).lt (.fin (amount / w : ℕ)) = decide (0 < amount / w) := by
    exact_mod_cast Npc.Banker.lt_natCast (m := 0)
  unfold takeCoins
  dsimp only
  rw [Npc.Banker.floor_div_natCast hamount hw hw', hzero, hloop, Npc.Banker.rest_natCast hamount]
  by_cases h0 : 0 < amount / w
  · simp [h0]
  · have hlt : amount < w := (Nat.div_eq_zero_iff_lt hw).mp (Nat.eq_zero_of_not_pos h0)
    have hnone : amount / w = 0 := Nat.eq_zero_of_not_pos h0
    simp [hnone, Nat.mod_eq_of_lt hlt]

theorem scene_weight (p : Player) (coin : Coin) : p.scene.weight coin = coinWeight := rfl

theorem scene_getFreeCapacity (p : Player) : p.scene.getFreeCapacity = .fin (p.getFreeCapacity : ℚ) := rfl

theorem scene_emptySlots (p : Player) : p.scene.emptySlots = p.backpackSlots.map fun n : ℤ => Double.fin (n : ℚ) := rfl

theorem fin_lt_natCast {n : ℕ} {slots : ℤ} : (Double.fin (slots : ℚ)).lt (.fin n) = decide (slots < n) := by
  simp only [Double.lt, decide_eq_decide]
  exact_mod_cast Iff.rfl

/-- What the check says of an amount of 32 bits: the coins can be borne, and there are as many
empty slots under the backpack as there are stacks. -/
theorem canCarryMoney_iff (hamount : amount < 2 ^ 32) (hpos : amount ≠ 0) :
    p.canCarryMoney amount = true ↔ coinWeight * stackTotal (moneyStacks amount) ≤ p.getFreeCapacity ∧
      ∃ slots, p.backpackSlots = some slots ∧ ((moneyStacks amount).length : ℤ) ≤ slots := by
  have hmod : amount % 10000 < 2 ^ 32 := (Nat.mod_le amount 10000).trans_lt hamount
  have hrest : amount % 10000 / 100 = amount / 100 % 100 ∧ amount % 10000 % 100 = amount % 100 := by omega
  have h1 := takeCoins_eq p.scene .crystal 0 0 (w := 10000) hamount (by norm_num) (by norm_num)
    (by simp only [scene_weight, coinWeight]; omega) (by omega)
  have h2 := takeCoins_eq p.scene .platinum (0 + coinWeight * (amount / 10000)) (0 + (amount / 10000 + 99) / 100)
    (w := 100) hmod (by norm_num) (by norm_num) (by simp only [scene_weight, coinWeight]; omega) (by omega)
  have h3 := stackLoop_eq p.scene .gold (n := amount % 100) loopFuel
    (0 + coinWeight * (amount / 10000) + coinWeight * (amount / 100 % 100))
    (0 + (amount / 10000 + 99) / 100 + (amount / 100 % 100 + 99) / 100)
    (by unfold loopFuel; omega) (by simp only [scene_weight, coinWeight]; omega) (by omega)
  rw [hrest.1, hrest.2] at h2
  simp only [scene_weight, Nat.cast_ofNat, Nat.cast_zero] at h1 h2 h3
  have hne : Double.fin (amount : ℚ) ≠ .fin 0 := by simpa using hpos
  have hload : coinWeight * stackTotal (moneyStacks amount) =
      0 + coinWeight * (amount / 10000) + coinWeight * (amount / 100 % 100) + coinWeight * (amount % 100) := by
    rw [stackTotal_moneyStacks, Nat.mul_add, Nat.mul_add, Nat.zero_add]
  have hlength : (moneyStacks amount).length =
      0 + (amount / 10000 + 99) / 100 + (amount / 100 % 100 + 99) / 100 + (amount % 100 + 99) / 100 := by
    rw [moneyStacks_length, Nat.zero_add]
  simp only [Player.canCarryMoney, decide_eq_true_eq, Npc.Banker.canCarryMoney, if_neg hne, h1, h2, h3,
    Option.bind_eq_bind, Option.bind_some, Option.pure_def, ← hload, ← hlength, scene_getFreeCapacity,
    Npc.Banker.lt_natCast, scene_emptySlots]
  split
  · rename_i hlt
    simp [Nat.not_le_of_lt hlt]
  · rename_i hle
    cases p.backpackSlots with
    | none => simp
    | some slots => simp [fin_lt_natCast, not_lt.mp hle]

/-! ## The check and the coins -/

theorem bears_of_free {load : ℕ} (hsettled : p.Settled) (hpos : 0 < load) (hfree : load ≤ p.getFreeCapacity) :
    p.Bears load := by
  unfold Player.getFreeCapacity at hfree
  have hpickup : p.cannotPickupItem = false := by
    cases hpickup : p.cannotPickupItem with
    | false => rfl
    | true =>
      rw [hpickup, if_pos rfl] at hfree
      omega
  rw [hpickup, if_neg Bool.false_ne_true] at hfree
  refine ⟨hpickup, Nat.le_of_eq hsettled, ?_⟩
  cases hinfinite : p.hasInfiniteCapacity with
  | true => exact .inl rfl
  | false =>
    rw [hinfinite, if_neg Bool.false_ne_true] at hfree
    rw [Player.Settled] at hsettled
    exact .inr (by omega)

theorem addMoney_placed (rules : Rules) (hsettled : p.Settled) (hamount : amount < 2 ^ 32)
    (hcarry : p.canCarryMoney amount = true) (hroom : ∀ trade, (moneyStacks amount).length ≤ p.room trade) :
    Outcome.Placed { player := p } (moneyStacks amount) (addMoney rules { player := p } amount) := by
  rw [addMoney_eq hamount]
  by_cases hzero : amount = 0
  · subst hzero
    exact ⟨rfl, rfl, Player.Gained.refl p, hsettled⟩
  · have htotal : 0 < stackTotal (moneyStacks amount) := by
      rw [stackTotal_moneyStacks]
      omega
    obtain ⟨hfree, -⟩ := (canCarryMoney_iff hamount hzero).mp hcarry
    have hbears := bears_of_free hsettled (Nat.mul_pos (by decide) htotal) hfree
    exact addStacks_placed moneyStacks_count hroom hbears hsettled

def AllCarried (rules : Rules) (p : Player) (amount : ℕ) : Prop :=
  (addMoney rules { player := p } amount).dropped = [] ∧ (addMoney rules { player := p } amount).lost = 0 ∧
    ∀ coin, (addMoney rules { player := p } amount).player.slots.total (Thing.units coin) =
      p.slots.total (Thing.units coin) + moneyCoins amount coin

/-- Coins cannot be worn, and no stack of them has room. -/
structure Player.Plain (rules : Rules) (p : Player) : Prop where
  belongs : ∀ slots slot coin n, rules.belongs slots slot coin n = false
  full : ∀ coin, p.slots.total (Thing.stackRoom coin) = 0

/-- A check that says yes is right if the containers have a slot for each stack: those that are
searched, and those that `queryMaxCount` counts. Where each stack needs a slot of its own, it is right
only if those that are searched do. -/
theorem addMoney_places (rules : Rules) (hsettled : p.Settled) (hamount : amount < 2 ^ 32)
    (hcarry : p.canCarryMoney amount = true) :
    ((∀ trade, (moneyStacks amount).length ≤ p.room trade) → AllCarried rules p amount) ∧
      (p.Plain rules → AllCarried rules p amount → (moneyStacks amount).length ≤ p.room false) := by
  constructor
  · intro hroom
    have hplaced := addMoney_placed rules hsettled hamount hcarry hroom
    refine ⟨hplaced.dropped, hplaced.lost, fun coin => ?_⟩
    rw [hplaced.gained.coins, stackCoins_moneyStacks]
  · intro hplain hcarried
    have hwhole : ¬(addStacks rules { player := p } (moneyStacks amount)).Spilt := by
      rw [← addMoney_eq hamount, Outcome.Spilt, hcarried.1, hcarried.2.1]
      simp
    have hlength := addStacks_full hplain.belongs (fun s hs => (moneyStacks_count s hs).1)
      (moneyStacks_orderly amount) (fun s _ => hplain.full s.1) hwhole
    exact Nat.le.intro ((Nat.add_comm _ _).trans hlength)

/-- The hands and the ammunition slot take coins. -/
def heldRules : Rules where
  belongs _ slot _ _ := slot = 4 || slot = 5 || slot = 9
  unplaced _ := true

/-- A player with full hands and an empty backpack, which may be the trade item. -/
def traveller (inTrade : Bool) : Player where
  slots := [none, none, some (.container 20 1800 inTrade, .nil), none, some (.other 3500 false, .nil),
    some (.other 4500 false, .nil), none, none, none, some (.other 100 false, .nil)]
  capacity := 40000
  inventoryWeight := 9900

theorem traveller_carries (inTrade : Bool) {amount : ℕ} (hamount : amount < 2 ^ 20) :
    (traveller inTrade).canCarryMoney amount = true := by
  by_cases hzero : amount = 0
  · simp [Player.canCarryMoney, Npc.Banker.canCarryMoney, hzero]
  · rw [canCarryMoney_iff (by omega) hzero, stackTotal_moneyStacks, moneyStacks_length]
    have hfree : (traveller inTrade).getFreeCapacity = 30100 := by cases inTrade <;> rfl
    have hslots : (traveller inTrade).backpackSlots = some 20 := rfl
    rw [hfree, hslots]
    simp only [coinWeight]
    refine ⟨?_, 20, rfl, ?_⟩
    · omega
    · omega

theorem traveller_paid : AllCarried heldRules (traveller false) 12345 :=
  (addMoney_places heldRules (p := traveller false) rfl (by norm_num)
    (traveller_carries false (by norm_num))).1 fun trade => by
    cases trade <;> decide

/-- The check counts the slots of a backpack that is offered in a trade. The coin goes to no slot at all. -/
theorem coin_vanishes : (traveller true).Settled ∧ (traveller true).canCarryMoney 100 = true ∧
      (addMoney heldRules { player := traveller true } 100).lost = 1 ∧ ¬AllCarried heldRules (traveller true) 100 := by
  have hlost : (addMoney heldRules { player := traveller true } 100).lost = 1 := by decide
  refine ⟨rfl, traveller_carries true (by norm_num), hlost, fun hcarried => ?_⟩
  rw [hcarried.2.1] at hlost
  cases hlost

end ForgottenServer.Money.Carry
