import ForgottenServer.Money.Room
import Mathlib.Algebra.BigOperators.Ring.List
import Mathlib.Algebra.Group.Pi.Lemmas

/-! # Coins that find their place

What `Game::internalAddItem` does to an inventory that has room for the coins and a player
who can bear them: the coins are there afterwards, all others are as they were, and no more
than one slot was taken. -/
namespace ForgottenServer.Money.Carry
open ForgottenServer.Lib.Bags
open ForgottenServer.Things (Coin)

variable {rules : Rules} {p : Player} {coin : Coin} {count n slot : ℕ} {path : List ℕ} {place : Player.Place}
  {f : Thing → ℕ} {trade : Bool}

theorem Thing.grow_coins (toCount : ℕ) (t : Bool) :
    (Thing.coins coin toCount t).grow n = .coins coin (toCount + n) t := rfl

theorem Slots.sum_modify {slots : Slots} {a : Node Thing} (v : Node Thing → ℕ) (g : Node Thing → Node Thing)
    (hget : slots[slot]? = some (some a)) :
    ((slots.modify slot (Option.map g)).map fun o => o.elim 0 v).sum + v a =
      (slots.map fun o => o.elim 0 v).sum + v (g a) :=
  sum_map_modify (fun o => o.elim 0 v) (Option.map g) hget

namespace Player

/-! ## The room that is counted -/

theorem innerMaxCount_ge (p : Player) (coin : Coin) (count : ℕ) (b : Bag Thing) :
    100 * roomIn true b ≤ containerMaxCount.innerMaxCount p coin count b := by
  induction b with
  | nil => exact Nat.zero_le _
  | cons x inside rest ihinside ihrest =>
    cases x with
    | container capacity weight inTrade =>
      simp only [roomIn, Thing.room, Thing.seen_true, if_true, seenWidth_true, containerMaxCount.innerMaxCount]
      omega
    | coins | other =>
      simp only [roomIn, Thing.room, containerMaxCount.innerMaxCount]
      omega

theorem slotMaxCount_ge (rules : Rules) (p : Player) (coin : Coin) (count : ℕ) (slot : ℕ) (o : Option (Node Thing)) :
    100 * o.elim 0 (nodeRoom true) ≤ p.slotMaxCount rules coin count slot o := by
  match o with
  | none => exact Nat.zero_le _
  | some (.coins c m t, inside) => exact Nat.zero_le _
  | some (.other weight t, inside) => exact Nat.zero_le _
  | some (.container capacity weight inTrade, inside) =>
    have hinside := innerMaxCount_ge p coin count inside
    simp only [Option.elim_some, nodeRoom, Thing.room, Thing.seen_true, if_true, seenWidth_true, slotMaxCount,
      containerMaxCount]
    omega

theorem sum_map_le_sum_mapIdx {β : Type*} {l : List β} {w : β → ℕ} {k : ℕ → β → ℕ} (h : ∀ i x, w x ≤ k i x) :
    (l.map w).sum ≤ (l.mapIdx k).sum := by
  induction l generalizing k with
  | nil => exact Nat.le_refl _
  | cons x rest ih =>
    rw [List.map_cons, List.sum_cons, List.mapIdx_cons, List.sum_cons]
    exact Nat.add_le_add (h 0 x) (ih fun i y => h (i + 1) y)

theorem queryMaxCount_ge (rules : Rules) (p : Player) (coin : Coin) (count : ℕ) :
    100 * p.room true ≤ p.queryMaxCount rules coin count := by
  have hsum := sum_map_le_sum_mapIdx (l := p.slots) (w := fun o => 100 * o.elim 0 (nodeRoom true))
    (slotMaxCount_ge rules p coin count)
  rwa [List.sum_map_mul_left] at hsum

/-! ## One place -/

/-- The count of the stack that coins are added to. -/
def Place.toCount? : Place → Option ℕ
  | .slotStack _ toCount | .stack _ _ _ toCount => some toCount
  | _ => none

theorem total_changeInside {a y : Node Thing} {h : Bag Thing → Bag Thing} (hslot : p.slots[slot]? = some (some a))
    (hlocate : a.locate path = some y) :
    (p.changeInside slot path h).slots.total f + y.2.total f = p.slots.total f + (h y.2).total f := by
  have houter := Slots.sum_modify (Node.total f) (Node.modifyAt h path) hslot
  have hinner := total_modifyAt (f := f) (h := h) hlocate
  simp only [changeInside, Slots.total]
  omega

theorem room_changeInside {a y : Node Thing} {h : Bag Thing → Bag Thing} {k : ℕ}
    (hslot : p.slots[slot]? = some (some a)) (hlocate : a.locate path = some y)
    (hle : nodeRoom trade y ≤ nodeRoom trade (y.1, h y.2) + k) :
    p.room trade ≤ (p.changeInside slot path h).room trade + k := by
  have houter := Slots.sum_modify (nodeRoom trade) (Node.modifyAt h path) hslot
  have hinner := nodeRoom_modifyAt hlocate hle
  simp only [changeInside, Player.room]
  omega

theorem total_addThing (count : ℕ) (hfits : p.Fits coin place) (hnew : place.toCount? = none)
    (hplace : place ≠ .nowhere) :
    (p.addThing coin count place).slots.total f = p.slots.total f + f (.coins coin count false) := by
  cases place with
  | slot slot =>
    have hset := sum_map_modify (fun o : Option (Node Thing) => o.elim 0 (Node.total f))
      (fun _ => some (.coins coin count false, .nil)) hfits
    rw [← List.set_eq_modify] at hset
    simpa [Node.total, Bag.total, addThing, Slots.total] using hset
  | inside slot path =>
    obtain ⟨a, y, -, -, hslot, hlocate, -⟩ := hfits
    have hinside := total_changeInside (f := f) (h := .cons (.coins coin count false) .nil) hslot hlocate
    simp only [Bag.total] at hinside
    simp only [addThing]
    omega
  | slotStack | stack => cases hnew
  | nowhere => exact absurd rfl hplace

theorem room_addThing (hfits : p.Fits coin place) : p.room trade ≤ (p.addThing coin count place).room trade + 1 := by
  cases place with
  | slot slot =>
    have hset := sum_map_modify (fun o : Option (Node Thing) => o.elim 0 (nodeRoom trade))
      (fun _ => some (.coins coin count false, .nil)) hfits
    rw [← List.set_eq_modify] at hset
    simp only [addThing, Player.room, Option.elim_none] at hset ⊢
    omega
  | inside slot path =>
    obtain ⟨a, y, -, -, hslot, hlocate, -⟩ := hfits
    exact room_changeInside hslot hlocate (nodeRoom_push y)
  | slotStack | stack | nowhere => exact Nat.le_succ _

theorem total_updateThing {toCount : ℕ} (hfits : p.Fits coin place) (hcount : place.toCount? = some toCount) :
    toCount < 100 ∧ ∃ t, (p.updateThing n place).slots.total f + f (.coins coin toCount t) =
      p.slots.total f + f (.coins coin (toCount + n) t) := by
  cases place with
  | slotStack slot m =>
    obtain rfl := Option.some.inj hcount
    obtain ⟨t, inside, hslot, hlt⟩ := hfits
    refine ⟨hlt, t, ?_⟩
    have hmodify := Slots.sum_modify (Node.total f) (fun a => (a.1.grow n, a.2)) hslot
    simp only [Node.total, Thing.grow_coins] at hmodify
    simp only [updateThing, Slots.total]
    omega
  | stack slot path index m =>
    obtain rfl := Option.some.inj hcount
    obtain ⟨a, y, t, inside, hslot, hlocate, hget, hlt⟩ := hfits
    refine ⟨hlt, t, ?_⟩
    have hinside := total_changeInside (f := f) (h := Bag.modify (fun a => (a.1.grow n, a.2)) index) hslot hlocate
    have hmodify := total_modify (f := f) (g := fun a => (a.1.grow n, a.2)) hget
    simp only [Node.total, Thing.grow_coins] at hmodify
    simp only [updateThing]
    omega
  | slot | inside | nowhere => cases hcount

theorem room_updateThing (n : ℕ) (trade : Bool) (hfits : p.Fits coin place) :
    p.room trade ≤ (p.updateThing n place).room trade := by
  cases place with
  | slotStack slot m =>
    obtain ⟨t, inside, hslot, -⟩ := hfits
    have hmodify := Slots.sum_modify (nodeRoom trade) (fun a => (a.1.grow n, a.2)) hslot
    rw [nodeRoom_grow] at hmodify
    simp only [updateThing, Player.room]
    omega
  | stack slot path index m =>
    obtain ⟨a, y, t, inside, hslot, hlocate, hget, -⟩ := hfits
    exact room_changeInside (k := 0) hslot hlocate (Nat.le_of_eq (nodeRoom_growAt hget).symm)
  | slot | inside | nowhere => exact Nat.le_refl _

/-! ## One stack -/

/-- The weight that the player is said to carry is the weight he carries. -/
def Settled (p : Player) : Prop := p.inventoryWeight = p.slots.total Thing.getWeight

/-- The player can carry so much more. -/
structure Bears (p : Player) (load : ℕ) : Prop where
  pickup : p.cannotPickupItem = false
  weighed : p.inventoryWeight ≤ p.slots.total Thing.getWeight
  strength : p.hasInfiniteCapacity = true ∨ p.slots.total Thing.getWeight + load ≤ p.capacity

/-- Some coins of each kind came to those of the player, with no more than a load. -/
structure Gained (p p' : Player) (gain : Coin → ℕ) (load : ℕ) : Prop where
  coins : ∀ c, p'.slots.total (Thing.units c) = p.slots.total (Thing.units c) + gain c
  heavier : p.slots.total Thing.getWeight ≤ p'.slots.total Thing.getWeight
  weight : p'.slots.total Thing.getWeight ≤ p.slots.total Thing.getWeight + load
  weighed : p.inventoryWeight ≤ p.slots.total Thing.getWeight → p'.inventoryWeight ≤ p'.slots.total Thing.getWeight
  pickup : p'.cannotPickupItem = p.cannotPickupItem
  infinite : p'.hasInfiniteCapacity = p.hasInfiniteCapacity
  capacity : p'.capacity = p.capacity

variable {p' p'' : Player} {gain gain' : Coin → ℕ} {load load' : ℕ}

theorem Gained.refl (p : Player) : p.Gained p 0 0 :=
  ⟨fun _ => rfl, Nat.le_refl _, Nat.le_refl _, id, rfl, rfl, rfl⟩

theorem Gained.trans (h : p.Gained p' gain load) (h' : p'.Gained p'' gain' load') :
    p.Gained p'' (gain + gain') (load + load') where
  coins c := by rw [h'.coins, h.coins, Pi.add_apply, Nat.add_assoc]
  heavier := h.heavier.trans h'.heavier
  weight := by
    have := h.weight
    have := h'.weight
    omega
  weighed hweighed := h'.weighed (h.weighed hweighed)
  pickup := h'.pickup.trans h.pickup
  infinite := h'.infinite.trans h.infinite
  capacity := h'.capacity.trans h.capacity

theorem Bears.mono (h : p.Bears load) (hle : load' ≤ load) : p.Bears load' :=
  ⟨h.pickup, h.weighed, h.strength.imp_right (Nat.le_trans (Nat.add_le_add_left hle _))⟩

theorem Bears.rest (h : p.Bears (load + load')) (hgained : p.Gained p' gain load) : p'.Bears load' where
  pickup := hgained.pickup.trans h.pickup
  weighed := hgained.weighed h.weighed
  strength := by
    rw [hgained.infinite, hgained.capacity]
    have := hgained.weight
    exact h.strength.imp_right fun hstrength => by omega

theorem Bears.hasCapacity (h : p.Bears (coinWeight * count)) : p.hasCapacity count = true := by
  have hweighed := h.weighed
  rcases h.strength with hinfinite | hstrength
  · simp [Player.hasCapacity, h.pickup, hinfinite]
  · cases hinfinite : p.hasInfiniteCapacity with
    | true => simp [Player.hasCapacity, h.pickup, hinfinite]
    | false =>
      simp only [Player.hasCapacity, getFreeCapacity, h.pickup, hinfinite, Bool.false_eq_true, if_false,
        decide_eq_true_eq]
      omega

theorem gained_updateInventoryWeight (h : p.Gained p' gain load) : p.Gained p'.updateInventoryWeight gain load :=
  ⟨h.coins, h.heavier, h.weight, fun _ => Nat.le_refl _, h.pickup, h.infinite, h.capacity⟩

theorem gained_addThing (hfits : p.Fits coin place) (hnew : place.toCount? = none) (hplace : place ≠ .nowhere)
    (hcount : 0 < count) :
    p.Gained (p.addThing coin count place).updateInventoryWeight (Pi.single coin count) (coinWeight * count) := by
  have hweight := total_addThing (f := Thing.getWeight) count hfits hnew hplace
  rw [Thing.getWeight, max_eq_right hcount] at hweight
  have hsame : (p.addThing coin count place).cannotPickupItem = p.cannotPickupItem ∧
      (p.addThing coin count place).hasInfiniteCapacity = p.hasInfiniteCapacity ∧
      (p.addThing coin count place).capacity = p.capacity := by
    cases place <;> exact ⟨rfl, rfl, rfl⟩
  refine ⟨?_, by simp only [updateInventoryWeight]; omega, Nat.le_of_eq hweight, fun _ => Nat.le_refl _, hsame.1,
    hsame.2.1, hsame.2.2⟩
  intro c
  have hunits := total_addThing (f := Thing.units c) count hfits hnew hplace
  rw [Thing.units] at hunits
  simpa [Pi.single_apply, updateInventoryWeight, eq_comm] using hunits

theorem gained_updateThing {toCount : ℕ} (hfits : p.Fits coin place) (hcount : place.toCount? = some toCount) :
    p.Gained (p.updateThing n place) (Pi.single coin n) (coinWeight * n) := by
  obtain ⟨-, t, hweight⟩ := total_updateThing (f := Thing.getWeight) (n := n) hfits hcount
  simp only [Thing.getWeight, coinWeight] at hweight
  have hsame : (p.updateThing n place).cannotPickupItem = p.cannotPickupItem ∧
      (p.updateThing n place).hasInfiniteCapacity = p.hasInfiniteCapacity ∧
      (p.updateThing n place).capacity = p.capacity ∧
      (p.updateThing n place).inventoryWeight = p.inventoryWeight := by
    cases place <;> exact ⟨rfl, rfl, rfl, rfl⟩
  have hheavier : p.slots.total Thing.getWeight ≤ (p.updateThing n place).slots.total Thing.getWeight := by omega
  refine ⟨?_, hheavier, ?_, fun hweighed => ?_, hsame.1, hsame.2.1, hsame.2.2.1⟩
  · intro c
    obtain ⟨-, t, hunits⟩ := total_updateThing (f := Thing.units c) (n := n) hfits hcount
    simp only [Thing.units] at hunits
    simp only [Pi.single_apply, eq_comm (a := c)]
    split at hunits
    · rename_i heq
      rw [if_pos heq]
      omega
    · rename_i hne
      rw [if_neg hne]
      omega
  · simp only [coinWeight]
    omega
  · rw [hsame.2.2.2]
    exact hweighed.trans hheavier

end Player

/-- A stack of coins was added without a loss, and took no more than one slot. -/
structure Added.Placed (p : Player) (coin : Coin) (count : ℕ) (added : Added) : Prop where
  noError : added.noError = true
  lost : added.lost = 0
  gained : p.Gained added.player (Pi.single coin count) (coinWeight * count)
  room : ∀ trade, p.room trade ≤ added.player.room trade + 1
  settled : added.player.Settled

/-- Where a slot is seen and the player can bear the coins, they are placed. -/
theorem addRounds_placed (rules : Rules) (coin : Coin) (fuel : ℕ) (hfuel : count < fuel) (hcount : 0 < count)
    (hle : count ≤ 100) (hroom : ∀ trade, 0 < p.room trade) (hbears : p.Bears (coinWeight * count)) :
    Added.Placed p coin count (addRounds rules coin fuel p count) := by
  induction fuel generalizing p count with
  | zero => cases hfuel
  | succ fuel ih =>
    obtain ⟨hfits, hadd, hplace⟩ := Player.queryDestination_found rules coin hbears.hasCapacity (hroom false)
    have hmax : count ≤ p.queryMaxCount rules coin count := by
      have hcounted := Player.queryMaxCount_ge rules p coin count
      have hroom := hroom true
      omega
    unfold addRounds
    generalize p.queryDestination rules coin count = place at hfits hadd hplace
    dsimp only
    rw [if_neg (by simp only [hadd, not_true_eq_false, false_or, not_lt]; exact hmax), min_eq_left hmax]
    cases place with
    | slot | inside =>
      exact ⟨rfl, rfl, Player.gained_addThing hfits rfl hplace hcount, fun _ => Player.room_addThing hfits, rfl⟩
    | nowhere => exact absurd rfl hplace
    | slotStack _ toCount | stack _ _ _ toCount =>
      have hlt : toCount < 100 := (Player.total_updateThing (f := fun _ => 0) (n := 0) hfits rfl).1
      have hgained := Player.gained_updateThing (n := min (100 - toCount) count) hfits rfl
      have hsame := fun trade => Player.room_updateThing (min (100 - toCount) count) trade hfits
      dsimp only
      split
      · -- the stack is full, and the rest is added by another call
        have hsplit : min (100 - toCount) count + (count - min (100 - toCount) count) = count :=
          Nat.add_sub_cancel' (min_le_right _ _)
        rw [← hsplit, Nat.mul_add] at hbears
        have hrest := ih (by omega) (by omega) (by omega) (fun trade => (hroom trade).trans_le (hsame trade))
          (hbears.rest hgained)
        have htrans := hgained.trans hrest.gained
        rw [← Pi.single_add, ← Nat.mul_add, hsplit] at htrans
        rw [hrest.noError, if_pos rfl]
        exact ⟨rfl, hrest.lost, htrans, fun trade => (hsame trade).trans (hrest.room trade), hrest.settled⟩
      · have hall : min (100 - toCount) count = count := by omega
        rw [hall] at hgained hsame
        rw [hall]
        exact ⟨rfl, rfl, Player.gained_updateInventoryWeight hgained,
          fun trade => (hsame trade).trans (Nat.le_succ _), rfl⟩

/-! ## A slot for each stack -/

/-- Where coins cannot be worn and no stack of them has room, they need a slot of a container. -/
theorem queryDestination_full (count : ℕ) (hrules : ∀ slots slot coin n, rules.belongs slots slot coin n = false)
    (hfull : p.slots.total (Thing.stackRoom coin) = 0) :
    (∃ slot path, p.queryDestination rules coin count = .inside slot path ∧ p.Fits coin (.inside slot path)) ∨
      p.queryDestination rules coin count = .nowhere := by
  obtain ⟨hfits, hcases⟩ := Player.queryDestination_cases rules p coin count
  rcases hcases with ⟨hworn, hadd⟩ | ⟨slot, path, hplace⟩ | ⟨slot, path, index, toCount, hplace⟩ | ⟨hplace, -⟩
  · generalize p.queryDestination rules coin count = place at hworn hadd
    cases place with
    | slot | slotStack => simp [Player.placeQueryAdd, Player.slotQueryAdd, hrules] at hadd
    | inside | stack | nowhere => cases hworn
  · rw [hplace] at hfits
    exact .inl ⟨slot, path, hplace, hfits⟩
  · rw [hplace] at hfits
    obtain ⟨hlt, t, htotal⟩ := Player.total_updateThing (f := Thing.stackRoom coin) (n := 100 - toCount) hfits rfl
    simp only [Thing.stackRoom, if_true] at htotal hfull
    omega
  · exact .inr hplace

theorem room_inside {path : List ℕ} (hfits : p.Fits coin (.inside slot path)) :
    (p.addThing coin count (.inside slot path)).room false + 1 = p.room false := by
  obtain ⟨a, y, capacity, weight, hslot, hlocate, halong, hy, hspace⟩ := hfits
  have houter := Slots.sum_modify (nodeRoom false) (Node.modifyAt (.cons (.coins coin count false) .nil) path) hslot
  have hinner := nodeRoom_modifyAt_eq (h := .cons (.coins coin count false) .nil) halong hlocate
  have hbefore : nodeRoom false y = (capacity - seenWidth false y.2) + roomIn false y.2 := by
    rw [nodeRoom, hy]
    rfl
  have hafter : nodeRoom false (y.1, .cons (.coins coin count false) .nil y.2) =
      (capacity - (1 + seenWidth false y.2)) + (0 + roomIn false y.2) := by
    rw [nodeRoom, hy]
    rfl
  simp only [Player.addThing, Player.changeInside, Player.room]
  omega

theorem addRounds_full (count : ℕ) (hrules : ∀ slots slot coin n, rules.belongs slots slot coin n = false)
    (hfull : p.slots.total (Thing.stackRoom coin) = 0) (fuel : ℕ) :
    (addRounds rules coin (fuel + 1) p count).noError = false ∨
      (addRounds rules coin (fuel + 1) p count).lost = count ∨
      (addRounds rules coin (fuel + 1) p count).player.room false + 1 = p.room false ∧
      ∀ c, (addRounds rules coin (fuel + 1) p count).player.slots.total (Thing.stackRoom c) =
        p.slots.total (Thing.stackRoom c) + (Thing.coins coin count false).stackRoom c := by
  unfold addRounds
  dsimp only
  split
  · exact .inl rfl
  · rcases queryDestination_full count hrules hfull with ⟨slot, path, hplace, hfits⟩ | hplace
    · rw [hplace]
      exact .inr (.inr ⟨room_inside hfits, fun c => Player.total_addThing _ hfits rfl nofun⟩)
    · rw [hplace]
      exact .inr (.inl rfl)

end ForgottenServer.Money.Carry
