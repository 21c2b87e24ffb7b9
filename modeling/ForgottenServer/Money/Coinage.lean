import ForgottenServer.Money.Payment
import ForgottenServer.Things.Gains
import ForgottenServer.Things.Transformed

/-! # What coins are worth

The worth of what lies below some cylinders, and how a new stack of coins that is
added adds to it. -/
namespace ForgottenServer.Things
open ForgottenServer.Lib.Forest

/-- What one coin of a kind is worth. -/
def coinWorth (id : ℕ) : ℕ :=
  if id = goldCoin then 1 else if id = platinumCoin then 100 else if id = crystalCoin then 10000 else 0

/-- The coins are plain stacks. -/
structure Rules.Coined (rules : Rules) : Prop where
  stackable : ∀ id, coinWorth id ≠ 0 → (rules.items id).stackable = true
  group : ∀ id, coinWorth id ≠ 0 → (rules.items id).group = .none
  type : ∀ id, coinWorth id ≠ 0 → (rules.items id).type = .none
  id : ∀ id, coinWorth id ≠ 0 → (rules.items id).id = id

theorem coinWorth_cases {id : ℕ} (h : coinWorth id ≠ 0) : id = goldCoin ∨ id = platinumCoin ∨ id = crystalCoin := by
  unfold coinWorth at h
  split at h
  · exact .inl ‹_›
  split at h
  · exact .inr (.inl ‹_›)
  split at h
  · exact .inr (.inr ‹_›)
  · exact absurd rfl h

theorem coinWorth_le (id : ℕ) : coinWorth id ≤ 10000 := by
  unfold coinWorth
  repeat' split
  all_goals omega

theorem Item.getWorth_eq (x : Item) : x.getWorth = x.count * coinWorth x.id := by
  unfold Item.getWorth coinWorth
  repeat' split
  all_goals omega

namespace World
variable {rules : Rules} {maxItems : ℕ → ℕ} {w w' w'' : World} {S : Set Cylinder}

noncomputable def worth (w : World) (S : Set Cylinder) : ℕ :=
  total (Finset.range w.next) { x | w.IsBelow S x } fun x => (w.item x).getWorth

theorem getWorth_amount (hcoined : rules.Coined) (x : ℕ) :
    (w.item x).getWorth = w.amount rules goldCoin x + 100 * w.amount rules platinumCoin x +
      10000 * w.amount rules crystalCoin x := by
  have hstack : coinWorth (w.item x).id ≠ 0 → w.isStackable rules x = true := hcoined.stackable _
  rw [Item.getWorth_eq]
  unfold amount
  by_cases hcoin : coinWorth (w.item x).id = 0
  · have hgold : (w.item x).id ≠ goldCoin := fun h => by rw [h] at hcoin; cases hcoin
    have hplatinum : (w.item x).id ≠ platinumCoin := fun h => by rw [h] at hcoin; cases hcoin
    have hcrystal : (w.item x).id ≠ crystalCoin := fun h => by rw [h] at hcoin; cases hcoin
    rw [hcoin, if_neg hgold, if_neg hplatinum, if_neg hcrystal, Nat.mul_zero]
  · rw [hstack hcoin]
    rcases coinWorth_cases hcoin with hid | hid | hid <;> rw [hid] <;>
      simp [coinWorth, goldCoin, platinumCoin, crystalCoin] <;> omega

theorem worth_eq_units (hcoined : rules.Coined) (w : World) (S : Set Cylinder) :
    w.worth S = w.units rules S goldCoin + 100 * w.units rules S platinumCoin +
      10000 * w.units rules S crystalCoin := by
  unfold worth units total
  rw [Finset.mul_sum, Finset.mul_sum, ← Finset.sum_add_distrib, ← Finset.sum_add_distrib]
  refine Finset.sum_congr rfl fun x _ => ?_
  by_cases hx : x ∈ { x | w.IsBelow S x }
  · simp only [Set.indicator_of_mem hx]
    exact getWorth_amount hcoined x
  · simp only [Set.indicator_of_notMem hx, Nat.mul_zero, Nat.add_zero]

theorem worth_mono {S' : Set Cylinder} (w : World) (hS : S ⊆ S') : w.worth S ≤ w.worth S' := by
  have hsub : { x | w.IsBelow S x } ⊆ { x | w.IsBelow S' x } := fun x hx => IsBelow.grow hx hS fun _ _ h => h
  unfold worth total
  refine Finset.sum_le_sum fun x _ => ?_
  exact Set.indicator_le_indicator_of_subset hsub (fun _ => Nat.zero_le _) x

theorem Gains.worth {ids : Set ℕ} {gain : ℕ → ℕ} (hcoined : rules.Coined) (h : Gains rules w w' S ids gain) :
    w'.worth S = w.worth S + (gain goldCoin + 100 * gain platinumCoin + 10000 * gain crystalCoin) := by
  rw [worth_eq_units hcoined, worth_eq_units hcoined, h.units, h.units, h.units]
  omega

theorem worth_single {id : ℕ} (hcoin : coinWorth id ≠ 0) (k : ℕ) :
    (Pi.single id k : ℕ → ℕ) goldCoin + 100 * (Pi.single id k : ℕ → ℕ) platinumCoin +
      10000 * (Pi.single id k : ℕ → ℕ) crystalCoin = k * coinWorth id := by
  rcases coinWorth_cases hcoin with rfl | rfl | rfl <;>
    simp [coinWorth, goldCoin, platinumCoin, crystalCoin] <;> omega

/-! ## New coins -/

theorem createItem_coin (maxItems : ℕ → ℕ) (hsane : rules.Sane) (hcoined : rules.Coined) {id n : ℕ}
    (hcoin : coinWorth id ≠ 0) (hn : n ≠ 0) (hn' : n ≤ 100) :
    ∃ w', w.createItem rules maxItems id n = some w' ∧ Created w w' n ∧ (w'.item w.next).id = id := by
  have hstack := hcoined.stackable id hcoin
  have hfluid := hsane.fluid id hstack
  have hzero : id ≠ 0 := by
    rintro rfl
    exact hcoin rfl
  have hmade : Decay.Item.createId rules.plainTypes id = id := hsane.made id hstack
  have hcreate : Decay.Item.create rules.plainTypes id n = some (Decay.Item.new rules.plainTypes id n) := by
    unfold Decay.Item.create
    rw [hmade]
    simp [Rules.plainTypes, hcoined.group id hcoin, hcoined.type id hcoin, hcoined.id id hcoin, hzero, hn]
  have hcount : (Decay.Item.new rules.plainTypes id n).count = n := by
    have hmod : n % 2 ^ 8 = n := Nat.mod_eq_of_lt (by omega)
    unfold Decay.Item.new
    have hnot : (rules.plainTypes id).isFluid = false := hfluid
    have hyes : (rules.plainTypes id).stackable = true := hstack
    dsimp only
    simp only [hnot, hyes, hn, hmod, Bool.false_eq_true, if_false, if_true, ne_eq, not_false_eq_true]
    split <;> rfl
  have hcontainer : newContainer rules maxItems id = none := by
    simp [newContainer, hcoined.group id hcoin, hcoined.type id hcoin]
  rw [createItem, hcreate, Option.map_some]
  refine ⟨_, rfl, ⟨rfl, ?_, ?_, ?_, rfl, rfl⟩, ?_⟩
  · exact fun x hx => Function.update_of_ne hx _ _
  · simp only [Function.update_self, hcount]
  · simp only [Function.update_self, hcontainer]
  · simp only [Function.update_self]
    exact new_id rules.plainTypes id n

theorem plain_of_coin (hcoined : rules.Coined) {x : ℕ} (hcoin : coinWorth (w.item x).id ≠ 0) :
    w.isStackable rules x = true ∧ w.replaces rules x = false ∧ w.isMagicField rules x = false := by
  refine ⟨hcoined.stackable _ hcoin, ?_, ?_⟩
  · simp [replaces, isSplash, isMagicField, type, hcoined.group _ hcoin, hcoined.type _ hcoin]
  · simp [isMagicField, type, hcoined.type _ hcoin]

end World
end ForgottenServer.Things
