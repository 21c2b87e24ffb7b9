import ForgottenServer.Money.Taking

/-! # Coin arithmetic

`removeMoney` takes exactly the amount and `addMoney` gives exactly the amount
when, and only when, every stack of coins that is made settles. -/
namespace ForgottenServer.Things
open ForgottenServer.Lib.Forest
namespace World
variable {rules : Rules} {maxItems : ℕ → ℕ} {trades : Trades} {w : World} {p money : ℕ}

/-- The answer tells whether the player has the amount. Then the player and his tile
have it less; else nothing changes. -/
def RemovesExactly (rules : Rules) (maxItems : ℕ → ℕ) (trades : Trades) (w : World) (p money : ℕ) : Prop :=
  ∃ ret w', w.removeMoney rules maxItems trades p money = some (ret, w') ∧ (ret = true ↔ money ≤ w.worth {.player p}) ∧
    (ret = true → w'.worth (w.home p) + money = w.worth (w.home p)) ∧ (ret = false → w' = w)

def AddsExactly (rules : Rules) (maxItems : ℕ → ℕ) (trades : Trades) (w : World) (p money : ℕ) : Prop :=
  ∃ w', w.addMoney rules maxItems trades p money = some w' ∧ w'.worth (w.home p) = w.worth (w.home p) + money

theorem changeSettles_zero (l : List (ℕ × ℕ)) : changeSettles rules maxItems trades p l w 0 = true := by
  cases l with
  | nil => rfl
  | cons e l =>
    have hchange : ∀ v : ℕ, (v - 0 % v) % v = 0 := fun v => by rw [Nat.zero_mod, Nat.sub_zero, Nat.mod_self]
    unfold changeSettles
    rw [if_neg (Nat.not_lt_zero _)]
    dsimp only
    rw [hchange]
    exact Bool.or_true _

theorem changeSettles_of_lt (l : List (ℕ × ℕ)) (h : (l.map Prod.fst).sum < money) :
    changeSettles rules maxItems trades p l w money = true := by
  induction l generalizing w money with
  | nil => rfl
  | cons e l ih =>
    rw [List.map_cons, List.sum_cons] at h
    unfold changeSettles
    rw [if_pos (by omega)]
    exact ih (by omega)

theorem removesExactly_iff (hsane : rules.Sane) (hcoined : rules.Coined) (horderly : Orderly rules w) (p money : ℕ) :
    RemovesExactly rules maxItems trades w p money ↔
      changeSettles rules maxItems trades p (w.moneyMap p) w money = true := by
  have hsum : w.getMoney p = w.worth {.player p} := coinsOf_sum hcoined horderly.toTidy p
  unfold RemovesExactly
  by_cases hzero : money = 0
  · rw [removeMoney, if_pos hzero, hzero]
    exact iff_of_true ⟨true, w, rfl, by simp, fun _ => rfl, nofun⟩ (changeSettles_zero _)
  rcases removeMoney_spec maxItems trades hsane hcoined horderly subset_rfl hzero with
    ⟨hlt, hremove⟩ | ⟨hle, w', hremove, -, hexact⟩
  · have hmap : ((w.moneyMap p).map Prod.fst).sum = w.getMoney p :=
      ((List.perm_insertionSort _ _).map Prod.fst).sum_eq
    rw [hremove]
    refine iff_of_true ⟨false, w, rfl, ?_, nofun, fun _ => rfl⟩ (changeSettles_of_lt _ (by omega))
    simpa [← hsum] using hlt
  · rw [hremove, ← hexact]
    constructor
    · rintro ⟨ret, _, ⟨⟩, -, hworth, -⟩
      exact hworth rfl
    · exact fun hworth => ⟨true, w', rfl, by simpa [← hsum] using hle, fun _ => hworth, nofun⟩

theorem addsExactly_iff (hsane : rules.Sane) (hcoined : rules.Coined) (htidy : Tidy rules w) (p : ℕ)
    (hmoney : money < 4294970000) :
    AddsExactly rules maxItems trades w p money ↔ w.moneySettles rules maxItems trades p money = true := by
  obtain ⟨w', hadd, ids, gain, hgains, -, -, hexact⟩ :=
    addMoney_grows maxItems trades hsane hcoined htidy subset_rfl hmoney
  have hworth := hgains.worth hcoined
  change _ = _ + unitsWorth gain at hworth
  unfold AddsExactly
  rw [hadd, ← hexact]
  constructor
  · rintro ⟨_, ⟨⟩, h⟩
    omega
  · rintro rfl
    exact ⟨w', rfl, hworth⟩

/-- Money is exact when the coins that are given settle. From `4294970000` on the
product with the number of crystal coins does not fit into 32 bits. -/
theorem money_exact_iff (hsane : rules.Sane) (hcoined : rules.Coined) (htidy : Tidy rules w)
    (hparent : ∀ c x, x ∈ w.children c → (w.item x).parent = some c) (p money : ℕ) :
    (RemovesExactly rules maxItems trades w p money ↔
      changeSettles rules maxItems trades p (w.moneyMap p) w money = true) ∧
    (money < 4294970000 →
      (AddsExactly rules maxItems trades w p money ↔ w.moneySettles rules maxItems trades p money = true)) :=
  ⟨removesExactly_iff hsane hcoined ⟨htidy, hparent⟩ p money, fun h => addsExactly_iff hsane hcoined htidy p h⟩

/-! ## A backpack in a trade -/

/-- Bags and the three kinds of coins. -/
def bagsAndCoins : Rules where
  items id := if coinWorth id ≠ 0 then { id, stackable := true } else { id, group := .container }

/-- A player with a stack of coins in his backpack; the others have nothing, and stand on a tile. -/
def wallet (id count : ℕ) (tradeItem : Option ℕ) : World where
  item
    | 0 => { id := 1988, parent := some (.player 0), container := some { itemlist := [1] } }
    | 1 => { id, count, parent := some (.container 0) }
    | _ => { id := 0 }
  player
    | 0 => { inventory := fun slot => if slot = 3 then some 0 else none, tradeItem }
    | _ => { inventory := fun _ => none, tile := some 0 }
  tile _ := {}
  next := 2

/-- A player with a platinum coin in his backpack. -/
def purse (tradeItem : Option ℕ) : World := wallet platinumCoin 1 tradeItem

theorem bagsAndCoins_coin {id : ℕ} (h : (bagsAndCoins.items id).stackable = true) : coinWorth id ≠ 0 := by
  unfold bagsAndCoins at h
  dsimp only at h
  split at h
  · assumption
  · cases h

theorem bagsAndCoins_sane : bagsAndCoins.Sane := by
  constructor
  all_goals
    intro id h
    rcases coinWorth_cases (bagsAndCoins_coin h) with rfl | rfl | rfl <;> decide

theorem bagsAndCoins_coined : bagsAndCoins.Coined := by
  constructor
  all_goals
    intro id h
    rcases coinWorth_cases h with rfl | rfl | rfl <;> decide

theorem bagsAndCoins_plain (w : World) (x : ℕ) :
    w.replaces bagsAndCoins x = false ∧ w.isMagicField bagsAndCoins x = false := by
  unfold replaces isSplash isMagicField type bagsAndCoins
  dsimp only
  split <;> exact ⟨rfl, rfl⟩

section Wallet
variable {id count : ℕ} {tradeItem : Option ℕ}

theorem wallet_children {c : Cylinder} {x : ℕ} (h : x ∈ (wallet id count tradeItem).children c) :
    c = .player 0 ∧ x = 0 ∨ c = .container 0 ∧ x = 1 := by
  cases c with
  | container d =>
    rcases d with _ | _ | d
    · exact .inr ⟨rfl, List.mem_singleton.mp h⟩
    all_goals cases h
  | player p =>
    rcases p with _ | p
    · exact .inl ⟨rfl, by simpa [children, wallet, slots] using h⟩
    · simp [children, wallet] at h
  | tile t => cases h

theorem wallet_orderly (tradeItem : Option ℕ) (hone : 1 ≤ count) (hhundred : count ≤ 100) :
    Orderly bagsAndCoins (wallet id count tradeItem) where
  itemlist c := by rcases c with _ | _ | c <;> simp [itemlist, wallet]
  inventory p i _ j _ x hi hj := by
    rcases p with _ | p
    · simp only [wallet, Option.ite_none_right_eq_some] at hi hj
      exact hi.1.trans hj.1.symm
    · cases hi
  tile t := List.nodup_nil
  ground t g hg := by cases hg
  top t x hx := by cases hx
  holder c c' x hx hx' := by
    rcases wallet_children hx with ⟨rfl, rfl⟩ | ⟨rfl, rfl⟩ <;>
      rcases wallet_children hx' with ⟨rfl, h⟩ | ⟨rfl, h⟩ <;> first | rfl | cases h
  known c x hx := by
    rcases wallet_children hx with ⟨-, rfl⟩ | ⟨-, rfl⟩
    · exact Nat.two_pos
    · exact Nat.one_lt_two
  fresh x hx := by
    obtain ⟨x, rfl⟩ := Nat.exists_eq_add_of_le' hx
    rfl
  leaf x hx := by
    rcases x with _ | _ | x
    · cases hx
    · rfl
    · rfl
  count x hx := by
    rcases x with _ | _ | x
    · cases hx
    · exact hhundred
    · cases hx
  capacity x c hc := by
    rcases x with _ | _ | x <;> cases hc
    decide
  storeInbox x c hc _ := by
    rcases x with _ | _ | x <;> cases hc
    rfl
  stacked c x hx hstack := by
    rcases wallet_children hx with ⟨-, rfl⟩ | ⟨-, rfl⟩
    · cases hstack
    · exact hone
  plain x hx := by
    rw [(bagsAndCoins_plain _ x).1] at hx
    cases hx
  floor t g hg := by cases hg
  field x hx := by
    rw [(bagsAndCoins_plain _ x).2] at hx
    cases hx
  parent c x hx := by rcases wallet_children hx with ⟨rfl, rfl⟩ | ⟨rfl, rfl⟩ <;> rfl

theorem wallet_worth_le (S : Set Cylinder) :
    (wallet id count tradeItem).worth S ≤ ({ id, count } : Item).getWorth := by
  unfold worth total
  calc ∑ x ∈ Finset.range 2, Set.indicator { x | (wallet id count tradeItem).IsBelow S x }
        (fun x => ((wallet id count tradeItem).item x).getWorth) x
      ≤ ∑ x ∈ Finset.range 2, ((wallet id count tradeItem).item x).getWorth :=
        Finset.sum_le_sum fun x _ => Set.indicator_le_self' (fun _ _ => Nat.zero_le _) x
    _ = ({ id, count } : Item).getWorth := by
        rw [Finset.sum_range_succ, Finset.sum_range_one]
        exact Nat.zero_add _

end Wallet

theorem purse_orderly (tradeItem : Option ℕ) : Orderly bagsAndCoins (purse tradeItem) :=
  wallet_orderly tradeItem le_rfl (by decide)

theorem purse_exact : RemovesExactly bagsAndCoins (fun _ => 20) {} (purse none) 0 5 ∧
      AddsExactly bagsAndCoins (fun _ => 20) {} (purse none) 0 5 :=
  have h := @money_exact_iff bagsAndCoins (fun _ => 20) {} (purse none) bagsAndCoins_sane bagsAndCoins_coined
    (purse_orderly none).toTidy (purse_orderly none).parent 0 5
  ⟨h.1.mpr (by decide +kernel), (h.2 (by norm_num)).mpr (by decide +kernel)⟩

/-- The backpack is offered in a trade: the platinum coin in it is found, and the
change for it is nowhere. -/
theorem change_is_lost : ¬ ∀ (rules : Rules) (maxItems : ℕ → ℕ) (trades : Trades) (w : World) (p money : ℕ),
    rules.Sane → rules.Coined → Tidy rules w →
    (∀ c x, x ∈ w.children c → (w.item x).parent = some c) → money < 2 ^ 64 →
      RemovesExactly rules maxItems trades w p money ∧ AddsExactly rules maxItems trades w p money := by
  intro h
  have hpurse := purse_orderly (some 0)
  have hexact := (h bagsAndCoins (fun _ => 20) {} (purse (some 0)) 0 5 bagsAndCoins_sane bagsAndCoins_coined
    hpurse.toTidy hpurse.parent (by norm_num)).1
  have hsettles := (removesExactly_iff bagsAndCoins_sane bagsAndCoins_coined hpurse 0 5).mp hexact
  exact absurd hsettles (by decide +kernel)

end World
end ForgottenServer.Things
