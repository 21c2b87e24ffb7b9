import ForgottenServer.Money.Taking

/-! # Coins of one kind

`player:removeItem` and `player:addItem` with coins. What is removed is looked for
in the slots and in all that is in a container there; what is added comes in stacks
of up to a hundred, and what the player has no room for goes to his tile. -/
namespace ForgottenServer.Things
open ForgottenServer.Lib.Forest ForgottenServer.Lib.Traversal ForgottenServer.Lib.Binary64

inductive Coin
  | gold | platinum | crystal
  deriving DecidableEq, Repr

def Coin.id : Coin → ℕ
  | .gold => goldCoin
  | .platinum => platinumCoin
  | .crystal => crystalCoin

def Coin.worth : Coin → ℕ
  | .gold => 1
  | .platinum => 100
  | .crystal => 10000

theorem coinWorth_id (k : Coin) : coinWorth k.id = k.worth := by cases k <;> rfl

theorem coinWorth_ne_zero (k : Coin) : coinWorth k.id ≠ 0 := by cases k <;> decide

namespace World
variable (rules : Rules) (maxItems : ℕ → ℕ) (trades : Trades) (w : World)

/-! ## Removing -/

/-- The items that `Player::removeItemOfType` looks at, in their order. -/
def searched (itemId p : ℕ) : List ℕ :=
  (w.children (.player p)).flatMap fun r =>
    if (w.item r).id = itemId then [r]
    else if (w.item r).container.isSome then w.contents r
    else []

/-- The items of the type, until they suffice. -/
def collect (itemId amount : ℕ) : List ℕ → ℕ → Option (List ℕ)
  | [], _ => none
  | r :: l, count =>
    if (w.item r).id = itemId ∧ (w.item r).count ≠ 0 then
      let count := (count + (w.item r).count) % 2 ^ 32
      if amount ≤ count then some [r] else (collect itemId amount l count).map (r :: ·)
    else collect itemId amount l count

/-- `Game::internalRemoveItems` of stackable items. -/
def internalRemoveItems : List ℕ → World → ℕ → World
  | [], w, _ => w
  | r :: itemList, w, amount =>
    if amount < (w.item r).count then w.internalRemoveItem rules trades r amount
    else
      internalRemoveItems itemList (w.internalRemoveItem rules trades r (w.item r).count) (amount - (w.item r).count)

/-- `Player::removeItemOfType` of a stackable type: the answer and the world. -/
def removeItemOfType (itemId amount p : ℕ) : Bool × World :=
  if amount = 0 then (true, w)
  else match w.collect itemId amount (w.searched itemId p) 0 with
    | none => (false, w)
    | some itemList => (true, internalRemoveItems rules trades itemList w amount)

/-! ## Adding -/

/-- An item is added to the tile of the player; whose trade offers the stack that it is
merged with has it closed. -/
def addToTile (p r : ℕ) : Option (ReturnValue × World) :=
  match (w.player p).tile with
  | none => some (.notPossible, w)
  | some t => do
    let flags : Flags := { noLimit := true }
    let added ← w.internalAddItem rules (.tile t) r whereEver flags false
    return (added.ret, added.world.closeTrades trades (w.tradeMerged rules trades t r flags))

/-- `Game::internalPlayerAddItem` with `dropOnMap`. -/
def internalPlayerAddItem (p r : ℕ) : Option (ReturnValue × World) := do
  let added ← w.internalAddItem rules (.player p) r whereEver {} false
  let w' ← if added.remainderCount ≠ 0 then do
      let made ← added.world.createItem rules maxItems (w.item r).id added.remainderCount
      (made.addToTile rules trades p added.world.next).map Prod.snd
    else some added.world
  if added.ret ≠ .noError then w'.addToTile rules trades p r else return (.noError, w')

/-- The loop of `luaPlayerAddItem` for a stackable type. It ends at an error. -/
def addItems (itemId p : ℕ) : ℕ → World → ℤ → Option World
  | 0, w, _ => some w
  | itemCount + 1, w, subType =>
    let stackCount := min subType 100
    match w.createItem rules maxItems itemId (stackCount % 2 ^ 16).toNat with
    | none => some w
    | some w' => do
      let (ret, w') ← w'.internalPlayerAddItem rules maxItems trades p w.next
      if ret ≠ .noError then return w' else addItems itemId p itemCount w' (subType - stackCount)

/-! ## From scripts -/

/-- `player:removeItem(itemId, count)`. -/
def removeItem (k : Coin) (count : Double) (p : ℕ) : Bool × World :=
  w.removeItemOfType rules trades k.id count.toUInt32 p

/-- `player:addItem(itemId, count)`; the number of stacks is computed in single precision. -/
def addItem (k : Coin) (count : Double) (p : ℕ) : Option World :=
  addItems rules maxItems trades k.id p ⌈Double.floatDiv count.toInt32 100⌉.toNat w count.toInt32

end World

namespace World
variable {rules : Rules} {maxItems : ℕ → ℕ} {trades : Trades} {w w' : World} {S : Set Cylinder} {p r id n : ℕ}

/-! ## The search -/

theorem iterate_eq (fuel : ℕ) (l : List ℕ) :
    w.iterate fuel l = (visits w.itemlist (fun c => w.itemlist c ≠ []) fuel l).flatMap w.itemlist := by
  induction fuel generalizing l with
  | zero => rfl
  | succ fuel ih =>
    cases l with
    | nil => rfl
    | cons c l => rw [iterate, visits, List.flatMap_cons, ih]

/-- An item in a slot, and what lies in an item. -/
def inSlot (w : World) (r : ℕ) : Option ℕ → ℕ → Prop
  | none, x => x = r
  | some c, x => x ∈ w.itemlist c

theorem not_inside (htidy : Tidy rules w) (hr : r ∈ w.children (.player p)) (c : ℕ) : r ∉ w.itemlist c :=
  fun hc => by cases htidy.holder _ (.container c) r hr hc

theorem listed_slot (htidy : Tidy rules w) (hr : r ∈ w.children (.player p)) :
    Listed some (w.inSlot r) {none} [r] w.itemlist fun c => w.itemlist c ≠ [] where
  mem_start x := by simp [inSlot]
  mem_inside x y := Iff.rfl
  entered x y hy := by simpa using List.ne_nil_of_mem hy
  one c c' x hx hx' := by
    cases c with
    | none =>
      cases c' with
      | none => rfl
      | some d => exact absurd ((hx : x = r) ▸ hx') (not_inside htidy hr d)
    | some c =>
      cases c' with
      | none => exact absurd ((hx' : x = r) ▸ hx) (not_inside htidy hr c)
      | some d => cases htidy.holder (.container c) (.container d) x hx hx'; rfl
  injective _ _ := Option.some.inj
  outside x := by simp
  nodup_start := List.nodup_singleton r
  nodup_inside := htidy.itemlist

theorem below_of_slot {x : ℕ} (hr : r ∈ w.children (.player p)) (h : Below some (w.inSlot r) {none} x) :
    w.IsBelow {.player p} x := by
  induction h with
  | root hc hx =>
    rw [Set.mem_singleton_iff.mp hc] at hx
    exact .root rfl ((hx : _ = r) ▸ hr)
  | inside _ hx ih => exact .inside ih hx

theorem slot_eq {x r' : ℕ} (htidy : Tidy rules w) (hr : r ∈ w.children (.player p)) (hr' : r' ∈ w.children (.player p))
    (h : Below some (w.inSlot r) {none} x) (h' : Below some (w.inSlot r') {none} x) : r = r' := by
  induction h with
  | root hc hx =>
    rw [Set.mem_singleton_iff.mp hc] at hx
    obtain rfl : _ = r := hx
    cases h' with
    | root hc' hx' =>
      rw [Set.mem_singleton_iff.mp hc'] at hx'
      exact hx'
    | inside _ hx' => exact absurd hx' (not_inside htidy hr _)
  | inside _ hx ih =>
    cases h' with
    | root hc' hx' =>
      rw [Set.mem_singleton_iff.mp hc'] at hx'
      exact absurd hx ((hx' : _ = r') ▸ not_inside htidy hr' _)
    | inside hy' hx' =>
      cases htidy.holder (.container _) (.container _) _ hx hx'
      exact ih hy'

theorem contents_spec (htidy : Tidy rules w) (hr : r ∈ w.children (.player p)) :
    (r :: w.contents r).Nodup ∧ ∀ x ∈ r :: w.contents r, Below some (w.inSlot r) {none} x := by
  have hs : ∀ x, Below some (w.inSlot r) {none} x → x ∈ Finset.range w.next := by
    intro x hx
    rw [Finset.mem_range]
    cases below_of_slot hr hx with
    | root _ hx => exact htidy.known _ x hx
    | inside _ hx => exact htidy.known _ x hx
  have hfuel : (Finset.range w.next).card ≤ w.depth := by
    rw [Finset.card_range]
    exact Nat.le_add_right _ _
  have hwalk : r :: w.contents r = [r] ++ (visits w.itemlist (fun c => w.itemlist c ≠ []) w.depth
      ([r].filter fun c => w.itemlist c ≠ [])).flatMap w.itemlist := by
    rw [contents, iterate_eq, List.singleton_append, List.cons_inj_right]
    by_cases hempty : w.itemlist r = []
    · simp [hempty, visits, depth]
    · simp [hempty]
  rw [hwalk]
  exact ⟨nodup_walk (listed_slot htidy hr) hs hfuel, fun x hx => (mem_walk_iff (listed_slot htidy hr) hs hfuel).mp hx⟩

theorem searched_spec (htidy : Tidy rules w) (itemId p : ℕ) :
    (w.searched itemId p).Nodup ∧ ∀ x ∈ w.searched itemId p, w.IsBelow {.player p} x := by
  have hpart : ∀ r ∈ w.children (.player p), ((if (w.item r).id = itemId then [r]
      else if (w.item r).container.isSome then w.contents r else []) : List ℕ).Sublist (r :: w.contents r) := by
    intro r _
    split
    · simp
    split
    · exact List.sublist_cons_self r _
    · exact List.nil_sublist _
  refine ⟨List.nodup_flatMap.mpr ⟨fun r hr => (hpart r hr).nodup (contents_spec htidy hr).1, ?_⟩, fun x hx => ?_⟩
  · refine (inventory_nodup htidy.toNeat p).imp_of_mem fun {r r'} hr hr' hne => ?_
    intro x hx hx'
    exact hne (slot_eq htidy hr hr' ((contents_spec htidy hr).2 x ((hpart r hr).subset hx))
      ((contents_spec htidy hr').2 x ((hpart r' hr').subset hx')))
  · obtain ⟨r, hr, hx⟩ := List.mem_flatMap.mp hx
    exact below_of_slot hr ((contents_spec htidy hr).2 x ((hpart r hr).subset hx))

theorem collect_spec {amount : ℕ} (l : List ℕ) (count : ℕ) {itemList : List ℕ}
    (h : w.collect id amount l count = some itemList) :
    itemList.Sublist l ∧ (∀ r ∈ itemList, (w.item r).id = id ∧ (w.item r).count ≠ 0) ∧
      amount ≤ count + (itemList.map fun r => (w.item r).count).sum := by
  induction l generalizing count itemList with
  | nil => cases h
  | cons r l ih =>
    unfold collect at h
    split at h
    · rename_i hitem
      have hmod := Nat.mod_le (count + (w.item r).count) (2 ^ 32)
      dsimp only at h
      split at h
      · obtain rfl := Option.some.inj h
        refine ⟨by simp, by simpa using hitem, ?_⟩
        simp only [List.map_cons, List.map_nil, List.sum_cons, List.sum_nil]
        omega
      · obtain ⟨rest, hrest, rfl⟩ := Option.map_eq_some_iff.mp h
        obtain ⟨hsub, hall, hsum⟩ := ih _ hrest
        refine ⟨hsub.cons_cons r, List.forall_mem_cons.mpr ⟨hitem, hall⟩, ?_⟩
        simp only [List.map_cons, List.sum_cons]
        omega
    · obtain ⟨hsub, hall, hsum⟩ := ih _ h
      exact ⟨hsub.cons r, hall, hsum⟩

theorem internalRemoveItem_zero (trades : Trades) (r : ℕ) : w.internalRemoveItem rules trades r 0 = w := by
  unfold internalRemoveItem
  split
  · rfl
  · exact if_pos (queryRemove_zero _ _ _ _)

/-- The stacks that were collected are taken one by one, the last perhaps in part. -/
theorem internalRemoveItems_spec (trades : Trades) (hsane : rules.Sane) (hcoined : rules.Coined)
    (hcoin : coinWorth id ≠ 0) (l : List (ℕ × ℕ)) {amount : ℕ} (horderly : Orderly rules w) (h : Pending w S l)
    (hid : ∀ e ∈ l, (w.item e.2).id = id) (hle : amount * coinWorth id ≤ (l.map Prod.fst).sum) :
    ∃ w', internalRemoveItems rules trades (l.map Prod.snd) w amount = w' ∧ Orderly rules w' ∧
      w'.worth S + amount * coinWorth id = w.worth S ∧ ∀ p, w'.home p = w.home p := by
  induction l generalizing w amount with
  | nil =>
    obtain rfl : amount = 0 := (Nat.mul_eq_zero.mp (Nat.le_zero.mp hle)).resolve_right hcoin
    exact ⟨w, rfl, horderly, by omega, fun _ => rfl⟩
  | cons e l ih =>
    obtain ⟨hworth, hzero⟩ := h.worth e List.mem_cons_self
    have hkind := hid e List.mem_cons_self
    rw [Item.getWorth_eq, hkind] at hworth
    rw [List.map_cons, internalRemoveItems]
    by_cases hlt : amount < (w.item e.2).count
    · rw [if_pos hlt]
      by_cases hzero : amount = 0
      · rw [hzero, internalRemoveItem_zero]
        exact ⟨w, rfl, horderly, by omega, fun _ => rfl⟩
      · obtain ⟨c, hc, hmem, hreach⟩ := h.held e List.mem_cons_self
        have hstack := (plain_of_coin hcoined (hkind.symm ▸ hcoin)).1
        have hloses := internalRemoveItem_loses trades hsane horderly hc hstack hmem hzero hlt.le hreach
        refine ⟨_, rfl, hloses.orderly horderly, ?_, hloses.home⟩
        have hgone := hloses.worth hcoined
        rwa [hkind] at hgone
    · obtain ⟨w₁, hremove, horderly₁, hrest, hgone, hids, hhome⟩ := h.take trades hsane hcoined horderly
      have hsplit : (amount - (w.item e.2).count) * coinWorth id + e.1 = amount * coinWorth id := by
        rw [hworth, ← Nat.add_mul, Nat.sub_add_cancel (not_lt.mp hlt)]
      rw [List.map_cons, List.sum_cons] at hle
      rw [if_neg hlt, hremove]
      obtain ⟨w', hloop, horderly', htaken, hhome'⟩ := ih horderly₁ hrest
        (fun f hf => (hids f.2).trans (hid f (List.mem_cons_of_mem _ hf)))
        (show (amount - (w.item e.2).count) * coinWorth id ≤ _ by omega)
      exact ⟨w', hloop, horderly', by omega, fun p => (hhome' p).trans (hhome p)⟩

theorem removeItemOfType_spec (trades : Trades) (hsane : rules.Sane) (hcoined : rules.Coined) (k : Coin)
    (horderly : Orderly rules w) (hself : .player p ∈ S) (amount : ℕ) :
    w.removeItemOfType rules trades k.id amount p = (false, w) ∨
    ∃ w', w.removeItemOfType rules trades k.id amount p = (true, w') ∧ Orderly rules w' ∧
      w'.worth S + amount * k.worth = w.worth S ∧ ∀ q, w'.home q = w.home q := by
  have hcoin := coinWorth_ne_zero k
  rw [← coinWorth_id]
  unfold removeItemOfType
  by_cases hzero : amount = 0
  · exact .inr ⟨w, by rw [if_pos hzero], horderly, by rw [hzero, Nat.zero_mul, Nat.add_zero], fun _ => rfl⟩
  rw [if_neg hzero]
  cases hc : w.collect k.id amount (w.searched k.id p) 0 with
  | none => exact .inl rfl
  | some itemList =>
    obtain ⟨hsub, hall, hsum⟩ := collect_spec _ 0 hc
    obtain ⟨hnodup, hbelow⟩ := searched_spec horderly.toTidy k.id p
    have hsnd : (itemList.map fun r => ((w.item r).getWorth, r)).map Prod.snd = itemList := by
      rw [List.map_map]
      exact List.map_id _
    have hpending : Pending w S (itemList.map fun r => ((w.item r).getWorth, r)) := by
      refine ⟨hsnd.symm ▸ hsub.nodup hnodup, fun e he => ?_, fun e he => ?_⟩
      · obtain ⟨r, hr, rfl⟩ := List.mem_map.mp he
        refine ⟨rfl, ?_⟩
        rw [Item.getWorth_eq, (hall r hr).1]
        exact Nat.mul_ne_zero (hall r hr).2 hcoin
      · obtain ⟨r, hr, rfl⟩ := List.mem_map.mp he
        exact held_of_below hself (hbelow r (hsub.subset hr))
    have hworth : amount * coinWorth k.id ≤ ((itemList.map fun r => ((w.item r).getWorth, r)).map Prod.fst).sum := by
      have hmap : (itemList.map fun r => ((w.item r).getWorth, r)).map Prod.fst =
          itemList.map fun r => (w.item r).count * coinWorth k.id := by
        rw [List.map_map]
        exact List.map_congr_left fun r hr => by simp only [Function.comp, Item.getWorth_eq, (hall r hr).1]
      rw [hmap, List.sum_map_mul_right]
      exact Nat.mul_le_mul_right _ (by omega)
    obtain ⟨w', hloop, horderly', hgone, hhome⟩ := internalRemoveItems_spec trades hsane hcoined hcoin _ horderly
      hpending (fun e he => by obtain ⟨r, hr, rfl⟩ := List.mem_map.mp he; exact (hall r hr).1) hworth
    rw [hsnd] at hloop
    exact .inr ⟨w', by rw [← hloop], horderly', hgone, hhome⟩

/-! ## What arrives -/

/-- The tile of the player takes all of the item. -/
def tileSettles (rules : Rules) (w : World) (p r : ℕ) : Bool :=
  (w.player p).tile.any fun t =>
    w.isChecked rules (.tile t) r { noLimit := true } &&
      w.settled rules true (.tile t) r whereEver { noLimit := true }

/-- The player takes the item, with what is left over on his tile, or refuses it and his
tile takes it. -/
def itemSettles (rules : Rules) (maxItems : ℕ → ℕ) (w : World) (p r : ℕ) : Bool :=
  if w.isChecked rules (.player p) r {} then
    (w.internalAddItem rules (.player p) r whereEver {} false).any fun added =>
      if added.remainderCount ≠ 0 then
        (added.world.createItem rules maxItems (w.item r).id added.remainderCount).any fun made =>
          made.tileSettles rules p added.world.next
      else w.settled rules true (.player p) r whereEver {}
  else w.tileSettles rules p r

/-- Each stack of the loop settles. -/
def itemsSettle (rules : Rules) (maxItems : ℕ → ℕ) (trades : Trades) (itemId p : ℕ) : ℕ → World → ℤ → Bool
  | 0, _, _ => true
  | itemCount + 1, w, subType =>
    let stackCount := min subType 100
    (w.createItem rules maxItems itemId (stackCount % 2 ^ 16).toNat).any fun w' =>
      w'.itemSettles rules maxItems p w.next &&
        (w'.internalPlayerAddItem rules maxItems trades p w.next).all fun added =>
          itemsSettle rules maxItems trades itemId p itemCount added.2 (subType - stackCount)

theorem Offered.addToTile (trades : Trades) (hsane : rules.Sane) (hcoined : rules.Coined)
    (h : Offered rules w r id n) (hS : w.home p ⊆ S) :
    ∃ ret w', w.addToTile rules trades p r = some (ret, w') ∧ ∃ k ≤ n, Gains rules w w' S {id} (Pi.single id k) ∧
        (w.tileSettles rules p r = true → k = n ∧ ret = .noError) := by
  have hnothing : Gains rules w w S {id} (Pi.single id 0) := by
    rw [Pi.single_zero]
    exact .same h.tidy _ _
  unfold World.addToTile tileSettles
  cases ht : (w.player p).tile with
  | none => exact ⟨_, _, rfl, 0, Nat.zero_le _, hnothing, nofun⟩
  | some t =>
    obtain ⟨a, ha, hcheck, hsame, hgrow⟩ := h.internalAddItem { noLimit := true } hsane hcoined hS rfl
      (.inr ⟨t, ht, (rfl : Cylinder.tile t = .tile t)⟩)
    simp only [ha, Option.bind_eq_bind, Option.bind_some, Option.pure_def, Option.any_some, Bool.and_eq_true]
    refine ⟨_, _, rfl, ?_⟩
    by_cases hret : a.ret = .noError
    · obtain ⟨k, hk, hgains, hall, -⟩ := hgrow hret
      exact ⟨k, hk, hgains.after h.tidy (.closeTrades _) (.closeTrades _), fun hsettles => ⟨hall.mpr hsettles.2, hret⟩⟩
    · rw [(hsame hret).1]
      exact ⟨0, Nat.zero_le _, hnothing.after h.tidy (.closeTrades _) (.closeTrades _),
        fun hsettles => absurd (hcheck.mpr hsettles.1) hret⟩

theorem Offered.internalPlayerAddItem (maxItems : ℕ → ℕ) (trades : Trades) (hsane : rules.Sane)
    (hcoined : rules.Coined) (h : Offered rules w r id n) (hn : n ≤ 100) (hS : w.home p ⊆ S) :
    ∃ ret w', w.internalPlayerAddItem rules maxItems trades p r = some (ret, w') ∧
      ∃ k ≤ n, Gains rules w w' S {id} (Pi.single id k) ∧
        (w.itemSettles rules maxItems p r = true → k = n ∧ ret = .noError) := by
  obtain ⟨a, ha, hcheck, hsame, hgrow⟩ := h.internalAddItem {} hsane hcoined hS rfl
    (.inl (rfl : Cylinder.player p = .player p))
  unfold World.internalPlayerAddItem itemSettles
  simp only [ha, Option.bind_eq_bind, Option.bind_some, Option.pure_def, Option.any_some]
  by_cases hret : a.ret = .noError
  · obtain ⟨k, hk, hgains, hall, hrest⟩ := hgrow hret
    rw [if_pos (hcheck.mp hret)]
    simp only [hret, ne_eq, not_true_eq_false, if_false]
    by_cases hremainder : a.remainderCount = 0
    · simp only [hremainder, not_true_eq_false, if_false]
      exact ⟨_, _, rfl, k, hk, hgains, fun hsettles => ⟨hall.mpr hsettles, rfl⟩⟩
    · -- the rest is another stack, and goes to the tile
      have hsum := hrest hremainder
      obtain ⟨made, hcreate, hoffered, hmade⟩ := createItem_offered (w := a.world) maxItems hsane hcoined
        hgains.tidy h.coin hremainder (by omega)
      have hhome : made.home p ⊆ S := ((hmade ∅ ∅).home p).subset.trans ((hgains.home p).subset.trans hS)
      obtain ⟨ret, w', hadd, k', hk', hgains', hsettles'⟩ := hoffered.addToTile trades hsane hcoined hhome
      have hboth := (hgains.trans h.tidy (hmade S {id})).trans h.tidy hgains'
      rw [Set.union_self, Set.union_self, add_zero, ← Pi.single_add] at hboth
      simp only [hremainder, not_false_eq_true, if_true, h.id_eq, hcreate, hadd, Option.bind_some, Option.map_some,
        Option.any_some]
      exact ⟨_, _, rfl, k + k', by omega, hboth, fun hsettles => ⟨by rw [(hsettles' hsettles).1, hsum], rfl⟩⟩
  · obtain ⟨hworld, hremainder⟩ := hsame hret
    rw [if_neg fun hchecked => hret (hcheck.mpr hchecked)]
    simp only [hret, hworld, hremainder, ne_eq, not_true_eq_false, not_false_eq_true, if_false, if_true]
    exact h.addToTile trades hsane hcoined hS

theorem addItems_grows (maxItems : ℕ → ℕ) (trades : Trades) (hsane : rules.Sane) (hcoined : rules.Coined)
    (hcoin : coinWorth id ≠ 0) (itemCount : ℕ) {n : ℕ} (hn : (n + 99) / 100 = itemCount) (htidy : Tidy rules w)
    (hS : w.home p ⊆ S) :
    ∃ w', addItems rules maxItems trades id p itemCount w n = some w' ∧ ∃ k, Gains rules w w' S {id} (Pi.single id k) ∧
        (itemsSettle rules maxItems trades id p itemCount w n = true → k = n) := by
  induction itemCount generalizing w n with
  | zero =>
    refine ⟨w, rfl, 0, ?_, fun _ => by omega⟩
    rw [Pi.single_zero]
    exact .same htidy _ _
  | succ itemCount ih =>
    have hmin : min (n : ℤ) 100 = (min n 100 : ℕ) := by omega
    have hcast : ((min n 100 : ℕ) : ℤ) % 2 ^ 16 = (min n 100 : ℕ) := by omega
    have hsub : (n : ℤ) - (min n 100 : ℕ) = (n - min n 100 : ℕ) := by omega
    obtain ⟨w₁, hcreate, hoffered, hmade⟩ := createItem_offered (n := min n 100) maxItems hsane hcoined htidy
      hcoin (by omega) (by omega)
    obtain ⟨ret, w₂, hadd, k, hk, hgains, hsettles⟩ := hoffered.internalPlayerAddItem maxItems trades hsane hcoined
      (by omega) (((hmade ∅ ∅).home p).subset.trans hS)
    have hfirst := (hmade S {id}).trans htidy hgains
    rw [Set.union_self, zero_add] at hfirst
    unfold addItems itemsSettle
    dsimp only
    rw [hmin, hcast, hsub, Int.toNat_natCast]
    simp only [hcreate, hadd, Option.bind_eq_bind, Option.bind_some, Option.pure_def, Option.any_some,
      Option.all_some, Bool.and_eq_true]
    by_cases hret : ret = .noError
    · obtain ⟨w', hloop, k', hgains', hrest⟩ := ih (by omega : (n - min n 100 + 99) / 100 = itemCount) hgains.tidy
        ((hfirst.home p).subset.trans hS)
      have hboth := hfirst.trans htidy hgains'
      rw [Set.union_self, ← Pi.single_add] at hboth
      rw [if_neg (not_not.mpr hret)]
      exact ⟨w', hloop, k + k', hboth, fun ⟨hone, hothers⟩ => by rw [(hsettles hone).1, hrest hothers]; omega⟩
    · rw [if_pos hret]
      exact ⟨w₂, rfl, k, hfirst, fun ⟨hone, _⟩ => absurd (hsettles hone).2 hret⟩

/-- `removeItem` and then `addItem`: each stack of the coins that are given settles. -/
def coinsSettle (rules : Rules) (maxItems : ℕ → ℕ) (trades : Trades) (w : World) (give : Coin) (removed : Double)
    (take : Coin) (added : Double) (p : ℕ) : Bool :=
  !(w.removeItem rules trades give removed p).1 ||
    itemsSettle rules maxItems trades take.id p ⌈Double.floatDiv added.toInt32 100⌉.toNat
      (w.removeItem rules trades give removed p).2 added.toInt32

theorem addItem_spec (maxItems : ℕ → ℕ) (trades : Trades) (hsane : rules.Sane) (hcoined : rules.Coined) (k : Coin)
    (horderly : Orderly rules w) (hS : w.home p ⊆ S) (hn : n < 2 ^ 31)
    (hstacks : ⌈Double.floatDiv n 100⌉ = ((n + 99) / 100 : ℕ)) :
    ∃ w', w.addItem rules maxItems trades k (.fin n) p = some w' ∧ Orderly rules w' ∧
      ∃ m, w'.worth S = w.worth S + m * k.worth ∧
        (itemsSettle rules maxItems trades k.id p ((n + 99) / 100) w n = true → m = n) := by
  have hcoin := coinWorth_ne_zero k
  obtain ⟨w', hadd, m, hgains, hall⟩ :=
    addItems_grows maxItems trades hsane hcoined hcoin ((n + 99) / 100) rfl horderly.toTidy hS
  refine ⟨w', ?_, hgains.orderly horderly, m, ?_, hall⟩
  · rw [addItem, Double.toInt32_natCast hn, hstacks, Int.toNat_natCast]
    exact hadd
  · rw [hgains.worth hcoined, worth_single hcoin, coinWorth_id]

end World
end ForgottenServer.Things
