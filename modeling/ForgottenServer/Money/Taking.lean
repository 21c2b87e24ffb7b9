import ForgottenServer.Lib.Traversal
import ForgottenServer.Money.Giving

/-! # Taking money

`removeMoney` takes whole stacks, the cheapest first, and breaks the last one: the
change is added before the coins are removed. -/
namespace ForgottenServer.Things
open ForgottenServer.Lib.Forest ForgottenServer.Lib.Traversal ForgottenServer.Lib.Binary64
namespace World
variable {rules : Rules} {maxItems : ℕ → ℕ} {trades : Trades} {w w' w'' : World} {S : Set Cylinder} {p x n r : ℕ}

/-! ## One stack -/

/-- Nothing but the item that is taken away is touched, and not even that one when a part of it stays. -/
theorem Unmoved.removeThing {c : Cylinder} {count : ℕ} (hc : ∀ t, c ≠ .tile t)
    (hr : r = x ∨ w.isPart rules x count = true) : Unmoved w (w.removeThing rules c x count) r := by
  have hnum : ∀ (w : World) (m : ℕ), Unmoved w (w.setItemCount x m) r := fun w m => .of_setItem fun _ _ => rfl
  cases c with
  | container c =>
    show Unmoved w (w.containerRemoveThing rules c x count) r
    unfold containerRemoveThing
    split
    · exact .same w r
    dsimp only
    split
    · exact (hnum _ _).trans (.updateItemWeight _ _ _ _) le_rfl
    · rename_i hpart
      obtain rfl := hr.resolve_right hpart
      have hweight : Unmoved w (World.updateItemWeight w.depth w c (-(w.getWeight rules r : ℤ))) r :=
        .updateItemWeight _ _ _ _
      have hnext : w.next ≤ (World.updateItemWeight w.depth w c (-(w.getWeight rules r : ℤ))).next :=
        (Alike.updateItemWeight _ _ _ _).next.ge
      exact hweight.trans (((Unmoved.setParent r none).trans (.setContainer _ _) le_rfl)) hnext
  | player q =>
    show Unmoved w (w.playerRemoveThing rules q x count) r
    unfold playerRemoveThing
    split
    · exact .same w r
    split
    · exact hnum _ _
    · rename_i hpart
      obtain rfl := hr.resolve_right hpart
      exact (Unmoved.setParent r none).trans (.setPlayer fun _ => rfl) le_rfl
  | tile t => exact absurd rfl (hc t)

theorem Tidy.detached (h : Tidy rules w) (h' : Detached rules w w' x)
    (hground : ∀ t, (w'.tile t).ground = (w.tile t).ground) : Tidy rules w' where
  toValid := h.toValid.detached h'
  stacked c y hy hstack := by
    rw [isStackable_of_id h'.items.id] at hstack
    rw [h'.items.count]
    exact h.stacked c y ((h'.children c y).mp hy).1 hstack
  plain y hy := container_none (h'.items.plate y) (h.plain y (replaces_of_id (h'.items.id y) ▸ hy))
  floor t g hg := container_none (h'.items.plate g) (h.floor t g (hground t ▸ hg))
  field y hy := by
    have htype : w'.type rules y = w.type rules y := by rw [type, type, h'.items.id]
    rw [isMagicField, htype] at hy
    rw [isStackable, htype]
    exact h.field y hy

theorem IsBelow.spare {y : ℕ} (h : w.IsBelow S y) (hleaf : (w.item x).container = none)
    (hchildren : ∀ c z, z ≠ x → z ∈ w.children c → z ∈ w'.children c) (hy : y ≠ x) : w'.IsBelow S y := by
  induction h with
  | root hc hx => exact .root hc (hchildren _ _ hy hx)
  | @inside z y _ hx ih =>
    refine .inside (ih fun e => ?_) (hchildren _ _ hy hx)
    rw [e, no_children hleaf] at hx
    cases hx

/-- The server's invariants: a tidy world where what lies somewhere knows its place. -/
structure Orderly (rules : Rules) (w : World) : Prop extends Tidy rules w where
  parent : ∀ c y, y ∈ w.children c → (w.item y).parent = some c

theorem Gains.orderly {ids : Set ℕ} {gain : ℕ → ℕ} (h : Gains rules w w' S ids gain) (horderly : Orderly rules w) :
    Orderly rules w' where
  toTidy := h.tidy
  parent c y hy := by
    rcases h.placed c y hy with hold | hnew
    · exact (h.parent c y hold).trans (horderly.parent c y hold)
    · exact hnew

/-- Some units of the stack `x` are gone. -/
structure Loses (rules : Rules) (w w' : World) (S : Set Cylinder) (x n : ℕ) : Prop where
  tidy : Tidy rules w'
  next : w'.next = w.next
  units : ∀ id, w'.units rules S id + w.unitsOf id x n = w.units rules S id
  id : ∀ y, (w'.item y).id = (w.item y).id
  count : ∀ y, y ≠ x → (w'.item y).count = (w.item y).count
  children : ∀ c y, y ≠ x → y ∈ w.children c → y ∈ w'.children c
  placed : ∀ c y, y ∈ w'.children c → y ∈ w.children c ∧ (w'.item y).parent = (w.item y).parent
  unmoved : Unmoved w w' x

theorem Loses.orderly (h : Loses rules w w' S x n) (horderly : Orderly rules w) : Orderly rules w' where
  toTidy := h.tidy
  parent c y hy := by
    obtain ⟨hold, hparent⟩ := h.placed c y hy
    exact hparent.trans (horderly.parent c y hold)

theorem Loses.after (h : Loses rules w w' S x n) (h' : Alike w' w'') (hunmoved : ∀ r, Unmoved w' w'' r) :
    Loses rules w w'' S x n where
  tidy := h.tidy.alike h'
  next := h'.next.trans h.next
  units id := by rw [units_alike id h', h.units]
  id y := (h'.id y).trans (h.id y)
  count y hy := (h'.count y).trans (h.count y hy)
  children c y hy hmem := by
    rw [h'.children]
    exact h.children c y hy hmem
  placed c y hy := by
    rw [h'.children] at hy
    obtain ⟨hold, hparent⟩ := h.placed c y hy
    have hlt := h.tidy.known c y hy
    exact ⟨hold, ((hunmoved w'.next).parent y hlt.ne hlt).trans hparent⟩
  unmoved := h.unmoved.trans (hunmoved x) h.next.ge

theorem removeThing_loses {c : Cylinder} (hsane : rules.Sane) (htidy : Tidy rules w) (hc : ∀ t, c ≠ .tile t)
    (hstack : w.isStackable rules x = true) (hx : x ∈ w.children c) (hle : n ≤ (w.item x).count)
    (hreach : Reached w S c) : Loses rules w (w.removeThing rules c x n) S x n := by
  have hthing := hasThing_of_mem hsane htidy.toNeat hstack hx
  have hleaf := htidy.leaf x hstack
  have htaken := removeThing_taken hsane htidy.toValid (Set.mem_insert c S) hstack hthing hle
  have hunmoved : Unmoved w (w.removeThing rules c x n) x := .removeThing hc (.inl rfl)
  have hchildren : ∀ c' y, y ≠ x → y ∈ w.children c' → y ∈ (w.removeThing rules c x n).children c' :=
    fun c' y hy => htaken.children c' y hy
  have hreach' : Reached (w.removeThing rules c x n) S c := by
    rcases hreach with hmem | ⟨y, rfl, hbelow⟩
    · exact .inl hmem
    · refine .inr ⟨y, rfl, hbelow.spare hleaf hchildren fun e => ?_⟩
      rw [e, no_children hleaf] at hx
      cases hx
  refine ⟨?_, htaken.next, fun id => ?_, htaken.id, htaken.count, hchildren, fun c' y hy => ?_, hunmoved⟩
  · cases hpart : w.isPart rules x n with
    | false =>
      exact htidy.detached (removeThing_detached htidy.toNeat
        (fun c' hc' => htidy.holder c' c x hc' hx) hthing hpart) hunmoved.ground
    | true =>
      have hne : n ≠ (w.item x).count := by simpa [isPart, hstack] using hpart
      have hsmall := htidy.count x hstack
      have hleft : ((w.item x).count - n) % 2 ^ 8 = (w.item x).count - n := Nat.mod_eq_of_lt (by omega)
      have h := removeThing_recounted htidy.toNeat hthing hpart (hsane.top _ hstack)
      rw [hleft] at h
      exact htidy.recounted h (by omega) (by omega)
  · have hunits := htaken.units id
    rwa [units_reached hreach, units_reached hreach'] at hunits
  · cases hpart : w.isPart rules x n with
    | false =>
      obtain ⟨hold, hne⟩ := ((removeThing_detached htidy.toNeat (fun c' hc' => htidy.holder c' c x hc' hx) hthing
        hpart).children c' y).mp hy
      exact ⟨hold, hunmoved.parent y hne (htidy.known c' y hold)⟩
    | true =>
      have hsame := removeThing_recounted htidy.toNeat hthing hpart (hsane.top _ hstack)
      rw [hsame.children] at hy
      have hlt := htidy.known c' y hy
      exact ⟨hy, (Unmoved.removeThing hc (.inr hpart)).parent y hlt.ne hlt⟩

theorem internalRemoveItem_loses (trades : Trades) {c : Cylinder} (hsane : rules.Sane) (horderly : Orderly rules w)
    (hc : ∀ t, c ≠ .tile t) (hstack : w.isStackable rules x = true) (hx : x ∈ w.children c) (hn : n ≠ 0)
    (hle : n ≤ (w.item x).count) (hreach : Reached w S c) :
    Loses rules w (w.internalRemoveItem rules trades x n) S x n := by
  have htidy := horderly.toTidy
  have hleaf := htidy.leaf x hstack
  have hkind : w.kind x = none := by rw [kind, hleaf, Option.map_none]
  have hget : w.getParent (.container x) = some c := by
    rw [getParent_of_kind (by simp [hkind]) (by simp [hkind]), horderly.parent c x hx]
  have hmay : w.mayTake rules c false = true := by
    cases c <;> rfl
  have hquery : w.queryRemove rules c x n { ignoreNotMoveable := true } false = .noError := by
    rw [queryRemove, hmay, hasThing_of_mem hsane htidy.toNeat hstack hx]
    simp [hn, hle]
  unfold internalRemoveItem
  rw [hget]
  dsimp only
  rw [if_neg (by rw [hquery]; exact fun h => h rfl)]
  have hloses := removeThing_loses hsane htidy hc hstack hx hle hreach
  exact (hloses.after (.closeTrades _) fun _ => .closeTrades _).after (.notify c) fun _ => .notify c

/-! ## The search -/

theorem worths_append (l l' : List ℕ) : w.worths (l ++ l') = w.worths l ++ w.worths l' := by
  simp [worths]

theorem searchMoney_eq (fuel : ℕ) (l : List ℕ) :
    w.searchMoney fuel l =
      w.worths ((visits w.itemlist (fun c => (w.item c).container.isSome) fuel l).flatMap w.itemlist) := by
  induction fuel generalizing l with
  | zero => rfl
  | succ fuel ih =>
    cases l with
    | nil => simp [searchMoney, visits, worths]
    | cons c l =>
      rw [searchMoney, visits, List.flatMap_cons, worths_append, ih]
      rfl

theorem inventory_nodup (hneat : Neat rules w) (p : ℕ) : (w.children (.player p)).Nodup := by
  have hslots : slots.Pairwise (· ≠ ·) := by decide
  refine List.pairwise_filterMap.mpr (hslots.imp_of_mem fun hi hj hne x hx y hy hxy => ?_)
  subst hxy
  exact hne (hneat.inventory p _ hi _ hj x hx hy)

theorem listed (htidy : Tidy rules w) (p : ℕ) :
    Listed Cylinder.container (fun c x => x ∈ w.children c) {.player p} (w.children (.player p)) w.itemlist
      fun c => (w.item c).container.isSome where
  mem_start x := by simp
  mem_inside x y := Iff.rfl
  entered x y hy := container_of_mem_itemlist hy
  one := htidy.holder
  injective _ _ := Cylinder.container.inj
  outside x := nofun
  nodup_start := inventory_nodup htidy.toNeat p
  nodup_inside := htidy.itemlist

theorem exists_belongings (htidy : Tidy rules w) (p : ℕ) :
    ∃ l : List ℕ, w.coinsOf p = w.worths l ∧ l.Nodup ∧ ∀ x, x ∈ l ↔ w.IsBelow {.player p} x := by
  have hs : ∀ x, Below Cylinder.container (fun c x => x ∈ w.children c) {.player p} x → x ∈ Finset.range w.next := by
    intro x hx
    rw [Finset.mem_range]
    cases hx with
    | root _ hx => exact htidy.known _ x hx
    | inside _ hx => exact htidy.known _ x hx
  have hfuel : (Finset.range w.next).card ≤ w.depth := by
    rw [Finset.card_range]
    exact Nat.le_add_right _ _
  refine ⟨_, ?_, nodup_walk (listed htidy p) hs hfuel, fun x => mem_walk_iff (listed htidy p) hs hfuel⟩
  rw [worths_append, ← searchMoney_eq]
  rfl

theorem mem_worths {l : List ℕ} {e : ℕ × ℕ} (h : e ∈ w.worths l) :
    e.1 = (w.item e.2).getWorth ∧ e.1 ≠ 0 ∧ e.2 ∈ l := by
  obtain ⟨x, hx, rfl⟩ := List.mem_map.mp h
  obtain ⟨hmem, hworth⟩ := List.mem_filter.mp hx
  simp only [Bool.and_eq_true, decide_eq_true_eq] at hworth
  exact ⟨rfl, hworth.2, hmem⟩

theorem worths_nodup {l : List ℕ} (h : l.Nodup) : ((w.worths l).map Prod.snd).Nodup := by
  have hmap : (w.worths l).map Prod.snd =
      l.filter fun x => (w.item x).container.isNone && (w.item x).getWorth ≠ 0 := by
    rw [worths, List.map_map]
    exact List.map_id _
  rw [hmap]
  exact h.filter _

theorem getWorth_container (hcoined : rules.Coined) (htidy : Tidy rules w) {x : ℕ}
    (h : (w.item x).container.isNone = false) : (w.item x).getWorth = 0 := by
  by_contra hne
  rw [Item.getWorth_eq] at hne
  have hstack := (plain_of_coin hcoined (Nat.mul_ne_zero_iff.mp hne).2).1
  rw [htidy.leaf x hstack] at h
  cases h

theorem worths_sum (hcoined : rules.Coined) (htidy : Tidy rules w) (l : List ℕ) :
    ((w.worths l).map Prod.fst).sum = (l.map fun x => (w.item x).getWorth).sum := by
  induction l with
  | nil => rfl
  | cons x l ih =>
    have hcons : w.worths (x :: l) = w.worths [x] ++ w.worths l := worths_append [x] l
    have hone : ((w.worths [x]).map Prod.fst).sum = (w.item x).getWorth := by
      unfold worths
      cases hnone : (w.item x).container.isNone with
      | false => simp [hnone, getWorth_container hcoined htidy hnone]
      | true =>
        by_cases hzero : (w.item x).getWorth = 0
        · simp [hzero]
        · simp [hnone, hzero]
    rw [hcons, List.map_append, List.sum_append, hone, ih, List.map_cons, List.sum_cons]

theorem coinsOf_sum (hcoined : rules.Coined) (htidy : Tidy rules w) (p : ℕ) :
    ((w.coinsOf p).map Prod.fst).sum = w.worth {.player p} := by
  classical
  obtain ⟨l, hcoins, hnodup, hmem⟩ := exists_belongings htidy p
  have hset : l.toFinset = (Finset.range w.next).filter (· ∈ { x | w.IsBelow {.player p} x }) := by
    ext x
    rw [List.mem_toFinset, Finset.mem_filter, Finset.mem_range, hmem]
    refine ⟨fun h => ⟨?_, h⟩, And.right⟩
    cases h with
    | root _ hx => exact htidy.known _ x hx
    | inside _ hx => exact htidy.known _ x hx
  rw [hcoins, worths_sum hcoined htidy, ← List.sum_toFinset _ hnodup, hset, Finset.sum_filter, worth, total]
  exact Finset.sum_congr rfl fun x _ => by rw [Set.indicator_apply]

theorem getMoney_le (hcoined : rules.Coined) (htidy : Tidy rules w) (hself : .player p ∈ S) :
    w.getMoney p ≤ w.worth S :=
  (coinsOf_sum hcoined htidy p).trans_le (worth_mono w (Set.singleton_subset_iff.mpr hself))

/-! ## The loop -/

/-- The stacks that are still to be taken. -/
structure Pending (w : World) (S : Set Cylinder) (l : List (ℕ × ℕ)) : Prop where
  nodup : (l.map Prod.snd).Nodup
  worth : ∀ e ∈ l, e.1 = (w.item e.2).getWorth ∧ e.1 ≠ 0
  held : ∀ e ∈ l, ∃ c, (∀ t, c ≠ .tile t) ∧ e.2 ∈ w.children c ∧ Reached w S c

theorem held_of_below (hself : .player p ∈ S) (h : w.IsBelow {.player p} x) :
    ∃ c, (∀ t, c ≠ .tile t) ∧ x ∈ w.children c ∧ Reached w S c := by
  cases h with
  | root hc hx =>
    rw [Set.mem_singleton_iff.mp hc] at hx
    exact ⟨.player p, nofun, hx, .inl hself⟩
  | @inside x y hy hx =>
    have hbelow : w.IsBelow S y := IsBelow.grow hy (Set.singleton_subset_iff.mpr hself) fun _ _ hz => hz
    exact ⟨.container y, nofun, hx, .inr ⟨y, rfl, hbelow⟩⟩

theorem pending_moneyMap (htidy : Tidy rules w) (hself : .player p ∈ S) : Pending w S (w.moneyMap p) := by
  obtain ⟨l, hcoins, hnodup, hmem⟩ := exists_belongings htidy p
  have hperm : (w.moneyMap p).Perm (w.worths l) := hcoins ▸ List.perm_insertionSort _ _
  refine ⟨(hperm.map Prod.snd).nodup_iff.mpr (worths_nodup hnodup), fun e he => ?_, fun e he => ?_⟩
  · obtain ⟨hworth, hne, -⟩ := mem_worths (hperm.mem_iff.mp he)
    exact ⟨hworth, hne⟩
  · obtain ⟨-, -, hl⟩ := mem_worths (hperm.mem_iff.mp he)
    exact held_of_below hself ((hmem _).mp hl)

theorem Pending.next {e : ℕ × ℕ} {l : List (ℕ × ℕ)} (h : Pending w S (e :: l))
    (h' : Loses rules w w' S e.2 n) (hleaf : (w.item e.2).container = none) : Pending w' S l := by
  have hnodup := h.nodup
  rw [List.map_cons, List.nodup_cons] at hnodup
  have hne : ∀ f ∈ l, f.2 ≠ e.2 := fun f hf heq => hnodup.1 (heq ▸ List.mem_map_of_mem hf)
  refine ⟨hnodup.2, fun f hf => ?_, fun f hf => ?_⟩
  · obtain ⟨hworth, hzero⟩ := h.worth f (List.mem_cons_of_mem _ hf)
    refine ⟨?_, hzero⟩
    rw [hworth, Item.getWorth_eq, Item.getWorth_eq, h'.id, h'.count _ (hne f hf)]
  · obtain ⟨c, hc, hmem, hreach⟩ := h.held f (List.mem_cons_of_mem _ hf)
    refine ⟨c, hc, h'.children c _ (hne f hf) hmem, ?_⟩
    rcases hreach with hS | ⟨y, rfl, hbelow⟩
    · exact .inl hS
    · refine .inr ⟨y, rfl, hbelow.spare hleaf h'.children fun heq => ?_⟩
      rw [heq, no_children hleaf] at hmem
      cases hmem

theorem Loses.worth (hcoined : rules.Coined) (h : Loses rules w w' S x n) :
    w'.worth S + n * coinWorth (w.item x).id = w.worth S := by
  have hgold := h.units goldCoin
  have hplatinum := h.units platinumCoin
  have hcrystal := h.units crystalCoin
  have hunits : w.unitsOf goldCoin x n + 100 * w.unitsOf platinumCoin x n +
      10000 * w.unitsOf crystalCoin x n = n * coinWorth (w.item x).id := by
    by_cases hcoin : coinWorth (w.item x).id = 0
    · have hnone : ∀ id, coinWorth id ≠ 0 → w.unitsOf id x n = 0 := fun id hid =>
        if_neg fun (heq : (w.item x).id = id) => hid (heq ▸ hcoin)
      rw [hcoin, hnone _ (by decide), hnone _ (by decide), hnone _ (by decide)]
      omega
    · rw [← worth_single hcoin n]
      simp only [unitsOf, Pi.single_apply, eq_comm]
  rw [worth_eq_units hcoined, worth_eq_units hcoined]
  omega

theorem Loses.home (h : Loses rules w w' S x n) (p : ℕ) : w'.home p = w.home p := by
  simp only [World.home, h.unmoved.tile, h.unmoved.floorChange]

/-- The change, if the loop has to break a stack, settles. -/
def changeSettles (rules : Rules) (maxItems : ℕ → ℕ) (trades : Trades) (p : ℕ) :
    List (ℕ × ℕ) → World → ℕ → Bool
  | [], _, _ => true
  | (entry, item) :: moneyMap, w, money =>
    if entry < money then
      changeSettles rules maxItems trades p moneyMap
        (w.internalRemoveItem rules trades item (w.item item).count) (money - entry)
    else
      let worth := entry / (w.item item).count
      entry = money || w.moneySettles rules maxItems trades p ((worth - money % worth) % worth)

theorem change_eq {money v n : ℕ} (hup : money ≤ n * v ∧ n * v < money + v) :
    n * v - money = (v - money % v) % v := by
  have hv : 0 < v := by omega
  have hsplit := Nat.div_add_mod money v
  have hmod := Nat.mod_lt money hv
  have hdvd : v ∣ money % v + (n * v - money) := by
    refine (Nat.dvd_add_right (Dvd.intro (money / v) rfl : v ∣ v * (money / v))).mp ?_
    exact ⟨n, by rw [Nat.mul_comm v n]; omega⟩
  by_cases hzero : money % v = 0
  · rw [hzero, Nat.sub_zero, Nat.mod_self]
    rw [hzero, Nat.zero_add] at hdvd
    exact Nat.eq_zero_of_dvd_of_lt hdvd (by omega)
  · rw [Nat.mod_eq_of_lt (by omega)]
    have hle := Nat.le_of_dvd (by omega) hdvd
    have hdvd' := Nat.dvd_sub hdvd (dvd_refl v)
    have := Nat.eq_zero_of_dvd_of_lt hdvd' (by omega)
    omega

/-- The coins of a stack that pay an amount, and no more than it takes. -/
theorem coins_needed {worth count money : ℕ} (hpos : 0 < worth) (hle : worth ≤ 10000) (hbyte : count < 2 ^ 8)
    (hlt : money < count * worth) :
    ∃ n, ((Double.ofNat money).div (Double.ofNat worth)).ceil.toUInt32 = n ∧
      (money ≤ n * worth ∧ n * worth < money + worth) ∧ n ≤ count ∧ worth * n % 2 ^ 32 = n * worth := by
  have hsmall : count * worth < 2 ^ 8 * 10000 := by nlinarith
  have hdiv := (Double.div_ofNat (a := money) (b := worth) (by omega) hpos (by omega)).2
  have hup : money ≤ (money + worth - 1) / worth * worth ∧
      (money + worth - 1) / worth * worth < money + worth := by
    have hd := Nat.div_add_mod (money + worth - 1) worth
    have hm := Nat.mod_lt (money + worth - 1) hpos
    rw [Nat.mul_comm] at hd
    omega
  generalize (money + worth - 1) / worth = n at hdiv hup
  have hcount : n ≤ count := by
    by_contra hcon
    have : (count + 1) * worth ≤ n * worth := Nat.mul_le_mul_right _ (by omega)
    rw [Nat.add_mul, Nat.one_mul] at this
    omega
  refine ⟨n, ?_, hup, hcount, ?_⟩
  · rw [hdiv, Double.toUInt32_natCast (by omega), Nat.mod_eq_of_lt (by omega)]
  · have : n * worth ≤ count * worth := Nat.mul_le_mul_right _ hcount
    rw [Nat.mul_comm]
    exact Nat.mod_eq_of_lt (by omega)

theorem Pending.take (trades : Trades) {e : ℕ × ℕ} {l : List (ℕ × ℕ)} (hsane : rules.Sane)
    (hcoined : rules.Coined) (horderly : Orderly rules w) (h : Pending w S (e :: l)) :
    ∃ w', w.internalRemoveItem rules trades e.2 (w.item e.2).count = w' ∧ Orderly rules w' ∧ Pending w' S l ∧
      w'.worth S + e.1 = w.worth S ∧ (∀ y, (w'.item y).id = (w.item y).id) ∧ ∀ p, w'.home p = w.home p := by
  obtain ⟨hworth, hzero⟩ := h.worth e List.mem_cons_self
  obtain ⟨c, hc, hmem, hreach⟩ := h.held e List.mem_cons_self
  rw [hworth, Item.getWorth_eq] at hzero
  obtain ⟨hcount, hcoin⟩ := Nat.mul_ne_zero_iff.mp hzero
  have hstack := (plain_of_coin hcoined hcoin).1
  have hloses := internalRemoveItem_loses trades hsane horderly hc hstack hmem hcount le_rfl hreach
  refine ⟨_, rfl, hloses.orderly horderly, h.next hloses (horderly.leaf _ hstack), ?_, hloses.id, hloses.home⟩
  rw [hworth, Item.getWorth_eq]
  exact hloses.worth hcoined

/-- A part of the stack at the head of the list is taken, and the change is given before. -/
theorem Pending.break (maxItems : ℕ → ℕ) (trades : Trades) {e : ℕ × ℕ} {l : List (ℕ × ℕ)} {money : ℕ}
    (hsane : rules.Sane) (hcoined : rules.Coined) (horderly : Orderly rules w) (hS : w.home p ⊆ S)
    (h : Pending w S (e :: l)) (hmoney : money ≠ 0) (hlt : money < e.1) :
    ∃ v count w', e.1 / (w.item e.2).count = v ∧
      ((Double.ofNat money).div (Double.ofNat v)).ceil.toUInt32 = count ∧
      w.addMoney rules maxItems trades p (v * count % 2 ^ 32 - money) = some w' ∧
      Orderly rules (w'.internalRemoveItem rules trades e.2 count) ∧
      ((w'.internalRemoveItem rules trades e.2 count).worth S + money = w.worth S ↔
        w.moneySettles rules maxItems trades p ((v - money % v) % v) = true) := by
  have htidy := horderly.toTidy
  obtain ⟨hworth, hzero⟩ := h.worth e List.mem_cons_self
  obtain ⟨c, hc, hmem, hreach⟩ := h.held e List.mem_cons_self
  rw [hworth, Item.getWorth_eq] at hzero
  obtain ⟨hcount, hcoin⟩ := Nat.mul_ne_zero_iff.mp hzero
  have hstack := (plain_of_coin hcoined hcoin).1
  have hvalue : e.1 / (w.item e.2).count = coinWorth (w.item e.2).id := by
    rw [hworth, Item.getWorth_eq]
    exact Nat.mul_div_cancel_left _ (Nat.pos_of_ne_zero hcount)
  rw [hworth, Item.getWorth_eq] at hlt
  have hbyte := htidy.count _ hstack
  obtain ⟨n, hn, hup, hle, hprod⟩ := coins_needed (Nat.pos_of_ne_zero hcoin) (coinWorth_le _)
    (by omega) hlt
  have hsmall := coinWorth_le (w.item e.2).id
  have hchange := change_eq hup
  obtain ⟨w', hadd, ids, gain, hgains, hids, hall, hexact⟩ :=
    addMoney_grows maxItems trades hsane hcoined htidy hS
      (show n * coinWorth (w.item e.2).id - money < 4294970000 by omega)
  -- the change is in smaller coins: the stack that is broken is as before
  have hother : (w.item e.2).id ∉ ids := fun hmem => by
    have := hids _ hmem
    omega
  have hid := hgains.id _ (htidy.known c _ hmem)
  have hsame := hgains.count c _ hmem hother
  have hreach' : Reached w' S c := by
    rcases hreach with hS | ⟨y, rfl, hbelow⟩
    · exact .inl hS
    · exact .inr ⟨y, rfl, hbelow.grow subset_rfl hgains.children⟩
  have hn0 : n ≠ 0 := by
    rintro rfl
    omega
  have horderly' := hgains.orderly horderly
  have hloses := internalRemoveItem_loses trades hsane horderly' hc
    (by rwa [isStackable, type, hid]) (hgains.children c _ hmem) hn0 (by rwa [hsame]) hreach'
  have htaken := hloses.worth hcoined
  rw [hid, hgains.worth hcoined] at htaken
  change _ = _ + unitsWorth gain at htaken
  refine ⟨_, n, w', hvalue, hn, by rw [hprod]; exact hadd, hloses.orderly horderly', ?_⟩
  rw [← hchange, ← hexact]
  omega

/-- The loop takes the worth of the amount, if its change settles. -/
theorem removeEntries_spec (maxItems : ℕ → ℕ) (trades : Trades) (hsane : rules.Sane) (hcoined : rules.Coined)
    (l : List (ℕ × ℕ)) {money : ℕ} (horderly : Orderly rules w) (hS : w.home p ⊆ S) (h : Pending w S l)
    (hmoney : money ≠ 0) (hle : money ≤ (l.map Prod.fst).sum) :
    ∃ w', removeEntries rules maxItems trades p l w money = some w' ∧ Orderly rules w' ∧
      (w'.worth S + money = w.worth S ↔ changeSettles rules maxItems trades p l w money = true) := by
  induction l generalizing w money with
  | nil => exact absurd (Nat.le_zero.mp hle) hmoney
  | cons e l ih =>
    obtain ⟨entry, item⟩ := e
    rw [List.map_cons, List.sum_cons] at hle
    unfold removeEntries changeSettles
    by_cases hlt : entry < money
    · obtain ⟨w₁, hremove, horderly₁, hrest, hworth, -, hhome⟩ := h.take trades hsane hcoined horderly
      obtain ⟨w', hloop, horderly', hexact⟩ :=
        ih horderly₁ ((hhome p).subset.trans hS) hrest (by omega) (show money - entry ≤ _ by omega)
      rw [if_pos hlt, if_pos hlt, hremove]
      refine ⟨w', hloop, horderly', ?_⟩
      rw [← hexact]
      omega
    · rw [if_neg hlt, if_neg hlt]
      by_cases hgt : money < entry
      · obtain ⟨v, n, w', hv, hn, hadd, horderly', hexact⟩ :=
          h.break maxItems trades hsane hcoined horderly hS hmoney hgt
        dsimp only at hv horderly' hexact
        rw [if_pos hgt]
        dsimp only
        rw [hv, hn, hadd, decide_eq_false (by omega), Bool.false_or]
        exact ⟨_, rfl, horderly', hexact⟩
      · obtain rfl : entry = money := by omega
        obtain ⟨w', hremove, horderly', -, hworth, -⟩ := h.take trades hsane hcoined horderly
        rw [if_neg hgt, hremove]
        simp only [decide_true, Bool.true_or, iff_true]
        exact ⟨w', rfl, horderly', hworth⟩

/-- Either the player has too little and nothing changes, or the money is taken; all of its
worth is gone exactly when the change settles. -/
theorem removeMoney_spec (maxItems : ℕ → ℕ) (trades : Trades) (hsane : rules.Sane) (hcoined : rules.Coined)
    (horderly : Orderly rules w) (hS : w.home p ⊆ S) {money : ℕ} (hmoney : money ≠ 0) :
    (w.getMoney p < money ∧ w.removeMoney rules maxItems trades p money = some (false, w)) ∨
    money ≤ w.getMoney p ∧ ∃ w', w.removeMoney rules maxItems trades p money = some (true, w') ∧
      Orderly rules w' ∧ (w'.worth S + money = w.worth S ↔
        changeSettles rules maxItems trades p (w.moneyMap p) w money = true) := by
  have hmap : ((w.moneyMap p).map Prod.fst).sum = w.getMoney p :=
    ((List.perm_insertionSort _ _).map Prod.fst).sum_eq
  unfold removeMoney
  rw [if_neg hmoney]
  by_cases hlt : w.getMoney p < money
  · exact .inl ⟨hlt, if_pos hlt⟩
  · obtain ⟨w', hloop, horderly', hexact⟩ := removeEntries_spec maxItems trades hsane hcoined (w.moneyMap p)
      horderly hS (pending_moneyMap horderly.toTidy (hS (.inl rfl))) hmoney (by omega)
    refine .inr ⟨not_lt.mp hlt, w', ?_, horderly', hexact⟩
    rw [← getMoney, if_neg hlt, hloop]
    rfl

/-! ## Payments that settle -/

theorem removeMoney_paid (maxItems : ℕ → ℕ) (trades : Trades) (hsane : rules.Sane) (hcoined : rules.Coined)
    (horderly : Orderly rules w) {money : ℕ} (hmoney : money ≠ 0) (hle : money ≤ w.getMoney p)
    (hsettles : changeSettles rules maxItems trades p (w.moneyMap p) w money = true) :
    ∃ w', w.removeMoney rules maxItems trades p money = some (true, w') ∧ Orderly rules w' ∧
      ∀ S, w.home p ⊆ S → w'.worth S + money = w.worth S := by
  have hspec := fun S (hS : w.home p ⊆ S) =>
    (removeMoney_spec maxItems trades hsane hcoined horderly hS hmoney).resolve_left fun h =>
      absurd hle (not_le.mpr h.1)
  obtain ⟨-, w', hremove, horderly', -⟩ := hspec _ subset_rfl
  refine ⟨w', hremove, horderly', fun S hS => ?_⟩
  obtain ⟨-, w'', hremove', -, hexact⟩ := hspec S hS
  rw [hremove] at hremove'
  cases hremove'
  exact hexact.mpr hsettles

theorem addMoney_paid (maxItems : ℕ → ℕ) (trades : Trades) (hsane : rules.Sane) (hcoined : rules.Coined)
    (horderly : Orderly rules w) {money : ℕ} (hmoney : money < 4294970000)
    (hsettles : w.moneySettles rules maxItems trades p money = true) :
    ∃ w', w.addMoney rules maxItems trades p money = some w' ∧ Orderly rules w' ∧ w'.home p = w.home p ∧
      ∀ S, w.home p ⊆ S → w'.worth S = w.worth S + money := by
  have hspec := fun S (hS : w.home p ⊆ S) =>
    addMoney_grows maxItems trades hsane hcoined horderly.toTidy hS hmoney
  obtain ⟨w', hadd, _, _, hgains, -⟩ := hspec _ subset_rfl
  refine ⟨w', hadd, hgains.orderly horderly, hgains.home p, fun S hS => ?_⟩
  obtain ⟨w'', hadd', _, gain, hgains', -, -, hexact⟩ := hspec S hS
  rw [hadd] at hadd'
  cases hadd'
  rw [hgains'.worth hcoined, ← hexact.mpr hsettles]
  rfl

end World
end ForgottenServer.Things
