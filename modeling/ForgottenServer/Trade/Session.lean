import ForgottenServer.Lib.Run
import Mathlib.Data.List.Nodup
import Mathlib.Logic.Function.Basic
import Mathlib.Tactic.Common

/-! # Trade sessions

The state of the player-to-player trades is spread over three fields of each
player and the map `Game::tradeItems`. It is changed by `playerRequestTrade`
(and `House:startTrade`) through `internalStartTrade`, by `playerAcceptTrade`
and by `internalCloseTrade`, which the game also calls when a trader walks off
or a traded item changes. What the rest of the game answers to these functions
is a `Scene`: every step may see a different one. A null dereference ends the
process: the run is then at `none`. -/
namespace ForgottenServer.Trade.Session
open ForgottenServer.Lib.Run

abbrev PlayerId := Nat

/-- An item by its address. -/
abbrev ItemRef := Nat

/-- `tradestate_t`. -/
inductive TradeState
  | none | initiated | accept | acknowledge | transfer
  deriving DecidableEq, Repr

/-- The trade fields of a `Player`. -/
structure Trader where
  tradeState : TradeState := .none
  tradePartner : Option PlayerId := none
  tradeItem : Option ItemRef := none
  deriving DecidableEq, Repr

structure Trades where
  player : PlayerId → Trader
  tradeItems : List (ItemRef × PlayerId)

/-- What the functions below ask of the rest of the game. -/
structure Scene where
  online : PlayerId → Bool
  areInRange : PlayerId → PlayerId → Bool
  canThrowObjectTo : PlayerId → PlayerId → Bool
  /-- the item `internalGetThing` finds at the position of the request -/
  thing : Option ItemRef
  hasClientId : ItemRef → Bool
  isPickupable : ItemRef → Bool
  hasUniqueId : ItemRef → Bool
  /-- the item lies in a house that does not invite the player -/
  houseForbids : Bool
  sameFloor : Bool
  nextTo : Bool
  isContainer : ItemRef → Bool
  isHoldingItem : ItemRef → ItemRef → Bool
  getItemHoldingCount : ItemRef → Nat
  onTradeRequest : Bool
  /-- the item in a player's backpack slot -/
  backpack : PlayerId → Option ItemRef
  /-- the registered `onTradeAccept` event and its answer -/
  onTradeAccept : Option Bool
  /-- whether an `onTradeCompleted` event is registered -/
  onTradeCompleted : Bool

def Trades.set (s : Trades) (p : PlayerId) (t : Trader) : Trades :=
  { s with player := Function.update s.player p t }

/-- Find an item in `tradeItems` and erase it; a null item is not in the map. -/
def Trades.eraseItem (s : Trades) (item : Option ItemRef) : Trades :=
  { s with tradeItems := s.tradeItems.filter fun e => some e.1 != item }

/-- `Game::internalStartTrade`. -/
def internalStartTrade (s : Trades) (player tradePartner : PlayerId) (tradeItem : ItemRef) : Bool × Trades :=
  let p := s.player player
  let q := s.player tradePartner
  if p.tradeState != .none && !(p.tradeState == .acknowledge && p.tradePartner == some tradePartner) then (false, s)
  else if q.tradeState != .none && q.tradePartner != some player then (false, s)
  else
    let s := s.set player ⟨.initiated, some tradePartner, some tradeItem⟩
    let s := { s.eraseItem (some tradeItem) with
      tradeItems := (tradeItem, player) :: (s.eraseItem (some tradeItem)).tradeItems }
    let q := s.player tradePartner
    if q.tradeState == .none then
      (true, s.set tradePartner { q with tradeState := .acknowledge, tradePartner := some player })
    else (true, s)

/-- The loops over `tradeItems` in `playerRequestTrade`: the item, something in
it, or something it is in is already being traded. The two loops of the source
differ only in the test that a non-container cannot pass. -/
def alreadyTraded (sc : Scene) (s : Trades) (tradeItem : ItemRef) : Bool :=
  s.tradeItems.any fun (item, _) =>
    tradeItem == item ||
    (sc.isContainer tradeItem && sc.isHoldingItem tradeItem item) ||
    (sc.isContainer item && sc.isHoldingItem item tradeItem)

/-- `Game::playerRequestTrade`, up to the walk to an item that is not near. -/
def playerRequestTrade (sc : Scene) (s : Trades) (player tradePartner : PlayerId) : Trades :=
  if !sc.online player then s
  else if !sc.online tradePartner || tradePartner == player then s
  else if !sc.areInRange tradePartner player then s
  else if !sc.canThrowObjectTo tradePartner player then s
  else match sc.thing with
    | none => s
    | some tradeItem =>
      if !sc.hasClientId tradeItem || !sc.isPickupable tradeItem || sc.hasUniqueId tradeItem then s
      else if sc.houseForbids then s
      else if !sc.sameFloor || !sc.nextTo then s
      else if alreadyTraded sc s tradeItem then s
      else if sc.isContainer tradeItem && sc.getItemHoldingCount tradeItem + 1 > 100 then s
      else if !sc.onTradeRequest then s
      else (internalStartTrade s player tradePartner tradeItem).2

/-- `House:startTrade`: the transfer document is created by the call itself, so
it is in no trade yet, and the partner owns no house while the player does. -/
def houseStartTrade (s : Trades) (player tradePartner : PlayerId) (transferItem : ItemRef) : Trades :=
  if player = tradePartner ∨ transferItem ∈ s.tradeItems.map Prod.fst then s
  else (internalStartTrade s player tradePartner transferItem).2

/-- `Game::internalCloseTrade`. -/
def internalCloseTrade (s : Trades) (player : PlayerId) : Trades :=
  let p := s.player player
  if p.tradePartner.any (fun q => (s.player q).tradeState = .transfer) ||
      p.tradeState == .transfer then s
  else
    let s := (s.eraseItem p.tradeItem).set player {}
    match p.tradePartner with
    | none => s
    | some tradePartner =>
      (s.eraseItem (s.player tradePartner).tradeItem).set tradePartner {}

/-- The swap at the end of `Game::playerAcceptTrade`: `none` where it
dereferences a null item. Whether the two moves succeed does not matter to the
session; a null item makes `internalAddItem` answer NOTPOSSIBLE. -/
def transferItems (sc : Scene) (s : Trades) (player tradePartner : PlayerId) : Option Trades :=
  let playerTradeItem := (s.player player).tradeItem
  let partnerTradeItem := (s.player tradePartner).tradeItem
  let s := s.set player { s.player player with tradeState := .transfer }
  let s := s.set tradePartner { s.player tradePartner with tradeState := .transfer }
  let s := (s.eraseItem playerTradeItem).eraseItem partnerTradeItem
  -- the slot type of the other item is looked up when somebody trades his own backpack
  if sc.backpack tradePartner == partnerTradeItem && playerTradeItem.isNone then none
  else if sc.backpack player == playerTradeItem && partnerTradeItem.isNone then none
  else if sc.onTradeCompleted && (playerTradeItem.isNone || partnerTradeItem.isNone) then none
  else some ((s.set player {}).set tradePartner {})

/-- `player->setTradeState(TRADE_ACCEPT)`. -/
def Trades.markAccept (s : Trades) (p : PlayerId) : Trades :=
  s.set p { s.player p with tradeState := .accept }

/-- `Game::playerAcceptTrade`. -/
def playerAcceptTrade (sc : Scene) (s : Trades) (player : PlayerId) : Option Trades :=
  let p := s.player player
  if !sc.online player then some s
  else if !(p.tradeState == .acknowledge || p.tradeState == .initiated) then some s
  else match p.tradePartner with
    | none => some s
    | some tradePartner =>
      if !sc.canThrowObjectTo tradePartner player then some s
      else
        let s := s.markAccept player
        if (s.player tradePartner).tradeState != .accept then some s
        else match sc.onTradeAccept with
          | none => transferItems sc s player tradePartner
          | some accepted =>
            -- the event is handed both items, and looks at what kind of item each is
            if (s.player player).tradeItem.isNone || (s.player tradePartner).tradeItem.isNone then none
            else if accepted then transferItems sc s player tradePartner
            else some (internalCloseTrade s player)

/-- The steps of the clients and of the game. -/
inductive Step
  | requestTrade (sc : Scene) (player tradePartner : PlayerId)
  | houseTrade (player tradePartner : PlayerId) (transferItem : ItemRef)
  | acceptTrade (sc : Scene) (player : PlayerId)
  | closeTrade (player : PlayerId)

def stepTrades (s : Trades) : Step → Option Trades
  | .requestTrade sc p q => some (playerRequestTrade sc s p q)
  | .houseTrade p q i => some (houseStartTrade s p q i)
  | .acceptTrade sc p => playerAcceptTrade sc s p
  | .closeTrade p => some (internalCloseTrade s p)

/-- A crashed process takes no more steps. -/
def step (s : Option Trades) (e : Step) : Option Trades := s.bind fun s => stepTrades s e

/-- Nobody trades. -/
def Trades.idle : Trades := ⟨fun _ => {}, []⟩

@[simp] theorem set_player (s : Trades) (p r : PlayerId) (t : Trader) :
    (s.set p t).player r = if r = p then t else s.player r := by
  simp [Trades.set, Function.update_apply]

@[simp] theorem set_tradeItems (s : Trades) (p : PlayerId) (t : Trader) : (s.set p t).tradeItems = s.tradeItems := rfl

@[simp] theorem eraseItem_player (s : Trades) (i : Option ItemRef) : (s.eraseItem i).player = s.player := rfl

theorem mem_eraseItem {s : Trades} {i : Option ItemRef} {e : ItemRef × PlayerId} :
    e ∈ (s.eraseItem i).tradeItems ↔ e ∈ s.tradeItems ∧ some e.1 ≠ i := by
  simp [Trades.eraseItem]

/-! ## The session invariant -/

/-- What holds between any two steps, whoever accepts when. -/
structure Inv (s : Trades) : Prop where
  symm : ∀ p q, (s.player p).tradePartner = some q → (s.player q).tradePartner = some p
  irrefl : ∀ p, (s.player p).tradePartner ≠ some p
  idle : ∀ p, (s.player p).tradeState = .none ↔ (s.player p).tradePartner = none
  settled : ∀ p, (s.player p).tradeState ≠ .transfer
  listed : ∀ p i, (s.player p).tradeItem = some i ↔ (i, p) ∈ s.tradeItems
  keys : (s.tradeItems.map Prod.fst).Nodup
  offered : ∀ p, (s.player p).tradeState = .initiated → (s.player p).tradeItem.isSome
  bare : ∀ p, (s.player p).tradeState = .none ∨ (s.player p).tradeState = .acknowledge → (s.player p).tradeItem = none
  pending : ∀ p q, (s.player p).tradePartner = some q → (s.player p).tradeState = .accept →
    (s.player q).tradeState ≠ .accept

theorem Inv.idle_session : Inv Trades.idle := by
  constructor <;> simp [Trades.idle]

theorem Inv.owner_unique {s : Trades} (h : Inv s) {p q : PlayerId} {i : ItemRef}
    (hp : (s.player p).tradeItem = some i) (hq : (s.player q).tradeItem = some i) : p = q := by
  have := List.inj_on_of_nodup_map h.keys ((h.listed p i).mp hp) ((h.listed q i).mp hq) rfl
  simpa using this

/-- A player leaves his trade: his item leaves the map, his fields are reset. -/
def Trades.release (s : Trades) (p : PlayerId) : Trades :=
  (s.eraseItem (s.player p).tradeItem).set p {}

theorem Inv.release_idle {s : Trades} (h : Inv s) {p : PlayerId}
    (hp : (s.player p).tradePartner = none) : s.release p = s := by
  have hst := (h.idle p).mpr hp
  have hit := h.bare p (.inl hst)
  have hdef : s.player p = {} := by
    rcases hs : s.player p with ⟨st, q, i⟩
    simp_all
  cases s with
  | mk player tradeItems =>
    simp_all [Trades.release, Trades.set, Trades.eraseItem, ← hdef]

theorem Inv.release_pair {s : Trades} (h : Inv s) {p q : PlayerId}
    (hp : (s.player p).tradePartner = some q) : Inv ((s.release p).release q) := by
  have hq := h.symm p q hp
  have hpq : q ≠ p := fun e => h.irrefl p (e ▸ hp)
  -- nobody else has one of the two as partner
  have hother : ∀ r t, r ≠ p → r ≠ q → (s.player r).tradePartner = some t → t ≠ p ∧ t ≠ q := by
    intro r t hrp hrq hr
    refine ⟨?_, ?_⟩ <;> rintro rfl <;> have := h.symm _ _ hr <;> simp_all
  have hplayer : ∀ r, ((s.release p).release q).player r =
      if r = q then {} else if r = p then {} else s.player r := by
    intro r; simp [Trades.release]
  have hmem : ∀ e, e ∈ ((s.release p).release q).tradeItems ↔
      e ∈ s.tradeItems ∧ some e.1 ≠ (s.player p).tradeItem ∧ some e.1 ≠ (s.player q).tradeItem := by
    intro e; simp [Trades.release, mem_eraseItem, hpq, and_assoc]
  refine ⟨?_, ?_, ?_, ?_, ?_, ?_, ?_, ?_, ?_⟩
  · intro r t; simp only [hplayer]; grind [h.symm r t]
  · intro r; simp only [hplayer]; grind [h.irrefl r]
  · intro r; simp only [hplayer]; grind [h.idle r]
  · intro r; simp only [hplayer]; grind [h.settled r]
  · intro r i
    rw [hmem]; simp only [hplayer]
    have := h.listed r i
    have := fun hi => h.owner_unique (p := r) (q := p) (i := i) hi
    have := fun hi => h.owner_unique (p := r) (q := q) (i := i) hi
    grind
  · exact (h.keys.sublist ((List.filter_sublist.trans List.filter_sublist).map _))
  · intro r; simp only [hplayer]; grind [h.offered r]
  · intro r; simp only [hplayer]; grind [h.bare r]
  · intro r t; simp only [hplayer]; grind [h.pending r t]

theorem Inv.closeTrade {s : Trades} (h : Inv s) (p : PlayerId) : Inv (internalCloseTrade s p) := by
  unfold internalCloseTrade
  dsimp only
  split
  · exact h
  · cases hp : (s.player p).tradePartner with
    | none =>
      change Inv (s.release p)
      rw [h.release_idle hp]
      exact h
    | some q => exact h.release_pair hp

theorem transferItems_eq {sc : Scene} {s t : Trades} {p q : PlayerId} (hpq : q ≠ p)
    (h : transferItems sc s p q = some t) : t = (s.release p).release q := by
  unfold transferItems at h
  simp only [Option.ite_none_left_eq_some, Option.some.injEq] at h
  obtain ⟨-, -, -, rfl⟩ := h
  cases s with
  | mk player tradeItems =>
    simp only [Trades.release, Trades.set, Trades.eraseItem, Trades.mk.injEq]
    refine ⟨?_, by simp [hpq]⟩
    funext r
    simp only [Function.update_apply]
    grind

theorem transferItems_isSome {sc : Scene} {s : Trades} {p q : PlayerId} (hp : (s.player p).tradeItem.isSome)
    (hq : (s.player q).tradeItem.isSome) : (transferItems sc s p q).isSome := by
  obtain ⟨i, hi⟩ := Option.isSome_iff_exists.mp hp
  obtain ⟨j, hj⟩ := Option.isSome_iff_exists.mp hq
  simp [transferItems, hi, hj]

/-- What `internalStartTrade` does: nothing, or it opens the trade for a player
who is free or answers for one who was asked by the partner. -/
theorem internalStartTrade_cases (s : Trades) {p q : PlayerId} (hpq : p ≠ q) (i : ItemRef) :
    internalStartTrade s p q i = (false, s) ∨
    ((s.player p).tradeState = .none ∨ (s.player p).tradeState = .acknowledge ∧ (s.player p).tradePartner = some q) ∧
    ((s.player q).tradeState = .none ∨ (s.player q).tradePartner = some p) ∧
    (internalStartTrade s p q i).2.tradeItems = (i, p) :: (s.eraseItem (some i)).tradeItems ∧
    ∀ r, (internalStartTrade s p q i).2.player r =
      if r = p then ⟨.initiated, some q, some i⟩
      else if r = q ∧ (s.player q).tradeState = .none then
        { s.player q with tradeState := .acknowledge, tradePartner := some p }
      else s.player r := by
  have hqp := hpq.symm
  unfold internalStartTrade
  dsimp only
  split
  · exact .inl rfl
  · split
    · exact .inl rfl
    · right
      simp_all only [bne_iff_ne, ne_eq, Bool.and_eq_true, Bool.not_eq_true', Bool.and_eq_false_imp,
        beq_iff_eq, not_and]
      refine ⟨by grind, by grind, ?_, ?_⟩
      · split <;> rfl
      · intro r
        split <;> (simp_all only [set_player, eraseItem_player]; grind)

/-- A new trade, or the answer to one, keeps the invariant when the item is in
no trade. -/
theorem Inv.startTrade {s : Trades} (h : Inv s) {p q : PlayerId} {i : ItemRef} (hpq : p ≠ q)
    (hi : i ∉ s.tradeItems.map Prod.fst) : Inv (internalStartTrade s p q i).2 := by
  rcases internalStartTrade_cases s hpq i with hf | ⟨hp, hq, hitems, hplayer⟩
  · rw [hf]; exact h
  have hbare : (s.player p).tradeItem = none := h.bare p (by grind)
  have hfree : ∀ r, (s.player r).tradeItem ≠ some i := fun r hr =>
    hi (List.mem_map.mpr ⟨_, (h.listed r i).mp hr, rfl⟩)
  -- whoever is a partner of the two is the other one
  have hpartner : ∀ r, (s.player r).tradePartner = some p → r = q := by
    intro r hr
    have := h.symm _ _ hr
    have := h.idle p
    grind
  have hpartner' : ∀ r, (s.player r).tradePartner = some q → r = p := by
    intro r hr
    have := h.symm _ _ hr
    have := h.idle q
    grind
  refine ⟨?_, ?_, ?_, ?_, ?_, ?_, ?_, ?_, ?_⟩
  · intro r t; simp only [hplayer]; have := h.symm r t; grind
  · intro r; simp only [hplayer]; have := h.irrefl r; grind
  · intro r; simp only [hplayer]; have := h.idle r; grind
  · intro r; simp only [hplayer]; have := h.settled r; grind
  · intro r j
    rw [hitems]; simp only [List.mem_cons, mem_eraseItem, hplayer, Prod.mk.injEq]
    have := h.listed r j
    have := hfree r
    grind
  · rw [hitems]
    simp only [List.map_cons, List.nodup_cons]
    refine ⟨?_, h.keys.sublist (List.filter_sublist.map _)⟩
    intro hm
    obtain ⟨e, he, hei⟩ := List.mem_map.mp hm
    exact (mem_eraseItem.mp he).2 (by simp [hei])
  · intro r; simp only [hplayer]; have := h.offered r; grind
  · intro r; simp only [hplayer]; have := h.bare r; grind
  · intro r t; simp only [hplayer]; have := h.pending r t; grind

theorem markAccept_player (s : Trades) (p r : PlayerId) : (s.markAccept p).player r =
      if r = p then { s.player p with tradeState := .accept } else s.player r := set_player ..

theorem markAccept_release (s : Trades) (p : PlayerId) : (s.markAccept p).release p = s.release p := by
  simp [Trades.release, Trades.markAccept, Trades.set, Trades.eraseItem]

/-- The outcomes of `playerAcceptTrade`: refused, first of the two, or second of
the two, where the session ends unless a null item is dereferenced. -/
theorem playerAcceptTrade_cases (sc : Scene) {s : Trades} (h : Inv s) (p : PlayerId) :
    playerAcceptTrade sc s p = some s ∨
    ∃ q, (s.player p).tradePartner = some q ∧
      ((s.player p).tradeState = .acknowledge ∨ (s.player p).tradeState = .initiated) ∧
      ((s.player q).tradeState ≠ .accept ∧ playerAcceptTrade sc s p = some (s.markAccept p) ∨
        (s.player q).tradeState = .accept ∧ (playerAcceptTrade sc s p = some ((s.release p).release q) ∨
            (s.player p).tradeItem = none ∨ (s.player q).tradeItem = none)) := by
  unfold playerAcceptTrade
  dsimp only
  split
  · exact .inl rfl
  split
  · exact .inl rfl
  rename_i hstate
  split
  · exact .inl rfl
  rename_i q hq
  split
  · exact .inl rfl
  right
  have hqp : q ≠ p := fun e => h.irrefl p (e ▸ hq)
  have hend : ∀ t, transferItems sc (s.markAccept p) p q = some t → t = (s.release p).release q := by
    intro t ht
    rw [transferItems_eq hqp ht, markAccept_release]
  refine ⟨q, hq, by simpa [or_iff_not_imp_left] using hstate, ?_⟩
  by_cases hacc : (s.player q).tradeState = .accept
  · refine .inr ⟨hacc, ?_⟩
    by_cases hp : (s.player p).tradeItem = none
    · exact .inr (.inl hp)
    by_cases hqi : (s.player q).tradeItem = none
    · exact .inr (.inr hqi)
    left
    have hsome : (transferItems sc (s.markAccept p) p q).isSome := by
      apply transferItems_isSome <;>
        simpa [markAccept_player, hqp, Option.isSome_iff_ne_none]
    obtain ⟨t, ht⟩ := Option.isSome_iff_exists.mp hsome
    have hclose : internalCloseTrade (s.markAccept p) p = (s.release p).release q := by
      have : internalCloseTrade (s.markAccept p) p = ((s.markAccept p).release p).release q := by
        simp [internalCloseTrade, markAccept_player, hq, hqp, hacc, Trades.release]
      rw [this, markAccept_release]
    simp only [markAccept_player, hqp, if_false, if_true, hacc, bne_self_eq_false, Bool.false_eq_true]
    split
    · rw [ht, hend t ht]
    · simp only [hp, hqi, Option.isNone_iff_eq_none, Bool.or_eq_true, or_self, if_false]
      split
      · rw [ht, hend t ht]
      · rw [hclose]
  · refine .inl ⟨hacc, ?_⟩
    simp [markAccept_player, hqp, hacc]

theorem Inv.markAccept {s : Trades} (h : Inv s) {p q : PlayerId} (hq : (s.player p).tradePartner = some q)
    (hacc : (s.player q).tradeState ≠ .accept) : Inv (s.markAccept p) := by
  have hqp : q ≠ p := fun e => h.irrefl p (e ▸ hq)
  have hp := h.idle p
  refine ⟨?_, ?_, ?_, ?_, ?_, h.keys, ?_, ?_, ?_⟩
  · intro r t; simp only [markAccept_player]; have := h.symm r t; grind
  · intro r; simp only [markAccept_player]; have := h.irrefl r; grind
  · intro r; simp only [markAccept_player]; have := h.idle r; grind
  · intro r; simp only [markAccept_player]; have := h.settled r; grind
  · intro r i; simp only [markAccept_player]; have :=
      h.listed r i; grind [Trades.markAccept, set_tradeItems]
  · intro r; simp only [markAccept_player]; have := h.offered r; grind
  · intro r; simp only [markAccept_player]; have := h.bare r; grind
  · intro r t; simp only [markAccept_player]
    have := h.pending r t
    have := h.symm r t
    grind

theorem not_mem_of_not_alreadyTraded {sc : Scene} {s : Trades} {i : ItemRef}
    (h : alreadyTraded sc s i = false) : i ∉ s.tradeItems.map Prod.fst := by
  intro hm
  obtain ⟨⟨j, p⟩, hj, rfl⟩ := List.mem_map.mp hm
  have := List.any_eq_false.mp h _ hj
  simp at this

/-- A request is refused, or opens a trade for an item that is in none. -/
theorem playerRequestTrade_cases (sc : Scene) (s : Trades) (p q : PlayerId) : playerRequestTrade sc s p q = s ∨
    ∃ i, p ≠ q ∧ i ∉ s.tradeItems.map Prod.fst ∧ playerRequestTrade sc s p q = (internalStartTrade s p q i).2 := by
  unfold playerRequestTrade
  split
  · exact .inl rfl
  split
  · exact .inl rfl
  rename_i hne
  split
  · exact .inl rfl
  split
  · exact .inl rfl
  split
  · exact .inl rfl
  rename_i i _
  split
  · exact .inl rfl
  split
  · exact .inl rfl
  split
  · exact .inl rfl
  split
  · exact .inl rfl
  rename_i htraded
  split
  · exact .inl rfl
  split
  · exact .inl rfl
  have hpq : p ≠ q := by rintro rfl; simp at hne
  exact .inr ⟨i, hpq, not_mem_of_not_alreadyTraded (by simpa using htraded), rfl⟩

theorem Inv.requestTrade {s : Trades} (h : Inv s) (sc : Scene) (p q : PlayerId) :
    Inv (playerRequestTrade sc s p q) := by
  rcases playerRequestTrade_cases sc s p q with hr | ⟨i, hpq, hi, hr⟩
  · rw [hr]; exact h
  · rw [hr]; exact h.startTrade hpq hi

theorem Inv.houseTrade {s : Trades} (h : Inv s) (p q : PlayerId) (i : ItemRef) : Inv (houseStartTrade s p q i) := by
  unfold houseStartTrade
  split
  · exact h
  · rename_i hne
    exact h.startTrade (fun e => hne (.inl e)) (fun e => hne (.inr e))

/-! ## Runs -/

/-- Whoever has accepted has put up an item. -/
def AcceptedOffer (s : Trades) : Prop :=
  ∀ p, (s.player p).tradeState = .accept → (s.player p).tradeItem.isSome

/-- No player accepts a trade he was only asked for: he puts up an item first. -/
def PutsUpFirst (s : Option Trades) (e : Step) : Prop :=
  match s, e with
  | some s, .acceptTrade _ p => (s.player p).tradeState ≠ .acknowledge
  | _, _ => True

instance : (s : Option Trades) → (e : Step) → Decidable (PutsUpFirst s e)
  | some s, .acceptTrade _ p =>
    inferInstanceAs (Decidable ((s.player p).tradeState ≠ .acknowledge))
  | some _, .requestTrade .. | some _, .houseTrade .. | some _, .closeTrade .. | none, _ =>
    isTrue trivial

/-- The states of a run in which everybody puts up an item before accepting. -/
def Good (s : Option Trades) : Prop := ∃ t, s = some t ∧ Inv t ∧ AcceptedOffer t

theorem AcceptedOffer.release {s : Trades} (h : AcceptedOffer s) (p : PlayerId) : AcceptedOffer (s.release p) := by
  intro r
  simp only [Trades.release, set_player, eraseItem_player]
  have := h r
  grind

theorem AcceptedOffer.startTrade {s : Trades} (h : AcceptedOffer s) {p q : PlayerId} (hpq : p ≠ q)
    (i : ItemRef) : AcceptedOffer (internalStartTrade s p q i).2 := by
  rcases internalStartTrade_cases s hpq i with hf | ⟨-, -, -, hplayer⟩
  · rw [hf]; exact h
  · intro r
    rw [hplayer r]
    have := h r
    grind

theorem good_step {s : Option Trades} {e : Step} (h : Good s) (hok : PutsUpFirst s e) : Good (step s e) := by
  obtain ⟨t, rfl, hi, ha⟩ := h
  cases e with
  | requestTrade sc p q =>
    refine ⟨_, rfl, hi.requestTrade sc p q, ?_⟩
    rcases playerRequestTrade_cases sc t p q with hr | ⟨i, hpq, -, hr⟩
    · rw [hr]; exact ha
    · rw [hr]; exact ha.startTrade hpq i
  | houseTrade p q i =>
    refine ⟨_, rfl, hi.houseTrade p q i, ?_⟩
    unfold houseStartTrade
    split
    · exact ha
    · rename_i hne
      exact ha.startTrade (fun e => hne (.inl e)) _
  | closeTrade p =>
    refine ⟨_, rfl, hi.closeTrade p, ?_⟩
    unfold internalCloseTrade
    dsimp only
    split
    · exact ha
    · split
      · exact ha.release p
      · exact (ha.release p).release _
  | acceptTrade sc p =>
    simp only [PutsUpFirst] at hok
    change Good (playerAcceptTrade sc t p)
    rcases playerAcceptTrade_cases sc hi p with hr | ⟨q, hq, hst, ⟨hqa, hr⟩ | ⟨hqa, hr⟩⟩
    · rw [hr]; exact ⟨t, rfl, hi, ha⟩
    · have hitem := hi.offered p (hst.resolve_left hok)
      rw [hr]
      refine ⟨_, rfl, hi.markAccept hq hqa, fun r => ?_⟩
      rw [markAccept_player]
      have := ha r
      grind
    · -- both items are there: the partner accepted with one, the player initiated with one
      have hitem := hi.offered p (hst.resolve_left hok)
      have hitem' := ha q hqa
      rcases hr with hr | hn | hn
      · rw [hr]; exact ⟨_, rfl, hi.release_pair hq, (ha.release p).release q⟩
      · rw [hn] at hitem; simp at hitem
      · rw [hn] at hitem'; simp at hitem'

/-- Partners point at each other, the map holds the traded items, each of one
player, and two who have both accepted both have an item. -/
structure SessionSound (s : Trades) : Prop where
  partners : ∀ a b, (s.player a).tradePartner = some b → (s.player b).tradePartner = some a ∨
      (∀ c, (s.player b).tradePartner = some c → c = a) ∧ (s.player a).tradeState = .initiated
  items : ∀ i, i ∈ s.tradeItems.map Prod.fst ↔ ∃ p, (s.player p).tradeItem = some i
  once : (s.tradeItems.map Prod.fst).Nodup ∧
    ∀ p q i, (s.player p).tradeItem = some i → (s.player q).tradeItem = some i → p = q
  accepted : ∀ p q, (s.player p).tradePartner = some q → (s.player p).tradeState = .accept →
    (s.player q).tradeState = .accept → (s.player p).tradeItem.isSome ∧ (s.player q).tradeItem.isSome

/-- The same while a player who has put up his item is accepting. -/
def SwapSound (s : Trades) : Prop :=
  ∀ p q, (s.player p).tradePartner = some q → (s.player p).tradeState = .initiated →
    (s.player q).tradeState = .accept →
    ((s.markAccept p).player p).tradeItem.isSome ∧ ((s.markAccept p).player q).tradeItem.isSome

theorem Inv.sound {s : Trades} (h : Inv s) (ha : AcceptedOffer s) : SessionSound s ∧ SwapSound s := by
  refine ⟨⟨fun a b hab => .inl (h.symm a b hab), fun i => ?_, ⟨h.keys, fun p q i => h.owner_unique⟩,
    fun p q _ hp hq => ⟨ha p hp, ha q hq⟩⟩, fun p q hpq hp hq => ?_⟩
  · simp only [List.mem_map, Prod.exists, exists_and_right, exists_eq_right]
    exact exists_congr fun p => (h.listed p i).symm
  · have hqp : q ≠ p := fun e => h.irrefl p (e ▸ hpq)
    simp only [markAccept_player, hqp, if_false, if_true]
    exact ⟨h.offered p hp, ha q hq⟩

/-- In every run in which players put up an item before they accept, every
state reached is a sound session and no swap dereferences a null item. -/
theorem trade_sessions_sound (es : List Step) (h : Along step PutsUpFirst (some Trades.idle) es) :
    ∀ pre, pre <+: es → ∃ s, run step (some Trades.idle) pre = some s ∧ SessionSound s ∧ SwapSound s := by
  intro pre hpre
  have hidle : Good (some Trades.idle) := ⟨_, rfl, Inv.idle_session, fun p => by simp [Trades.idle]⟩
  obtain ⟨s, hs, hi, ha⟩ := inv_reached (fun s e => good_step) hidle h pre hpre
  exact ⟨s, hs, hi.sound ha⟩

/-- A quiet place: two traders stand together, each carries what is asked for
in a backpack of his own, and no event is registered. -/
def calm (thing : Option ItemRef) : Scene where
  online := fun _ => true
  areInRange := fun _ _ => true
  canThrowObjectTo := fun _ _ => true
  thing := thing
  hasClientId := fun _ => true
  isPickupable := fun _ => true
  hasUniqueId := fun _ => false
  houseForbids := false
  sameFloor := true
  nextTo := true
  isContainer := fun i => i == 7
  isHoldingItem := fun _ _ => false
  getItemHoldingCount := fun _ => 0
  onTradeRequest := true
  backpack := fun p => if p = 1 then some 7 else none
  onTradeAccept := none
  onTradeCompleted := false

/-- Player 1 offers item 5, player 2 answers with item 6, both accept. -/
def fairTrade : List Step :=
  [.requestTrade (calm (some 5)) 1 2, .requestTrade (calm (some 6)) 2 1,
    .acceptTrade (calm none) 2, .acceptTrade (calm none) 1]

theorem trade_sessions_sound_fair :
    ∃ s, run step (some Trades.idle) fairTrade = some s ∧ SessionSound s ∧ SwapSound s :=
  trade_sessions_sound fairTrade (by decide) fairTrade List.prefix_rfl

/-- Player 1 offers his backpack and player 2 accepts without putting anything up. -/
def bareTrade : List Step := [.requestTrade (calm (some 7)) 1 2, .acceptTrade (calm none) 2]

/-- When player 1 accepts as well, both are in `TRADE_ACCEPT`, one has no item,
and the swap asks the missing item for its slot. -/
theorem trade_null_item : (∃ s, run step (some Trades.idle) bareTrade = some s ∧
      ((s.markAccept 1).player 1).tradePartner = some 2 ∧
      ((s.markAccept 1).player 1).tradeState = .accept ∧
      ((s.markAccept 1).player 2).tradeState = .accept ∧
      ((s.markAccept 1).player 2).tradeItem = none) ∧
    run step (some Trades.idle) (bareTrade ++ [.acceptTrade (calm none) 1]) = none :=
  ⟨⟨_, rfl, rfl, rfl, rfl, rfl⟩, rfl⟩

end ForgottenServer.Trade.Session
