import ForgottenServer.Market.Offers

/-! # Market conservation

No step of the market creates or destroys items or money: an item is in a chest
or an inbox or in an open sell offer, gold is on an account, in an open buy
offer or was charged as a fee. The expiry is the exception: it refunds the
amount its SELECT read, so the law needs that no part of the offer was traded
between the SELECT and the refund. -/
namespace ForgottenServer.Market.Conservation
open ForgottenServer.Lib.Run ForgottenServer.Lib
open ForgottenServer.Market.Offers

variable {P D : Type*}

/-- The items of a kind held back by an open sell offer. -/
def Offer.goods (i : ℕ) (o : Offer P) : ℕ := if o.type = .sell ∧ o.itemId = i then o.amount else 0

/-- The gold held back by an open buy offer. -/
def Offer.deposit (o : Offer P) : ℕ := if o.type = .buy then o.price * o.amount else 0

theorem goods_split (j : ℕ) {o : Offer P} {n : ℕ} (hn : n ≤ o.amount) :
    Offer.goods j { o with amount := o.amount - n } + Offer.goods j { o with amount := n } = Offer.goods j o := by
  unfold Offer.goods
  split
  · exact Nat.sub_add_cancel hn
  · rfl

theorem deposit_split {o : Offer P} {n : ℕ} (hn : n ≤ o.amount) :
    Offer.deposit { o with amount := o.amount - n } + Offer.deposit { o with amount := n } = Offer.deposit o := by
  unfold Offer.deposit
  split
  · rw [← Nat.mul_add, Nat.sub_add_cancel hn]
  · rfl

section Totals
variable [Fintype P] [Fintype D]

def total (h : Held P D) (i : ℕ) : ℕ := ∑ b, h b i

/-- Items of a kind in chests, inboxes and open sell offers. -/
def items (s : MarketState P D) (i : ℕ) : ℕ := total s.held i + (s.offers.map (Offer.goods i)).sum

/-- Gold on the accounts and in open buy offers. -/
def money (s : MarketState P D) : ℕ := ∑ p, s.bankBalance p + (s.offers.map Offer.deposit).sum

/-- Items are the same, gold is the same but for the fees. -/
def Conserves (s s' : MarketState P D) : Prop :=
  (∀ i, items s' i = items s i) ∧ money s' + s'.fees = money s + s.fees

theorem Conserves.refl (s : MarketState P D) : Conserves s s := ⟨fun _ => rfl, rfl⟩

theorem Conserves.trans {s s' s'' : MarketState P D} (h : Conserves s s') (h' : Conserves s' s'') : Conserves s s'' :=
  ⟨fun i => (h'.1 i).trans (h.1 i), h'.2.trans h.2⟩

theorem bank_le_sum (bank : P → ℕ) (p : P) : bank p ≤ ∑ q, bank q :=
  Finset.single_le_sum (fun _ _ => Nat.zero_le _) (Finset.mem_univ p)

variable [DecidableEq P] [DecidableEq D]

theorem total_add (h : Held P D) (b : Box P D) (i n j : ℕ) :
    total (h.add b i n) j = total h j + if j = i then n else 0 := by
  have hpt : ∀ b', h.add b i n b' j = h b' j + if b' = b then (if j = i then n else 0) else 0 := by
    intro b'
    by_cases hb : b' = b <;> by_cases hj : j = i <;> simp [Held.add, hb, hj]
  simp only [total, hpt, Finset.sum_add_distrib, Finset.sum_ite_eq', Finset.mem_univ, if_true]

theorem total_sub {h : Held P D} {b : Box P D} {i n : ℕ} (hn : n ≤ h b i) (j : ℕ) :
    total (h.sub b i n) j + (if j = i then n else 0) = total h j := by
  have hadd : (h.sub b i n).add b i n = h := by
    funext b' j'
    by_cases hb : b' = b ∧ j' = i
    · obtain ⟨rfl, rfl⟩ := hb
      simp only [Held.add, Held.sub, and_self, if_true]
      omega
    · simp only [Held.add, Held.sub, if_neg hb]
  rw [← total_add, hadd]

theorem sum_credit {bank : P → ℕ} {p : P} {n : ℕ} (h : bank p + n < 2 ^ 64) :
    ∑ q, credit bank p n q = ∑ q, bank q + n := by
  have hpt : ∀ q, credit bank p n q = bank q + if q = p then n else 0 := by
    intro q
    by_cases hq : q = p
    · subst hq; simp only [credit, Function.update_self, Nat.mod_eq_of_lt h, if_true]
    · simp [credit, hq]
  simp only [hpt, Finset.sum_add_distrib, Finset.sum_ite_eq', Finset.mem_univ, if_true]

theorem sum_debit {bank : P → ℕ} {p : P} {n : ℕ} (h : n ≤ bank p) : ∑ q, debit bank p n q + n = ∑ q, bank q := by
  have hpt : ∀ q, bank q = debit bank p n q + if q = p then n else 0 := by
    intro q
    by_cases hq : q = p
    · subst hq; simp [debit, Nat.sub_add_cancel h]
    · simp [debit, hq]
  conv_rhs => rw [Finset.sum_congr rfl fun q _ => hpt q]
  simp only [Finset.sum_add_distrib, Finset.sum_ite_eq', Finset.mem_univ, if_true]

end Totals

/-! ## Giving and taking items -/

/-- A type whose items can be made anew and put into an inbox. -/
def Storable (w : World) (i : ℕ) : Prop :=
  (w.types i).id = i ∧ i ≠ 0 ∧ w.createItem i = some i ∧ (w.types i).pickupable = true

instance (w : World) (i : ℕ) : Decidable (Storable w i) :=
  inferInstanceAs (Decidable (_ ∧ _ ∧ _ ∧ _))

section Goods
variable [DecidableEq P] [DecidableEq D]

theorem addToInbox_eq {w : World} {i : ℕ} (hi : Storable w i) (h : Held P D) (p : P) (n : ℕ) :
    addToInbox w h p i n = some (h.add (p, none) i n) := by
  obtain ⟨-, -, hc, hp⟩ := hi
  simp [addToInbox, hc, hp]

theorem add_add (h : Held P D) (b : Box P D) (i m n : ℕ) : (h.add b i m).add b i n = h.add b i (m + n) := by
  funext b' j
  by_cases hb : b' = b ∧ j = i
  · simp only [Held.add, if_pos hb, Nat.add_assoc]
  · simp only [Held.add, if_neg hb]

theorem add_zero (h : Held P D) (b : Box P D) (i : ℕ) : h.add b i 0 = h := by
  funext b' j
  simp [Held.add]

theorem addStacks_eq {w : World} {i : ℕ} (hi : Storable w i) (p : P) (fuel : ℕ) (h : Held P D)
    (n : ℕ) (hn : n ≤ fuel) : addStacks w p i fuel h n = h.add (p, none) i n := by
  induction fuel generalizing h n with
  | zero =>
    obtain rfl : n = 0 := by omega
    simp [addStacks, add_zero]
  | succ fuel ih =>
    unfold addStacks
    split
    · rename_i h0
      rw [h0, add_zero]
    · have hle : n - min 100 n ≤ fuel := by omega
      have hsum : min 100 n + (n - min 100 n) = n := by omega
      simp only [addToInbox_eq hi]
      rw [ih _ _ hle, add_add, hsum]

theorem addSingles_eq {w : World} {i : ℕ} (hi : Storable w i) (p : P) (n : ℕ) (h : Held P D) :
    addSingles w p i n h = h.add (p, none) i n := by
  induction n generalizing h with
  | zero => simp [addSingles, add_zero]
  | succ n ih =>
    simp only [addSingles, addToInbox_eq hi]
    rw [ih, add_add, Nat.add_comm]

theorem giveItems_eq {w : World} {i : ℕ} (hi : Storable w i) (h : Held P D) (p : P) (n : ℕ) :
    giveItems w h p (w.types i) n = h.add (p, none) i n := by
  unfold giveItems
  rw [hi.1]
  split
  · exact addStacks_eq hi p n h n (Nat.le_refl n)
  · exact addSingles_eq hi p n h

theorem storable_add {w : World} {h : Held P D} {b : Box P D} {i n : ℕ} (hi : Storable w i)
    (hs : ∀ b i, 0 < h b i → Storable w i) : ∀ b' j, 0 < h.add b i n b' j → Storable w j := by
  intro b' j hpos
  unfold Held.add at hpos
  split at hpos
  · rename_i hb
    rw [hb.2]
    exact hi
  · exact hs b' j hpos

def units (b : Box P D) (i : ℕ) (l : List (Found P D)) : ℕ :=
  ((l.filter fun g => g.box = b ∧ g.itemId = i).map Found.itemCount).sum

theorem units_cons (b : Box P D) (i : ℕ) (f : Found P D) (l : List (Found P D)) :
    units b i (f :: l) = (if f.box = b ∧ f.itemId = i then f.itemCount else 0) + units b i l := by
  by_cases h : f.box = b ∧ f.itemId = i
  · simp [units, h]
  · simp only [units, List.filter_cons, if_neg h, decide_eq_false h, Bool.false_eq_true, if_false, Nat.zero_add]

theorem units_sublist {b : Box P D} {i : ℕ} {l l' : List (Found P D)} (h : l.Sublist l') :
    units b i l ≤ units b i l' := ((h.filter _).map _).sum_le_sum fun _ _ => Nat.zero_le _

omit [DecidableEq P] [DecidableEq D] in
/-- The findings make up the amount: all of one ware, no more of a box than the
walk met there, and no more than needed when they are single items. -/
theorem getMarketItemList_spec (w : World) (wareId n : ℕ) (walk : List (Found P D)) (count : ℕ)
    (acc : List (Found P D)) :
    getMarketItemList w wareId n walk count acc = [] ∨
    ∃ l : List (Found P D), l.Sublist walk ∧ getMarketItemList w wareId n walk count acc = l.reverse ++ acc ∧
      (∀ f ∈ l, (w.types f.itemId).wareId = wareId) ∧ n ≤ count + (l.map Found.itemCount).sum ∧
      ((∀ f ∈ l, f.itemCount = 1) → count < n → n = count + (l.map Found.itemCount).sum) := by
  induction walk generalizing count acc with
  | nil => exact .inl rfl
  | cons f walk ih =>
    unfold getMarketItemList
    split
    · rcases ih count acc with h | ⟨l, hsub, h⟩
      · exact .inl h
      · exact .inr ⟨l, hsub.cons f, h⟩
    · rename_i hware
      split
      · rename_i henough
        refine .inr ⟨[f], by simp, by simp, by simpa using hware, by simpa using henough, ?_⟩
        intro hone hlt
        have := hone f (by simp)
        simp only [List.map_cons, List.map_nil, List.sum_cons, List.sum_nil]
        omega
      · rename_i hmore
        rcases ih (count + f.itemCount) (f :: acc) with h | ⟨l, hsub, heq, hw, hn, hone⟩
        · exact .inl h
        · refine .inr ⟨f :: l, hsub.cons_cons f, by simp [heq], ?_, ?_, ?_⟩
          · rintro g (_ | ⟨_, hg⟩)
            · simpa using hware
            · exact hw g hg
          · simp only [List.map_cons, List.sum_cons]
            omega
          · intro hall hlt
            have := hone (fun g hg => hall g (List.mem_cons_of_mem f hg)) (by omega)
            simp only [List.map_cons, List.sum_cons]
            omega

theorem sub_le (h : Held P D) (b : Box P D) (i n : ℕ) (b' : Box P D) (j : ℕ) : h.sub b i n b' j ≤ h b' j := by
  unfold Held.sub
  split
  · exact Nat.sub_le _ _
  · exact Nat.le_refl _

theorem removeStacks_le (l : List (Found P D)) (h : Held P D) (n : ℕ) (b : Box P D) (i : ℕ) :
    removeStacks h l n b i ≤ h b i := by
  induction l generalizing h n with
  | nil => exact Nat.le_refl _
  | cons f l ih =>
    unfold removeStacks
    dsimp only
    split
    · exact sub_le ..
    · exact (ih _ _).trans (sub_le ..)

theorem removeAll_le (l : List (Found P D)) (h : Held P D) (b : Box P D) (i : ℕ) :
    l.foldl (fun h f => h.sub f.box f.itemId f.itemCount) h b i ≤ h b i := by
  induction l generalizing h with
  | nil => exact Nat.le_refl _
  | cons f l ih => exact (ih _).trans (sub_le ..)

theorem removeItems_le (h : Held P D) (it : ItemType) (l : List (Found P D)) (n : ℕ)
    (b : Box P D) (i : ℕ) : removeItems h it l n b i ≤ h b i := by
  unfold removeItems
  split
  · exact removeStacks_le ..
  · exact removeAll_le ..

theorem units_sub {h : Held P D} {f : Found P D} {l : List (Found P D)} {i n : ℕ}
    (hl : ∀ b, units b i (f :: l) ≤ h b i) (hn : n ≤ f.itemCount) (hf : f.itemId = i) (b : Box P D) :
    units b i l ≤ h.sub f.box f.itemId n b i := by
  have := hl b
  rw [units_cons] at this
  unfold Held.sub
  by_cases hb : b = f.box
  · subst hb
    simp only [hf, and_self, if_true] at this ⊢
    omega
  · have hb' : ¬(f.box = b ∧ f.itemId = i) := fun e => hb e.1.symm
    simp only [hb, hb', false_and, if_false] at this ⊢
    omega

section Totals
variable [Fintype P] [Fintype D]

theorem total_removeStacks {i : ℕ} (l : List (Found P D)) (h : Held P D) (n : ℕ) (hi : ∀ f ∈ l, f.itemId = i)
    (hl : ∀ b, units b i l ≤ h b i) (hn : n ≤ (l.map Found.itemCount).sum) (j : ℕ) :
    total (removeStacks h l n) j + (if j = i then n else 0) = total h j := by
  induction l generalizing h n with
  | nil =>
    obtain rfl : n = 0 := by simpa using hn
    simp [removeStacks]
  | cons f l ih =>
    have hf : f.itemId = i := hi f (by simp)
    have hheld : min n f.itemCount ≤ h f.box f.itemId := by
      have := hl f.box
      rw [units_cons, if_pos ⟨rfl, hf⟩] at this
      rw [hf]
      omega
    have hsub := total_sub hheld j
    rw [hf] at hsub
    unfold removeStacks
    dsimp only
    split
    · rename_i h0
      have hmin : min n f.itemCount = n := by omega
      rw [hf]
      rw [hmin] at hsub ⊢
      exact hsub
    · have hrest : n - min n f.itemCount ≤ (l.map Found.itemCount).sum := by
        simp only [List.map_cons, List.sum_cons] at hn
        omega
      have := ih (h.sub f.box f.itemId (min n f.itemCount)) (n - min n f.itemCount)
        (fun g hg => hi g (List.mem_cons_of_mem f hg))
        (units_sub hl (Nat.min_le_right _ _) hf) hrest
      rw [hf] at this ⊢
      rw [← hsub, ← this]
      split <;> omega

theorem total_removeAll {i : ℕ} (l : List (Found P D)) (h : Held P D)
    (hi : ∀ f ∈ l, f.itemId = i) (hl : ∀ b, units b i l ≤ h b i) (j : ℕ) :
    total (l.foldl (fun h f => h.sub f.box f.itemId f.itemCount) h) j +
      (if j = i then (l.map Found.itemCount).sum else 0) = total h j := by
  induction l generalizing h with
  | nil => simp
  | cons f l ih =>
    have hf : f.itemId = i := hi f (by simp)
    have hheld : f.itemCount ≤ h f.box f.itemId := by
      have := hl f.box
      rw [units_cons, if_pos ⟨rfl, hf⟩] at this
      rw [hf]
      omega
    have hsub := total_sub hheld j
    have := ih (h.sub f.box f.itemId f.itemCount) (fun g hg => hi g (List.mem_cons_of_mem f hg))
      (units_sub hl (Nat.le_refl _) hf)
    rw [List.foldl_cons, ← hsub, ← this]
    rw [hf]
    simp only [List.map_cons, List.sum_cons]
    split <;> omega

/-- A visit that sees only items of the offered type in its ware takes exactly
the amount out of chest and inbox. -/
theorem take_spec {w : World} {s : MarketState P D} {v : Visit P D} {it : ItemType} {n : ℕ} (hsees : v.Sees w s.held)
    (hown : ∀ f ∈ v.walk, (w.types f.itemId).wareId = it.wareId → f.itemId = it.id)
    (hit : (w.types it.id).stackable = it.stackable)
    (hn : 0 < n) (hne : getMarketItemList w it.wareId n v.walk 0 [] ≠ []) :
    (∃ b, 0 < s.held b it.id) ∧
    ∀ j, total (removeItems s.held it (getMarketItemList w it.wareId n v.walk 0 []) n) j +
      (if j = it.id then n else 0) = total s.held j := by
  rcases getMarketItemList_spec w it.wareId n v.walk 0 [] with h | ⟨l, hsub, heq, hware, hsum, hone⟩
  · exact absurd h hne
  rw [heq, List.append_nil] at hne ⊢
  have hid : ∀ f ∈ l, f.itemId = it.id := fun f hf => hown f (hsub.subset hf) (hware f hf)
  have hunits : ∀ f ∈ l, units f.box it.id l ≤ s.held f.box it.id := by
    intro f hf
    have := (hsees f (hsub.subset hf)).2.2.2.2
    rw [hid f hf] at this
    exact (units_sublist hsub).trans this
  have hall : ∀ b, units b it.id l.reverse ≤ s.held b it.id := by
    intro b
    have hrev : units b it.id l.reverse = units b it.id l :=
      (((List.reverse_perm l).filter _).map _).sum_eq
    rw [hrev]
    by_cases hb : ∃ f ∈ l, f.box = b
    · obtain ⟨f, hf, rfl⟩ := hb
      exact hunits f hf
    · have : (l.filter fun g => g.box = b ∧ g.itemId = it.id) = [] := by
        refine List.filter_eq_nil_iff.mpr fun g hg => ?_
        simpa using fun e => absurd ⟨g, hg, e⟩ hb
      unfold units
      rw [this]
      exact Nat.zero_le _
  have hid' : ∀ f ∈ l.reverse, f.itemId = it.id := fun f hf => hid f (List.mem_reverse.mp hf)
  have hsum' : n ≤ (l.reverse.map Found.itemCount).sum := by
    simpa [List.sum_reverse] using hsum
  refine ⟨?_, fun j => ?_⟩
  · -- something was found, and it has units
    cases l with
    | nil => simp at hne
    | cons f l =>
      have hpos := (hsees f (hsub.subset (by simp))).2.1
      have := hunits f (by simp)
      rw [units_cons, if_pos ⟨rfl, hid f (by simp)⟩] at this
      exact ⟨f.box, by omega⟩
  · unfold removeItems
    split
    · exact total_removeStacks _ _ _ hid' hall hsum' j
    · rename_i hst
      have hsingle : ∀ f ∈ l, f.itemCount = 1 := by
        intro f hf
        refine (hsees f (hsub.subset hf)).2.2.2.1 ?_
        rw [hid f hf, hit]
        simpa using hst
      have hexact : n = (l.reverse.map Found.itemCount).sum := by
        have := hone hsingle hn
        simpa [List.sum_reverse] using this
      have := total_removeAll _ s.held hid' hall j
      rw [← hexact] at this
      exact this

end Totals
end Goods

/-! ## The invariant -/

section Invariant
variable [Fintype P] [Fintype D]

/-- Offers have distinct ids that were given out; rows that wait differ from
the open offer of the same id in the amount only; what is stored can be stored
again; the gold of the whole server fits a balance. -/
structure Inv (w : World) (s : MarketState P D) : Prop where
  ids : (s.offers.map Offer.id).Nodup
  fresh : ∀ o ∈ s.offers, o.id < s.nextId
  rowsFresh : ∀ rows ∈ s.pending, ∀ r ∈ rows, r.id < s.nextId
  rows : ∀ rows ∈ s.pending, ∀ r ∈ rows, ∀ o ∈ s.offers, o.id = r.id → r = { o with amount := r.amount }
  storable : ∀ b i, 0 < s.held b i → Storable w i
  goods : ∀ o ∈ s.offers, o.type = .sell → Storable w o.itemId
  fits : money s + s.fees < 2 ^ 64

/-- A step from `s` to `s'` that keeps the invariant and conserves. -/
def Sound (w : World) (s s' : MarketState P D) : Prop := Inv w s' ∧ Conserves s s'

theorem Inv.sound_refl {w : World} {s : MarketState P D} (h : Inv w s) : Sound w s s :=
  ⟨h, Conserves.refl s⟩

theorem Inv.guard {w : World} {s t : MarketState P D} (h : Inv w s) {c : Prop} [Decidable c]
    (ht : ¬c → Sound w s t) : Sound w s (if c then s else t) := by
  split
  · exact h.sound_refl
  · rename_i hc
    exact ht hc

theorem Inv.createOffer {w : World} {s t : MarketState P D} (h : Inv w s) {p : P} {a : MarketAction} {i n price : ℕ}
    {now : ℤ} (hoffers : t.offers = s.offers) (hnext : t.nextId = s.nextId) (hpending : t.pending = s.pending)
    (hstorable : ∀ b i, 0 < t.held b i → Storable w i) (hsell : a = .sell → Storable w i)
    (hitems : ∀ j, total t.held j + (if a = .sell ∧ i = j then n else 0) = total s.held j)
    (hmoney : ∑ q, t.bankBalance q + (if a = .buy then price * n else 0) + t.fees = ∑ q, s.bankBalance q + s.fees) :
    Sound w s (t.createOffer p a i n price now) := by
  have hcons : Conserves s (t.createOffer p a i n price now) := by
    refine ⟨fun j => ?_, ?_⟩
    · have := hitems j
      simp only [items, MarketState.createOffer, hoffers, List.map_append, List.sum_append,
        List.map_cons, List.map_nil, List.sum_cons, List.sum_nil, Offer.goods]
      omega
    · simp only [money, MarketState.createOffer, hoffers, List.map_append, List.sum_append,
        List.map_cons, List.map_nil, List.sum_cons, List.sum_nil, Offer.deposit]
      omega
  refine ⟨⟨?_, ?_, ?_, ?_, hstorable, ?_, ?_⟩, hcons⟩
  · simp only [MarketState.createOffer, hoffers, hnext, List.map_append, List.map_cons, List.map_nil]
    refine List.nodup_append.mpr ⟨h.ids, by simp, ?_⟩
    intro k hk k' hk'
    obtain ⟨o, ho, rfl⟩ := List.mem_map.mp hk
    have := h.fresh o ho
    simp only [List.mem_singleton] at hk'
    omega
  · intro o ho
    simp only [MarketState.createOffer, hoffers, List.mem_append, List.mem_singleton] at ho
    rcases ho with ho | rfl
    · exact (h.fresh o ho).trans (by simp [MarketState.createOffer, hnext])
    · simp [MarketState.createOffer]
  · intro rows hrows r hr
    simp only [MarketState.createOffer, hpending] at hrows
    have := h.rowsFresh rows hrows r hr
    simp only [MarketState.createOffer, hnext]
    omega
  · intro rows hrows r hr o ho hid
    simp only [MarketState.createOffer, hpending] at hrows
    simp only [MarketState.createOffer, hoffers, List.mem_append, List.mem_singleton] at ho
    rcases ho with ho | rfl
    · exact h.rows rows hrows r hr o ho hid
    · -- the new id was given out to no waiting row
      have := h.rowsFresh rows hrows r hr
      simp only [hnext] at hid
      omega
  · intro o ho htype
    simp only [MarketState.createOffer, hoffers, List.mem_append, List.mem_singleton] at ho
    rcases ho with ho | rfl
    · exact h.goods o ho htype
    · exact hsell htype
  · rw [hcons.2]
    exact h.fits

theorem Inv.deleteOffer {w : World} {s t : MarketState P D} (h : Inv w s) {o : Offer P} (ho : o ∈ s.offers)
    (hoffers : t.offers = s.offers) (hnext : t.nextId = s.nextId) (hpending : ∀ rows ∈ t.pending, rows ∈ s.pending)
    (hstorable : ∀ b i, 0 < t.held b i → Storable w i)
    (hitems : ∀ j, total t.held j = total s.held j + Offer.goods j o)
    (hmoney : ∑ q, t.bankBalance q + t.fees = ∑ q, s.bankBalance q + s.fees + Offer.deposit o) :
    Sound w s (t.deleteOffer o.id) := by
  have hcons : Conserves s (t.deleteOffer o.id) := by
    refine ⟨fun j => ?_, ?_⟩
    · have := Table.sum_delete (Offer.goods j) h.ids ho
      have := hitems j
      simp only [items, MarketState.deleteOffer, hoffers]
      omega
    · have := Table.sum_delete Offer.deposit h.ids ho
      simp only [money, MarketState.deleteOffer, hoffers]
      omega
  have hsub : ∀ o' ∈ (t.deleteOffer o.id).offers, o' ∈ s.offers := by
    intro o' ho'
    simp only [MarketState.deleteOffer, hoffers, Table.mem_delete] at ho'
    exact ho'.1
  refine ⟨⟨?_, ?_, ?_, ?_, hstorable, ?_, ?_⟩, hcons⟩
  · simp only [MarketState.deleteOffer, hoffers]
    exact Table.delete_nodup h.ids
  · intro o' ho'
    exact (h.fresh o' (hsub o' ho')).trans_eq hnext.symm
  · intro rows hrows r hr
    exact (h.rowsFresh rows (hpending rows hrows) r hr).trans_eq hnext.symm
  · intro rows hrows r hr o' ho'
    exact h.rows rows (hpending rows hrows) r hr o' (hsub o' ho')
  · intro o' ho'
    exact h.goods o' (hsub o' ho')
  · rw [hcons.2]
    exact h.fits

theorem Inv.acceptOffer {w : World} {s t : MarketState P D} (h : Inv w s) {o : Offer P} {n : ℕ} (ho : o ∈ s.offers)
    (hn : n ≤ o.amount) (hoffers : t.offers = s.offers) (hnext : t.nextId = s.nextId)
    (hpending : t.pending = s.pending) (hstorable : ∀ b i, 0 < t.held b i → Storable w i)
    (hitems : ∀ j, total t.held j = total s.held j + Offer.goods j { o with amount := n })
    (hmoney : ∑ q, t.bankBalance q + t.fees = ∑ q, s.bankBalance q + s.fees + Offer.deposit { o with amount := n }) :
    Sound w s (t.acceptOffer o.id n) := by
  have hcons : Conserves s (t.acceptOffer o.id n) := by
    refine ⟨fun j => ?_, ?_⟩
    · have := Table.sum_update (g := fun o => { o with amount := o.amount - n })
        (Offer.goods j) h.ids ho
      have := hitems j
      have := goods_split j hn
      simp only [items, MarketState.acceptOffer, hoffers]
      omega
    · have := Table.sum_update (g := fun o => { o with amount := o.amount - n })
        Offer.deposit h.ids ho
      have := deposit_split hn
      simp only [money, MarketState.acceptOffer, hoffers]
      omega
  have hmem : ∀ o' ∈ (t.acceptOffer o.id n).offers, ∃ o'' ∈ s.offers, ∃ m, o' =
      { o'' with amount := m } := by
    intro o' ho'
    simp only [MarketState.acceptOffer, hoffers, Table.mem_update] at ho'
    obtain ⟨o'', ho'', rfl⟩ := ho'
    refine ⟨o'', ho'', ?_⟩
    split
    · exact ⟨_, rfl⟩
    · exact ⟨_, rfl⟩
  refine ⟨⟨?_, ?_, ?_, ?_, hstorable, ?_, ?_⟩, hcons⟩
  · have hkeys : (t.acceptOffer o.id n).offers.map Offer.id = s.offers.map Offer.id := by
      simp only [MarketState.acceptOffer, hoffers]
      exact Table.map_key_update fun _ => rfl
    rw [hkeys]
    exact h.ids
  · intro o' ho'
    obtain ⟨o'', ho'', m, rfl⟩ := hmem o' ho'
    exact (h.fresh o'' ho'').trans_eq hnext.symm
  · intro rows hrows r hr
    exact (h.rowsFresh rows (hpending ▸ hrows) r hr).trans_eq hnext.symm
  · intro rows hrows r hr o' ho' hid
    obtain ⟨o'', ho'', m, rfl⟩ := hmem o' ho'
    exact h.rows rows (hpending ▸ hrows) r hr o'' ho'' hid
  · intro o' ho' htype
    obtain ⟨o'', ho'', m, rfl⟩ := hmem o' ho'
    exact h.goods o'' ho'' htype
  · rw [hcons.2]
    exact h.fits

theorem Inv.finish {w : World} {s t : MarketState P D} (h : Inv w s) {o : Offer P} {n : ℕ} (ho : o ∈ s.offers)
    (hn : n ≤ o.amount) (hoffers : t.offers = s.offers) (hnext : t.nextId = s.nextId)
    (hpending : t.pending = s.pending) (hstorable : ∀ b i, 0 < t.held b i → Storable w i)
    (hitems : ∀ j, total t.held j = total s.held j + Offer.goods j { o with amount := n })
    (hmoney : ∑ q, t.bankBalance q + t.fees = ∑ q, s.bankBalance q + s.fees + Offer.deposit { o with amount := n }) :
    Sound w s (if o.amount - n = 0 then t.deleteOffer o.id else t.acceptOffer o.id n) := by
  split
  · have hall : { o with amount := n } = o := by
      have : n = o.amount := by omega
      rw [this]
    rw [hall] at hitems hmoney
    exact h.deleteOffer ho hoffers hnext (fun rows hrows => hpending ▸ hrows) hstorable hitems hmoney
  · exact h.acceptOffer ho hn hoffers hnext hpending hstorable hitems hmoney

omit [Fintype D] in
theorem Inv.bank_add_deposit {w : World} {s : MarketState P D} (h : Inv w s) {o : Offer P}
    (ho : o ∈ s.offers) (p : P) : s.bankBalance p + Offer.deposit o < 2 ^ 64 := by
  have hsum := Table.sum_delete Offer.deposit h.ids ho
  have hbank := bank_le_sum s.bankBalance p
  have hfits := h.fits
  unfold money at hfits
  omega

theorem Inv.select {w : World} {s : MarketState P D} (h : Inv w s) (date : ℤ) :
    Sound w s (checkExpiredOffers s date) := by
  refine ⟨⟨h.ids, h.fresh, ?_, ?_, h.storable, h.goods, h.fits⟩, Conserves.refl s⟩
  · intro rows hrows r hr
    rcases List.mem_append.mp hrows with hrows | hrows
    · exact h.rowsFresh rows hrows r hr
    · rw [List.mem_singleton.mp hrows] at hr
      exact h.fresh r (List.mem_of_mem_filter hr)
  · intro rows hrows r hr o ho hid
    rcases List.mem_append.mp hrows with hrows | hrows
    · exact h.rows rows hrows r hr o ho hid
    · -- the snapshot holds the offer itself
      rw [List.mem_singleton.mp hrows] at hr
      have : o = r := List.inj_on_of_nodup_map h.ids ho (List.mem_of_mem_filter hr) hid
      rw [this]

section Steps
variable [DecidableEq P] [DecidableEq D]

theorem offeredType_types {w : World} {spriteId : ℕ} (h : (w.offeredType spriteId).id ≠ 0) :
    w.types (w.offeredType spriteId).id = w.offeredType spriteId := by
  have hget : ∀ c, (w.getItemIdByClientId c).id ≠ 0 →
      w.types (w.getItemIdByClientId c).id = w.getItemIdByClientId c := by
    intro c hc
    unfold World.getItemIdByClientId at hc ⊢
    split
    · rename_i hs
      rw [if_pos hs] at hc
      rw [(w.types_id _).resolve_right hc]
    · rename_i hs
      rw [if_neg hs] at hc
      rw [(w.types_id _).resolve_right hc]
  exact hget _ h

theorem Inv.create {w : World} {s : MarketState P D} (h : Inv w s) {v : Visit P D}
    {type spriteId amount price : ℕ} {now : ℤ} (hsees : v.Sees w s.held)
    (hown : ∀ f ∈ v.walk, (w.types f.itemId).wareId = (w.offeredType spriteId).wareId →
      f.itemId = (w.offeredType spriteId).id) :
    Sound w s (playerCreateMarketOffer w s v type spriteId amount price now) := by
  unfold playerCreateMarketOffer
  refine h.guard fun hamount => h.guard fun _ => ?_
  cases MarketAction.ofByte type with
  | none => exact h.sound_refl
  | some action =>
  refine h.guard fun _ => h.guard fun _ => h.guard fun _ => h.guard fun hit => h.guard fun _ =>
    h.guard fun _ => ?_
  have hid : (w.offeredType spriteId).id ≠ 0 := fun e => hit (.inl e)
  cases action with
  | sell =>
    refine h.guard fun hfee => h.guard fun _ => h.guard fun hlist => ?_
    have hne : getMarketItemList w (w.offeredType spriteId).wareId amount v.walk 0 [] ≠ [] := by
      simpa using hlist
    obtain ⟨⟨b, hb⟩, htake⟩ := take_spec hsees hown (by rw [offeredType_types hid]) (by omega) hne
    have hdebit := sum_debit (Nat.le_of_not_lt hfee)
    refine h.createOffer rfl rfl rfl ?_ (fun _ => h.storable b _ hb) ?_ ?_
    · intro b i hpos
      exact h.storable b i (hpos.trans_le (removeItems_le ..))
    · intro j
      have := htake j
      simp only [eq_comm, true_and] at this ⊢
      exact this
    · simp only [reduceCtorEq, if_false]
      omega
  | buy =>
    refine h.guard fun hprice => ?_
    have hdebit := sum_debit (Nat.le_of_not_lt hprice)
    refine h.createOffer rfl rfl rfl h.storable (fun e => nomatch e) (fun j => ?_) ?_
    · simp
    · simp only [if_true]
      omega

theorem Inv.cancel {w : World} {s : MarketState P D} (h : Inv w s) {v : Visit P D} {timestamp : ℤ}
    {counter : ℕ} : Sound w s (playerCancelMarketOffer w s v timestamp counter) := by
  unfold playerCancelMarketOffer
  refine h.guard fun _ => ?_
  cases hoffer : s.getOfferByCounter w timestamp counter with
  | none => exact h.sound_refl
  | some offer =>
  have ho : offer ∈ s.offers := List.mem_of_find?_eq_some hoffer
  refine h.guard fun _ => ?_
  split
  · rename_i htype
    have hdep : Offer.deposit offer = offer.price * offer.amount := by simp [Offer.deposit, htype]
    have hcredit := sum_credit (hdep ▸ h.bank_add_deposit ho v.player)
    refine h.deleteOffer ho rfl rfl (fun _ hr => hr) h.storable (fun j => ?_) ?_
    · simp [Offer.goods, htype]
    · dsimp only
      omega
  · rename_i htype
    refine h.guard fun _ => ?_
    have hst := h.goods offer ho htype
    rw [giveItems_eq hst]
    refine h.deleteOffer ho rfl rfl (fun _ hr => hr) (storable_add hst h.storable) (fun j => ?_) ?_
    · dsimp only
      rw [total_add]
      simp [Offer.goods, htype, eq_comm]
    · simp [Offer.deposit, htype]

theorem Inv.accept {w : World} {s : MarketState P D} (h : Inv w s) {v : Visit P D} {timestamp : ℤ}
    {counter amount : ℕ} (hsees : v.Sees w s.held)
    (hown : ∀ o ∈ s.getOfferByCounter w timestamp counter, ∀ f ∈ v.walk,
      (w.types f.itemId).wareId = (w.types o.itemId).wareId → f.itemId = o.itemId) :
    Sound w s (playerAcceptMarketOffer w s v timestamp counter amount) := by
  unfold playerAcceptMarketOffer
  refine h.guard fun hamount => h.guard fun _ => ?_
  cases hoffer : s.getOfferByCounter w timestamp counter with
  | none => exact h.sound_refl
  | some offer =>
  have ho : offer ∈ s.offers := List.mem_of_find?_eq_some hoffer
  replace hown := hown offer hoffer
  refine h.guard fun hle => h.guard fun hid => ?_
  dsimp only
  have htypes : (w.types offer.itemId).id = offer.itemId := (w.types_id _).resolve_right hid
  have hpart := deposit_split (Nat.le_of_not_lt hle)
  split
  · rename_i htype
    refine h.guard fun _ => h.guard fun hlist => ?_
    have hne : getMarketItemList w (w.types offer.itemId).wareId amount v.walk 0 [] ≠ [] := by
      simpa using hlist
    rw [← htypes] at hown
    obtain ⟨⟨b, hb⟩, htake⟩ :=
      take_spec hsees (by simpa only [htypes] using hown) (by rw [htypes]) (by omega) hne
    rw [htypes] at hb htake
    have hst := h.storable b _ hb
    have hdep : Offer.deposit { offer with amount := amount } = offer.price * amount := by
      simp [Offer.deposit, htype]
    have hbound : s.bankBalance v.player + offer.price * amount < 2 ^ 64 := by
      have := h.bank_add_deposit ho v.player
      omega
    have hcredit := sum_credit hbound
    refine h.finish ho (Nat.le_of_not_lt hle) rfl rfl rfl ?_ (fun j => ?_) ?_
    · rw [giveItems_eq hst]
      exact storable_add hst fun b i hpos => h.storable b i (hpos.trans_le (removeItems_le ..))
    · dsimp only
      rw [giveItems_eq hst, total_add, htake j]
      simp [Offer.goods, htype]
    · dsimp only
      omega
  · rename_i htype
    refine h.guard fun hprice => ?_
    have hst := h.goods offer ho htype
    have hdebit := sum_debit (Nat.le_of_not_lt hprice)
    have hbound : debit s.bankBalance v.player (offer.price * amount) offer.playerId +
        offer.price * amount < 2 ^ 64 := by
      have := bank_le_sum (debit s.bankBalance v.player (offer.price * amount)) offer.playerId
      have hfits := h.fits
      unfold money at hfits
      omega
    have hcredit := sum_credit hbound
    refine h.finish ho (Nat.le_of_not_lt hle) rfl rfl rfl ?_ (fun j => ?_) ?_
    · rw [giveItems_eq hst]
      exact storable_add hst h.storable
    · dsimp only
      rw [giveItems_eq hst, total_add]
      simp [Offer.goods, htype, eq_comm]
    · have hdep : Offer.deposit { offer with amount := amount } = 0 := by
        simp [Offer.deposit, htype]
      dsimp only
      omega

def RowMatches (s : MarketState P D) (r : Offer P) : Prop := ∀ o ∈ s.offers, o.id = r.id → o = r

theorem Inv.processRow {w : World} {s : MarketState P D} (h : Inv w s) {r : Offer P} (hr : RowMatches s r) :
    Sound w s (Offers.processRow w s r) ∧ ∀ o ∈ (Offers.processRow w s r).offers, o ∈ s.offers := by
  unfold Offers.processRow
  cases hlook : Table.lookup Offer.id r.id s.offers with
  | none => exact ⟨h.sound_refl, fun _ ho => ho⟩
  | some o =>
    obtain ⟨ho, hid⟩ := Table.lookup_some hlook
    obtain rfl := hr o ho hid
    have hsub : ∀ o' ∈ (s.deleteOffer o.id).offers, o' ∈ s.offers := fun o' ho' =>
      (Table.mem_delete.mp ho').1
    simp only [Option.isNone_some, Bool.false_eq_true, if_false]
    split
    · rename_i htype
      have hst := h.goods o ho htype
      have hne : (w.types o.itemId).id ≠ 0 := by
        rw [hst.1]
        exact hst.2.1
      rw [if_neg hne, giveItems_eq hst]
      refine ⟨h.deleteOffer (t := { s with held := s.held.add (o.playerId, none) o.itemId o.amount })
        ho rfl rfl (fun _ hr => hr)
        (storable_add hst h.storable) (fun j => ?_) ?_, hsub⟩
      · dsimp only
        rw [total_add]
        simp [Offer.goods, htype, eq_comm]
      · simp [Offer.deposit, htype]
    · rename_i htype
      have hdep : Offer.deposit o = o.price * o.amount := by simp [Offer.deposit, htype]
      have hcredit := sum_credit (hdep ▸ h.bank_add_deposit ho o.playerId)
      refine ⟨h.deleteOffer (t := { s with bankBalance := credit s.bankBalance o.playerId (o.price * o.amount) })
        ho rfl rfl (fun _ hr => hr) h.storable (fun j => ?_) ?_, hsub⟩
      · simp [Offer.goods, htype]
      · dsimp only
        omega

theorem Inv.processRows {w : World} {s : MarketState P D} (h : Inv w s) {rows : List (Offer P)}
    (hr : ∀ r ∈ rows, RowMatches s r) : Sound w s (rows.foldl (Offers.processRow w) s) := by
  induction rows generalizing s with
  | nil => exact h.sound_refl
  | cons r rows ih =>
    obtain ⟨⟨hinv, hcons⟩, hsub⟩ := h.processRow (hr r (by simp))
    -- rows that match before the turn match after it: offers only leave the table
    have hrest : ∀ r' ∈ rows, RowMatches (Offers.processRow w s r) r' := fun r' hr' o ho =>
      hr r' (List.mem_cons_of_mem r hr') o (hsub o ho)
    obtain ⟨hinv', hcons'⟩ := ih hinv hrest
    exact ⟨hinv', hcons.trans hcons'⟩

/-- The steps that keep the law: an expiry finds each offer gone or with the
amount its SELECT read, and a search meets items of one type in a ware. -/
def Regular (w : World) (s : MarketState P D) : Step P D → Prop
  | .create v _ spriteId _ _ _ =>
    ∀ f ∈ v.walk, (w.types f.itemId).wareId = (w.offeredType spriteId).wareId → f.itemId = (w.offeredType spriteId).id
  | .accept v timestamp counter _ =>
    ∀ o ∈ s.getOfferByCounter w timestamp counter, ∀ f ∈ v.walk,
      (w.types f.itemId).wareId = (w.types o.itemId).wareId → f.itemId = o.itemId
  | .expire k =>
    ∀ rows ∈ s.pending[k]?, ∀ r ∈ rows, ∀ o ∈ s.offers, o.id = r.id → o.amount = r.amount
  | .cancel .. | .select _ => True

instance (w : World) (s : MarketState P D) : (e : Step P D) → Decidable (Regular w s e)
  | .create _ _ _ _ _ _ => inferInstanceAs (Decidable (∀ f ∈ _, _))
  | .accept _ _ _ _ => inferInstanceAs (Decidable (∀ o ∈ _, ∀ f ∈ _, _))
  | .expire _ => inferInstanceAs (Decidable (∀ rows ∈ _, ∀ r ∈ _, ∀ o ∈ _, _))
  | .cancel _ _ _ | .select _ => isTrue trivial

theorem Inv.expire {w : World} {s : MarketState P D} (h : Inv w s) {k : ℕ}
    (hreg : Regular w s (.expire k)) : Sound w s (processExpiredOffers w s k) := by
  unfold processExpiredOffers
  cases hk : s.pending[k]? with
  | none => exact h.sound_refl
  | some rows =>
    have hrows : rows ∈ s.pending := List.mem_of_getElem? hk
    have hsub : ∀ rows' ∈ s.pending.eraseIdx k, rows' ∈ s.pending := fun _ hr =>
      List.mem_of_mem_eraseIdx hr
    have hinv : Inv w { s with pending := s.pending.eraseIdx k } :=
      ⟨h.ids, h.fresh, fun rows' hr => h.rowsFresh rows' (hsub rows' hr),
        fun rows' hr => h.rows rows' (hsub rows' hr), h.storable, h.goods, h.fits⟩
    refine hinv.processRows fun r hr o ho hid => ?_
    rw [h.rows rows hrows r hr o ho hid, ← hreg rows hk r hr o ho hid]

theorem Inv.step {w : World} {s : MarketState P D} (h : Inv w s) {e : Step P D}
    (hreg : Regular w s e) : Sound w s (step w s e) := by
  cases e with
  | create v type spriteId amount price now =>
    simp only [Offers.step]
    split
    · rename_i hsees
      exact h.create hsees hreg
    · exact h.sound_refl
  | cancel v timestamp counter => exact h.cancel
  | accept v timestamp counter amount =>
    simp only [Offers.step]
    split
    · rename_i hsees
      exact h.accept hsees hreg
    · exact h.sound_refl
  | select date => exact h.select date
  | expire k => exact h.expire hreg

/-- In every run of regular steps, in any order, each state reached has as many
items of every kind as the first, and as much gold but for the fees charged. -/
theorem market_conserves (w : World) (s : MarketState P D) (es : List (Step P D)) (hs : Inv w s)
    (hreg : Along (step w) (Regular w) s es) : ∀ pre, pre <+: es → Conserves s (run (step w) s pre) := by
  have hstep : ∀ (t : MarketState P D) (e : Step P D), Sound w s t → Regular w t e →
      Sound w s (Offers.step w t e) := by
    intro t e ⟨hinv, hcons⟩ he
    obtain ⟨hinv', hcons'⟩ := hinv.step he
    exact ⟨hinv', hcons.trans hcons'⟩
  intro pre hpre
  exact (inv_reached hstep hs.sound_refl hreg pre hpre).2

end Steps
end Invariant

/-! ## Two markets of two players -/

/-- One stackable ware, item 200 of sprite 300. -/
def oneWare : World where
  types := fun i =>
    if i = 200 then ⟨200, 300, true, true, false, false⟩ else ⟨0, 0, false, false, false, false⟩
  types_id := by
    intro i
    by_cases h : i = 200 <;> simp [h]
  serverId := fun c => if c = 300 then 200 else 0
  marketPremium := false
  maxMarketOffers := 100
  marketOfferDuration := 10

/-- Player 0 sells 10 items; each chest and inbox holds 7. -/
def opening : MarketState (Fin 2) (Fin 1) where
  offers := [⟨1, 0, .sell, 200, 10, 3, 0⟩]
  nextId := 2
  bankBalance := fun _ => 500
  held := fun _ i => if i = 200 then 7 else 0
  pending := []
  fees := 0

theorem opening_inv : Inv oneWare opening := by
  refine ⟨by decide, by decide, by decide, by decide, ?_, by decide, by decide +kernel⟩
  intro b i hpos
  by_cases hi : i = 200
  · subst hi
    decide
  · simp [opening, hi] at hpos

def visitor (p : Fin 2) : Visit (Fin 2) (Fin 1) :=
  { player := p, depotChest := some 0, walk := [⟨(p, some 0), 200, 7⟩] }

/-- Player 1 posts an offer, buys what player 0 sells, and the expiry that was
under way finds nothing left of it. -/
def wholeTrade : List (Step (Fin 2) (Fin 1)) :=
  [.create (visitor 1) 1 300 5 12 1, .select 0, .accept (visitor 1) 10 1 10, .expire 0]

theorem market_conserves_whole_trade : Conserves opening (run (step oneWare) opening wholeTrade) :=
  market_conserves oneWare opening wholeTrade opening_inv (by decide +kernel) wholeTrade
    List.prefix_rfl

/-- Player 1 buys 4 of the 10 between the SELECT and the refund: player 0 gets
all 10 back. -/
theorem market_expiry_duplicates :
    items (run (step oneWare) opening [.select 5, .accept (visitor 1) 10 1 4, .expire 0]) 200 =
      items opening 200 + 4 := by
  decide +kernel

end ForgottenServer.Market.Conservation
