import ForgottenServer.Inventory.Search

/-! # Counting and removing

What is left when some items of a type are removed, and when as many fewer are counted
afterwards. -/
namespace ForgottenServer.Inventory
open ForgottenServer.Lib.Bags

variable {types : ℕ → Decay.ItemType} {itemId : ℕ} {subType : ℤ} {slots : Slots}

/-- The items that go when some are removed. -/
def gone (l : List Item) (x : Item) : Bool := l.any fun y => y.canRemove && x.ref = y.ref

/-- The item can be removed, and nothing that counts goes with it. -/
structure Loose (types : ℕ → Decay.ItemType) (itemId : ℕ) (subType : ℤ) (a : Item × Bag Item) :
    Prop where
  canRemove : a.1.canRemove = true
  empty : a.2.total (matching types itemId subType) = 0

/-- A part of an item can be removed, and the rest still counts. -/
def Divisible (types : ℕ → Decay.ItemType) (itemId : ℕ) (subType : ℤ) : Prop :=
  (types itemId).stackable = true ∧ (subType = -1 ∨ (types itemId).isFluid = true)

structure Orderly (types : ℕ → Decay.ItemType) (slots : Slots) (itemId : ℕ) (subType : ℤ) :
    Prop where
  equipped : ∀ a, some a ∈ slots → a.1.id = itemId → a.2.total (matching types itemId subType) = 0
  loose : ∀ a ∈ (contents slots).nodes, matching types itemId subType a.1 ≠ 0 → Loose types itemId subType a
  divisible : Divisible types itemId subType ∨ ∀ a ∈ (contents slots).nodes, matching types itemId subType a.1 ≤ 1

/-- As many are removed as are fewer afterwards, and nothing if there are not enough. -/
structure Agrees (types : ℕ → Decay.ItemType) (slots : Slots) (itemId : ℕ) (subType : ℤ)
    (amount : UInt32) : Prop where
  enough : (removeItemOfType types slots itemId amount subType false).1 = true ↔
    amount ≤ getItemTypeCount types slots itemId subType
  fewer : (removeItemOfType types slots itemId amount subType false).1 = true →
    (getItemTypeCount types (removeItemOfType types slots itemId amount subType false).2 itemId
      subType).toNat + amount.toNat = (getItemTypeCount types slots itemId subType).toNat
  unchanged : (removeItemOfType types slots itemId amount subType false).1 = false →
    (removeItemOfType types slots itemId amount subType false).2 = slots

/-! ## What is left -/

section Left

theorem gone_append (l l' : List Item) : gone (l ++ l') = fun x => gone l x || gone l' x := by
  funext x
  rw [gone, List.any_append, gone, gone]

theorem contents_removeItem {y : Item} (hcount : y.count ≠ 0) (slots : Slots) :
    contents (internalRemoveItem types slots y y.count) = (contents slots).cut (gone [y]) := by
  have hzero : (decide (y.count = 0) || (types y.id).stackable && decide (y.count < y.count)) =
      false := by
    simp [hcount]
  have hwhole : ((types y.id).stackable && decide (y.count ≠ y.count)) = false := by simp
  rw [internalRemoveItem, hzero, if_neg Bool.false_ne_true]
  cases hremove : y.canRemove with
  | true =>
    have hgone : gone [y] = fun x => decide (x.ref = y.ref) := by
      funext x
      simp [gone, hremove]
    rw [Bool.not_true, if_neg Bool.false_ne_true, hwhole, if_neg Bool.false_ne_true, contents_cut, hgone]
  | false =>
    have hgone : gone [y] = fun _ => false := by
      funext x
      simp [gone, hremove]
    rw [Bool.not_false, if_pos rfl, hgone, Bag.cut_none]

/-- The first items of a list are removed as a whole if they are no more than the amount. -/
theorem removeItems_append (stackable : Bool) {front : List Item} {amount : UInt32} (hcount : ∀ y ∈ front, y.count ≠ 0)
    (hle : stackable = true → (front.map fun y => y.count).sum ≤ amount.toNat) (rest : List Item)
    (slots : Slots) : ∃ amount' slots', internalRemoveItems types stackable (front ++ rest) amount slots =
        internalRemoveItems types stackable rest amount' slots' ∧
      contents slots' = (contents slots).cut (gone front) ∧
      (stackable = true → amount'.toNat + (front.map fun y => y.count).sum = amount.toNat) := by
  induction front generalizing amount slots with
  | nil =>
    refine ⟨amount, slots, rfl, ?_, fun _ => ?_⟩
    · rw [show gone [] = fun _ => false from rfl, Bag.cut_none]
    · rw [List.map_nil, List.sum_nil, Nat.add_zero]
  | cons y front ih =>
    obtain ⟨hy, hfront⟩ := List.forall_mem_cons.mp hcount
    have hcut : ((contents slots).cut (gone [y])).cut (gone front) = (contents slots).cut (gone (y :: front)) := by
      rw [Bag.cut_cut, ← gone_append, List.singleton_append]
    rw [List.map_cons, List.sum_cons] at hle
    cases stackable with
    | true =>
      have hle' := hle rfl
      have hy' : ¬ amount.toNat < y.count := by omega
      have hsub : (amount - UInt32.ofNat y.count).toNat = amount.toNat - y.count := by
        have hbound := amount.toNat_lt
        rw [UInt32.toNat_sub_of_le, UInt32.toNat_ofNat', Nat.mod_eq_of_lt (by omega)]
        rw [UInt32.le_iff_toNat_le, UInt32.toNat_ofNat', Nat.mod_eq_of_lt (by omega)]
        omega
      have hrest : true = true → (front.map fun y => y.count).sum ≤ (amount - UInt32.ofNat y.count).toNat := by
        intro _
        omega
      obtain ⟨amount', slots', heq, hcontents, hamount⟩ :=
        ih hfront hrest (internalRemoveItem types slots y y.count)
      refine ⟨amount', slots', ?_, ?_, fun _ => ?_⟩
      · rw [List.cons_append, internalRemoveItems, if_pos rfl, if_neg hy', heq]
      · rw [hcontents, contents_removeItem hy, hcut]
      · have hamount' := hamount rfl
        rw [List.map_cons, List.sum_cons]
        omega
    | false =>
      obtain ⟨amount', slots', heq, hcontents, -⟩ :=
        ih hfront (fun h => by cases h) (internalRemoveItem types slots y y.count)
      refine ⟨amount', slots', ?_, ?_, fun h => by cases h⟩
      · rw [List.cons_append, internalRemoveItems, if_neg Bool.false_ne_true, heq]
      · rw [hcontents, contents_removeItem hy, hcut]

theorem matching_eq_count {x : Item} (h : matching types itemId subType x ≠ 0) :
    matching types itemId subType x = x.count := by
  rw [matching] at h ⊢
  split at h
  · rename_i hid
    rw [countByType] at h
    split at h
    · rename_i htype
      rw [if_pos hid, countByType, if_pos htype]
    · exact absurd rfl h
  · exact absurd rfl h

theorem sum_counts {l : List (Item × Bag Item)} (hl : ∀ b ∈ l, matching types itemId subType b.1 ≠ 0) :
    ((l.map Prod.fst).map fun y => y.count).sum = worth types itemId subType l := by
  rw [List.map_map, worth]
  refine congrArg List.sum (List.map_congr_left fun b hb => ?_)
  exact (matching_eq_count (hl b hb)).symm

theorem counts_ne_zero {l : List (Item × Bag Item)}
    (hl : ∀ b ∈ l, matching types itemId subType b.1 ≠ 0) : ∀ y ∈ l.map Prod.fst, y.count ≠ 0 := by
  intro y hy
  obtain ⟨b, hb, rfl⟩ := List.mem_map.mp hy
  rw [← matching_eq_count (hl b hb)]
  exact hl b hb

theorem contents_whole (slots : Slots) {stackable : Bool} {l : List (Item × Bag Item)} {amount : UInt32}
    (hl : ∀ b ∈ l, matching types itemId subType b.1 ≠ 0)
    (hle : stackable = true → worth types itemId subType l ≤ amount.toNat) :
    contents (internalRemoveItems types stackable (l.map Prod.fst) amount slots) =
      (contents slots).cut (gone (l.map Prod.fst)) := by
  obtain ⟨amount', slots', heq, hcontents, -⟩ :=
    removeItems_append stackable (counts_ne_zero hl) (by rwa [sum_counts hl]) [] slots
  rw [List.append_nil] at heq
  rw [heq, internalRemoveItems, hcontents]

theorem contents_part (slots : Slots) {front : List (Item × Bag Item)} {a : Item × Bag Item} {amount : UInt32}
    (hfront : ∀ b ∈ front, matching types itemId subType b.1 ≠ 0) (hstackable : (types a.1.id).stackable = true)
    (hremove : a.1.canRemove = true) (hlt : worth types itemId subType front < amount.toNat)
    (hpart : amount.toNat < worth types itemId subType front + a.1.count) :
    contents (internalRemoveItems types true ((front ++ [a]).map Prod.fst) amount slots) =
      ((contents slots).cut (gone (front.map Prod.fst))).update (fun x => x.ref = a.1.ref)
        (takeCount (amount.toNat - worth types itemId subType front)) := by
  have hle : true = true → ((front.map Prod.fst).map fun y => y.count).sum ≤ amount.toNat := by
    intro _
    rw [sum_counts hfront]
    omega
  obtain ⟨amount', slots', heq, hcontents, hamount⟩ :=
    removeItems_append true (counts_ne_zero hfront) hle [a.1] slots
  have hrest := hamount rfl
  rw [sum_counts hfront] at hrest
  have hsub : amount'.toNat = amount.toNat - worth types itemId subType front := by omega
  have hless : amount'.toNat < a.1.count := by omega
  have hvalid : (decide (amount'.toNat = 0) ||
      (types a.1.id).stackable && decide (a.1.count < amount'.toNat)) = false := by
    have hzero : ¬ amount'.toNat = 0 := by omega
    have hmore : ¬ a.1.count < amount'.toNat := by omega
    simp [hzero, hmore]
  have hpart' : ((types a.1.id).stackable && decide (amount'.toNat ≠ a.1.count)) = true := by
    simpa [hstackable] using hless.ne
  rw [List.map_append, List.map_singleton, heq, internalRemoveItems, if_pos rfl, if_pos hless,
    internalRemoveItem, hvalid, if_neg Bool.false_ne_true, hremove, Bool.not_true,
    if_neg Bool.false_ne_true, hpart', if_pos rfl, contents_update, hcontents, hsub]

end Left

/-! ## How many are left -/

section Totals

theorem total_gone (f : Item → ℕ) {l : List (Item × Bag Item)} {b : Bag Item}
    (hsub : ∀ a ∈ l, a ∈ b.nodes) (hl : (l.map fun a => a.1.ref).Nodup)
    (hb : (b.nodes.map fun a => a.1.ref).Nodup) (hremove : ∀ a ∈ l, a.1.canRemove = true) :
    b.total (fun x => if gone (l.map Prod.fst) x then f x else 0) = (l.map fun a => f a.1).sum := by
  induction l with
  | nil =>
    rw [List.map_nil, List.map_nil, List.sum_nil]
    exact Bag.total_eq_zero_iff.mpr fun _ _ => rfl
  | cons a l ih =>
    obtain ⟨ha, hl'⟩ := List.forall_mem_cons.mp hsub
    obtain ⟨haremove, hlremove⟩ := List.forall_mem_cons.mp hremove
    rw [List.map_cons, List.nodup_cons] at hl
    have hnot : gone (l.map Prod.fst) a.1 = false := by
      rw [gone, List.any_eq_false]
      intro y hy
      obtain ⟨c, hc, rfl⟩ := List.mem_map.mp hy
      have hne : a.1.ref ≠ c.1.ref := fun heq => hl.1 (heq ▸ List.mem_map_of_mem hc)
      simp [hne]
    have hreplace := Bag.total_replace hb ha f fun x => if gone (l.map Prod.fst) x then f x else 0
    rw [hnot, if_neg Bool.false_ne_true, Nat.add_zero, ih hl' hl.2 hlremove] at hreplace
    have hgone : (fun x => if gone ((a :: l).map Prod.fst) x then f x else 0) = fun x =>
        if x.ref = a.1.ref then f x else if gone (l.map Prod.fst) x then f x else 0 := by
      funext x
      have hcons : gone ((a :: l).map Prod.fst) x = (decide (x.ref = a.1.ref) || gone (l.map Prod.fst) x) := by
        rw [List.map_cons, gone, List.any_cons, haremove, Bool.true_and, gone]
      rw [hcons]
      by_cases hx : x.ref = a.1.ref
      · rw [decide_eq_true hx, Bool.true_or, if_pos rfl, if_pos hx]
      · rw [decide_eq_false hx, Bool.false_or, if_neg hx]
    rw [hgone, hreplace, List.map_cons, List.sum_cons, Nat.add_comm]

theorem mem_of_gone {l : List (Item × Bag Item)} {b : Bag Item} (hsub : ∀ a ∈ l, a ∈ b.nodes)
    (hb : (b.nodes.map fun a => a.1.ref).Nodup) {a : Item × Bag Item} (ha : a ∈ b.nodes)
    (hgone : gone (l.map Prod.fst) a.1 = true) : a ∈ l := by
  rw [gone, List.any_eq_true] at hgone
  obtain ⟨y, hy, hand⟩ := hgone
  obtain ⟨c, hc, rfl⟩ := List.mem_map.mp hy
  have hrefs : a.1.ref = c.1.ref := by
    simpa using (Bool.and_eq_true_iff.mp hand).2
  have heq : a = c := List.inj_on_of_nodup_map hb ha (hsub c hc) hrefs
  rwa [heq]

theorem count_takeCount {count : ℕ} {x : Item} (hle : count ≤ x.count) (hx : x.count < 2 ^ 8) :
    (takeCount count x).count = x.count - count := by
  have hbmod : Int.bmod ((x.count : ℤ) - count) (2 ^ 32) = (x.count : ℤ) - count :=
    Int.bmod_eq_of_le (by omega) (by omega)
  rw [takeCount, hbmod]
  dsimp only
  omega

theorem matching_takeCount_le {count : ℕ} {x : Item} (hle : count ≤ x.count) (hx : x.count < 2 ^ 8) :
    matching types itemId subType (takeCount count x) ≤ x.count - count := by
  by_cases hzero : matching types itemId subType (takeCount count x) = 0
  · omega
  · rw [matching_eq_count hzero, count_takeCount hle hx]

variable {l front : List (Item × Bag Item)} {a : Item × Bag Item}

/-- Each of some items is carried, and none is in two places. -/
structure Among (slots : Slots) (l : List (Item × Bag Item)) : Prop where
  mem : ∀ a ∈ l, a ∈ (contents slots).nodes
  nodup : (l.map fun a => a.1.ref).Nodup

theorem Among.of_found {back : List (Item × Bag Item)} (hslots : Carried slots)
    (hfound : found types itemId subType slots = l ++ back) : Among slots l := by
  obtain ⟨s, hs, hsub⟩ := found_subperm types itemId subType slots
  rw [hfound] at hs
  constructor
  · intro b hb
    exact hsub.subset (hs.symm.subset (List.mem_append_left _ hb))
  · have hnodup : (s.map fun a => a.1.ref).Nodup := (hsub.map _).nodup hslots.distinct
    rw [(hs.map fun a => a.1.ref).nodup_iff, List.map_append] at hnodup
    exact hnodup.of_append_left

theorem total_whole (hslots : Carried slots) (hl : Among slots l) (hloose : ∀ b ∈ l, Loose types itemId subType b) :
    ((contents slots).cut (gone (l.map Prod.fst))).total (matching types itemId subType) +
      worth types itemId subType l = (contents slots).total (matching types itemId subType) := by
  have hgone := total_gone (matching types itemId subType) hl.mem hl.nodup hslots.distinct
    fun b hb => (hloose b hb).canRemove
  rw [worth, ← hgone]
  refine Bag.total_cut _ fun b hb hgone => ?_
  exact (hloose b (mem_of_gone hl.mem hslots.distinct hb hgone)).empty

theorem total_part (hslots : Carried slots) (hl : Among slots (front ++ [a]))
    (hfront : ∀ b ∈ front, Loose types itemId subType b) (ha : matching types itemId subType a.1 ≠ 0) (count : ℕ) :
    (((contents slots).cut (gone (front.map Prod.fst))).update (fun x => x.ref = a.1.ref)
        (takeCount count)).total (matching types itemId subType) +
      worth types itemId subType front + matching types itemId subType a.1 =
      (contents slots).total (matching types itemId subType) +
        matching types itemId subType (takeCount count a.1) := by
  obtain ⟨hmem, hnodup⟩ := hl
  have hamem : a ∈ (contents slots).nodes := hmem a (List.mem_append_right _ List.mem_cons_self)
  have hfrontMem : ∀ b ∈ front, b ∈ (contents slots).nodes :=
    fun b hb => hmem b (List.mem_append_left _ hb)
  rw [List.map_append, List.nodup_append] at hnodup
  obtain ⟨hfrontNodup, -, hdisjoint⟩ := hnodup
  have hne : ∀ b ∈ front, b.1.ref ≠ a.1.ref := fun b hb =>
    hdisjoint _ (List.mem_map_of_mem (f := fun a : Item × Bag Item => a.1.ref) hb) _ List.mem_cons_self
  let left : Item → ℕ := fun x =>
    if x.ref = a.1.ref then matching types itemId subType (takeCount count x)
    else matching types itemId subType x
  have hleft : ∀ {x : Item}, x.ref ≠ a.1.ref → left x = matching types itemId subType x :=
    fun hx => if_neg hx
  have hempty : ∀ b ∈ (contents slots).nodes, gone (front.map Prod.fst) b.1 = true → b.2.total left = 0 := by
    intro b hb hgone
    have hzero := (hfront b (mem_of_gone hfrontMem hslots.distinct hb hgone)).empty
    rw [Bag.total_eq_zero_iff] at hzero ⊢
    intro c hc
    rw [hleft, hzero c hc]
    intro hrefs
    have heq : c = a :=
      List.inj_on_of_nodup_map hslots.distinct (Bag.mem_nodes_trans hb hc) hamem hrefs
    rw [heq] at hc
    exact ha (hzero a hc)
  have hcut := Bag.total_cut (contents slots) hempty
  have hfrontWorth : (front.map fun b => left b.1).sum = worth types itemId subType front := by
    rw [worth]
    exact congrArg List.sum (List.map_congr_left fun b hb => hleft (hne b hb))
  rw [total_gone left hfrontMem hfrontNodup hslots.distinct fun b hb => (hfront b hb).canRemove, hfrontWorth] at hcut
  have hreplace : (contents slots).total left + matching types itemId subType a.1 =
      (contents slots).total (matching types itemId subType) + matching types itemId subType (takeCount count a.1) :=
    Bag.total_replace hslots.distinct hamem _ _
  have hupdate : (((contents slots).cut (gone (front.map Prod.fst))).update
      (fun x => x.ref = a.1.ref) (takeCount count)).total (matching types itemId subType) =
      ((contents slots).cut (gone (front.map Prod.fst))).total left := by
    rw [Bag.total_update]
    simp only [decide_eq_true_eq]
    rfl
  rw [hupdate]
  omega

end Totals

/-! ## Results -/

section Results
variable {front back : List (Item × Bag Item)} {a : Item × Bag Item} {amount : UInt32}

theorem getItemTypeCount_toNat (hsmall : (contents slots).total (matching types itemId subType) < 2 ^ 32) :
    (getItemTypeCount types slots itemId subType).toNat = (contents slots).total (matching types itemId subType) := by
  rw [getItemTypeCount_eq, UInt32.toNat_ofNat', Nat.mod_eq_of_lt hsmall]

theorem worth_found_le (types : ℕ → Decay.ItemType) (itemId : ℕ) (subType : ℤ) (slots : Slots) :
    worth types itemId subType (found types itemId subType slots) ≤
      (contents slots).total (matching types itemId subType) := by
  rw [worth_found, ← worth_search]
  exact Nat.le_add_right _ _

theorem removeItemOfType_enough (hfound : found types itemId subType slots = front ++ a :: back)
    (hsmall : (contents slots).total (matching types itemId subType) < 2 ^ 32)
    (hlt : worth types itemId subType front < amount.toNat)
    (hle : amount.toNat ≤ worth types itemId subType front + matching types itemId subType a.1) :
    removeItemOfType types slots itemId amount subType false =
      (true, internalRemoveItems types (types itemId).stackable ((front ++ [a]).map Prod.fst) amount slots) := by
  have hne : amount ≠ 0 := by
    rintro rfl
    rw [UInt32.toNat_zero] at hlt
    exact Nat.not_lt_zero _ hlt
  rw [removeItemOfType, if_neg hne,
    collect_enough hfound ((worth_found_le types itemId subType slots).trans_lt hsmall) hlt hle]

theorem removeItemOfType_too_few (hne : amount ≠ 0)
    (hlt : worth types itemId subType (found types itemId subType slots) < amount.toNat) :
    removeItemOfType types slots itemId amount subType false = (false, slots) := by
  rw [removeItemOfType, if_neg hne, collect_too_few hlt]

theorem agrees_iff_left (hfound : found types itemId subType slots = front ++ a :: back)
    (hsmall : (contents slots).total (matching types itemId subType) < 2 ^ 32)
    (hlt : worth types itemId subType front < amount.toNat)
    (hle : amount.toNat ≤ worth types itemId subType front + matching types itemId subType a.1)
    {left : ℕ} (hleft : (contents (internalRemoveItems types (types itemId).stackable
      ((front ++ [a]).map Prod.fst) amount slots)).total (matching types itemId subType) = left)
    (hbound : left < 2 ^ 32) : Agrees types slots itemId subType amount ↔
      left + amount.toNat = (contents slots).total (matching types itemId subType) := by
  have henough := removeItemOfType_enough hfound hsmall hlt hle
  have hafter := getItemTypeCount_toNat (hleft.trans_lt hbound)
  have hcount := getItemTypeCount_toNat hsmall
  rw [hleft] at hafter
  constructor
  · intro h
    have hfewer := h.fewer
    rw [henough] at hfewer
    rw [← hcount, ← hfewer rfl, hafter]
  · intro heq
    refine ⟨?_, ?_, ?_⟩
    · rw [henough, UInt32.le_iff_toNat_le, hcount]
      exact ⟨fun _ => by omega, fun _ => rfl⟩
    · rw [henough, hafter, hcount]
      exact fun _ => heq
    · rw [henough]
      intro h
      cases h

theorem leftOut_eq_zero_iff : leftOut types itemId subType slots = 0 ↔ ∀ a, some a ∈ slots →
    a.1.id = itemId → a.2.total (matching types itemId subType) = 0 := by
  induction slots with
  | nil => simp [leftOut]
  | cons slot slots ih =>
    cases slot with
    | none => simp [leftOut, ih]
    | some slot =>
      rw [leftOut, Nat.add_eq_zero_iff, ih]
      constructor
      · rintro ⟨hslot, hslots⟩ b hb hid
        rcases List.mem_cons.mp hb with heq | hb
        · cases heq
          rwa [if_pos hid] at hslot
        · exact hslots b hb hid
      · intro h
        refine ⟨?_, fun b hb => h b (List.mem_cons_of_mem _ hb)⟩
        split
        · rename_i hid
          exact h slot List.mem_cons_self hid
        · rfl

theorem matching_divisible (hdivisible : Divisible types itemId subType) {count : ℕ} {x : Item}
    (hx : matching types itemId subType x ≠ 0) (hle : count ≤ x.count) (hbyte : x.count < 2 ^ 8) :
    matching types itemId subType (takeCount count x) = x.count - count := by
  obtain ⟨-, htype⟩ := hdivisible
  rw [matching] at hx
  split at hx
  · rename_i hid
    have hid' : (takeCount count x).id = itemId := hid
    have hcounted : subType = -1 ∨ subType = (takeCount count x).toItem.getSubType types := by
      rcases htype with h | hfluid
      · exact .inl h
      · rw [countByType] at hx
        split at hx
        · rename_i h
          refine h.imp id fun h => h.trans ?_
          have hfluid' : (types x.id).isFluid = true := by rwa [hid]
          rw [Decay.Item.getSubType, if_pos hfluid', Decay.Item.getSubType]
          exact (if_pos hfluid').symm
        · exact absurd rfl hx
    rw [matching, if_pos hid', countByType, if_pos hcounted, count_takeCount hle hbyte]
  · exact absurd rfl hx

/-- What is left of orderly slots when there are enough: some items are gone, or some are and the
last stack is smaller. -/
theorem Orderly.removed (h : Orderly types slots itemId subType) (hslots : Carried slots)
    (hsmall : (contents slots).total (matching types itemId subType) < 2 ^ 32) (hne : amount ≠ 0)
    (hle : amount.toNat ≤ (contents slots).total (matching types itemId subType)) :
    ∃ front a slots', removeItemOfType types slots itemId amount subType false = (true, slots') ∧
      Among slots (front ++ [a]) ∧ (∀ b ∈ front ++ [a], b.1.id = itemId) ∧
      (contents slots' = (contents slots).cut (gone ((front ++ [a]).map Prod.fst)) ∨
        amount.toNat - worth types itemId subType front ≤ a.1.count ∧
        contents slots' = ((contents slots).cut (gone (front.map Prod.fst))).update
          (fun x => x.ref = a.1.ref) (takeCount (amount.toNat - worth types itemId subType front))) ∧
      (contents slots').total (matching types itemId subType) + amount.toNat =
        (contents slots).total (matching types itemId subType) := by
  have hall : worth types itemId subType (found types itemId subType slots) =
      (contents slots).total (matching types itemId subType) := by
    rw [worth_found, ← worth_search, leftOut_eq_zero_iff.mpr h.equipped, Nat.add_zero]
  have hpos : amount.toNat ≠ 0 := fun h => hne (UInt32.toNat_inj.mp h)
  obtain ⟨front, a, back, hfound, hlt, hle'⟩ := exists_split hpos (hle.trans_eq hall.symm)
  have hfound' : found types itemId subType slots = (front ++ [a]) ++ back := by
    rw [hfound, List.append_assoc, List.singleton_append]
  have hamong : Among slots (front ++ [a]) := .of_found hslots hfound'
  have hids : ∀ b ∈ front ++ [a], b.1.id = itemId := fun b hb =>
    (mem_found_id (hfound' ▸ List.mem_append_left back hb)).1
  have hcount : ∀ b ∈ front ++ [a], matching types itemId subType b.1 ≠ 0 := fun b hb =>
    found_ne_zero (hfound' ▸ List.mem_append_left back hb)
  have hloose : ∀ b ∈ front ++ [a], Loose types itemId subType b := fun b hb =>
    h.loose b (hamong.mem b hb) (hcount b hb)
  have ha : a ∈ front ++ [a] := List.mem_append_right _ List.mem_cons_self
  have hacount := matching_eq_count (hcount a ha)
  refine ⟨front, a, _, removeItemOfType_enough hfound hsmall hlt hle', hamong, hids, ?_⟩
  by_cases hpart : (types itemId).stackable = true ∧
      amount.toNat < worth types itemId subType front + matching types itemId subType a.1
  · -- the last stack is split
    obtain ⟨hstackable, hpart⟩ := hpart
    have hdivisible : Divisible types itemId subType :=
      h.divisible.resolve_right fun hone => by
        have hle := hone a (hamong.mem a ha)
        omega
    have hfront : ∀ b ∈ front, matching types itemId subType b.1 ≠ 0 := fun b hb =>
      hcount b (List.mem_append_left _ hb)
    have hcontents := contents_part slots hfront (by rwa [hids a ha]) (hloose a ha).canRemove
      hlt (by rwa [← hacount])
    have htotal := total_part hslots hamong (fun b hb => hloose b (List.mem_append_left _ hb))
      (hcount a ha) (amount.toNat - worth types itemId subType front)
    rw [matching_divisible hdivisible (hcount a ha) (by omega)
      (hslots.counted a (hamong.mem a ha))] at htotal
    rw [hstackable]
    refine ⟨.inr ⟨by omega, hcontents⟩, ?_⟩
    rw [hcontents]
    omega
  · have hexact : (types itemId).stackable = true → worth types itemId subType (front ++ [a]) ≤ amount.toNat := by
      intro hstackable
      rw [worth_concat]
      exact Nat.le_of_not_lt fun hlt => hpart ⟨hstackable, hlt⟩
    have htotal := total_whole hslots hamong hloose
    have hwhole : worth types itemId subType (front ++ [a]) = amount.toNat := by
      rw [worth_concat] at hexact ⊢
      by_cases hstackable : (types itemId).stackable = true
      · have hle := hexact hstackable
        omega
      · have hone := h.divisible.resolve_left (fun h => hstackable h.1) a (hamong.mem a ha)
        omega
    have hcontents := contents_whole slots hcount hexact
    refine ⟨.inl hcontents, ?_⟩
    rw [hcontents, ← hwhole]
    exact htotal

theorem Orderly.agrees (h : Orderly types slots itemId subType) (hslots : Carried slots)
    (hsmall : (contents slots).total (matching types itemId subType) < 2 ^ 32) (hne : amount ≠ 0) :
    Agrees types slots itemId subType amount := by
  have hcount := getItemTypeCount_toNat hsmall
  by_cases hle : amount.toNat ≤ (contents slots).total (matching types itemId subType)
  · obtain ⟨front, a, slots', hremoved, -, -, -, hleft⟩ := h.removed hslots hsmall hne hle
    have hafter : (getItemTypeCount types slots' itemId subType).toNat =
        (contents slots').total (matching types itemId subType) := getItemTypeCount_toNat (by omega)
    refine ⟨?_, ?_, ?_⟩
    · rw [hremoved, UInt32.le_iff_toNat_le, hcount]
      exact ⟨fun _ => hle, fun _ => rfl⟩
    · rw [hremoved, hafter, hcount]
      exact fun _ => hleft
    · rw [hremoved]
      intro h
      cases h
  · have hall := worth_found_le types itemId subType slots
    have htoo := removeItemOfType_too_few hne (hall.trans_lt (lt_of_not_ge hle))
    refine ⟨?_, ?_, ?_⟩
    · rw [htoo, UInt32.le_iff_toNat_le, hcount]
      refine ⟨fun h => ?_, fun h => absurd h hle⟩
      cases h
    · rw [htoo]
      intro h
      cases h
    · rw [htoo]
      exact fun _ => rfl

end Results

/-! ## What agreement needs -/

section Needed
variable {front back : List (Item × Bag Item)} {a : Item × Bag Item}

theorem left_of_agrees (hsmall : (contents slots).total (matching types itemId subType) < 2 ^ 32)
    (h : ∀ amount : UInt32, amount ≠ 0 → Agrees types slots itemId subType amount)
    (hfound : found types itemId subType slots = front ++ a :: back) {amount left : ℕ}
    (hlt : worth types itemId subType front < amount)
    (hle : amount ≤ worth types itemId subType front + matching types itemId subType a.1)
    (hleft : (contents (internalRemoveItems types (types itemId).stackable
      ((front ++ [a]).map Prod.fst) (UInt32.ofNat amount) slots)).total
        (matching types itemId subType) = left) (hbound : left < 2 ^ 32) :
    left + amount = (contents slots).total (matching types itemId subType) := by
  have htotal : worth types itemId subType front + matching types itemId subType a.1 ≤
      (contents slots).total (matching types itemId subType) := by
    refine le_trans ?_ (worth_found_le types itemId subType slots)
    rw [hfound, worth_append, worth_cons]
    omega
  have hamount : (UInt32.ofNat amount).toNat = amount := by
    rw [UInt32.toNat_ofNat', Nat.mod_eq_of_lt (by omega)]
  have hne : UInt32.ofNat amount ≠ 0 := by
    intro hzero
    rw [hzero, UInt32.toNat_zero] at hamount
    omega
  have hagrees := h (UInt32.ofNat amount) hne
  rw [agrees_iff_left hfound hsmall (by rwa [hamount]) (by rwa [hamount]) hleft hbound,
    hamount] at hagrees
  exact hagrees

theorem left_prefix (hsmall : (contents slots).total (matching types itemId subType) < 2 ^ 32)
    (h : ∀ amount : UInt32, amount ≠ 0 → Agrees types slots itemId subType amount)
    (hfound : found types itemId subType slots = front ++ back) :
    ((contents slots).cut (gone (front.map Prod.fst))).total (matching types itemId subType) +
        worth types itemId subType front =
      (contents slots).total (matching types itemId subType) := by
  rcases front.eq_nil_or_concat with rfl | ⟨init, a, rfl⟩
  · rw [show gone (([] : List (Item × Bag Item)).map Prod.fst) = fun _ => false from rfl,
      Bag.cut_none, worth, List.map_nil, List.sum_nil, Nat.add_zero]
  · rw [List.concat_eq_append] at hfound ⊢
    have hcount : ∀ b ∈ init ++ [a], matching types itemId subType b.1 ≠ 0 := fun b hb =>
      found_ne_zero (hfound ▸ List.mem_append_left back hb)
    have ha := hcount a (List.mem_append_right _ List.mem_cons_self)
    have hle := Bag.total_cut_le (gone ((init ++ [a]).map Prod.fst)) (matching types itemId subType) (contents slots)
    rw [List.append_assoc, List.singleton_append] at hfound
    have htotal := worth_found_le types itemId subType slots
    rw [hfound, worth_append, worth_cons] at htotal
    have hexact : (types itemId).stackable = true → worth types itemId subType (init ++ [a]) ≤
        (UInt32.ofNat (worth types itemId subType (init ++ [a]))).toNat := by
      intro _
      rw [worth_concat, UInt32.toNat_ofNat', Nat.mod_eq_of_lt (by omega)]
    have hleft := congrArg (Bag.total (matching types itemId subType)) (contents_whole slots hcount hexact)
    refine left_of_agrees hsmall h hfound ?_ ?_ hleft (by omega)
    · rw [worth_concat]
      omega
    · rw [worth_concat]

theorem canRemove_of_agrees (hsmall : (contents slots).total (matching types itemId subType) < 2 ^ 32)
    (h : ∀ amount : UInt32, amount ≠ 0 → Agrees types slots itemId subType amount)
    {a : Item × Bag Item} (ha : a ∈ found types itemId subType slots) : a.1.canRemove = true := by
  obtain ⟨front, back, hfound⟩ := List.append_of_mem ha
  have hbefore := left_prefix hsmall h hfound
  rw [← List.singleton_append, ← List.append_assoc] at hfound
  have hafter := left_prefix hsmall h hfound
  cases hremove : a.1.canRemove with
  | true => rfl
  | false =>
    have hgone : gone ((front ++ [a]).map Prod.fst) = gone (front.map Prod.fst) := by
      rw [List.map_append, gone_append]
      funext x
      simp [gone, hremove]
    rw [hgone, worth_concat] at hafter
    exact absurd (by omega) (found_ne_zero ha)

theorem found_pairwise (types : ℕ → Decay.ItemType) (itemId : ℕ) (subType : ℤ)
    (hslots : Carried slots) : (found types itemId subType slots).Pairwise fun a b =>
      ∀ c ∈ b.2.nodes, c.1.ref ≠ a.1.ref :=
  (search_pairwise hslots.distinct).filter _

theorem loose_of_agrees (hslots : Carried slots)
    (hsmall : (contents slots).total (matching types itemId subType) < 2 ^ 32)
    (h : ∀ amount : UInt32, amount ≠ 0 → Agrees types slots itemId subType amount) {a : Item × Bag Item}
    (ha : a ∈ found types itemId subType slots) : Loose types itemId subType a := by
  obtain ⟨front, back, hfound⟩ := List.append_of_mem ha
  have hpairwise := found_pairwise types itemId subType hslots
  rw [hfound, List.pairwise_append] at hpairwise
  obtain ⟨-, -, hearlier⟩ := hpairwise
  rw [← List.singleton_append, ← List.append_assoc] at hfound
  have hamong : Among slots (front ++ [a]) := .of_found hslots hfound
  have haMem : a ∈ front ++ [a] := List.mem_append_right _ List.mem_cons_self
  have hremove : ∀ b ∈ front ++ [a], b.1.canRemove = true := fun b hb =>
    canRemove_of_agrees hsmall h (hfound ▸ List.mem_append_left back hb)
  refine ⟨hremove a haMem, ?_⟩
  rw [Bag.total_eq_zero_iff]
  intro b hb
  have hbMem := Bag.mem_nodes_trans (hamong.mem a haMem) hb
  have hleft := left_prefix hsmall h hfound
  rw [worth, ← total_gone _ hamong.mem hamong.nodup hslots.distinct hremove] at hleft
  have hagone : gone ((front ++ [a]).map Prod.fst) a.1 = true := by
    rw [List.map_append, gone_append]
    simp [gone, hremove a haMem]
  refine (Bag.of_total_cut hleft (hamong.mem a haMem) hagone hb).resolve_left fun hbgone => ?_
  rcases List.mem_append.mp (mem_of_gone hamong.mem hslots.distinct hbMem hbgone) with hbfront | hba
  · -- an earlier item is not in a later one
    exact hearlier b hbfront a List.mem_cons_self b hb rfl
  · rw [List.mem_singleton.mp hba] at hb
    exact Bag.ne_of_mem_inside hslots.distinct (hamong.mem a haMem) hb rfl

theorem equipped_of_agrees (hsmall : (contents slots).total (matching types itemId subType) < 2 ^ 32)
    (h : ∀ amount : UInt32, amount ≠ 0 → Agrees types slots itemId subType amount) :
    leftOut types itemId subType slots = 0 := by
  have hall := worth_search types itemId subType slots
  rw [← worth_found] at hall
  by_contra hleft
  let amount := UInt32.ofNat ((contents slots).total (matching types itemId subType))
  have hamount : amount.toNat = (contents slots).total (matching types itemId subType) := by
    rw [UInt32.toNat_ofNat', Nat.mod_eq_of_lt hsmall]
  have hne : amount ≠ 0 := by
    intro hzero
    rw [hzero, UInt32.toNat_zero] at hamount
    omega
  have htrue : (removeItemOfType types slots itemId amount subType false).1 = true := by
    rw [(h amount hne).enough, UInt32.le_iff_toNat_le, getItemTypeCount_toNat hsmall, hamount]
  rw [removeItemOfType_too_few hne (by omega)] at htrue
  cases htrue

theorem subType_eq_count (hstackable : (types itemId).stackable = true) (hdivisible : ¬ Divisible types itemId subType)
    {x : Item} (hx : matching types itemId subType x ≠ 0) : subType = x.count := by
  rw [matching] at hx
  split at hx
  · rename_i hid
    rw [countByType] at hx
    split at hx
    · rename_i htype
      have hall : subType ≠ -1 := fun h => hdivisible ⟨hstackable, .inl h⟩
      have hfluid : (types x.id).isFluid ≠ true := by
        rw [hid]
        exact fun h => hdivisible ⟨hstackable, .inr h⟩
      have hstack : (types x.id).stackable = true := by rwa [hid]
      rw [htype.resolve_left hall, Decay.Item.getSubType, if_neg hfluid, if_pos hstack]
    · exact absurd rfl hx
  · exact absurd rfl hx

theorem divisible_of_agrees (hslots : Carried slots)
    (hsmall : (contents slots).total (matching types itemId subType) < 2 ^ 32)
    (h : ∀ amount : UInt32, amount ≠ 0 → Agrees types slots itemId subType amount)
    {a : Item × Bag Item} (ha : a ∈ found types itemId subType slots)
    (hmore : 1 < matching types itemId subType a.1) : Divisible types itemId subType := by
  obtain ⟨front, back, hfound⟩ := List.append_of_mem ha
  have hfound' : found types itemId subType slots = (front ++ [a]) ++ back := by
    rw [hfound, List.append_assoc, List.singleton_append]
  have hamong : Among slots (front ++ [a]) := .of_found hslots hfound'
  have hcount : ∀ b ∈ front ++ [a], matching types itemId subType b.1 ≠ 0 := fun b hb =>
    found_ne_zero (hfound' ▸ List.mem_append_left back hb)
  have hwhole := left_prefix hsmall h hfound'
  rw [worth_concat] at hwhole
  have hamount : (UInt32.ofNat (worth types itemId subType front + 1)).toNat =
      worth types itemId subType front + 1 := by
    rw [UInt32.toNat_ofNat', Nat.mod_eq_of_lt (by omega)]
  have hone : ∀ left, _ = left → left < 2 ^ 32 → left + (worth types itemId subType front + 1) =
      (contents slots).total (matching types itemId subType) := fun left =>
    left_of_agrees hsmall h hfound (Nat.lt_succ_self _) (by omega)
  cases hstackable : (types itemId).stackable with
  | false =>
    rw [hstackable] at hone
    have hleft := hone _ (congrArg (Bag.total _) (contents_whole slots hcount fun h => by cases h)) (by omega)
    omega
  | true =>
    by_contra hdivisible
    have hid : a.1.id = itemId := (mem_found_id ha).1
    have hacount := matching_eq_count (found_ne_zero ha)
    have hloose : ∀ b ∈ front ++ [a], Loose types itemId subType b := fun b hb =>
      loose_of_agrees hslots hsmall h (hfound' ▸ List.mem_append_left back hb)
    have hlt : worth types itemId subType front <
        (UInt32.ofNat (worth types itemId subType front + 1)).toNat := by omega
    have hcontents := contents_part slots (fun b hb => hcount b (List.mem_append_left _ hb))
      (by rwa [hid]) (hloose a (List.mem_append_right _ List.mem_cons_self)).canRemove hlt
      (by omega)
    have htotal := total_part hslots hamong (fun b hb => hloose b (List.mem_append_left _ hb)) (found_ne_zero ha) 1
    have hbyte := hslots.counted a (hamong.mem a (List.mem_append_right _ List.mem_cons_self))
    have hrest : matching types itemId subType (takeCount 1 a.1) ≤ a.1.count - 1 :=
      matching_takeCount_le (by omega) hbyte
    rw [hamount, Nat.add_sub_cancel_left] at hcontents
    rw [hstackable] at hone
    have hleft := hone _ (congrArg (Bag.total _) hcontents) (by omega)
    -- the rest would count with its own count as its subtype
    have hpart := subType_eq_count hstackable hdivisible (x := takeCount 1 a.1) (by omega)
    have hfull := subType_eq_count hstackable hdivisible (found_ne_zero ha)
    rw [count_takeCount (by omega) hbyte] at hpart
    omega

end Needed

/-- Counting and removing agree on all amounts if and only if what is carried is orderly. -/
theorem agrees_iff_orderly (hslots : Carried slots)
    (hsmall : (contents slots).total (matching types itemId subType) < 2 ^ 32) :
    (∀ amount : UInt32, amount ≠ 0 → Agrees types slots itemId subType amount) ↔
      Orderly types slots itemId subType := by
  constructor
  · intro h
    have hleft := equipped_of_agrees hsmall h
    refine ⟨leftOut_eq_zero_iff.mp hleft, fun a ha hcount => ?_, ?_⟩
    · exact loose_of_agrees hslots hsmall h (mem_found hleft ha hcount)
    · by_cases hdivisible : Divisible types itemId subType
      · exact .inl hdivisible
      · refine .inr fun a ha => Nat.le_of_not_lt fun hmore => hdivisible ?_
        exact divisible_of_agrees hslots hsmall h (mem_found hleft ha (by omega)) hmore
  · intro h amount hne
    exact h.agrees hslots hsmall hne

/-! ## Examples -/

/-- Gold coins are stacked, backpacks are not. -/
def goods (id : ℕ) : Decay.ItemType :=
  if id = 2148 then { id, stackable := true }
  else if id = 1988 then { id, group := .container }
  else { id }

/-- A backpack with another one and some gold in it. -/
def luggage : Slots :=
  [some ({ id := 1988, ref := 1 },
    .cons { id := 1988, ref := 2 } (.cons { id := 2148, count := 3, ref := 3 } .nil .nil)
      (.cons { id := 2148, count := 100, ref := 4 } .nil .nil))]

theorem luggage_gold_agrees : Carried luggage ∧
    ∀ amount : UInt32, amount ≠ 0 → Agrees goods luggage 2148 (-1) amount := by
  have hcarried : Carried luggage := ⟨by decide, by decide⟩
  have hsmall : (contents luggage).total (matching goods 2148 (-1)) < 2 ^ 32 := by decide
  refine ⟨hcarried, (agrees_iff_orderly hcarried hsmall).mpr ⟨?_, ?_, ?_⟩⟩
  · intro a ha hid
    rw [luggage, List.mem_singleton] at ha
    cases ha
    cases hid
  · have hloose : ∀ a ∈ (contents luggage).nodes, matching goods 2148 (-1) a.1 ≠ 0 →
        a.1.canRemove = true ∧ a.2.total (matching goods 2148 (-1)) = 0 := by decide
    intro a ha hcount
    obtain ⟨hremove, hempty⟩ := hloose a ha hcount
    exact ⟨hremove, hempty⟩
  · exact .inl ⟨rfl, .inl rfl⟩

/-- There are two backpacks, but two cannot be removed, and with one the other is gone as well. -/
theorem luggage_backpacks_disagree : getItemTypeCount goods luggage 1988 (-1) = 2 ∧
      removeItemOfType goods luggage 1988 2 (-1) false = (false, luggage) ∧
      removeItemOfType goods luggage 1988 1 (-1) false = (true, [none]) ∧
      getItemTypeCount goods [none] 1988 (-1) = 0 ∧
      ¬ Agrees goods luggage 1988 (-1) 2 := by
  refine ⟨by decide, rfl, rfl, rfl, fun h => ?_⟩
  have henough := h.enough.mpr (by decide)
  cases henough

end ForgottenServer.Inventory
