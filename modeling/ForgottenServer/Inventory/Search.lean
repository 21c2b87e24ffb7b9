import ForgottenServer.Inventory.Carried
import Mathlib.Data.List.Perm.Subperm

/-! # Looking for items of a type

Which of the carried items are found when some of a type are to be removed. -/
namespace ForgottenServer.Inventory
open ForgottenServer.Lib.Bags

variable {types : ℕ → Decay.ItemType} {itemId : ℕ} {subType : ℤ} {slots : Slots}

/-- The items that `removeItemOfType` looks at, in its order. -/
def search (itemId : ℕ) (slots : Slots) : List (Item × Bag Item) :=
  slots.flatMap (searched itemId false)

/-- What some items count together. -/
def worth (types : ℕ → Decay.ItemType) (itemId : ℕ) (subType : ℤ) (l : List (Item × Bag Item)) : ℕ :=
  (l.map fun a => matching types itemId subType a.1).sum

/-- What is in the slots in items of the type is not looked at. -/
def leftOut (types : ℕ → Decay.ItemType) (itemId : ℕ) (subType : ℤ) : Slots → ℕ
  | [] => 0
  | none :: slots => leftOut types itemId subType slots
  | some (item, inside) :: slots =>
    (if item.id = itemId then inside.total (matching types itemId subType) else 0) + leftOut types itemId subType slots

/-! ## What is looked at -/

section Search

theorem searched_of_id {item : Item} (hid : item.id = itemId) (inside : Bag Item) :
    searched itemId false (some (item, inside)) = [(item, inside)] := by
  rw [searched]
  simp [hid]

theorem searched_of_ne {item : Item} (hid : item.id ≠ itemId) (inside : Bag Item) :
    searched itemId false (some (item, inside)) = inside.breadthFirst.filter (·.1.id = itemId) := by
  rw [searched]
  simp [hid]

theorem search_id {a : Item × Bag Item} (ha : a ∈ search itemId slots) : a.1.id = itemId := by
  obtain ⟨slot, -, ha⟩ := List.mem_flatMap.mp ha
  cases slot with
  | none => cases ha
  | some slot =>
    obtain ⟨item, inside⟩ := slot
    by_cases hid : item.id = itemId
    · rw [searched_of_id hid, List.mem_singleton] at ha
      rw [ha]
      exact hid
    · rw [searched_of_ne hid] at ha
      simpa using (List.mem_filter.mp ha).2

theorem searched_subperm (itemId : ℕ) (item : Item) (inside : Bag Item) :
    (searched itemId false (some (item, inside))).Subperm ((item, inside) :: inside.nodes) := by
  by_cases hid : item.id = itemId
  · rw [searched_of_id hid]
    exact (List.singleton_sublist.mpr List.mem_cons_self).subperm
  · rw [searched_of_ne hid]
    have hfilter : (inside.breadthFirst.filter (·.1.id = itemId)).Subperm inside.nodes :=
      List.filter_sublist.subperm.trans inside.breadthFirst_perm.subperm
    exact hfilter.trans (List.sublist_cons_self _ _).subperm

theorem search_subperm (itemId : ℕ) (slots : Slots) : (search itemId slots).Subperm (contents slots).nodes := by
  induction slots with
  | nil => exact List.nil_subperm
  | cons slot slots ih =>
    cases slot with
    | none => exact ih
    | some slot =>
      obtain ⟨item, inside⟩ := slot
      rw [search, List.flatMap_cons, contents, Bag.nodes, ← List.cons_append]
      exact (searched_subperm itemId item inside).append ih

/-- Nothing is looked at before something it is in. -/
theorem search_pairwise (h : ((contents slots).nodes.map fun a => a.1.ref).Nodup) :
    (search itemId slots).Pairwise fun a b => ∀ c ∈ b.2.nodes, c.1.ref ≠ a.1.ref := by
  induction slots with
  | nil =>
    rw [search, List.flatMap_nil]
    exact List.Pairwise.nil
  | cons slot slots ih =>
    cases slot with
    | none => exact ih h
    | some slot =>
      obtain ⟨item, inside⟩ := slot
      rw [contents, Bag.nodes, ← List.cons_append, List.map_append, List.nodup_append] at h
      obtain ⟨hslot, hrest, hdisjoint⟩ := h
      rw [search, List.flatMap_cons, List.pairwise_append]
      refine ⟨?_, ih hrest, ?_⟩
      · by_cases hid : item.id = itemId
        · rw [searched_of_id hid]
          exact List.pairwise_singleton _ _
        · rw [List.map_cons, List.nodup_cons] at hslot
          rw [searched_of_ne hid]
          exact (Bag.breadthFirst_pairwise Item.ref hslot.2).filter _
      · intro a ha b hb c hc heq
        have ha' := (searched_subperm itemId item inside).subset ha
        have hb' := (search_subperm itemId slots).subset hb
        exact hdisjoint a.1.ref (List.mem_map_of_mem (f := fun a : Item × Bag Item => a.1.ref) ha')
          c.1.ref (List.mem_map_of_mem (f := fun a : Item × Bag Item => a.1.ref) (Bag.mem_nodes_trans hb' hc)) heq.symm

end Search

/-! ## What it is worth -/

section Worth

theorem worth_cons (a : Item × Bag Item) (l : List (Item × Bag Item)) :
    worth types itemId subType (a :: l) = matching types itemId subType a.1 + worth types itemId subType l := by
  rw [worth, List.map_cons, List.sum_cons, worth]

theorem worth_append (l l' : List (Item × Bag Item)) :
    worth types itemId subType (l ++ l') = worth types itemId subType l + worth types itemId subType l' := by
  rw [worth, List.map_append, List.sum_append, worth, worth]

theorem worth_concat (l : List (Item × Bag Item)) (a : Item × Bag Item) :
    worth types itemId subType (l ++ [a]) = worth types itemId subType l + matching types itemId subType a.1 := by
  rw [worth_append, worth_cons, worth, worth, List.map_nil, List.sum_nil, Nat.add_zero]

theorem worth_filter_id (l : List (Item × Bag Item)) :
    worth types itemId subType (l.filter (·.1.id = itemId)) = worth types itemId subType l := by
  induction l with
  | nil => rfl
  | cons a l ih =>
    by_cases hid : a.1.id = itemId
    · rw [List.filter_cons_of_pos (by simpa using hid), worth_cons, worth_cons, ih]
    · rw [List.filter_cons_of_neg (by simpa using hid), ih, worth_cons, matching, if_neg hid,
        Nat.zero_add]

theorem worth_breadthFirst (l : Bag Item) :
    worth types itemId subType l.breadthFirst = l.total (matching types itemId subType) := by
  rw [worth, Bag.total_eq_sum]
  exact (l.breadthFirst_perm.map fun a => matching types itemId subType a.1).sum_eq

theorem worth_search (types : ℕ → Decay.ItemType) (itemId : ℕ) (subType : ℤ) (slots : Slots) :
    worth types itemId subType (search itemId slots) + leftOut types itemId subType slots =
      (contents slots).total (matching types itemId subType) := by
  induction slots with
  | nil => rfl
  | cons slot slots ih =>
    cases slot with
    | none => exact ih
    | some slot =>
      obtain ⟨item, inside⟩ := slot
      have hslot : worth types itemId subType (searched itemId false (some (item, inside))) +
          (if item.id = itemId then inside.total (matching types itemId subType) else 0) =
          matching types itemId subType item + inside.total (matching types itemId subType) := by
        by_cases hid : item.id = itemId
        · rw [searched_of_id hid, if_pos hid, worth_cons, worth, List.map_nil, List.sum_nil, Nat.add_zero]
        · rw [searched_of_ne hid, if_neg hid, worth_filter_id, worth_breadthFirst, matching,
            if_neg hid, Nat.zero_add, Nat.add_zero]
      rw [search] at ih
      rw [search, List.flatMap_cons, worth_append, leftOut, contents, Bag.total, ← hslot, ← ih]
      omega

/-- The items that count when `removeItemOfType` looks at them. -/
def found (types : ℕ → Decay.ItemType) (itemId : ℕ) (subType : ℤ) (slots : Slots) : List (Item × Bag Item) :=
  (search itemId slots).filter fun a => matching types itemId subType a.1 ≠ 0

theorem worth_found (types : ℕ → Decay.ItemType) (itemId : ℕ) (subType : ℤ) (slots : Slots) :
    worth types itemId subType (found types itemId subType slots) =
      worth types itemId subType (search itemId slots) := by
  rw [found]
  induction search itemId slots with
  | nil => rfl
  | cons a l ih =>
    by_cases hcount : matching types itemId subType a.1 = 0
    · rw [List.filter_cons_of_neg (by simpa using hcount), ih, worth_cons, hcount, Nat.zero_add]
    · rw [List.filter_cons_of_pos (by simpa using hcount), worth_cons, worth_cons, ih]

theorem found_subperm (types : ℕ → Decay.ItemType) (itemId : ℕ) (subType : ℤ) (slots : Slots) :
    (found types itemId subType slots).Subperm (contents slots).nodes :=
  List.filter_sublist.subperm.trans (search_subperm itemId slots)

theorem found_ne_zero {a : Item × Bag Item} (ha : a ∈ found types itemId subType slots) :
    matching types itemId subType a.1 ≠ 0 := by
  simpa using (List.mem_filter.mp ha).2

theorem mem_found (hleft : leftOut types itemId subType slots = 0) {a : Item × Bag Item}
    (ha : a ∈ (contents slots).nodes) (hcount : matching types itemId subType a.1 ≠ 0) :
    a ∈ found types itemId subType slots := by
  obtain ⟨l, hl, hsub⟩ := search_subperm itemId slots
  obtain ⟨rest, hl'⟩ := hsub.exists_perm_append
  have hrest : (contents slots).nodes.Perm (search itemId slots ++ rest) :=
    hl'.trans (hl.append_right rest)
  have hall : worth types itemId subType (search itemId slots) =
      worth types itemId subType (search itemId slots ++ rest) := by
    have hsearch := worth_search types itemId subType slots
    have hsum := (hrest.map fun a => matching types itemId subType a.1).sum_eq
    rw [← Bag.total_eq_sum] at hsum
    rw [hleft, Nat.add_zero] at hsearch
    exact hsearch.trans hsum
  rw [worth_append] at hall
  have hzero : worth types itemId subType rest = 0 := by omega
  rcases List.mem_append.mp (hrest.subset ha) with h | h
  · exact List.mem_filter.mpr ⟨h, by simpa using hcount⟩
  · have hle := List.single_le_sum (fun _ _ => Nat.zero_le _) _
      (List.mem_map_of_mem (f := fun a => matching types itemId subType a.1) h)
    rw [worth] at hzero
    omega

end Worth

/-! ## The items that are collected -/

section Collect

theorem collect_filter (amount : UInt32) {l : List (Item × Bag Item)}
    (hid : ∀ a ∈ l, a.1.id = itemId) (itemList : List Item) (count : UInt32) :
    collect types subType amount l itemList count =
      collect types subType amount (l.filter fun a => matching types itemId subType a.1 ≠ 0)
        itemList count := by
  induction l generalizing itemList count with
  | nil => rfl
  | cons a l ih =>
    obtain ⟨ha, hl⟩ := List.forall_mem_cons.mp hid
    have hcount : matching types itemId subType a.1 = countByType types a.1 subType :=
      if_pos ha
    by_cases hzero : countByType types a.1 subType = 0
    · rw [List.filter_cons_of_neg (by simpa [hcount] using hzero), collect, if_pos hzero]
      exact ih hl itemList count
    · rw [List.filter_cons_of_pos (by simpa [hcount] using hzero), collect, collect, if_neg hzero,
        if_neg hzero, ih hl]

theorem collect_append {amount : UInt32} {front : List (Item × Bag Item)}
    (hfront : ∀ a ∈ front, a.1.id = itemId ∧ matching types itemId subType a.1 ≠ 0) {count : ℕ}
    (hlt : count + worth types itemId subType front < amount.toNat) (l : List (Item × Bag Item))
    (itemList : List Item) :
    collect types subType amount (front ++ l) itemList (UInt32.ofNat count) =
      collect types subType amount l (itemList ++ front.map Prod.fst)
        (UInt32.ofNat (count + worth types itemId subType front)) := by
  induction front generalizing count itemList with
  | nil => rw [List.nil_append, List.map_nil, List.append_nil]; rfl
  | cons a front ih =>
    obtain ⟨⟨hid, hne⟩, hrest⟩ := List.forall_mem_cons.mp hfront
    rw [worth_cons] at hlt
    have hcount : countByType types a.1 subType = matching types itemId subType a.1 :=
      (if_pos hid).symm
    have hless : ¬ amount ≤ UInt32.ofNat count + UInt32.ofNat (matching types itemId subType a.1) := by
      intro hle
      rw [← UInt32.ofNat_add, UInt32.le_iff_toNat_le, UInt32.toNat_ofNat'] at hle
      have hmod := Nat.mod_le (count + matching types itemId subType a.1) (2 ^ 32)
      omega
    rw [List.cons_append, collect, hcount, if_neg hne, if_neg hless, ← UInt32.ofNat_add,
      ih hrest (by omega), worth_cons, List.map_cons, List.append_assoc, List.singleton_append,
      Nat.add_assoc]

theorem exists_split {l : List (Item × Bag Item)} {amount : ℕ} (hpos : amount ≠ 0)
    (hle : amount ≤ worth types itemId subType l) : ∃ front a back, l = front ++ a :: back ∧
      worth types itemId subType front < amount ∧
      amount ≤ worth types itemId subType front + matching types itemId subType a.1 := by
  induction l generalizing amount with
  | nil =>
    rw [worth, List.map_nil, List.sum_nil] at hle
    omega
  | cons a l ih =>
    rw [worth_cons] at hle
    by_cases hfirst : amount ≤ matching types itemId subType a.1
    · refine ⟨[], a, l, rfl, ?_, ?_⟩
      · rw [worth, List.map_nil, List.sum_nil]
        omega
      · omega
    · have hrest : amount - matching types itemId subType a.1 ≤ worth types itemId subType l := by
        omega
      obtain ⟨front, b, back, rfl, hlt, hle'⟩ := ih (by omega) hrest
      refine ⟨a :: front, b, back, rfl, ?_, ?_⟩
      · rw [worth_cons]
        omega
      · rw [worth_cons]
        omega

theorem mem_found_id {a : Item × Bag Item} (ha : a ∈ found types itemId subType slots) :
    a.1.id = itemId ∧ matching types itemId subType a.1 ≠ 0 :=
  ⟨search_id (List.mem_filter.mp ha).1, found_ne_zero ha⟩

theorem collect_search (amount : UInt32) : collect types subType amount (slots.flatMap (searched itemId false)) [] 0 =
      collect types subType amount (found types itemId subType slots) [] (UInt32.ofNat 0) :=
  collect_filter amount (fun _ ha => search_id ha) [] 0

theorem collect_enough {amount : UInt32} {front back : List (Item × Bag Item)} {a : Item × Bag Item}
    (hfound : found types itemId subType slots = front ++ a :: back)
    (hsmall : worth types itemId subType (found types itemId subType slots) < 2 ^ 32)
    (hlt : worth types itemId subType front < amount.toNat)
    (hle : amount.toNat ≤ worth types itemId subType front + matching types itemId subType a.1) :
    collect types subType amount (slots.flatMap (searched itemId false)) [] 0 =
      some ((front ++ [a]).map Prod.fst) := by
  have hall : ∀ b ∈ front ++ a :: back, b.1.id = itemId ∧ matching types itemId subType b.1 ≠ 0 := by
    rw [← hfound]
    exact fun b hb => mem_found_id hb
  rw [hfound, worth_append, worth_cons] at hsmall
  have hfront : ∀ b ∈ front, b.1.id = itemId ∧ matching types itemId subType b.1 ≠ 0 :=
    fun b hb => hall b (List.mem_append_left _ hb)
  obtain ⟨hid, hne⟩ := hall a (List.mem_append_right _ List.mem_cons_self)
  have hcount : countByType types a.1 subType = matching types itemId subType a.1 :=
    (if_pos hid).symm
  have henough : amount ≤ UInt32.ofNat (worth types itemId subType front) +
      UInt32.ofNat (matching types itemId subType a.1) := by
    rw [← UInt32.ofNat_add, UInt32.le_iff_toNat_le, UInt32.toNat_ofNat', Nat.mod_eq_of_lt (by omega)]
    exact hle
  rw [collect_search, hfound, collect_append hfront (by omega), Nat.zero_add, collect, hcount,
    if_neg hne, if_pos henough, List.nil_append, List.map_append, List.map_singleton]

theorem collect_too_few {amount : UInt32}
    (hlt : worth types itemId subType (found types itemId subType slots) < amount.toNat) :
    collect types subType amount (slots.flatMap (searched itemId false)) [] 0 = none := by
  have hall : ∀ a ∈ found types itemId subType slots,
      a.1.id = itemId ∧ matching types itemId subType a.1 ≠ 0 := fun a ha => mem_found_id ha
  have happend : collect types subType amount (found types itemId subType slots ++ []) []
      (UInt32.ofNat 0) = _ := collect_append hall (by omega) [] []
  rw [List.append_nil] at happend
  rw [collect_search, happend, collect]

end Collect
end ForgottenServer.Inventory
