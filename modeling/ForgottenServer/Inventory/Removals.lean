import ForgottenServer.Inventory.Agreement

/-! # Removing one thing after the other

A removal that takes only items which hold nothing and can be removed changes nothing
else, and removals can follow one another. -/
namespace ForgottenServer.Inventory
open ForgottenServer.Lib.Bags

variable {types : ℕ → Decay.ItemType} {itemId : ℕ} {slots slots' : Slots}

/-- How much of a type is carried. -/
def carriedCount (types : ℕ → Decay.ItemType) (slots : Slots) (itemId : ℕ) : ℕ :=
  (contents slots).total (matching types itemId (-1))

/-- The item can be removed, and nothing that counts, whatever its type, goes with it. -/
structure Alone (types : ℕ → Decay.ItemType) (a : Item × Bag Item) : Prop where
  canRemove : a.1.canRemove = true
  empty : ∀ id, a.2.total (matching types id (-1)) = 0

/-- There are enough among the items that are looked at. Those that are taken, up to the one
with which there are enough, go alone, and are as many as asked for unless a stack can be split. -/
def Clean (types : ℕ → Decay.ItemType) (slots : Slots) (itemId : ℕ) (amount : UInt32) : Prop :=
  amount = 0 ∨ ∃ front a back, found types itemId (-1) slots = front ++ a :: back ∧
    worth types itemId (-1) front < amount.toNat ∧
    amount.toNat ≤ worth types itemId (-1) (front ++ [a]) ∧
    (∀ b ∈ front ++ [a], Alone types b) ∧
    ((types itemId).stackable = true ∨ worth types itemId (-1) (front ++ [a]) = amount.toNat)

theorem Alone.loose {a : Item × Bag Item} (h : Alone types a) : Loose types itemId (-1) a :=
  ⟨h.canRemove, h.empty itemId⟩

/-! ## What is left -/

theorem Carried.cut (h : Carried slots) {p : Item → Bool} (hcut : contents slots' = (contents slots).cut p) :
    Carried slots' := by
  refine ⟨(hcut ▸ Bag.keys_cut _ p _ : List.Sublist _ _).nodup h.distinct, fun b hb => ?_⟩
  rw [hcut] at hb
  obtain ⟨a, ha, hitem, -⟩ := Bag.mem_nodes_cut hb
  rw [hitem]
  exact h.counted a ha

theorem Carried.part (h : Carried slots) {p : Item → Bool} {ref count : ℕ}
    (hcut : contents slots' = ((contents slots).cut p).update (fun x => x.ref = ref) (takeCount count)) :
    Carried slots' := by
  constructor
  · have hrefs : ((contents slots').nodes.map fun b => b.1.ref) =
        ((contents slots).cut p).nodes.map fun b => b.1.ref := by
      rw [hcut, Bag.nodes_update, List.map_map]
      refine List.map_congr_left fun b _ => ?_
      dsimp only [Function.comp]
      split <;> rfl
    rw [hrefs]
    exact (Bag.keys_cut _ p _).nodup h.distinct
  · intro b hb
    rw [hcut, Bag.nodes_update] at hb
    obtain ⟨c, hc, rfl⟩ := List.mem_map.mp hb
    obtain ⟨d, hd, hitem, -⟩ := Bag.mem_nodes_cut hc
    dsimp only
    split
    · exact Nat.mod_lt _ (by decide)
    · rw [hitem]
      exact h.counted d hd

/-! ## One removal -/

section Removal
variable {l : List (Item × Bag Item)} {other : ℕ}

theorem total_other (hslots : Carried slots) (hl : Among slots l) (halone : ∀ b ∈ l, Alone types b)
    (hid : ∀ b ∈ l, b.1.id = itemId) (hother : other ≠ itemId) :
    ((contents slots).cut (gone (l.map Prod.fst))).total (matching types other (-1)) =
      carriedCount types slots other := by
  have hcut := Bag.total_cut (f := matching types other (-1)) (p := gone (l.map Prod.fst)) (contents slots)
    fun b hb hgone => (halone b (mem_of_gone hl.mem hslots.distinct hb hgone)).empty other
  rw [total_gone _ hl.mem hl.nodup hslots.distinct fun b hb => (halone b hb).canRemove] at hcut
  have hzero : (l.map fun b => matching types other (-1) b.1).sum = 0 := by
    refine List.sum_eq_zero fun n hn => ?_
    obtain ⟨b, hb, rfl⟩ := List.mem_map.mp hn
    exact if_neg fun h => hother (h.symm.trans (hid b hb))
  rw [hzero, Nat.add_zero] at hcut
  exact hcut

theorem total_other_part (hslots : Carried slots) {a : Item × Bag Item} (ha : a ∈ (contents slots).nodes)
    (hid : a.1.id = itemId) (hother : other ≠ itemId) (p : Item → Bool) (count : ℕ) :
    (((contents slots).cut p).update (fun x => x.ref = a.1.ref) (takeCount count)).total
        (matching types other (-1)) = ((contents slots).cut p).total (matching types other (-1)) := by
  rw [Bag.total_update]
  refine Bag.total_congr fun b hb => ?_
  obtain ⟨c, hc, hitem, -⟩ := Bag.mem_nodes_cut hb
  rw [hitem]
  by_cases href : c.1.ref = a.1.ref
  · have heq : c = a := List.inj_on_of_nodup_map hslots.distinct hc ha href
    have hne : c.1.id ≠ other := by
      rw [heq, hid]
      exact Ne.symm hother
    have hne' : (takeCount count c.1).id ≠ other := hne
    rw [decide_eq_true href, if_pos rfl, matching, matching, if_neg hne, if_neg hne']
  · rw [decide_eq_false href, if_neg Bool.false_ne_true]

/-- As many go as are asked for, and nothing else. -/
theorem removeItemOfType_removed (hslots : Carried slots) (hsmall : carriedCount types slots itemId < 2 ^ 32)
    {amount : UInt32} (hclean : Clean types slots itemId amount)
    (hremove : (removeItemOfType types slots itemId amount (-1) false).2 = slots') :
    Carried slots' ∧ ∀ id, carriedCount types slots' id + (if id = itemId then amount.toNat else 0) =
      carriedCount types slots id := by
  rcases hclean with rfl | ⟨front, a, back, hfound, hlt, hle, halone, hwhole⟩
  · rw [removeItemOfType, if_pos rfl] at hremove
    subst hremove
    exact ⟨hslots, fun id => by simp⟩
  have hfound' : found types itemId (-1) slots = (front ++ [a]) ++ back := by
    rw [hfound, List.append_assoc, List.singleton_append]
  have hamong : Among slots (front ++ [a]) := .of_found hslots hfound'
  have hamong' : Among slots front := .of_found hslots hfound
  have hids : ∀ b ∈ front ++ [a], b.1.id = itemId := fun b hb =>
    (mem_found_id (hfound' ▸ List.mem_append_left back hb)).1
  have hcount : ∀ b ∈ front ++ [a], matching types itemId (-1) b.1 ≠ 0 := fun b hb =>
    found_ne_zero (hfound' ▸ List.mem_append_left back hb)
  have hfront : ∀ {b}, b ∈ front → b ∈ front ++ [a] := fun hb => List.mem_append_left _ hb
  have ha : a ∈ front ++ [a] := List.mem_append_right _ List.mem_cons_self
  have hacount := matching_eq_count (hcount a ha)
  rw [worth_concat] at hle hwhole
  rw [removeItemOfType_enough hfound hsmall hlt hle] at hremove
  by_cases hpart : (types itemId).stackable = true ∧
      amount.toNat < worth types itemId (-1) front + matching types itemId (-1) a.1
  · -- the last stack is split
    obtain ⟨hstackable, hpart⟩ := hpart
    have hcontents := contents_part slots (fun b hb => hcount b (hfront hb)) (by rwa [hids a ha])
      (halone a ha).canRemove hlt (by rwa [← hacount])
    rw [hstackable] at hremove
    rw [← hremove]
    refine ⟨hslots.part hcontents, fun id => ?_⟩
    rw [carriedCount, hcontents]
    by_cases hid : id = itemId
    · subst hid
      have htotal := total_part hslots hamong (fun b hb => (halone b (hfront hb)).loose) (hcount a ha)
        (amount.toNat - worth types id (-1) front)
      rw [matching_divisible ⟨hstackable, .inl rfl⟩ (hcount a ha) (by omega)
        (hslots.counted a (hamong.mem a ha))] at htotal
      rw [if_pos rfl, carriedCount]
      omega
    · rw [if_neg hid, Nat.add_zero, total_other_part hslots (hamong.mem a ha) (hids a ha) hid]
      exact total_other hslots hamong' (fun b hb => halone b (hfront hb)) (fun b hb => hids b (hfront hb)) hid
  · have hexact : (types itemId).stackable = true → worth types itemId (-1) (front ++ [a]) ≤ amount.toNat := by
      intro hstackable
      rw [worth_concat]
      exact Nat.le_of_not_lt fun hlt => hpart ⟨hstackable, hlt⟩
    have hall : worth types itemId (-1) (front ++ [a]) = amount.toNat := by
      rw [worth_concat] at hexact ⊢
      rcases hwhole with hstackable | hwhole
      · have := hexact hstackable
        omega
      · exact hwhole
    have hcontents := contents_whole slots hcount hexact
    rw [← hremove]
    refine ⟨hslots.cut hcontents, fun id => ?_⟩
    rw [carriedCount, hcontents]
    by_cases hid : id = itemId
    · subst hid
      rw [if_pos rfl, ← hall]
      exact total_whole hslots hamong fun b hb => (halone b hb).loose
    · rw [if_neg hid, Nat.add_zero]
      exact total_other hslots hamong halone hids hid

end Removal

/-! ## Many removals -/

section Removals

/-- Removals one after the other, whether they succeed or not. -/
def removeEach (types : ℕ → Decay.ItemType) (slots : Slots) (requests : List (ℕ × UInt32)) : Slots :=
  requests.foldl (fun slots r => (removeItemOfType types slots r.1 r.2 (-1) false).2) slots

/-- What is asked for of a type. -/
def asked (requests : List (ℕ × UInt32)) (id : ℕ) : ℕ :=
  (requests.map fun r => if id = r.1 then r.2.toNat else 0).sum

theorem asked_append (requests requests' : List (ℕ × UInt32)) (id : ℕ) :
    asked (requests ++ requests') id = asked requests id + asked requests' id := by
  rw [asked, List.map_append, List.sum_append, asked, asked]

theorem removeEach_removed {requests : List (ℕ × UInt32)} (hslots : Carried slots)
    (hsmall : ∀ id, carriedCount types slots id < 2 ^ 32)
    (hclean : ∀ done r, done ++ [r] <+: requests → Clean types (removeEach types slots done) r.1 r.2) :
    ∀ id, carriedCount types (removeEach types slots requests) id + asked requests id =
      carriedCount types slots id := by
  induction requests generalizing slots with
  | nil => exact fun id => rfl
  | cons r requests ih =>
    obtain ⟨hcarried, hcounted⟩ :=
      removeItemOfType_removed hslots (hsmall r.1) (hclean [] r (List.prefix_append [r] requests)) rfl
    intro id
    have hnext := ih hcarried (fun id => by have := hcounted id; have := hsmall id; omega)
      (fun done r' hdone => hclean (r :: done) r' (List.prefix_cons_inj r |>.mpr hdone)) id
    have hcount := hcounted id
    rw [asked, List.map_cons, List.sum_cons, ← hcount, ← hnext, removeEach, List.foldl_cons, ← removeEach, asked]
    omega

end Removals
end ForgottenServer.Inventory
