import ForgottenServer.Lib.Run
import ForgottenServer.Things.Shape
import ForgottenServer.Things.Weights
import Mathlib.Algebra.BigOperators.Group.List.Basic
import Mathlib.Data.Int.ModEq
import Mathlib.Data.List.Forall2
import Mathlib.Tactic.Ring

/-! # The weight that containers remember is exact

Every call passes on the difference that it makes to the items of its container, and all
the containers around it add the same. The one exception is a depot locker: its chests
and its inbox take the locker's parent for theirs. -/
namespace ForgottenServer.Weights
open ForgottenServer.Decay (Item)
open ForgottenServer.Things (ItemType ContainerKind)
open ForgottenServer.Lib.Run

def itemsWeight (types : Types) (l : List Tree) : ℤ := (l.map fun t => (getWeight types t : ℤ)).sum

/-- Only a depot locker holds depot chests and inboxes, and nothing holds a locker. -/
def Allowed (kind : ContainerKind) (t : Tree) : Prop :=
  t.kind? ≠ some .depotLocker ∧ (t.kind? = some .depotChest ∨ t.kind? = some .inbox → kind = .depotLocker)

/-- Every container but a depot locker remembers the weight of its items. -/
inductive Exact (types : Types) : Tree → Prop
  | item {x : Item} (count : x.count < 2 ^ 8) (type : (types.items x.id).type ≠ .depot) : Exact types (.item x)
  | container {x : Item} {kind : ContainerKind} {maxSize totalWeight : ℕ} {l : List Tree} (count : x.count < 2 ^ 8)
    (type : (types.items x.id).type = .depot ↔ kind = .depotLocker) (items : ∀ t ∈ l, Exact types t)
    (places : ∀ t ∈ l, Allowed kind t)
    (total : kind ≠ .depotLocker → (totalWeight : ℤ) = itemsWeight types l % 2 ^ 32) :
    Exact types (.container x kind maxSize totalWeight l)

section Proofs
variable {types : Types}

theorem addWeight_eq (totalWeight : ℕ) (diff : ℤ) :
    (addWeight totalWeight diff : ℤ) = (totalWeight + diff) % 2 ^ 32 := by
  rw [addWeight, Int.toNat_of_nonneg (Int.emod_nonneg _ (by decide))]

theorem getWeight_container (x : Item) (kind : ContainerKind) (maxSize totalWeight : ℕ)
    (l : List Tree) :
    (getWeight types (.container x kind maxSize totalWeight l) : ℤ) ≡ ownWeight types x +
      totalWeight [ZMOD 2 ^ 32] := by
  rw [getWeight]
  push_cast
  exact Int.mod_modEq _ _

theorem addWeight_modEq (totalWeight : ℕ) (diff : ℤ) :
    (addWeight totalWeight diff : ℤ) ≡ totalWeight + diff [ZMOD 2 ^ 32] := by
  rw [addWeight_eq]
  exact Int.mod_modEq _ _

theorem itemsWeight_set {l : List Tree} {k : ℕ} {t : Tree} (h : l[k]? = some t) (t' : Tree) :
    itemsWeight types (l.set k t') = itemsWeight types l +
      (getWeight types t' - getWeight types t) := by
  induction l generalizing k with
  | nil => simp at h
  | cons u l ih =>
    cases k with
    | zero =>
      rw [List.getElem?_cons_zero, Option.some.injEq] at h
      subst h
      simp only [itemsWeight, List.set_cons_zero, List.map_cons, List.sum_cons]
      ring
    | succ k =>
      rw [List.getElem?_cons_succ] at h
      have hih := ih h
      simp only [itemsWeight, List.set_cons_succ, List.map_cons, List.sum_cons] at hih ⊢
      rw [hih]
      ring

theorem itemsWeight_eraseIdx {l : List Tree} {k : ℕ} {t : Tree} (h : l[k]? = some t) :
    itemsWeight types (l.eraseIdx k) = itemsWeight types l - getWeight types t := by
  induction l generalizing k with
  | nil => simp at h
  | cons u l ih =>
    cases k with
    | zero =>
      rw [List.getElem?_cons_zero, Option.some.injEq] at h
      subst h
      simp only [itemsWeight, List.eraseIdx_cons_zero, List.map_cons, List.sum_cons]
      ring
    | succ k =>
      rw [List.getElem?_cons_succ] at h
      have hih := ih h
      simp only [itemsWeight, List.eraseIdx_cons_succ, List.map_cons, List.sum_cons] at hih ⊢
      rw [hih]
      ring

/-- A call on a list that passes on the right difference. -/
structure Sound (types : Types) (kind : ContainerKind) (l l' : List Tree) (diff : ℤ) : Prop where
  items : ∀ t ∈ l', Exact types t
  places : ∀ t ∈ l', Allowed kind t
  weight : itemsWeight types l' ≡ itemsWeight types l + diff [ZMOD 2 ^ 32]

/-- What a container that has changed tells those around it. -/
def Told (types : Types) (t t' : Tree) : Call → Prop
  | .parent diff => t.kind? = some .depotLocker ∨ (getWeight types t' : ℤ) ≡ getWeight types t + diff [ZMOD 2 ^ 32]
  | .overParent _ => t.kind? = some .depotChest ∨ t.kind? = some .inbox

theorem Allowed.of_kind {kind : ContainerKind} {t t' : Tree} (h : Allowed kind t)
    (hkind : t'.kind? = t.kind?) :
    Allowed kind t' := by
  unfold Allowed at h ⊢
  rw [hkind]
  exact h

theorem told_added {x : Item} {kind : ContainerKind} {maxSize totalWeight : ℕ}
    {l l' : List Tree} {diff : ℤ} :
    Told types (.container x kind maxSize totalWeight l)
      (.container x kind maxSize (addWeight totalWeight diff) l')
      (callParent kind diff) := by
  unfold callParent
  split_ifs with hkind
  · rcases hkind with rfl | rfl
    · exact .inl rfl
    · exact .inr rfl
  · right
    calc (getWeight types (.container x kind maxSize (addWeight totalWeight diff) l') : ℤ)
        ≡ ownWeight types x + addWeight totalWeight diff [ZMOD 2 ^ 32] := getWeight_container ..
      _ ≡ ownWeight types x + (totalWeight + diff) [ZMOD 2 ^ 32] := (addWeight_modEq _ _).add_left _
      _ = (ownWeight types x + totalWeight) + diff := by ring
      _ ≡ getWeight types (.container x kind maxSize totalWeight l) + diff [ZMOD 2 ^ 32] :=
        (getWeight_container x kind maxSize totalWeight l).symm.add_right _

theorem total_added {totalWeight : ℕ} {l l' : List Tree} {diff : ℤ}
    (h : (totalWeight : ℤ) = itemsWeight types l % 2 ^ 32)
    (hweight : itemsWeight types l' ≡ itemsWeight types l + diff [ZMOD 2 ^ 32]) :
    (addWeight totalWeight diff : ℤ) = itemsWeight types l' % 2 ^ 32 := by
  rw [addWeight_eq, h, hweight, Int.emod_add_emod]

theorem change_exact {f : Change} {way : List ℕ} {t t' : Tree} {call : Call}
    (hf : ∀ x kind maxSize totalWeight l l' diff, follow way t =
      some (.container x kind maxSize totalWeight l) →
      (∀ u ∈ l, Exact types u) → (∀ u ∈ l, Allowed kind u) → f maxSize l = some (l', diff) →
        Sound types kind l l' diff)
    (ht : Exact types t) (h : change f way t = some (t', call)) :
    Exact types t' ∧ t'.kind? = t.kind? ∧ Told types t t' call := by
  induction way generalizing t t' call with
  | nil =>
    cases ht with
    | item => cases h
    | @container x kind maxSize totalWeight l hcount htype hitems hplaces htotal =>
      rw [change, Option.map_eq_some_iff] at h
      obtain ⟨⟨l', diff⟩, hchange, heq⟩ := h
      cases heq
      have hsound : Sound types kind l l' diff :=
        hf x kind maxSize totalWeight l l' diff rfl hitems hplaces hchange
      refine ⟨.container hcount htype hsound.items hsound.places ?_, rfl, told_added⟩
      intro hkind
      exact total_added (htotal hkind) hsound.weight
  | cons k way ih =>
    cases ht with
    | item => cases h
    | @container x kind maxSize totalWeight l hcount htype hitems hplaces htotal =>
      rw [change] at h
      cases hk : l[k]? with
      | none =>
        rw [hk] at h
        cases h
      | some u =>
        have hmem : u ∈ l := List.mem_of_getElem? hk
        rw [hk] at h
        dsimp only at h
        cases hu : change f way u with
        | none =>
          rw [hu] at h
          cases h
        | some e =>
          obtain ⟨u', call'⟩ := e
          have hfollow : ∀ c, follow way u = some c →
              follow (k :: way) (.container x kind maxSize totalWeight l) = some c := by
            intro c hc
            rw [follow, hk]
            exact hc
          obtain ⟨hexact, hkind', htold⟩ := ih (fun x' kind' maxSize' totalWeight' l₀ l₁ diff hc =>
            hf x' kind' maxSize' totalWeight' l₀ l₁ diff (hfollow _ hc)) (hitems u hmem) hu
          have hitems' : ∀ v ∈ l.set k u', Exact types v := by
            intro v hv
            rcases List.mem_or_eq_of_mem_set hv with hv | rfl
            · exact hitems v hv
            · exact hexact
          have hplaces' : ∀ v ∈ l.set k u', Allowed kind v := by
            intro v hv
            rcases List.mem_or_eq_of_mem_set hv with hv | rfl
            · exact hplaces v hv
            · exact (hplaces u hmem).of_kind hkind'
          rw [hu] at h
          cases call' with
          | parent diff =>
            cases h
            refine ⟨.container hcount htype hitems' hplaces' ?_, rfl, told_added⟩
            intro hkind
            refine total_added (htotal hkind) ?_
            rcases htold with hlocker | hweight
            · exact absurd hlocker (hplaces u hmem).1
            · rw [itemsWeight_set hk]
              refine Int.ModEq.add_left _ ?_
              have hsub := hweight.sub_right (getWeight types u : ℤ)
              rwa [add_sub_cancel_left] at hsub
          | overParent diff =>
            cases h
            have hlocker : kind = .depotLocker := (hplaces u hmem).2 htold
            refine ⟨.container hcount htype hitems' hplaces' fun hkind => absurd hlocker hkind,
              rfl, .inl ?_⟩
            rw [Tree.kind?, hlocker]

/-! ## The calls -/

theorem setSubType_count (items : ℕ → Decay.ItemType) (x : Item) (n : ℤ) (hx : x.count < 2 ^ 8) :
    (x.setSubType items n).count < 2 ^ 8 := by
  unfold Item.setSubType
  dsimp only
  split_ifs
  · exact hx
  · show (n % 2 ^ 8).toNat < 2 ^ 8
    omega
  · exact hx
  · show (n % 2 ^ 8).toNat < 2 ^ 8
    omega

theorem setSubType_id (items : ℕ → Decay.ItemType) (x : Item) (n : ℤ) :
    (x.setSubType items n).id = x.id := by
  unfold Item.setSubType
  dsimp only
  split_ifs <;> rfl

theorem Exact.count {t : Tree} (h : Exact types t) : t.self.count < 2 ^ 8 := by
  cases h with
  | item hcount => exact hcount
  | container hcount => exact hcount

section Calls
variable {kind : ContainerKind} {maxSize : ℕ} {l l' : List Tree} {diff : ℤ} {thing : Tree}

theorem itemsWeight_cons (t : Tree) (l : List Tree) :
    itemsWeight types (t :: l) = getWeight types t + itemsWeight types l := by
  simp only [itemsWeight, List.map_cons, List.sum_cons]

theorem itemsWeight_append (l l' : List Tree) :
    itemsWeight types (l ++ l') = itemsWeight types l + itemsWeight types l' := by
  simp only [itemsWeight, List.map_append, List.sum_append]

variable (hitems : ∀ u ∈ l, Exact types u) (hplaces : ∀ u ∈ l, Allowed kind u)
include hitems hplaces

theorem sound_cons (hthing : Exact types thing) (hplace : Allowed kind thing) :
    Sound types kind l (thing :: l) (getWeight types thing) := by
  refine ⟨?_, ?_, ?_⟩
  · intro t ht
    rcases List.mem_cons.mp ht with rfl | ht
    · exact hthing
    · exact hitems t ht
  · intro t ht
    rcases List.mem_cons.mp ht with rfl | ht
    · exact hplace
    · exact hplaces t ht
  · rw [itemsWeight_cons, add_comm]

theorem addThing_sound (hthing : Exact types thing) (hplace : Allowed kind thing) {index : ℤ}
    (h : addThing types index thing maxSize l = some (l', diff)) : Sound types kind l l' diff := by
  unfold addThing at h
  split_ifs at h
  cases h
  exact sound_cons hitems hplaces hthing hplace

theorem internalAddThing_sound (hthing : Exact types thing) (hplace : Allowed kind thing)
    (h : internalAddThing types thing maxSize l = some (l', diff)) :
    Sound types kind l l' diff := by
  cases h
  exact sound_cons hitems hplaces hthing hplace

theorem addItemBack_sound (hthing : Exact types thing) (hplace : Allowed kind thing)
    (h : addItemBack types thing maxSize l = some (l', diff)) : Sound types kind l l' diff := by
  cases h
  refine ⟨?_, ?_, ?_⟩
  · intro t ht
    rcases List.mem_append.mp ht with ht | ht
    · exact hitems t ht
    · rw [List.mem_singleton.mp ht]
      exact hthing
  · intro t ht
    rcases List.mem_append.mp ht with ht | ht
    · exact hplaces t ht
    · rw [List.mem_singleton.mp ht]
      exact hplace
  · rw [itemsWeight_append, itemsWeight_cons]
    simp only [itemsWeight, List.map_nil, List.sum_nil, add_zero]
    rfl

theorem sound_set {index : ℕ} {old : Tree} (hold : l[index]? = some old)
    (hthing : Exact types thing) (hplace : Allowed kind thing) :
    Sound types kind l (l.set index thing)
      (-(getWeight types old : ℤ) + getWeight types thing) := by
  refine ⟨?_, ?_, ?_⟩
  · intro t ht
    rcases List.mem_or_eq_of_mem_set ht with ht | rfl
    · exact hitems t ht
    · exact hthing
  · intro t ht
    rcases List.mem_or_eq_of_mem_set ht with ht | rfl
    · exact hplaces t ht
    · exact hplace
  · rw [itemsWeight_set hold, sub_eq_add_neg, add_comm (getWeight types thing : ℤ)]

theorem replaceThing_sound {index : ℕ} (hthing : Exact types thing) (hplace : Allowed kind thing)
    (h : replaceThing types index thing maxSize l = some (l', diff)) :
    Sound types kind l l' diff := by
  rw [replaceThing, Option.map_eq_some_iff] at h
  obtain ⟨old, hold, heq⟩ := h
  cases heq
  exact sound_set hitems hplaces hold hthing hplace

theorem updateItem_sound {f : Item → Item} {index : ℕ}
    (hf : ∀ u, l[index]? = some u → (f u.self).count < 2 ^ 8 ∧
      ((types.items (f u.self).id).type = .depot ↔ (types.items u.self.id).type = .depot))
    (h : updateItem types f index l = some (l', diff)) : Sound types kind l l' diff := by
  rw [updateItem, Option.map_eq_some_iff] at h
  obtain ⟨old, hold, heq⟩ := h
  cases heq
  obtain ⟨hcount, htype⟩ := hf old hold
  have hmem : old ∈ l := List.mem_of_getElem? hold
  have hkind : (mapSelf f old).kind? = old.kind? := by cases old <;> rfl
  refine sound_set hitems hplaces hold ?_ ((hplaces old hmem).of_kind hkind)
  cases hitems old hmem with
  | item _ hitem => exact .item hcount fun hdepot => hitem (htype.mp hdepot)
  | container _ hclass hsub hin htotal =>
    exact .container hcount (htype.trans hclass) hsub hin htotal

theorem updateThing_sound {index itemId count : ℕ}
    (htype : ∀ u, l[index]? = some u → (types.items itemId).type = (types.items u.self.id).type)
    (h : updateThing types index itemId count maxSize l = some (l', diff)) :
    Sound types kind l l' diff := by
  refine updateItem_sound hitems hplaces (fun u hu => ?_) h
  obtain ⟨hid, hcount⟩ := Things.World.setID_id_count (decayTypes types) u.self itemId
  refine ⟨setSubType_count _ _ _ ?_, ?_⟩
  · rw [hcount]
    exact (hitems u (List.mem_of_getElem? hu)).count
  · rw [setSubType_id, hid, htype u hu]

theorem removeThing_sound {index count : ℕ}
    (h : removeThing types index count maxSize l = some (l', diff)) :
    Sound types kind l l' diff := by
  unfold removeThing at h
  cases hold : l[index]? with
  | none =>
    rw [hold] at h
    cases h
  | some old =>
    rw [hold] at h
    dsimp only at h
    split_ifs at h
    · refine updateItem_sound hitems hplaces (fun u _ => ⟨?_, Iff.rfl⟩) h
      exact Nat.mod_lt _ (by decide)
    · cases h
      refine ⟨fun t ht => hitems t (List.mem_of_mem_eraseIdx ht),
        fun t ht => hplaces t (List.mem_of_mem_eraseIdx ht), ?_⟩
      rw [itemsWeight_eraseIdx hold, sub_eq_add_neg]

end Calls

/-! ## Clones -/

/-- What the types promise of the copies that `CreateItem` makes: stacks are plain items, and
an item that is made in place of another weighs as much. -/
structure Types.Sane (types : Types) : Prop where
  stack : ∀ id, (types.items id).stackable = true → (types.items id).isFluid = false ∧
    (types.items id).group ≠ .container ∧
    (types.items id).type ∉ [.depot, .teleport, .magicField, .door, .trashHolder, .mailbox, .bed] ∧
    Item.createId (decayTypes types) id = id
  replaced : ∀ id, (types.items (Item.createId (decayTypes types) id)).weight = (types.items id).weight ∧
    (types.items (Item.createId (decayTypes types) id)).stackable = (types.items id).stackable ∧
    ((types.items (Item.createId (decayTypes types) id)).type = .depot ↔ (types.items id).type = .depot)

theorem new_weight (items : ℕ → Decay.ItemType) (type count : ℕ) :
    (Item.new items type count).attr.weight = none := by
  unfold Item.new Item.setDuration Item.setAttr Item.attr
  dsimp only
  split_ifs <;> rfl

theorem new_count_lt (items : ℕ → Decay.ItemType) (type count : ℕ) :
    (Item.new items type count).count < 2 ^ 8 := by
  unfold Item.new Item.setDuration Item.setAttr
  dsimp only
  split_ifs <;> first | exact Nat.mod_lt _ (by decide) | exact (by decide : (1 : ℕ) < 2 ^ 8)

theorem create_id {items : ℕ → Decay.ItemType} {id count : ℕ} {y : Item}
    (h : Item.create items id count = some y) :
    y.id = Item.createId items id ∧ ∃ type n, y = Item.new items type n := by
  unfold Item.create at h
  dsimp only at h
  split_ifs at h with _ hclass hclass
  all_goals
    cases h
    refine ⟨?_, _, _, rfl⟩
    rw [Things.World.new_id]
  all_goals
    unfold Item.createId
    dsimp only
    rw [if_pos hclass]

theorem new_stack {items : ℕ → Decay.ItemType} {id n : ℕ} (hstack : (items id).stackable = true)
    (hfluid : (items id).isFluid = false) (hn : n ≠ 0) :
    (Item.new items id n).count = n % 2 ^ 8 := by
  unfold Item.new
  simp only [hfluid, hstack, Bool.false_eq_true, if_false, if_true, if_pos hn]
  split_ifs <;> rfl

theorem create_stack (hsane : types.Sane) {id count : ℕ} {y : Item}
    (hstack : (types.items id).stackable = true)
    (hcount : count < 2 ^ 8) (h : Item.create (decayTypes types) id count = some y) :
    y.count = max 1 count := by
  obtain ⟨hfluid, hgroup, htype, hid⟩ := hsane.stack id hstack
  have hstack' : (decayTypes types id).stackable = true := hstack
  have hplain : ¬ ((decayTypes types id).type ∈ [.depot, .teleport, .magicField, .door,
      .trashHolder, .mailbox, .bed] ∨
      (decayTypes types id).group = .container) := not_or.mpr ⟨htype, hgroup⟩
  have hmade : y = Item.new (decayTypes types) id (max 1 count) := by
    have hmax : (if (decayTypes types id).stackable = true ∧ count = 0 then 1 else count) =
        max 1 count := by
      split_ifs with hzero
      · omega
      · have : count ≠ 0 := fun hc => hzero ⟨hstack', hc⟩
        omega
    unfold Item.create at h
    simp only [hplain, if_false, hid, hmax] at h
    by_cases hgone : (decayTypes types id).group = .deprecated ∨ (decayTypes types id).id = 0
    · rw [if_pos hgone] at h
      cases h
    · rw [if_neg hgone] at h
      exact (Option.some.inj h).symm
  rw [hmade, new_stack hstack' hfluid (by omega), Nat.mod_eq_of_lt (by omega)]

theorem copy_weight (hsane : types.Sane) {x y : Item} (hx : x.count < 2 ^ 8)
    (h : x.copy (decayTypes types) = some y) :
    ownWeight types y = ownWeight types x ∧ y.count < 2 ^ 8 ∧
      ((types.items y.id).type = .depot ↔ (types.items x.id).type = .depot) := by
  rw [Item.copy, Option.map_eq_some_iff] at h
  obtain ⟨y₀, hcreate, hy⟩ := h
  obtain ⟨hid, type, n, hnew⟩ := create_id hcreate
  obtain ⟨hweight, hstackable, htype⟩ := hsane.replaced x.id
  have hyid : y.id = Item.createId (decayTypes types) x.id := by
    rw [← hy, ← hid]
    split_ifs <;> rfl
  have hycount : y.count = y₀.count := by
    rw [← hy]
    split_ifs <;> rfl
  have hattr : y.attr.weight = x.attr.weight := by
    rw [← hy]
    split_ifs with hsome
    · rfl
    · have hnone : x.attributes = none := by simpa using hsome
      rw [hnew, new_weight, Item.attr, hnone]
      rfl
  have hbase : getBaseWeight types y = getBaseWeight types x := by
    unfold getBaseWeight
    rw [hattr, hyid, hweight]
  have hstack : isStackable types y = isStackable types x := by
    rw [isStackable, hyid, hstackable, isStackable]
  refine ⟨?_, ?_, by rw [hyid]; exact htype⟩
  · unfold ownWeight
    rw [hstack, hbase]
    split_ifs with hs
    · rw [hycount, create_stack hsane hs hx hcreate, ← max_assoc, max_self]
    · rfl
  · rw [hycount, hnew]
    exact new_count_lt _ _ _

/-- What a clone has in common with the original. -/
structure Cloned (types : Types) (t t' : Tree) : Prop where
  exact : Exact types t'
  weight : getWeight types t' = getWeight types t
  locker : t'.kind? = some .depotLocker ↔ t.kind? = some .depotLocker
  plain : t'.kind? ≠ some .depotChest ∧ t'.kind? ≠ some .inbox

theorem ownWeight_lt (x : Item) : ownWeight types x < 2 ^ 32 := Nat.mod_lt _ (by decide)

theorem getWeight_asTree (y : Item) (type : ItemType) (n : ℕ) :
    getWeight types (asTree y type n) = ownWeight types y := by
  unfold asTree
  split_ifs
  · rw [getWeight, add_zero, Nat.mod_eq_of_lt (ownWeight_lt y)]
  · rw [getWeight, add_zero, Nat.mod_eq_of_lt (ownWeight_lt y)]
  · rfl

theorem asTree_kind (y : Item) (type : ItemType) (n : ℕ) :
    ((asTree y type n).kind? = some .depotLocker ↔ type.type = .depot) ∧
      (asTree y type n).kind? ≠ some .depotChest ∧ (asTree y type n).kind? ≠ some .inbox := by
  unfold asTree
  split_ifs with hdepot
  · simp [Tree.kind?, hdepot]
  · simp [Tree.kind?, hdepot]
  · simp [Tree.kind?, hdepot]

theorem asTree_exact {y : Item} {type : ItemType} (n : ℕ) (hcount : y.count < 2 ^ 8)
    (htype : (types.items y.id).type = .depot ↔ type.type = .depot) :
    Exact types (asTree y type n) := by
  unfold asTree
  split_ifs with hdepot
  · exact .container hcount (by simp [htype, hdepot]) (by simp) (by simp) (by simp)
  · exact .container hcount (by simp [htype, hdepot]) (by simp) (by simp) (by simp [itemsWeight])
  · exact .item hcount fun h => hdepot (htype.mp h)

theorem Cloned.of_mem {l l' : List Tree} (h : List.Forall₂ (Cloned types) l l') {t' : Tree}
    (ht : t' ∈ l') :
    ∃ t ∈ l, Cloned types t t' := by
  induction h with
  | nil => cases ht
  | cons hhead _ ih =>
    rcases List.mem_cons.mp ht with rfl | ht
    · exact ⟨_, List.mem_cons_self .., hhead⟩
    · obtain ⟨t, hmem, hcloned⟩ := ih ht
      exact ⟨t, List.mem_cons_of_mem _ hmem, hcloned⟩

theorem Cloned.itemsWeight_eq {l l' : List Tree} (h : List.Forall₂ (Cloned types) l l') :
    itemsWeight types l' = itemsWeight types l := by
  induction h with
  | nil => rfl
  | cons hhead _ ih => rw [itemsWeight_cons, itemsWeight_cons, ih, hhead.weight]

theorem container_cloned (hsane : types.Sane) {x y : Item} {kind kind' : ContainerKind}
    {maxSize maxSize' totalWeight total' : ℕ} {l l' l₀ : List Tree}
    (ht : Exact types (.container x kind maxSize totalWeight l))
    (hitem : cloneItem types x = some (.container y kind' maxSize' total' l₀))
    (hclones : List.Forall₂ (Cloned types) l l') :
    Cloned types (.container x kind maxSize totalWeight l)
      (.container y kind' maxSize' totalWeight l') := by
  cases ht with
  | container hcount htype hitems hplaces htotal =>
    rw [cloneItem, Option.map_eq_some_iff] at hitem
    obtain ⟨z, hcopy, hmade⟩ := hitem
    obtain ⟨hweight, hcount', htype'⟩ := copy_weight hsane hcount hcopy
    obtain ⟨hlocker, hplain⟩ := asTree_kind z (types.items x.id) (types.maxItems x.id)
    have hself : (asTree z (types.items x.id) (types.maxItems x.id)).self = z := by
      unfold asTree
      split_ifs <;> rfl
    rw [hmade] at hlocker hplain hself
    simp only [Tree.self] at hself
    subst hself
    simp only [Tree.kind?, Option.some.injEq, ne_eq] at hlocker hplain
    have hkind : kind' = .depotLocker ↔ kind = .depotLocker := hlocker.trans htype
    refine ⟨.container hcount' (htype'.trans hlocker.symm) ?_ ?_ ?_, ?_, ?_, ?_⟩
    · intro t' ht'
      obtain ⟨t, -, hcloned⟩ := Cloned.of_mem hclones ht'
      exact hcloned.exact
    · intro t' ht'
      obtain ⟨t, hmem, hcloned⟩ := Cloned.of_mem hclones ht'
      refine ⟨fun h => (hplaces t hmem).1 (hcloned.locker.mp h), fun h => ?_⟩
      rcases h with h | h
      · exact absurd h hcloned.plain.1
      · exact absurd h hcloned.plain.2
    · intro hne
      rw [Cloned.itemsWeight_eq hclones]
      exact htotal fun h => hne (hkind.mpr h)
    · rw [getWeight, hweight, getWeight]
    · simpa [Tree.kind?] using hkind
    · simpa [Tree.kind?] using hplain

mutual

theorem clone_cloned (hsane : types.Sane) :
    ∀ t t' : Tree, Exact types t → clone types t = some t' → Cloned types t t'
  | .item x, t', ht, h => by
    cases ht with
    | item hcount htype =>
      rw [clone, cloneItem, Option.map_eq_some_iff] at h
      obtain ⟨y, hcopy, rfl⟩ := h
      obtain ⟨hweight, hcount', htype'⟩ := copy_weight hsane hcount hcopy
      obtain ⟨hlocker, hplain⟩ := asTree_kind y (types.items x.id) (types.maxItems x.id)
      refine ⟨asTree_exact _ hcount' htype', (getWeight_asTree y _ _).trans hweight, ?_, hplain⟩
      rw [hlocker]
      simp [Tree.kind?, htype]
  | .container x kind maxSize totalWeight l, t', ht, h => by
    have hitems : ∀ t ∈ l, Exact types t := by
      cases ht with
      | container _ _ hitems => exact hitems
    rw [clone] at h
    split at h
    · rename_i hitem
      rw [Option.map_eq_some_iff] at h
      obtain ⟨l', hall, rfl⟩ := h
      exact container_cloned hsane ht hitem (cloneAll_cloned hsane l l' hitems hall)
    · cases h

theorem cloneAll_cloned (hsane : types.Sane) : ∀ l l' : List Tree, (∀ t ∈ l, Exact types t) →
    cloneAll types l = some l' → List.Forall₂ (Cloned types) l l'
  | [], l', _, h => by
    cases h
    exact .nil
  | t :: l, l', hl, h => by
    rw [cloneAll] at h
    split at h
    · rename_i t₁ l₁ ht₁ hl₁
      cases h
      exact .cons (clone_cloned hsane t t₁ (hl t (by simp)) ht₁)
        (cloneAll_cloned hsane l l₁ (fun u hu => hl u (List.mem_cons_of_mem t hu)) hl₁)
    · cases h

end

/-! ## Runs -/

/-- What the callers see to: depot chests and inboxes are only put into depot lockers, and
these into nothing; an item that is updated stays of its type. -/
def Permitted (types : Types) (s : List Tree) : Op → Prop
  | .special kind id => kind ≠ .depotLocker ∧ (types.items id).type ≠ .depot
  | .insert thing tree way _ => ∀ t x kind maxSize totalWeight l, s[thing]? = some t →
      part tree way (s.eraseIdx thing) = some (.container x kind maxSize totalWeight l) → Allowed kind t
  | .replaceThing thing tree way _ => ∀ t x kind maxSize totalWeight l, s[thing]? = some t →
      part tree way (s.eraseIdx thing) = some (.container x kind maxSize totalWeight l) → Allowed kind t
  | .updateThing tree way index itemId _ => ∀ t, part tree (way ++ [index]) s = some t →
      (types.items itemId).type = (types.items t.self.id).type
  | _ => True

theorem follow_exact {way : List ℕ} {t u : Tree} (ht : Exact types t) (h : follow way t = some u) :
    Exact types u := by
  induction way generalizing t with
  | nil =>
    cases h
    exact ht
  | cons k way ih =>
    cases ht with
    | item => cases h
    | container _ _ hitems =>
      rw [follow, Option.bind_eq_some_iff] at h
      obtain ⟨v, hv, hfollow⟩ := h
      exact ih (hitems v (List.mem_of_getElem? hv)) hfollow

theorem follow_append {way : List ℕ} {index : ℕ} {t u : Tree} {x : Item} {kind : ContainerKind}
    {maxSize totalWeight : ℕ} {l : List Tree}
    (h : follow way t = some (.container x kind maxSize totalWeight l)) (hu : l[index]? = some u) :
    follow (way ++ [index]) t = some u := by
  induction way generalizing t with
  | nil =>
    cases h
    rw [List.nil_append, follow, hu]
    rfl
  | cons k way ih =>
    cases t with
    | item => cases h
    | container x' kind' maxSize' total' l' =>
      rw [follow, Option.bind_eq_some_iff] at h
      obtain ⟨v, hv, hfollow⟩ := h
      rw [List.cons_append, follow, hv]
      exact ih hfollow

variable {s s' : List Tree}

theorem part_exact (hs : ∀ t ∈ s, Exact types t) {tree : ℕ} {way : List ℕ} {u : Tree}
    (h : part tree way s = some u) :
    Exact types u := by
  rw [part, Option.bind_eq_some_iff] at h
  obtain ⟨t, ht, hfollow⟩ := h
  exact follow_exact (hs t (List.mem_of_getElem? ht)) hfollow

theorem callOn_exact (hs : ∀ t ∈ s, Exact types t) {f : Change} {tree : ℕ} {way : List ℕ}
    (hf : ∀ x kind maxSize totalWeight l l' diff, part tree way s =
      some (.container x kind maxSize totalWeight l) →
      (∀ u ∈ l, Exact types u) → (∀ u ∈ l, Allowed kind u) → f maxSize l = some (l', diff) →
        Sound types kind l l' diff)
    (h : callOn f tree way s = some s') : ∀ t ∈ s', Exact types t := by
  rw [callOn, Option.bind_eq_some_iff] at h
  obtain ⟨t, ht, hmap⟩ := h
  rw [Option.map_eq_some_iff] at hmap
  obtain ⟨⟨t', call⟩, hchange, rfl⟩ := hmap
  have hexact : Exact types t' := by
    refine (change_exact (fun x kind maxSize totalWeight l l' diff hfollow => ?_)
      (hs t (List.mem_of_getElem? ht)) hchange).1
    refine hf x kind maxSize totalWeight l l' diff ?_
    rw [part, ht]
    exact hfollow
  intro u hu
  rcases List.mem_or_eq_of_mem_set hu with hu | rfl
  · exact hs u hu
  · exact hexact

theorem insertion_sound (how : Insertion) {kind : ContainerKind} {maxSize : ℕ} {l l' : List Tree}
    {diff : ℤ} {thing : Tree} (hitems : ∀ u ∈ l, Exact types u) (hplaces : ∀ u ∈ l, Allowed kind u)
    (hthing : Exact types thing) (hplace : Allowed kind thing)
    (h : how.call types thing maxSize l = some (l', diff)) :
    Sound types kind l l' diff := by
  cases how with
  | addThing index => exact addThing_sound hitems hplaces hthing hplace h
  | internalAddThing =>
    have h : internalAddThing types thing maxSize l = some (l', diff) := h
    exact internalAddThing_sound hitems hplaces hthing hplace h
  | addItemBack =>
    have h : addItemBack types thing maxSize l = some (l', diff) := h
    exact addItemBack_sound hitems hplaces hthing hplace h

theorem mem_eraseIdx_exact (hs : ∀ t ∈ s, Exact types t) (i : ℕ) :
    ∀ t ∈ s.eraseIdx i, Exact types t := by
  intro t ht
  exact hs t (List.mem_of_mem_eraseIdx ht)

theorem append_exact {l : List Tree} (hs : ∀ t ∈ s, Exact types t) (hl : ∀ t ∈ l, Exact types t) :
    ∀ t ∈ s ++ l, Exact types t := by
  intro t ht
  rcases List.mem_append.mp ht with ht | ht
  · exact hs t ht
  · exact hl t ht

theorem createItem_exact (hsane : types.Sane) {id count : ℕ} {t : Tree}
    (h : createItem types id count = some t) :
    Exact types t := by
  rw [createItem, Option.map_eq_some_iff] at h
  obtain ⟨x, hcreate, rfl⟩ := h
  obtain ⟨hid, type, n, hnew⟩ := create_id hcreate
  refine asTree_exact _ ?_ ?_
  · rw [hnew]
    exact new_count_lt _ _ _
  · rw [hid]
    exact (hsane.replaced id).2.2

theorem step_exact (hsane : types.Sane) (s : List Tree) (op : Op) (hs : ∀ t ∈ s, Exact types t)
    (hop : Permitted types s op) : ∀ t ∈ step types s op, Exact types t := by
  cases op with
  | createItem id count =>
    refine append_exact hs ?_
    intro t ht
    exact createItem_exact hsane (Option.mem_toList.mp ht)
  | special kind id =>
    refine append_exact hs ?_
    intro t ht
    rw [List.mem_singleton.mp ht]
    refine .container (new_count_lt _ _ _) ?_ (by simp) (by simp) (by simp [itemsWeight])
    rw [Things.World.new_id]
    exact iff_of_false hop.2 hop.1
  | insert thing tree way how =>
    rw [step]
    cases hthing : s[thing]? with
    | none => exact hs
    | some t =>
      cases hcall : callOn (how.call types t) tree way (s.eraseIdx thing) with
      | none => simpa [hcall] using hs
      | some s' =>
        simp only [Option.bind_some, hcall, Option.getD_some]
        refine callOn_exact (mem_eraseIdx_exact hs thing) ?_ hcall
        intro x kind maxSize totalWeight l l' diff hpart hitems hplaces hf
        exact insertion_sound how hitems hplaces (hs t (List.mem_of_getElem? hthing))
          (hop t x kind maxSize totalWeight l hthing hpart) hf
  | updateThing tree way index itemId count =>
    rw [step]
    cases hcall : callOn (updateThing types index itemId count) tree way s with
    | none => exact hs
    | some s' =>
      refine callOn_exact hs ?_ hcall
      intro x kind maxSize totalWeight l l' diff hpart hitems hplaces hf
      have hpart' := hpart
      rw [part, Option.bind_eq_some_iff] at hpart'
      obtain ⟨t, ht, hfollow⟩ := hpart'
      refine updateThing_sound hitems hplaces (fun u hu => hop u ?_) hf
      rw [part, ht]
      exact follow_append hfollow hu
  | replaceThing thing tree way index =>
    rw [step]
    cases hthing : s[thing]? with
    | none => exact hs
    | some t =>
      cases hcall : callOn (replaceThing types index t) tree way (s.eraseIdx thing) with
      | none => simpa [hcall] using hs
      | some s' =>
        simp only [Option.bind_some, hcall, Option.map_some, Option.getD_some]
        refine append_exact (callOn_exact (mem_eraseIdx_exact hs thing) ?_ hcall) ?_
        · intro x kind maxSize totalWeight l l' diff hpart hitems hplaces hf
          exact replaceThing_sound hitems hplaces (hs t (List.mem_of_getElem? hthing))
            (hop t x kind maxSize totalWeight l hthing hpart) hf
        · intro u hu
          exact part_exact (mem_eraseIdx_exact hs thing) (Option.mem_toList.mp hu)
  | removeThing tree way index count =>
    rw [step]
    cases hpart : part tree (way ++ [index]) s with
    | none => exact hs
    | some item =>
      cases hcall : callOn (removeThing types index count) tree way s with
      | none => exact hs
      | some s' =>
        simp only [Option.map_some, Option.getD_some]
        refine append_exact (callOn_exact hs ?_ hcall) ?_
        · intro x kind maxSize totalWeight l l' diff _ hitems hplaces hf
          exact removeThing_sound hitems hplaces hf
        · intro u hu
          split_ifs at hu
          · cases hu
          · rw [List.mem_singleton.mp hu]
            exact part_exact hs hpart
  | clone tree way =>
    refine append_exact hs ?_
    intro t ht
    rw [Option.mem_toList] at ht
    obtain ⟨u, hu, hclone⟩ := Option.bind_eq_some_iff.mp ht
    exact (clone_cloned hsane u t (part_exact hs hu) hclone).exact

end Proofs

/-- The containers of trees that are exact, after any sequence of calls. Every one but a depot
locker has the weight of its items, in 32 bits. -/
theorem totalWeight_exact {types : Types} (hsane : types.Sane) {s : List Tree} (hs : ∀ t ∈ s, Exact types t)
    {ops : List Op} (hops : Along (step types) (Permitted types) s ops) :
    ∀ pre, pre <+: ops → ∀ tree way x kind maxSize totalWeight l,
      part tree way (run (step types) s pre) = some (.container x kind maxSize totalWeight l) → kind ≠ .depotLocker →
      (totalWeight : ℤ) = itemsWeight types l % 2 ^ 32 := by
  intro pre hpre tree way x kind maxSize totalWeight l hpart hkind
  have hexact : ∀ t ∈ run (step types) s pre, Exact types t :=
    inv_reached (fun s op hs hop => step_exact hsane s op hs hop) hs hops pre hpre
  cases part_exact hexact hpart with
  | container _ _ _ _ htotal => exact htotal hkind

/-- Bags, gold coins, depot lockers and chests. -/
def wares : Types where
  items id :=
    if id = 1987 ∨ id = 2594 then { id, group := .container, weight := 800 }
    else if id = 2148 then { id, stackable := true, weight := 10 }
    else if id = 2589 then { id, type := .depot }
    else { id }

theorem wares_createId (id : ℕ) : Item.createId (decayTypes wares) id = id ∨
    (Item.createId (decayTypes wares) id ∉ [1987, 2594, 2148, 2589] ∧
      id ∉ [1987, 2594, 2148, 2589]) := by
  have hid : (decayTypes wares id).id = id := by
    simp only [decayTypes, wares]
    split_ifs <;> rfl
  simp only [Item.createId, hid, List.mem_cons, List.not_mem_nil, or_false]
  split_ifs <;> omega

theorem wares_plain {id : ℕ} (h : id ∉ [1987, 2594, 2148, 2589]) : wares.items id = { id } := by
  simp only [List.mem_cons, List.not_mem_nil, or_false, not_or] at h
  simp only [wares, h, or_self, if_false]

theorem wares_sane : wares.Sane where
  stack id h := by
    have hcoin : id = 2148 := by
      unfold wares at h
      dsimp only at h
      split_ifs at h with _ hcoin
      exact hcoin
    subst hcoin
    decide
  replaced id := by
    rcases wares_createId id with h | ⟨h, h'⟩
    · rw [h]
      exact ⟨rfl, rfl, Iff.rfl⟩
    · rw [wares_plain h, wares_plain h']
      exact ⟨rfl, rfl, Iff.rfl⟩

theorem allowed_item {kind : ContainerKind} {t : Tree} (h : t.kind? = none) : Allowed kind t := by
  unfold Allowed
  rw [h]
  simp

/-- Fifty coins go into a bag, and twenty of them out again. -/
def errand : List Op := [.createItem 1987 0, .createItem 2148 50, .insert 1 0 [] (.addThing 0), .removeThing 0 [] 0 20]

theorem errand_permitted : Along (step wares) (Permitted wares) [] errand := by
  refine ⟨trivial, trivial, ?_, trivial, trivial⟩
  intro t x kind maxSize totalWeight l ht _
  rw [← Option.some.inj ht]
  exact allowed_item rfl

theorem totalWeight_exact_errand : ∃ x l,
    part 0 [] (run (step wares) [] errand) = some (.container x .plain 8 300 l) ∧
      (300 : ℤ) = itemsWeight wares l % 2 ^ 32 :=
  ⟨_, _, rfl, totalWeight_exact wares_sane (by simp) errand_permitted errand (List.prefix_refl _) 0
    [] _ _ _ _ _ rfl
    (by decide)⟩

/-- A depot chest is put into its locker, and coins into the chest. -/
def deposit : List Op :=
  [.createItem 2589 0, .special .depotChest 2594, .insert 1 0 [] .internalAddThing, .createItem 2148 50,
    .insert 1 0 [0] (.addThing 0)]

theorem deposit_permitted : Along (step wares) (Permitted wares) [] deposit := by
  refine ⟨trivial, ⟨by decide, by decide⟩, ?_, trivial, ?_, trivial⟩
  · intro t x kind maxSize totalWeight l ht hpart
    have hkind : some kind = some .depotLocker := (congrArg (Option.bind · Tree.kind?) hpart).symm
    rw [← Option.some.inj ht]
    exact ⟨by decide, fun _ => Option.some.inj hkind⟩
  · intro t x kind maxSize totalWeight l ht _
    rw [← Option.some.inj ht]
    exact allowed_item rfl

/-- The locker does not hear of the coins. -/
theorem locker_is_not_told : ¬ ∀ (types : Types) (ops : List Op), types.Sane →
    Along (step types) (Permitted types) [] ops → ∀ tree way x kind maxSize totalWeight l,
      part tree way (run (step types) [] ops) = some (.container x kind maxSize totalWeight l) →
      (totalWeight : ℤ) = itemsWeight types l % 2 ^ 32 := by
  intro h
  have hlocker := h wares deposit wares_sane deposit_permitted 0 [] _ _ _ _ _ rfl
  exact absurd hlocker (by decide)

end ForgottenServer.Weights
