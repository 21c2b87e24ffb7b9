import ForgottenServer.Things.Capacity
import ForgottenServer.Things.Lossless

/-! # Runs of moves and additions

A stack that `internalAddItem` puts into a container has room there, unless the
container is full and one of three things hides it: an index with
`FLAG_IGNOREAUTOSTACK`, the trade item, which `Player::queryDestination` does not
count, or a store inbox, whose `queryAdd` does not look. -/
namespace ForgottenServer.Things
open ForgottenServer.Lib.Run
namespace World
variable {rules : Rules} {w w' : World} {r : ℕ}

/-! ## The search of a player -/

section Search
variable {p : ℕ} {flags : Flags}

theorem searchItems_found {c n : ℕ} {l containers : List ℕ} {d : Destination}
    (h : w.searchItems p c r flags l n containers = .inl d) :
    d.cylinder = .container c ∧ (n : ℤ) ≤ d.index ∧ d.index < n + l.length ∧
      ∃ z, d.toItem = some z ∧ w.canStack r z = true := by
  induction l generalizing n containers with
  | nil => cases h
  | cons y rest ih =>
    unfold searchItems at h
    split at h
    · obtain ⟨hc, hlow, hhigh, hz⟩ := ih h
      refine ⟨hc, hlow, ?_, hz⟩
      simp only [List.length_cons]
      omega
    · split at h
      · cases h
        refine ⟨rfl, le_rfl, ?_, y, rfl, ‹_›⟩
        simp only [List.length_cons]
        omega
      · obtain ⟨hc, hlow, hhigh, hz⟩ := ih h
        refine ⟨hc, by omega, ?_, hz⟩
        simp only [List.length_cons]
        omega

/-- The search counts all the items but the trade item and the item itself. -/
theorem searchItems_counts {c n m : ℕ} {l containers found : List ℕ}
    (h : w.searchItems p c r flags l n containers = .inr (m, found))
    (htrade : ∀ y, (w.player p).tradeItem = some y → y ∉ l) (hr : r ∉ l) : m = n + l.length := by
  induction l generalizing n containers with
  | nil =>
    cases h
    rfl
  | cons y rest ih =>
    have htrade' : ∀ z, (w.player p).tradeItem = some z → z ∉ rest := fun z hz hmem =>
      htrade z hz (List.mem_cons_of_mem y hmem)
    have hr' : r ∉ rest := fun hmem => hr (List.mem_cons_of_mem y hmem)
    unfold searchItems at h
    rw [if_neg] at h
    · split at h
      · cases h
      · rw [ih h htrade' hr', List.length_cons]
        omega
    · rintro (hy | rfl)
      · exact htrade y hy List.mem_cons_self
      · exact hr List.mem_cons_self

/-- A container that the search ends at has the index, and room or a stack that
takes some, unless the trade item lies in it. -/
theorem searchContainers_room {fuel : ℕ} {l : List ℕ} {d : Destination} (h : Roomy none w)
    (hloose : ∀ c, r ∉ w.itemlist c) (hfind : w.searchContainers rules p r flags fuel l = some d) :
    ∃ c, d.cylinder = .container c ∧ 0 ≤ d.index ∧ d.index < w.capacity c ∧
      (w.isStackable rules r = true ∧ (∃ z, d.toItem = some z ∧ w.canStack r z = true) ∨ w.size c < w.capacity c ∨
        w.isStackable rules r = true ∧ ∃ y, (w.player p).tradeItem = some y ∧ y ∈ w.itemlist c) := by
  induction fuel generalizing l with
  | zero => cases hfind
  | succ fuel ih =>
    cases l with
    | nil => cases hfind
    | cons c l =>
      have hle := h.le c
      unfold searchContainers at hfind
      split at hfind
      · split at hfind
        · rename_i hroom
          cases hfind
          have hless : w.size c < w.capacity c := lt_of_le_of_ne hle hroom.1
          exact ⟨c, rfl, Int.natCast_nonneg _, Int.ofNat_lt.mpr hless, .inr (.inl hless)⟩
        · exact ih hfind
      · rename_i hstack
        have hstack : w.isStackable rules r = true := by simp at hstack; exact hstack.2
        split at hfind
        · rename_i d' hitems
          cases hfind
          obtain ⟨hc, hlow, hhigh, hz⟩ := searchItems_found hitems
          refine ⟨c, hc, by omega, ?_, .inl ⟨hstack, hz⟩⟩
          change d.index < (0 : ℕ) + (w.size c : ℤ) at hhigh
          omega
        · rename_i n found hitems
          split at hfind
          · rename_i hroom
            cases hfind
            refine ⟨c, rfl, Int.natCast_nonneg _, Int.ofNat_lt.mpr hroom.1, .inr ?_⟩
            by_cases htrade : ∃ y, (w.player p).tradeItem = some y ∧ y ∈ w.itemlist c
            · exact .inr ⟨hstack, htrade⟩
            · push Not at htrade
              have hcount : n = 0 + w.size c := searchItems_counts hitems htrade (hloose c)
              exact .inl (by omega)
          · exact ih hfind

end Search

/-! ## The place of one round -/

/-- An item that is added to `toCylinder`: it is new, and where it is a stack
nothing hides that a container is full. -/
structure SparesAdd (rules : Rules) (w : World) (toCylinder : Cylinder) (r : ℕ) (index : ℤ) (flags : Flags) :
    Prop where
  known : r < w.next
  loose : ∀ c, r ∉ w.itemlist c
  parent : (w.item r).parent = none
  count : w.isStackable rules r = true → 1 ≤ (w.item r).count ∧ (w.item r).count < 2 ^ 8
  limit : (∀ t, toCylinder ≠ .tile t) → flags.noLimit = false
  owner : flags.childIsOwner = false
  autoStack : w.isStackable rules r = true → flags.ignoreAutoStack = true → ∀ c, toCylinder = .container c →
    index = whereEver ∧ w.kind c ≠ some .storeInbox ∨ w.size c < w.capacity c
  trade : w.isStackable rules r = true → ∀ p, toCylinder = .player p →
    ∀ y c, (w.player p).tradeItem = some y → y ∈ w.itemlist c → w.size c < w.capacity c
  inbox : index ≠ whereEver → (w.placeOf rules toCylinder r index flags).index = whereEver →
    ∀ c, (w.placeOf rules toCylinder r index flags).cylinder = .container c → w.kind c = some .storeInbox →
      w.size c < w.capacity c

section Place
variable {b : Cylinder} {index : ℤ} {flags : Flags}

theorem hop_room {c : ℕ} {d : Destination} (h : SparesAdd rules w b r index flags)
    (hb : ∀ t, b ≠ .tile t) (hd : w.placeOf rules b r index flags = d) (hflags : d.flags = flags)
    (hc : d.cylinder = .container c) (hindex : d.index = whereEver) (hne : index ≠ whereEver)
    (hadd : w.queryAdd rules d.cylinder d.index r (w.item r).count d.flags false = .noError) :
    w.size c < w.capacity c := by
  rw [hc, hindex, hflags] at hadd
  by_cases hkind : w.kind c = some .storeInbox
  · rw [← hd] at hc hindex
    exact h.inbox hne hindex c hc hkind
  · exact containerQueryAdd_whereEver (h.limit hb) h.owner hkind (.inl hadd)

/-- Where a container is full and takes a stack nevertheless, it holds one that is not. -/
theorem stack_of_full {c : ℕ} (hlimit : flags.noLimit = false) (hfull : w.capacity c ≤ w.size c)
    (hcount : w.isStackable rules r = true → 1 ≤ (w.item r).count)
    (hmax : (w.containerQueryMaxCount rules c whereEver r (w.item r).count flags).1 = .noError) :
    w.isStackable rules r = true ∧ ∃ y ∈ w.itemlist c, y ≠ r ∧ w.canStack r y = true := by
  have hfree : w.capacity c - w.size c = 0 := by omega
  unfold containerQueryMaxCount at hmax
  rw [if_neg (by simp [hlimit])] at hmax
  cases hstack : w.isStackable rules r with
  | false =>
    simp only [hstack, hfree, Bool.false_eq_true, if_false, if_true] at hmax
    cases hmax
  | true =>
    refine ⟨rfl, ?_⟩
    by_contra hnone
    push Not at hnone
    have hempty : w.stacksWith r (w.itemlist c) = [] := by
      refine List.filter_eq_nil_iff.mpr fun y hy => ?_
      have := hnone y hy
      simp only [canStack, Bool.and_eq_true, decide_eq_true_eq, ne_eq] at this ⊢
      intro hyy
      exact absurd (this hyy.1) (by simp [hyy.2.1, hyy.2.2])
    simp only [hstack, hfree, hempty, if_true, Nat.zero_mul, Nat.zero_add, List.map_nil,
      List.sum_nil, ite_self] at hmax
    have hpos := hcount hstack
    rw [if_pos (by omega)] at hmax
    cases hmax

theorem stackDestination_flags {c : ℕ} {toItem : Option ℕ} :
    (w.stackDestination rules c index toItem r flags).flags = flags := by
  unfold stackDestination
  dsimp only
  repeat' split
  all_goals rfl

theorem containerQueryDestination_flags {c : ℕ} {toItem : Option ℕ} :
    (w.containerQueryDestination rules c index toItem r flags).flags = flags := by
  unfold containerQueryDestination
  dsimp only
  repeat' split
  all_goals first
    | rfl
    | exact stackDestination_flags

theorem stackDestination_ignore {c : ℕ} {toItem : Option ℕ} (h : flags.ignoreAutoStack = true) :
    (w.stackDestination rules c index toItem r flags).index = index := by
  unfold stackDestination
  dsimp only
  rw [if_neg (by simp [h])]

/-- A stack that is not full is found wherever it is in the list. -/
theorem stackDestination_stack {c : ℕ} {toItem : Option ℕ} (hauto : flags.ignoreAutoStack = false)
    (hstack : w.isStackable rules r = true) (hparent : (w.item r).parent = none)
    (hy : ∃ y ∈ w.itemlist c, y ≠ r ∧ w.canStack r y = true) :
    ∃ y, (w.stackDestination rules c index toItem r flags).toItem = some y ∧ w.canStack r y = true := by
  obtain ⟨y, hmem, hne, hcan⟩ := hy
  unfold stackDestination
  dsimp only
  rw [if_pos (by simp [hauto, hstack, hparent])]
  split
  · rename_i hto
    cases toItem with
    | none => cases hto
    | some z => exact ⟨z, rfl, hto⟩
  · split
    · rename_i z hfind
      have hz := List.find?_some hfind
      simp only [decide_eq_true_eq] at hz
      exact ⟨z, rfl, hz.2⟩
    · rename_i hfind
      have hno := List.find?_eq_none.mp hfind y hmem
      simp only [decide_eq_true_eq] at hno
      exact absurd ⟨hne, hcan⟩ hno

theorem containerQueryDestination_stack {c : ℕ} (hopen : w.isUnlocked c = true)
    (hauto : flags.ignoreAutoStack = false) (hstack : w.isStackable rules r = true)
    (hparent : (w.item r).parent = none) (hy : ∃ y ∈ w.itemlist c, y ≠ r ∧ w.canStack r y = true) :
    index ≠ whereEver ∧ (w.containerQueryDestination rules c index none r flags).index = whereEver ∨
      ∃ y, (w.containerQueryDestination rules c index none r flags).toItem = some y ∧ w.canStack r y = true := by
  unfold containerQueryDestination
  dsimp only
  rw [if_neg (by rw [isUnlocked] at hopen; simp [hopen])]
  split
  · rename_i hindex
    left
    refine ⟨by rw [hindex]; decide, ?_⟩
    split <;> rfl
  split
  · exact .inr (stackDestination_stack hauto hstack hparent hy)
  · rename_i hindex
    split
    · exact .inl ⟨fun e => hindex (.inr (.inr e)), rfl⟩
    · exact .inr (stackDestination_stack hauto hstack hparent hy)

theorem containerQueryDestination_ignore {c : ℕ} (h : flags.ignoreAutoStack = true) :
    (w.containerQueryDestination rules c whereEver none r flags).index = whereEver := by
  unfold containerQueryDestination
  dsimp only
  split
  · rfl
  rw [if_neg (by decide), if_pos (.inr (.inr rfl))]
  exact stackDestination_ignore h

theorem index_lt_size {c y : ℕ} (h : w.getItemByIndex c index = some y) : index < w.size c := by
  unfold getItemByIndex at h
  split at h
  · have hlen : index.toNat < w.size c := (List.getElem?_eq_some_iff.mp h).1
    omega
  · cases h

/-- What is put into a container has room and an index there. -/
theorem placeOf_room {c : ℕ} {d : Destination} (h : SparesAdd rules w b r index flags)
    (hroomy : Roomy none w) (hd : w.placeOf rules b r index flags = d)
    (hcheck : (w.checkPlace rules b d r).1 = .noError) (hc : d.cylinder = .container c) :
    d.index < w.capacity c ∧ (w.size c < w.capacity c ∨
      w.isStackable rules r = true ∧ ∃ y, d.toItem = some y ∧ w.canStack r y = true) := by
  have hany : whereEver < (w.capacity c : ℤ) := by
    simp only [whereEver]
    omega
  have hadd : w.queryAdd rules d.cylinder d.index r (w.item r).count d.flags false = .noError ∧
      (w.queryMaxCount rules b whereEver r (w.item r).count d.flags).1 = .noError := by
    unfold checkPlace at hcheck
    dsimp only at hcheck
    split at hcheck
    · exact absurd hcheck ‹_›
    · exact ⟨not_not.mp ‹_›, hcheck⟩
  cases b with
  | container e =>
    change w.containerQueryDestination rules e index none r flags = d at hd
    have hflags : d.flags = flags := hd ▸ containerQueryDestination_flags
    have hlimit := h.limit fun _ h => by cases h
    have hlands := (@containerQueryDestination_lands rules w r e index none flags h.owner
      (fun _ h => by cases h) d hd).1
    have hopen : w.isUnlocked c = true := by
      have hadd' := hadd.1
      rw [hc, hflags] at hadd'
      exact (unlocked_of_accepts hroomy.storeInbox h.owner (.inl hadd')).2 hlimit
    have hindex : d.index < w.capacity c := by
      have hfits := hlands.index
      rw [FitsIndex, hc] at hfits
      rcases hfits hopen with hless | ⟨-, y, -, hy, -⟩
      · exact hless
      · have hsize := index_lt_size hy
        have hle := hroomy.le c
        omega
    refine ⟨hindex, ?_⟩
    by_cases hhop : d.index = whereEver ∧ index ≠ whereEver
    · exact .inl (hop_room h (fun _ h => by cases h) hd hflags hc hhop.1 hhop.2 hadd.1)
    · obtain ⟨e', he', hsame⟩ := @containerQueryDestination_hop rules w r e index none flags
      rw [hd] at he' hsame
      have hce : c = e := by
        have hce' : c = e' := Cylinder.container.inj (hc.symm.trans he')
        rcases hsame with hsame | hsame
        · exact hce'.trans hsame
        · have hindex' : index = whereEver := by
            by_contra hne
            exact hhop ⟨hsame, hne⟩
          have hself : (w.containerQueryDestination rules e index none r flags).cylinder =
              .container e := by
            rw [hindex']
            exact containerQueryDestination_whereEver
          rw [hd, hc] at hself
          exact Cylinder.container.inj hself
      subst hce
      by_cases hfull : w.size c < w.capacity c
      · exact .inl hfull
      obtain ⟨hstack, hy⟩ := stack_of_full (hflags ▸ hlimit) (not_lt.mp hfull) (fun hs => (h.count hs).1) hadd.2
      cases hauto : flags.ignoreAutoStack with
      | false =>
        rcases containerQueryDestination_stack hopen hauto hstack h.parent hy with ⟨hne, hind⟩ | hto
        · rw [hd] at hind
          exact absurd ⟨hind, hne⟩ hhop
        · rw [hd] at hto
          exact .inr ⟨hstack, hto⟩
      | true =>
        rcases h.autoStack hstack hauto c rfl with ⟨rfl, hkind⟩ | hless
        · have hind : d.index = whereEver := hd ▸ containerQueryDestination_ignore hauto
          have hadd' := hadd.1
          rw [hc, hind, hflags] at hadd'
          exact .inl (containerQueryAdd_whereEver hlimit h.owner hkind (.inl hadd'))
        · exact .inl hless
  | player p =>
    change w.playerQueryDestination rules p index none r flags = d at hd
    have hnot : d.cylinder ≠ .player p := fun h => by cases hc.symm.trans h
    have hrun := hd
    unfold playerQueryDestination at hrun
    dsimp only at hrun
    split at hrun
    · rename_i hindex
      split at hrun
      · rename_i d' hslots
        subst hrun
        exact absurd (searchSlots_lands h.owner (fun _ hi => hi) hslots).1 hnot
      · rename_i containers hslots
        cases hfind : w.searchContainers rules p r flags w.depth containers with
        | none =>
          rw [hfind] at hrun
          exact absurd (congrArg Destination.cylinder hrun.symm) hnot
        | some d' =>
          rw [hfind] at hrun
          obtain rfl : d' = d := hrun
          obtain ⟨c', hc', -, hless, hroom⟩ := searchContainers_room hroomy h.loose hfind
          obtain rfl : c' = c := Cylinder.container.inj (hc'.symm.trans hc)
          refine ⟨hless, ?_⟩
          rcases hroom with hstack | hroom | ⟨hstack, y, hy, hmem⟩
          · exact .inr hstack
          · exact .inl hroom
          · exact .inl (h.trade hstack p rfl y c' hy hmem)
    · rename_i hindex
      split at hrun
      · subst hrun
        exact ⟨hany, .inl (hop_room h (fun _ h => by cases h) hd rfl hc rfl (fun e => hindex (.inr e)) hadd.1)⟩
      · exact absurd (congrArg Destination.cylinder hrun.symm) hnot
  | tile t =>
    obtain ⟨t', ht⟩ := @tileQueryDestination_tile w t index flags
    change w.tileQueryDestination t index flags = d at hd
    rw [hd, hc] at ht
    cases ht

end Place

/-! ## The rounds of an addition -/

/-- The world of the next round, in which the rest is the item `w.next`. -/
def restOf (rules : Rules) (w : World) (b : Cylinder) (r : ℕ) (index : ℤ) (flags : Flags) : Option World :=
  let d := w.placeOf rules b r index flags
  let (ret, maxQueryCount) := w.checkPlace rules b d r
  if ret ≠ .noError then none
  else (w.mergesWith rules d r).bind fun y =>
    let m := min (w.item r).count maxQueryCount
    let n := w.mergeCount (some y) m
    let w := w.merge rules d.cylinder (some y) n
    if 0 < m - n ∧ (w.item r).count ≠ m - n then w.cloneItem rules r (m - n) else none

section Rounds
variable {b : Cylinder} {index : ℤ} {flags : Flags}

theorem merge_others {c : Cylinder} {y n x : ℕ} (hx : x ≠ y) :
    ((w.merge rules c (some y) n).item x).count = (w.item x).count := by
  show ((w.updateThing rules c y (w.item y).id ((w.item y).count + n)).item x).count = _
  unfold updateThing
  split
  · rfl
  dsimp only
  split
  · exact (updateItemWeight_item Item.count (fun _ _ => rfl) _ _ _ _ _).trans
      (setItem_item Item.count fun e => absurd e hx)
  · exact setItem_item Item.count fun e => absurd e hx

theorem updateItemWeight_player (fuel : ℕ) (w : World) (c : ℕ) (diff : ℤ) :
    (updateItemWeight fuel w c diff).player = w.player := by
  induction fuel generalizing w c with
  | zero => rfl
  | succ fuel ih =>
    unfold updateItemWeight
    dsimp only
    split
    · exact (ih _ _).trans rfl
    · rfl

theorem merge_player {c : Cylinder} {y n : ℕ} : (w.merge rules c (some y) n).player = w.player := by
  show (w.updateThing rules c y (w.item y).id ((w.item y).count + n)).player = _
  unfold updateThing
  split
  · rfl
  dsimp only
  split
  · exact (updateItemWeight_player _ _ _ _).trans rfl
  · rfl

theorem Thins.kind {c : ℕ} (h : Thins w w') {k : ContainerKind} (hk : w'.kind c = some k) : w.kind c = some k := by
  rcases h.plate c with ⟨-, hnone⟩ | hplate
  · simp [World.kind, hnone] at hk
  · rw [← kind_of_plate hplate]
    exact hk

theorem searchSlots_flags {p : ℕ} {l containers : List ℕ} {d : Destination}
    (h : w.searchSlots rules p r flags l containers = .inl d) : d.flags = flags := by
  induction l generalizing containers with
  | nil => cases h
  | cons slot rest ih =>
    unfold searchSlots at h
    split at h
    · split at h
      · cases h
        rfl
      · exact ih h
    · split at h
      · exact ih h
      · split at h
        · cases h
          rfl
        · exact ih h

/-- Only a tile changes the flags. -/
theorem placeOf_flags (hb : ∀ t, b ≠ .tile t) : (w.placeOf rules b r index flags).flags = flags := by
  cases b with
  | container c => exact containerQueryDestination_flags
  | tile t => exact absurd rfl (hb t)
  | player p =>
    show (w.playerQueryDestination rules p index none r flags).flags = flags
    unfold playerQueryDestination
    dsimp only
    split
    · split
      · exact searchSlots_flags ‹_›
      · rename_i containers _
        cases hfind : w.searchContainers rules p r flags w.depth containers with
        | none => rfl
        | some d =>
          obtain ⟨-, -, hf, -⟩ := searchContainers_asks hfind
          exact hf
    · split <;> rfl

theorem rest_spares {w₂ : World} (hsane : rules.Sane) (h : SparesAdd rules w b r index flags)
    (hroomy : Roomy none w) (hrest : w.restOf rules b r index flags = some w₂) :
    Roomy none w₂ ∧ SparesAdd rules w₂ b w.next whereEver (w.placeOf rules b r index flags).flags := by
  unfold restOf at hrest
  dsimp only at hrest
  have howner := (@placeOf_spec rules w r b index flags h.owner).1
  split at hrest
  · cases hrest
  obtain ⟨y, hy, hclone⟩ := Option.bind_eq_some_iff.mp hrest
  split at hclone
  case isFalse => cases hclone
  rename_i hpos
  have hstack : w.isStackable rules r = true :=
    (Bool.and_eq_true_iff.mp (Option.filter_eq_some_iff.mp hy).2).1
  have hbyte := (h.count hstack).2
  generalize hm : min (w.item r).count (w.checkPlace rules b (w.placeOf rules b r index flags) r).2 = m at hclone hpos
  have hle : m ≤ (w.item r).count := hm ▸ min_le_left _ _
  generalize hn : w.mergeCount (some y) m = n at hclone hpos
  have hlists : SameLists w (w.merge rules (w.placeOf rules b r index flags).cylinder (some y) n) :=
    merge_lists _ _ _
  have hplayer : (w.merge rules (w.placeOf rules b r index flags).cylinder (some y) n).player =
      w.player :=
    merge_player
  generalize w.merge rules (w.placeOf rules b r index flags).cylinder (some y) n = w₁ at hclone hpos hlists hplayer
  obtain ⟨hthins₁, hnext⟩ := cloneItem_thins hclone
  have hthins : Thins w w₂ := (Thins.of_lists hlists).trans hthins₁
  have hcloned := cloneItem_cloned hclone (hsane.made _ ((isStackable_of_id hlists.id r).trans hstack))
  have hid : (w₂.item w.next).id = (w.item r).id := by rw [← hlists.next, hcloned.id, hlists.id]
  have hstack₂ : w₂.isStackable rules w.next = true := by
    rw [isStackable, type, hid]
    exact hstack
  have hroom : ∀ c, w.size c < w.capacity c → w₂.size c < w₂.capacity c := by
    intro c hless
    rw [hroomy.capacity_thins hthins]
    exact (hthins.size c).trans_lt hless
  refine ⟨hroomy.thins hthins, ⟨?_, fun c hmem => ?_, ?_, fun _ => ?_, fun hb => ?_, howner, fun _ hauto c hc => ?_,
    fun _ p hp z c hz hmem => ?_, fun hne => absurd rfl hne⟩⟩
  · rw [hnext, hlists.next]
    exact Nat.lt_succ_self _
  · exact absurd (hroomy.known (.container c) _ (hthins.children (.container c) _ hmem)) (lt_irrefl _)
  · obtain ⟨z, -, rfl⟩ := Option.map_eq_some_iff.mp hclone
    rw [← hlists.next]
    simp
  · rw [← hlists.next, hcloned.count, Nat.mod_eq_of_lt (by omega)]
    omega
  · rw [placeOf_flags hb]
    exact h.limit hb
  · have hb : ∀ t, b ≠ .tile t := fun t h => by cases hc.symm.trans h
    rw [placeOf_flags hb] at hauto
    rcases h.autoStack hstack hauto c hc with ⟨-, hkind⟩ | hless
    · exact .inl ⟨rfl, fun hk => hkind (hthins.kind hk)⟩
    · exact .inr (hroom c hless)
  · rw [hcloned.player, hplayer] at hz
    exact hroom c (h.trade hstack p hp z c hz (hthins.children (.container c) _ hmem))

theorem putThing_roomy {v : World} {d : Destination} (h : SparesAdd rules w b r index flags) (hroomy : Roomy none w)
    (hlists : SameLists w v) (hroom : ∀ c, d.cylinder = .container c → w.size c < w.capacity c) :
    Roomy none ((v.putThing rules d r).beginDecay r) := by
  have hv : Roomy none v := hroomy.thins (.of_lists hlists)
  have hlast : SameLists (v.addThing rules d.cylinder d.index r) ((v.putThing rules d r).beginDecay r) :=
    ((Alike.putThing_tail d _).trans (Alike.beginDecay r)).toSameLists
  refine Roomy.thins ?_ (.of_lists hlast)
  refine hv.add (addThing_grows _ _) (hlists.next ▸ h.known) fun c hc => ?_
  rw [capacity_of_lists hlists, size, hlists.itemlist]
  exact hroom c hc

theorem addRounds_roomy {fuel : ℕ} {test : Bool} {a : Added} (hsane : rules.Sane)
    (h : SparesAdd rules w b r index flags) (hroomy : Roomy none w)
    (hcall : addRounds rules fuel w b r index flags test = some a) : Roomy none a.world := by
  induction fuel generalizing w r index flags test a with
  | zero => cases hcall
  | succ fuel ih =>
    have hnext : ∀ w₂, w.restOf rules b r index flags = some w₂ → _ :=
      fun w₂ hrest => rest_spares hsane h hroomy hrest
    unfold restOf at hnext
    unfold addRounds at hcall
    dsimp only at hcall hnext
    generalize hd : w.placeOf rules b r index flags = d at hcall hnext
    generalize hcheck : w.checkPlace rules b d r = answer at hcall hnext
    obtain ⟨ret, maxQueryCount⟩ := answer
    dsimp only at hcall hnext
    split at hcall
    · cases hcall
      exact hroomy
    rename_i hok
    rw [if_neg hok] at hnext
    split at hcall
    · cases hcall
      exact hroomy
    have hplace : ∀ c, d.cylinder = .container c → _ := fun c hc =>
      (placeOf_room h hroomy hd (by rw [hcheck]; exact not_not.mp hok) hc).2
    have hto : ∀ c y, d.cylinder = .container c → d.toItem = some y → y ≠ r := by
      intro c y hc hy
      have hmem := (@placeOf_spec rules w r b index flags h.owner).2 y (hd ▸ hy)
      rw [hd, hc] at hmem
      rintro rfl
      exact h.loose c hmem
    cases hy : w.mergesWith rules d r with
    | none =>
      rw [hy] at hcall
      cases hcall
      refine putThing_roomy h hroomy (Alike.same w).toSameLists fun c hc => ?_
      refine (hplace c hc).resolve_right ?_
      rintro ⟨hstack, y, hto', hcan⟩
      rw [mergesWith, hto'] at hy
      simp only [canStack, Bool.and_eq_true] at hcan
      simp [Option.filter, hstack, equals_comm (w.item r), hcan.1] at hy
    | some y =>
      rw [hy] at hcall hnext
      dsimp only [Option.bind_some] at hcall hnext
      have hlists : SameLists w (w.merge rules d.cylinder (some y)
          (w.mergeCount (some y) (min (w.item r).count maxQueryCount))) := merge_lists _ _ _
      split at hcall
      · rename_i hpos
        split at hcall
        · rename_i hne
          rw [if_pos ⟨hpos, hne⟩] at hnext
          obtain ⟨w₂, hclone, hrest⟩ := Option.bind_eq_some_iff.mp hcall
          obtain ⟨rest, hround, rfl⟩ := Option.map_eq_some_iff.mp hrest
          obtain ⟨hroomy₂, hspares₂⟩ := hnext w₂ hclone
          rw [hlists.next] at hround
          exact (ih hspares₂ hroomy₂ hround).thins (.of_lists (Alike.beginDecay r).toSameLists)
        · -- a stack that is full takes nothing
          rename_i hsame
          cases hcall
          refine putThing_roomy h hroomy hlists fun c hc => (hplace c hc).resolve_right ?_
          rintro ⟨hstack, z, hz, hcan⟩
          have hyz : y = z := Option.some.inj ((Option.filter_eq_some_iff.mp hy).1.symm.trans hz)
          subst hyz
          have hry : r ≠ y := (hto c y hc hz).symm
          simp only [canStack, Bool.and_eq_true, decide_eq_true_eq] at hcan
          rw [not_not, merge_others hry] at hsame
          have hle := min_le_left (w.item r).count maxQueryCount
          generalize min (w.item r).count maxQueryCount = m at hsame hpos hle
          simp only [mergeCount] at hsame hpos
          omega
      · cases hcall
        exact hroomy.thins (.of_lists (hlists.trans ((Alike.afterMerge d y).trans (Alike.beginDecay r)).toSameLists))

end Rounds

/-! ## Runs -/

/-- The calls, and whatever else happens between them. -/
inductive Call
  | move (q : Request)
  | add (toCylinder : Cylinder) (item : ℕ) (index : ℤ) (flags : Flags) (test : Bool)
  | other (w : World)

/-- The world after a call; a call that ends the process has none. -/
def step (rules : Rules) (w : World) : Call → World
  | .move q => ((w.internalMoveItem rules q).map Prod.snd).getD w
  | .add toCylinder r index flags test =>
    ((w.internalAddItem rules toCylinder r index flags test).map Added.world).getD w
  | .other w' => w'

/-- What happens between the calls leaves the item lists alone. -/
structure Untouched (w w' : World) : Prop where
  itemlist : ∀ c, w'.itemlist c = w.itemlist c
  capacity : ∀ c, w.capacity c ≤ w'.capacity c
  known : ∀ c x, x ∈ w'.children c → x < w'.next
  fresh : ∀ x, w'.next ≤ x → (w'.item x).container = none
  storeInbox : ∀ x k, (w'.item x).container = some k → k.kind = .storeInbox → k.unlocked = true

/-- A call without `FLAG_NOLIMIT` that hides no full container. -/
def Spares (rules : Rules) (w : World) : Call → Prop
  | .move q => SparesMove rules w q
  | .add toCylinder r index flags _ => flags.noLimit = false ∧ SparesAdd rules w toCylinder r index flags
  | .other w' => Untouched w w'

/-- The rounds of an `internalAddItem` call that pass the checks of the container `c`, the world of
the round and the index with which the item gets there. -/
inductive AddsRound (rules : Rules) (b : Cylinder) : World → ℕ → ℤ → Flags → World → ℕ → ℤ → Prop
  | here {w : World} {r c : ℕ} {index : ℤ} {flags : Flags} :
      (w.checkPlace rules b (w.placeOf rules b r index flags) r).1 = .noError →
      (w.placeOf rules b r index flags).cylinder = .container c →
      AddsRound rules b w r index flags w c (w.placeOf rules b r index flags).index
  | rest {w w₂ v : World} {r c : ℕ} {index i : ℤ} {flags : Flags} : w.restOf rules b r index flags = some w₂ →
      AddsRound rules b w₂ w.next whereEver (w.placeOf rules b r index flags).flags v c i →
      AddsRound rules b w r index flags v c i

/-- A call gets past the checks before `addThing` of the container `c`, in the world `v` and with
the index `i`. -/
inductive AddsTo (rules : Rules) (w : World) : Call → World → ℕ → ℤ → Prop
  | exchange {q : Request} {c : ℕ} : w.exchanges rules q = true → q.fromCylinder = .container c →
      AddsTo rules w (.move q) w c 0
  | move {v : World} {q : Request} {toItem : Option ℕ} {c : ℕ} :
      w.checkAdd rules q.fromCylinder (w.destination rules q) q.item q.count q.actor = some (.noError, v, toItem) →
      (w.destination rules q).cylinder = .container c → AddsTo rules w (.move q) v c (w.destination rules q).index
  | add {v : World} {b : Cylinder} {r c : ℕ} {index i : ℤ} {flags : Flags} :
      AddsRound rules b w r index flags v c i → AddsTo rules w (.add b r index flags false) v c i

theorem step_roomy {e : Call} (hsane : rules.Sane) (h : Roomy none w) (hok : Spares rules w e) :
    Roomy none (w.step rules e) := by
  cases e with
  | move q =>
    show Roomy none (((w.internalMoveItem rules q).map Prod.snd).getD w)
    cases hmove : w.internalMoveItem rules q with
    | none => exact h
    | some answer =>
      obtain ⟨ret, w'⟩ := answer
      exact internalMoveItem_roomy hsane h hok hmove
  | add b r index flags test =>
    show Roomy none (((w.internalAddItem rules b r index flags test).map Added.world).getD w)
    cases hcall : w.internalAddItem rules b r index flags test with
    | none => exact h
    | some a => exact addRounds_roomy hsane hok.2 h hcall
  | other w' =>
    refine ⟨fun c => ?_, hok.known, hok.fresh, hok.storeInbox⟩
    have hle := h.le c
    show w'.size c ≤ _
    rw [size, hok.itemlist]
    exact (hle.trans (hok.capacity c)).trans (Nat.le_add_right _ _)

theorem move_index {q : Request} {c : ℕ} (h : Roomy none w) (hq : SparesMove rules w q)
    (hc : (w.destination rules q).cylinder = .container c)
    (hadd : Accepts (w.queryAdd rules (w.destination rules q).cylinder (w.destination rules q).index q.item q.count
      (w.destination rules q).flags q.actor)) : (w.destination rules q).index < w.capacity c := by
  have hlands : Lands rules w q.item (w.destination rules q) := destination_lands hq.owner
  have hnamed : Named w (w.destination rules q) := destination_named hq.limit hq.owner
  generalize w.destination rules q = d at *
  rw [hc] at hadd
  have hopen := (unlocked_of_accepts h.storeInbox hlands.flags hadd).2 (hnamed.limit c hc)
  have hfits := hlands.index
  rw [FitsIndex, hc] at hfits
  rcases hfits hopen with hless | ⟨-, y, -, hy, -⟩
  · exact hless
  · have hsize := index_lt_size hy
    have hle := h.le c
    omega

theorem addsRound_index {b : Cylinder} {r c : ℕ} {index i : ℤ} {flags : Flags} {v : World} (hsane : rules.Sane)
    (h : Roomy none w) (hok : SparesAdd rules w b r index flags) (hadds : AddsRound rules b w r index flags v c i) :
    i < v.capacity c := by
  induction hadds with
  | here hcheck hc => exact (placeOf_room hok h rfl hcheck hc).1
  | rest hrest _ ih =>
    obtain ⟨hroomy₂, hspares₂⟩ := rest_spares hsane hok h hrest
    exact ih hroomy₂ hspares₂

/-- No call gets to `addThing` of a container with an index past its capacity. -/
theorem addsTo_index {e : Call} {v : World} {c : ℕ} {i : ℤ} (hsane : rules.Sane) (h : Roomy none w)
    (hok : Spares rules w e) (hadds : AddsTo rules w e v c i) : i < v.capacity c := by
  cases hadds with
  | @exchange q _ hex hfrom =>
    have hmem : q.item ∈ w.children q.fromCylinder := SparesMove.item hok
    rw [hfrom] at hmem
    have hpos : 0 < w.size c := List.length_pos_of_mem hmem
    have hle := h.le c
    omega
  | @move _ q toItem _ hcheck hc =>
    unfold checkAdd at hcheck
    dsimp only at hcheck
    split at hcheck
    · simp only [Option.some.injEq, Prod.mk.injEq] at hcheck
      obtain ⟨hret, rfl, -⟩ := hcheck
      exact move_index h hok hc (.inl hret)
    · rename_i hneed
      have hindex := move_index h hok hc (.inr (not_not.mp hneed))
      obtain ⟨y, hy, heq⟩ := Option.map_eq_some_iff.mp hcheck
      split at heq <;> simp only [Prod.mk.injEq] at heq
      · obtain ⟨-, rfl, -⟩ := heq
        have hlands : Lands rules w q.item (w.destination rules q) :=
          destination_lands (SparesMove.owner hok)
        rw [(swapOut_roomy h (hlands.toItem y hy)).2.2 c]
        exact hindex
      · obtain ⟨-, rfl, -⟩ := heq
        exact hindex
  | add hround => exact addsRound_index hsane h hok.2 hround

/-- In a run of such calls no item list ever gets longer than its capacity, and
`addThing` of a container is never reached with an index that it turns away. -/
theorem capacity_kept {es : List Call} (hsane : rules.Sane) (h : Roomy none w)
    (hok : Along (step rules) (Spares rules) w es) :
    (∀ pre, pre <+: es → ∀ c, (run (step rules) w pre).size c ≤ (run (step rules) w pre).capacity c) ∧
      ∀ pre e, pre ++ [e] <+: es → ∀ v c i, AddsTo rules (run (step rules) w pre) e v c i → i < v.capacity c := by
  have hreached := inv_reached (fun _ _ => step_roomy hsane) h hok
  constructor
  · intro pre hpre c
    exact (hreached pre hpre).le c
  · rintro pre e ⟨post, rfl⟩ v c i hadds
    have hpre := hreached pre ((List.prefix_append pre [e]).trans (List.prefix_append (pre ++ [e]) post))
    exact addsTo_index hsane hpre hok.left.last hadds

theorem backpack_roomy (tradeItem : Option ℕ) : Roomy none (backpack tradeItem) where
  room c := by rcases c with _ | _ | c <;> exact Nat.zero_le _
  known := (backpack_tidy tradeItem).known
  fresh := (backpack_tidy tradeItem).fresh
  storeInbox := (backpack_tidy tradeItem).storeInbox

theorem capacity_kept_backpack :
    (run (step bagsAndGold) (backpack none) [.add (.player 0) 1 whereEver {} false]).size 0 ≤
      (run (step bagsAndGold) (backpack none) [.add (.player 0) 1 whereEver {} false]).capacity 0 := by
  have hspares : SparesAdd bagsAndGold (backpack none) (.player 0) 1 whereEver {} :=
    { known := by decide
      loose := fun c => backpack_loose none (.container c)
      parent := rfl
      count := fun _ => by decide
      limit := fun _ => rfl
      owner := rfl
      autoStack := fun _ => nofun
      trade := by
        rintro - p hp y c hy
        cases hp
        cases hy
      inbox := fun hne => absurd rfl hne }
  have hok : Along (step bagsAndGold) (Spares bagsAndGold) (backpack none) [.add (.player 0) 1 whereEver {} false] :=
    ⟨⟨rfl, hspares⟩, trivial⟩
  exact (capacity_kept bagsAndGold_sane (backpack_roomy none) hok).1 _ (List.prefix_refl _) 0

/-- A call that is made without `FLAG_NOLIMIT`. -/
def isLimited : Call → Bool
  | .move q => !q.flags.noLimit
  | .add _ _ _ flags _ => !flags.noLimit
  | .other _ => false

/-- A player who offers the bag in his backpack, which is full with it. -/
def offeredBag : World where
  item
    | 0 => { id := 1988, parent := some (.player 0), container := some { maxSize := 1, itemlist := [2] } }
    | 1 => { id := 2148, count := 100 }
    | 2 => { id := 1987, parent := some (.container 0), container := some {} }
    | _ => { id := 0 }
  player
    | 0 => { inventory := fun slot => if slot = 3 then some 0 else none, tradeItem := some 2 }
    | _ => { inventory := fun _ => none }
  tile _ := {}
  next := 3

theorem offeredBag_children {c : Cylinder} {x : ℕ} (h : x ∈ offeredBag.children c) :
    c = .player 0 ∧ x = 0 ∨ c = .container 0 ∧ x = 2 := by
  cases c with
  | container d =>
    rcases d with _ | _ | _ | d
    · exact .inr ⟨rfl, List.mem_singleton.mp h⟩
    all_goals cases h
  | player p =>
    rcases p with _ | p
    · exact .inl ⟨rfl, by simpa [children, offeredBag, slots] using h⟩
    · simp [children, offeredBag] at h
  | tile t => cases h

theorem offeredBag_roomy : Roomy none offeredBag where
  room c := by
    rcases c with _ | _ | _ | c
    · exact le_rfl
    all_goals exact Nat.zero_le _
  known c x hx := by
    rcases offeredBag_children hx with ⟨-, rfl⟩ | ⟨-, rfl⟩ <;> decide
  fresh x hx := by
    obtain ⟨x, rfl⟩ := Nat.exists_eq_add_of_le' hx
    rfl
  storeInbox x k hk _ := by
    rcases x with _ | _ | _ | x <;> cases hk <;> rfl

/-- The gold is counted into the bag and put before it, at an index that the count of
`Player::queryDestination` takes for a free one. -/
theorem full_backpack_overfills : ¬ ∀ (rules : Rules) (w : World) (es : List Call), rules.Sane → Roomy none w →
    (∀ e ∈ es, isLimited e = true) → ∀ c, (run (step rules) w es).size c ≤ (run (step rules) w es).capacity c := by
  intro h
  have hle := h bagsAndGold offeredBag [.add (.player 0) 1 whereEver {} false] bagsAndGold_sane offeredBag_roomy
    (by simp [isLimited]) 0
  have hover : ¬ (run (step bagsAndGold) offeredBag [.add (.player 0) 1 whereEver {} false]).size 0 ≤
      (run (step bagsAndGold) offeredBag [.add (.player 0) 1 whereEver {} false]).capacity 0 := by
        decide +kernel
  exact hover hle

end World
end ForgottenServer.Things
