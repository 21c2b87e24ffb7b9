import ForgottenServer.Things.Landing

/-! # Moves conserve items

Whatever `internalMoveItem` answers, the units of every item id below its source
and its destination are the same before and after, and the world stays valid. -/
namespace ForgottenServer.Things
open ForgottenServer.Lib.Forest
namespace World
variable {rules : Rules} {w w' : World} {r : ℕ}

/-! ## Room that stays -/

theorem replaces_of_id {r' : ℕ} (hid : (w'.item r').id = (w.item r).id) :
    w'.replaces rules r' = w.replaces rules r := by
  unfold replaces isSplash isMagicField type
  rw [hid]

theorem HasRoom.mono {c : Cylinder} {index : ℤ} (h : HasRoom w c index)
    (hplate : ∀ x, (w'.item x).container.map Container.plate = (w.item x).container.map Container.plate)
    (hslot : ∀ p, ∀ i ∈ slots, (w.player p).inventory i = none → (w'.player p).inventory i = none)
    (hsize : ∀ t, ((w'.tile t).topItems ++ (w'.tile t).downItems).length ≤
      ((w.tile t).topItems ++ (w.tile t).downItems).length) : HasRoom w' c index := by
  cases c with
  | container c =>
    obtain ⟨hsome, hindex⟩ := h
    obtain ⟨x, hx⟩ := Option.isSome_iff_exists.mp hsome
    obtain ⟨y, hy, -, hmax, -⟩ := exists_plate (hplate c).symm hx
    refine ⟨by simp [hy], ?_⟩
    simp only [capacity, hx, Option.map_some, Option.getD_some] at hindex
    simp only [capacity, hy, Option.map_some, Option.getD_some, hmax]
    exact hindex
  | player p =>
    obtain ⟨hlow, hhigh, hnone⟩ := h
    refine ⟨hlow, hhigh, hslot p _ ?_ hnone⟩
    simp only [slots, List.mem_cons, List.not_mem_nil, or_false]
    omega
  | tile t => exact (hsize t).trans_lt h

theorem HasRoom.detached {c : Cylinder} {index : ℤ} {x : ℕ} (h : HasRoom w c index)
    (h' : Detached rules w w' x) : HasRoom w' c index := by
  refine h.mono h'.items.plate (fun p i hi hnone => ?_) h'.size
  rw [h'.inventory p i hi, hnone]
  rfl

theorem HasRoom.lists {c : Cylinder} {index : ℤ} (h : HasRoom w c index) (h' : SameLists w w') : HasRoom w' c index :=
  h.mono h'.plate (fun p i _ hnone => by rw [h'.inventory, hnone])
    (fun t => by rw [h'.tile])

theorem HasRoom.cloned {c : Cylinder} {index : ℤ} {n : ℕ} (hvalid : Valid rules w)
    (h : HasRoom w c index) (h' : Cloned w w' r n) : HasRoom w' c index := by
  refine h.mono (fun x => ?_) (fun p i _ hnone => by rw [h'.player, hnone])
    (fun t => by rw [h'.tile])
  by_cases hx : x = w.next
  · rw [hx, h'.container, hvalid.fresh w.next le_rfl]
  · rw [h'.others x hx]

theorem Vacant.cloned {c : Cylinder} {n : ℕ} (hvalid : Valid rules w) (h : Vacant rules w c r)
    (h' : Cloned w w' r n) : Vacant rules w' c w.next := by
  refine h.same h'.id (fun t x hx => ?_) h'.tile
  rw [h'.others x (hvalid.known _ x hx).ne]

theorem hasThing_of_mem {c : Cylinder} (hsane : rules.Sane) (hneat : Neat rules w)
    (hstack : w.isStackable rules r = true) (hr : r ∈ w.children c) : w.hasThing rules c r = true := by
  cases c with
  | container c => simpa [hasThing, children] using hr
  | player p => simpa [hasThing] using hr
  | tile t =>
    have htop : (w.type rules r).alwaysOnTop = false := hsane.top _ hstack
    rcases mem_children_tile.mp hr with h | h | h
    · have := hneat.ground t r h
      rw [hstack] at this
      cases this
    · have := hneat.top t r h
      rw [htop] at this
      cases this
    · simp [hasThing, htop, h]

/-! ## Stacks -/

section Stacks
variable {S : Set Cylinder} {a b : Cylinder} {m : ℕ} (id : ℕ)

/-- `n` units, when they are of the kind that is counted. -/
def unitsOf (w : World) (id r n : ℕ) : ℕ := if (w.item r).id = id then n else 0

theorem amount_stack (h : w.isStackable rules r = true) : w.amount rules id r = w.unitsOf id r (w.item r).count := by
  simp only [amount, unitsOf, h, if_true]

theorem unitsOf_id {r' n : ℕ} (hid : (w'.item r').id = (w.item r).id) : w'.unitsOf id r' n = w.unitsOf id r n := by
  simp only [unitsOf, hid]

theorem unitsOf_add (n n' : ℕ) : w.unitsOf id r (n + n') = w.unitsOf id r n + w.unitsOf id r n' := by
  unfold unitsOf
  split <;> rfl

/-- What is left of a world when `m` of the stack `r` are taken from the cylinder `a`. -/
structure Taken (rules : Rules) (w w' : World) (S : Set Cylinder) (r m : ℕ) : Prop where
  valid : Valid rules w'
  id : ∀ x, (w'.item x).id = (w.item x).id
  attributes : ∀ x, (w'.item x).attributes = (w.item x).attributes
  count : ∀ x, x ≠ r → (w'.item x).count = (w.item x).count
  next : w'.next = w.next
  children : ∀ c x, x ≠ r → x ∈ w.children c → x ∈ w'.children c
  room : ∀ c index, HasRoom w c index → HasRoom w' c index
  units : ∀ id, w'.units rules S id + w.unitsOf id r m = w.units rules S id

theorem removeThing_taken (hsane : rules.Sane) (hvalid : Valid rules w) (ha : a ∈ S)
    (hstack : w.isStackable rules r = true) (hr : w.hasThing rules a r = true) (hm : m ≤ (w.item r).count) :
    Taken rules w (w.removeThing rules a r m) S r m := by
  have hmem : r ∈ w.children a := mem_of_hasThing hr
  have honly : ∀ c', r ∈ w.children c' → c' = a := fun c' hc' => hvalid.holder c' a r hc' hmem
  have hle := hvalid.count r hstack
  cases hpart : w.isPart rules r m with
  | false =>
    have hall : m = (w.item r).count := by simpa [isPart, hstack] using hpart
    have h := removeThing_detached hvalid.toNeat honly hr hpart
    refine ⟨hvalid.detached h, h.items.id,
      fun x => removeThing_item Item.attributes a m x (fun _ _ _ => rfl) (fun _ _ => rfl)
        fun _ _ _ => rfl, fun x _ => h.items.count x, h.items.next,
      fun c x hx hc => (h.children c x).mpr ⟨hc, hx⟩, fun c index hroom => hroom.detached h, fun id => ?_⟩
    rw [hall, ← amount_stack id hstack, ← hall]
    exact units_detach id hvalid h ha hmem (hvalid.leaf r hstack)
  | true =>
    have h := removeThing_recounted hvalid.toNeat hr hpart (hsane.top _ hstack)
    have hleft : ((w.item r).count - m) % 2 ^ 8 = (w.item r).count - m :=
      Nat.mod_eq_of_lt (by omega)
    rw [hleft] at h
    refine ⟨hvalid.recounted h (by omega), h.id,
      fun x => removeThing_item Item.attributes a m x (fun _ _ _ => rfl) (fun _ _ => rfl)
        fun _ _ _ => rfl, fun x hx => ?_, h.next,
      fun c x _ hc => ?_, fun c index hroom => hroom.lists h.toSameLists, fun id => ?_⟩
    · rw [h.count, if_neg hx]
    · rw [h.children]
      exact hc
    · have hsum := units_recount id hvalid h ha hmem
      have hstack' := (isStackable_of_id h.id r).trans hstack
      rw [amount_stack id hstack, amount_stack id hstack', unitsOf_id id (h.id r), h.count, if_pos rfl] at hsum
      have hsplit : w.unitsOf id r (w.item r).count = w.unitsOf id r ((w.item r).count - m) + w.unitsOf id r m := by
        rw [← unitsOf_add, Nat.sub_add_cancel hm]
      omega

theorem cloneRest_added {index : ℤ} {n : ℕ} {u moveItem updateItem : Option ℕ} {w₂ : World} (hsane : rules.Sane)
    (hvalid : Valid rules w) (hb : b ∈ S) (hstack : w.isStackable rules r = true) (hn : n ≤ 100)
    (hroom : HasRoom w b index ∨ n = 0) (hvacant : Vacant rules w b r)
    (h : w.cloneRest rules r n u = some (w₂, moveItem, updateItem)) :
    Valid rules (w₂.addMoved rules b index moveItem) ∧ ∀ id, (w₂.addMoved rules b index moveItem).units rules S id =
        w.units rules S id + w.unitsOf id r n := by
  unfold cloneRest at h
  split at h
  · rename_i hpos
    obtain ⟨w₁, hclone, heq⟩ := Option.map_eq_some_iff.mp h
    cases heq
    have hcloned := cloneItem_cloned hclone (hsane.made _ hstack)
    rw [Nat.mod_eq_of_lt (by omega : n < 2 ^ 8)] at hcloned
    have hvalid' := hvalid.created hcloned.toCreated hn
    have hloose : ∀ c, w.next ∉ w₂.children c := fun c => by
      rw [hcloned.children hvalid]
      exact hvalid.loose le_rfl
    have hnext : w.next < w₂.next := by
      rw [hcloned.next]
      exact Nat.lt_succ_self _
    have hroom' := (hroom.resolve_right hpos.ne').cloned hvalid hcloned
    have hadded := addThing_attached hvalid'.toNeat hloose hroom' (hvacant.cloned hvalid hcloned)
    have hstack' : w₂.isStackable rules w.next = true := by
      rw [isStackable, type, hcloned.id]
      exact hstack
    refine ⟨hvalid'.attached hadded hloose hnext, fun id => ?_⟩
    simp only [addMoved]
    rw [units_attach id hadded hb hloose hnext hcloned.container, units_create id hvalid hcloned.toCreated,
      amount_stack id hstack', hcloned.count, unitsOf_id id hcloned.id]
  · rename_i hpos
    cases h
    refine ⟨hvalid, fun id => ?_⟩
    have hzero : n = 0 := by omega
    simp [hzero, unitsOf, addMoved]

theorem merge_recounted {y : ℕ} (hsane : rules.Sane) (hvalid : Valid rules w)
    (hy : y ∈ w.children b) (hstack : w.isStackable rules y = true) :
    w.mergeCount (some y) m = min (100 - (w.item y).count) m ∧
      Recounted w (w.merge rules b (some y) (w.mergeCount (some y) m)) y
        ((w.item y).count + min (100 - (w.item y).count) m) := by
  have hle := hvalid.count y hstack
  have hn : w.mergeCount (some y) m = min (100 - (w.item y).count) m := by
    simp only [mergeCount]
    omega
  refine ⟨hn, ?_⟩
  rw [hn]
  have hsmall : (w.item y).count + min (100 - (w.item y).count) m < 2 ^ 8 := by omega
  have hmod := Nat.mod_eq_of_lt hsmall
  have h : Recounted w (w.merge rules b (some y) (min (100 - (w.item y).count) m)) y _ :=
    updateThing_recounted (hasThing_of_mem hsane hvalid.toNeat hstack hy) hstack (hsane.fluid _ hstack)
  rwa [hmod] at h

/-- What was taken from a stack arrives: some in the stack that is there, the rest as a new one. -/
theorem restack_added {toItem moveItem updateItem : Option ℕ} {w₂ : World} (index : ℤ)
    (hsane : rules.Sane) (hvalid : Valid rules w) (hb : b ∈ S)
    (hstack : w.isStackable rules r = true) (hm : m ≤ 100)
    (hto : ∀ y, toItem = some y → y ∈ w.children b)
    (hroom : HasRoom w b index ∨ ∃ y, toItem = some y ∧ (w.item r).equals (w.item y) = true ∧
      m ≤ 100 - (w.item y).count) (hvacant : Vacant rules w b r)
    (h : w.restack rules b toItem r m = some (w₂, moveItem, updateItem)) :
    Valid rules (w₂.addMoved rules b index moveItem) ∧ ∀ id, (w₂.addMoved rules b index moveItem).units rules S id =
        w.units rules S id + w.unitsOf id r m := by
  unfold restack at h
  dsimp only at h
  cases hu : toItem.filter fun y => (w.item r).equals (w.item y) with
  | none =>
    rw [hu] at h
    have hroom' : HasRoom w b index ∨ m = 0 := by
      refine hroom.imp_right ?_
      rintro ⟨y, rfl, heq, -⟩
      simp [Option.filter, heq] at hu
    exact cloneRest_added hsane hvalid hb hstack hm hroom' hvacant h
  | some y =>
    rw [hu] at h
    obtain ⟨hto', heq⟩ := Option.filter_eq_some_iff.mp hu
    have hid : (w.item r).id = (w.item y).id := by
      simp only [Item.equals, Bool.and_eq_true, decide_eq_true_eq] at heq
      exact heq.1
    have hstacky : w.isStackable rules y = true := by
      rw [isStackable, type, ← hid]
      exact hstack
    have hy := hto y hto'
    obtain ⟨hn, hmerge⟩ := merge_recounted (m := m) hsane hvalid hy hstacky
    have hle := hvalid.count y hstacky
    generalize w.merge rules b (some y) (w.mergeCount (some y) m) = w₁ at h hmerge
    rw [hn] at h
    have hstack' := (isStackable_of_id hmerge.id r).trans hstack
    have hroom' : HasRoom w₁ b index ∨ m - min (100 - (w.item y).count) m = 0 := by
      refine hroom.imp (fun hr => hr.lists hmerge.toSameLists) ?_
      rintro ⟨z, hz, -, hfits⟩
      cases hto'.symm.trans hz
      omega
    obtain ⟨hvalid₂, hunits⟩ := cloneRest_added hsane (hvalid.recounted hmerge (by omega)) hb hstack'
      (by omega) hroom' (hvacant.lists hmerge.toSameLists) h
    refine ⟨hvalid₂, fun id => ?_⟩
    have hsum := units_recount id hvalid hmerge hb hy
    rw [amount_stack id hstacky, amount_stack id ((isStackable_of_id hmerge.id y).trans hstacky),
      hmerge.count, if_pos rfl, unitsOf_add, unitsOf_id id (hmerge.id y),
      unitsOf_id id (hmerge.id y)] at hsum
    have hkind : w.unitsOf id y (min (100 - (w.item y).count) m) =
        w.unitsOf id r (min (100 - (w.item y).count) m) := unitsOf_id id hid.symm
    have hsplit : w.unitsOf id r m = w.unitsOf id r (min (100 - (w.item y).count) m) +
        w.unitsOf id r (m - min (100 - (w.item y).count) m) := by
      rw [← unitsOf_add, Nat.add_sub_cancel' (min_le_right _ _)]
    rw [hunits id, unitsOf_id id (hmerge.id r)]
    omega

end Stacks

/-! ## The move -/

theorem transfer_conserves {S : Set Cylinder} {a : Cylinder} {d : Destination} {m : ℕ}
    {moveItem : Option ℕ} (hsane : rules.Sane) (hvalid : Valid rules w) (ha : a ∈ S)
    (hb : d.cylinder ∈ S) (hr : w.hasThing rules a r = true)
    (hm : w.isStackable rules r = true → m ≤ (w.item r).count)
    (hto : ∀ y, d.toItem = some y → y ≠ r ∧ y ∈ w.children d.cylinder)
    (hroom : HasRoom w d.cylinder d.index ∨ w.isStackable rules r = true ∧ ∃ y, d.toItem = some y ∧
      (w.item r).equals (w.item y) = true ∧ m ≤ 100 - (w.item y).count)
    (hvacant : Vacant rules (w.removeThing rules a r m) d.cylinder r)
    (h : w.transfer rules a d r m = some (w', moveItem)) :
    Valid rules w' ∧ ∀ id, w'.units rules S id = w.units rules S id := by
  have hmem : r ∈ w.children a := mem_of_hasThing hr
  obtain ⟨⟨w₁, moveItem', updateItem⟩, hstacked, heq⟩ := Option.map_eq_some_iff.mp h
  cases heq
  have hlast : Alike (w₁.addMoved rules d.cylinder d.index moveItem)
      ((w₁.addMoved rules d.cylinder d.index moveItem).afterMove rules a d.cylinder moveItem updateItem) :=
    .afterMove a d.cylinder moveItem updateItem
  suffices hmid : Valid rules (w₁.addMoved rules d.cylinder d.index moveItem) ∧
      ∀ id, (w₁.addMoved rules d.cylinder d.index moveItem).units rules S id = w.units rules S id by
    exact ⟨hmid.1.alike hlast, fun id => (units_alike id hlast).trans (hmid.2 id)⟩
  split at hstacked
  · rename_i hstack
    have htaken := removeThing_taken hsane hvalid ha hstack hr (hm hstack)
    have hcount := hvalid.count r hstack
    have hstack' := (isStackable_of_id htaken.id r).trans hstack
    have hequals : ∀ y, ((w.removeThing rules a r m).item r).equals ((w.removeThing rules a r m).item y) =
        (w.item r).equals (w.item y) := fun y => by
      unfold Item.equals Item.attr
      rw [htaken.id r, htaken.id y, htaken.attributes r, htaken.attributes y]
    obtain ⟨hvalid', hunits⟩ := restack_added d.index hsane htaken.valid hb hstack'
      ((hm hstack).trans hcount) (fun y hy => htaken.children _ y (hto y hy).1 (hto y hy).2) (by
        rcases hroom with hroom | ⟨-, y, hy, heq, hfits⟩
        · exact .inl (htaken.room _ _ hroom)
        · exact .inr ⟨y, hy, (hequals y).trans heq, by rwa [htaken.count y (hto y hy).1]⟩) hvacant hstacked
    refine ⟨hvalid', fun id => ?_⟩
    rw [hunits id, unitsOf_id id (htaken.id r)]
    exact htaken.units id
  · rename_i hstack
    cases hstacked
    have hpart : w.isPart rules r m = false := by simp [isPart, hstack]
    have hdetached := removeThing_detached hvalid.toNeat (fun c' hc' => hvalid.holder c' a r hc' hmem) hr hpart
    have hloose : ∀ c, r ∉ (w.removeThing rules a r m).children c := fun c hc =>
      ((hdetached.children c r).mp hc).2 rfl
    have hroom' := (hroom.resolve_right fun h => hstack h.1).detached hdetached
    have hadded := addThing_attached (hvalid.detached hdetached).toNeat hloose hroom' hvacant
    refine ⟨(hvalid.detached hdetached).attached hadded hloose ?_, fun id => ?_⟩
    · rw [hdetached.items.next]
      exact hvalid.known a r hmem
    · exact units_relocate id hdetached hadded ha hb hmem

theorem queryRemove_noError {c : Cylinder} {m : ℕ} {flags : Flags} {actor : Bool}
    (h : w.queryRemove rules c r m flags actor = .noError) :
    w.hasThing rules c r = true ∧ (w.isStackable rules r = true → m ≤ (w.item r).count) := by
  unfold queryRemove at h
  split at h
  · cases h
  split at h
  · cases h
  rename_i hthing
  split at h
  · cases h
  rename_i hcount
  refine ⟨by simpa using hthing, fun hstack => ?_⟩
  by_contra hless
  exact hcount (.inr ⟨hstack, not_le.mp hless⟩)

theorem moveChecked_conserves {S : Set Cylinder} {a : Cylinder} {d : Destination} {count : ℕ}
    {actor actor' : Bool} {tradeItem : Option ℕ} {ret : ReturnValue} (hsane : rules.Sane)
    (hvalid : Valid rules w) (ha : a ∈ S) (hb : d.cylinder ∈ S) (hlands : Lands rules w r d)
    (hself : d.toItem ≠ some r)
    (hadd : Accepts (w.queryAdd rules d.cylinder d.index r count d.flags actor'))
    (hcount : 1 ≤ count) (hplace : w.hasPlace d = true)
    (hvacant : Vacant rules (w.removeThing rules a r (w.movedCount rules r count
      (w.queryMaxCount rules d.cylinder d.index r count d.flags).2)) d.cylinder r)
    (h : w.moveChecked rules a d r count actor tradeItem = some (ret, w')) :
    Valid rules w' ∧ ∀ id, w'.units rules S id = w.units rules S id := by
  have hroom := room_of_checks hvalid hlands hadd
  unfold moveChecked at h
  generalize w.queryMaxCount rules d.cylinder d.index r count d.flags = answer at h hroom hvacant
  obtain ⟨retMaxCount, maxQueryCount⟩ := answer
  dsimp only at h hroom hvacant
  split at h
  · cases h
    exact ⟨hvalid, fun _ => rfl⟩
  rename_i hmax
  split at h
  · cases h
    exact ⟨hvalid, fun _ => rfl⟩
  rename_i hremove
  split at h
  · cases h
    exact ⟨hvalid, fun _ => rfl⟩
  obtain ⟨⟨w₁, moveItem⟩, htransfer, heq⟩ := Option.map_eq_some_iff.mp h
  obtain ⟨hthing, hm⟩ := queryRemove_noError (not_not.mp hremove)
  obtain ⟨hvalid', hunits⟩ := transfer_conserves hsane hvalid ha hb hthing hm
    (fun y hy => ⟨fun hyr => hself (hyr ▸ hy), hlands.toItem y hy⟩) (hroom hmax hcount hplace) hvacant htransfer
  dsimp only at heq
  split at heq
  · cases heq
    exact ⟨hvalid', hunits⟩
  · cases heq
    have hlast : Alike w₁ (w₁.startDecay moveItem) := .startDecay moveItem
    exact ⟨hvalid'.alike hlast, fun id => (units_alike id hlast).trans (hunits id)⟩

/-! ## The exchange -/

theorem canExchange_true {a : Cylinder} {d : Destination} {y : ℕ} {actor : Bool}
    (h : (w.canExchange rules a d r y actor).2 = true) :
    w.queryAdd rules a (w.getThingIndex rules a r) y (w.item y).count {} false = .noError ∧
      w.queryRemove rules d.cylinder y (w.item y).count d.flags actor = .noError := by
  unfold canExchange at h
  dsimp only at h
  split at h
  · cases h
  rename_i hadd
  split at h
  · cases h
  · exact ⟨not_not.mp hadd, by simpa using h⟩

theorem getInventoryItem_getThingIndex {p : ℕ} (h : r ∈ w.children (.player p)) :
    w.getInventoryItem p (w.getThingIndex rules (.player p) r) = some r := by
  obtain ⟨i, hi, hx⟩ := mem_children_player.mp h
  have hthing : w.hasThing rules (.player p) r = true := by simpa [hasThing] using h
  unfold getThingIndex
  rw [if_neg (by simp [hthing])]
  cases hfind : slots.find? fun slot => (w.player p).inventory slot = some r with
  | none => exact absurd (by simpa using hx) (List.find?_eq_none.mp hfind i hi)
  | some slot =>
    have hslot : (w.player p).inventory slot = some r := by simpa using List.find?_some hfind
    have hmem := List.mem_of_find?_eq_some hfind
    simp only [slots, List.mem_cons, List.not_mem_nil, or_false] at hmem
    dsimp only
    rw [hfind, Option.getD_some, getInventoryItem, if_pos (by omega), Int.toNat_natCast]
    exact hslot

/-- Nothing is exchanged for what a player wears. -/
theorem exchange_not_from_player {a : Cylinder} {d : Destination} {y count p : ℕ} {actor actor' : Bool}
    (hsane : rules.Sane) (hlands : Lands rules w r d) (hto : d.toItem = some y) (hr : r ∈ w.children a)
    (hneed : w.queryAdd rules d.cylinder d.index r count d.flags actor' = .needExchange)
    (hcan : (w.canExchange rules a d r y actor).2 = true) : a ≠ .player p := by
  rintro rfl
  obtain ⟨hadd, -⟩ := canExchange_true hcan
  obtain ⟨hstack, hid⟩ := playerQueryAdd_taken rfl hadd (getInventoryItem_getThingIndex hr)
  rcases queryAdd_needExchange hneed with hhang | ⟨q, z, hq, hz, hother⟩
  · have := hsane.hangable _ hstack
    rw [← type, hhang] at this
    cases this
  · have hindex := hlands.index
    rw [FitsIndex, hq] at hindex
    have hzy : z = y := Option.some.inj (hz.symm.trans (hindex.symm.trans hto))
    subst hzy
    rcases hother with hother | hother
    · rw [isStackable, type, ← hid] at hother
      rw [isStackable, type, hother] at hstack
      cases hstack
    · exact hother hid.symm

theorem capacity_of_plate {c : ℕ}
    (hplate : (w'.item c).container.map Container.plate = (w.item c).container.map Container.plate) :
    w'.capacity c = w.capacity c ∧ w'.isUnlocked c = w.isUnlocked c := by
  unfold capacity isUnlocked
  cases hc : (w'.item c).container with
  | none =>
    rw [hc] at hplate
    rw [Option.map_eq_none_iff.mp hplate.symm]
    exact ⟨rfl, rfl⟩
  | some x =>
    obtain ⟨y, hy, -, hsize, hlock⟩ := exists_plate hplate hc
    simp [hy, hsize, hlock]

/-- The item in the way goes to the source and leaves its place free. -/
theorem swapOut_conserves {S : Set Cylinder} {a : Cylinder} {d : Destination} {y count : ℕ} {actor actor' : Bool}
    (hsane : rules.Sane) (hvalid : Valid rules w) (ha : a ∈ S) (hb : d.cylinder ∈ S) (hlands : Lands rules w r d)
    (hto : d.toItem = some y) (hr : r ∈ w.children a)
    (hneed : w.queryAdd rules d.cylinder d.index r count d.flags actor' = .needExchange)
    (hcan : (w.canExchange rules a d r y actor).2 = true)
    (hvacant : Vacant rules (w.removeThing rules d.cylinder y (w.item y).count) a y)
    (h : w.swapOut rules a d.cylinder y = w') :
    Valid rules w' ∧ (∀ id, w'.units rules S id = w.units rules S id) ∧
      Lands rules w' r { d with toItem := none } ∧ w'.hasPlace d = w.hasPlace d := by
  have hplayer : ∀ p, a ≠ .player p := fun p =>
    exchange_not_from_player hsane hlands hto hr hneed hcan
  obtain ⟨hadd, hremove⟩ := canExchange_true hcan
  obtain ⟨hthing, -⟩ := queryRemove_noError hremove
  have hmem : y ∈ w.children d.cylinder := mem_of_hasThing hthing
  have hroom : HasRoom w a 0 := by
    cases a with
    | container c =>
      have hsome := container_of_mem_itemlist hr
      obtain ⟨x, hx⟩ := Option.isSome_iff_exists.mp hsome
      have hpos := hvalid.capacity c x hx
      refine ⟨hsome, ?_⟩
      simp only [capacity, hx, Option.map_some, Option.getD_some]
      exact_mod_cast hpos
    | player p => exact absurd rfl (hplayer p)
    | tile t => exact size_of_accepts (.inl hadd)
  have hpart : w.isPart rules y (w.item y).count = false := by simp [isPart]
  have hout := removeThing_detached hvalid.toNeat (fun c' hc' => hvalid.holder c' _ y hc' hmem) hthing hpart
  generalize hw₁ : w.removeThing rules d.cylinder y (w.item y).count = w₁ at hout hvacant
  have hloose : ∀ c, y ∉ w₁.children c := fun c hc => ((hout.children c y).mp hc).2 rfl
  have hin := addThing_attached (hvalid.detached hout).toNeat hloose (hroom.detached hout) hvacant
  generalize hw₂ : w₁.addThing rules a 0 y = w₂ at hin
  have hlast : Alike w₂ w' := by
    rw [← h]
    unfold swapOut
    dsimp only
    rw [hw₁, hw₂]
    split
    · exact (Alike.notify _).trans (Alike.notify _)
    · exact Alike.notify _
  have hnext : y < w₁.next := by
    rw [hout.items.next]
    exact hvalid.known _ y hmem
  have hitems := (hout.items.trans hin.items).trans hlast.sameItems
  refine ⟨((hvalid.detached hout).attached hin hloose hnext).alike hlast, fun id => ?_,
    ⟨hlands.flags, (fun _ h => by cases h), ?_⟩, ?_⟩
  · exact (units_alike id hlast).trans (units_relocate id hout hin hb ha hmem)
  · have hindex := hlands.index
    unfold FitsIndex at hindex ⊢
    dsimp only
    cases hc : d.cylinder with
    | container c =>
      rw [hc] at hindex
      obtain ⟨hcap, hlock⟩ := capacity_of_plate (hitems.plate c)
      intro hopen
      rcases hindex (hlock ▸ hopen) with hless | ⟨hstack, -⟩
      · exact .inl (hcap ▸ hless)
      · -- what hangs on a wall is no stack
        rcases queryAdd_needExchange hneed with hhang | ⟨q, z, hq, -⟩
        · have := hsane.hangable _ hstack
          rw [← type, hhang] at this
          cases this
        · cases hc.symm.trans hq
    | player p =>
      rw [hc] at hindex
      have hslot : w.getInventoryItem p d.index = some y := hindex.symm.trans hto
      have hrange : 1 ≤ d.index ∧ d.index ≤ 10 := by
        by_contra hrange
        rw [getInventoryItem, if_neg hrange] at hslot
        cases hslot
      have hmemSlot : d.index.toNat ∈ slots := by
        simp only [slots, List.mem_cons, List.not_mem_nil, or_false]
        omega
      rw [getInventoryItem, if_pos hrange] at hslot
      show none = w'.getInventoryItem p d.index
      rw [getInventoryItem, if_pos hrange, hlast.inventory, hin.inventory p (hplayer p),
        hout.inventory p _ hmemSlot, if_pos hslot]
    | tile t => trivial
  · unfold hasPlace
    split
    · rename_i c hc
      rw [(capacity_of_plate (hitems.plate c)).1]
    · rfl
    · rfl

/-! ## The whole call -/

/-- The world that the moved item lands in: it has been taken out of its source. -/
def lifted (rules : Rules) (w : World) (q : Request) : World :=
  let w' := w.exchanged rules q
  w'.removeThing rules q.fromCylinder q.item (w'.movedCount rules q.item q.count (w.maxCount rules q).2)

/-- Where the moved item lands, and the exchanged one, no ground, splash or field makes way for it. -/
structure Unopposed (rules : Rules) (w : World) (q : Request) : Prop where
  item : Vacant rules (w.lifted rules q) (w.destination rules q).cylinder q.item
  toItem : w.exchanges rules q = true → ∀ y, (w.destination rules q).toItem = some y →
    Vacant rules (w.removeThing rules (w.destination rules q).cylinder y (w.item y).count) q.fromCylinder y

theorem checkAdd_accepts {a : Cylinder} {d : Destination} {count : ℕ} {actor : Bool}
    {toItem : Option ℕ} (h : w.checkAdd rules a d r count actor = some (.noError, w', toItem)) :
    ∃ actor', Accepts (w'.queryAdd rules d.cylinder d.index r count d.flags actor') := by
  unfold checkAdd at h
  dsimp only at h
  split at h
  · simp only [Option.some.injEq, Prod.mk.injEq] at h
    obtain ⟨hret, rfl, -⟩ := h
    exact ⟨actor, .inl hret⟩
  · rename_i hneed
    obtain ⟨y, -, heq⟩ := Option.map_eq_some_iff.mp h
    split at heq <;> simp only [Prod.mk.injEq] at heq
    · obtain ⟨hret, rfl, -⟩ := heq
      exact ⟨false, .inl hret⟩
    · obtain ⟨-, rfl, -⟩ := heq
      exact ⟨actor, .inr (not_not.mp hneed)⟩

theorem exchanged_conserves {S : Set Cylinder} {q : Request} (hsane : rules.Sane) (hvalid : Valid rules w)
    (hitem : q.item ∈ w.children q.fromCylinder) (hflags : q.flags.childIsOwner = false) (hmove : q.onMoveItem = true)
    (hself : (w.destination rules q).toItem ≠ some q.item) (hplace : w.hasPlace (w.destination rules q) = true)
    (hfree : Unopposed rules w q) (ha : q.fromCylinder ∈ S) (hb : (w.destination rules q).cylinder ∈ S) :
    Valid rules (w.exchanged rules q) ∧ (∀ id, (w.exchanged rules q).units rules S id = w.units rules S id) ∧
      Lands rules (w.exchanged rules q) q.item (w.landing rules q) ∧
      (w.exchanged rules q).hasPlace (w.landing rules q) = true := by
  have hlands : Lands rules w q.item (w.destination rules q) := destination_lands hflags
  have hfree := hfree.toItem
  unfold exchanged landing
  cases hex : w.exchanges rules q with
  | false =>
    simp only [Bool.false_eq_true, and_false, if_false]
    refine ⟨?_, fun id => ?_, ?_, ?_⟩
    all_goals split
    all_goals first | assumption | rfl
  | true =>
    have hfree := hfree hex
    unfold exchanges at hex
    generalize w.destination rules q = d at hex hself hplace hb hlands hfree
    dsimp only at hex ⊢
    simp only [Bool.and_eq_true, decide_eq_true_eq, Option.any_eq_true] at hex
    obtain ⟨hneed, y, hy, hcan⟩ := hex
    have hne : y ≠ q.item := fun e => hself (e ▸ hy)
    rw [hy]
    simp only [hmove, hne, ne_eq, not_false_eq_true, and_self, if_true]
    obtain ⟨hvalid', hunits, hlands', hplace'⟩ :=
      swapOut_conserves hsane hvalid ha hb hlands hy hitem hneed hcan (hfree y hy) rfl
    exact ⟨hvalid', hunits, hlands', hplace'.trans hplace⟩

theorem move_spec {S : Set Cylinder} {q : Request} {ret : ReturnValue} (hsane : rules.Sane) (hvalid : Valid rules w)
    (hitem : q.item ∈ w.children q.fromCylinder) (hcount : 1 ≤ q.count) (hflags : q.flags.childIsOwner = false)
    (hplace : w.hasPlace (w.destination rules q) = true) (hfree : Unopposed rules w q) (ha : q.fromCylinder ∈ S)
    (hb : (w.destination rules q).cylinder ∈ S) (h : w.internalMoveItem rules q = some (ret, w')) :
    Valid rules w' ∧ ∀ id, w'.units rules S id = w.units rules S id := by
  unfold internalMoveItem at h
  dsimp only at h
  split at h
  · cases h
    exact ⟨hvalid, fun _ => rfl⟩
  rename_i hmove
  split at h
  · cases h
    exact ⟨hvalid, fun _ => rfl⟩
  rename_i hself
  obtain ⟨⟨ret₁, w₁, toItem⟩, hcheck, hrest⟩ := Option.bind_eq_some_iff.mp h
  dsimp only at hrest
  have hmove : q.onMoveItem = true := by simpa using hmove
  obtain ⟨hworld, hland⟩ := checkAdd_spec hmove hself hcheck
  obtain ⟨hvalid₁, hunits₁, hlands₁, hplace₁⟩ :=
    exchanged_conserves hsane hvalid hitem hflags hmove hself hplace hfree ha hb
  split at hrest
  · cases hrest
    rw [hworld]
    exact ⟨hvalid₁, hunits₁⟩
  · rename_i hret
    rw [not_not.mp hret] at hcheck
    obtain ⟨actor', hadd⟩ := checkAdd_accepts hcheck
    have hself' : toItem ≠ some q.item := by
      have hto := congrArg Destination.toItem hland
      unfold landing at hto
      dsimp only at hto
      split at hto
      · rw [hto]
        exact nofun
      · exact hto ▸ hself
    have hvacant := hfree.item
    unfold lifted maxCount at hvacant
    rw [← hland, ← hworld] at hlands₁ hplace₁ hvacant
    rw [← hworld] at hvalid₁ hunits₁
    obtain ⟨hvalid₂, hunits₂⟩ := moveChecked_conserves (d := { w.destination rules q with toItem })
      hsane hvalid₁ ha hb hlands₁ hself' hadd hcount hplace₁ hvacant hrest
    exact ⟨hvalid₂, fun id => (hunits₂ id).trans (hunits₁ id)⟩

/-- Whatever a call answers, the world stays valid and the units below its
source and its destination stay the same. -/
theorem internalMoveItem_conserves_units {q : Request} {ret : ReturnValue} (hsane : rules.Sane)
    (hvalid : Valid rules w) (hitem : q.item ∈ w.children q.fromCylinder) (hcount : 1 ≤ q.count)
    (hflags : q.flags.childIsOwner = false) (hplace : w.hasPlace (w.destination rules q) = true)
    (hfree : Unopposed rules w q) (h : w.internalMoveItem rules q = some (ret, w')) (S : Set Cylinder)
    (ha : q.fromCylinder ∈ S) (hb : (w.destination rules q).cylinder ∈ S) (id : ℕ) :
    Valid rules w' ∧ w'.units rules S id = w.units rules S id := by
  obtain ⟨hvalid', hunits⟩ := move_spec hsane hvalid hitem hcount hflags hplace hfree ha hb h
  exact ⟨hvalid', hunits id⟩

/-! ## Splashes -/

/-- Splashes, a floor and gold coins. -/
def street : Rules where
  items id :=
    if id = 2019 then { id, group := .splash, alwaysOnTop := true }
    else if id = 2148 then { id, stackable := true }
    else if id = 100 then { id, group := .ground }
    else { id }

/-- Two tiles with a splash each; gold lies on the first. -/
def puddles : World where
  item
    | 0 => { id := 2019, parent := some (.tile 0) }
    | 1 => { id := 2019, parent := some (.tile 1) }
    | 2 => { id := 100, parent := some (.tile 1) }
    | 3 => { id := 2148, count := 50, parent := some (.tile 0) }
    | _ => { id := 0 }
  player _ := { inventory := fun _ => none }
  tile
    | 0 => { topItems := [0], downItems := [3] }
    | 1 => { ground := some 2, topItems := [1] }
    | _ => {}
  next := 4

theorem street_sane : street.Sane := by
  have hgold : ∀ id, (street.items id).stackable = true → id = 2148 := by
    intro id h
    unfold street at h
    dsimp only at h
    repeat' split at h
    all_goals first
      | assumption
      | cases h
  constructor
  all_goals
    intro id h
    rw [hgold id h]
    decide

theorem puddles_container (x : ℕ) : (puddles.item x).container = none := by
  rcases x with _ | _ | _ | _ | x <;> rfl

theorem puddles_children {c : Cylinder} {x : ℕ} (h : x ∈ puddles.children c) :
    c = .tile 0 ∧ (x = 0 ∨ x = 3) ∨ c = .tile 1 ∧ (x = 2 ∨ x = 1) := by
  cases c with
  | container d =>
    rw [no_children (puddles_container d)] at h
    cases h
  | player p => simp [children, puddles, slots] at h
  | tile t =>
    rcases t with _ | _ | t
    · exact .inl ⟨rfl, by simpa [children, puddles] using h⟩
    · exact .inr ⟨rfl, by simpa [children, puddles] using h⟩
    · cases h

theorem puddles_stackable {x : ℕ} (h : puddles.isStackable street x = true) : x = 3 := by
  rcases x with _ | _ | _ | _ | x
  · cases h
  · cases h
  · cases h
  · rfl
  · cases h

theorem puddles_valid : Valid street puddles where
  itemlist c := by simp [itemlist, puddles_container]
  inventory p i _ j _ x hx := by cases hx
  tile t := by rcases t with _ | _ | t <;> simp [children, puddles]
  ground t g hg := by
    rcases t with _ | _ | t
    · cases hg
    · cases hg
      rfl
    · cases hg
  top t x hx := by
    rcases t with _ | _ | t
    · rw [List.mem_singleton.mp hx]
      rfl
    · rw [List.mem_singleton.mp hx]
      rfl
    · cases hx
  holder c c' x hx hx' := by
    rcases puddles_children hx with ⟨rfl, h | h⟩ | ⟨rfl, h | h⟩ <;>
      rcases puddles_children hx' with ⟨rfl, h' | h'⟩ | ⟨rfl, h' | h'⟩ <;> first | rfl | omega
  known c x hx := by
    show x < 4
    rcases puddles_children hx with ⟨-, h | h⟩ | ⟨-, h | h⟩ <;> omega
  fresh x _ := puddles_container x
  leaf x _ := puddles_container x
  count x hx := by
    rw [puddles_stackable hx]
    decide
  capacity x c hc := by
    rw [puddles_container] at hc
    cases hc
  storeInbox x c hc := by
    rw [puddles_container] at hc
    cases hc

/-- Twenty of the fifty coins are put onto the other tile. -/
def dropGold : Request := { fromCylinder := .tile 0, toCylinder := .tile 1, item := 3, count := 20 }

theorem internalMoveItem_conserves_units_drop_gold : ∃ w',
    puddles.internalMoveItem street dropGold = some (.noError, w') ∧ Valid street w' ∧
      w'.units street {.tile 0, .tile 1} 2148 = puddles.units street {.tile 0, .tile 1} 2148 := by
  have hrun : (puddles.internalMoveItem street dropGold).map Prod.fst = some .noError := by
    decide +kernel
  obtain ⟨⟨ret, w'⟩, hcall, rfl⟩ := Option.map_eq_some_iff.mp hrun
  have hdest : (puddles.destination street dropGold).cylinder = .tile 1 := by decide +kernel
  have hfree : Unopposed street puddles dropGold := by
    refine ⟨vacant_plain (by decide +kernel), fun h => ?_⟩
    have hno : puddles.exchanges street dropGold = false := by decide +kernel
    rw [hno] at h
    cases h
  refine ⟨w', hcall, internalMoveItem_conserves_units street_sane puddles_valid (by decide)
    (by decide) rfl
    (by decide +kernel) hfree hcall _ ?_ ?_ 2148⟩
  · simp [dropGold]
  · simp [hdest]

theorem puddles_units : puddles.units street {.tile 0, .tile 1} 2019 = 2 := by
  have h0 : 0 ∈ { x | puddles.IsBelow {.tile 0, .tile 1} x } :=
    .root (show Cylinder.tile 0 ∈ _ by simp) (show 0 ∈ puddles.children (.tile 0) by decide)
  have h1 : 1 ∈ { x | puddles.IsBelow {.tile 0, .tile 1} x } :=
    .root (show Cylinder.tile 1 ∈ _ by simp) (show 1 ∈ puddles.children (.tile 1) by decide)
  have hv0 : puddles.amount street 2019 0 = 1 := by decide
  have hv1 : puddles.amount street 2019 1 = 1 := by decide
  have hv2 : puddles.amount street 2019 2 = 0 := by decide
  have hv3 : puddles.amount street 2019 3 = 0 := by decide
  show total (Finset.range 4) _ _ = 2
  simp only [total, Finset.sum_range_succ, Finset.sum_range_zero]
  rw [Set.indicator_of_mem h0, Set.indicator_of_mem h1, Set.indicator_apply_eq_zero.mpr fun _ => hv2,
    Set.indicator_apply_eq_zero.mpr fun _ => hv3, hv0, hv1]
  rfl

/-- A splash that a script moves onto another takes its place, and that one is gone. -/
theorem splash_takes_the_place : ¬ ∀ (rules : Rules) (w w' : World) (q : Request) (ret : ReturnValue),
    rules.Sane → Valid rules w → q.item ∈ w.children q.fromCylinder → 1 ≤ q.count →
      w.internalMoveItem rules q = some (ret, w') →
        ∀ id, w'.units rules {q.fromCylinder, q.toCylinder} id = w.units rules {q.fromCylinder, q.toCylinder} id := by
  intro h
  let q : Request :=
    { fromCylinder := .tile 0, toCylinder := .tile 1, item := 0
      flags := { noLimit := true, ignoreBlockCreature := true, ignoreNotMoveable := true } }
  have hrun : (puddles.internalMoveItem street q).map (fun y => [y.2.children (.tile 0), y.2.children (.tile 1),
      y.2.itemlist 0, y.2.itemlist 2, y.2.itemlist 3, [y.2.next],
      (List.range 4).map (y.2.amount street 2019)]) = some [[3], [2, 0], [], [], [], [4], [1, 1, 0, 0]] := by
    decide +kernel
  obtain ⟨⟨ret, w'⟩, hcall, heq⟩ := Option.map_eq_some_iff.mp hrun
  have hsame : w'.units street {.tile 0, .tile 1} 2019 = puddles.units street {.tile 0, .tile 1} 2019 :=
    h street puddles w' q ret street_sane puddles_valid (by decide) (by decide) hcall 2019
  simp only [List.cons.injEq, and_true] at heq
  obtain ⟨h0, h1, hl0, hl2, hl3, hnext, hamount⟩ := heq
  simp only [List.range, List.range.loop, List.map_cons, List.map_nil, List.cons.injEq, and_true] at hamount
  obtain ⟨hv0, -, hv2, hv3⟩ := hamount
  -- the splash of the second tile is nowhere
  have hgone : 1 ∉ { x | w'.IsBelow {.tile 0, .tile 1} x } := by
    have hbelow : ∀ x, w'.IsBelow {.tile 0, .tile 1} x → x = 3 ∨ x = 2 ∨ x = 0 := by
      intro x hx
      induction hx with
      | root hc hx =>
        rcases hc with rfl | rfl
        · simp only [h0, List.mem_singleton] at hx
          exact .inl hx
        · simp only [h1, List.mem_cons, List.not_mem_nil, or_false] at hx
          exact .inr hx
      | inside _ hx ih =>
        rcases ih with rfl | rfl | rfl
        · simp only [children, hl3, List.not_mem_nil] at hx
        · simp only [children, hl2, List.not_mem_nil] at hx
        · simp only [children, hl0, List.not_mem_nil] at hx
    intro hx
    have := hbelow 1 hx
    omega
  rw [puddles_units, units, hnext] at hsame
  simp only [total, Finset.sum_range_succ, Finset.sum_range_zero] at hsame
  rw [Set.indicator_of_notMem hgone, Set.indicator_apply_eq_zero.mpr fun _ => hv2,
    Set.indicator_apply_eq_zero.mpr fun _ => hv3] at hsame
  have hle : Set.indicator { x | w'.IsBelow {.tile 0, .tile 1} x } (w'.amount street 2019) 0 ≤
      1 := by
    rcases Set.indicator_eq_zero_or_self { x | w'.IsBelow {.tile 0, .tile 1} x }
      (w'.amount street 2019) 0
      with hzero | hself
    · rw [hzero]
      exact Nat.zero_le 1
    · rw [hself, hv0]
  omega

end World
end ForgottenServer.Things
