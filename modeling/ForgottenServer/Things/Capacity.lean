import ForgottenServer.Lib.Run
import ForgottenServer.Things.Conservation
import ForgottenServer.Things.Sizes

/-! # Containers are not overfilled

`queryAdd` looks at the room of a container only when it is asked for any place;
elsewhere `queryMaxCount` and `queryDestination` have to. Calls of
`internalMoveItem` and `internalAddItem` keep every item list within the
capacity, but for the cases that `Spares` leaves out. -/
namespace ForgottenServer.Things
namespace World
variable {rules : Rules} {w w' : World} {r : ℕ}

/-- Every item list is within the capacity, that of `full` up to one item. -/
structure Roomy (full : Option ℕ) (w : World) : Prop where
  room : ∀ c, w.size c ≤ w.capacity c + if full = some c then 1 else 0
  known : ∀ c x, x ∈ w.children c → x < w.next
  fresh : ∀ x, w.next ≤ x → (w.item x).container = none
  storeInbox : ∀ x k, (w.item x).container = some k → k.kind = .storeInbox → k.unlocked = true

theorem Roomy.le (h : Roomy none w) (c : ℕ) : w.size c ≤ w.capacity c := by simpa using h.room c

theorem storeInbox_of_plate {x : ℕ} {k : Container}
    (hplate : (w'.item x).container.map Container.plate = (w.item x).container.map Container.plate)
    (h : ∀ x k, (w.item x).container = some k → k.kind = .storeInbox → k.unlocked = true)
    (hk : (w'.item x).container = some k) (hkind : k.kind = .storeInbox) : k.unlocked = true := by
  obtain ⟨k', hk', hkind', -, hlock⟩ := exists_plate hplate hk
  exact hlock ▸ h x k' hk' (hkind'.trans hkind)

theorem Roomy.thins {full : Option ℕ} (h : Roomy full w) (h' : Thins w w') : Roomy full w' where
  room c := by
    rcases h'.plate c with ⟨-, hnone⟩ | hplate
    · simp [size, itemlist, hnone]
    · rw [(capacity_of_plate hplate).1]
      exact (h'.size c).trans (h.room c)
  known c x hx := (h.known c x (h'.children c x hx)).trans_le h'.next
  fresh x hx := by
    rcases h'.plate x with ⟨-, hnone⟩ | hplate
    · exact hnone
    · exact container_none hplate (h.fresh x (h'.next.trans hx))
  storeInbox x k hk hkind := by
    rcases h'.plate x with ⟨-, hnone⟩ | hplate
    · rw [hnone] at hk
      cases hk
    · exact storeInbox_of_plate hplate h.storeInbox hk hkind

theorem Roomy.grows {full full' : Option ℕ} {b : Cylinder} (h : Roomy full w) (h' : Grows w w' b r) (hr : r < w.next)
    (hroom : ∀ c, (w.size c + if b = .container c then 1 else 0) ≤ w.capacity c + if full' = some c then 1 else 0) :
    Roomy full' w' where
  room c := by
    rw [(capacity_of_plate (h'.plate c)).1]
    exact (h'.size c).trans (hroom c)
  known c x hx := by
    rw [h'.next]
    rcases h'.children c x hx with hx | rfl
    · exact h.known c x hx
    · exact hr
  fresh x hx := container_none (h'.plate x) (h.fresh x (h'.next ▸ hx))
  storeInbox x k hk hkind := storeInbox_of_plate (h'.plate x) h.storeInbox hk hkind

theorem Roomy.add {b : Cylinder} (h : Roomy none w) (h' : Grows w w' b r) (hr : r < w.next)
    (hroom : ∀ c, b = .container c → w.size c < w.capacity c) : Roomy none w' := by
  refine h.grows h' hr fun c => ?_
  simp only [reduceCtorEq, if_false, Nat.add_zero]
  split
  · exact hroom c ‹_›
  · exact h.le c

theorem Roomy.capacity_thins {full : Option ℕ} {c : ℕ} (h : Roomy full w) (h' : Thins w w') :
    w'.capacity c = w.capacity c := by
  rcases h'.plate c with ⟨hle, hnone⟩ | hplate
  · simp [capacity, hnone, h.fresh c hle]
  · exact (capacity_of_plate hplate).1

theorem merge_lists (c : Cylinder) (y : Option ℕ) (n : ℕ) : SameLists w (w.merge rules c y n) := by
  cases y with
  | none => exact (Alike.same w).toSameLists
  | some y =>
    have hset : ∀ count, SameLists w (w.setIdAndCount rules y (w.item y).id count) :=
      fun count => by
      unfold setIdAndCount
      refine .of_setItem ?_ rfl
      exact (setSubType_id _ _ _).trans (setID_id_count _ _ _).1
    show SameLists w (w.updateThing rules c y (w.item y).id ((w.item y).count + n))
    unfold updateThing
    split
    · exact (Alike.same w).toSameLists
    dsimp only
    split
    · exact (hset _).trans (Alike.updateItemWeight _ _ _ _).toSameLists
    · exact hset _

theorem cloneItem_thins {n : ℕ} (h : w.cloneItem rules r n = some w') : Thins w w' ∧ w'.next = w.next + 1 := by
  obtain ⟨y, -, rfl⟩ := Option.map_eq_some_iff.mp h
  refine ⟨⟨Nat.le_succ _, fun c => ?_, fun c => ?_, fun c x hx => ?_⟩, rfl⟩
  · by_cases hc : c = w.next
    · subst hc
      simp
    · simp [hc]
  · by_cases hc : c = w.next
    · subst hc
      simp [size, itemlist]
    · simp [size, itemlist, hc]
  · cases c with
    | player p => exact hx
    | tile t => exact hx
    | container c =>
      by_cases hc : c = w.next
      · subst hc
        simp [children, itemlist] at hx
      · simpa [children, itemlist, hc] using hx

/-! ## The room that the queries ask for -/

section Queries
variable {c : ℕ} {count : ℕ} {flags : Flags} {actor : Bool}

theorem plainQueryAdd_whereEver (hlimit : flags.noLimit = false) (hflags : flags.childIsOwner = false)
    (h : Accepts (w.plainQueryAdd rules c whereEver r count flags actor)) : w.size c < w.capacity c := by
  by_contra hfull
  have hno : (!flags.noLimit) = true ∧ whereEver = whereEver ∧ w.capacity c ≤ w.size c :=
    ⟨by simp [hlimit], rfl, not_lt.mp hfull⟩
  unfold plainQueryAdd at h
  dsimp only at h
  rw [if_neg (by simp [hflags])] at h
  repeat' split at h
  all_goals first
    | exact absurd hno ‹_›
    | rcases h with h | h <;> cases h

theorem containerQueryAdd_whereEver (hlimit : flags.noLimit = false) (hflags : flags.childIsOwner = false)
    (hkind : w.kind c ≠ some .storeInbox) (h : Accepts (w.containerQueryAdd rules c whereEver r count flags actor)) :
    w.size c < w.capacity c := by
  unfold containerQueryAdd at h
  split at h
  · split at h
    · rcases h with h | h <;> cases h
    · exact plainQueryAdd_whereEver hlimit hflags h
  · rcases h with h | h <;> cases h
  · rw [inboxQueryAdd, if_pos (by simp [hlimit])] at h
    rcases h with h | h <;> cases h
  · exact absurd ‹_› hkind
  · exact plainQueryAdd_whereEver hlimit hflags h
  · exact plainQueryAdd_whereEver hlimit hflags h

/-- Without room, only a stack at the index takes something. -/
theorem containerQueryMaxCount_full {index : ℤ} (hlimit : flags.noLimit = false) (hfull : w.capacity c ≤ w.size c)
    (hmax : ¬ ((w.containerQueryMaxCount rules c index r count flags).1 ≠ .noError ∧
      (w.containerQueryMaxCount rules c index r count flags).2 = 0)) :
    w.isStackable rules r = true ∧ ((w.containerQueryMaxCount rules c index r count flags).2 = 0 ∨
      index = whereEver ∨ ∃ y, w.getItemByIndex c index = some y ∧ (w.item r).equals (w.item y) = true ∧
        (w.containerQueryMaxCount rules c index r count flags).2 ≤ 100 - (w.item y).count) := by
  have hfree : w.capacity c - w.size c = 0 := by omega
  unfold containerQueryMaxCount at hmax ⊢
  rw [if_neg (by simp [hlimit])] at hmax ⊢
  cases hstack : w.isStackable rules r with
  | false =>
    simp only [hstack, hfree, Bool.false_eq_true, if_false, if_true] at hmax
    exact absurd ⟨nofun, trivial⟩ hmax
  | true =>
    refine ⟨rfl, ?_⟩
    simp only [if_true, hfree, Nat.zero_mul, Nat.zero_add]
    by_cases hindex : index = whereEver
    · exact .inr (.inl hindex)
    · simp only [if_neg hindex]
      cases hy : w.getItemByIndex c index with
      | none => exact .inl rfl
      | some y =>
        dsimp only
        split
        · rename_i heq
          exact .inr (.inr ⟨y, rfl, heq.1, le_rfl⟩)
        · exact .inl rfl

end Queries

/-! ## Where the loop ends -/

/-- In a container the index names the item there, and the limits are kept. -/
structure Named (w : World) (d : Destination) : Prop where
  toItem : ∀ c y, d.cylinder = .container c → w.isUnlocked c = true → w.getItemByIndex c d.index = some y →
    d.toItem = some y
  limit : ∀ c, d.cylinder = .container c → d.flags.noLimit = false

theorem getItemByIndex_whereEver (c : ℕ) : w.getItemByIndex c whereEver = none := rfl

theorem stackDestination_named {c : ℕ} {index : ℤ} {toItem : Option ℕ} {flags : Flags}
    (hto : ∀ y, w.getItemByIndex c index = some y → toItem = some y) (hlimit : flags.noLimit = false) :
    Named w (w.stackDestination rules c index toItem r flags) := by
  have hthis : Named w { cylinder := .container c, index, toItem, flags } := by
    refine ⟨fun c' y hc _ hy => ?_, fun _ _ => hlimit⟩
    cases hc
    exact hto y hy
  unfold stackDestination
  dsimp only
  split
  · split
    · exact hthis
    · split
      · rename_i y hfind
        refine ⟨fun c' z hc _ hz => ?_, fun _ _ => hlimit⟩
        cases hc
        rw [← hz]
        exact (getItemByIndex_idxOf (List.mem_of_find?_eq_some hfind)).symm
      · exact hthis
  · exact hthis

theorem containerQueryDestination_named {c : ℕ} {index : ℤ} {toItem : Option ℕ} {flags : Flags}
    (hlimit : flags.noLimit = false) : Named w (w.containerQueryDestination rules c index toItem r flags) := by
  have hany : ∀ c', Named w { cylinder := .container c', index := whereEver, flags } := by
    intro c'
    refine ⟨fun d y _ _ hy => ?_, fun _ _ => hlimit⟩
    rw [getItemByIndex_whereEver] at hy
    cases hy
  unfold containerQueryDestination
  dsimp only
  split
  · rename_i hlocked
    refine ⟨fun c' y hc hopen _ => ?_, fun _ _ => hlimit⟩
    cases hc
    simp [isUnlocked] at hopen hlocked
    simp [hopen] at hlocked
  split
  · split
    · exact hany _
    · exact hany c
  split
  · refine stackDestination_named (fun y hy => ?_) hlimit
    rw [getItemByIndex_whereEver] at hy
    cases hy
  · split
    · rename_i sub hsub
      obtain ⟨y, -, hy⟩ := Option.bind_eq_some_iff.mp hsub
      unfold toCylinder at hy
      split at hy
      · cases hy
        exact hany y
      · cases hy
    · refine stackDestination_named (fun y hy => ?_) hlimit
      rw [hy]
      rfl

theorem stackDestination_cylinder {c : ℕ} {index : ℤ} {toItem : Option ℕ} {flags : Flags} :
    (w.stackDestination rules c index toItem r flags).cylinder = .container c := by
  unfold stackDestination
  dsimp only
  repeat' split
  all_goals rfl

/-- A container names itself, or another one where it is to be put wherever it fits. -/
theorem containerQueryDestination_hop {c : ℕ} {index : ℤ} {toItem : Option ℕ} {flags : Flags} :
    ∃ e, (w.containerQueryDestination rules c index toItem r flags).cylinder = .container e ∧
      (e = c ∨ (w.containerQueryDestination rules c index toItem r flags).index = whereEver) := by
  unfold containerQueryDestination
  dsimp only
  split
  · exact ⟨c, rfl, .inl rfl⟩
  split
  · split
    · exact ⟨_, rfl, .inr rfl⟩
    · exact ⟨c, rfl, .inl rfl⟩
  split
  · exact ⟨c, stackDestination_cylinder, .inl rfl⟩
  · split
    · rename_i sub hsub
      obtain ⟨y, -, hy⟩ := Option.bind_eq_some_iff.mp hsub
      unfold toCylinder at hy
      split at hy
      · cases hy
        exact ⟨y, rfl, .inr rfl⟩
      · cases hy
    · exact ⟨c, stackDestination_cylinder, .inl rfl⟩

theorem tileQueryDestination_tile {t : ℕ} {index : ℤ} {flags : Flags} :
    ∃ t', (w.tileQueryDestination t index flags).cylinder = .tile t' := by
  unfold tileQueryDestination
  split <;> exact ⟨_, rfl⟩

/-- The loop ends at a cylinder that was asked itself, or wherever it fits in one that was not. -/
theorem findDestination_named {fuel : ℕ} {d : Destination} (hd : d.flags.noLimit = false)
    (hflags : d.flags.childIsOwner = false) (hto : ∀ p, d.cylinder = .player p → d.toItem = none)
    (hzero : fuel = 0 → Named w d) (hone : fuel = 1 → ∀ p, d.cylinder ≠ .player p) :
    Named w (w.findDestination rules r fuel d) := by
  induction fuel generalizing d with
  | zero => exact hzero rfl
  | succ fuel ih =>
    have hnone : ∀ {d' : Destination}, (∀ c, d'.cylinder ≠ .container c) → Named w d' := fun h =>
      ⟨fun c _ hc => absurd hc (h c), fun c hc => absurd hc (h c)⟩
    unfold findDestination
    dsimp only
    obtain ⟨c, index, toItem, flags⟩ := d
    cases c with
    | container c =>
      have hnamed : Named w (w.containerQueryDestination rules c index toItem r flags) :=
        containerQueryDestination_named hd
      obtain ⟨e, he, hindex⟩ := @containerQueryDestination_hop rules w r c index toItem flags
      show Named w (if (w.containerQueryDestination rules c index toItem r flags).cylinder =
        .container c then _ else _)
      split
      · exact hnamed
      · refine ih rfl rfl (fun p hp => ?_) (fun _ => ⟨hnamed.toItem, fun _ _ => rfl⟩) fun _ p hp => ?_
        · cases he.symm.trans hp
        · cases he.symm.trans hp
    | tile t =>
      obtain ⟨t', ht⟩ := @tileQueryDestination_tile w t index flags
      have hcyl : ∀ c, (w.tileQueryDestination t index flags).cylinder ≠ .container c :=
        fun c hc => by
        cases ht.symm.trans hc
      show Named w (if (w.tileQueryDestination t index flags).cylinder = .tile t then _ else _)
      split
      · exact hnone hcyl
      · refine ih rfl rfl (fun p hp => ?_) (fun _ => hnone hcyl) fun _ p hp => ?_
        · cases ht.symm.trans hp
        · cases ht.symm.trans hp
    | player p =>
      obtain rfl : toItem = none := hto p rfl
      show Named w (if (w.playerQueryDestination rules p index none r flags).cylinder = .player p then _ else _)
      rcases @playerQueryDestination_lands rules w r p index flags hflags _ rfl with ⟨hp, -⟩ | ⟨c, hc, -⟩
      · rw [if_pos hp]
        exact hnone fun c hc => by cases hp.symm.trans hc
      · have hne : (w.playerQueryDestination rules p index none r flags).cylinder ≠ .player p := fun h => by
          cases hc.symm.trans h
        rw [if_neg hne]
        refine ih rfl rfl (fun q hq => ?_) (fun hz => absurd rfl (hone (by rw [hz]) p))
          fun _ q hq => ?_
        · cases hc.symm.trans hq
        · cases hc.symm.trans hq

theorem destination_named {q : Request} (hlimit : q.flags.noLimit = false) (hflags : q.flags.childIsOwner = false) :
    Named w (w.destination rules q) := by
  refine findDestination_named hlimit hflags (fun _ _ => rfl) ?_ ?_
  · exact fun h => absurd h (by decide)
  · exact fun h => absurd h (by decide)

/-! ## Moving -/

section Move
variable {a : Cylinder} {d : Destination} {full : Option ℕ} {m : ℕ}

theorem removeThing_roomy (h : Roomy full w)
    (hover : ∀ c, full = some c → a = .container c ∧ r ∈ w.itemlist c ∧ w.isPart rules r m = false) :
    Roomy none (w.removeThing rules a r m) := by
  have hthins : Thins w (w.removeThing rules a r m) := removeThing_thins a m
  have hkept := h.thins hthins
  refine ⟨fun c => ?_, hkept.known, hkept.fresh, hkept.storeInbox⟩
  have hroom := h.room c
  simp only [reduceCtorEq, if_false, Nat.add_zero]
  rw [h.capacity_thins hthins]
  by_cases hc : full = some c
  · obtain ⟨rfl, hr, hpart⟩ := hover c hc
    have hsize : (w.removeThing rules (.container c) r m).size c + 1 = w.size c :=
      containerRemoveThing_size hr hpart
    rw [if_pos hc] at hroom
    omega
  · rw [if_neg hc] at hroom
    exact (hthins.size c).trans hroom

/-- A container at the place has room, or the stack there takes everything. -/
def HasSpace (rules : Rules) (w : World) (d : Destination) (r m : ℕ) : Prop :=
  ∀ c, d.cylinder = .container c → w.size c < w.capacity c ∨ w.isStackable rules r = true ∧
    ∃ y, d.toItem = some y ∧ y ≠ r ∧ (w.item r).equals (w.item y) = true ∧ m ≤ 100 - (w.item y).count

theorem transfer_roomy {moveItem : Option ℕ} (h : Roomy full w) (hremoved : Roomy none (w.removeThing rules a r m))
    (hr : r < w.next) (hspace : HasSpace rules w d r m) (hmove : w.transfer rules a d r m = some (w', moveItem)) :
    Roomy none w' := by
  have hthins : Thins w (w.removeThing rules a r m) := removeThing_thins a m
  obtain ⟨⟨w₁, moveItem', updateItem⟩, hstacked, heq⟩ := Option.map_eq_some_iff.mp hmove
  cases heq
  refine Roomy.thins ?_ (.of_lists (Alike.afterMove a d.cylinder moveItem updateItem).toSameLists)
  have hadd : ∀ {v : World} {x : ℕ}, Roomy none v → Thins w v → x < v.next →
      (∀ c, d.cylinder = .container c → w.size c < w.capacity c) →
        Roomy none (v.addThing rules d.cylinder d.index x) := by
    intro v x hv hthin hx hfree
    refine hv.add (addThing_grows d.cylinder d.index) hx fun c hc => ?_
    rw [h.capacity_thins hthin]
    exact (hthin.size c).trans_lt (hfree c hc)
  split at hstacked
  · -- a stack: some goes to the stack that is there, and the rest is a new item
    rename_i hstack
    have hitem : ∀ y, ((w.removeThing rules a r m).item r).equals ((w.removeThing rules a r m).item y) =
        (w.item r).equals (w.item y) := by
      intro y
      have hid : ∀ x, ((w.removeThing rules a r m).item x).id = (w.item x).id := fun x =>
        removeThing_item Item.id a m x (fun _ _ _ => rfl) (fun _ _ => rfl) fun _ _ _ => rfl
      have hattr : ∀ x, ((w.removeThing rules a r m).item x).attributes = (w.item x).attributes := fun x =>
        removeThing_item Item.attributes a m x (fun _ _ _ => rfl) (fun _ _ => rfl) fun _ _ _ => rfl
      unfold Item.equals Item.attr
      rw [hid, hid, hattr, hattr]
    unfold restack at hstacked
    dsimp only at hstacked
    generalize hv : w.removeThing rules a r m = v at hstacked hthins hremoved hitem
    unfold cloneRest at hstacked
    have hmerged : Thins v (v.merge rules d.cylinder (d.toItem.filter fun y => (v.item r).equals (v.item y))
        (v.mergeCount (d.toItem.filter fun y => (v.item r).equals (v.item y)) m)) :=
          .of_lists (merge_lists _ _ _)
    split at hstacked
    · rename_i hrest
      obtain ⟨w₂, hclone, heq⟩ := Option.map_eq_some_iff.mp hstacked
      cases heq
      obtain ⟨hcloned, hnext⟩ := cloneItem_thins hclone
      have hthin := (hthins.trans hmerged).trans hcloned
      refine hadd ((hremoved.thins hmerged).thins hcloned) hthin (by rw [hnext]; exact Nat.lt_succ_self _) ?_
      intro c hc
      refine (hspace c hc).resolve_right ?_
      rintro ⟨-, y, hy, hne, hsame, hfits⟩
      have hcount : (v.item y).count = (w.item y).count := by
        rw [← hv]
        exact removeThing_item Item.count a m y (fun _ _ _ => rfl) (fun _ _ => rfl) fun e => absurd e hne
      rw [hy, Option.filter_some, if_pos ((hitem y).trans hsame)] at hrest
      simp only [mergeCount, hcount] at hrest
      omega
    · cases hstacked
      exact hremoved.thins hmerged
  · rename_i hstack
    cases hstacked
    exact hadd hremoved hthins (hr.trans_le hthins.next) fun c hc => (hspace c hc).resolve_right fun hs => hstack hs.1

/-- What the checks before a move leave to be added has room. -/
theorem space_of_checks {count : ℕ} {actor actor' : Bool}
    (hlimit : ∀ c, d.cylinder = .container c → d.flags.noLimit = false)
    (hflags : d.flags.childIsOwner = false) (hself : d.toItem ≠ some r)
    (hname : w.isStackable rules r = true → ∀ c y, d.cylinder = .container c → w.getItemByIndex c d.index = some y →
      d.toItem = some y)
    (hinbox : w.isStackable rules r = true → ∀ c, d.cylinder = .container c → w.kind c = some .storeInbox →
      w.size c < w.capacity c)
    (hadd : Accepts (w.queryAdd rules d.cylinder d.index r count d.flags actor))
    (hmax : ¬ ((w.queryMaxCount rules d.cylinder d.index r count d.flags).1 ≠ .noError ∧
      (w.queryMaxCount rules d.cylinder d.index r count d.flags).2 = 0))
    (hremove : w.queryRemove rules a r
      (w.movedCount rules r count (w.queryMaxCount rules d.cylinder d.index r count d.flags).2)
        d.flags actor' = .noError) :
    HasSpace rules w d r (w.movedCount rules r count
      (w.queryMaxCount rules d.cylinder d.index r count d.flags).2) := by
  intro c hc
  by_contra hnot
  push Not at hnot
  have hlim := hlimit c hc
  have hnonzero : w.movedCount rules r count (w.queryMaxCount rules d.cylinder d.index r count d.flags).2 ≠ 0 := by
    intro hzero
    rw [hzero] at hremove
    exact queryRemove_zero a r d.flags actor' hremove
  obtain ⟨cyl, index, toItem, flags⟩ := d
  subst hc
  obtain ⟨hstack, hcases⟩ := containerQueryMaxCount_full hlim hnot.1 hmax
  change Accepts (w.containerQueryAdd rules c index r count flags actor) at hadd
  change w.movedCount rules r count (w.containerQueryMaxCount rules c index r count flags).2 ≠ 0 at hnonzero
  rw [movedCount, if_pos hstack] at hnonzero
  rcases hcases with hzero | rfl | ⟨y, hy, hsame, hfits⟩
  · rw [hzero, Nat.min_zero] at hnonzero
    exact hnonzero rfl
  · by_cases hkind : w.kind c = some .storeInbox
    · exact absurd (hinbox hstack c rfl hkind) (not_lt.mpr hnot.1)
    · exact absurd (containerQueryAdd_whereEver hlim hflags hkind hadd) (not_lt.mpr hnot.1)
  · have hto := hname hstack c y rfl hy
    refine absurd ?_ (not_le.mpr (hnot.2 hstack y hto (fun e => hself (e ▸ hto)) hsame))
    change w.movedCount rules r count (w.containerQueryMaxCount rules c index r count flags).2 ≤ _
    rw [movedCount, if_pos hstack]
    exact (min_le_right _ _).trans hfits

/-- The rest of a move takes the whole item off its cylinder. -/
def clears (rules : Rules) (w : World) (fromCylinder : Cylinder) (d : Destination) (r count : ℕ) (actor : Bool)
    (tradeItem : Option ℕ) : Bool :=
  let (retMaxCount, maxQueryCount) := w.queryMaxCount rules d.cylinder d.index r count d.flags
  let m := w.movedCount rules r count maxQueryCount
  !(retMaxCount ≠ .noError && maxQueryCount = 0) && w.queryRemove rules fromCylinder r m d.flags actor = .noError &&
      !w.isInTradeItem tradeItem d.cylinder && !w.isPart rules r m

theorem moveChecked_roomy {count : ℕ} {actor actor' : Bool} {tradeItem : Option ℕ} {ret : ReturnValue}
    (h : Roomy full w) (hover : ∀ c, full = some c →
      a = .container c ∧ w.clears rules a d r count actor tradeItem = true)
    (hlimit : ∀ c, d.cylinder = .container c → d.flags.noLimit = false)
    (hflags : d.flags.childIsOwner = false) (hself : d.toItem ≠ some r)
    (hname : w.isStackable rules r = true → ∀ c y, d.cylinder = .container c → w.getItemByIndex c d.index = some y →
      d.toItem = some y)
    (hinbox : w.isStackable rules r = true → ∀ c, d.cylinder = .container c → w.kind c = some .storeInbox →
      w.size c < w.capacity c)
    (hadd : Accepts (w.queryAdd rules d.cylinder d.index r count d.flags actor'))
    (hmove : w.moveChecked rules a d r count actor tradeItem = some (ret, w')) : Roomy none w' := by
  have hspace : ∀ hmax, _ := fun hmax =>
    @space_of_checks rules w r a d count actor' actor hlimit hflags hself hname
    hinbox hadd hmax
  unfold clears at hover
  unfold moveChecked at hmove
  generalize w.queryMaxCount rules d.cylinder d.index r count d.flags = answer at hmove hover hspace
  obtain ⟨retMaxCount, maxQueryCount⟩ := answer
  dsimp only at hmove hover hspace
  -- a list that is too long means that none of the checks fails
  have hnone : full = none ∨ (¬ (retMaxCount ≠ .noError ∧ maxQueryCount = 0) ∧
      w.queryRemove rules a r (w.movedCount rules r count maxQueryCount) d.flags actor = .noError ∧
        w.isInTradeItem tradeItem d.cylinder = false) := by
    cases full with
    | none => exact .inl rfl
    | some c =>
      obtain ⟨-, hclear⟩ := hover c rfl
      simp only [Bool.and_eq_true, Bool.not_eq_true', Bool.and_eq_false_iff, decide_eq_true_eq,
        decide_eq_false_iff_not, ne_eq, not_not] at hclear
      refine .inr ⟨?_, hclear.1.1.2, hclear.1.2⟩
      rintro ⟨hret, hzero⟩
      exact hclear.1.1.1.elim hret fun hne => hne hzero
  split at hmove
  · rename_i hmax
    cases hmove
    rcases hnone with rfl | hnone
    · exact h
    · exact absurd hmax hnone.1
  rename_i hmax
  split at hmove
  · rename_i hremove
    cases hmove
    rcases hnone with rfl | hnone
    · exact h
    · exact absurd hnone.2.1 hremove
  rename_i hremove
  have hremove := not_not.mp hremove
  split at hmove
  · rename_i htrade
    cases hmove
    rcases hnone with rfl | hnone
    · exact h
    · rw [hnone.2.2] at htrade
      cases htrade
  obtain ⟨hthing, -⟩ := queryRemove_noError hremove
  have hmem := mem_of_hasThing hthing
  obtain ⟨⟨w₁, moveItem⟩, htransfer, heq⟩ := Option.map_eq_some_iff.mp hmove
  have hroomy : Roomy none w₁ := by
    refine transfer_roomy h (removeThing_roomy h fun c hc => ?_) (h.known _ _ hmem) (hspace hmax hremove) htransfer
    obtain ⟨rfl, hclear⟩ := hover c hc
    simp only [Bool.and_eq_true, Bool.not_eq_true'] at hclear
    exact ⟨rfl, hmem, hclear.2⟩
  dsimp only at heq
  split at heq
  · cases heq
    exact hroomy
  · cases heq
    exact hroomy.thins (.of_lists (Alike.startDecay moveItem).toSameLists)

/-- The list that an exchange makes too long. -/
def overfilled (w : World) : Cylinder → Option ℕ
  | .container c => if w.size c < w.capacity c then none else some c
  | _ => none

/-- The exchange makes the list of the source longer by one, and no other. -/
theorem swapOut_roomy {y : ℕ} (h : Roomy none w) (hy : y ∈ w.children d.cylinder) :
    Roomy (w.overfilled a) (w.swapOut rules a d.cylinder y) ∧
      (∀ x, ((w.swapOut rules a d.cylinder y).item x).id = (w.item x).id) ∧
      ∀ c, (w.swapOut rules a d.cylinder y).capacity c = w.capacity c := by
  have hthins : Thins w (w.removeThing rules d.cylinder y (w.item y).count) := removeThing_thins _ _
  have hout := h.thins hthins
  have hgrows : Grows (w.removeThing rules d.cylinder y (w.item y).count)
      ((w.removeThing rules d.cylinder y (w.item y).count).addThing rules a 0 y) a y :=
        addThing_grows a 0
  have hsame : SameLists ((w.removeThing rules d.cylinder y (w.item y).count).addThing rules a 0 y)
      (w.swapOut rules a d.cylinder y) := by
    unfold swapOut
    dsimp only
    split
    · exact ((Alike.notify _).trans (Alike.notify _)).toSameLists
    · exact (Alike.notify _).toSameLists
  have hid : ∀ x, ((w.removeThing rules d.cylinder y (w.item y).count).item x).id = (w.item x).id := fun x =>
    removeThing_item Item.id _ _ x (fun _ _ _ => rfl) (fun _ _ => rfl) fun _ _ _ => rfl
  have hcap : ∀ c, (w.swapOut rules a d.cylinder y).capacity c = w.capacity c := fun c =>
    ((capacity_of_plate (hsame.plate c)).1.trans (capacity_of_plate (hgrows.plate c)).1).trans
      (h.capacity_thins hthins)
  refine ⟨Roomy.thins ?_ (.of_lists hsame), fun x => ((hsame.id x).trans (hgrows.id x)).trans (hid x), hcap⟩
  refine hout.grows hgrows ((h.known _ _ hy).trans_le hthins.next) fun c => ?_
  have hsize := hthins.size c
  have hle := h.le c
  rw [h.capacity_thins hthins]
  cases a with
  | container e =>
    by_cases hc : e = c
    · subst hc
      by_cases hroom : w.size e < w.capacity e
      · simp only [overfilled, if_pos hroom, reduceCtorEq, if_true, if_false]
        omega
      · simp only [overfilled, if_neg hroom, if_true]
        omega
    · simp only [Cylinder.container.injEq, hc, if_false]
      exact (hsize.trans hle).trans (Nat.le_add_right _ _)
  | player p => simpa [overfilled] using hsize.trans hle
  | tile t => simpa [overfilled] using hsize.trans hle

end Move

/-- After an exchange the rest of the call takes the item itself off its cylinder. -/
def vacates (rules : Rules) (w : World) (q : Request) : Bool :=
  let d := w.destination rules q
  d.toItem.any fun y =>
    let w := w.swapOut rules q.fromCylinder d.cylinder y
    w.queryAdd rules d.cylinder d.index q.item q.count d.flags false = .noError &&
      w.clears rules q.fromCylinder { d with toItem := none } q.item q.count q.actor q.tradeItem

/-- A move of an item that lies where it says, without `FLAG_NOLIMIT`. It puts no
stack into a store inbox that is full, and an exchange into a container that is
full takes the item off that container. -/
structure SparesMove (rules : Rules) (w : World) (q : Request) : Prop where
  item : q.item ∈ w.children q.fromCylinder
  limit : q.flags.noLimit = false
  owner : q.flags.childIsOwner = false
  inbox : w.isStackable rules q.item = true → ∀ c, (w.destination rules q).cylinder = .container c →
    w.kind c = some .storeInbox → w.size c < w.capacity c
  exchange : w.exchanges rules q = true → ∀ c, q.fromCylinder = .container c →
    w.size c < w.capacity c ∨ w.vacates rules q = true

theorem internalMoveItem_roomy {q : Request} {ret : ReturnValue} (hsane : rules.Sane) (h : Roomy none w)
    (hq : SparesMove rules w q) (hmove : w.internalMoveItem rules q = some (ret, w')) : Roomy none w' := by
  have hlands : Lands rules w q.item (w.destination rules q) := destination_lands hq.owner
  have hnamed : Named w (w.destination rules q) := destination_named hq.limit hq.owner
  have hinbox := hq.inbox
  have hexchange := hq.exchange
  unfold exchanges vacates at hexchange
  unfold internalMoveItem at hmove
  dsimp only at hmove hexchange
  generalize w.destination rules q = d at hmove hlands hnamed hinbox hexchange
  split at hmove
  · cases hmove
    exact h
  split at hmove
  · cases hmove
    exact h
  rename_i hself
  have hopen : ∀ {c}, d.cylinder = .container c →
      Accepts (w.queryAdd rules d.cylinder d.index q.item q.count d.flags q.actor) → w.isUnlocked c = true := by
    intro c hc hadd
    rw [hc] at hadd
    exact (unlocked_of_accepts h.storeInbox hlands.flags hadd).2 (hnamed.limit c hc)
  obtain ⟨⟨ret₁, w₁, toItem⟩, hcheck, hrest⟩ := Option.bind_eq_some_iff.mp hmove
  dsimp only at hrest
  unfold checkAdd at hcheck
  dsimp only at hcheck
  have hplain : Accepts (w.queryAdd rules d.cylinder d.index q.item q.count d.flags q.actor) →
      w.moveChecked rules q.fromCylinder d q.item q.count q.actor q.tradeItem = some (ret, w') →
        Roomy none w' :=
    fun hadd hmove => moveChecked_roomy h (fun _ h => by cases h) hnamed.limit hlands.flags hself
      (fun _ c y hc => hnamed.toItem c y hc (hopen hc hadd)) hinbox hadd hmove
  split at hcheck
  · cases hcheck
    split at hrest
    · cases hrest
      exact h
    · rename_i hret
      exact hplain (.inl (not_not.mp hret)) hrest
  · rename_i hneed
    have hneed := not_not.mp hneed
    obtain ⟨y, hy, heq⟩ := Option.map_eq_some_iff.mp hcheck
    split at heq
    · -- the item in the way goes to the source
      rename_i hcan
      cases heq
      have hex := hexchange (by simp only [hneed, hy, decide_true, Bool.true_and, Option.any_some]; exact hcan)
      rw [hy, Option.any_some] at hex
      obtain ⟨hswap, hid, -⟩ := @swapOut_roomy rules w q.fromCylinder d y h (hlands.toItem y hy)
      generalize w.swapOut rules q.fromCylinder d.cylinder y = w₁ at hswap hid hex hrest
      have hover : ∀ c, w.overfilled q.fromCylinder = some c → q.fromCylinder = .container c ∧
          w₁.queryAdd rules d.cylinder d.index q.item q.count d.flags false = .noError ∧ w₁.clears rules q.fromCylinder
              { d with toItem := none } q.item q.count q.actor q.tradeItem = true := by
        intro c hc
        cases hfrom : q.fromCylinder with
        | container e =>
          rw [hfrom, overfilled] at hc
          split at hc
          · cases hc
          · cases hc
            have hvac := (hex c hfrom).resolve_left ‹_›
            rw [hfrom] at hvac
            simpa only [Bool.and_eq_true, decide_eq_true_eq, true_and] using hvac
        | player p =>
          rw [hfrom] at hc
          cases hc
        | tile t =>
          rw [hfrom] at hc
          cases hc
      have hstack : w₁.isStackable rules q.item = true → ∀ c, d.cylinder ≠ .container c := by
        -- what hangs on a wall is no stack
        intro hstack c hc
        rw [isStackable_of_id hid] at hstack
        rcases queryAdd_needExchange hneed with hhang | ⟨p, z, hp, -⟩
        · have := hsane.hangable _ hstack
          rw [← type, hhang] at this
          cases this
        · cases hc.symm.trans hp
      split at hrest
      · rename_i hret
        cases hrest
        cases hfrom : w.overfilled q.fromCylinder with
        | none => exact hfrom ▸ hswap
        | some c => exact absurd (hover c hfrom).2.1 hret
      · rename_i hret
        exact moveChecked_roomy hswap (fun c hc =>
          ⟨(hover c hc).1, (hover c hc).2.2⟩) hnamed.limit hlands.flags
          (fun h => by cases h) (fun hs c _ hc => absurd hc (hstack hs c)) (fun hs c hc => absurd hc (hstack hs c))
          (.inl (not_not.mp hret)) hrest
    · cases heq
      split at hrest
      · cases hrest
        exact h
      · have hd : { d with toItem := some y } = d := by rw [← hy]
        rw [hd] at hrest
        exact hplain (.inr hneed) hrest

end World
end ForgottenServer.Things
