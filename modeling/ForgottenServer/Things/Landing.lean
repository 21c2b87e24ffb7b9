import ForgottenServer.Things.Valid

/-! # Where a moved item lands

What `queryDestination` returns names an item that lies at the cylinder it
returns, and an index that cylinder can take. -/
namespace ForgottenServer.Things
namespace World
variable {rules : Rules} {w : World} {r : ℕ}

def isUnlocked (w : World) (c : ℕ) : Bool := ((w.item c).container.map Container.unlocked).getD false

/-- A stack of the container at the index takes some of `r`. -/
def StacksAt (rules : Rules) (w : World) (r c : ℕ) (d : Destination) : Prop :=
  w.isStackable rules r = true ∧ ∃ y, d.toItem = some y ∧ w.getItemByIndex c d.index = some y ∧ w.canStack r y = true

/-- The index is one the cylinder can take. -/
def FitsIndex (rules : Rules) (w : World) (r : ℕ) (d : Destination) : Prop :=
  match d.cylinder with
  | .container c => w.isUnlocked c = true → d.index < w.capacity c ∨ StacksAt rules w r c d
  | .player p => d.toItem = w.getInventoryItem p d.index
  | .tile _ => True

structure Lands (rules : Rules) (w : World) (r : ℕ) (d : Destination) : Prop where
  flags : d.flags.childIsOwner = false
  toItem : ∀ y, d.toItem = some y → y ∈ w.children d.cylinder
  index : FitsIndex rules w r d

/-- What the loop of `internalMoveItem` passes to `queryDestination`. -/
structure Asks (w : World) (d : Destination) : Prop where
  flags : d.flags.childIsOwner = false
  toItem : ∀ y, d.toItem = some y → y ∈ w.children d.cylinder
  player : ∀ p, d.cylinder = .player p → d.toItem = none

theorem mem_of_getItemByIndex {c y : ℕ} {index : ℤ} (h : w.getItemByIndex c index = some y) :
    y ∈ w.children (.container c) := by
  unfold getItemByIndex at h
  split at h
  · exact List.mem_of_getElem? h
  · cases h

theorem getItemByIndex_idxOf {c y : ℕ} (h : y ∈ w.itemlist c) :
    w.getItemByIndex c ((w.itemlist c).idxOf y : ℕ) = some y := by
  rw [getItemByIndex, if_pos (Int.natCast_nonneg _), Int.toNat_natCast]
  exact List.getElem?_idxOf h

theorem mem_of_getInventoryItem {p y : ℕ} {index : ℤ} (h : w.getInventoryItem p index = some y) :
    y ∈ w.children (.player p) := by
  unfold getInventoryItem at h
  split at h
  · rename_i hindex
    refine mem_children_player.mpr ⟨index.toNat, ?_, h⟩
    simp only [slots, List.mem_cons, List.not_mem_nil, or_false]
    omega
  · cases h

theorem lands_whereEver {c : ℕ} {flags : Flags} (hflags : flags.childIsOwner = false) :
    Lands rules w r { cylinder := .container c, index := whereEver, flags } where
  flags := hflags
  toItem _ hy := by cases hy
  index _ := .inl (by simp only [whereEver]; omega)

theorem stackDestination_lands {c : ℕ} {index : ℤ} {toItem : Option ℕ} {flags : Flags}
    (hflags : flags.childIsOwner = false) (hto : ∀ y, toItem = some y → y ∈ w.itemlist c)
    (hindex : index < w.capacity c) :
    (w.stackDestination rules c index toItem r flags).cylinder = .container c ∧
      Lands rules w r (w.stackDestination rules c index toItem r flags) := by
  have hthis : Lands rules w r { cylinder := .container c, index, toItem, flags } :=
    ⟨hflags, hto, fun _ => .inl hindex⟩
  unfold stackDestination
  dsimp only
  split
  · rename_i hstack
    split
    · exact ⟨rfl, hthis⟩
    · split
      · rename_i y hfind
        have hy : y ∈ w.itemlist c := List.mem_of_find?_eq_some hfind
        have hstacks := List.find?_some hfind
        refine ⟨rfl, hflags, fun z hz => ?_, fun _ => .inr ⟨?_, y, rfl, ?_, ?_⟩⟩
        · cases hz
          exact hy
        · simp only [Bool.and_eq_true] at hstack
          exact hstack.1.2
        · exact getItemByIndex_idxOf hy
        · simp only [decide_eq_true_eq] at hstacks
          exact hstacks.2
      · exact ⟨rfl, hthis⟩
  · exact ⟨rfl, hthis⟩

theorem containerQueryDestination_lands {c : ℕ} {index : ℤ} {toItem : Option ℕ} {flags : Flags}
    (hflags : flags.childIsOwner = false) (hto : ∀ y, toItem = some y → y ∈ w.itemlist c)
    {d : Destination} (hd : w.containerQueryDestination rules c index toItem r flags = d) :
    Lands rules w r d ∧ (d.cylinder = .container c ∨ ∃ e, d =
        { cylinder := .container e, index := whereEver, flags }) := by
  subst hd
  unfold containerQueryDestination
  dsimp only
  split
  · rename_i hlocked
    refine ⟨⟨hflags, nofun, fun h => ?_⟩, .inl rfl⟩
    simp [isUnlocked] at h hlocked
    simp [h] at hlocked
  split
  · split
    · exact ⟨lands_whereEver hflags, .inr ⟨_, rfl⟩⟩
    · exact ⟨lands_whereEver hflags, .inl rfl⟩
  split
  · have hsub : ∀ y, (if index = whereEver then toItem else none) = some y → y ∈ w.itemlist c := by
      intro y hy
      split at hy
      · exact hto y hy
      · cases hy
    have hindex : whereEver < (w.capacity c : ℤ) := by
      simp only [whereEver]
      omega
    exact ⟨(stackDestination_lands hflags hsub hindex).2, .inl (stackDestination_lands hflags hsub hindex).1⟩
  · rename_i hindex
    have hsub : ∀ y, (w.getItemByIndex c index).or toItem = some y → y ∈ w.itemlist c := by
      intro y hy
      cases hg : w.getItemByIndex c index with
      | none =>
        rw [hg] at hy
        exact hto y hy
      | some z =>
        rw [hg] at hy
        cases hy
        exact mem_of_getItemByIndex hg
    split
    · rename_i sub hsubcyl
      obtain ⟨y, -, hy⟩ := Option.bind_eq_some_iff.mp hsubcyl
      unfold toCylinder at hy
      split at hy
      · cases hy
        exact ⟨lands_whereEver hflags, .inr ⟨y, rfl⟩⟩
      · cases hy
    · have hindex : index < (w.capacity c : ℤ) := by omega
      exact ⟨(stackDestination_lands hflags hsub hindex).2, .inl (stackDestination_lands hflags hsub hindex).1⟩

/-! ## Players -/

theorem searchSlots_lands {p : ℕ} {flags : Flags} (hflags : flags.childIsOwner = false) {l containers : List ℕ}
    (hl : ∀ i ∈ l, i ∈ slots) {d : Destination} (h : w.searchSlots rules p r flags l containers = .inl d) :
    d.cylinder = .player p ∧ Lands rules w r d := by
  induction l generalizing containers with
  | nil => cases h
  | cons slot rest ih =>
    have hslot := hl slot (by simp)
    have hrest := fun i hi => hl i (List.mem_cons_of_mem slot hi)
    have hget : w.getInventoryItem p slot = (w.player p).inventory slot := by
      have hrange : (1 : ℤ) ≤ slot ∧ (slot : ℤ) ≤ 10 := by
        simp only [slots, List.mem_cons, List.not_mem_nil, or_false] at hslot
        omega
      rw [getInventoryItem, if_pos hrange, Int.toNat_natCast]
    unfold searchSlots at h
    split at h
    · rename_i hnone
      split at h
      · cases h
        refine ⟨rfl, hflags, (fun _ h => by cases h), ?_⟩
        exact (hget.trans hnone).symm
      · exact ih hrest h
    · rename_i y hy
      split at h
      · exact ih hrest h
      · split at h
        · cases h
          refine ⟨rfl, hflags, fun z hz => ?_, ?_⟩
          · cases hz
            exact mem_children_player.mpr ⟨slot, hslot, hy⟩
          · exact (hget.trans hy).symm
        · exact ih hrest h

theorem searchItems_asks {p c : ℕ} {flags : Flags} {l : List ℕ} {n : ℕ} {containers : List ℕ}
    (hl : ∀ y ∈ l, y ∈ w.itemlist c) {d : Destination} (h : w.searchItems p c r flags l n containers = .inl d) :
    d.cylinder = .container c ∧ d.flags = flags ∧ ∀ y, d.toItem = some y → y ∈ w.itemlist c := by
  induction l generalizing n containers with
  | nil => cases h
  | cons y rest ih =>
    have hrest := fun z hz => hl z (List.mem_cons_of_mem y hz)
    unfold searchItems at h
    split at h
    · exact ih hrest h
    · split at h
      · cases h
        refine ⟨rfl, rfl, fun z hz => ?_⟩
        cases hz
        exact hl y (by simp)
      · exact ih hrest h

theorem searchContainers_asks {p : ℕ} {flags : Flags} {fuel : ℕ} {l : List ℕ} {d : Destination}
    (h : w.searchContainers rules p r flags fuel l = some d) :
    ∃ c, d.cylinder = .container c ∧ d.flags = flags ∧ ∀ y, d.toItem = some y → y ∈ w.itemlist c := by
  induction fuel generalizing l with
  | zero => cases h
  | succ fuel ih =>
    cases l with
    | nil => cases h
    | cons c l =>
      unfold searchContainers at h
      split at h
      · split at h
        · cases h
          exact ⟨c, rfl, rfl, nofun⟩
        · exact ih h
      · split at h
        · rename_i d' hitems
          cases h
          exact ⟨c, searchItems_asks (fun _ hy => hy) hitems⟩
        · split at h
          · cases h
            exact ⟨c, rfl, rfl, nofun⟩
          · exact ih h

theorem playerQueryDestination_lands {p : ℕ} {index : ℤ} {flags : Flags} (hflags : flags.childIsOwner = false)
    {d : Destination} (hd : w.playerQueryDestination rules p index none r flags = d) :
    d.cylinder = .player p ∧ Lands rules w r d ∨
      ∃ c, d.cylinder = .container c ∧ d.flags = flags ∧ ∀ y, d.toItem = some y → y ∈ w.itemlist c := by
  unfold playerQueryDestination at hd
  dsimp only at hd
  split at hd
  · rename_i hindex
    split at hd
    · rename_i d' hslots
      subst hd
      exact .inl (searchSlots_lands hflags (fun _ hi => hi) hslots)
    · rename_i containers hslots
      cases hfind : w.searchContainers rules p r flags w.depth containers with
      | some d' =>
        rw [hfind] at hd
        subst hd
        exact .inr (searchContainers_asks hfind)
      | none =>
        rw [hfind] at hd
        subst hd
        refine .inl ⟨rfl, hflags, nofun, ?_⟩
        show none = w.getInventoryItem p index
        rw [getInventoryItem, if_neg (by simp only [whereEver] at hindex; omega)]
  · split at hd
    · rename_i sub hsub
      obtain ⟨y, -, hy⟩ := Option.bind_eq_some_iff.mp hsub
      unfold toCylinder at hy
      split at hy
      · cases hy
        subst hd
        exact .inr ⟨y, rfl, rfl, nofun⟩
      · cases hy
    · subst hd
      refine .inl ⟨rfl, hflags, fun y hy => ?_, ?_⟩
      · exact mem_of_getInventoryItem (by simpa using hy)
      · show (w.getInventoryItem p index).or none = w.getInventoryItem p index
        simp

/-! ## The loop -/

theorem tileQueryDestination_lands {t : ℕ} {index : ℤ} {flags : Flags} (hflags : flags.childIsOwner = false)
    {d : Destination} (hd : w.tileQueryDestination t index flags = d) :
    (∃ t', d.cylinder = .tile t') ∧ Lands rules w r d := by
  subst hd
  have hhead : ∀ {t' y : ℕ}, (w.tile t').downItems.head? = some y → y ∈ w.children (.tile t') := fun h =>
    mem_children_tile.mpr (.inr (.inr (List.mem_of_mem_head? h)))
  unfold tileQueryDestination
  split
  · exact ⟨⟨t, rfl⟩, hflags, fun y hy => hhead hy, trivial⟩
  · rename_i t' _
    exact ⟨⟨t', rfl⟩, hflags, fun y hy => hhead hy, trivial⟩

theorem Lands.reset {d : Destination} (h : Lands rules w r d) : Lands rules w r { d with flags := {} } :=
  ⟨rfl, h.toItem, h.index⟩

theorem queryDestination_step {d d' : Destination} (h : Asks w d) (hd : w.queryDestination rules r d = d') :
    (d'.cylinder = d.cylinder → Lands rules w r d') ∧
      (d'.cylinder ≠ d.cylinder → Asks w { d' with flags := {} } ∧ (∀ p, d'.cylinder ≠ .player p) ∧
        ((∀ p, d.cylinder ≠ .player p) → Lands rules w r { d' with flags := {} })) := by
  have hask : Lands rules w r d' → (∀ p, d'.cylinder ≠ .player p) → Asks w { d' with flags := {} } :=
    fun hlands hp => ⟨rfl, hlands.toItem, fun p hcyl => absurd hcyl (hp p)⟩
  obtain ⟨c, index, toItem, flags⟩ := d
  cases c with
  | container c =>
    obtain ⟨hlands, hnext⟩ := containerQueryDestination_lands h.flags h.toItem hd
    have hp : ∀ p, d'.cylinder ≠ .player p := by
      rcases hnext with hc | ⟨e, rfl⟩
      · rw [hc]
        exact nofun
      · exact nofun
    exact ⟨fun _ => hlands, fun _ => ⟨hask hlands hp, hp, fun _ => hlands.reset⟩⟩
  | player p =>
    have htoItem : toItem = none := h.player p rfl
    change w.playerQueryDestination rules p index toItem r flags = d' at hd
    rw [htoItem] at hd
    rcases playerQueryDestination_lands h.flags hd with ⟨hc, hlands⟩ | ⟨c, hc, -, hto⟩
    · exact ⟨fun _ => hlands, fun hne => absurd hc hne⟩
    · refine ⟨fun heq => ?_, fun _ => ⟨⟨rfl, ?_, fun q hq => ?_⟩, fun q hq => ?_, fun hno => absurd rfl (hno p)⟩⟩
      · rw [hc] at heq
        cases heq
      · intro y hy
        show y ∈ w.children d'.cylinder
        rw [hc]
        exact hto y hy
      · cases hc.symm.trans hq
      · cases hc.symm.trans hq
  | tile t =>
    have htile : (∃ t', d'.cylinder = .tile t') ∧ Lands rules w r d' :=
      tileQueryDestination_lands h.flags hd
    obtain ⟨⟨t', ht⟩, hlands⟩ := htile
    have hp : ∀ p, d'.cylinder ≠ .player p := by
      rw [ht]
      exact nofun
    exact ⟨fun _ => hlands, fun _ => ⟨hask hlands hp, hp, fun _ => hlands.reset⟩⟩

theorem findDestination_lands {fuel : ℕ} {d : Destination} (h : Asks w d) (hzero : fuel = 0 → Lands rules w r d)
    (hone : fuel = 1 → ∀ p, d.cylinder ≠ .player p) : Lands rules w r (w.findDestination rules r fuel d) := by
  induction fuel generalizing d with
  | zero => exact hzero rfl
  | succ fuel ih =>
    obtain ⟨hself, hother⟩ := queryDestination_step h (rfl : w.queryDestination rules r d = _)
    unfold findDestination
    dsimp only
    split
    · rename_i hc
      exact hself hc
    · rename_i hc
      obtain ⟨hasks, hp, hlands⟩ := hother hc
      exact ih hasks (fun hz => hlands (hone (by rw [hz]))) fun _ => hp

theorem destination_lands {q : Request} (hflags : q.flags.childIsOwner = false) :
    Lands rules w q.item (w.destination rules q) := by
  refine findDestination_lands ⟨hflags, nofun, fun _ _ => rfl⟩ ?_ ?_
  · exact fun h => absurd h (by decide)
  · exact fun h => absurd h (by decide)

/-! ## What the answers mean -/

/-- The item can be added, be it in exchange for another. -/
def Accepts (ret : ReturnValue) : Prop := ret = .noError ∨ ret = .needExchange

section Answers
variable {index : ℤ} {count : ℕ} {flags : Flags} {actor : Bool}

theorem plainQueryAdd_locked {c : ℕ} (hflags : flags.childIsOwner = false) (h : w.isUnlocked c = false) :
    w.plainQueryAdd rules c index r count flags actor = .notPossible := by
  unfold plainQueryAdd
  dsimp only
  rw [if_neg (by simp [hflags])]
  exact if_pos (by simpa [isUnlocked] using h)

/-- A container that accepts an item is not locked, unless limits are ignored. -/
theorem unlocked_of_accepts {c : ℕ}
    (hstore : ∀ x k, (w.item x).container = some k → k.kind = .storeInbox → k.unlocked = true)
    (hflags : flags.childIsOwner = false) (h : Accepts (w.containerQueryAdd rules c index r count flags actor)) :
    (w.item c).container.isSome = true ∧ (flags.noLimit = false → w.isUnlocked c = true) := by
  have hplain : Accepts (w.plainQueryAdd rules c index r count flags actor) →
      (w.item c).container.isSome = true ∧ (flags.noLimit = false → w.isUnlocked c = true) := by
    intro h
    cases hlock : w.isUnlocked c with
    | true =>
      refine ⟨?_, fun _ => rfl⟩
      cases hc : (w.item c).container with
      | some _ => rfl
      | none => simp [isUnlocked, hc] at hlock
    | false =>
      rw [plainQueryAdd_locked hflags hlock] at h
      rcases h with h | h <;> cases h
  have hsome : ∀ {k : ContainerKind}, w.kind c = some k → (w.item c).container.isSome = true := fun hk => by
    obtain ⟨x, hx, -⟩ := Option.map_eq_some_iff.mp hk
    simp [hx]
  unfold containerQueryAdd at h
  split at h
  · split at h
    · rcases h with h | h <;> cases h
    · exact hplain h
  · rcases h with h | h <;> cases h
  · rename_i hkind
    refine ⟨hsome hkind, fun hlimit => ?_⟩
    rw [inboxQueryAdd, if_pos (by simp [hlimit])] at h
    rcases h with h | h <;> cases h
  · rename_i hkind
    refine ⟨hsome hkind, fun _ => ?_⟩
    obtain ⟨x, hx, hk⟩ := Option.map_eq_some_iff.mp hkind
    simp [isUnlocked, hx, hstore c x hx hk]
  · exact hplain h
  · exact hplain h

theorem size_of_accepts {t : ℕ} (h : Accepts (w.tileQueryAdd rules t r flags actor)) :
    ((w.tile t).topItems ++ (w.tile t).downItems).length < 0xFFFF := by
  by_contra hsize
  unfold tileQueryAdd at h
  dsimp only at h
  split at h
  · rcases h with h | h <;> cases h
  · split at h
    · rcases h with h | h <;> cases h
    · rw [if_pos (not_lt.mp hsize)] at h
      rcases h with h | h <;> cases h

/-! The only exchanges are for what hangs on a wall and for what is worn. -/

theorem wrongSlot_ne (s : SlotPosition) : wrongSlot rules s ≠ .needExchange := by
  unfold wrongSlot
  repeat' split
  all_goals exact nofun

theorem otherHand_ne (y : ℕ) : w.otherHand rules r count y ≠ .needExchange := by
  unfold otherHand
  dsimp only
  repeat' split
  all_goals exact nofun

theorem rightHand_ne (p : ℕ) : w.rightHand rules p r count ≠ .needExchange := by
  unfold rightHand
  dsimp only
  repeat' split
  all_goals first
    | exact otherHand_ne _
    | exact nofun

theorem leftHand_ne (p : ℕ) : w.leftHand rules p r count ≠ .needExchange := by
  unfold leftHand
  dsimp only
  repeat' split
  all_goals first
    | exact otherHand_ne _
    | exact nofun

theorem slotAnswer_ne (p : ℕ) : w.slotAnswer rules p index r count ≠ .needExchange := by
  unfold slotAnswer
  dsimp only
  repeat' split
  all_goals first
    | exact wrongSlot_ne _
    | exact rightHand_ne p
    | exact leftHand_ne p
    | exact nofun

theorem tileQueryAdd_needExchange {t : ℕ} (h : w.tileQueryAdd rules t r flags actor = .needExchange) :
    (w.type rules r).isHangable = true := by
  by_contra hhang
  unfold tileQueryAdd at h
  dsimp only at h
  repeat' split at h
  all_goals first
    | exact hhang (And.left ‹_ ∧ _›)
    | cases h

theorem playerQueryAdd_needExchange {p : ℕ} (h : w.playerQueryAdd rules p index r count flags = .needExchange) :
    ∃ y, w.getInventoryItem p index = some y ∧ (w.isStackable rules y = false ∨ (w.item y).id ≠ (w.item r).id) := by
  unfold playerQueryAdd at h
  split at h
  · split at h <;> cases h
  split at h
  · cases h
  split at h
  · cases h
  dsimp only at h
  split at h
  · exact absurd h (slotAnswer_ne p)
  split at h
  · cases h
  split at h
  · cases h
  split at h
  · rename_i y hy
    split at h
    · rename_i hex
      exact ⟨y, hy, by simpa using hex⟩
    · cases h
  · cases h

theorem queryAdd_needExchange {c : Cylinder} (h : w.queryAdd rules c index r count flags actor = .needExchange) :
    (w.type rules r).isHangable = true ∨ ∃ p y, c = .player p ∧ w.getInventoryItem p index = some y ∧
      (w.isStackable rules y = false ∨ (w.item y).id ≠ (w.item r).id) := by
  have howner : ∀ {owner : Cylinder}, w.ownerQueryAdd rules owner r count flags actor = .needExchange →
      (w.type rules r).isHangable = true := by
    intro owner h
    unfold ownerQueryAdd at h
    dsimp only at h
    split at h
    · rw [playerQueryAdd, if_pos rfl] at h
      split at h <;> cases h
    · exact tileQueryAdd_needExchange h
    · split at h
      · split at h <;> cases h
      · cases h
      · rw [inboxQueryAdd] at h
        repeat' split at h
        all_goals cases h
      · rw [storeInboxQueryAdd] at h
        repeat' split at h
        all_goals cases h
      · cases h
      · cases h
  have hplain : ∀ {c : ℕ}, w.plainQueryAdd rules c index r count flags actor = .needExchange →
      (w.type rules r).isHangable = true := by
    intro c h
    unfold plainQueryAdd at h
    dsimp only at h
    repeat' split at h
    all_goals first
      | exact howner h
      | cases h
  cases c with
  | player p =>
    obtain ⟨y, hy⟩ := playerQueryAdd_needExchange h
    exact .inr ⟨p, y, rfl, hy⟩
  | tile t => exact .inl (tileQueryAdd_needExchange h)
  | container c =>
    left
    change w.containerQueryAdd rules c index r count flags actor = .needExchange at h
    unfold containerQueryAdd at h
    split at h
    · split at h
      · cases h
      · exact hplain h
    · cases h
    · rw [inboxQueryAdd] at h
      repeat' split at h
      all_goals cases h
    · rw [storeInboxQueryAdd] at h
      repeat' split at h
      all_goals cases h
    · exact hplain h
    · exact hplain h

/-- A slot that is taken has room for the same kind of stack only. -/
theorem playerQueryAdd_taken {p y : ℕ} (hflags : flags.childIsOwner = false)
    (h : w.playerQueryAdd rules p index r count flags = .noError) (hy : w.getInventoryItem p index = some y) :
    w.isStackable rules y = true ∧ (w.item y).id = (w.item r).id := by
  unfold playerQueryAdd at h
  rw [if_neg (by simp [hflags])] at h
  split at h
  · cases h
  split at h
  · cases h
  dsimp only at h
  split at h
  · rename_i hret
    exact absurd h hret.1
  split at h
  · cases h
  split at h
  · cases h
  rw [hy] at h
  dsimp only at h
  split at h
  · split at h <;> cases h
  · rename_i hsame
    simpa using hsame

/-! How much fits at an index that is taken. -/

theorem equals_comm (x y : Item) : x.equals y = y.equals x := by
  simp only [Item.equals, eq_comm]

theorem playerQueryMaxCount_taken {p y : ℕ} (hindex : 1 ≤ index) (hy : w.getInventoryItem p index = some y) :
    w.playerQueryMaxCount rules p index r count flags =
      let n := if w.isStackable rules y ∧ (w.item r).equals (w.item y) ∧ (w.item y).count < 100 then
        100 - (w.item y).count else 0
      (if n < count then .notEnoughRoom else .noError, n) := by
  unfold playerQueryMaxCount
  rw [if_neg (by simp only [whereEver]; omega)]
  simp only [hy]

theorem containerQueryMaxCount_past {c y : ℕ} (count : ℕ) (hlimit : flags.noLimit = false)
    (hstack : w.isStackable rules r = true) (hindex : w.capacity c ≤ index) (hy : w.getItemByIndex c index = some y) :
    (w.containerQueryMaxCount rules c index r count flags).2 ≤ 100 - (w.item y).count := by
  have hrange : 0 ≤ index ∧ index.toNat < w.size c := by
    unfold getItemByIndex at hy
    split at hy
    · rename_i hpos
      exact ⟨hpos, (List.getElem?_eq_some_iff.mp hy).1⟩
    · cases hy
  have hfree : w.capacity c - w.size c = 0 := by omega
  have hne : index ≠ whereEver := by
    simp only [whereEver]
    omega
  unfold containerQueryMaxCount
  rw [if_neg (by simp [hlimit])]
  simp only [if_pos hstack, if_neg hne, hy, hfree]
  split <;> omega

/-- The place where the item lands, as far as it has a limit of its own. -/
def hasPlace (w : World) (d : Destination) : Bool :=
  match d.cylinder with
  | .container c => !d.flags.noLimit || d.index < w.capacity c
  | .player _ => 1 ≤ d.index && d.index ≤ 10
  | .tile _ => true

/-- What passed the checks finds room, or merges with the stack that is there. -/
theorem room_of_checks {d : Destination} (hvalid : Valid rules w) (hlands : Lands rules w r d)
    (hadd : Accepts (w.queryAdd rules d.cylinder d.index r count d.flags actor))
    (hmax : ¬ ((w.queryMaxCount rules d.cylinder d.index r count d.flags).1 ≠ .noError ∧
      (w.queryMaxCount rules d.cylinder d.index r count d.flags).2 = 0))
    (hcount : 1 ≤ count) (hplace : w.hasPlace d = true) :
    HasRoom w d.cylinder d.index ∨ w.isStackable rules r = true ∧ ∃ y, d.toItem = some y ∧
      (w.item r).equals (w.item y) = true ∧
        w.movedCount rules r count (w.queryMaxCount rules d.cylinder d.index r count d.flags).2 ≤
          100 - (w.item y).count := by
  obtain ⟨hflags, -, hindex⟩ := hlands
  obtain ⟨c, index, toItem, flags⟩ := d
  cases c with
  | container c =>
    obtain ⟨hsome, hopen⟩ := unlocked_of_accepts hvalid.storeInbox hflags hadd
    by_cases hfits : index < w.capacity c
    · exact .inl ⟨hsome, hfits⟩
    · have hlimit : flags.noLimit = false := by simpa [hasPlace, hfits] using hplace
      obtain hfits' | ⟨hstack, y, hto, hy, hcan⟩ := hindex (hopen hlimit)
      · exact absurd hfits' hfits
      · have hpast := containerQueryMaxCount_past count hlimit hstack (not_lt.mp hfits) hy
        simp only [canStack, Bool.and_eq_true] at hcan
        refine .inr ⟨hstack, y, hto, equals_comm _ _ ▸ hcan.1, ?_⟩
        rw [movedCount, if_pos hstack]
        exact (min_le_right _ _).trans hpast
  | player p =>
    have hslot : 1 ≤ index ∧ index ≤ 10 := by simpa [hasPlace] using hplace
    have hget : w.getInventoryItem p index = (w.player p).inventory index.toNat := if_pos hslot
    cases hy : (w.player p).inventory index.toNat with
    | none => exact .inl ⟨hslot.1, hslot.2, hy⟩
    | some y =>
      rw [hy] at hget
      change ¬ ((w.playerQueryMaxCount rules p index r count flags).1 ≠ .noError ∧
        (w.playerQueryMaxCount rules p index r count flags).2 = 0) at hmax
      rw [playerQueryMaxCount_taken hslot.1 hget] at hmax
      by_cases hsame : w.isStackable rules y ∧ (w.item r).equals (w.item y) ∧ (w.item y).count < 100
      · have hid : (w.item r).id = (w.item y).id := by
          have := hsame.2.1
          simp only [Item.equals, Bool.and_eq_true, decide_eq_true_eq] at this
          exact this.1
        have hstack : w.isStackable rules r = true := by
          rw [isStackable, type, hid]
          exact hsame.1
        refine .inr ⟨hstack, y, (show toItem = _ from hindex).trans hget, hsame.2.1, ?_⟩
        change w.movedCount rules r count (w.playerQueryMaxCount rules p index r count flags).2 ≤ _
        rw [playerQueryMaxCount_taken hslot.1 hget, movedCount, if_pos hstack]
        simp only [if_pos hsame]
        exact min_le_right _ _
      · simp only [if_neg hsame] at hmax
        rw [if_pos (by omega)] at hmax
        exact absurd ⟨by decide, trivial⟩ hmax
  | tile t => exact .inl (size_of_accepts hadd)

end Answers

end World
end ForgottenServer.Things
