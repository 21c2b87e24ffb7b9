import ForgottenServer.Things.Putting

/-! # Adding loses nothing

`internalAddItem` chooses the place by `queryDestination` and the amount by
`queryMaxCount`. What it reports as added is there exactly when, in each of its
rounds, the place that was chosen takes the item. -/
namespace ForgottenServer.Things
open ForgottenServer.Lib.Forest
namespace World
variable {rules : Rules} {w w' : World} {r : ℕ}

/-! ## The places that are chosen -/

/-- The cylinder is one of `S` or lies below them. -/
def Reached (w : World) (S : Set Cylinder) (c : Cylinder) : Prop :=
  c ∈ S ∨ ∃ y, c = .container y ∧ w.IsBelow S y

theorem isBelow_reached {S : Set Cylinder} {c : Cylinder} (h : Reached w S c) (x : ℕ) :
    w.IsBelow (insert c S) x ↔ w.IsBelow S x := by
  rcases h with hc | ⟨y, rfl, hy⟩
  · rw [Set.insert_eq_of_mem hc]
  · exact below_widen hy

theorem units_reached {S : Set Cylinder} {c : Cylinder} (h : Reached w S c) (id : ℕ) :
    w.units rules (insert c S) id = w.units rules S id :=
  total_congr (fun x _ => isBelow_reached h x) fun _ _ => rfl

theorem Reached.lists {S : Set Cylinder} {c : Cylinder} (h : Reached w S c) (h' : SameLists w w') :
    Reached w' S c := by
  rcases h with hc | ⟨y, rfl, hy⟩
  · exact .inl hc
  · exact .inr ⟨y, rfl, (isBelow_of_lists h' y).mpr hy⟩

section Search
variable {p : ℕ} {flags : Flags}

theorem searchSlots_worn {l containers found : List ℕ} (hl : ∀ i ∈ l, i ∈ slots)
    (hc : ∀ c ∈ containers, c ∈ w.children (.player p)) (h : w.searchSlots rules p r flags l containers = .inr found) :
    ∀ c ∈ found, c ∈ w.children (.player p) := by
  induction l generalizing containers with
  | nil =>
    cases h
    exact hc
  | cons slot rest ih =>
    have hrest := fun i hi => hl i (List.mem_cons_of_mem slot hi)
    unfold searchSlots at h
    split at h
    · split at h
      · cases h
      · exact ih hrest hc h
    · rename_i y hy
      split at h
      · exact ih hrest hc h
      · split at h
        · cases h
        · refine ih hrest ?_ h
          intro c hmem
          rcases List.mem_append.mp hmem with hmem | hmem
          · exact hc c hmem
          · split at hmem
            · rw [List.mem_singleton.mp hmem]
              exact mem_children_player.mpr ⟨slot, hl slot (by simp), hy⟩
            · cases hmem

theorem searchItems_sub {c n m : ℕ} {l containers found : List ℕ}
    (h : w.searchItems p c r flags l n containers = .inr (m, found)) : ∀ x ∈ found, x ∈ containers ∨ x ∈ l := by
  induction l generalizing n containers with
  | nil =>
    cases h
    exact fun x hx => .inl hx
  | cons y rest ih =>
    unfold searchItems at h
    split at h
    · exact fun x hx => (ih h x hx).imp_right (List.mem_cons_of_mem y)
    · split at h
      · cases h
      · intro x hx
        rcases ih h x hx with hx | hx
        · rcases List.mem_append.mp hx with hx | hx
          · exact .inl hx
          · split at hx
            · rw [List.mem_singleton.mp hx]
              exact .inr List.mem_cons_self
            · cases hx
        · exact .inr (List.mem_cons_of_mem y hx)

theorem searchContainers_reached {fuel : ℕ} {l : List ℕ} {d : Destination} (hl : ∀ c ∈ l, w.IsBelow {.player p} c)
    (h : w.searchContainers rules p r flags fuel l = some d) : Reached w {.player p} d.cylinder := by
  induction fuel generalizing l with
  | zero => cases h
  | succ fuel ih =>
    cases l with
    | nil => cases h
    | cons c l =>
      have hc := hl c (by simp)
      have hnext : ∀ sub : List ℕ, (∀ x ∈ sub, x ∈ w.itemlist c) → ∀ x ∈ l ++ sub, w.IsBelow {.player p} x := by
        intro sub hsub x hx
        rcases List.mem_append.mp hx with hx | hx
        · exact hl x (List.mem_cons_of_mem c hx)
        · exact .inside hc (hsub x hx)
      unfold searchContainers at h
      split at h
      · split at h
        · cases h
          exact .inr ⟨c, rfl, hc⟩
        · exact ih (hnext _ fun x hx => List.mem_of_mem_filter hx) h
      · split at h
        · rename_i d' hitems
          cases h
          exact .inr ⟨c, (searchItems_asks (fun _ hy => hy) hitems).1, hc⟩
        · rename_i n found hitems
          split at h
          · cases h
            exact .inr ⟨c, rfl, hc⟩
          · refine ih (hnext _ fun x hx => ?_) h
            exact (searchItems_sub hitems x hx).resolve_left (by simp)

theorem playerQueryDestination_reached (index : ℤ) (hflags : flags.childIsOwner = false) :
    Reached w {.player p} (w.playerQueryDestination rules p index none r flags).cylinder := by
  have hself : Reached w {.player p} (.player p) := .inl rfl
  unfold playerQueryDestination
  dsimp only
  split
  · split
    · rename_i d hslots
      exact .inl (searchSlots_lands hflags (fun _ hi => hi) hslots).1
    · rename_i containers hslots
      cases hfind : w.searchContainers rules p r flags w.depth containers with
      | none => exact hself
      | some d =>
        refine searchContainers_reached (fun c hc => ?_) hfind
        exact .root rfl (searchSlots_worn (fun _ hi => hi) (by simp) hslots c hc)
  · split
    · rename_i sub hsub
      obtain ⟨y, hy, hcyl⟩ := Option.bind_eq_some_iff.mp hsub
      unfold toCylinder at hcyl
      split at hcyl
      · cases hcyl
        exact .inr ⟨y, rfl, .root rfl (mem_of_getInventoryItem (by simpa using hy))⟩
      · cases hcyl
    · exact hself

end Search

theorem placeOf_spec {c : Cylinder} {index : ℤ} {flags : Flags} (hflags : flags.childIsOwner = false) :
    (w.placeOf rules c r index flags).flags.childIsOwner = false ∧
      ∀ y, (w.placeOf rules c r index flags).toItem = some y →
        y ∈ w.children (w.placeOf rules c r index flags).cylinder := by
  cases c with
  | container c =>
    obtain ⟨h, -⟩ := @containerQueryDestination_lands rules w r c index none flags hflags nofun _ rfl
    exact ⟨h.flags, h.toItem⟩
  | player p =>
    rcases @playerQueryDestination_lands rules w r p index flags hflags _ rfl with ⟨-, h⟩ |
      ⟨d, hd, hf, hto⟩
    · exact ⟨h.flags, h.toItem⟩
    · refine ⟨(congrArg Flags.childIsOwner hf).trans hflags, fun y hy => ?_⟩
      show y ∈ w.children (w.playerQueryDestination rules p index none r flags).cylinder
      rw [hd]
      exact hto y hy
  | tile t =>
    have h : Lands rules w r (w.tileQueryDestination t index flags) :=
      (tileQueryDestination_lands hflags rfl).2
    exact ⟨h.flags, h.toItem⟩

theorem containerQueryDestination_whereEver {c : ℕ} {flags : Flags} :
    (w.containerQueryDestination rules c whereEver none r flags).cylinder = .container c := by
  unfold containerQueryDestination
  dsimp only
  split
  · rfl
  rw [if_neg (by decide), if_pos (.inr (.inr rfl))]
  unfold stackDestination
  dsimp only
  repeat' split
  all_goals rfl

theorem placeOf_rest {S : Set Cylinder} {c : Cylinder} {index : ℤ} {flags flags' : Flags} {r' : ℕ} (hc : c ∈ S)
    (h : Reached w S (w.placeOf rules c r index flags).cylinder) (hflags : flags'.childIsOwner = false)
    (htile : w'.tile = w.tile) : Reached w' S (w'.placeOf rules c r' whereEver flags').cylinder := by
  cases c with
  | container c =>
    left
    show (w'.containerQueryDestination rules c whereEver none r' flags').cylinder ∈ S
    rw [containerQueryDestination_whereEver]
    exact hc
  | player p =>
    rcases @playerQueryDestination_reached rules w' r' p flags' whereEver hflags with hp |
      ⟨y, hy, hbelow⟩
    · left
      show (w'.playerQueryDestination rules p whereEver none r' flags').cylinder ∈ S
      rw [Set.mem_singleton_iff.mp hp]
      exact hc
    · refine .inr ⟨y, hy, ?_⟩
      have hsub : ∀ x, w'.IsBelow {.player p} x → w'.IsBelow S x := by
        intro x hx
        induction hx with
        | root hc' hx => exact .root (Set.mem_singleton_iff.mp hc' ▸ hc) hx
        | inside _ hx ih => exact .inside ih hx
      exact hsub y hbelow
  | tile t =>
    have hsame : (w'.tileQueryDestination t whereEver flags').cylinder =
        (w.tileQueryDestination t index flags).cylinder := by
      unfold tileQueryDestination
      rw [htile]
      split <;> rfl
    rcases h with h | ⟨y, hy, -⟩
    · exact .inl (hsame ▸ h)
    · change (w.tileQueryDestination t index flags).cylinder = _ at hy
      unfold tileQueryDestination at hy
      split at hy <;> cases hy

/-! ## The rounds -/

/-- In every round the place that `queryDestination` names, in the state before
the round, takes what is put there: the item itself, or the rest when the stack
it goes to is filled up. `strict` asks that the rest is not refused either. -/
def settles (rules : Rules) : ℕ → Bool → World → Cylinder → ℕ → ℤ → Flags → Bool
  | 0, _, _, _, _, _, _ => false
  | fuel + 1, strict, w, destCylinder, r, index, flags =>
    let d := w.placeOf rules destCylinder r index flags
    match w.mergesWith rules d r with
    | none => w.takes rules d r
    | some y =>
      let free := 100 - (w.item y).count
      if (w.item r).count ≤ free then true
      else if free = 0 then w.takes rules d r
      else ((w.merge rules d.cylinder (some y) free).cloneItem rules r ((w.item r).count - free)).all fun w' =>
        let next := w'.placeOf rules destCylinder w.next whereEver d.flags
        if (w'.checkPlace rules destCylinder next w.next).1 = .noError then
          settles rules fuel true w' destCylinder w.next whereEver d.flags
        else !strict

theorem checkPlace_noError {c : Cylinder} {d : Destination} {n : ℕ} (h : w.checkPlace rules c d r = (.noError, n)) :
    w.queryAdd rules d.cylinder d.index r (w.item r).count d.flags false = .noError ∧
      (w.isStackable rules r = true → (w.item r).count ≤ n) := by
  unfold checkPlace at h
  dsimp only at h
  split at h
  · rename_i hret
    exact absurd (congrArg Prod.fst h) hret
  · rename_i hret
    refine ⟨not_not.mp hret, fun hstack => ?_⟩
    cases c with
    | container c =>
      change w.containerQueryMaxCount rules c whereEver r (w.item r).count d.flags = _ at h
      unfold containerQueryMaxCount at h
      split at h
      · cases h
        exact le_max_right _ _
      · dsimp only at h
        obtain ⟨hfst, rfl⟩ := Prod.mk.inj h
        by_contra hless
        rw [if_pos (not_le.mp hless)] at hfst
        cases hfst
    | player p =>
      change w.playerQueryMaxCount rules p whereEver r (w.item r).count d.flags = _ at h
      unfold playerQueryMaxCount at h
      rw [if_pos rfl] at h
      obtain ⟨hfst, rfl⟩ := Prod.mk.inj h
      by_contra hless
      rw [if_pos (not_le.mp hless)] at hfst
      cases hfst
    | tile t =>
      cases h
      exact le_max_right _ _

theorem Alike.beginDecay (x : ℕ) : Alike w (w.beginDecay x) := by
  unfold World.beginDecay
  refine .of_setItem ?_ ?_ rfl
  · simp only [Item.lift]
    split <;> simp [Decay.Item.setDecaying, Decay.Item.setAttr]
  · simp only [Item.lift]
    split <;> simp [Decay.Item.setDecaying, Decay.Item.setAttr]

theorem Alike.afterMerge (d : Destination) (y : ℕ) : Alike w (w.afterMerge rules d y) := by
  unfold World.afterMerge
  split
  · exact .notify _
  · exact .same w

theorem Tidy.recounted {y n : ℕ} (h : Tidy rules w) (h' : Recounted w w' y n) (hn : n ≤ 100) (hpos : 1 ≤ n) :
    Tidy rules w' where
  toValid := h.toValid.recounted h' hn
  stacked c x hx hstack := by
    rw [h'.children] at hx
    rw [isStackable_of_id h'.id] at hstack
    rw [h'.count]
    split
    · exact hpos
    · exact h.stacked c x hx hstack
  plain x hx := container_none (h'.plate x) (h.plain x (replaces_of_id (h'.id x) ▸ hx))
  floor t g hg := container_none (h'.plate g) (h.floor t g (h'.tile ▸ hg))
  field x hx := by
    have htype : w'.type rules x = w.type rules x := by rw [type, type, h'.id]
    rw [isMagicField, htype] at hx
    rw [isStackable, htype]
    exact h.field x hx

theorem Tidy.created {n : ℕ} (h : Tidy rules w) (h' : Created w w' n) (hn : n ≤ 100)
    (hfield : w'.isMagicField rules w.next = true →
      w'.isStackable rules w.next = false ∧ (w'.type rules w.next).alwaysOnTop = false) :
    Tidy rules w' where
  toValid := h.toValid.created h' hn
  stacked c y hy hstack := by
    rw [h'.children h.toValid] at hy
    have hne := (h.known c y hy).ne
    rw [h'.isStackable hne] at hstack
    rw [h'.others y hne]
    exact h.stacked c y hy hstack
  plain y hy := by
    by_cases hne : y = w.next
    · rw [hne]
      exact h'.container
    · have hid : (w'.item y).id = (w.item y).id := by rw [h'.others y hne]
      rw [h'.others y hne]
      exact h.plain y (replaces_of_id hid ▸ hy)
  floor t g hg := by
    rw [h'.tile] at hg
    have hmem : g ∈ w.children (.tile t) := mem_children_tile.mpr (.inl hg)
    rw [h'.others g (h.known _ g hmem).ne]
    exact h.floor t g hg
  field y hy := by
    by_cases hne : y = w.next
    · rw [hne] at hy ⊢
      exact hfield hy
    · have htype : w'.type rules y = w.type rules y := by rw [type, type, h'.others y hne]
      rw [isMagicField, htype] at hy
      rw [isStackable, htype]
      exact h.field y hy

theorem Tidy.cloned {x n : ℕ} (h : Tidy rules w) (h' : Cloned w w' x n) (hn : n ≤ 100) : Tidy rules w' := by
  have htype : w'.type rules w.next = w.type rules x := by rw [type, type, h'.id]
  refine h.created h'.toCreated hn fun hy => ?_
  rw [isMagicField, htype] at hy
  rw [isStackable, htype]
  exact h.field x hy

section Rounds
variable {S : Set Cylinder} {c : Cylinder} {index : ℤ} {flags : Flags}

/-- Putting an item below the cylinders gains its units exactly when the place takes it. -/
theorem putThing_gains_below {d : Destination} (hsane : rules.Sane) (htidy : Tidy rules w)
    (hloose : ∀ c, r ∉ w.children c) (hr : r < w.next) (hone : 1 ≤ w.amount rules (w.item r).id r)
    (hapart : Apart w S r) (hreach : Reached w S d.cylinder) (hopen : IsOpen rules w d r) :
    (w.putThing rules d r).units rules S (w.item r).id =
        w.units rules S (w.item r).id + w.grown rules (w.item r).id r ↔
      w.takes rules d r = true := by
  have hapart' : Apart w (insert d.cylinder S) r :=
    fun x hx => hapart x ((isBelow_reached hreach x).mp hx)
  have hreach' : Reached (w.putThing rules d r) S d.cylinder := by
    rcases hreach with hc | ⟨y, hy, hbelow⟩
    · exact .inl hc
    refine .inr ⟨y, hy, ?_⟩
    obtain ⟨hdrop, hput⟩ := putThing_put hsane htidy hloose hopen
    cases hd : w.drops rules d r with
    | true => exact (isBelow_of_lists (hdrop hd).toSameLists y).mpr hbelow
    | false =>
      -- nothing makes way in a container
      have hnone : w.lostTo rules d r = none := by rw [lostTo, hy]
      have hchild : ∀ c x, x ∈ w.children c → x ∈ (w.putThing rules d r).children c :=
        fun c x hx => by
        rw [(hput hd).children, hnone]
        exact .inl ⟨hx, fun h => by cases h⟩
      exact hbelow.transfer (fun c hc x hx => .root hc (hchild c x hx)) fun z x hz hx =>
        .inside hz (hchild _ x hx)
  rw [← putThing_gains hsane htidy hloose hr hone hapart' (Set.mem_insert _ _) hopen,
    units_reached hreach, units_reached hreach']

/-- A stack below the cylinders takes what it has room for. -/
theorem merge_gains {b : Cylinder} {y m : ℕ} (hsane : rules.Sane) (htidy : Tidy rules w)
    (hreach : Reached w S b) (hy : y ∈ w.children b) (hstack : w.isStackable rules y = true) :
    w.mergeCount (some y) m = min (100 - (w.item y).count) m ∧
      Recounted w (w.merge rules b (some y) (w.mergeCount (some y) m)) y
        ((w.item y).count + min (100 - (w.item y).count) m) ∧
      Tidy rules (w.merge rules b (some y) (w.mergeCount (some y) m)) ∧
      (w.merge rules b (some y) (w.mergeCount (some y) m)).units rules S (w.item y).id =
        w.units rules S (w.item y).id + min (100 - (w.item y).count) m := by
  obtain ⟨hn, hmerge⟩ := merge_recounted (m := m) hsane htidy.toValid hy hstack
  have hle := htidy.count y hstack
  have hpos := htidy.stacked b y hy hstack
  refine ⟨hn, hmerge, htidy.recounted hmerge (by omega) (by omega), ?_⟩
  have hsum := units_recount (w.item y).id htidy.toValid hmerge (Set.mem_insert b S) hy
  rw [units_reached hreach, units_reached (hreach.lists hmerge.toSameLists), amount_stack _ hstack,
    amount_stack _ ((isStackable_of_id hmerge.id y).trans hstack), hmerge.count, if_pos rfl] at hsum
  simp only [unitsOf, hmerge.id, if_true] at hsum
  omega

theorem addRounds_refused {fuel : ℕ} {a : Added}
    (h : addRounds rules fuel w c r index flags false = some a) (hret : a.ret ≠ .noError) :
    (a.world = w ∧ a.remainderCount = 0) ∧
      (w.checkPlace rules c (w.placeOf rules c r index flags) r).1 ≠ .noError := by
  cases fuel with
  | zero => cases h
  | succ fuel =>
    unfold addRounds at h
    dsimp only at h
    split at h
    · cases h
      exact ⟨⟨rfl, rfl⟩, ‹_›⟩
    rw [if_neg (by decide)] at h
    split at h
    · split at h
      · split at h
        · obtain ⟨w', -, hrest⟩ := Option.bind_eq_some_iff.mp h
          obtain ⟨rest, -, rfl⟩ := Option.map_eq_some_iff.mp hrest
          exact absurd rfl hret
        · cases h
          exact absurd rfl hret
      · cases h
        exact absurd rfl hret
    · cases h
      exact absurd rfl hret

theorem addRounds_checked {fuel : ℕ} {a : Added} (h : addRounds rules fuel w c r index flags false = some a)
    (hret : a.ret = .noError) : (w.checkPlace rules c (w.placeOf rules c r index flags) r).1 = .noError := by
  cases fuel with
  | zero => cases h
  | succ fuel =>
    unfold addRounds at h
    dsimp only at h
    split at h
    · cases h
      exact hret
    · exact not_not.mp ‹_›

/-- A loose item that stands for units of its kind, and a place for it below the cylinders. -/
structure Ready (rules : Rules) (w : World) (S : Set Cylinder) (c : Cylinder) (r : ℕ) (index : ℤ)
    (flags : Flags) : Prop where
  tidy : Tidy rules w
  loose : ∀ c, r ∉ w.children c
  known : r < w.next
  one : 1 ≤ w.amount rules (w.item r).id r
  apart : Apart w S r
  asked : flags.childIsOwner = false
  place : Reached w S (w.placeOf rules c r index flags).cylinder

theorem mergesWith_spec {d : Destination} {y : ℕ} (h : Ready rules w S c r index flags)
    (hd : w.placeOf rules c r index flags = d) (hy : w.mergesWith rules d r = some y) :
    w.isStackable rules r = true ∧ w.isStackable rules y = true ∧ (w.item r).id = (w.item y).id ∧ r ≠ y ∧
      y ∈ w.children d.cylinder ∧ w.grown rules (w.item r).id r = (w.item r).count ∧ 1 ≤ (w.item r).count := by
  obtain ⟨hyd, hsame⟩ := Option.filter_eq_some_iff.mp hy
  obtain ⟨hstack, heq⟩ := Bool.and_eq_true_iff.mp hsame
  have hmem : y ∈ w.children d.cylinder := by
    rw [← hd] at hyd ⊢
    exact (placeOf_spec h.asked).2 y hyd
  have hid : (w.item r).id = (w.item y).id := by
    simp only [Item.equals, Bool.and_eq_true, decide_eq_true_eq] at heq
    exact heq.1
  have hstacky : w.isStackable rules y = true := by
    rw [isStackable, type, ← hid]
    exact hstack
  have hgrown : w.grown rules (w.item r).id r = (w.item r).count := by
    rw [grown_leaf _ (h.tidy.leaf r hstack), amount_stack _ hstack, unitsOf, if_pos rfl]
  have hone : 1 ≤ (w.item r).count := by
    rw [← hgrown, grown_leaf _ (h.tidy.leaf r hstack)]
    exact h.one
  exact ⟨hstack, hstacky, hid, fun e => h.loose _ (e ▸ hmem), hmem, hgrown, hone⟩

/-- The stack `y` is full, and the rest of `r` is a new item. -/
theorem rest_ready {d : Destination} {y : ℕ} {w₂ : World} (hsane : rules.Sane) (hc : c ∈ S)
    (h : Ready rules w S c r index flags) (hd : w.placeOf rules c r index flags = d)
    (hy : w.mergesWith rules d r = some y) (hless : 100 - (w.item y).count < (w.item r).count)
    (hclone : (w.merge rules d.cylinder (some y) (100 - (w.item y).count)).cloneItem rules r
      ((w.item r).count - (100 - (w.item y).count)) = some w₂) :
    Ready rules w₂ S c w.next whereEver d.flags ∧ (w₂.item w.next).id = (w.item r).id ∧
      (w₂.item w.next).count = (w.item r).count - (100 - (w.item y).count) ∧
      w₂.grown rules (w.item r).id w.next = (w.item r).count - (100 - (w.item y).count) ∧
      w₂.units rules S (w.item r).id = w.units rules S (w.item r).id + (100 - (w.item y).count) := by
  obtain ⟨hstack, hstacky, hid, hry, hmem, hgrown, hone⟩ := mergesWith_spec h hd hy
  have hflags : d.flags.childIsOwner = false := by
    rw [← hd]
    exact (placeOf_spec h.asked).1
  have hreach : Reached w S d.cylinder := hd ▸ h.place
  have hhundred := h.tidy.count r hstack
  obtain ⟨hn, hmerge, htidy₁, hunits⟩ :=
    merge_gains (m := (w.item r).count) hsane h.tidy hreach hmem hstacky
  rw [min_eq_left hless.le] at hn hmerge hunits
  rw [hn] at hmerge htidy₁ hunits
  generalize w.merge rules d.cylinder (some y) (100 - (w.item y).count) = w₁ at *
  have hcloned := cloneItem_cloned hclone (hsane.made _ ((isStackable_of_id hmerge.id r).trans hstack))
  rw [Nat.mod_eq_of_lt (by omega)] at hcloned
  have hnext := hmerge.next
  have htidy₂ := htidy₁.cloned hcloned (by omega)
  have hloose₂ : ∀ c, w.next ∉ w₂.children c := fun c => by
    rw [hcloned.children htidy₁.toValid, ← hnext]
    exact htidy₁.toValid.loose le_rfl
  have hid₂ : (w₂.item w.next).id = (w.item r).id := by
    rw [← hnext, hcloned.id, hmerge.id]
  have hcount₂ : (w₂.item w.next).count = (w.item r).count - (100 - (w.item y).count) := by
    rw [← hnext, hcloned.count]
  have hleaf₂ : (w₂.item w.next).container = none := by
    rw [← hnext]
    exact hcloned.container
  have hamount₂ : w₂.amount rules (w.item r).id w.next = (w.item r).count - (100 - (w.item y).count) := by
    have hstack₂ : w₂.isStackable rules w.next = true := by
      rw [isStackable, type, hid₂]
      exact hstack
    rw [amount_stack _ hstack₂, unitsOf, if_pos hid₂, hcount₂]
  refine ⟨⟨htidy₂, hloose₂, ?_, ?_, apart_leaf hloose₂ hleaf₂, hflags, ?_⟩, hid₂, hcount₂, ?_, ?_⟩
  · rw [hcloned.next]
    omega
  · rw [hid₂, hamount₂]
    omega
  · refine placeOf_rest hc h.place hflags ?_
    rw [hcloned.tile, hmerge.tile]
  · rw [grown_leaf _ hleaf₂, hamount₂]
  · rw [units_create _ htidy₁.toValid hcloned.toCreated, hid, hunits]

theorem putThing_beside {d : Destination} {y : ℕ} (hsane : rules.Sane) (h : Ready rules w S c r index flags)
    (hd : w.placeOf rules c r index flags = d) (hy : w.mergesWith rules d r = some y) (hopen : IsOpen rules w d r) :
    ((w.merge rules d.cylinder (some y) 0).putThing rules d r).units rules S (w.item r).id =
        w.units rules S (w.item r).id + (w.item r).count ↔
      w.takes rules d r = true := by
  obtain ⟨hstack, hstacky, hid, hry, hmem, -, hone⟩ := mergesWith_spec h hd hy
  have hreach : Reached w S d.cylinder := hd ▸ h.place
  obtain ⟨hn, hmerge, htidy₁, hunits⟩ := merge_gains (m := 0) hsane h.tidy hreach hmem hstacky
  rw [Nat.min_zero] at hn hmerge hunits
  rw [hn] at hmerge htidy₁ hunits
  generalize w.merge rules d.cylinder (some y) 0 = w₁ at *
  have hloose₁ : ∀ c, r ∉ w₁.children c := fun c hrc => h.loose c (hmerge.children c ▸ hrc)
  have hleaf₁ := container_none (hmerge.plate r) (h.tidy.leaf r hstack)
  have hcount₁ : (w₁.item r).count = (w.item r).count := by rw [hmerge.count, if_neg hry]
  have hamount₁ : w₁.amount rules (w.item r).id r = (w.item r).count := by
    rw [amount_stack _ ((isStackable_of_id hmerge.id r).trans hstack), unitsOf, hmerge.id, if_pos rfl, hcount₁]
  have hput := putThing_gains_below hsane htidy₁ hloose₁ (hmerge.next ▸ h.known)
    (by rw [hmerge.id, hamount₁]; exact hone) (apart_leaf hloose₁ hleaf₁)
      (hreach.lists hmerge.toSameLists)
    (hopen.lists hmerge.toSameLists)
  rw [hmerge.id, grown_leaf _ hleaf₁, hamount₁, takes_of_lists hmerge.toSameLists, hid, hunits, ← hid] at hput
  exact hput

/-- What all the rounds add, and what they report as the remainder. -/
theorem addRounds_gains {fuel : ℕ} {a : Added} (hsane : rules.Sane) (hc : c ∈ S)
    (hready : Ready rules w S c r index flags)
    (h : addRounds rules fuel w c r index flags false = some a) (hret : a.ret = .noError) :
    (a.world.units rules S (w.item r).id + a.remainderCount =
        w.units rules S (w.item r).id + w.grown rules (w.item r).id r ↔
      settles rules fuel false w c r index flags = true) ∧
    (a.world.units rules S (w.item r).id = w.units rules S (w.item r).id + w.grown rules (w.item r).id r ↔
      settles rules fuel true w c r index flags = true) := by
  induction fuel generalizing w r index flags a with
  | zero => cases h
  | succ fuel ih =>
    have hflags' := (@placeOf_spec rules w r c index flags hready.asked).1
    have hreach := hready.place
    unfold addRounds at h
    unfold settles
    dsimp only at h ⊢
    generalize hd : w.placeOf rules c r index flags = d at h hflags' hreach ⊢
    generalize hcheck : w.checkPlace rules c d r = answer at h
    obtain ⟨ret, maxQueryCount⟩ := answer
    dsimp only at h ⊢
    split at h
    · cases h
      exact absurd hret ‹_›
    rename_i hok
    rw [not_not.mp hok] at hcheck
    obtain ⟨hadd, hmax⟩ := checkPlace_noError hcheck
    have hopen : IsOpen rules w d r := isOpen_of_accepts hready.tidy.toValid hflags' hadd
    rw [if_neg (by decide)] at h
    cases hy : w.mergesWith rules d r with
    | none =>
      -- the item itself is put there
      rw [hy] at h
      cases h
      dsimp only
      rw [units_alike _ (Alike.beginDecay r), Nat.add_zero]
      have hput := putThing_gains_below hsane hready.tidy hready.loose hready.known hready.one hready.apart
        hreach hopen
      exact ⟨hput, hput⟩
    | some y =>
      rw [hy] at h
      dsimp only at h ⊢
      obtain ⟨hstack, hstacky, hid, hry, hmem, hgrown, hone⟩ := mergesWith_spec hready hd hy
      rw [min_eq_left (hmax hstack)] at h
      obtain ⟨hn, hmerge, -, hunits⟩ := merge_gains (m := (w.item r).count) hsane hready.tidy hreach hmem hstacky
      rw [hgrown]
      by_cases hall : (w.item r).count ≤ 100 - (w.item y).count
      · -- the stack takes everything
        rw [hn, min_eq_right hall] at h hunits
        rw [if_neg (by omega)] at h
        cases h
        dsimp only
        rw [units_alike _ ((Alike.afterMerge d y).trans (Alike.beginDecay r)), hid, hunits, if_pos hall, if_pos hall]
        simp
      · have hless : 100 - (w.item y).count < (w.item r).count := not_le.mp hall
        rw [min_eq_left hless.le] at hn hmerge
        rw [hn] at h hmerge
        rw [if_pos (by omega), hmerge.count, if_neg hry] at h
        rw [if_neg hall, if_neg hall]
        by_cases hfull : 100 - (w.item y).count = 0
        · rw [hfull, Nat.sub_zero, if_neg (by simp)] at h
          cases h
          dsimp only
          rw [if_pos hfull, if_pos hfull, units_alike _ (Alike.beginDecay r), Nat.add_zero]
          have hput := putThing_beside hsane hready hd hy hopen
          exact ⟨hput, hput⟩
        · -- the rest is another item, and its own call is asked
          rw [if_neg hfull, if_neg hfull]
          rw [if_pos (by omega)] at h
          obtain ⟨w₂, hclone, hrest⟩ := Option.bind_eq_some_iff.mp h
          obtain ⟨rest, hcall, rfl⟩ := Option.map_eq_some_iff.mp hrest
          rw [hmerge.next] at hcall
          obtain ⟨hready₂, hid₂, -, hgrown₂, hunits₂⟩ :=
            rest_ready hsane hc hready hd hy hless hclone
          rw [hclone, Option.all_some, Option.all_some]
          dsimp only
          rw [units_alike _ (Alike.beginDecay r)]
          by_cases hrefused : rest.ret = .noError
          · obtain ⟨-, hstrict⟩ := ih hready₂ hcall hrefused
            rw [hid₂, hgrown₂, hunits₂] at hstrict
            rw [if_pos (addRounds_checked hcall hrefused),
              if_pos (addRounds_checked hcall hrefused), ← hstrict, if_neg (not_not.mpr hrefused)]
            constructor <;> omega
          · obtain ⟨⟨hworld, -⟩, hcheck₂⟩ := addRounds_refused hcall hrefused
            rw [if_neg hcheck₂, if_neg hcheck₂, hworld, hunits₂, if_pos hrefused]
            simp only [Bool.not_true, Bool.not_false, Bool.false_eq_true, iff_false, iff_true]
            constructor <;> omega

/-- A call comes back whenever items of the kind can be made: the rounds do not run out. -/
theorem addRounds_isSome {fuel : ℕ} (hsane : rules.Sane) (hc : c ∈ S) (hready : Ready rules w S c r index flags)
    (hmake : (rules.items (w.item r).id).group ≠ .deprecated ∧ (rules.items (w.item r).id).id ≠ 0)
    (hfuel : (w.item r).count < fuel) : (addRounds rules fuel w c r index flags false).isSome = true := by
  induction fuel generalizing w r index flags with
  | zero => omega
  | succ fuel ih =>
    unfold addRounds
    dsimp only
    generalize hd : w.placeOf rules c r index flags = d
    generalize hcheck : w.checkPlace rules c d r = answer
    obtain ⟨ret, maxQueryCount⟩ := answer
    dsimp only
    split
    · rfl
    rename_i hok
    rw [not_not.mp hok] at hcheck
    rw [if_neg (by decide)]
    cases hy : w.mergesWith rules d r with
    | none => rfl
    | some y =>
      dsimp only
      obtain ⟨hstack, hstacky, -, hry, hmem, -, hone⟩ := mergesWith_spec hready hd hy
      rw [min_eq_left ((checkPlace_noError hcheck).2 hstack)]
      obtain ⟨hn, hmerge, -, -⟩ := merge_gains (m := (w.item r).count) hsane hready.tidy (hd ▸ hready.place) hmem
        hstacky
      rw [hmerge.count, if_neg hry, hn]
      rw [hn] at hmerge
      split
      · split
        · rename_i hpos hne
          have hless : 100 - (w.item y).count < (w.item r).count := by omega
          rw [min_eq_left hless.le] at hmerge ⊢
          cases hclone : (w.merge rules d.cylinder (some y)
            (100 - (w.item y).count)).cloneItem rules r ((w.item r).count - (100 - (w.item y).count)) with
          | none =>
            simp [cloneItem, Decay.Item.copy, Decay.Item.create, hmerge.id, hmake.1, hmake.2] at hclone
            split at hclone <;> cases hclone
          | some w₂ =>
            obtain ⟨hready₂, hid₂, hcount₂, -, -⟩ := rest_ready hsane hc hready hd hy hless hclone
            have hrest := ih hready₂ (by rw [hid₂]; exact hmake) (by omega)
            simp only [Option.bind_some, Option.isSome_map, hmerge.next]
            exact hrest
        · rfl
      · rfl

end Rounds

/-! ## The call -/

/-- Every place that the call chooses takes what is put there. -/
def settled (rules : Rules) (w : World) (strict : Bool) (toCylinder : Cylinder) (r : ℕ) (index : ℤ)
    (flags : Flags) : Bool :=
  settles rules ((w.item r).count + 1) strict w toCylinder r index flags

/-- What a call adds below the destination, with what it reports as the
remainder, are the units of the item exactly when the places it chooses take
them; without the remainder, exactly when none of it is refused either. -/
theorem internalAddItem_lossless_iff {toCylinder : Cylinder} {index : ℤ} {flags : Flags} {a : Added} {S : Set Cylinder}
    (hsane : rules.Sane) (htidy : Tidy rules w) (hloose : ∀ c, r ∉ w.children c) (hr : r < w.next)
    (hcount : w.isStackable rules r = true → 1 ≤ (w.item r).count) (hflags : flags.childIsOwner = false)
    (hto : toCylinder ∈ S) (hplace : Reached w S (w.placeOf rules toCylinder r index flags).cylinder)
    (hout : ∀ x, .container x ∈ S → x ≠ r ∧ ¬ w.IsBelow {.container r} x)
    (h : w.internalAddItem rules toCylinder r index flags false = some a) (hret : a.ret = .noError) :
    (a.world.units rules S (w.item r).id + a.remainderCount =
        w.units rules S (w.item r).id + w.grown rules (w.item r).id r ↔
      w.settled rules false toCylinder r index flags = true) ∧
    (a.world.units rules S (w.item r).id = w.units rules S (w.item r).id + w.grown rules (w.item r).id r ↔
      w.settled rules true toCylinder r index flags = true) := by
  have hone : 1 ≤ w.amount rules (w.item r).id r := by
    rw [amount, if_pos rfl]
    split
    · exact hcount ‹_›
    · exact le_rfl
  have hapart : Apart w S r := by
    intro x hx
    exact below_apart htidy.holder (fun _ _ => Cylinder.container.inj) hloose hout hx
  exact addRounds_gains hsane hto ⟨htidy, hloose, hr, hone, hapart, hflags, hplace⟩ h hret

/-- A player with a backpack, which is empty, and a stack of gold that lies nowhere. -/
def backpack (tradeItem : Option ℕ) : World where
  item
    | 0 => { id := 1988, parent := some (.player 0), container := some {} }
    | 1 => { id := 2148, count := 100 }
    | _ => { id := 0 }
  player
    | 0 => { inventory := fun slot => if slot = 3 then some 0 else none, tradeItem }
    | _ => { inventory := fun _ => none }
  tile _ := {}
  next := 2

theorem bagsAndGold_sane : bagsAndGold.Sane := by
  have hgold : ∀ id, (bagsAndGold.items id).stackable = true → id = 2148 := by
    intro id h
    unfold bagsAndGold at h
    dsimp only at h
    split at h
    · assumption
    · cases h
  constructor
  all_goals
    intro id h
    rw [hgold id h]
    decide

theorem bagsAndGold_plain (w : World) (x : ℕ) :
    w.replaces bagsAndGold x = false ∧ w.isMagicField bagsAndGold x = false := by
  unfold replaces isSplash isMagicField type bagsAndGold
  dsimp only
  split <;> exact ⟨rfl, rfl⟩

theorem backpack_children {tradeItem : Option ℕ} {c : Cylinder} {x : ℕ}
    (h : x ∈ (backpack tradeItem).children c) : c = .player 0 ∧ x = 0 := by
  cases c with
  | container d => rcases d with _ | _ | d <;> cases h
  | player p =>
    rcases p with _ | p
    · exact ⟨rfl, by simpa [children, backpack, slots] using h⟩
    · simp [children, backpack] at h
  | tile t => cases h

theorem backpack_tidy (tradeItem : Option ℕ) : Tidy bagsAndGold (backpack tradeItem) where
  itemlist c := by rcases c with _ | _ | c <;> exact List.nodup_nil
  inventory p i _ j _ x hi hj := by
    rcases p with _ | p
    · simp only [backpack, Option.ite_none_right_eq_some] at hi hj
      exact hi.1.trans hj.1.symm
    · cases hi
  tile t := List.nodup_nil
  ground t g hg := by cases hg
  top t x hx := by cases hx
  holder c c' x hx hx' := (backpack_children hx).1.trans (backpack_children hx').1.symm
  known c x hx := by
    rw [(backpack_children hx).2]
    exact Nat.two_pos
  fresh x hx := by
    rcases x with _ | _ | x
    · exact absurd hx (show ¬ 2 ≤ 0 by decide)
    · exact absurd hx (show ¬ 2 ≤ 1 by decide)
    · rfl
  leaf x hx := by
    rcases x with _ | _ | x
    · cases hx
    · rfl
    · rfl
  count x hx := by
    rcases x with _ | _ | x
    · cases hx
    · exact le_rfl
    · cases hx
  capacity x c hc := by
    rcases x with _ | _ | x
    · cases hc
      decide
    · cases hc
    · cases hc
  storeInbox x c hc _ := by
    rcases x with _ | _ | x
    · cases hc
      rfl
    · cases hc
    · cases hc
  stacked c x hx hstack := by
    rw [(backpack_children hx).2] at hstack
    cases hstack
  plain x hx := by
    rw [(bagsAndGold_plain _ x).1] at hx
    cases hx
  floor t g hg := by cases hg
  field x hx := by
    rw [(bagsAndGold_plain _ x).2] at hx
    cases hx

theorem backpack_loose (tradeItem : Option ℕ) (c : Cylinder) : 1 ∉ (backpack tradeItem).children c :=
  fun h => absurd (backpack_children h).2 (by decide)

theorem internalAddItem_lossless_iff_backpack : ∃ a,
    (backpack none).internalAddItem bagsAndGold (.player 0) 1 whereEver {} false = some a ∧
      a.world.units bagsAndGold {.player 0} 2148 + a.remainderCount =
        (backpack none).units bagsAndGold {.player 0} 2148 + (backpack none).grown bagsAndGold 2148 1 := by
  have hrun : ((backpack none).internalAddItem bagsAndGold (.player 0) 1 whereEver {} false).map Added.ret =
      some .noError := by decide +kernel
  obtain ⟨a, hcall, hret⟩ := Option.map_eq_some_iff.mp hrun
  have hplace : Reached (backpack none) {.player 0}
      ((backpack none).placeOf bagsAndGold (.player 0) 1 whereEver {}).cylinder :=
    playerQueryDestination_reached whereEver rfl
  refine ⟨a, hcall, (internalAddItem_lossless_iff bagsAndGold_sane (backpack_tidy none) (backpack_loose none)
    (by decide) (by decide) rfl (Set.mem_singleton _) hplace ?_ hcall hret).1.mpr
      (by decide +kernel)⟩
  intro x hx
  cases hx

/-- The backpack is offered in a trade: the gold is counted as fitting into it,
finds no place and is gone. -/
theorem gold_is_lost : ¬ ∀ (rules : Rules) (w : World) (toCylinder : Cylinder) (r : ℕ) (a : Added),
    rules.Sane → Tidy rules w → (∀ c, r ∉ w.children c) → r < w.next →
      w.internalAddItem rules toCylinder r whereEver {} false = some a → a.ret = .noError →
        a.world.units rules {toCylinder} (w.item r).id + a.remainderCount =
          w.units rules {toCylinder} (w.item r).id + w.grown rules (w.item r).id r := by
  intro h
  have hrun : ((backpack (some 0)).internalAddItem bagsAndGold (.player 0) 1 whereEver {} false).map Added.ret =
      some .noError := by decide +kernel
  obtain ⟨a, hcall, hret⟩ := Option.map_eq_some_iff.mp hrun
  have hsum := h _ _ _ _ a bagsAndGold_sane (backpack_tidy (some 0)) (backpack_loose (some 0)) (by decide) hcall
    hret
  have hplace : Reached (backpack (some 0)) {.player 0}
      ((backpack (some 0)).placeOf bagsAndGold (.player 0) 1 whereEver {}).cylinder :=
    playerQueryDestination_reached whereEver rfl
  have hready : Ready bagsAndGold (backpack (some 0)) {.player 0} (.player 0) 1 whereEver {} :=
    ⟨backpack_tidy _, backpack_loose _, by decide, by decide,
      apart_leaf (backpack_loose _) rfl, rfl, hplace⟩
  have hgains := addRounds_gains bagsAndGold_sane (Set.mem_singleton _) hready hcall hret
  have hno : settles bagsAndGold 101 false (backpack (some 0)) (.player 0) 1 whereEver {} =
      false := by
    decide +kernel
  rw [show settles bagsAndGold (((backpack (some 0)).item 1).count + 1) false (backpack (some 0)) (.player 0) 1
    whereEver {} = false from hno] at hgains
  exact absurd (hgains.1.mp hsum) (by decide)

end World
end ForgottenServer.Things
