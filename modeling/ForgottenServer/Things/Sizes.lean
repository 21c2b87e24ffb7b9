import ForgottenServer.Things.Add
import ForgottenServer.Things.Landing

/-! # The sizes of containers

What the changes of cylinders do to the length of the item lists, in any world:
removing makes none longer, adding makes one longer by one. -/
namespace ForgottenServer.Things
namespace World
variable {rules : Rules} {w w' w'' : World} {r : ℕ}

/-- No list has grown or names anything new; a new item has taken the place of
what had its number. -/
structure Thins (w w' : World) : Prop where
  next : w.next ≤ w'.next
  plate : ∀ c, w.next ≤ c ∧ (w'.item c).container = none ∨
    (w'.item c).container.map Container.plate = (w.item c).container.map Container.plate
  size : ∀ c, w'.size c ≤ w.size c
  children : ∀ c x, x ∈ w'.children c → x ∈ w.children c

theorem Thins.same (w : World) : Thins w w :=
  ⟨le_rfl, fun _ => .inr rfl, fun _ => le_rfl, fun _ _ h => h⟩

theorem Thins.trans (h : Thins w w') (h' : Thins w' w'') : Thins w w'' where
  next := h.next.trans h'.next
  plate c := by
    rcases h'.plate c with ⟨hle, hnone⟩ | heq
    · exact .inl ⟨h.next.trans hle, hnone⟩
    · rcases h.plate c with ⟨hle, hnone⟩ | heq'
      · rw [hnone] at heq
        exact .inl ⟨hle, Option.map_eq_none_iff.mp heq⟩
      · exact .inr (heq.trans heq')
  size c := (h'.size c).trans (h.size c)
  children c x hx := h.children c x (h'.children c x hx)

theorem Thins.of_lists (h : SameLists w w') : Thins w w' where
  next := h.next.ge
  plate c := .inr (h.plate c)
  size c := (congrArg List.length (h.itemlist c)).le
  children c _ hx := h.children c ▸ hx

theorem setItemlist_cases (c : ℕ) (l : List ℕ) (c' : ℕ) :
    (w.setItemlist c l).itemlist c' = w.itemlist c' ∨ c' = c ∧ (w.setItemlist c l).itemlist c' = l := by
  cases hc : (w.item c).container with
  | none =>
    left
    by_cases h : c' = c
    · subst h
      simp [itemlist, setItemlist, setContainer, setItem, hc]
    · simp [itemlist, setItemlist, setContainer, setItem, h]
  | some k =>
    rw [itemlist_setItemlist (by simp [hc])]
    split
    · exact .inr ⟨‹_›, rfl⟩
    · exact .inl rfl

theorem Thins.setItemlist {c : ℕ} {l : List ℕ} (hlen : l.length ≤ w.size c) (hsub : ∀ x ∈ l, x ∈ w.itemlist c) :
    Thins w (w.setItemlist c l) := by
  have hitems : SameItems w (w.setItemlist c l) := .setItemlist c l
  refine ⟨hitems.next.ge, fun c' => .inr (hitems.plate c'), fun c' => ?_, fun c' x hx => ?_⟩
  · unfold World.size
    rcases setItemlist_cases c l c' with h | ⟨rfl, h⟩
    · rw [h]
    · rw [h]
      exact hlen
  · cases c' with
    | container d =>
      change x ∈ (w.setItemlist c l).itemlist d at hx
      rcases setItemlist_cases c l d with h | ⟨rfl, h⟩
      · rw [h] at hx
        exact hx
      · rw [h] at hx
        exact hsub x hx
    | player p => exact hx
    | tile t => exact hx

theorem Thins.setPlayer {p : ℕ} {f : Player → Player}
    (h : ∀ i ∈ slots, ∀ x, (f (w.player p)).inventory i = some x → (w.player p).inventory i = some x) :
    Thins w (w.setPlayer p f) where
  next := le_rfl
  plate _ := .inr rfl
  size _ := le_rfl
  children c x hx := by
    cases c with
    | container d => exact hx
    | tile t => exact hx
    | player q =>
      obtain ⟨i, hi, hxi⟩ := mem_children_player.mp hx
      refine mem_children_player.mpr ⟨i, hi, ?_⟩
      by_cases hq : q = p
      · subst hq
        simp only [World.setPlayer, Function.update_self] at hxi
        exact h i hi x hxi
      · simpa only [World.setPlayer, Function.update_of_ne hq] using hxi

theorem Thins.setTile {t : ℕ} {f : Tile → Tile}
    (hground : ∀ g, (f (w.tile t)).ground = some g → (w.tile t).ground = some g)
    (htop : ∀ x ∈ (f (w.tile t)).topItems, x ∈ (w.tile t).topItems)
    (hdown : ∀ x ∈ (f (w.tile t)).downItems, x ∈ (w.tile t).downItems) : Thins w (w.setTile t f) where
  next := le_rfl
  plate _ := .inr rfl
  size _ := le_rfl
  children c x hx := by
    cases c with
    | container d => exact hx
    | player p => exact hx
    | tile t' =>
      by_cases ht : t' = t
      · subst ht
        rw [mem_children_tile] at hx ⊢
        simp only [World.setTile, Function.update_self] at hx
        exact hx.imp (hground x) (Or.imp (htop x) (hdown x))
      · simpa only [World.children, World.setTile, Function.update_of_ne ht] using hx

theorem removeThing_thins (c : Cylinder) (count : ℕ) : Thins w (w.removeThing rules c r count) := by
  have hcount : ∀ n, Thins w (w.setItemCount r n) :=
    fun n => .of_lists (Recounted.setItemCount r n).toSameLists
  have hparent : Thins w (w.setParent r none) := .of_lists (Alike.setParent r none).toSameLists
  cases c with
  | container c =>
    show Thins w (w.containerRemoveThing rules c r count)
    unfold containerRemoveThing
    split
    · exact .same w
    dsimp only
    split
    · exact (hcount _).trans (.of_lists (Alike.updateItemWeight _ _ _ _).toSameLists)
    · have hlists : SameLists w ((updateItemWeight w.depth w c (-(w.getWeight rules r : ℤ))).setParent r none) :=
        ((Alike.updateItemWeight _ _ _ _).trans (.setParent r none)).toSameLists
      refine (Thins.of_lists hlists).trans (.setItemlist ?_ ?_)
      · unfold size
        rw [hlists.itemlist, (Alike.updateItemWeight _ _ _ _).itemlist]
        exact List.length_erase_le
      · intro x hx
        rw [(Alike.updateItemWeight _ _ _ _).itemlist] at hx
        rw [hlists.itemlist]
        exact List.mem_of_mem_erase hx
  | player p =>
    show Thins w (w.playerRemoveThing rules p r count)
    unfold playerRemoveThing
    split
    · exact .same w
    split
    · exact hcount _
    · refine hparent.trans (.setPlayer fun i _ x hx => ?_)
      simp only [Function.update_apply] at hx
      split at hx
      · cases hx
      · exact hx
  | tile t =>
    show Thins w (w.tileRemoveThing rules t r count)
    unfold tileRemoveThing
    split
    · exact .same w
    split
    · exact hparent.trans (.setTile nofun (fun _ h => h) fun _ h => h)
    split
    · exact hparent.trans (.setTile (fun _ h => h) (fun _ h => List.mem_of_mem_erase h) fun _ h => h)
    split
    · exact hcount _
    · exact hparent.trans (.setTile (fun _ h => h) (fun _ h => h) fun _ h => List.mem_of_mem_erase h)

theorem containerRemoveThing_size {c count : ℕ} (hr : r ∈ w.itemlist c) (hpart : w.isPart rules r count = false) :
    (w.containerRemoveThing rules c r count).size c + 1 = w.size c := by
  have hlists : SameLists w ((updateItemWeight w.depth w c (-(w.getWeight rules r : ℤ))).setParent r none) :=
    ((Alike.updateItemWeight _ _ _ _).trans (.setParent r none)).toSameLists
  unfold containerRemoveThing
  rw [if_neg (not_not.mpr hr)]
  dsimp only
  rw [if_neg (by rw [hpart]; decide)]
  have hsome : (((updateItemWeight w.depth w c (-(w.getWeight rules r : ℤ))).setParent r none).item
      c).container.isSome =
      true := by
    have hmap := congrArg Option.isSome (hlists.container c)
    simp only [Option.isSome_map] at hmap
    rw [hmap]
    exact container_of_mem_itemlist hr
  unfold size
  rw [itemlist_setItemlist hsome, if_pos rfl, (Alike.updateItemWeight _ _ _ _).itemlist, List.length_erase_of_mem hr]
  exact Nat.sub_add_cancel (List.length_pos_of_mem hr)

/-! ## Adding -/

/-- The list of `b` may have grown by `r`, and no other list has. -/
structure Grows (w w' : World) (b : Cylinder) (r : ℕ) : Prop where
  next : w'.next = w.next
  id : ∀ x, (w'.item x).id = (w.item x).id
  plate : ∀ c, (w'.item c).container.map Container.plate = (w.item c).container.map Container.plate
  size : ∀ c, w'.size c ≤ w.size c + if b = .container c then 1 else 0
  children : ∀ c x, x ∈ w'.children c → x ∈ w.children c ∨ x = r

theorem Grows.same (w : World) (b : Cylinder) (r : ℕ) : Grows w w b r :=
  ⟨rfl, fun _ => rfl, fun _ => rfl, fun _ => Nat.le_add_right _ _, fun _ _ h => .inl h⟩

theorem Grows.before {b : Cylinder} (h : SameLists w w') (h' : Grows w' w'' b r) : Grows w w'' b r where
  next := h'.next.trans h.next
  id x := (h'.id x).trans (h.id x)
  plate c := (h'.plate c).trans (h.plate c)
  size c := by
    have := h'.size c
    rwa [World.size, World.size, h.itemlist] at this
  children c x hx := h.children c ▸ h'.children c x hx

theorem Grows.after {b : Cylinder} (h : Grows w w' b r) (h' : SameLists w' w'') : Grows w w'' b r where
  next := h'.next.trans h.next
  id x := (h'.id x).trans (h.id x)
  plate c := (h'.plate c).trans (h.plate c)
  size c := by
    rw [World.size, h'.itemlist]
    exact h.size c
  children c x hx := h.children c x (h'.children c ▸ hx)

theorem Grows.setTile {t : ℕ} {f : Tile → Tile}
    (h : ∀ x, x ∈ (w.setTile t f).children (.tile t) → x ∈ w.children (.tile t) ∨ x = r) :
    Grows w (w.setTile t f) (.tile t) r where
  next := rfl
  id _ := rfl
  plate _ := rfl
  size _ := Nat.le_add_right _ _
  children c x hx := by
    cases c with
    | container d => exact .inl hx
    | player p => exact .inl hx
    | tile t' =>
      by_cases ht : t' = t
      · subst ht
        exact h x hx
      · left
        simpa only [World.children, World.setTile, Function.update_of_ne ht] using hx

theorem Thins.tile_grows {t : ℕ} (h : Thins w w') (hplate : ∀ c, (w'.item c).container.map Container.plate =
    (w.item c).container.map Container.plate) (hnext : w'.next = w.next)
    (hid : ∀ x, (w'.item x).id = (w.item x).id) (h' : Grows w' w'' (.tile t) r) :
    Grows w w'' (.tile t) r where
  next := h'.next.trans hnext
  id x := (h'.id x).trans (hid x)
  plate c := (h'.plate c).trans (hplate c)
  size c := by
    have hsize := h'.size c
    rw [if_neg nofun] at hsize ⊢
    exact hsize.trans (h.size c)
  children c x hx := (h'.children c x hx).imp_left (h.children c x)

theorem tileRemoveThing_items (t count : ℕ) : (w.tileRemoveThing rules t r count).next = w.next ∧
    ∀ c, ((w.tileRemoveThing rules t r count).item c).container.map Container.plate =
      (w.item c).container.map Container.plate := by
  unfold tileRemoveThing
  repeat' split
  all_goals first
    | exact ⟨rfl, fun _ => rfl⟩
    | exact ⟨rfl, fun c => (Alike.setParent r none).plate c⟩
    | exact ⟨rfl, fun c => (Recounted.setItemCount r _).plate c⟩

theorem displace_grows {t old : ℕ} {f : Tile → Tile}
    (h : ∀ (v : World) x, x ∈ (v.setTile t f).children (.tile t) → x ∈ v.children (.tile t) ∨ x = r) :
    Grows w ((w.displace rules t old).setTile t f) (.tile t) r := by
  obtain ⟨hnext, hplate⟩ := @tileRemoveThing_items rules w old t 1
  have hthins : Thins w (w.tileRemoveThing rules t old 1) := removeThing_thins (.tile t) 1
  have hid : ∀ x, ((w.tileRemoveThing rules t old 1).item x).id = (w.item x).id := fun x =>
    removeThing_item Item.id (.tile t) 1 x (fun _ _ _ => rfl) (fun _ _ => rfl) fun _ _ _ => rfl
  refine hthins.tile_grows hplate hnext hid ?_
  exact .before (Alike.setParent old none).toSameLists (.setTile (h _))

theorem tileAddThing_grows (t : ℕ) : Grows w (w.tileAddThing rules t r) (.tile t) r := by
  have halike : SameLists w (w.setParent r (some (.tile t))) := (Alike.setParent r _).toSameLists
  have hdown : ∀ (v : World) x, x ∈ (v.setTile t fun y => { y with downItems := r :: y.downItems }).children
      (.tile t) → x ∈ v.children (.tile t) ∨ x = r := by
    intro v x hx
    rw [mem_children_tile] at hx ⊢
    simp only [World.setTile, Function.update_self, List.mem_cons] at hx
    tauto
  unfold tileAddThing
  split
  · exact .same w _ r
  dsimp only
  split
  · have hground : ∀ (v : World) x, x ∈ (v.setTile t fun y => { y with ground := some r }).children (.tile t) →
        x ∈ v.children (.tile t) ∨ x = r := by
      intro v x hx
      rw [mem_children_tile] at hx ⊢
      simp only [World.setTile, Function.update_self, Option.some.injEq] at hx
      rcases hx with rfl | hx
      · exact .inr rfl
      · exact .inl (.inr hx)
    split
    · exact .before (halike.trans (Alike.setParent _ none).toSameLists) (.setTile (hground _))
    · exact .before halike (.setTile (hground _))
  split
  · have htop : ∀ (u v : World) x, x ∈ (v.setTile t fun y =>
        { y with topItems := u.insertTop rules r y.topItems }).children (.tile t) →
          x ∈ v.children (.tile t) ∨ x = r := by
      intro u v x hx
      rw [mem_children_tile] at hx ⊢
      simp only [World.setTile, Function.update_self, (insertTop_perm r _).mem_iff, List.mem_cons] at hx
      tauto
    unfold dropSplash
    split
    · split
      · exact .before halike (displace_grows (htop _))
      · exact .before halike (.setTile (htop _ _))
    · exact .before halike (.setTile (htop _ _))
  split
  · split
    · split
      · exact .before halike (displace_grows hdown)
      · exact .before (halike.trans (Alike.setParent r none).toSameLists) (.same _ _ r)
    · exact .before halike (.setTile (hdown _))
  · exact .before halike (.setTile (hdown _))

theorem addThing_grows (b : Cylinder) (index : ℤ) : Grows w (w.addThing rules b index r) b r := by
  cases b with
  | container c =>
    have hlists : SameLists w (w.setParent r (some (.container c))) :=
      (Alike.setParent r _).toSameLists
    show Grows w (w.containerAddThing rules c index r) _ r
    unfold containerAddThing
    split
    · exact .same w _ r
    dsimp only
    refine .after ?_ (Alike.updateItemWeight _ _ _ _).toSameLists
    refine .before hlists ⟨rfl, SameItems.id (.setItemlist c _), SameItems.plate (.setItemlist c _), fun c' => ?_,
      fun c' x hx => ?_⟩
    · unfold World.size
      rcases setItemlist_cases c (r :: w.itemlist c) c' with h | ⟨rfl, h⟩
      · rw [h]
        exact Nat.le_add_right _ _
      · rw [h, if_pos rfl, hlists.itemlist]
        exact le_rfl
    · cases c' with
      | player p => exact .inl hx
      | tile t => exact .inl hx
      | container d =>
        change x ∈ ((w.setParent r (some (.container c))).setItemlist c (r :: w.itemlist c)).itemlist d at hx
        rcases setItemlist_cases c (r :: w.itemlist c) d with h | ⟨rfl, h⟩
        · rw [h] at hx
          exact .inl hx
        · rw [h] at hx
          rcases List.mem_cons.mp hx with hx | hx
          · exact .inr hx
          · exact .inl (hlists.children (.container d) ▸ hx)
  | player p =>
    have hlists : SameLists w (w.setParent r (some (.player p))) :=
      (Alike.setParent r _).toSameLists
    show Grows w (w.playerAddThing p index r) _ r
    unfold playerAddThing
    split
    · refine .before hlists ⟨rfl, fun _ => rfl, fun _ => rfl, fun _ => Nat.le_add_right _ _, fun c x hx => ?_⟩
      cases c with
      | container d => exact .inl hx
      | tile t => exact .inl hx
      | player q =>
        obtain ⟨i, hi, hxi⟩ := mem_children_player.mp hx
        by_cases hq : q = p
        · subst hq
          simp only [setPlayer, Function.update_self, Function.update_apply] at hxi
          split at hxi
          · exact .inr (Option.some.inj hxi).symm
          · exact .inl (mem_children_player.mpr ⟨i, hi, hxi⟩)
        · simp only [setPlayer, Function.update_of_ne hq] at hxi
          exact .inl (mem_children_player.mpr ⟨i, hi, hxi⟩)
    · exact .same w _ r
  | tile t => exact tileAddThing_grows t

end World
end ForgottenServer.Things
