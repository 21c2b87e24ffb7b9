import ForgottenServer.Save.HouseTile

/-! # Item ids that are removed from the database

A house is saved under one item database and loaded under another, from which some
ids are gone. Records have no length: of an item whose type is unknown the reader
takes the id, and goes on in the middle of its record. -/
namespace ForgottenServer.Save
open ForgottenServer.Lib.Wire

/-- The server once the ids in `removed` are deleted; `ItemType` of an unknown id is empty. -/
def Server.without (sv : Server) (removed : ℕ → Bool) : Server :=
  { sv with items := fun id => if removed id then { id := 0, moveable := false } else sv.items id }

/-- What is left of a saved item, without the ones whose ids are gone. -/
inductive Reaches (removed : ℕ → Bool) (t : Tree) : Tree → Prop
  | here : Reaches removed t t
  | child {x : Item} {l : List Tree} {u : Tree} : Reaches removed t (.node x l) → removed x.id = false → u ∈ l →
    Reaches removed t u

/-- No id is gone below the ones that are left. -/
def Intact (removed : ℕ → Bool) (t : Tree) : Prop := ∀ u, Reaches removed t u → removed u.item.id = false

mutual

/-- The items that are still known, in the containers that are. -/
def prune (removed : ℕ → Bool) : Tree → Tree
  | .node x l => .node x (pruneAll removed l)

def pruneAll (removed : ℕ → Bool) : List Tree → List Tree
  | [] => []
  | t :: l => if removed t.item.id then pruneAll removed l else prune removed t :: pruneAll removed l

end

section
variable {sv : Server} {removed : ℕ → Bool}

theorem Intact.root {t : Tree} (h : Intact removed t) : removed t.item.id = false := h t .here

theorem Reaches.head {x : Item} {l : List Tree} {t u : Tree} (hx : removed x.id = false) (ht : t ∈ l)
    (h : Reaches removed t u) : Reaches removed (.node x l) u := by
  induction h with
  | here => exact .child .here hx ht
  | child _ hy hu ih => exact .child ih hy hu

theorem Reaches.leaf {x : Item} {u : Tree} (h : Reaches removed (.node x []) u) : u = .node x [] := by
  induction h with
  | here => rfl
  | child _ _ hmem ih =>
    cases ih
    cases hmem

theorem Intact.child {x : Item} {l : List Tree} (h : Intact removed (.node x l)) : ∀ t ∈ l, Intact removed t :=
  fun _ ht u hu => h u (hu.head h.root ht)

mutual

theorem prune_intact : ∀ t : Tree, Intact removed t → prune removed t = t
  | .node x l, h => by rw [prune, pruneAll_intact l h.child]

theorem pruneAll_intact : ∀ l : List Tree, (∀ t ∈ l, Intact removed t) → pruneAll removed l = l
  | [], _ => rfl
  | t :: l, h => by
    have ht := h t (by simp)
    rw [pruneAll, ht.root, if_neg Bool.false_ne_true, prune_intact t ht,
      pruneAll_intact l fun u hu => h u (List.mem_cons_of_mem t hu)]

end

theorem without_items {id : ℕ} (h : removed id = false) : (sv.without removed).items id = sv.items id := by
  simp only [Server.without, h, Bool.false_eq_true, if_false]

/-- The type of an id that no item has. -/
def unknown : ItemType := { id := 0, moveable := false }

theorem removed_items {id : ℕ} (h : removed id = true) : (sv.without removed).items id = unknown := by
  simp only [Server.without, h, if_true]
  rfl

theorem unknown_classOf : unknown.classOf = .item := rfl

theorem without_type {x : Item} (h : removed x.id = false) : x.type (sv.without removed) = x.type sv :=
  without_items h

theorem without_classOf {x : Item} (h : removed x.id = false) : x.classOf (sv.without removed) = x.classOf sv := by
  rw [Item.classOf, without_type h, Item.classOf]

theorem writeAttr_without {x : Item} (h : removed x.id = false) :
    x.writeAttr (sv.without removed) = x.writeAttr sv := by
  have hattr : x.serializeAttr (sv.without removed) = x.serializeAttr sv := by
    simp only [Item.serializeAttr, Item.writeSubType, Item.getSubType, without_type h]
  rw [Item.writeAttr, without_classOf h, hattr, Item.writeAttr]

mutual

theorem saveItem_without : ∀ t : Tree, Intact removed t → saveItem (sv.without removed) t = saveItem sv t
  | .node x l, h => by
    have hx : removed x.id = false := h.root
    rw [saveItem, saveItem, writeAttr_without hx, containerHeader, without_classOf hx,
      containerHeader, saveReversed_without l h.child]

theorem saveReversed_without : ∀ l : List Tree, (∀ t ∈ l, Intact removed t) →
    saveReversed (sv.without removed) l = saveReversed sv l
  | [], _ => rfl
  | t :: l, h => by
    rw [saveReversed, saveReversed, saveItem_without t (h t (by simp)),
      saveReversed_without l fun u hu => h u (List.mem_cons_of_mem t hu)]

end

theorem without_create {id n : ℕ} (h : removed id = false) (hcreate : Item.create sv id = some (Item.new sv id n)) :
    ∃ m, Item.create (sv.without removed) id = some (Item.new (sv.without removed) id m) := by
  have hcreateId : Decay.Item.createId (fun id => ((sv.without removed).items id).toItemType) id =
      Decay.Item.createId (fun id => (sv.items id).toItemType) id := by
    simp only [Decay.Item.createId, without_items h]
  simp only [Item.create, without_items h, hcreateId] at hcreate ⊢
  by_cases hgone : (sv.items id).group = .deprecated ∨ (sv.items id).id = 0
  · rw [if_pos hgone] at hcreate
    cases hcreate
  · rw [if_neg hgone] at hcreate ⊢
    by_cases hclass : (sv.items id).classOf ≠ .item
    · rw [if_pos hclass]
      exact ⟨_, rfl⟩
    · rw [if_neg hclass] at hcreate ⊢
      -- the new item has the id that was asked for
      have hid := congrArg Item.id (Option.some.inj hcreate)
      rw [(Item.new_sameTexts sv _ _).id, (Item.new_sameTexts sv _ _).id] at hid
      rw [show Decay.Item.createId (fun id => (sv.items id).toItemType) id = id from hid]
      exact ⟨_, rfl⟩

theorem Loadable.without {t : Tree} (ht : Loadable sv t) (h : Intact removed t) : Loadable (sv.without removed) t := by
  induction ht with
  | @node x l hrange hid hcreate hregular hlocker hleaf hsize _ ih =>
    have hx : removed x.id = false := h.root
    have hclass : x.classOf (sv.without removed) = x.classOf sv := without_classOf hx
    obtain ⟨n, hcreate⟩ := hcreate
    rw [← hclass] at hregular hlocker hleaf
    refine .node hrange hid (without_create hx hcreate) (fun hdoor hbed => ?_) hlocker hleaf hsize fun t ht =>
      ih t ht (h.child t ht)
    have hreg := hregular hdoor hbed
    have htype : x.type (sv.without removed) = x.type sv := without_type hx
    exact ⟨by rw [htype]; exact hreg.charges, by rw [htype]; exact hreg.duration,
      by rw [htype]; exact hreg.count⟩

theorem Server.Sane.without (hsane : sv.Sane) : (sv.without removed).Sane where
  id id := by
    unfold Server.without
    dsimp only
    split_ifs
    · exact .inl rfl
    · exact hsane.id id
  holder id h := by
    unfold Server.without at h ⊢
    dsimp only at h ⊢
    split_ifs at h ⊢
    · decide
    · exact hsane.holder id h
  fixed id h := by
    unfold Server.without at h ⊢
    dsimp only at h ⊢
    split_ifs at h ⊢
    · exact ⟨rfl, rfl⟩
    · exact hsane.fixed id h

theorem isCreated_without {t : Tree} (h : removed t.item.id = false) :
    isCreated (sv.without removed) t = isCreated sv t := by
  rw [isCreated, without_type h, isCreated]

theorem isSaved_without {t : Tree} (h : removed t.item.id = false) :
    isSaved (sv.without removed) t = isSaved sv t := by
  rw [isSaved, without_type h, without_classOf h, isSaved]

theorem isSaved_removed {t : Tree} (h : removed t.item.id = true) : isSaved (sv.without removed) t = false := by
  simp only [isSaved, Item.classOf, Item.type, removed_items h, unknown_classOf]
  rfl

theorem created_without {l : List Tree} (h : ∀ t ∈ l, removed t.item.id = false) :
    created (sv.without removed) l = created sv l :=
  List.filter_congr fun t ht => isCreated_without (h t ht)

variable {tile : Tile}

theorem filter_isSaved_without {l : List Tree} (h : ∀ t ∈ l, isSaved sv t = true → removed t.item.id = false) :
    l.filter (isSaved (sv.without removed)) = l.filter (isSaved sv) := by
  refine List.filter_congr fun t ht => ?_
  by_cases hid : removed t.item.id = true
  · rw [isSaved_removed hid]
    by_contra hsaved
    have := h t ht (by simpa using Ne.symm hsaved)
    rw [hid] at this
    cases this
  · rw [Bool.not_eq_true] at hid
    exact isSaved_without hid

theorem created_saved_without {l : List Tree} (h : ∀ t ∈ l, isSaved sv t = true → removed t.item.id = false) :
    created (sv.without removed) l = created sv l := by
  rw [← created_saved, filter_isSaved_without h, created_without, created_saved]
  intro t ht
  exact h t (List.mem_filter.mp ht).1 (List.mem_filter.mp ht).2

/-! ## Loading under the new database -/

theorem saveTile_without (h : ∀ t ∈ saved sv tile, Intact removed t) :
    saveTile (sv.without removed) tile = saveTile sv tile := by
  have hsaved : (tile.down ++ tile.top).filter (isSaved (sv.without removed)) = saved sv tile :=
    filter_isSaved_without fun t ht hsaved => (h t (List.mem_filter.mpr ⟨ht, hsaved⟩)).root
  have hbytes : (saved sv tile).reverse.flatMap (saveItem (sv.without removed)) =
      (saved sv tile).reverse.flatMap (saveItem sv) :=
    List.flatMap_congr fun t ht => saveItem_without t (h t (List.mem_reverse.mp ht))
  rw [saveTile, hsaved, hbytes, saveTile]
  rfl

theorem Savable.without {base : Tile} (hsave : Savable sv tile base) (h : ∀ t ∈ saved sv tile, Intact removed t)
    (hbase : ∀ t ∈ base.down ++ base.top, removed t.item.id = false) : Savable (sv.without removed) tile base := by
  have hleft : ∀ t ∈ tile.down ++ tile.top, isSaved sv t = true → removed t.item.id = false :=
    fun t ht hsaved =>
    (h t (List.mem_filter.mpr ⟨ht, hsaved⟩)).root
  have hback : ∀ t ∈ tile.down ++ tile.top, isSaved (sv.without removed) t = true → isSaved sv t = true := by
    intro t ht hsaved
    by_cases hid : removed t.item.id = true
    · rw [isSaved_removed hid] at hsaved
      cases hsaved
    · rw [Bool.not_eq_true] at hid
      rw [← isSaved_without hid]
      exact hsaved
  have htop : created (sv.without removed) tile.top = created sv tile.top :=
    created_saved_without fun t ht => hleft t (List.mem_append_right _ ht)
  refine ⟨hsave.position, fun t ht hsaved => ?_, fun t ht hsaved => ?_, fun t ht hsaved => ?_, ?_, hsave.size, ?_, ?_⟩
  · have hmem : t ∈ saved sv tile := List.mem_filter.mpr ⟨ht, hback t ht hsaved⟩
    exact (hsave.loadable t ht (hback t ht hsaved)).without (h t hmem)
  · have hmem : t ∈ tile.down ++ tile.top := List.mem_append_left _ ht
    rw [IsDown, without_type (hleft t hmem (hback t hmem hsaved))]
    exact hsave.down t ht (hback t hmem hsaved)
  · have hmem : t ∈ tile.down ++ tile.top := List.mem_append_right _ ht
    rw [IsTop, without_type (hleft t hmem (hback t hmem hsaved))]
    exact hsave.top t ht (hback t hmem hsaved)
  · rw [htop]
    refine hsave.order.imp_of_mem fun {t u} ht hu horder => ?_
    have hid : ∀ t ∈ created sv tile.top, removed t.item.id = false := fun t ht =>
      hleft t (List.mem_append_right _ (List.mem_filter.mp ht).1) (isSaved_of_created (List.mem_filter.mp ht).2)
    rw [without_type (hid t ht), without_type (hid u hu)]
    exact horder
  · rw [created_without hbase]
    exact hsave.stationary
  · rw [created_saved_without hleft]
    exact hsave.room

/-- Under the new database the saved items that are left are recovered, with what is left in
them, and the reader ends behind the record of every item whose id is gone. -/
structure Resilient (sv : Server) (removed : ℕ → Bool) (getTile : ℕ × ℕ × ℕ → Option Tile)
    (tile base : Tile) : Prop where
  recovers : ∀ r, ∃ final, loadTile (sv.without removed) getTile (saveTile sv tile ++ r) = some (final, r) ∧
    Recovered (sv.without removed) (pruneAll removed (tile.savedDown sv)) (pruneAll removed (tile.savedTop sv))
      base final
  skips : ∀ t ∈ saved sv tile, removed t.item.id = true → ∀ r,
    (loadItem (sv.without removed) base (saveItem sv t ++ r)).2.2 = r
  skipsInside : ∀ t ∈ saved sv tile, ∀ x l, Reaches removed t (.node x l) → removed x.id = false →
    ∀ u ∈ l, removed u.item.id = true → ∀ n r,
      (loadWith (loadNew (sv.without removed) (n + 1)) (saveItem sv u ++ r)).2.2 = r

theorem create_removed {id : ℕ} (h : removed id = true) : Item.create (sv.without removed) id = none := by
  simp only [Item.create, removed_items h]
  rfl

theorem loadWith_removed {t : Tree} (hid : t.item.id < 256 ^ 2) (h : removed t.item.id = true) (n : ℕ) (r : Bytes) :
    loadWith (loadNew (sv.without removed) (n + 1)) (saveItem sv t ++ r) = (true, none, saveBody sv t ++ r) := by
  rw [loadWith, saveItem_eq, List.append_assoc, read_encode, Nat.mod_eq_of_lt hid]
  simp only [loadNew, create_removed h]

theorem loadItem_removed {t : Tree} (hid : t.item.id < 256 ^ 2) (h : removed t.item.id = true)
    {base : Tile} (hbase : ∀ t ∈ base.down ++ base.top, removed t.item.id = false) (r : Bytes) :
    loadItem (sv.without removed) base (saveItem sv t ++ r) = (true, base, saveBody sv t ++ r) := by
  have hnone : (base.down ++ base.top).find? (isCounterpart (sv.without removed) t.item.id) =
      none := by
    rw [List.find?_eq_none]
    intro u hu hc
    have hne : u.item.id ≠ t.item.id := by
      intro heq
      have := hbase u hu
      rw [heq, h] at this
      cases this
    simp [isCounterpart, removed_items h, unknown, hne] at hc
  rw [loadItem, saveItem_eq, List.append_assoc, read_encode, Nat.mod_eq_of_lt hid]
  simp only [removed_items h, unknown, hnone, create_removed h]
  rfl

theorem Loadable.id_lt {t : Tree} (ht : Loadable sv t) : t.item.id < 256 ^ 2 := by
  cases ht with
  | node _ hid => exact hid

theorem Loadable.reaches {t u : Tree} (ht : Loadable sv t) (h : Reaches removed t u) : Loadable sv u := by
  induction h with
  | here => exact ht
  | child _ _ hu ih => exact ih.child _ hu

theorem saveBody_ne (t : Tree) (r : Bytes) : saveBody sv t ++ r ≠ r := by
  intro h
  have hlength := congrArg List.length h
  have hpos : 0 < (saveBody sv t).length := saveBody_pos t
  rw [List.length_append] at hlength
  omega

/-- Loading stands the removal of ids exactly when no saved item has one, as far as the
containers around it are left. -/
theorem resilient_iff_intact (hsane : sv.Sane) {base : Tile} (hsave : Savable sv tile base)
    (hsome : saved sv tile ≠ []) (hbase : ∀ t ∈ base.down ++ base.top, removed t.item.id = false)
    {getTile : ℕ × ℕ × ℕ → Option Tile} (hget : getTile tile.position = some base) :
    Resilient sv removed getTile tile base ↔ ∀ t ∈ saved sv tile, Intact removed t := by
  have hload : ∀ t ∈ saved sv tile, Loadable sv t := fun t ht =>
    hsave.loadable t (List.mem_filter.mp ht).1 (List.mem_filter.mp ht).2
  constructor
  · intro h t ht u hu
    by_contra hid
    rw [Bool.not_eq_false] at hid
    have hlt : u.item.id < 256 ^ 2 := ((hload t ht).reaches hu).id_lt
    cases hu with
    | here =>
      have hrest := h.skips t ht hid []
      rw [loadItem_removed hlt hid hbase] at hrest
      exact saveBody_ne t [] hrest
    | child hreach hx hmem =>
      have hrest := h.skipsInside t ht _ _ hreach hx u hmem hid 0 []
      rw [loadWith_removed hlt hid] at hrest
      exact saveBody_ne u [] hrest
  · intro h
    have hsave' : Savable (sv.without removed) tile base := hsave.without h hbase
    have hdown : (tile.down).filter (isSaved (sv.without removed)) = tile.savedDown sv :=
      filter_isSaved_without fun t ht hsaved =>
        (h t (List.mem_filter.mpr ⟨List.mem_append_left _ ht, hsaved⟩)).root
    have htop : (tile.top).filter (isSaved (sv.without removed)) = tile.savedTop sv :=
      filter_isSaved_without fun t ht hsaved =>
        (h t (List.mem_filter.mpr ⟨List.mem_append_right _ ht, hsaved⟩)).root
    have hsplit : saved sv tile = tile.savedDown sv ++ tile.savedTop sv := List.filter_append _ _
    have hsome' : saved (sv.without removed) tile ≠ [] := by
      rw [saved, List.filter_append, hdown, htop, ← hsplit]
      exact hsome
    refine ⟨fun r => ?_, fun t ht hid => ?_, fun t ht x l hreach hx u hu hid => ?_⟩
    · have hrecovered := receiveAll_recovered hsane.without hsave'
      rw [Tile.savedDown, Tile.savedTop, hdown, htop] at hrecovered
      rw [pruneAll_intact _ fun t ht => h t (by rw [hsplit]; exact List.mem_append_left _ ht),
        pruneAll_intact _ fun t ht => h t (by rw [hsplit]; exact List.mem_append_right _ ht),
        ← saveTile_without h]
      exact ⟨_, loadTile_saved hsane.without hsave' hsome' hget r, hrecovered⟩
    · rw [(h t ht).root] at hid
      cases hid
    · rw [h t ht u (.child hreach hx hu)] at hid
      cases hid

end

/-- An id is gone that the tile does not have. -/
theorem resilient_iff_intact_study : Resilient furniture (fun id => id == 1234) (fun _ => some studyOnMap) study
      studyOnMap ↔ ∀ t ∈ saved furniture study, Intact (fun id => id == 1234) t :=
  resilient_iff_intact furniture_sane study_savable (List.cons_ne_nil bagWithSword [blackboard]) (fun t ht => by
      have hmem : t = blackboard := by simpa [studyOnMap] using ht
      rw [hmem]
      rfl) rfl

def shield : Tree := .node { id := 2500 } []

/-- A shield that lies on a sword. -/
def armory : Tile where
  position := (100, 200, 7)
  down := [shield, .node { id := 2400 } []]

def emptyArmory : Tile where
  position := (100, 200, 7)

theorem armory_savable : Savable furniture armory emptyArmory where
  position := by decide
  loadable t ht _ := by
    have hmem : t = shield ∨ t = .node { id := 2400 } [] := by simpa [armory] using ht
    rcases hmem with rfl | rfl
    · exact thing_loadable (by decide) rfl rfl
    · exact thing_loadable (by decide) rfl rfl
  down t ht _ := by
    have hmem : t = shield ∨ t = .node { id := 2400 } [] := by simpa [armory] using ht
    rcases hmem with rfl | rfl
    · exact ⟨by decide, by decide⟩
    · exact ⟨by decide, by decide⟩
  top t ht _ := by cases ht
  order := List.Pairwise.nil
  size := by decide
  stationary := rfl
  room := by decide

/-- The sword is written first. Its record is not read to its end, and the shield is lost. -/
theorem shield_is_lost : ¬ ∀ (sv : Server) (removed : ℕ → Bool) (tile base final : Tile)
    (rest : Bytes), sv.Sane → Savable sv tile base →
      loadTile (sv.without removed) (fun _ => some base) (saveTile sv tile) = some (final, rest) →
      ∀ t ∈ saved sv tile, Intact removed t → ∃ u ∈ final.down ++ final.top, u.item.id = t.item.id := by
  intro h
  have hintact : Intact (fun id => id == 2400) shield := by
    intro u hu
    rw [hu.leaf]
    rfl
  obtain ⟨u, hu, -⟩ := h furniture (fun id => id == 2400) armory emptyArmory emptyArmory _ furniture_sane
    armory_savable rfl shield (List.mem_cons_self ..) hintact
  cases hu

end ForgottenServer.Save
