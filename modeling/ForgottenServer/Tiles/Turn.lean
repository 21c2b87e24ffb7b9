import ForgottenServer.Tiles.Tile
import Mathlib.Data.List.Nodup

/-! # What an operation does to a tile

Every operation of a tile takes one item off, puts one on, or does both. A turn
says which and where; what holds of tiles is proved for turns. -/
namespace ForgottenServer.Tiles

variable {types : ℕ → ItemType} {t t' : Tile} {x y : Item}

/-- No two items on the tile have the same reference. -/
def Distinct (t : Tile) : Prop := (t.contents.map (·.ref)).Nodup

instance (t : Tile) : Decidable (Distinct t) := inferInstanceAs (Decidable (List.Nodup _))

/-- One change of a tile: the item that leaves it and the item that comes. -/
inductive Turn (types : ℕ → ItemType) (t : Tile) : Option Item → Option Item → Tile → Prop
  | idle : Turn types t none none t
  | takeGround {x : Item} (h : t.ground = some x) :
    Turn types t (some x) none (Tile.resetTileFlags types { t with ground := none } x)
  | takeTop {x : Item} {l l' : List Item} (h : t.topItems = l ++ x :: l') :
    Turn types t (some x) none (Tile.resetTileFlags types { t with items := t.downItems ++ (l ++ l') } x)
  | takeDown {x : Item} {l l' : List Item} (h : t.downItems = l ++ x :: l') :
    Turn types t (some x) none (Tile.resetTileFlags types
      { t with items := l ++ l' ++ t.topItems, downItemCount := t.downItemCount - 1 } x)
  | crowd {l : List ℕ} (h : t.creatures.Nodup → l.Nodup) : Turn types t none none { t with creatures := l }
  | recount (r count : ℕ) : Turn types t none none (t.modify r (·.takeCount count))
  | putGround {x : Item} (h : t.ground = none) :
    Turn types t none (some x) (Tile.setTileFlags types { t with ground := some x } x)
  | putTop {x : Item} {l l' : List Item} (h : t.topItems = l ++ l') (hroom : t.items.length < 0xFFFF)
    (htop : (x.type types).alwaysOnTop = true)
    (hbelow : ∀ y ∈ l, (y.type types).alwaysOnTopOrder ≤ (x.type types).alwaysOnTopOrder)
    (habove : ∀ y ∈ l'.head?, (x.type types).alwaysOnTopOrder ≤ (y.type types).alwaysOnTopOrder) :
    Turn types t none (some x) (Tile.setTileFlags types { t with items := t.downItems ++ (l ++ x :: l') } x)
  | putDown {x : Item} (hroom : t.items.length < 0xFFFF) (hdown : (x.type types).alwaysOnTop = false) :
    Turn types t none (some x) (t.putDown types x)
  | swapGround {old x : Item} (h : t.ground = some old) :
    Turn types t (some old) (some x) (Tile.exchanged types { t with ground := some x } old x)
  | swapTop {old x : Item} {l l' : List Item} (h : t.topItems = l ++ old :: l') :
    Turn types t (some old) (some x) (Tile.exchanged types { t with items := t.downItems ++ (l ++ x :: l') } old x)
  | swapDown {old x : Item} {l l' : List Item} (h : t.downItems = l ++ old :: l') :
    Turn types t (some old) (some x) (Tile.exchanged types { t with items := l ++ x :: l' ++ t.topItems } old x)
  | become {x : Item} (itemId count : ℕ) (h : x ∈ t.contents) :
    Turn types t (some x) (some (x.become types itemId count))
      (((t.resetTileFlags types x).modify x.ref fun _ => x.become types itemId count).setTileFlags types
        (x.become types itemId count))

namespace Tile

@[simp] theorem setTileFlags_ground : (t.setTileFlags types x).ground = t.ground := rfl
@[simp] theorem setTileFlags_items : (t.setTileFlags types x).items = t.items := rfl
@[simp] theorem setTileFlags_downItemCount : (t.setTileFlags types x).downItemCount = t.downItemCount := rfl
@[simp] theorem setTileFlags_creatures : (t.setTileFlags types x).creatures = t.creatures := rfl
@[simp] theorem resetTileFlags_ground : (t.resetTileFlags types x).ground = t.ground := rfl
@[simp] theorem resetTileFlags_items : (t.resetTileFlags types x).items = t.items := rfl
@[simp] theorem resetTileFlags_downItemCount : (t.resetTileFlags types x).downItemCount = t.downItemCount := rfl
@[simp] theorem resetTileFlags_creatures : (t.resetTileFlags types x).creatures = t.creatures := rfl

theorem items_eq (t : Tile) : t.items = t.downItems ++ t.topItems :=
  (List.take_append_drop _ _).symm

theorem mem_top (h : x ∈ t.topItems) : x ∈ t.contents := by
  rw [contents, items_eq]
  simp [h]

theorem mem_down (h : x ∈ t.downItems) : x ∈ t.contents := by
  rw [contents, items_eq]
  simp [h]

theorem mem_ground (h : t.ground = some x) : x ∈ t.contents := by simp [contents, h]

theorem find_mem {r : ℕ} (h : t.find r = some x) : x ∈ t.contents := List.mem_of_find?_eq_some h

end Tile

theorem Distinct.eq (h : Distinct t) (hx : x ∈ t.contents) (hy : y ∈ t.contents) (href : x.ref = y.ref) : x = y :=
  List.inj_on_of_nodup_map h hx hy href

theorem oldSplash_mem {old : Item} (h : t.oldSplash types x = some old) : old ∈ t.topItems := by
  unfold Tile.oldSplash at h
  split at h
  · exact List.mem_of_find?_eq_some h
  · cases h

theorem oldField_mem {old : Item} (h : t.oldField types x = some old) : old ∈ t.downItems := by
  unfold Tile.oldField at h
  split at h
  · exact List.mem_of_find?_eq_some h
  · cases h

theorem Distinct.eraseP (h : Distinct t) (hx : x ∈ t.contents) {l : List Item}
    (hl : ∀ y ∈ l, y ∈ t.contents) (hany : l.any (fun y => y.ref = x.ref) = true) :
    ∃ l₁ l₂, l = l₁ ++ x :: l₂ ∧ l.eraseP (fun y => y.ref = x.ref) = l₁ ++ l₂ := by
  obtain ⟨y, hy, href⟩ := List.any_eq_true.mp hany
  obtain ⟨z, l₁, l₂, -, hz, hsplit, herase⟩ :=
    List.exists_of_eraseP (p := fun y => decide (y.ref = x.ref)) hy href
  have hzx : z = x := h.eq (hl z (by simp [hsplit])) hx (of_decide_eq_true hz)
  subst hzx
  exact ⟨l₁, l₂, hsplit, herase⟩

theorem insertBefore_split (before : Item → Bool) (x : Item) (l : List Item) :
    ∃ l₁ l₂, l = l₁ ++ l₂ ∧ Tile.insertBefore before x l = l₁ ++ x :: l₂ ∧ (∀ y ∈ l₁, before y = false) ∧
      ∀ y ∈ l₂.head?, before y = true := by
  induction l with
  | nil => exact ⟨[], [], rfl, rfl, by simp, by simp⟩
  | cons z l ih =>
    by_cases hz : before z = true
    · exact ⟨[], z :: l, rfl, by simp [Tile.insertBefore, hz], by simp, by simpa using hz⟩
    · obtain ⟨l₁, l₂, hl, hins, hfalse, hhead⟩ := ih
      refine ⟨z :: l₁, l₂, by simp [hl], by simp [Tile.insertBefore, hz, hins], ?_, hhead⟩
      intro y hy
      rcases List.mem_cons.mp hy with rfl | hy
      · simpa using hz
      · exact hfalse y hy

namespace Tile

/-- `removeThing` takes the item off rather than some of its count, and finds it. -/
def takesOff (types : ℕ → ItemType) (t : Tile) (x : Item) (count : ℕ) : Bool :=
  t.getThingIndex types (.item x) ≠ -1 &&
    (t.ground = some x || (x.type types).alwaysOnTop || !((x.type types).stackable && count ≠ x.count))

/-- The item that `addThing` takes off to make place. -/
def displaced (types : ℕ → ItemType) (t : Tile) (x : Item) : Option Item :=
  if 0xFFFF ≤ t.items.length then none
  else if (x.type types).group = .ground then t.ground
  else if (x.type types).alwaysOnTop then (t.oldSplash types x).filter (t.takesOff types · 1)
  else (t.oldField types x).filter fun y => (y.type types).replaceable && t.takesOff types y 1

/-- `addThing` has room for the item, and no field refuses it. -/
def accepts (types : ℕ → ItemType) (t : Tile) (x : Item) : Bool :=
  t.items.length < 0xFFFF && ((x.type types).group = .ground || (x.type types).alwaysOnTop ||
    (t.oldField types x).all fun y => (y.type types).replaceable)

end Tile

section Actions
open Tile

def taken (types : ℕ → ItemType) (t : Tile) : Action → Option Item
  | .addThing (.item x) => t.displaced types x
  | .updateThing r _ _ => (t.find r).filter fun x => t.getThingIndex types (.item x) ≠ -1
  | .replaceThing index _ =>
    match t.getThing index with
    | some (.item old) => some old
    | _ => none
  | .removeThing r count => (t.find r).filter (t.takesOff types · count)
  | _ => none

def put (types : ℕ → ItemType) (t : Tile) : Action → Option Item
  | .addThing (.item x) => if t.accepts types x then some x else none
  | .internalAddThing (.item x) =>
    if (if (x.type types).group = .ground then t.ground.isNone else t.items.length < 0xFFFF) then some x else none
  | .updateThing r itemId count => (taken types t (.updateThing r itemId count)).map (·.become types itemId count)
  | .replaceThing index x => (taken types t (.replaceThing index x)).map fun _ => x
  | _ => none

/-- What an action does: one turn, or one that makes place for the other. `swap` is
known of an item that another one takes the place of, `twice` if there are two turns. -/
inductive Turns (types : ℕ → ItemType) (swap : Item → Prop) (twice : Prop) (t : Tile) :
    Option Item → Option Item → Tile → Prop
  | one {out inn : Option Item} {t' : Tile} (h : Turn types t out inn t')
    (hswap : ∀ x ∈ inn, ∀ old ∈ out, swap old) : Turns types swap twice t out inn t'
  | two {out inn : Option Item} {t₁ t' : Tile} (h : Turn types t out none t₁) (h' : Turn types t₁ none inn t')
    (htwice : twice) : Turns types swap twice t out inn t'

theorem Turns.single {swap : Item → Prop} {twice : Prop} {out inn : Option Item} (h : Turn types t out inn t')
    (hnone : out = none ∨ inn = none) : Turns types swap twice t out inn t' := by
  refine .one h fun x hx old hold => ?_
  rcases hnone with rfl | rfl
  · cases hold
  · cases hx

/-- `addThing` puts an item in the place of another one on the ground only. -/
def Swaps (t : Tile) : Action → Item → Prop
  | .updateThing _ _ _, _ | .replaceThing _ _, _ => True
  | _, old => t.ground = some old

/-- `addThing` alone may take one item off before it puts another one on. -/
def MakesPlace : Action → Prop
  | .addThing _ => True
  | _ => False

theorem any_of_index (hindex : t.getThingIndex types (.item x) ≠ -1)
    (hground : t.ground.any (fun y => y.ref = x.ref) = false) :
    (if (x.type types).alwaysOnTop then t.topItems else t.downItems).any (fun y => y.ref = x.ref) = true := by
  unfold getThingIndex at hindex
  simp only [hground, Bool.false_eq_true, if_false] at hindex
  by_contra hany
  rw [Bool.not_eq_true, List.any_eq_false] at hany
  split at hindex
  · rename_i htop
    rw [if_pos htop] at hany
    rw [List.findIdx?_eq_none_iff.mpr fun y hy => by simpa using hany y hy] at hindex
    exact hindex rfl
  · rename_i htop
    rw [if_neg htop] at hany
    rw [List.findIdx?_eq_none_iff.mpr fun y hy => by simpa using hany y hy] at hindex
    exact hindex rfl

theorem removeItem_turn (types : ℕ → ItemType) (hdistinct : Distinct t) (hx : x ∈ t.contents) (count : ℕ) :
    Turn types t (if t.takesOff types x count then some x else none) none (t.removeItem types x count) := by
  unfold removeItem takesOff
  by_cases hindex : t.getThingIndex types (.item x) = -1
  · simpa [hindex] using .idle
  have hany := any_of_index hindex
  simp only [hindex, if_false, ne_eq, not_false_eq_true, decide_true, Bool.true_and]
  cases hground : t.ground.any (fun y => y.ref = x.ref) with
  | true =>
    obtain ⟨g, hg, href⟩ := (Option.any_eq_true _ _).mp hground
    have hgx : g = x := hdistinct.eq (mem_ground hg) hx (of_decide_eq_true href)
    subst hgx
    simpa [hg] using .takeGround hg
  | false =>
    have hnot : t.ground ≠ some x := by
      intro hg
      simp [hg] at hground
    have hany := hany hground
    simp only [hnot, decide_false, Bool.false_or, Bool.false_eq_true, if_false]
    by_cases htop : (x.type types).alwaysOnTop = true
    · rw [if_pos htop] at hany
      obtain ⟨l, l', hsplit, herase⟩ := hdistinct.eraseP hx (fun y => mem_top) hany
      simpa only [htop, hany, herase, if_true, Bool.true_or] using .takeTop hsplit
    · rw [if_neg htop] at hany
      obtain ⟨l, l', hsplit, herase⟩ := hdistinct.eraseP hx (fun y => mem_down) hany
      simp only [htop, hany, herase, if_true, if_false, Bool.false_or, Bool.false_eq_true]
      cases hstack : ((x.type types).stackable && decide (count ≠ x.count)) with
      | true => exact .recount x.ref count
      | false => exact .takeDown hsplit

theorem Turn.room {out : Option Item} (h : Turn types t out none t') : t'.items.length ≤ t.items.length := by
  have hparts := congrArg List.length t.items_eq
  rw [List.length_append] at hparts
  cases h with
  | idle => exact le_refl _
  | takeGround hx => exact le_refl _
  | takeTop hsplit =>
    rw [resetTileFlags_items]
    simp [hsplit] at hparts ⊢
    omega
  | takeDown hsplit =>
    rw [resetTileFlags_items]
    simp [hsplit] at hparts ⊢
    omega
  | crowd hcrowd => exact le_refl _
  | recount r count => simp [Tile.modify]

theorem putOnTop_turn {before : Item → Bool} (hroom : t.items.length < 0xFFFF)
    (htop : (x.type types).alwaysOnTop = true)
    (hbelow : ∀ y, before y = false → (y.type types).alwaysOnTopOrder ≤ (x.type types).alwaysOnTopOrder)
    (habove : ∀ y, before y = true → (x.type types).alwaysOnTopOrder ≤ (y.type types).alwaysOnTopOrder) :
    Turn types t none (some x) (t.putOnTop types before x) := by
  obtain ⟨l, l', hsplit, hins, hfalse, hhead⟩ := insertBefore_split before x t.topItems
  rw [putOnTop, hins]
  exact .putTop hsplit hroom htop (fun y hy => hbelow y (hfalse y hy)) fun y hy => habove y (hhead y hy)

theorem addItem_turns (hdistinct : Distinct t) (x : Item) :
    Turns types (t.ground = some ·) True t (t.displaced types x) (if t.accepts types x then some x
      else none) (t.addItem types x) := by
  have hidle : Turns types (t.ground = some ·) True t none none t := .single .idle (.inl rfl)
  unfold addItem displaced accepts
  dsimp only
  by_cases hfull : 0xFFFF ≤ t.items.length
  · have hroom : ¬ t.items.length < 0xFFFF := by omega
    simpa [hfull, hroom] using hidle
  have hroom : t.items.length < 0xFFFF := by omega
  simp only [hfull, if_false, hroom, decide_true, Bool.true_and]
  by_cases hgroup : (x.type types).group = .ground
  · simp only [hgroup, if_true, decide_true, Bool.true_or]
    cases hground : t.ground with
    | none => exact .single (.putGround hground) (.inl rfl)
    | some old =>
      refine .one (.swapGround hground) fun y hy z hz => ?_
      exact hz
  simp only [hgroup, if_false, decide_false, Bool.false_or]
  cases htop : (x.type types).alwaysOnTop with
  | true =>
    simp only [if_true, Bool.true_or]
    have hput : ∀ t₁ : Tile, t₁.items.length ≤ t.items.length → Turn types t₁ none (some x) (t₁.putOnTop types
        (fun y => (x.type types).alwaysOnTopOrder ≤ (y.type types).alwaysOnTopOrder) x) := by
      intro t₁ hle
      refine putOnTop_turn (by omega) htop (fun y hy => ?_) fun y hy => of_decide_eq_true hy
      exact (Nat.lt_of_not_le (of_decide_eq_false hy)).le
    cases hold : t.oldSplash types x with
    | none => exact .single (hput t (le_refl _)) (.inl rfl)
    | some old =>
      have hremove := removeItem_turn types hdistinct (mem_top (oldSplash_mem hold)) 1
      exact .two hremove (hput _ hremove.room) trivial
  | false =>
    simp only [Bool.false_or, Bool.false_eq_true, if_false]
    cases hold : t.oldField types x with
    | none => exact .single (.putDown hroom htop) (.inl rfl)
    | some old =>
      have hremove := removeItem_turn types hdistinct (mem_down (oldField_mem hold)) 1
      cases hreplace : (old.type types).replaceable with
      | false => simpa [Option.filter_some, hreplace] using hidle
      | true =>
        simp only [hreplace, if_true, Option.filter_some, Option.all_some, Bool.true_and]
        exact .two hremove (.putDown (by have := hremove.room; omega) htop) trivial

theorem internalAddThing_turns {swap : Item → Prop} {twice : Prop} (x : Item) :
    Turns types swap twice t none (put types t (.internalAddThing (.item x)))
      (t.internalAddThing types (.item x)) := by
  have hidle : Turns types swap twice t none none t := .single .idle (.inl rfl)
  unfold put internalAddThing
  dsimp only
  by_cases hgroup : (x.type types).group = .ground
  · simp only [hgroup, if_true]
    cases hground : t.ground with
    | none => exact .single (.putGround hground) (.inl rfl)
    | some old => exact hidle
  simp only [hgroup, if_false]
  by_cases hfull : 0xFFFF ≤ t.items.length
  · have hroom : ¬ t.items.length < 0xFFFF := by omega
    simpa [hfull, hroom] using hidle
  have hroom : t.items.length < 0xFFFF := by omega
  simp only [hfull, hroom, if_false, decide_true, if_true]
  cases htop : (x.type types).alwaysOnTop with
  | true =>
    refine .single (putOnTop_turn hroom htop (fun y hy => ?_) fun y hy => (of_decide_eq_true hy).le) (.inl rfl)
    exact Nat.le_of_not_lt (of_decide_eq_false hy)
  | false => exact .single (.putDown hroom htop) (.inl rfl)

theorem split_set {l : List Item} {pos : ℕ} {old : Item} (h : l[pos]? = some old) (x : Item) :
    ∃ l₁ l₂, l = l₁ ++ old :: l₂ ∧ l.set pos x = l₁ ++ x :: l₂ := by
  obtain ⟨hpos, hget⟩ := List.getElem?_eq_some_iff.mp h
  refine ⟨l.take pos, l.drop (pos + 1), ?_, ?_⟩
  · conv_lhs => rw [← List.take_append_drop pos l, List.drop_eq_getElem_cons hpos, hget]
  · rw [List.set_eq_take_append_cons_drop, if_pos hpos]

theorem replaceAbove_turn (t : Tile) (pos : ℕ) (x : Item) :
    (t.replaceAbove types pos x = t ∧ ∀ old, t.getAbove pos ≠ some (.item old)) ∨
      ∃ old, t.getAbove pos = some (.item old) ∧ Turn types t (some old) (some x) (t.replaceAbove types pos x) := by
  unfold replaceAbove getAbove
  by_cases htop : pos < t.topItems.length
  · have hget : t.topItems[pos]? = t.items[t.downItemCount.toNat + pos]? := List.getElem?_drop
    obtain ⟨old, hold⟩ : ∃ old, t.topItems[pos]? = some old := ⟨_, List.getElem?_eq_getElem htop⟩
    obtain ⟨l, l', hsplit, hset⟩ := split_set hold x
    simp only [htop, if_true, ← hget, hold, Option.map_some, hset]
    exact .inr ⟨old, rfl, .swapTop hsplit⟩
  simp only [htop, if_false]
  generalize pos - t.topItems.length = pos
  by_cases hcreature : pos < t.creatures.length
  · simp [hcreature]
  simp only [hcreature, if_false]
  generalize pos - t.creatures.length = pos
  by_cases hdown : pos < t.downItemCount.toNat
  · have hget : t.downItems[pos]? = t.items[pos]? := List.getElem?_take_of_lt hdown
    simp only [hdown, if_true, ← hget]
    cases hold : t.downItems[pos]? with
    | none => exact .inl ⟨rfl, by simp⟩
    | some old =>
      obtain ⟨l, l', hsplit, hset⟩ := split_set hold x
      simp only [hset]
      exact .inr ⟨old, rfl, .swapDown hsplit⟩
  · have hnone : t.downItems[pos]? = none := by
      rw [List.getElem?_eq_none_iff, downItems, List.length_take]
      omega
    simp [hdown, hnone]

theorem replaceThing_turns (t : Tile) (index : ℕ) (x : Item) :
    Turns types (fun _ => True) False t (taken types t (.replaceThing index x)) (put types t (.replaceThing index x))
      (t.replaceThing types index x) := by
  have habove : ∀ pos, t.getThing index = t.getAbove pos → t.replaceThing types index x = t.replaceAbove types pos x →
      Turns types (fun _ => True) False t (taken types t (.replaceThing index x)) (put types t (.replaceThing index x))
        (t.replaceThing types index x) := by
    intro pos hget hreplace
    rw [hreplace]
    rcases replaceAbove_turn t pos x with ⟨hsame, hnone⟩ | ⟨old, hold, hturn⟩
    · have htaken : taken types t (.replaceThing index x) = none := by simp only [taken, hget]
      rw [hsame, put, htaken]
      exact .single .idle (.inl rfl)
    · have htaken : taken types t (.replaceThing index x) = some old := by
        simp only [taken, hget, hold]
      rw [put, htaken]
      exact .one hturn fun _ _ _ _ => trivial
  cases hground : t.ground with
  | none =>
    exact habove index (by simp only [getThing, hground]) (by simp only [replaceThing, hground])
  | some g =>
    cases index with
    | succ pos =>
      exact habove pos (by simp only [getThing, hground]) (by simp only [replaceThing, hground])
    | zero =>
      simp only [put, taken, getThing, replaceThing, hground]
      exact .one (.swapGround hground) fun _ _ _ _ => trivial

theorem step_turns (types : ℕ → ItemType) (hdistinct : Distinct t) {a : Action} (hfresh : Fresh t a) :
    Turns types (Swaps t a) (MakesPlace a) t (taken types t a) (put types t a) (step types t a) := by
  have hidle : Turns types (Swaps t a) (MakesPlace a) t none none t := .single .idle (.inl rfl)
  cases a with
  | addThing thing =>
    cases thing with
    | item x => exact addItem_turns hdistinct x
    | creature c => exact .single (.crowd fun h => List.nodup_cons.mpr ⟨hfresh, h⟩) (.inl rfl)
  | internalAddThing thing =>
    cases thing with
    | item x => exact internalAddThing_turns x
    | creature c => exact .single (.crowd fun h => List.nodup_cons.mpr ⟨hfresh, h⟩) (.inl rfl)
  | updateThing r itemId count =>
    simp only [taken, put, step]
    cases hfind : t.find r with
    | none => exact hidle
    | some x =>
      simp only [Option.filter_some, updateItem]
      by_cases hindex : t.getThingIndex types (.item x) = -1
      · simpa [hindex] using hidle
      · have hbecome : Turn types t _ _ _ := .become itemId count (find_mem hfind)
        rw [if_neg hindex, if_pos (decide_eq_true hindex)]
        exact .one hbecome fun _ _ _ _ => trivial
  | replaceThing index x => exact replaceThing_turns t index x
  | removeThing r count =>
    simp only [taken, put, step]
    cases hfind : t.find r with
    | none => exact hidle
    | some x => exact .single (removeItem_turn types hdistinct (find_mem hfind) count) (.inr rfl)
  | removeCreature c => exact .single (.crowd fun h => h.erase c) (.inl rfl)

/-! ## What is left on the tile -/

/-- What of an item the flags of a tile and references to it depend on. -/
def Item.face (types : ℕ → ItemType) (x : Item) : ℕ × (TileState → Bool) := (x.ref, x.shows types)

def Tile.faces (types : ℕ → ItemType) (t : Tile) : List (ℕ × (TileState → Bool)) := t.contents.map (·.face types)

theorem distinct_iff (types : ℕ → ItemType) (t : Tile) : Distinct t ↔ ((t.faces types).map Prod.fst).Nodup := by
  rw [Tile.faces, List.map_map]
  rfl

@[simp] theorem takeCount_face (x : Item) (count : ℕ) : (x.takeCount count).face types = x.face types := rfl

theorem modify_contents (t : Tile) (r : ℕ) (f : Item → Item) :
    (t.modify r f).contents = t.contents.map fun z => if z.ref = r then f z else z := by
  cases hground : t.ground <;> simp [contents, Tile.modify, hground]

theorem contents_perm {a b c : List Item} (h : t.items = a ++ b ++ c) :
    t.contents.Perm (b ++ (t.ground.toList ++ a ++ c)) := by
  have hassoc : t.contents = t.ground.toList ++ a ++ (b ++ c) := by
    rw [contents, h]
    simp only [List.append_assoc]
  rw [hassoc]
  exact List.perm_append_comm_assoc _ _ _

theorem Distinct.apart (h : Distinct t) {rest : List Item} (hperm : t.contents.Perm (x :: rest)) :
    ∀ z ∈ rest, z.ref ≠ x.ref := by
  intro z hz href
  have hnodup : ((x :: rest).map (·.ref)).Nodup := (hperm.map _).nodup_iff.mp h
  rw [List.map_cons, List.nodup_cons] at hnodup
  exact hnodup.1 (href ▸ List.mem_map_of_mem hz)

theorem map_other {r : ℕ} {l : List Item} (hl : ∀ z ∈ l, z.ref ≠ r) (f : Item → Item) :
    l.map (fun z => if z.ref = r then f z else z) = l := by
  conv_rhs => rw [← List.map_id l]
  exact List.map_congr_left fun z hz => by simp [hl z hz]

theorem modify_perm (hdistinct : Distinct t) (hx : x ∈ t.contents) (y : Item) :
    ∃ rest, t.contents.Perm (x :: rest) ∧ (t.modify x.ref fun _ => y).contents.Perm (y :: rest) := by
  obtain ⟨l, l', hsplit⟩ := List.append_of_mem hx
  have hperm : t.contents.Perm (x :: (l ++ l')) := hsplit ▸ List.perm_middle
  have hother := hdistinct.apart hperm
  refine ⟨l ++ l', hperm, ?_⟩
  rw [modify_contents, hsplit, List.map_append, List.map_cons,
    map_other fun z hz => hother z (by simp [hz]), map_other fun z hz => hother z (by simp [hz])]
  simp [List.perm_middle]

/-- Items that stay stay as they are, but for counts. -/
theorem Turn.faces {out inn : Option Item} (h : Turn types t out inn t') (hdistinct : Distinct t) :
    ∃ rest : List Item, (t.faces types).Perm ((out.toList ++ rest).map (·.face types)) ∧
      (t'.faces types).Perm ((inn.toList ++ rest).map (·.face types)) := by
  -- where the vector is cut, the rest is the ground and both ends
  have hcut : ∀ {t' : Tile} (a b b' c : List Item), t.items = a ++ b ++ c → t'.items = a ++ b' ++ c →
      t'.ground = t.ground → ∃ rest : List Item,
      (t.contents.map (·.face types)).Perm ((b ++ rest).map (·.face types)) ∧
        (t'.contents.map (·.face types)).Perm ((b' ++ rest).map (·.face types)) := by
    intro t' a b b' c hitems hitems' hground
    exact ⟨_, (contents_perm hitems).map _, hground ▸ (contents_perm hitems').map _⟩
  unfold Tile.faces
  have hitems := t.items_eq
  cases h with
  | idle => exact ⟨t.contents, .refl _, .refl _⟩
  | takeGround hx => exact ⟨t.items, by simp [contents, hx], by simp [contents]⟩
  | takeTop hsplit =>
    rename_i x l l'
    exact hcut (t.downItems ++ l) [x] [] l' (by simp [hitems, hsplit]) (by simp) rfl
  | takeDown hsplit =>
    rename_i x l l'
    exact hcut l [x] [] (l' ++ t.topItems) (by simp [hitems, hsplit]) (by simp) rfl
  | crowd hcrowd => exact ⟨t.contents, .refl _, .refl _⟩
  | recount r count =>
    refine ⟨t.contents, .refl _, ?_⟩
    rw [modify_contents, List.map_map]
    refine .of_eq (List.map_congr_left fun z hz => ?_)
    rw [Function.comp_apply]
    split
    · exact takeCount_face z count
    · rfl
  | putGround hx => exact ⟨t.items, by simp [contents, hx], by simp [contents]⟩
  | putTop hsplit =>
    rename_i x l l' hroom htop hbelow habove
    exact hcut (t.downItems ++ l) [] [x] l' (by simp [hitems, hsplit]) (by simp) rfl
  | putDown =>
    rename_i x hroom hdown
    exact hcut [] [] [x] t.items rfl rfl rfl
  | swapGround hx => exact ⟨t.items, by simp [contents, hx], by simp [contents, exchanged]⟩
  | swapTop hsplit =>
    rename_i old x l l'
    exact hcut (t.downItems ++ l) [old] [x] l' (by simp [hitems, hsplit]) (by simp [exchanged]) rfl
  | swapDown hsplit =>
    rename_i old x l l'
    exact hcut l [old] [x] (l' ++ t.topItems) (by simp [hitems, hsplit]) (by simp [exchanged]) rfl
  | become itemId count hx =>
    obtain ⟨rest, hold, hnew⟩ := modify_perm hdistinct hx (Item.become types _ itemId count)
    exact ⟨rest, hold.map _, hnew.map _⟩

theorem Distinct.of_faces (hdistinct : Distinct t) {out inn : Option Item} {rest : List Item}
    (hold : (t.faces types).Perm ((out.toList ++ rest).map (·.face types)))
    (hnew : (t'.faces types).Perm ((inn.toList ++ rest).map (·.face types)))
    (hfresh : ∀ y ∈ inn, ∀ z ∈ rest, z.ref ≠ y.ref) : Distinct t' := by
  have hrefs : ∀ l : List Item, (l.map (·.face types)).map Prod.fst = l.map (·.ref) :=
    fun l => List.map_map
  rw [distinct_iff types] at hdistinct ⊢
  rw [(hold.map _).nodup_iff, hrefs, List.map_append] at hdistinct
  rw [(hnew.map _).nodup_iff, hrefs]
  have hrest := (List.nodup_append.mp hdistinct).2.1
  cases inn with
  | none => exact hrest
  | some y =>
    rw [Option.toList_some, List.singleton_append, List.map_cons, List.nodup_cons]
    refine ⟨?_, hrest⟩
    intro hmem
    obtain ⟨z, hz, href⟩ := List.mem_map.mp hmem
    exact hfresh y rfl z hz href

theorem Turns.faces {swap : Item → Prop} {twice : Prop} {out inn : Option Item}
    (h : Turns types swap twice t out inn t') (hdistinct : Distinct t) :
    ∃ rest : List Item, (t.faces types).Perm ((out.toList ++ rest).map (·.face types)) ∧
      (t'.faces types).Perm ((inn.toList ++ rest).map (·.face types)) := by
  cases h with
  | one hturn _ => exact hturn.faces hdistinct
  | two hfirst hsecond _ =>
    obtain ⟨rest, hold, hmid⟩ := hfirst.faces hdistinct
    obtain ⟨rest', hmid', hnew⟩ := hsecond.faces (hdistinct.of_faces hold hmid (by simp))
    refine ⟨rest, hold, hnew.trans ?_⟩
    rw [List.map_append, List.map_append]
    exact (hmid'.symm.trans hmid).append_left _

/-- The items besides the one that leaves. -/
def others (t : Tile) (out : Option Item) : List Item := t.contents.filter fun y => out.all fun x => y.ref ≠ x.ref

theorem mem_others {out : Option Item} : y ∈ others t out ↔ y ∈ t.contents ∧ ∀ x ∈ out, y.ref ≠ x.ref := by
  cases out <;> simp [others]

theorem perm_others (hdistinct : Distinct t) {out : Option Item} {rest : List Item}
    (hold : (t.faces types).Perm ((out.toList ++ rest).map (·.face types))) :
    (rest.map (·.face types)).Perm ((others t out).map (·.face types)) := by
  have hothers : (others t out).map (·.face types) = (t.faces types).filter fun f => out.all fun x => f.1 ≠ x.ref := by
    rw [others, Tile.faces, List.filter_map]
    rfl
  rw [hothers]
  refine ((hold.filter _).trans (.of_eq ?_)).symm
  rw [distinct_iff types, (hold.map _).nodup_iff, List.map_map] at hdistinct
  cases out with
  | none => simp
  | some x =>
    rw [Option.toList_some, List.singleton_append, List.map_cons, List.nodup_cons] at hdistinct
    rw [Option.toList_some, List.singleton_append, List.map_cons, List.filter_cons_of_neg (by simp [Item.face])]
    refine List.filter_eq_self.mpr fun f hf => ?_
    obtain ⟨z, hz, rfl⟩ := List.mem_map.mp hf
    simp only [Option.all_some, decide_eq_true_eq, ne_eq]
    intro href
    exact hdistinct.1 (List.mem_map.mpr ⟨z, hz, href⟩)

/-- The item that comes is not on the tile, or is the one that leaves as it becomes. -/
theorem put_ref {a : Action} (hfresh : Fresh t a) (hput : put types t a = some y) :
    (∀ z ∈ t.contents, z.ref ≠ y.ref) ∨ ∃ x, taken types t a = some x ∧ x.ref = y.ref := by
  cases a with
  | addThing thing =>
    cases thing with
    | item x =>
      rw [put, Option.ite_none_right_eq_some] at hput
      exact .inl (Option.some.inj hput.2 ▸ hfresh)
    | creature c => cases hput
  | internalAddThing thing =>
    cases thing with
    | item x =>
      rw [put, Option.ite_none_right_eq_some] at hput
      exact .inl (Option.some.inj hput.2 ▸ hfresh)
    | creature c => cases hput
  | updateThing r itemId count =>
    obtain ⟨x, hx, rfl⟩ := Option.map_eq_some_iff.mp hput
    exact .inr ⟨x, hx, rfl⟩
  | replaceThing index x =>
    obtain ⟨old, hold, rfl⟩ := Option.map_eq_some_iff.mp hput
    exact .inl hfresh
  | removeThing r count => cases hput
  | removeCreature c => cases hput

theorem step_faces (types : ℕ → ItemType) (hdistinct : Distinct t) {a : Action} (hfresh : Fresh t a) :
    (t.faces types).Perm (((taken types t a).toList ++ others t (taken types t a)).map (·.face types)) ∧
      ((step types t a).faces types).Perm
        (((put types t a).toList ++ others t (taken types t a)).map (·.face types)) := by
  obtain ⟨rest, hold, hnew⟩ := (step_turns types hdistinct hfresh).faces hdistinct
  have hrest := perm_others hdistinct hold
  rw [List.map_append] at hold hnew ⊢
  rw [List.map_append]
  exact ⟨hold.trans (hrest.append_left _), hnew.trans (hrest.append_left _)⟩

theorem step_distinct (hdistinct : Distinct t) {a : Action} (hfresh : Fresh t a) : Distinct (step types t a) := by
  obtain ⟨hold, hnew⟩ := step_faces types hdistinct hfresh
  refine hdistinct.of_faces hold hnew fun y hy z hz => ?_
  obtain ⟨hmem, hout⟩ := mem_others.mp hz
  rcases put_ref hfresh hy with hfree | ⟨x, hx, href⟩
  · exact hfree z hmem
  · exact href ▸ hout x hx

end Actions
end ForgottenServer.Tiles
