import ForgottenServer.Lib.Run
import ForgottenServer.Tiles.Turn

/-! # The stack of a tile

What a tile stands for is a stack: the ground, the top items, the creatures and
the down items, in the order of their indices. The vector keeps the down items
before the top items; every turn of a tile is a turn of its stack. -/
namespace ForgottenServer.Tiles
open ForgottenServer.Lib.Run Tile

variable {types : ℕ → ItemType} {t t' : Tile} {x y : Item}

structure Stack where
  ground : Option Item
  top : List Item
  creatures : List ℕ
  down : List Item

namespace Stack

/-- The things of a stack by their indices. -/
def things (s : Stack) : List Thing :=
  s.ground.toList.map .item ++ (s.top.map .item ++ (s.creatures.map .creature ++ s.down.map .item))

/-- What the turns of a tile are to its stack. -/
inductive Turn (types : ℕ → ItemType) : Stack → Option Item → Option Item → Stack → Prop
  | idle {s : Stack} : Turn types s none none s
  | ground {g g' : Option Item} {u c d} : Turn types ⟨g, u, c, d⟩ g g' ⟨g', u, c, d⟩
  | takeTop {g l l' c d x} : Turn types ⟨g, l ++ x :: l', c, d⟩ (some x) none ⟨g, l ++ l', c, d⟩
  | takeDown {g u c l l' x} : Turn types ⟨g, u, c, l ++ x :: l'⟩ (some x) none ⟨g, u, c, l ++ l'⟩
  | crowd {g u c c' d} (h : c.Nodup → c'.Nodup) : Turn types ⟨g, u, c, d⟩ none none ⟨g, u, c', d⟩
  | putTop {g l l' c d x} (htop : (x.type types).alwaysOnTop = true)
    (hbelow : ∀ y ∈ l, (y.type types).alwaysOnTopOrder ≤ (x.type types).alwaysOnTopOrder)
    (habove : ∀ y ∈ l'.head?, (x.type types).alwaysOnTopOrder ≤ (y.type types).alwaysOnTopOrder) :
    Turn types ⟨g, l ++ l', c, d⟩ none (some x) ⟨g, l ++ x :: l', c, d⟩
  | putDown {g u c d x} (hdown : (x.type types).alwaysOnTop = false) :
    Turn types ⟨g, u, c, d⟩ none (some x) ⟨g, u, c, x :: d⟩
  | swapTop {g l l' c d old x} : Turn types ⟨g, l ++ old :: l', c, d⟩ (some old) (some x) ⟨g, l ++ x :: l', c, d⟩
  | swapDown {g u c l l' old x} : Turn types ⟨g, u, c, l ++ old :: l'⟩ (some old) (some x) ⟨g, u, c, l ++ x :: l'⟩
  | recount {g u c d} (f : Item → Item) (href : ∀ y, (f y).ref = y.ref)
    (htype : ∀ y, (f y).type types = y.type types) :
    Turn types ⟨g, u, c, d⟩ none none ⟨g.map f, u.map f, c, d.map f⟩

end Stack

def Tile.stack (t : Tile) : Stack := ⟨t.ground, t.topItems, t.creatures, t.downItems⟩

/-- The count is that of the down items, and the vector is not longer than it may be. -/
structure Counted (t : Tile) : Prop where
  count : t.downItemCount.toNat = t.downItems.length
  room : t.items.length ≤ 0xFFFF

theorem parts_eq {d u : List Item} (hitems : t.items = d ++ u) (hcount : t.downItemCount.toNat = d.length) :
    t.downItems = d ∧ t.topItems = u := by
  rw [downItems, topItems, hitems, hcount]
  exact ⟨List.take_left, List.drop_left⟩

theorem Counted.of_parts {d u : List Item} (hitems : t.items = d ++ u)
    (hcount : t.downItemCount.toNat = d.length) (hroom : t.items.length ≤ 0xFFFF) : Counted t where
  count := by rw [(parts_eq hitems hcount).1, hcount]
  room := hroom

section Refines
variable {out inn : Option Item}

theorem refines_of {s : Stack} {d u : List Item} (hitems : t.items = d ++ u)
    (hcount : t.downItemCount.toNat = d.length) (hroom : d.length + u.length ≤ 0xFFFF)
    (hturn : Stack.Turn types s out inn ⟨t.ground, u, t.creatures, d⟩) :
    Counted t ∧ Stack.Turn types s out inn t.stack := by
  obtain ⟨hdown, htop⟩ := parts_eq hitems hcount
  refine ⟨.of_parts hitems hcount (by rw [hitems, List.length_append]; exact hroom), ?_⟩
  rw [Tile.stack, hdown, htop]
  exact hturn

theorem ground_other {r : ℕ} (h : ∀ g ∈ t.ground, g.ref ≠ r) (f : Item → Item) :
    t.ground.map (fun z => if z.ref = r then f z else z) = t.ground := by
  cases hg : t.ground with
  | none => rfl
  | some g => rw [Option.map_some, if_neg (h g hg)]

theorem modify_swaps (hdistinct : Distinct t) (hx : x ∈ t.contents) (y : Item) :
    Stack.Turn types t.stack (some x) (some y) ⟨t.ground.map fun z => if z.ref = x.ref then y else z,
      t.topItems.map fun z => if z.ref = x.ref then y else z, t.creatures,
      t.downItems.map fun z => if z.ref = x.ref then y else z⟩ := by
  have hself : (if x.ref = x.ref then y else x) = y := if_pos rfl
  rw [contents, items_eq, List.mem_append, List.mem_append] at hx
  rw [Tile.stack]
  rcases hx with hx | hx | hx
  · have hground : t.ground = some x := Option.mem_toList.mp hx
    have hother : ∀ z ∈ t.items, z.ref ≠ x.ref := hdistinct.apart (by rw [contents, hground]; rfl)
    rw [items_eq] at hother
    rw [hground, Option.map_some, hself, map_other fun z hz => hother z (List.mem_append_right _ hz),
      map_other fun z hz => hother z (List.mem_append_left _ hz)]
    exact .ground
  · obtain ⟨l, l', hsplit⟩ := List.append_of_mem hx
    have hother := hdistinct.apart (contents_perm (a := l) (b := [x]) (c := l' ++ t.topItems)
      (by simp [items_eq t, hsplit]))
    rw [ground_other fun g hg => hother g (by simp [Option.mem_def.mp hg]), hsplit, List.map_append,
      List.map_cons, hself, map_other fun z hz => hother z (by simp [hz]),
      map_other fun z hz => hother z (by simp [hz]), map_other fun z hz => hother z (by simp [hz])]
    exact .swapDown
  · obtain ⟨l, l', hsplit⟩ := List.append_of_mem hx
    have hother := hdistinct.apart (contents_perm (a := t.downItems ++ l) (b := [x]) (c := l')
      (by simp [items_eq t, hsplit]))
    rw [ground_other fun g hg => hother g (by simp [Option.mem_def.mp hg]), hsplit, List.map_append,
      List.map_cons, hself, map_other fun z hz => hother z (by simp [hz]),
      map_other fun z hz => hother z (by simp [hz]), map_other fun z hz => hother z (by simp [hz])]
    exact .swapTop

theorem Turn.refines (h : Turn types t out inn t') (hc : Counted t) (hdistinct : Distinct t) :
    Counted t' ∧ Stack.Turn types t.stack out inn t'.stack := by
  have hcount := hc.count
  have hroom : t.downItems.length + t.topItems.length ≤ 0xFFFF := by
    rw [← List.length_append, ← items_eq]
    exact hc.room
  have hmap : ∀ f : Item → Item, t.items.map f = t.downItems.map f ++ t.topItems.map f := by
    intro f
    rw [← List.map_append, ← items_eq]
  cases h with
  | idle => exact ⟨hc, .idle⟩
  | takeGround hx =>
    rw [Tile.stack, hx]
    exact ⟨⟨hc.count, hc.room⟩, .ground⟩
  | takeTop hsplit =>
    rw [Tile.stack, hsplit]
    rw [hsplit, List.length_append, List.length_cons] at hroom
    exact refines_of rfl hcount (by rw [List.length_append]; omega) .takeTop
  | takeDown hsplit =>
    rw [Tile.stack, hsplit]
    rw [hsplit, List.length_append, List.length_cons] at hroom hcount
    have hless : (t.downItemCount - 1).toNat = t.downItemCount.toNat - 1 := by
      rw [UInt16.toNat_sub_of_le _ _ (by rw [UInt16.le_iff_toNat_le]; simp; omega)]
      rfl
    refine refines_of rfl ?_ (by rw [List.length_append]; omega) .takeDown
    rw [List.length_append]
    show (t.downItemCount - 1).toNat = _
    omega
  | crowd hcrowd => exact ⟨⟨hc.count, hc.room⟩, .crowd hcrowd⟩
  | recount r count =>
    refine refines_of (hmap _) (by rw [List.length_map]; exact hcount) (by simpa using hroom) ?_
    refine .recount _ (fun y => ?_) fun y => ?_
    · dsimp only
      split <;> rfl
    · dsimp only
      split <;> rfl
  | putGround hx =>
    rw [Tile.stack, hx]
    exact ⟨⟨hc.count, hc.room⟩, .ground⟩
  | putTop hsplit hfree htop hbelow habove =>
    rw [items_eq, List.length_append, hsplit, List.length_append] at hfree
    rw [Tile.stack, hsplit]
    exact refines_of rfl hcount (by rw [List.length_append, List.length_cons]; omega)
      (.putTop htop hbelow habove)
  | putDown hfree hdown =>
    rename_i x
    rw [items_eq, List.length_append] at hfree
    have hmore : (t.downItemCount + 1).toNat = t.downItemCount.toNat + 1 := by
      rw [UInt16.toNat_add]
      simp
      omega
    refine refines_of (d := x :: t.downItems) (u := t.topItems) ?_ ?_
      (by rw [List.length_cons]; omega) (.putDown hdown)
    · show x :: t.items = _
      rw [items_eq t, List.cons_append]
    · show (t.downItemCount + 1).toNat = _
      rw [List.length_cons]
      omega
  | swapGround hx =>
    rw [Tile.stack, hx]
    exact ⟨⟨hc.count, hc.room⟩, .ground⟩
  | swapTop hsplit =>
    rw [Tile.stack, hsplit]
    rw [hsplit, List.length_append, List.length_cons] at hroom
    exact refines_of rfl hcount (by rw [List.length_append, List.length_cons]; omega) .swapTop
  | swapDown hsplit =>
    rw [Tile.stack, hsplit]
    rw [hsplit, List.length_append, List.length_cons] at hroom hcount
    refine refines_of rfl ?_ (by rw [List.length_append, List.length_cons]; omega) .swapDown
    rw [List.length_append, List.length_cons]
    exact hcount
  | become itemId count hx =>
    refine refines_of (hmap _) (by rw [List.length_map]; exact hcount) (by simpa using hroom) ?_
    exact modify_swaps hdistinct hx _

/-! ## Stacks -/

/-- The items that are always on top are the top items. -/
structure Stack.Ordered (types : ℕ → ItemType) (s : Stack) : Prop where
  top : ∀ x ∈ s.top, (x.type types).alwaysOnTop = true
  down : ∀ x ∈ s.down, (x.type types).alwaysOnTop = false

/-- The top items are in the order of their types. -/
def Stack.Sorted (types : ℕ → ItemType) (s : Stack) : Prop :=
  s.top.Pairwise fun x y => (x.type types).alwaysOnTopOrder ≤ (y.type types).alwaysOnTopOrder

/-- The down items have come one after another, the first one last. -/
def Stack.NewestFirst (arrival : ℕ → ℕ) (s : Stack) : Prop :=
  s.down.Pairwise fun x y => arrival y.ref < arrival x.ref

theorem pairwise_swap {rel : Item → Item → Prop} {l l' : List Item} {old : Item} (h : (l ++ old :: l').Pairwise rel)
    (hleft : ∀ y, rel y old → rel y x) (hright : ∀ y, rel old y → rel x y) : (l ++ x :: l').Pairwise rel := by
  obtain ⟨hl, hl', hcross⟩ := List.pairwise_append.mp h
  obtain ⟨hold, hl'⟩ := List.pairwise_cons.mp hl'
  refine List.pairwise_append.mpr ⟨hl, List.pairwise_cons.mpr ⟨fun y hy => hright y (hold y hy), hl'⟩, ?_⟩
  intro y hy z hz
  rcases List.mem_cons.mp hz with rfl | hz
  · exact hleft y (hcross y hy old (by simp))
  · exact hcross y hy z (List.mem_cons_of_mem _ hz)

namespace Stack.Turn
variable {s s' : Stack}

theorem ordered (h : Turn types s out inn s') (hs : s.Ordered types)
    (hfit : ∀ old ∈ out, ∀ x ∈ inn, old ∈ s.top ++ s.down →
      (x.type types).alwaysOnTop = (old.type types).alwaysOnTop) :
    s'.Ordered types := by
  obtain ⟨htop, hdown⟩ := hs
  cases h with
  | idle => exact ⟨htop, hdown⟩
  | ground => exact ⟨htop, hdown⟩
  | takeTop => exact ⟨fun y hy => htop y (by simp at hy ⊢; tauto), hdown⟩
  | takeDown => exact ⟨htop, fun y hy => hdown y (by simp at hy ⊢; tauto)⟩
  | crowd hcrowd => exact ⟨htop, hdown⟩
  | putTop hx hbelow habove =>
    refine ⟨fun y hy => ?_, hdown⟩
    rcases List.mem_append.mp hy with hy | hy
    · exact htop y (List.mem_append_left _ hy)
    · rcases List.mem_cons.mp hy with rfl | hy
      · exact hx
      · exact htop y (List.mem_append_right _ hy)
  | putDown hx =>
    refine ⟨htop, fun y hy => ?_⟩
    rcases List.mem_cons.mp hy with rfl | hy
    · exact hx
    · exact hdown y hy
  | swapTop =>
    rename_i g l l' c d old x
    refine ⟨fun y hy => ?_, hdown⟩
    rcases List.mem_append.mp hy with hy | hy
    · exact htop y (List.mem_append_left _ hy)
    · rcases List.mem_cons.mp hy with rfl | hy
      · rw [hfit old rfl y rfl (by simp)]
        exact htop old (by simp)
      · exact htop y (by simp [hy])
  | swapDown =>
    rename_i g u c l l' old x
    refine ⟨htop, fun y hy => ?_⟩
    rcases List.mem_append.mp hy with hy | hy
    · exact hdown y (List.mem_append_left _ hy)
    · rcases List.mem_cons.mp hy with rfl | hy
      · rw [hfit old rfl y rfl (by simp)]
        exact hdown old (by simp)
      · exact hdown y (by simp [hy])
  | recount f href htype =>
    refine ⟨fun y hy => ?_, fun y hy => ?_⟩
    · obtain ⟨z, hz, rfl⟩ := List.mem_map.mp hy
      rw [htype]
      exact htop z hz
    · obtain ⟨z, hz, rfl⟩ := List.mem_map.mp hy
      rw [htype]
      exact hdown z hz

theorem creatures (h : Turn types s out inn s') (hs : s.creatures.Nodup) : s'.creatures.Nodup := by
  cases h with
  | crowd hcrowd => exact hcrowd hs
  | _ => exact hs

theorem sorted (h : Turn types s out inn s') (hs : s.Sorted types) (hfit : ∀ old ∈ out, ∀ x ∈ inn, old ∈ s.top →
      (x.type types).alwaysOnTopOrder = (old.type types).alwaysOnTopOrder) : s'.Sorted types := by
  unfold Stack.Sorted at hs ⊢
  cases h with
  | takeTop => exact hs.sublist ((List.sublist_cons_self _ _).append_left _)
  | putTop hx hbelow habove =>
    obtain ⟨hl, hl', hcross⟩ := List.pairwise_append.mp hs
    refine List.pairwise_append.mpr ⟨hl, List.pairwise_cons.mpr ⟨?_, hl'⟩, ?_⟩
    · -- the first one above it is not before it, and the others follow that one
      rename_i g l l' c d x
      intro y hy
      cases l' with
      | nil => cases hy
      | cons z l' =>
        rcases List.mem_cons.mp hy with rfl | hy
        · exact habove y rfl
        · exact (habove z rfl).trans ((List.pairwise_cons.mp hl').1 y hy)
    · intro y hy z hz
      rcases List.mem_cons.mp hz with rfl | hz
      · exact hbelow y hy
      · exact hcross y hy z hz
  | swapTop =>
    have horder := hfit _ rfl _ rfl (by simp)
    exact pairwise_swap hs (fun y hy => horder ▸ hy) fun y hy => horder ▸ hy
  | recount f href htype =>
    rw [List.pairwise_map]
    simpa only [htype] using hs
  | _ => exact hs

theorem newestFirst (h : Turn types s out inn s') {arrival : ℕ → ℕ} (hs : s.NewestFirst arrival)
    (hput : out = none → ∀ x ∈ inn, ∀ y ∈ s.down, arrival y.ref < arrival x.ref)
    (hswap : ∀ old ∈ out, ∀ x ∈ inn, old ∈ s.down → arrival x.ref = arrival old.ref) : s'.NewestFirst arrival := by
  unfold Stack.NewestFirst at hs ⊢
  cases h with
  | takeDown => exact hs.sublist ((List.sublist_cons_self _ _).append_left _)
  | putDown hx => exact List.pairwise_cons.mpr ⟨hput rfl _ rfl, hs⟩
  | swapDown =>
    have harrival := hswap _ rfl _ rfl (by simp)
    exact pairwise_swap hs (fun y hy => harrival ▸ hy) fun y hy => harrival ▸ hy
  | recount f href htype =>
    rw [List.pairwise_map]
    simpa only [href] using hs
  | _ => exact hs

end Stack.Turn
end Refines

/-! ## Indices -/

/-- The representation of a stack. -/
structure Stacked (types : ℕ → ItemType) (t : Tile) : Prop where
  counted : Counted t
  distinct : Distinct t
  creatures : t.creatures.Nodup
  ordered : t.stack.Ordered types

theorem getElem?_append_map {α : Type} {f : α → Thing} (l : List α) (l' : List Thing) (i : ℕ) :
    (l.map f ++ l')[i]? = if i < l.length then l[i]?.map f else l'[i - l.length]? := by
  split
  · rename_i hi
    rw [List.getElem?_append_left (by simpa using hi), List.getElem?_map]
  · rename_i hi
    rw [List.getElem?_append_right (by simpa using hi), List.length_map]

theorem getThing_eq (hc : Counted t) (i : ℕ) : t.getThing i = t.stack.things[i]? := by
  have habove : ∀ i, t.getAbove i = (t.topItems.map Thing.item ++ (t.creatures.map Thing.creature ++
        t.downItems.map Thing.item))[i]? := by
    intro i
    have htop : t.topItems[i]? = t.items[t.downItemCount.toNat + i]? := List.getElem?_drop
    rw [getElem?_append_map, getElem?_append_map, getAbove, ← htop]
    dsimp only
    congr 2
    generalize i - t.topItems.length - t.creatures.length = i
    rw [List.getElem?_map]
    split
    · rename_i hi
      have hget : t.downItems[i]? = t.items[i]? := List.getElem?_take_of_lt hi
      rw [hget]
    · rename_i hi
      rw [List.getElem?_eq_none_iff.mpr (by rw [← hc.count]; omega), Option.map_none]
  unfold getThing Stack.things Tile.stack
  cases t.ground with
  | none => exact habove i
  | some g =>
    cases i with
    | zero => rfl
    | succ i => exact habove i

theorem findIdx_ref {l : List Item} (hl : (l.map (·.ref)).Nodup) (hx : x ∈ l) :
    ∃ i, l.findIdx? (fun y => y.ref = x.ref) = some i ∧ l[i]? = some x := by
  cases hfind : l.findIdx? fun y => y.ref = x.ref with
  | none => exact absurd (List.findIdx?_eq_none_iff.mp hfind x hx) (by simp)
  | some i =>
    obtain ⟨hi, href, -⟩ := List.findIdx?_eq_some_iff_getElem.mp hfind
    refine ⟨i, rfl, ?_⟩
    rw [List.getElem?_eq_getElem hi, List.inj_on_of_nodup_map hl (List.getElem_mem hi) hx (of_decide_eq_true href)]

theorem things_above (t : Tile) (i : ℕ) : t.stack.things[t.ground.toList.length + i]? =
    (t.topItems.map Thing.item ++ (t.creatures.map Thing.creature ++ t.downItems.map Thing.item))[i]? := by
  rw [Stack.things, Tile.stack, List.getElem?_append_right (by simp), List.length_map,
    Nat.add_sub_cancel_left]

theorem ground_index (t : Tile) : (if t.ground.isSome then 0 else -1 : ℤ) = t.ground.toList.length - 1 := by
  cases t.ground <;> rfl

theorem getThingIndex_mem (h : Stacked types t) {thing : Thing} (hthing : thing ∈ t.stack.things) :
    ∃ i : ℕ, t.getThingIndex types thing = i ∧ t.stack.things[i]? = some thing := by
  have hnodup : ((t.downItems ++ t.topItems).map (·.ref)).Nodup := by
    have hdistinct := h.distinct
    rw [Distinct, contents, items_eq, List.map_append] at hdistinct
    exact (List.nodup_append.mp hdistinct).2.1
  rw [List.map_append] at hnodup
  obtain ⟨hnodupDown, hnodupTop, -⟩ := List.nodup_append.mp hnodup
  have hbeside : ∀ x ∈ t.items, t.ground.any (fun g => g.ref = x.ref) = false := by
    intro x hx
    cases hground : t.ground with
    | none => rfl
    | some g =>
      have hother : ∀ z ∈ t.items, z.ref ≠ g.ref :=
        h.distinct.apart (by rw [contents, hground]; rfl)
      simpa using (hother x hx).symm
  rw [items_eq] at hbeside
  simp only [Stack.things, Tile.stack, List.mem_append, List.mem_map, Option.mem_toList] at hthing
  rcases hthing with ⟨x, hx, rfl⟩ | ⟨x, hx, rfl⟩ | ⟨c, hc, rfl⟩ | ⟨x, hx, rfl⟩
  · refine ⟨0, ?_, ?_⟩
    · simp [getThingIndex, Option.mem_def.mp hx]
    · simp [Stack.things, Tile.stack, Option.mem_def.mp hx]
  · obtain ⟨i, hfind, hget⟩ := findIdx_ref hnodupTop hx
    refine ⟨t.ground.toList.length + i, ?_, ?_⟩
    · simp only [getThingIndex, hbeside x (by simp [hx]), h.ordered.top x hx, hfind, ground_index]
      push_cast
      omega
    · have hi := (List.getElem?_eq_some_iff.mp hget).1
      rw [things_above, getElem?_append_map, if_pos hi, hget, Option.map_some]
  · obtain ⟨i, hfind, hget⟩ : ∃ i, t.creatures.findIdx? (fun d => d = c) = some i ∧ t.creatures[i]? = some c := by
      cases hfind : t.creatures.findIdx? fun d => d = c with
      | none => exact absurd (List.findIdx?_eq_none_iff.mp hfind c hc) (by simp)
      | some i =>
        obtain ⟨hi, heq, -⟩ := List.findIdx?_eq_some_iff_getElem.mp hfind
        exact ⟨i, rfl, by rw [List.getElem?_eq_getElem hi, of_decide_eq_true heq]⟩
    refine ⟨t.ground.toList.length + (t.topItems.length + i), ?_, ?_⟩
    · simp only [getThingIndex, hfind, ground_index]
      push_cast
      omega
    · have hi := (List.getElem?_eq_some_iff.mp hget).1
      rw [things_above, getElem?_append_map, if_neg (by omega), Nat.add_sub_cancel_left,
        getElem?_append_map, if_pos hi, hget, Option.map_some]
  · obtain ⟨i, hfind, hget⟩ := findIdx_ref hnodupDown hx
    refine ⟨t.ground.toList.length + (t.topItems.length + (t.creatures.length + i)), ?_, ?_⟩
    · simp only [getThingIndex, hbeside x (by simp [hx]), h.ordered.down x hx, hfind, ground_index]
      push_cast
      omega
    · rw [things_above, getElem?_append_map, if_neg (by omega), Nat.add_sub_cancel_left,
        getElem?_append_map, if_neg (by omega), Nat.add_sub_cancel_left, List.getElem?_map, hget,
        Option.map_some]

theorem things_perm (t : Tile) :
    t.stack.things.Perm (t.contents.map Thing.item ++ t.creatures.map Thing.creature) := by
  rw [Stack.things, Tile.stack, contents, items_eq, List.map_append, List.map_append, List.append_assoc]
  refine List.Perm.append_left _ (List.perm_append_comm.trans ?_)
  rw [List.append_assoc]
  exact List.perm_append_comm

theorem things_nodup (h : Stacked types t) : t.stack.things.Nodup := by
  rw [(things_perm t).nodup_iff, List.nodup_append]
  refine ⟨(List.Nodup.of_map _ h.distinct).map fun x y hxy => Thing.item.inj hxy,
    h.creatures.map fun c d hcd => Thing.creature.inj hcd, ?_⟩
  intro thing hitem other hother
  obtain ⟨x, -, rfl⟩ := List.mem_map.mp hitem
  obtain ⟨c, -, rfl⟩ := List.mem_map.mp hother
  exact Thing.noConfusion

theorem getThing_getThingIndex (h : Stacked types t) {thing : Thing} (hthing : thing ∈ t.stack.things) :
    ∃ i : ℕ, t.getThingIndex types thing = i ∧ t.getThing i = some thing := by
  obtain ⟨i, hindex, hget⟩ := getThingIndex_mem h hthing
  exact ⟨i, hindex, (getThing_eq h.counted i).trans hget⟩

theorem getThingIndex_getThing (h : Stacked types t) {i : ℕ} (hi : i < t.getThingCount) :
    ∃ thing ∈ t.stack.things, t.getThing i = some thing ∧ t.getThingIndex types thing = i := by
  have hlength : t.stack.things.length = t.getThingCount := by
    simp only [Stack.things, Tile.stack, List.length_append, List.length_map, getThingCount, items_eq t]
    omega
  rw [← hlength] at hi
  obtain ⟨j, hindex, hget⟩ := getThingIndex_mem h (List.getElem_mem hi)
  obtain ⟨hj, heq⟩ := List.getElem?_eq_some_iff.mp hget
  have hij : j = i := (List.Nodup.getElem_inj_iff (things_nodup h)).mp heq
  exact ⟨_, List.getElem_mem hi, (getThing_eq h.counted i).trans (List.getElem?_eq_getElem hi), by rw [hindex, hij]⟩

/-! ## Runs -/

/-- An item that is updated or takes the place of another one, off the ground, is
on top if the old one was. `Game::transformItem` takes the others off and adds them. -/
def keepsPlace (types : ℕ → ItemType) (t : Tile) (a : Action) : Bool :=
  match a, taken types t a, put types t a with
  | .updateThing _ _ _, some old, some x | .replaceThing _ _, some old, some x =>
    t.ground = some old || (x.type types).alwaysOnTop = (old.type types).alwaysOnTop
  | _, _, _ => true

def keepsOrder (types : ℕ → ItemType) (t : Tile) (a : Action) : Bool :=
  match a, taken types t a, put types t a with
  | .updateThing _ _ _, some old, some x | .replaceThing _ _, some old, some x =>
    old ∉ t.topItems || (x.type types).alwaysOnTopOrder = (old.type types).alwaysOnTopOrder
  | _, _, _ => true

/-- A tile and when its items have come. -/
structure Watched where
  tile : Tile
  arrival : ℕ → ℕ := fun _ => 0
  clock : ℕ := 0

/-- An item that takes the place of another one counts as come when that one has. -/
def watch (types : ℕ → ItemType) (w : Watched) (a : Action) : Watched :=
  { tile := step types w.tile a
    clock := w.clock + 1
    arrival :=
      match a with
      | .addThing (.item x) | .internalAddThing (.item x) => Function.update w.arrival x.ref w.clock
      | .replaceThing _ x =>
        match taken types w.tile a with
        | some old => Function.update w.arrival x.ref (w.arrival old.ref)
        | none => w.arrival
      | _ => w.arrival }

structure NewestFirst (w : Watched) : Prop where
  order : w.tile.stack.NewestFirst w.arrival
  past : ∀ x ∈ w.tile.downItems, w.arrival x.ref < w.clock

theorem ground_ne (h : Distinct t) {old : Item} (hground : t.ground = some old) : old ∉ t.topItems ++ t.downItems := by
  have hother : ∀ z ∈ t.items, z.ref ≠ old.ref := h.apart (by rw [contents, hground]; rfl)
  intro hmem
  refine hother old ?_ rfl
  rw [items_eq]
  exact List.mem_append.mpr (List.mem_append.mp hmem).symm

theorem Swaps.cases {a : Action} {old : Item} (h : Swaps t a old) :
    t.ground = some old ∨ (∃ r itemId count, a = .updateThing r itemId count) ∨
      ∃ index x, a = .replaceThing index x := by
  cases a with
  | updateThing r itemId count => exact .inr (.inl ⟨r, itemId, count, rfl⟩)
  | replaceThing index x => exact .inr (.inr ⟨index, x, rfl⟩)
  | addThing thing => exact .inl h
  | internalAddThing thing => exact .inl h
  | removeThing r count => exact .inl h
  | removeCreature c => exact .inl h

theorem step_stack (types : ℕ → ItemType) (hc : Counted t) (hdistinct : Distinct t) {a : Action} (hfresh : Fresh t a) :
    Counted (step types t a) ∧ ((Stack.Turn types t.stack (taken types t a) (put types t a) (step types t a).stack ∧
          ∀ x ∈ put types t a, ∀ old ∈ taken types t a, Swaps t a old) ∨
        MakesPlace a ∧ ∃ s₁, Stack.Turn types t.stack (taken types t a) none s₁ ∧
          Stack.Turn types s₁ none (put types t a) (step types t a).stack) := by
  cases step_turns types hdistinct hfresh with
  | one hturn hswap =>
    obtain ⟨hcounted, hstack⟩ := hturn.refines hc hdistinct
    exact ⟨hcounted, .inl ⟨hstack, hswap⟩⟩
  | two hfirst hsecond htwice =>
    obtain ⟨rest, hold, hmid⟩ := hfirst.faces hdistinct
    obtain ⟨hcounted, hstack⟩ := hfirst.refines hc hdistinct
    obtain ⟨hcounted', hstack'⟩ := hsecond.refines hcounted (hdistinct.of_faces hold hmid (by simp))
    exact ⟨hcounted', .inr ⟨htwice, _, hstack, hstack'⟩⟩

theorem keepsPlace_fits {a : Action} (hplace : keepsPlace types t a = true) {old : Item}
    (hswap : Swaps t a old) (hold : taken types t a = some old) (hx : put types t a = some x) :
    t.ground = some old ∨ (x.type types).alwaysOnTop = (old.type types).alwaysOnTop := by
  rcases hswap.cases with hground | ⟨r, itemId, count, rfl⟩ | ⟨index, y, rfl⟩
  · exact .inl hground
  · simpa [keepsPlace, hold, hx] using hplace
  · simpa [keepsPlace, hold, hx] using hplace

theorem keepsOrder_fits {a : Action} (horder : keepsOrder types t a = true) {old : Item}
    (hswap : Swaps t a old) (hold : taken types t a = some old) (hx : put types t a = some x) :
    t.ground = some old ∨ old ∉ t.topItems ∨ (x.type types).alwaysOnTopOrder = (old.type types).alwaysOnTopOrder := by
  rcases hswap.cases with hground | ⟨r, itemId, count, rfl⟩ | ⟨index, y, rfl⟩
  · exact .inl hground
  · exact .inr (by simpa [keepsOrder, hold, hx] using horder)
  · exact .inr (by simpa [keepsOrder, hold, hx] using horder)

theorem step_stacked (h : Stacked types t) {a : Action} (hfresh : Fresh t a) (hplace : keepsPlace types t a = true) :
    Stacked types (step types t a) := by
  obtain ⟨hcounted, ⟨hturn, hswap⟩ | ⟨-, s₁, hfirst, hsecond⟩⟩ :=
    step_stack types h.counted h.distinct hfresh
  · refine ⟨hcounted, step_distinct h.distinct hfresh, hturn.creatures h.creatures, hturn.ordered h.ordered ?_⟩
    intro old hold x hx hmem
    rcases keepsPlace_fits hplace (hswap x hx old hold) hold hx with hground | hsame
    · exact absurd hmem (ground_ne h.distinct hground)
    · exact hsame
  · refine ⟨hcounted, step_distinct h.distinct hfresh, hsecond.creatures (hfirst.creatures h.creatures),
      hsecond.ordered (hfirst.ordered h.ordered ?_) ?_⟩
    · intro old hold x hx
      cases hx
    · intro old hold
      cases hold

theorem step_sorted (h : Stacked types t) (hs : t.stack.Sorted types) {a : Action} (hfresh : Fresh t a)
    (horder : keepsOrder types t a = true) : (step types t a).stack.Sorted types := by
  obtain ⟨-, ⟨hturn, hswap⟩ | ⟨-, s₁, hfirst, hsecond⟩⟩ :=
    step_stack types h.counted h.distinct hfresh
  · refine hturn.sorted hs fun old hold x hx hmem => ?_
    rcases keepsOrder_fits horder (hswap x hx old hold) hold hx with hground | hnot | hsame
    · exact absurd (List.mem_append_left _ hmem) (ground_ne h.distinct hground)
    · exact absurd hmem hnot
    · exact hsame
  · refine hsecond.sorted (hfirst.sorted hs ?_) ?_
    · intro old hold x hx
      cases hx
    · intro old hold
      cases hold

theorem Stack.Turn.mem_down {s s' : Stack} {out inn : Option Item} (h : Turn types s out inn s') (hy : y ∈ s'.down) :
    (∃ z ∈ s.down, z.ref = y.ref) ∨ inn = some y ∧ ∀ old ∈ out, old ∈ s.down := by
  cases h with
  | takeDown => exact .inl ⟨y, by simp at hy ⊢; tauto, rfl⟩
  | putDown hx =>
    rcases List.mem_cons.mp hy with rfl | hy
    · exact .inr ⟨rfl, by simp⟩
    · exact .inl ⟨y, hy, rfl⟩
  | swapDown =>
    rcases List.mem_append.mp hy with hy | hy
    · exact .inl ⟨y, by simp [hy], rfl⟩
    · rcases List.mem_cons.mp hy with rfl | hy
      · exact .inr ⟨rfl, by simp⟩
      · exact .inl ⟨y, by simp [hy], rfl⟩
  | recount f href htype =>
    obtain ⟨z, hz, rfl⟩ := List.mem_map.mp hy
    exact .inl ⟨z, hz, (href z).symm⟩
  | _ => exact .inl ⟨y, hy, rfl⟩

/-- Items that are on the tile have come when they have. -/
theorem watch_arrival {w : Watched} {a : Action} (hfresh : Fresh w.tile a) :
    ∀ y ∈ w.tile.contents, (watch types w a).arrival y.ref = w.arrival y.ref := by
  intro y hy
  cases a with
  | addThing thing =>
    cases thing with
    | item x => exact Function.update_of_ne (hfresh y hy) _ _
    | creature c => rfl
  | internalAddThing thing =>
    cases thing with
    | item x => exact Function.update_of_ne (hfresh y hy) _ _
    | creature c => rfl
  | replaceThing index x =>
    cases hold : taken types w.tile (.replaceThing index x) with
    | none => simp only [watch, hold]
    | some old =>
      simp only [watch, hold]
      exact Function.update_of_ne (hfresh y hy) _ _
  | updateThing r itemId count => rfl
  | removeThing r count => rfl
  | removeCreature c => rfl

/-- The item that comes has come now, or when the one whose place it takes has. -/
theorem watch_put {w : Watched} {a : Action} (hx : put types w.tile a = some x) :
    ((watch types w a).arrival x.ref = w.clock ∧ ∀ old, Swaps w.tile a old → w.tile.ground = some old) ∨
      ¬ MakesPlace a ∧ ∃ old, taken types w.tile a = some old ∧
        (watch types w a).arrival x.ref = w.arrival old.ref := by
  cases a with
  | addThing thing =>
    cases thing with
    | item y =>
      rw [put, Option.ite_none_right_eq_some] at hx
      obtain rfl := Option.some.inj hx.2
      exact .inl ⟨Function.update_self _ _ _, fun old hold => hold⟩
    | creature c => cases hx
  | internalAddThing thing =>
    cases thing with
    | item y =>
      rw [put, Option.ite_none_right_eq_some] at hx
      obtain rfl := Option.some.inj hx.2
      exact .inl ⟨Function.update_self _ _ _, fun old hold => hold⟩
    | creature c => cases hx
  | replaceThing index y =>
    obtain ⟨old, hold, rfl⟩ := Option.map_eq_some_iff.mp hx
    refine .inr ⟨id, old, hold, ?_⟩
    simp only [watch, hold]
    exact Function.update_self _ _ _
  | updateThing r itemId count =>
    obtain ⟨old, hold, rfl⟩ := Option.map_eq_some_iff.mp hx
    exact .inr ⟨id, old, hold, rfl⟩
  | removeThing r count => cases hx
  | removeCreature c => cases hx

theorem watch_newestFirst {w : Watched} (h : Stacked types w.tile) (hw : NewestFirst w) {a : Action}
    (hfresh : Fresh w.tile a) : NewestFirst (watch types w a) := by
  let arrival := (watch types w a).arrival
  have hkept : ∀ y ∈ w.tile.downItems, arrival y.ref = w.arrival y.ref := fun y hy =>
    watch_arrival hfresh y (mem_down hy)
  have hold : w.tile.stack.NewestFirst arrival :=
    hw.order.imp_of_mem fun {x y} hx hy hxy => by rw [hkept x hx, hkept y hy]; exact hxy
  obtain ⟨-, ⟨hturn, hswap⟩ | ⟨htwice, s₁, hfirst, hsecond⟩⟩ :=
    step_stack types h.counted h.distinct hfresh
  · refine ⟨hturn.newestFirst hold ?_ ?_, fun y hy => ?_⟩
    · intro hnone x hx y hy
      rcases watch_put hx with ⟨hnow, -⟩ | ⟨-, old, htaken, -⟩
      · calc
          arrival y.ref = w.arrival y.ref := hkept y hy
          _ < w.clock := hw.past y hy
          _ = arrival x.ref := hnow.symm
      · rw [hnone] at htaken
        cases htaken
    · intro old htaken x hx hmem
      rcases watch_put hx with ⟨-, hground⟩ | ⟨-, old', htaken', hsame⟩
      · exact absurd (List.mem_append_right _ hmem) (ground_ne h.distinct (hground old (hswap x hx old htaken)))
      · obtain rfl : old = old' := Option.some.inj (htaken.symm.trans htaken')
        exact hsame.trans (hkept old hmem).symm
    · rcases hturn.mem_down hy with ⟨z, hz, href⟩ | ⟨hx, hout⟩
      · exact href ▸ (hkept z hz).trans_lt (Nat.lt_succ_of_lt (hw.past z hz))
      · rcases watch_put hx with ⟨hnow, -⟩ | ⟨-, old, htaken, hsame⟩
        · exact hnow.trans_lt (Nat.lt_succ_self _)
        · exact hsame.trans_lt (Nat.lt_succ_of_lt (hw.past old (hout old htaken)))
  · have hcome : ∀ y ∈ s₁.down, arrival y.ref < w.clock := by
      intro y hy
      rcases hfirst.mem_down hy with ⟨z, hz, href⟩ | ⟨hnone, -⟩
      · exact href ▸ (hkept z hz).trans_lt (hw.past z hz)
      · cases hnone
    have hnow : ∀ x, put types w.tile a = some x → arrival x.ref = w.clock := by
      intro x hx
      rcases watch_put hx with ⟨hnow, -⟩ | ⟨honce, -⟩
      · exact hnow
      · exact absurd htwice honce
    refine ⟨hsecond.newestFirst (hfirst.newestFirst hold ?_ ?_) ?_ ?_, fun y hy => ?_⟩
    · intro hnone x hx
      cases hx
    · intro old htaken x hx
      cases hx
    · intro hnone x hx y hy
      exact (hcome y hy).trans_eq (hnow x hx).symm
    · intro old htaken
      cases htaken
    · rcases hsecond.mem_down hy with ⟨z, hz, href⟩ | ⟨hx, -⟩
      · exact href ▸ Nat.lt_succ_of_lt (hcome z hz)
      · exact (hnow y hx).trans_lt (Nat.lt_succ_self _)

theorem run_watch (types : ℕ → ItemType) (w : Watched) (as : List Action) (hstacked : Stacked types w.tile)
    (hnewest : NewestFirst w) (hfresh : Along (watch types) (fun w a => Fresh w.tile a) w as)
    (hplace : Along (watch types) (fun w a => keepsPlace types w.tile a = true) w as) :
    Stacked types (run (watch types) w as).tile ∧ NewestFirst (run (watch types) w as) := by
  have hstep : ∀ w a, Stacked types w.tile ∧ NewestFirst w → Fresh w.tile a ∧ keepsPlace types w.tile a = true →
      Stacked types (watch types w a).tile ∧ NewestFirst (watch types w a) :=
    fun w a hw ha => ⟨step_stacked hw.1 ha.1 ha.2, watch_newestFirst hw.1 hw.2 ha.1⟩
  exact inv_run hstep ⟨hstacked, hnewest⟩ (hfresh.and hplace)

/-- A tile is a stack in every state of a run: the down items, newest first and as
many as are counted, come before the top items, and `getThing` and `getThingIndex`
undo each other. The top items are in order as long as changed items keep theirs. -/
theorem tile_is_a_stack (types : ℕ → ItemType) (w : Watched) (as : List Action) (hstacked : Stacked types w.tile)
    (hnewest : NewestFirst w) (hfresh : Along (watch types) (fun w a => Fresh w.tile a) w as)
    (hplace : Along (watch types) (fun w a => keepsPlace types w.tile a = true) w as) :
    ∀ pre, pre <+: as → Stacked types (run (watch types) w pre).tile ∧ NewestFirst (run (watch types) w pre) ∧
      (∀ thing ∈ (run (watch types) w pre).tile.stack.things, ∃ i : ℕ,
        (run (watch types) w pre).tile.getThingIndex types thing = i ∧
          (run (watch types) w pre).tile.getThing i = some thing) ∧
      (∀ i < (run (watch types) w pre).tile.getThingCount, ∃ thing ∈ (run (watch types) w pre).tile.stack.things,
        (run (watch types) w pre).tile.getThing i = some thing ∧
          (run (watch types) w pre).tile.getThingIndex types thing = i) ∧
      (w.tile.stack.Sorted types → Along (watch types) (fun w a => keepsOrder types w.tile a = true) w pre →
        (run (watch types) w pre).tile.stack.Sorted types) := by
  rintro pre ⟨post, rfl⟩
  have hlegal := hfresh.left.and hplace.left
  obtain ⟨hend, hnew⟩ := run_watch types w pre hstacked hnewest hfresh.left hplace.left
  refine ⟨hend, hnew, fun thing hthing => getThing_getThingIndex hend hthing,
    fun i hi => getThingIndex_getThing hend hi, fun hsorted horder => ?_⟩
  have hstep : ∀ w a, Stacked types w.tile ∧ w.tile.stack.Sorted types →
      (Fresh w.tile a ∧ keepsPlace types w.tile a = true) ∧ keepsOrder types w.tile a = true →
      Stacked types (watch types w a).tile ∧ (watch types w a).tile.stack.Sorted types :=
    fun w a hw ha => ⟨step_stacked hw.1 ha.1.1 ha.1.2, step_sorted hw.1 hw.2 ha.1.1 ha.2⟩
  exact (inv_run hstep ⟨hstacked, hsorted⟩ (hlegal.and horder)).2

/-- Signs and doors, which are always on top. -/
def streetTypes (id : ℕ) : ItemType :=
  { id, group := if id = 100 then .ground else .none, alwaysOnTop := 1200 ≤ id,
    alwaysOnTopOrder := if id = 1210 then 3 else if id = 1220 then 1 else 2 }

theorem stacked_nil (types : ℕ → ItemType) : Stacked types {} where
  counted := ⟨rfl, Nat.zero_le _⟩
  distinct := List.nodup_nil
  creatures := List.nodup_nil
  ordered := ⟨by simp [Tile.stack, topItems], by simp [Tile.stack, downItems]⟩

theorem newestFirst_nil : NewestFirst { tile := {} } where
  order := .nil
  past := by simp [downItems]

/-- A sign and a door on the street, something on the ground and somebody there. -/
def street : List Action :=
  [.addThing (.item { id := 100, ref := 1 }), .addThing (.item { id := 1210, ref := 2 }),
    .addThing (.item { id := 1200, ref := 3 }), .addThing (.item { id := 700, ref := 4 }),
    .addThing (.creature 1), .addThing (.item { id := 701, ref := 5 })]

/-- The door is opened and something is taken away. -/
theorem tile_is_a_stack_street : Stacked streetTypes (run (watch streetTypes) { tile := {} }
      (street ++ [.updateThing 3 1201 1, .removeThing 4 1])).tile :=
  (tile_is_a_stack streetTypes { tile := {} } _ (stacked_nil _) newestFirst_nil (by decide)
    (by decide) _
    (List.prefix_refl _)).1

/-- An item that becomes one of another order stays where it is. -/
theorem transformed_item_stays :
    Along (watch streetTypes) (fun w a => Fresh w.tile a ∧ keepsPlace streetTypes w.tile a = true) { tile := {} }
        (street ++ [.updateThing 2 1220 1]) ∧
      ¬ (run (watch streetTypes) { tile := {} }
        (street ++ [.updateThing 2 1220 1])).tile.stack.Sorted streetTypes := by
  refine ⟨by decide, ?_⟩
  intro h
  revert h
  unfold Stack.Sorted
  decide

end ForgottenServer.Tiles
