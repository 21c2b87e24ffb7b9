import ForgottenServer.Lib.Run
import ForgottenServer.Tiles.Turn

/-! # The flags of a tile

The flags are kept up one item at a time. Those of blocking properties are
cleared only if no other item has the property; the others are cleared with any
item of the kind, and a floor change is noted only where there is none. -/
namespace ForgottenServer.Tiles
open ForgottenServer.Lib.Flags ForgottenServer.Lib.Run TileState

variable {types : ℕ → ItemType} {t t' : Tile} {x y : Item} {s : TileState}

def FlagsExact (types : ℕ → ItemType) (t : Tile) : Prop :=
  ∀ s ∈ shown ++ floorChanges, t.hasFlag s.mask = true ↔ ∃ x ∈ t.contents, x.shows types s = true

def Tile.bit (t : Tile) (s : TileState) : Bool := t.flags.getLsbD s.bit

/-! ## Single bits -/

theorem bit_lt (s : TileState) : s.bit < 32 := by cases s <;> decide

theorem bit_injective : Function.Injective TileState.bit := by
  intro s s' h
  have hctor : ∀ s : TileState, TileState.ofNat s.bit = s := by
    intro s
    cases s <;> rfl
  rw [← hctor s, h, hctor s']

theorem hasFlag_mask (t : Tile) (s : TileState) : t.hasFlag s.mask = t.bit s := by
  rw [Bool.eq_iff_iff]
  exact decide_eq_true_iff.trans (and_twoPow_ne_zero (bit_lt s))

theorem any_bit (cond : TileState → Bool) (l : List TileState) (s : TileState) :
    (l.any fun a => cond a && a.bit = s.bit) = (decide (s ∈ l) && cond s) := by
  rw [Bool.eq_iff_iff, List.any_eq_true]
  simp only [Bool.and_eq_true, decide_eq_true_eq, bit_injective.eq_iff]
  constructor
  · rintro ⟨a, ha, hcond, rfl⟩
    exact ⟨ha, hcond⟩
  · rintro ⟨hs, hcond⟩
    exact ⟨s, hs, hcond, rfl⟩

theorem floorChange_bit (s : TileState) : floorChange.getLsbD s.bit = decide (s ∈ floorChanges) := by
  cases s <;> decide

theorem type_floorChange_bit (types : ℕ → ItemType) (x : Item) (s : TileState) :
    ((x.type types).floorChange.setWidth 32).getLsbD s.bit = (decide (s ∈ floorChanges) && x.shows types s) := by
  rw [BitVec.getLsbD_setWidth, decide_eq_true (bit_lt s), Bool.true_and]
  by_cases hs : s ∈ floorChanges
  · rw [decide_eq_true hs, Bool.true_and]
    revert hs
    cases s <;> first | exact fun _ => rfl | exact fun h => absurd h (by decide)
  · rw [decide_eq_false hs, Bool.false_and]
    refine BitVec.getLsbD_of_ge _ _ ?_
    revert hs
    cases s <;> decide

theorem exists_floorChange : ∀ i < 7, ∃ s ∈ floorChanges, s.bit = i := by decide

theorem floorChange_ne_zero (x : Item) :
    decide ((x.type types).floorChange ≠ 0) = floorChanges.any fun s => x.shows types s := by
  have hbit : ∀ s ∈ floorChanges, x.shows types s = (x.type types).floorChange.getLsbD s.bit := by
    intro s hs
    have hwide := type_floorChange_bit types x s
    rwa [BitVec.getLsbD_setWidth, decide_eq_true (bit_lt s), decide_eq_true hs, Bool.true_and, Bool.true_and, eq_comm]
      at hwide
  rw [Bool.eq_iff_iff, decide_eq_true_eq, List.any_eq_true]
  constructor
  · intro hne
    by_contra hnone
    refine hne (BitVec.eq_of_getLsbD_eq fun i hi => ?_)
    obtain ⟨s, hs, rfl⟩ := exists_floorChange i hi
    rw [getLsbD_none, ← hbit s hs, ← Bool.not_eq_true]
    exact fun h => hnone ⟨s, hs, h⟩
  · rintro ⟨s, hs, hshows⟩ hzero
    rw [hbit s hs, hzero, getLsbD_none] at hshows
    cases hshows

theorem hasFlag_floorChange (t : Tile) : t.hasFlag floorChange = floorChanges.any fun s => t.bit s := by
  have hmask : ∀ i < 32, floorChange.getLsbD i = decide (i < 7) := by decide
  rw [Bool.eq_iff_iff, Tile.hasFlag, decide_eq_true_eq, List.any_eq_true]
  constructor
  · intro hne
    by_contra hnone
    refine hne (BitVec.eq_of_getLsbD_eq fun i hi => ?_)
    rw [BitVec.getLsbD_and, hmask i hi, getLsbD_none]
    by_cases hseven : i < 7
    · obtain ⟨s, hs, rfl⟩ := exists_floorChange i hseven
      have hbit : t.flags.getLsbD s.bit = false := by
        rw [← Bool.not_eq_true]
        exact fun h => hnone ⟨s, hs, h⟩
      rw [hbit, Bool.false_and]
    · rw [decide_eq_false hseven, Bool.and_false]
  · rintro ⟨s, hs, hbit⟩ hzero
    have hflag := congrArg (fun v => v.getLsbD s.bit) hzero
    rw [BitVec.getLsbD_and, floorChange_bit, decide_eq_true hs, Bool.and_true, getLsbD_none] at hflag
    rw [Tile.bit, hflag] at hbit
    cases hbit

theorem setTileFlags_bit (t : Tile) (x : Item) (s : TileState) :
    (t.setTileFlags types x).bit s = (t.bit s || (decide (s ∈ floorChanges) && x.shows types s &&
      !floorChanges.any fun s => t.bit s) || (decide (s ∈ shown) && x.shows types s)) := by
  unfold Tile.setTileFlags
  rw [Tile.bit, getLsbD_setFlags _ _ _ _ (bit_lt s), any_bit, hasFlag_floorChange]
  cases floorChanges.any fun s => t.bit s with
  | false =>
    rw [Bool.not_false, if_pos rfl, BitVec.getLsbD_or, type_floorChange_bit, Bool.and_true]
    rfl
  | true =>
    rw [Bool.not_true, if_neg Bool.false_ne_true, Bool.and_false, Bool.or_false]
    rfl

theorem resetTileFlags_bit (t : Tile) (x : Item) (s : TileState) : (t.resetTileFlags types x).bit s = (t.bit s &&
      !(decide (s ∈ floorChanges) && floorChanges.any fun s => x.shows types s) &&
      !(decide (s ∈ blocking) && (x.shows types s && !t.hasOther x (·.shows types s))) &&
      !(decide (s ∈ kinds) && x.shows types s)) := by
  unfold Tile.resetTileFlags
  rw [Tile.bit, getLsbD_resetFlags _ _ _ _ (bit_lt s), getLsbD_resetFlags _ _ _ _ (bit_lt s),
    any_bit, any_bit, ← floorChange_ne_zero]
  by_cases hfloor : (x.type types).floorChange ≠ 0
  · rw [if_pos hfloor, BitVec.getLsbD_and, BitVec.getLsbD_not, floorChange_bit,
      decide_eq_true hfloor, decide_eq_true (bit_lt s), Bool.and_true, Bool.true_and]
    rfl
  · rw [if_neg hfloor, decide_eq_false hfloor, Bool.and_false, Bool.not_false, Bool.and_true]
    rfl

/-! ## Turns -/

/-- An item that leaves, an item that comes and the items that stay, as the flags
show them. -/
structure Marked (types : ℕ → ItemType) (t t' : Tile) (out inn : Option Item) (rest : List Item) : Prop where
  blocking : ∀ s ∈ blocking, s ∈ shown → t'.bit s = ((t.bit s &&
    !(out.any (·.shows types s) && !rest.any (·.shows types s))) || inn.any (·.shows types s))
  kinds : ∀ s ∈ kinds, t'.bit s = ((t.bit s && !out.any (·.shows types s)) || inn.any (·.shows types s))
  floor : ∀ s ∈ floorChanges, t'.bit s = ((t.bit s && !out.any fun x => floorChanges.any fun s => x.shows types s) ||
    (inn.any (·.shows types s) &&
      !floorChanges.any fun s => t.bit s && !out.any fun x => floorChanges.any fun s => x.shows types s))

theorem blocking_apart (hs : s ∈ TileState.blocking) : s ∉ floorChanges ∧ s ∉ TileState.kinds := by
  revert hs
  cases s <;> decide

theorem kinds_apart (hs : s ∈ TileState.kinds) : s ∉ floorChanges ∧ s ∉ TileState.blocking ∧ s ∈ shown := by
  revert hs
  cases s <;> decide

theorem floorChanges_apart (hs : s ∈ floorChanges) : s ∉ TileState.kinds ∧ s ∉ TileState.blocking ∧ s ∉ shown := by
  revert hs
  cases s <;> decide

theorem Tile.bit_congr (h : t'.flags = t.flags) (s : TileState) : t'.bit s = t.bit s := by
  rw [Tile.bit, h, Tile.bit]

theorem Marked.same (h : t'.flags = t.flags) (rest : List Item) : Marked types t t' none none rest where
  blocking s _ _ := by simp [t.bit_congr h]
  kinds s _ := by simp [t.bit_congr h]
  floor s _ := by simp [t.bit_congr h]

theorem Marked.set {t₁ : Tile} (h : t₁.flags = t.flags) (rest : List Item) :
    Marked types t (t₁.setTileFlags types y) none (some y) rest where
  blocking s hs hshown := by
    obtain ⟨hfloor, -⟩ := blocking_apart hs
    simp [setTileFlags_bit, Tile.bit_congr h, hfloor, hshown]
  kinds s hs := by
    obtain ⟨hfloor, -, hshown⟩ := kinds_apart hs
    simp [setTileFlags_bit, Tile.bit_congr h, hfloor, hshown]
  floor s hs := by
    obtain ⟨-, -, hshown⟩ := floorChanges_apart hs
    simp [setTileFlags_bit, Tile.bit_congr h, hs, hshown]

theorem Marked.reset {t₁ : Tile} {rest : List Item} (h : t₁.flags = t.flags)
    (hother : ∀ s, t₁.hasOther x (·.shows types s) = rest.any (·.shows types s)) :
    Marked types t (t₁.resetTileFlags types x) (some x) none rest where
  blocking s hs _ := by
    obtain ⟨hfloor, hkinds⟩ := blocking_apart hs
    simp [resetTileFlags_bit, Tile.bit_congr h, hfloor, hkinds, hs, hother]
  kinds s hs := by
    obtain ⟨hfloor, hblocking, -⟩ := kinds_apart hs
    simp [resetTileFlags_bit, Tile.bit_congr h, hfloor, hblocking, hs]
  floor s hs := by
    obtain ⟨hkinds, hblocking, -⟩ := floorChanges_apart hs
    simp [resetTileFlags_bit, Tile.bit_congr h, hkinds, hblocking, hs]

/-- First one item leaves, then another one comes. The items that the first change
has looked at may have been with the new one. -/
theorem Marked.trans {t₁ : Tile} {out inn : Option Item} {rest rest' rest'' : List Item}
    (h : Marked types t t₁ out none rest') (h' : Marked types t₁ t' none inn rest'')
    (hrest : ∀ s, (rest'.any (·.shows types s) || inn.any (·.shows types s)) =
      (rest.any (·.shows types s) || inn.any (·.shows types s))) : Marked types t t' out inn rest where
  blocking s hs hshown := by
    have hsame := hrest s
    rw [h'.blocking s hs hshown, h.blocking s hs hshown]
    cases hinn : inn.any (·.shows types s) with
    | true => simp
    | false =>
      rw [hinn, Bool.or_false, Bool.or_false] at hsame
      simp [hsame]
  kinds s hs := by
    rw [h'.kinds s hs, h.kinds s hs]
    simp
  floor s hs := by
    have hany : (floorChanges.any fun s => t₁.bit s && !(none : Option Item).any fun x => floorChanges.any fun s =>
        x.shows types s) = floorChanges.any fun s => t.bit s && !out.any fun x => floorChanges.any fun s =>
          x.shows types s := by
      rw [Bool.eq_iff_iff, List.any_eq_true, List.any_eq_true]
      refine exists_congr fun s => and_congr_right fun hs => ?_
      rw [h.floor s hs]
      simp
    rw [h'.floor s hs, hany, h.floor s hs]
    simp

theorem hasOther_eq (t : Tile) (x : Item) (s : TileState) :
    t.hasOther x (·.shows types s) = (t.faces types).any fun f => f.1 ≠ x.ref && f.2 s := by
  rw [Tile.faces, List.any_map, Tile.contents, List.any_append]
  cases hground : t.ground with
  | none => simp [Tile.hasOther, Item.face, Function.comp_def, hground]
  | some g => simp [Tile.hasOther, Item.face, Function.comp_def, hground, eq_comm]

theorem hasOther_others {t₁ : Tile} {l : List Item}
    (h : (t₁.faces types).Perm ((l ++ others t (some x)).map (·.face types))) (s : TileState) :
    t₁.hasOther x (·.shows types s) =
      ((l.filter fun y => y.ref ≠ x.ref) ++ others t (some x)).any (·.shows types s) := by
  have hothers : (others t (some x)).filter (fun y => y.ref ≠ x.ref) = others t (some x) :=
    List.filter_eq_self.mpr fun y hy => decide_eq_true ((mem_others.mp hy).2 x rfl)
  rw [hasOther_eq, h.any_eq, List.any_map]
  conv_rhs => rw [← hothers, ← List.filter_append, List.any_filter]
  rfl

theorem taking_marked {t₁ : Tile} (h : t₁.flags = t.flags)
    (hnew : (t₁.faces types).Perm ((others t (some x)).map (·.face types))) :
    Marked types t (t₁.resetTileFlags types x) (some x) none (others t (some x)) :=
  .reset h fun s => hasOther_others (l := []) hnew s

theorem exchanged_marked {t₁ : Tile} {old : Item} (h : t₁.flags = t.flags)
    (hnew : (t₁.faces types).Perm ((x :: others t (some old)).map (·.face types))) :
    Marked types t (t₁.exchanged types old x) (some old) (some x) (others t (some old)) := by
  have hreset : Marked types t _ _ _ _ := .reset h fun s => hasOther_others (l := [x]) hnew s
  refine hreset.trans (.set rfl []) fun s => ?_
  by_cases href : x.ref = old.ref
  · simp [href]
  · simp [href, Bool.or_comm]

theorem Turn.marked {out inn : Option Item} (h : Turn types t out inn t') (hdistinct : Distinct t) :
    Marked types t t' out inn (others t out) := by
  obtain ⟨rest, hold, hnew⟩ := h.faces hdistinct
  have hrest := perm_others hdistinct hold
  rw [List.map_append] at hold hnew
  replace hold := hold.trans (hrest.append_left _)
  replace hnew := hnew.trans (hrest.append_left _)
  rw [← List.map_append] at hold hnew
  cases h with
  | idle => exact .same rfl _
  | takeGround hx => exact taking_marked rfl hnew
  | takeTop hsplit => exact taking_marked rfl hnew
  | takeDown hsplit => exact taking_marked rfl hnew
  | crowd hcrowd => exact .same (by rfl) _
  | recount r count => exact .same (by rfl) _
  | putGround hx => exact .set (by rfl) _
  | putTop hsplit => exact .set (by rfl) _
  | putDown hroom => exact .set (by rfl) _
  | swapGround hx => exact exchanged_marked rfl hnew
  | swapTop hsplit => exact exchanged_marked rfl hnew
  | swapDown hsplit => exact exchanged_marked rfl hnew
  | become itemId count hx =>
    have hreset : Marked types t _ _ _ _ := .reset rfl fun s => hasOther_others (l := [_]) hold s
    exact hreset.trans (.set (by rfl) []) fun s => by simp

theorem step_marked (types : ℕ → ItemType) (hdistinct : Distinct t) {a : Action} (hfresh : Fresh t a) :
    Marked types t (step types t a) (taken types t a) (put types t a) (others t (taken types t a)) := by
  cases step_turns types hdistinct hfresh with
  | one hturn _ => exact hturn.marked hdistinct
  | two hfirst hsecond _ =>
    obtain ⟨rest, hold, hmid⟩ := hfirst.faces hdistinct
    have hdistinct₁ := hdistinct.of_faces hold hmid (by simp)
    exact (hfirst.marked hdistinct).trans (hsecond.marked hdistinct₁) fun s => rfl

/-! ## Exact flags -/

/-- The new item, if there is one, shows the kind that the old one has been cleared of. -/
def keepsKinds (types : ℕ → ItemType) (out inn : Option Item) (rest : List Item) : Bool :=
  TileState.kinds.all fun s =>
    !(out.any (·.shows types s) && rest.any (·.shows types s)) || inn.any (·.shows types s)

/-- An item with a floor change leaves only with the floor changes of the others,
or gives place to one that has theirs; it comes only where the others have none
or its own. -/
def keepsFloor (types : ℕ → ItemType) (out inn : Option Item) (rest : List Item) : Bool :=
  if out.any fun x => floorChanges.any fun s => x.shows types s then
    floorChanges.all fun s => !rest.any (·.shows types s) || inn.any (·.shows types s)
  else
    !rest.any (fun x => floorChanges.any fun s => x.shows types s) ||
      floorChanges.all fun s => !inn.any (·.shows types s) || rest.any (·.shows types s)

/-- The step forgets no item that stays, and no floor change of one that comes. -/
def keepsFlags (types : ℕ → ItemType) (t : Tile) (a : Action) : Bool :=
  let rest := others t (taken types t a)
  keepsKinds types (taken types t a) (put types t a) rest && keepsFloor types (taken types t a) (put types t a) rest

theorem any_faces (t : Tile) (s : TileState) :
    (t.faces types).any (fun f => f.2 s) = true ↔ ∃ x ∈ t.contents, x.shows types s = true := by
  rw [Tile.faces, List.any_map, List.any_eq_true]
  rfl

theorem flagsExact_iff : FlagsExact types t ↔
    ∀ s ∈ shown ++ floorChanges, t.bit s = (t.faces types).any fun f => f.2 s := by
  refine forall_congr' fun s => imp_congr_right fun _ => ?_
  rw [hasFlag_mask, ← any_faces]
  exact Bool.eq_iff_iff.symm

theorem any_faces_of_perm {out : Option Item} {rest : List Item}
    (hfaces : (t.faces types).Perm ((out.toList ++ rest).map (·.face types))) (s : TileState) :
    (t.faces types).any (fun f => f.2 s) = (out.any (·.shows types s) || rest.any (·.shows types s)) := by
  rw [hfaces.any_eq, List.any_map, List.any_append]
  cases out <;> simp [Function.comp_def, Item.face]

theorem shown_cases (hs : s ∈ shown) : s ∈ TileState.blocking ∨ s ∈ TileState.kinds := by
  revert hs
  cases s <;> decide

section Step
variable {out inn : Option Item} {rest : List Item}

theorem Marked.blocking_exact (h : Marked types t t' out inn rest) (hs : s ∈ TileState.blocking)
    (hshown : s ∈ shown) (hexact : t.bit s = (out.any (·.shows types s) || rest.any (·.shows types s))) :
    t'.bit s = (inn.any (·.shows types s) || rest.any (·.shows types s)) := by
  rw [h.blocking s hs hshown, hexact]
  cases out.any (·.shows types s) <;> cases rest.any (·.shows types s) <;> simp

theorem Marked.kinds_exact (h : Marked types t t' out inn rest)
    (hexact : ∀ s ∈ TileState.kinds, t.bit s = (out.any (·.shows types s) || rest.any (·.shows types s))) :
    (∀ s ∈ TileState.kinds, t'.bit s = (inn.any (·.shows types s) || rest.any (·.shows types s))) ↔
      keepsKinds types out inn rest = true := by
  rw [keepsKinds, List.all_eq_true]
  refine forall_congr' fun s => imp_congr_right fun hs => ?_
  rw [h.kinds s hs, hexact s hs]
  cases out.any (·.shows types s) <;> cases rest.any (·.shows types s) <;>
    cases inn.any (·.shows types s) <;> simp

theorem Marked.floor_exact (h : Marked types t t' out inn rest)
    (hexact : ∀ s ∈ floorChanges, t.bit s = (out.any (·.shows types s) || rest.any (·.shows types s))) :
    (∀ s ∈ floorChanges, t'.bit s = (inn.any (·.shows types s) || rest.any (·.shows types s))) ↔
      keepsFloor types out inn rest = true := by
  unfold keepsFloor
  cases hout : out.any fun x => floorChanges.any fun s => x.shows types s with
  | true =>
    rw [if_pos rfl, List.all_eq_true]
    refine forall_congr' fun s => imp_congr_right fun hs => ?_
    have hcleared : (floorChanges.any fun _ => false) = false := rfl
    rw [h.floor s hs, hout]
    simp only [Bool.not_true, Bool.and_false, Bool.false_or, hcleared, Bool.not_false, Bool.and_true]
    cases inn.any (·.shows types s) <;> cases rest.any (·.shows types s) <;> simp
  | false =>
    have hnone : ∀ s ∈ floorChanges, out.any (·.shows types s) = false := by
      intro s hs
      cases out with
      | none => rfl
      | some x => exact List.any_eq_false.mp hout s hs |> Bool.eq_false_iff.mpr
    have hrest : ∀ s ∈ floorChanges, t.bit s = rest.any (·.shows types s) := by
      intro s hs
      rw [hexact s hs, hnone s hs, Bool.false_or]
    have hany : (floorChanges.any fun s => t.bit s && !false) =
        rest.any fun x => floorChanges.any fun s => x.shows types s := by
      rw [Bool.eq_iff_iff, List.any_eq_true, List.any_eq_true]
      simp only [Bool.not_false, Bool.and_true, List.any_eq_true]
      constructor
      · rintro ⟨s, hs, hbit⟩
        obtain ⟨x, hx, hshows⟩ := List.any_eq_true.mp (hrest s hs ▸ hbit)
        exact ⟨x, hx, s, hs, hshows⟩
      · rintro ⟨x, hx, s, hs, hshows⟩
        exact ⟨s, hs, hrest s hs ▸ List.any_eq_true.mpr ⟨x, hx, hshows⟩⟩
    have hbit : ∀ s ∈ floorChanges, t'.bit s = (rest.any (·.shows types s) || (inn.any (·.shows types s) &&
        !rest.any fun x => floorChanges.any fun s => x.shows types s)) := by
      intro s hs
      rw [h.floor s hs, hout, hany, hrest s hs, Bool.not_false, Bool.and_true]
    rw [if_neg Bool.false_ne_true]
    cases hfloor : rest.any fun x => floorChanges.any fun s => x.shows types s with
    | false =>
      simp only [Bool.not_false, Bool.true_or, iff_true]
      intro s hs
      rw [hbit s hs, hfloor, Bool.not_false, Bool.and_true, Bool.or_comm]
    | true =>
      rw [Bool.not_true, Bool.false_or, List.all_eq_true]
      refine forall_congr' fun s => imp_congr_right fun hs => ?_
      rw [hbit s hs, hfloor]
      cases inn.any (·.shows types s) <;> cases rest.any (·.shows types s) <;> simp

end Step

theorem step_exact (hdistinct : Distinct t) (hexact : FlagsExact types t) {a : Action} (hfresh : Fresh t a) :
    FlagsExact types (step types t a) ↔ keepsFlags types t a = true := by
  obtain ⟨hold, hnew⟩ := step_faces types hdistinct hfresh
  have hmarked := step_marked types hdistinct hfresh
  rw [flagsExact_iff] at hexact ⊢
  simp only [any_faces_of_perm hold, any_faces_of_perm hnew, List.mem_append] at hexact ⊢
  rw [keepsFlags, Bool.and_eq_true, ← hmarked.kinds_exact fun s hs => hexact s (.inl (kinds_apart hs).2.2),
    ← hmarked.floor_exact fun s hs => hexact s (.inr hs)]
  constructor
  · intro h
    exact ⟨fun s hs => h s (.inl (kinds_apart hs).2.2), fun s hs => h s (.inr hs)⟩
  · rintro ⟨hkinds, hfloor⟩ s hs
    rcases hs with hshown | hs
    · rcases shown_cases hshown with hs | hs
      · exact hmarked.blocking_exact hs hshown (hexact s (.inl hshown))
      · exact hkinds s hs
    · exact hfloor s hs

/-- The flags are exact in every state of a run exactly if no step forgets an item
that stays or a floor change of one that comes. -/
theorem flags_follow_items (types : ℕ → ItemType) (t : Tile) (as : List Action) (hdistinct : Distinct t)
    (hexact : FlagsExact types t) (hfresh : Along (step types) Fresh t as) :
    (∀ pre, pre <+: as → FlagsExact types (run (step types) t pre)) ↔
      Along (step types) (fun t a => keepsFlags types t a = true) t as :=
  @inv_reached_iff_of_legal _ _ (step types) Fresh _ Distinct (FlagsExact types)
    (fun _ _ hdistinct hfresh => step_distinct hdistinct hfresh)
    (fun _ _ hdistinct hexact hfresh => step_exact hdistinct hexact hfresh) t as hdistinct hexact hfresh

instance (types : ℕ → ItemType) (t : Tile) : Decidable (FlagsExact types t) :=
  inferInstanceAs (Decidable (∀ s ∈ shown ++ floorChanges, _ ↔ _))

/-- Walls that things can be hung on, and ground. -/
def wallTypes (id : ℕ) : ItemType :=
  { id, group := if id = 100 then .ground else .none, isVertical := id = 1025, isHorizontal := id = 1026,
    blockSolid := id ≠ 100, moveable := false }

/-- The corner of a room is built on a tile. -/
def corner : List Action :=
  [.addThing (.item { id := 100, ref := 1 }), .addThing (.item { id := 1025, ref := 2 }),
    .addThing (.item { id := 1026, ref := 3 })]

theorem flags_follow_items_corner :
    FlagsExact wallTypes (run (step wallTypes) {} (corner ++ [.updateThing 3 1025 1])) :=
  (flags_follow_items wallTypes {} (corner ++ [.updateThing 3 1025 1]) (by decide) (by decide)
    (by decide)).mpr
    (by decide) _ (List.prefix_refl _)

/-- When one wall is taken away the flag for hanging things is cleared, although
the other one is there. -/
theorem other_wall_is_forgotten : Along (step wallTypes) Fresh {} (corner ++ [.removeThing 2 1]) ∧
      ¬ FlagsExact wallTypes (run (step wallTypes) {} (corner ++ [.removeThing 2 1])) := by
  decide

end ForgottenServer.Tiles
