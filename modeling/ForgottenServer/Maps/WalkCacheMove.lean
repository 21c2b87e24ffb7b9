import ForgottenServer.Maps.WalkCache

/-! # The walk cache after a step

After a step to a neighbouring square the shifted cache is compared with what
`updateMapCache` would make of it. It is right but for the square of the monster
itself, except on the way to the south-east and the south-west. -/
namespace ForgottenServer.Maps
open ForgottenServer.Lib.Shifts ForgottenServer.Tiles

/-- The second position is one of the eight squares around the first. -/
structure Neighbour (oldPos newPos : Position) (dx dy : ℤ) : Prop where
  x : (newPos.x.toNat : ℤ) = oldPos.x.toNat + dx
  y : (newPos.y.toNat : ℤ) = oldPos.y.toNat + dy
  z : newPos.z = oldPos.z
  dx_le : |dx| ≤ 1
  dy_le : |dy| ≤ 1
  moves : dx ≠ 0 ∨ dy ≠ 0

/-- The cache is what `updateMapCache` makes of it. -/
def Fresh (r : WalkRules) (m : Map) (pos : Position) (cache : MapCache) : Prop :=
  updateMapCache r m pos cache = cache

section Steps
variable {r : WalkRules} {m : Map} {cache : MapCache} {oldPos newPos : Position} {dx dy : ℤ} {j i : ℕ}

theorem fresh_iff (r : WalkRules) (m : Map) (pos : Position) (cache : MapCache) :
    Fresh r m pos cache ↔ ∀ j i, j < mapWalkSize → i < mapWalkSize → OnMap pos j i → cache j i = seen r m pos j i := by
  rw [Fresh]
  constructor
  · intro h j i hj hi hmap
    rw [← congrFun (congrFun h j) i, updateMapCache_apply, if_pos ⟨⟨hj, hi⟩, hmap⟩]
  · intro h
    funext j i
    rw [updateMapCache_apply]
    split
    · rename_i hcell
      exact (h j i hcell.1.1 hcell.1.2 hcell.2).symm
    · rfl

theorem fresh_updateMapCache (r : WalkRules) (m : Map) (pos : Position) (cache : MapCache) :
    Fresh r m pos (updateMapCache r m pos cache) := by
  rw [fresh_iff]
  intro j i hj hi hmap
  rw [updateMapCache_apply, if_pos ⟨⟨hj, hi⟩, hmap⟩]

theorem abs_maxWalkCache : |Walker.maxWalkCache| ≤ Walker.maxWalkCache := by decide

theorem abs_neg_maxWalkCache : |-Walker.maxWalkCache| ≤ Walker.maxWalkCache := by decide

theorem shiftVertically_apply (h : Neighbour oldPos newPos dx dy) (hj : j < mapWalkSize)
    (hi : i < mapWalkSize) : shiftVertically r m cache oldPos newPos j i =
      if 0 ≤ j + dy ∧ j + dy < mapWalkSize then cache (j + dy).toNat i
      else seen r m newPos j i := by
  have hy := h.y
  have hdy := abs_le.mp h.dy_le
  rw [shiftVertically]
  simp only [UInt16.lt_iff_toNat_lt]
  rw [mapWalkSize] at hj hi ⊢
  obtain rfl | rfl | rfl : dy = -1 ∨ dy = 0 ∨ dy = 1 := by omega
  · rw [if_pos (by omega), updateRow_apply _ _ _ _ abs_neg_maxWalkCache, shiftUp_apply,
      Walker.maxWalkCache]
    by_cases hedge : j = 0
    · rw [if_pos ⟨by omega, hi⟩, if_neg (by omega)]
    · have hfrom : ((j : ℤ) + -1).toNat = j - 1 := by omega
      rw [if_neg (by omega), if_pos (by omega), if_pos (by omega), hfrom]
  · have hfrom : ((j : ℤ) + 0).toNat = j := by omega
    rw [if_neg (by omega), if_neg (by omega), if_pos (by omega), hfrom]
  · rw [if_neg (by omega), if_pos (by omega), updateRow_apply _ _ _ _ abs_maxWalkCache,
      shiftDown_apply, Walker.maxWalkCache]
    by_cases hedge : j = 22
    · rw [if_pos ⟨by omega, hi⟩, if_neg (by omega)]
    · have hfrom : ((j : ℤ) + 1).toNat = j + 1 := by omega
      rw [if_neg (by omega), if_pos (by omega), if_pos (by omega), hfrom]

theorem shiftedRows_eq (h : Neighbour oldPos newPos dx dy) :
    shiftedRows oldPos newPos = (if dy = 0 then 0 else 1, 22) := by
  have hdy := abs_le.mp h.dy_le
  have hdist : getDistanceY oldPos newPos = |dy| := by
    rw [getDistanceY, h.y, sub_add_cancel_left, abs_neg]
  rw [shiftedRows, hdist]
  obtain rfl | rfl | rfl : dy = -1 ∨ dy = 0 ∨ dy = 1 := by omega
  · rfl
  · rfl
  · rfl

theorem shiftRows_apply (h : Neighbour oldPos newPos dx dy) (shift : (ℕ → Bool) → ℕ → Bool) (hj : j < mapWalkSize) :
    shiftRows (shiftedRows oldPos newPos) shift cache j = if dy ≠ 0 ∧ j = 0 then cache j else shift (cache j) := by
  rw [mapWalkSize] at hj
  rw [shiftRows, mapFrom_apply, shiftedRows_eq h]
  dsimp only
  by_cases hdy : dy = 0
  · rw [if_pos hdy, if_pos (by omega), if_neg fun hstays => hstays.1 hdy]
  · rw [if_neg hdy]
    by_cases hedge : j = 0
    · rw [if_neg (by omega), if_pos ⟨hdy, hedge⟩]
    · rw [if_pos (by omega), if_neg fun hstays => hedge hstays.2]

theorem shiftHorizontally_apply (h : Neighbour oldPos newPos dx dy) (hj : j < mapWalkSize)
    (hi : i < mapWalkSize) : shiftHorizontally r m cache oldPos newPos j i =
      if 0 ≤ i + dx ∧ i + dx < mapWalkSize then
        if dy ≠ 0 ∧ j = 0 then cache j i else cache j (i + dx).toNat
      else seen r m newPos j i := by
  have hx := h.x
  have hdx := abs_le.mp h.dx_le
  rw [shiftHorizontally]
  simp only [UInt16.lt_iff_toNat_lt]
  obtain rfl | rfl | rfl : dx = -1 ∨ dx = 0 ∨ dx = 1 := by omega
  · rw [if_neg (by omega), if_pos (by omega), updateColumn_apply _ _ _ _ abs_neg_maxWalkCache,
      shiftRows_apply h _ hj, Walker.maxWalkCache]
    rw [mapWalkSize] at hj hi ⊢
    by_cases hedge : i = 0
    · rw [if_pos ⟨by omega, hj⟩, if_neg (by omega)]
    · have hfrom : ((i : ℤ) + -1).toNat = i - 1 := by omega
      have hin : 0 ≤ (i : ℤ) + -1 ∧ (i : ℤ) + -1 < (23 : ℕ) := by omega
      rw [if_neg (by omega), if_pos hin, hfrom]
      by_cases hstays : dy ≠ 0 ∧ j = 0
      · rw [if_pos hstays, if_pos hstays]
      · rw [if_neg hstays, if_neg hstays, shiftUp_apply, if_pos (by omega)]
  · have hfrom : ((i : ℤ) + 0).toNat = i := by omega
    rw [if_neg (by omega), if_neg (by omega), if_pos (by omega), hfrom, ite_self]
  · rw [if_pos (by omega), updateColumn_apply _ _ _ _ abs_maxWalkCache, shiftRows_apply h _ hj,
      Walker.maxWalkCache]
    rw [mapWalkSize] at hj hi ⊢
    by_cases hedge : i = 22
    · rw [if_pos ⟨by omega, hj⟩, if_neg (by omega)]
    · have hfrom : ((i : ℤ) + 1).toNat = i + 1 := by omega
      have hin : 0 ≤ (i : ℤ) + 1 ∧ (i : ℤ) + 1 < (23 : ℕ) := by omega
      rw [if_neg (by omega), if_pos hin, hfrom]
      by_cases hstays : dy ≠ 0 ∧ j = 0
      · rw [if_pos hstays, if_pos hstays]
      · rw [if_neg hstays, if_neg hstays, shiftDown_apply, if_pos (by omega)]

theorem Neighbour.shifted_eq (h : Neighbour oldPos newPos dx dy) (a b : ℤ) :
    newPos.shifted a b = oldPos.shifted (a + dx) (b + dy) := by
  have hx : (newPos.x.toNat : ℤ) + a = oldPos.x.toNat + (a + dx) := by
    rw [h.x]
    omega
  have hy : (newPos.y.toNat : ℤ) + b = oldPos.y.toNat + (b + dy) := by
    rw [h.y]
    omega
  rw [Position.shifted, Position.shifted, hx, hy, h.z]

theorem shifted_zero (p : Position) : p.shifted 0 0 = p := by
  rw [Position.shifted, add_zero, add_zero, UInt16.ofInt, UInt16.ofInt]
  have hx : ((p.x.toNat : ℤ) % 2 ^ 16).toNat = p.x.toNat := by
    have := p.x.toNat_lt
    omega
  have hy : ((p.y.toNat : ℤ) % 2 ^ 16).toNat = p.y.toNat := by
    have := p.y.toNat_lt
    omega
  rw [hx, hy, UInt16.ofNat_toNat, UInt16.ofNat_toNat]

/-- The cache after a step, cell by cell. -/
theorem onCreatureMove_apply (h : Neighbour oldPos newPos dx dy) (hj : j < mapWalkSize)
    (hi : i < mapWalkSize) : onCreatureMove r m cache oldPos newPos false j i =
      if j = Walker.maxWalkCache - dy ∧ i = Walker.maxWalkCache - dx then seen r m newPos j i
      else if 0 ≤ i + dx ∧ i + dx < mapWalkSize then
        if dy ≠ 0 ∧ j = 0 then shiftVertically r m cache oldPos newPos j i
        else shiftVertically r m cache oldPos newPos j (i + dx).toNat
      else seen r m newPos j i := by
  have hdx := abs_le.mp h.dx_le
  have hdy := abs_le.mp h.dy_le
  have hx := h.x
  have hy := h.y
  have hold : newPos.shifted (-dx) (-dy) = oldPos := by
    rw [h.shifted_eq, neg_add_cancel, neg_add_cancel, shifted_zero]
  have hnot : ¬ (false = true ∨ oldPos.z ≠ newPos.z) := by
    simp [h.z]
  have hx' : |-dx| ≤ Walker.maxWalkCache := (abs_neg dx).trans_le (h.dx_le.trans (by decide))
  have hy' : |-dy| ≤ Walker.maxWalkCache := (abs_neg dy).trans_le (h.dy_le.trans (by decide))
  have hread := updateTileCacheAt_apply r newPos
    (shiftHorizontally r m (shiftVertically r m cache oldPos newPos) oldPos newPos)
    (m.getTile oldPos) hx' hy' j i
  rw [hold] at hread
  rw [onCreatureMove, if_neg hnot, hread, shiftHorizontally_apply h hj hi]
  by_cases hcell : (j : ℤ) = Walker.maxWalkCache - dy ∧ (i : ℤ) = Walker.maxWalkCache - dx
  · rw [if_pos hcell, if_pos, ← hold]
    · exact seen_of_eq r m newPos hcell.1 hcell.2
    · refine ⟨hcell, ?_⟩
      have := oldPos.x.toNat_lt
      have := oldPos.y.toNat_lt
      simp only [OnMap, Walker.maxWalkCache] at hcell ⊢
      omega
  · rw [if_neg hcell, if_neg fun hboth => hcell hboth.1]

end Steps

/-! ## The map after the move -/

section Moved
variable {rules : Rules} {m : Map} {c : ℕ} {p q oldPos newPos : Position}

/-- The tile with a creature more on it. -/
def entered (c : ℕ) (t : Tile) : Tile := { t with creatures := c :: t.creatures }

theorem getTile_removeThing (hne : q ≠ p) : (m.removeThing rules p c).getTile q = m.getTile q := by
  rw [Map.removeThing]
  split
  · rw [getTile_modifyTile, if_neg hne]
    rfl
  · rfl

theorem getTile_addThing (rules : Rules) (m : Map) (c : ℕ) (p q : Position) :
    (m.addThing rules p c).getTile q = if q = p then (m.getTile q).map (entered c) else m.getTile q :=
  getTile_modifyTile (m.clearSpectatorCaches rules.isPlayer c) p q (entered c)

theorem getTile_moveCreature (htile : m.tile c = some oldPos) (hne : q ≠ oldPos) :
    (m.moveCreature rules c newPos).getTile q = if q = newPos then (m.getTile q).map (entered c) else m.getTile q := by
  have hseen : ∀ (m : Map) (v : Map.View), (m.getSpectators rules.isPlayer [] v).2.getTile q = m.getTile q := by
    intro m v
    obtain ⟨cache, players, hmap⟩ := getSpectators_map rules.isPlayer m [] v
    rw [hmap]
    rfl
  rw [Map.moveCreature, htile]
  dsimp only
  rw [getTile_addThing]
  have hrest : ∀ m : Map, ((if oldPos.path ≠ newPos.path then
      ((m.removeThing rules oldPos c).modifyLeaf oldPos.path
        (·.removeCreature rules.isPlayer c)).modifyLeaf newPos.path
        (·.addCreature rules.isPlayer c)
      else m.removeThing rules oldPos c).getTile q) = m.getTile q := by
    intro m
    have hadd : ∀ leaf : Leaf, (leaf.addCreature rules.isPlayer c).tiles = leaf.tiles :=
      fun _ => rfl
    have hremove : ∀ leaf : Leaf, (leaf.removeCreature rules.isPlayer c).tiles = leaf.tiles :=
      fun _ => rfl
    split
    · rw [getTile_modifyLeaf _ (length_positionPath newPos) hadd,
        getTile_modifyLeaf _ (length_positionPath oldPos) hremove, getTile_removeThing hne]
    · exact getTile_removeThing hne
  rw [hrest, hseen, hseen]

end Moved

/-! ## Right and wrong steps -/

section Right
variable {rules : Rules} {r : WalkRules} {m : Map} {cache : MapCache} {c : ℕ}
  {oldPos newPos : Position} {dx dy : ℤ} {teleport : Bool} {j i : ℕ}

/-- When the shifted cache is right: what it has for the square of the monster holds with the
monster on it, and if the monster goes south and to a side, then the first row, which is not
shifted to that side, and the last row, which is although it was read, are the same shifted. -/
structure StaysRight (r : WalkRules) (m : Map) (cache : MapCache) (c : ℕ) (newPos : Position)
    (dx dy : ℤ) : Prop where
  centre : r.accepts ((m.getTile newPos).map (entered c)) = r.accepts (m.getTile newPos)
  first : dy = 1 → dx ≠ 0 → ∀ i : ℕ, i < mapWalkSize → 0 ≤ i + dx → i + dx < mapWalkSize →
    OnMap newPos 0 i → cache 1 i = cache 1 (i + dx).toNat
  last : dy = 1 → dx ≠ 0 → ∀ i : ℕ, i < mapWalkSize → 0 ≤ i + dx → i + dx < mapWalkSize →
    OnMap newPos 22 i → seen r m newPos 22 (i + dx).toNat = seen r m newPos 22 i

theorem remembered (h : Neighbour oldPos newPos dx dy) (hfresh : Fresh r m oldPos cache) (hmap : OnMap newPos j i)
    (hj : 0 ≤ j + dy ∧ j + dy < mapWalkSize) (hi : 0 ≤ i + dx ∧ i + dx < mapWalkSize) :
    cache (j + dy).toNat (i + dx).toNat = seen r m newPos j i := by
  have hx := h.x
  have hy := h.y
  have hsquare : newPos.shifted (i - Walker.maxWalkCache) (j - Walker.maxWalkCache) =
      oldPos.shifted ((i + dx).toNat - Walker.maxWalkCache) ((j + dy).toNat - Walker.maxWalkCache) := by
    have hcolumn : (i : ℤ) - Walker.maxWalkCache + dx = ((i + dx).toNat : ℤ) - Walker.maxWalkCache := by omega
    have hrow : (j : ℤ) - Walker.maxWalkCache + dy = ((j + dy).toNat : ℤ) - Walker.maxWalkCache := by omega
    rw [h.shifted_eq, hcolumn, hrow]
  rw [seen, hsquare]
  apply (fresh_iff r m oldPos cache).mp hfresh
  · omega
  · omega
  · simp only [OnMap, Walker.maxWalkCache] at hmap ⊢
    omega

theorem shifted_inj {p : Position} {a b a' b' : ℤ} (ha : |a - a'| < 2 ^ 16) (hb : |b - b'| < 2 ^ 16)
    (h : p.shifted a b = p.shifted a' b') : a = a' ∧ b = b' := by
  have hx := congrArg (fun q : Position => (q.x.toNat : ℤ)) h
  have hy := congrArg (fun q : Position => (q.y.toNat : ℤ)) h
  simp only [Position.shifted, toNat_ofInt] at hx hy
  rw [abs_lt] at ha hb
  omega

theorem Neighbour.old_eq (h : Neighbour oldPos newPos dx dy) : oldPos = newPos.shifted (-dx) (-dy) := by
  rw [h.shifted_eq, neg_add_cancel, neg_add_cancel, shifted_zero]

theorem Neighbour.ne (h : Neighbour oldPos newPos dx dy) : newPos ≠ oldPos := by
  rintro rfl
  have hx := h.x
  have hy := h.y
  rcases h.moves with hdx | hdy
  · omega
  · omega

/-- A square apart from those of the move is the same before and after it. -/
theorem seen_moveCreature (h : Neighbour oldPos newPos dx dy) (htile : m.tile c = some oldPos) (hj : j < mapWalkSize)
    (hi : i < mapWalkSize) (hold : ¬ (j = Walker.maxWalkCache - dy ∧ i = Walker.maxWalkCache - dx))
    (hnew : ¬ (j = Walker.maxWalkCache ∧ i = Walker.maxWalkCache)) :
    seen r (m.moveCreature rules c newPos) newPos j i = seen r m newPos j i := by
  have hdx := abs_le.mp h.dx_le
  have hdy := abs_le.mp h.dy_le
  rw [mapWalkSize] at hj hi
  rw [Walker.maxWalkCache] at hold hnew
  have hnotOld : newPos.shifted (i - Walker.maxWalkCache) (j - Walker.maxWalkCache) ≠ oldPos := by
    intro heq
    have hboth := heq.trans h.old_eq
    rw [Walker.maxWalkCache] at hboth
    have := shifted_inj (by rw [abs_lt]; omega) (by rw [abs_lt]; omega) hboth
    omega
  have hnotNew : newPos.shifted (i - Walker.maxWalkCache) (j - Walker.maxWalkCache) ≠ newPos := by
    intro heq
    have hzero := heq.trans (shifted_zero newPos).symm
    rw [Walker.maxWalkCache] at hzero
    have := shifted_inj (by rw [abs_lt]; omega) (by rw [abs_lt]; omega) hzero
    omega
  rw [seen, getTile_moveCreature htile hnotOld, if_neg hnotNew, seen]

theorem seen_centre (rules : Rules) (r : WalkRules) (h : Neighbour oldPos newPos dx dy)
    (htile : m.tile c = some oldPos) :
    seen r (m.moveCreature rules c newPos) newPos 11 11 = r.accepts ((m.getTile newPos).map (entered c)) ∧
      seen r m newPos 11 11 = r.accepts (m.getTile newPos) := by
  have hzero : newPos.shifted ((11 : ℕ) - Walker.maxWalkCache) ((11 : ℕ) - Walker.maxWalkCache) =
      newPos := shifted_zero newPos
  rw [seen, seen, hzero, getTile_moveCreature htile h.ne, if_pos rfl]
  exact ⟨rfl, rfl⟩

/-- The three cells that may be wrong apart, the cache is right. -/
theorem onCreatureMove_right (h : Neighbour oldPos newPos dx dy) (htile : m.tile c = some oldPos)
    (hfresh : Fresh r m oldPos cache) (hj : j < mapWalkSize) (hi : i < mapWalkSize)
    (hmap : OnMap newPos j i) (hcentre : ¬ (j = Walker.maxWalkCache ∧ i = Walker.maxWalkCache))
    (hedge : ¬ (dy = 1 ∧ dx ≠ 0 ∧ (0 ≤ i + dx ∧ i + dx < mapWalkSize) ∧ (j = 0 ∨ j = 22))) :
    onCreatureMove r (m.moveCreature rules c newPos) cache oldPos newPos false j i =
      seen r (m.moveCreature rules c newPos) newPos j i := by
  have hdx := abs_le.mp h.dx_le
  have hdy := abs_le.mp h.dy_le
  rw [onCreatureMove_apply h hj hi]
  split
  · rfl
  · rename_i hold
    have hsame : seen r (m.moveCreature rules c newPos) newPos j i = seen r m newPos j i :=
      seen_moveCreature h htile hj hi hold hcentre
    split
    · rename_i hin
      have hi' : (i + dx).toNat < mapWalkSize := by omega
      split
      · rename_i hstays
        rw [shiftVertically_apply h hj hi]
        split
        · -- only to the south is there a row to come from, and then it is not to a side as well
          rename_i hfrom
          obtain rfl : dx = 0 := by
            by_contra hside
            exact hedge ⟨by omega, hside, hin, .inl hstays.2⟩
          rw [hsame, ← remembered h hfresh hmap hfrom hin, add_zero, Int.toNat_natCast]
        · rfl
      · rename_i hstays
        rw [shiftVertically_apply h hj hi']
        split
        · rename_i hfrom
          rw [hsame]
          exact remembered h hfresh hmap hfrom hin
        · rename_i hfrom
          rw [mapWalkSize] at hj hfrom
          obtain rfl : dx = 0 := by
            by_contra hside
            exact hedge ⟨by omega, hside, hin, .inr (by omega)⟩
          rw [add_zero, Int.toNat_natCast]
    · rfl

theorem onMap_centre (p : Position) : OnMap p 11 11 := by
  have hx := p.x.toNat_lt
  have hy := p.y.toNat_lt
  simp only [OnMap, Walker.maxWalkCache]
  omega

/-- For the square of the monster the cache has what was there before. -/
theorem onCreatureMove_centre (h : Neighbour oldPos newPos dx dy) (hfresh : Fresh r m oldPos cache)
    (m' : Map) : onCreatureMove r m' cache oldPos newPos false 11 11 = seen r m newPos 11 11 := by
  have hdx := abs_le.mp h.dx_le
  have hdy := abs_le.mp h.dy_le
  have hmoves := h.moves
  have heleven : 11 < mapWalkSize := by decide
  have hi : 0 ≤ ((11 : ℕ) : ℤ) + dx ∧ ((11 : ℕ) : ℤ) + dx < mapWalkSize := by
    rw [mapWalkSize]
    omega
  have hj : 0 ≤ ((11 : ℕ) : ℤ) + dy ∧ ((11 : ℕ) : ℤ) + dy < mapWalkSize := by
    rw [mapWalkSize]
    omega
  have hi' : (((11 : ℕ) : ℤ) + dx).toNat < mapWalkSize := by omega
  have hcell : ¬ (((11 : ℕ) : ℤ) = Walker.maxWalkCache - dy ∧ ((11 : ℕ) : ℤ) = Walker.maxWalkCache - dx) := by
    rw [Walker.maxWalkCache]
    omega
  rw [onCreatureMove_apply h heleven heleven, if_neg hcell, if_pos hi,
    if_neg fun hstays => absurd hstays.2 (by decide), shiftVertically_apply h heleven hi', if_pos hj]
  exact remembered h hfresh (onMap_centre newPos) hj hi

theorem onCreatureMove_first (h : Neighbour oldPos newPos dx 1) (m' : Map) (hi : i < mapWalkSize)
    (hin : 0 ≤ i + dx ∧ i + dx < mapWalkSize) : onCreatureMove r m' cache oldPos newPos false 0 i = cache 1 i := by
  have hzero : 0 < mapWalkSize := by decide
  have hcell : ¬ (((0 : ℕ) : ℤ) = Walker.maxWalkCache - 1 ∧ (i : ℤ) = Walker.maxWalkCache - dx) := by
    rw [Walker.maxWalkCache]
    omega
  rw [onCreatureMove_apply h hzero hi, if_neg hcell, if_pos hin, if_pos ⟨one_ne_zero, rfl⟩,
    shiftVertically_apply h hzero hi, if_pos (by decide)]
  rfl

theorem onCreatureMove_last (h : Neighbour oldPos newPos dx 1) (m' : Map) (hi : i < mapWalkSize)
    (hin : 0 ≤ i + dx ∧ i + dx < mapWalkSize) :
    onCreatureMove r m' cache oldPos newPos false 22 i = seen r m' newPos 22 (i + dx).toNat := by
  have hlast : 22 < mapWalkSize := by decide
  have hi' : (i + dx).toNat < mapWalkSize := by omega
  have hcell : ¬ (((22 : ℕ) : ℤ) = Walker.maxWalkCache - 1 ∧ (i : ℤ) = Walker.maxWalkCache - dx) := by
    rw [Walker.maxWalkCache]
    omega
  rw [onCreatureMove_apply h hlast hi, if_neg hcell, if_pos hin,
    if_neg fun hstays => absurd hstays.2 (by decide), shiftVertically_apply h hlast hi',
    if_neg (by decide)]

theorem walk_cache_iff (h : Neighbour oldPos newPos dx dy) (htile : m.tile c = some oldPos)
    (hfresh : Fresh r m oldPos cache) :
    Fresh r (m.moveCreature rules c newPos) newPos
      (onCreatureMove r (m.moveCreature rules c newPos) cache oldPos newPos teleport) ↔
    teleport = true ∨ StaysRight r m cache c newPos dx dy := by
  cases teleport with
  | true =>
    have hteleport : onCreatureMove r (m.moveCreature rules c newPos) cache oldPos newPos true =
        updateMapCache r (m.moveCreature rules c newPos) newPos cache := if_pos (.inl rfl)
    rw [hteleport]
    exact ⟨fun _ => .inl rfl, fun _ => fresh_updateMapCache _ _ _ _⟩
  | false =>
    have hdx := abs_le.mp h.dx_le
    have hdy := abs_le.mp h.dy_le
    obtain ⟨hcentreNow, hcentre⟩ := seen_centre rules r h htile
    have hedge : ∀ j : ℕ, j = 0 ∨ j = 22 → ∀ i : ℕ, i < mapWalkSize →
        seen r (m.moveCreature rules c newPos) newPos j i = seen r m newPos j i := by
      intro j hj i hi
      apply seen_moveCreature h htile (by rw [mapWalkSize]; omega) hi
      · rw [Walker.maxWalkCache]
        omega
      · rw [Walker.maxWalkCache]
        omega
    rw [fresh_iff]
    constructor
    · intro hright
      refine .inr ⟨?_, ?_, ?_⟩
      · rw [← hcentreNow, ← hcentre, ← onCreatureMove_centre h hfresh]
        exact (hright 11 11 (by decide) (by decide) (onMap_centre newPos)).symm
      · rintro rfl - i hi hlow hhigh hmap
        have hcell := hright 0 i (by decide) hi hmap
        rw [onCreatureMove_first h _ hi ⟨hlow, hhigh⟩, hedge 0 (by decide) i hi] at hcell
        rw [hcell]
        exact (remembered h hfresh hmap (by decide) ⟨hlow, hhigh⟩).symm
      · rintro rfl - i hi hlow hhigh hmap
        have hcell := hright 22 i (by decide) hi hmap
        rw [onCreatureMove_last h _ hi ⟨hlow, hhigh⟩, hedge 22 (by decide) i hi,
          hedge 22 (by decide) _ (by omega)] at hcell
        exact hcell
    · rintro (hteleport | hstays)
      · cases hteleport
      intro j i hj hi hmap
      by_cases hcell : (j : ℤ) = Walker.maxWalkCache ∧ (i : ℤ) = Walker.maxWalkCache
      · rw [Walker.maxWalkCache] at hcell
        obtain ⟨rfl, rfl⟩ : j = 11 ∧ i = 11 := by omega
        rw [onCreatureMove_centre h hfresh, hcentre, hcentreNow, hstays.centre]
      · by_cases hwrong : dy = 1 ∧ dx ≠ 0 ∧ (0 ≤ i + dx ∧ i + dx < mapWalkSize) ∧ (j = 0 ∨ j = 22)
        · obtain ⟨rfl, hside, hin, rfl | rfl⟩ := hwrong
          · rw [onCreatureMove_first h _ hi hin, hstays.first rfl hside i hi hin.1 hin.2 hmap,
              hedge 0 (by decide) i hi]
            exact remembered h hfresh hmap (by decide) hin
          · rw [onCreatureMove_last h _ hi hin, hedge 22 (by decide) i hi,
              hedge 22 (by decide) _ (by omega)]
            exact hstays.last rfl hside i hi hin.1 hin.2 hmap
        · exact onCreatureMove_right h htile hfresh hj hi hmap hcell hwrong

end Right

/-- A monster that pushes others, and its like. -/
def pusher : WalkRules where
  monster := { canPushCreatures := true }
  types n := { id := n }
  fields _ := { }
  occupant _ := { isMonster := true, isPushable := true }

/-- Three squares with a ground: one with the monster, the one to the south-east of it, and one at
the edge of what it remembers. -/
def meadow : Map :=
  let ground : Tile := { ground := some { ref := 1, id := 4526 } }
  let m := (((({ } : Map).setTile ⟨100, 100, 7⟩ ground).setTile ⟨101, 101, 7⟩ ground).setTile
    ⟨101, 90, 7⟩ ground)
  (m.addThing { isPlayer := fun _ => false } ⟨100, 100, 7⟩ 1).modifyLeaf
    (Position.path ⟨100, 100, 7⟩) (·.addCreature (fun _ => false) 1)

/-- What the monster remembers of it. -/
def meadowCache : MapCache := updateMapCache pusher meadow ⟨100, 100, 7⟩ fun _ _ => false

theorem meadow_neighbour : Neighbour ⟨100, 100, 7⟩ ⟨101, 101, 7⟩ 1 1 :=
  ⟨rfl, rfl, rfl, by decide, by decide, .inl one_ne_zero⟩

theorem walk_cache_meadow : Fresh pusher
      (meadow.moveCreature { isPlayer := fun _ => false } 1 ⟨101, 101, 7⟩) ⟨101, 101, 7⟩
      (onCreatureMove pusher (meadow.moveCreature { isPlayer := fun _ => false } 1 ⟨101, 101, 7⟩)
        meadowCache ⟨100, 100, 7⟩ ⟨101, 101, 7⟩ false) ↔
    false = true ∨ StaysRight pusher meadow meadowCache 1 ⟨101, 101, 7⟩ 1 1 :=
  walk_cache_iff meadow_neighbour rfl (fresh_updateMapCache _ _ _ _)

/-- After the step to the south-east the square at the edge is in the wrong column. -/
theorem meadow_is_forgotten : Fresh pusher meadow ⟨100, 100, 7⟩ meadowCache ∧
    ¬ Fresh pusher (meadow.moveCreature { isPlayer := fun _ => false } 1 ⟨101, 101, 7⟩)
      ⟨101, 101, 7⟩ (onCreatureMove pusher
        (meadow.moveCreature { isPlayer := fun _ => false } 1 ⟨101, 101, 7⟩) meadowCache
        ⟨100, 100, 7⟩ ⟨101, 101, 7⟩ false) := by
  refine ⟨fresh_updateMapCache _ _ _ _, fun hfresh => ?_⟩
  have hcell := (fresh_iff _ _ _ _).mp hfresh 0 11 (by decide) (by decide) (by decide)
  have hkept : meadowCache 1 11 = seen pusher meadow ⟨100, 100, 7⟩ 1 11 := by
    rw [meadowCache, updateMapCache_apply, if_pos (by decide)]
  rw [onCreatureMove_first meadow_neighbour _ (by decide) (by decide), hkept] at hcell
  revert hcell
  decide +kernel

end ForgottenServer.Maps
