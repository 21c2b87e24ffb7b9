import ForgottenServer.Lib.Run
import ForgottenServer.Maps.Map

/-! # The lists of creatures

A creature on the map is in the list of its tile and in the lists of one leaf.
The lists are kept apart: what each operation does to the tiles and to the leaves
is said of a function from creatures to positions, and both functions are one
again after every step. -/
namespace ForgottenServer.Maps
open ForgottenServer.Lib.Quadtree ForgottenServer.Lib.Run ForgottenServer.Tiles

variable {rules : Rules} {m : Map} {c : ℕ} {p q : Position}

/-! ## Lists of the members of a set -/

/-- The list has the members of the set, each once. -/
def Lists (l : List ℕ) (s : ℕ → Prop) : Prop := l.Nodup ∧ ∀ c, c ∈ l ↔ s c

theorem Lists.congr {l : List ℕ} {s s' : ℕ → Prop} (h : Lists l s) (hs : ∀ c, s c ↔ s' c) : Lists l s' :=
  ⟨h.1, fun c => (h.2 c).trans (hs c)⟩

theorem Lists.perm {l l' : List ℕ} {s : ℕ → Prop} (h : Lists l s) (hl : l'.Perm l) : Lists l' s :=
  ⟨hl.nodup_iff.mpr h.1, fun c => hl.mem_iff.trans (h.2 c)⟩

theorem Lists.cons {l : List ℕ} {s : ℕ → Prop} (h : Lists l s) (hc : ¬ s c) : Lists (c :: l) fun d => d = c ∨ s d :=
  ⟨List.nodup_cons.mpr ⟨fun hmem => hc ((h.2 c).mp hmem), h.1⟩, fun d => by rw [List.mem_cons, h.2]⟩

theorem Lists.snoc {l : List ℕ} {s : ℕ → Prop} (h : Lists l s) (hc : ¬ s c) :
    Lists (l ++ [c]) fun d => d = c ∨ s d := (h.cons hc).perm (List.perm_append_singleton c l)

theorem Lists.erase {l : List ℕ} {s : ℕ → Prop} (h : Lists l s) (c : ℕ) : Lists (l.erase c) fun d => d ≠ c ∧ s d :=
  ⟨h.1.erase c, fun d => by rw [h.1.mem_erase_iff, h.2]⟩

theorem swapRemove_perm {l : List ℕ} (hc : c ∈ l) : (Leaf.swapRemove c l).Perm (l.erase c) := by
  obtain ⟨a, b, rfl, ha⟩ := List.eq_append_cons_of_mem hc
  have hindex : (a ++ c :: b).idxOf c = a.length := by
    rw [List.idxOf_append_of_notMem ha, List.idxOf_cons_self, Nat.add_zero]
  have herase : (a ++ c :: b).erase c = a ++ b := by
    rw [List.erase_append_right _ ha, List.erase_cons_head]
  rw [Leaf.swapRemove, hindex, herase, List.set_append_right _ _ (le_refl _), Nat.sub_self, List.set_cons_zero]
  rcases List.eq_nil_or_concat b with rfl | ⟨b, z, rfl⟩
  · rw [List.dropLast_append_cons, List.dropLast_singleton]
  · have hlast : (a ++ c :: (b ++ [z])).getLastD c = z := by
      rw [← List.cons_append, ← List.append_assoc, List.getLastD_concat]
    have hend : a ++ z :: (b ++ [z]) = (a ++ z :: b) ++ [z] := by simp
    rw [List.concat_eq_append, hlast, hend, List.dropLast_concat]
    exact List.Perm.append_left a (List.perm_append_singleton z b).symm

theorem Lists.swapRemove {l : List ℕ} {s : ℕ → Prop} (h : Lists l s) (hc : s c) :
    Lists (Leaf.swapRemove c l) fun d => d ≠ c ∧ s d :=
  (h.erase c).perm (swapRemove_perm ((h.2 c).mpr hc))

/-! ## Tiles and leaves -/

def Map.creaturesOn (m : Map) (p : Position) : Option (List ℕ) := (m.getTile p).map (·.creatures)

def Map.creaturesIn (m : Map) (way : List Quadrant) : Option (List ℕ × List ℕ) :=
  (m.root.get way).map fun leaf => (leaf.creatureList, leaf.playerList)

@[simp] theorem length_positionPath (p : Position) : p.path.length = 13 := length_path ..

theorem position_eq (hpath : q.path = p.path) (hz : q.z.toNat = p.z.toNat)
    (hx : q.x.toNat % 8 = p.x.toNat % 8) (hy : q.y.toNat % 8 = p.y.toNat % 8) : q = p := by
  obtain ⟨x, y, z⟩ := p
  obtain ⟨x', y', z'⟩ := q
  have hdiv := (path_eq_iff_div (b := 15) (m := 3) x'.toNat_lt x.toNat_lt y'.toNat_lt y.toNat_lt (by decide)).mp hpath
  dsimp only at hz hx hy hdiv
  rw [Position.mk.injEq]
  exact ⟨UInt16.toNat_inj.mp (by omega), UInt16.toNat_inj.mp (by omega), UInt8.toNat_inj.mp hz⟩

section Frames

theorem get_modifyLeaf (m : Map) {way way' : List Quadrant} (h : way.length = 13) (h' : way'.length = 13)
    (f : Leaf → Leaf) :
    (m.modifyLeaf way f).root.get way' = if way' = way then (m.root.get way').map f else m.root.get way' := by
  split
  · rename_i heq
    subst heq
    exact QTree.get_modify_self f m.root way'
  · rename_i hne
    exact QTree.get_modify_of_ne f m.root h h' hne

theorem creaturesIn_modifyLeaf (m : Map) {way way' : List Quadrant} (h : way.length = 13) (h' : way'.length = 13)
    {f : Leaf → Leaf} {g : List ℕ × List ℕ → List ℕ × List ℕ}
    (hf : ∀ leaf, ((f leaf).creatureList, (f leaf).playerList) = g (leaf.creatureList, leaf.playerList)) :
    (m.modifyLeaf way f).creaturesIn way' = if way' = way then (m.creaturesIn way').map g else m.creaturesIn way' := by
  unfold Map.creaturesIn
  rw [get_modifyLeaf m h h']
  split
  · rw [Option.map_map, Option.map_map]
    exact Option.map_congr fun leaf _ => hf leaf
  · rfl

theorem getTile_modifyLeaf (m : Map) {way : List Quadrant} (h : way.length = 13) {f : Leaf → Leaf}
    (hf : ∀ leaf, (f leaf).tiles = leaf.tiles) (q : Position) : (m.modifyLeaf way f).getTile q = m.getTile q := by
  unfold Map.getTile
  rw [get_modifyLeaf m h (length_positionPath q)]
  split
  · rfl
  · split
    · rw [Option.bind_map]
      exact Option.bind_congr fun leaf _ => by rw [Function.comp_apply, hf]
    · rfl

theorem getTile_modifyTile (m : Map) (p q : Position) (f : Tile → Tile) :
    (m.modifyTile p f).getTile q = if q = p then (m.getTile q).map f else m.getTile q := by
  unfold Map.getTile Map.modifyTile
  rw [get_modifyLeaf m (length_positionPath p) (length_positionPath q)]
  by_cases hlayer : Map.maxLayers ≤ q.z.toNat
  · simp [hlayer]
  simp only [hlayer, if_false]
  by_cases hpath : q.path = p.path
  · rw [if_pos hpath, Option.bind_map]
    cases m.root.get q.path with
    | none => simp
    | some leaf =>
      simp only [Option.bind_some, Function.comp_apply, Leaf.modifyTile]
      by_cases hq : q = p
      · rw [if_pos ⟨by rw [hq], by rw [hq], by rw [hq]⟩, if_pos hq]
      · rw [if_neg fun h => hq (position_eq hpath h.1 h.2.1 h.2.2), if_neg hq]
  · have hne : q ≠ p := fun h => hpath (by rw [h])
    rw [if_neg hpath, if_neg hne]

theorem creaturesOn_modifyTile (m : Map) (p q : Position) (f : Tile → Tile) {g : List ℕ → List ℕ}
    (hf : ∀ t, (f t).creatures = g t.creatures) :
    (m.modifyTile p f).creaturesOn q = if q = p then (m.creaturesOn q).map g else m.creaturesOn q := by
  unfold Map.creaturesOn
  rw [getTile_modifyTile]
  split
  · rw [Option.map_map, Option.map_map]
    exact Option.map_congr fun t _ => hf t
  · rfl

theorem creaturesIn_modifyTile (m : Map) (p : Position) (f : Tile → Tile) {way : List Quadrant} (h : way.length = 13) :
    (m.modifyTile p f).creaturesIn way = m.creaturesIn way := by
  have hkept : ∀ leaf : Leaf, ((leaf.modifyTile p f).creatureList, (leaf.modifyTile p f).playerList) =
      id (leaf.creatureList, leaf.playerList) := fun _ => rfl
  rw [Map.modifyTile, creaturesIn_modifyLeaf m (length_positionPath p) h hkept]
  split
  · rw [Option.map_id, id]
  · rfl

end Frames

/-! ## What the lists say of positions -/

/-- The creatures of each tile are those at its position. -/
def OnTiles (m : Map) (pos : ℕ → Option Position) : Prop :=
  ∀ p l, m.creaturesOn p = some l → Lists l fun c => pos c = some p

/-- The creature is at a position that the leaf covers. -/
def CoveredBy (pos : ℕ → Option Position) (way : List Quadrant) (c : ℕ) : Prop :=
  (pos c).map Position.path = some way

/-- The creatures of each leaf are those that it covers, its players the players of them. -/
def InLeaves (rules : Rules) (m : Map) (pos : ℕ → Option Position) : Prop :=
  ∀ way, way.length = 13 → ∀ l, m.creaturesIn way = some l →
    Lists l.1 (CoveredBy pos way) ∧ Lists l.2 fun c => rules.isPlayer c = true ∧ CoveredBy pos way c

section Moves
variable {pos : ℕ → Option Position}

theorem update_eq_some {α β : Type} [DecidableEq α] {f : α → Option β} {k : α} {o : Option β} {a : β} (d : α) :
    Function.update f k o d = some a ↔ d = k ∧ o = some a ∨ d ≠ k ∧ f d = some a := by
  by_cases hd : d = k
  · simp [hd]
  · simp [hd]

theorem OnTiles.congr {m' : Map} (h : OnTiles m pos) (hm : ∀ p, m'.creaturesOn p = m.creaturesOn p) : OnTiles m' pos :=
  fun p l hl => h p l (hm p ▸ hl)

theorem InLeaves.congr {m' : Map} (h : InLeaves rules m pos)
    (hm : ∀ way, way.length = 13 → m'.creaturesIn way = m.creaturesIn way) : InLeaves rules m' pos :=
  fun way hway l hl => h way hway l (hm way hway ▸ hl)

theorem OnTiles.modifyLeaf (h : OnTiles m pos) (p : Position) {f : Leaf → Leaf}
    (hf : ∀ leaf, (f leaf).tiles = leaf.tiles) : OnTiles (m.modifyLeaf p.path f) pos :=
  h.congr fun q => by rw [Map.creaturesOn, getTile_modifyLeaf m (length_positionPath p) hf]; rfl

theorem InLeaves.modifyTile (h : InLeaves rules m pos) (p : Position) (f : Tile → Tile) :
    InLeaves rules (m.modifyTile p f) pos :=
  h.congr fun _ hway => creaturesIn_modifyTile m p f hway

theorem OnTiles.leave (h : OnTiles m pos) (hc : pos c = some p) :
    OnTiles (m.modifyTile p (·.removeCreature c)) (Function.update pos c none) := by
  intro q l hl
  rw [creaturesOn_modifyTile m p q _ (g := (·.erase c)) fun _ => rfl] at hl
  simp only [update_eq_some]
  split at hl
  · obtain ⟨l', hl', rfl⟩ := Option.map_eq_some_iff.mp hl
    exact ((h q l' hl').erase c).congr fun d => by simp
  · rename_i hne
    refine (h q l hl).congr fun d => ?_
    have hother : pos d = some q → d ≠ c := by
      rintro hd rfl
      exact hne (Option.some.inj (hd.symm.trans hc))
    simpa using hother

theorem OnTiles.enter (h : OnTiles m pos) (hc : pos c = none) (p : Position) :
    OnTiles (m.modifyTile p fun t => { t with creatures := c :: t.creatures }) (Function.update pos c (some p)) := by
  intro q l hl
  rw [creaturesOn_modifyTile m p q _ (g := (c :: ·)) fun _ => rfl] at hl
  simp only [update_eq_some]
  have hother : ∀ d, pos d = some q → d ≠ c := by
    rintro d hd rfl
    rw [hc] at hd
    cases hd
  split at hl
  · rename_i heq
    obtain ⟨l', hl', rfl⟩ := Option.map_eq_some_iff.mp hl
    refine ((h q l' hl').cons (by rw [hc]; simp)).congr fun d => ?_
    have hd := hother d
    simp [heq.symm]
    tauto
  · rename_i hne
    refine (h q l hl).congr fun d => ?_
    have hd := hother d
    have hpq : p ≠ q := fun h => hne h.symm
    simpa [hpq] using hd

theorem coveredBy_leave (pos : ℕ → Option Position) (way : List Quadrant) (c d : ℕ) :
    CoveredBy (Function.update pos c none) way d ↔ d ≠ c ∧ CoveredBy pos way d := by
  by_cases hd : d = c
  · simp [CoveredBy, hd]
  · simp [CoveredBy, hd]

theorem coveredBy_enter (pos : ℕ → Option Position) (way : List Quadrant) (c d : ℕ) (p : Position) :
    CoveredBy (Function.update pos c (some p)) way d ↔ d = c ∧ p.path = way ∨ d ≠ c ∧ CoveredBy pos way d := by
  by_cases hd : d = c
  · simp [CoveredBy, hd]
  · simp [CoveredBy, hd]

theorem InLeaves.leave (h : InLeaves rules m pos) (hc : pos c = some p) :
    InLeaves rules (m.modifyLeaf p.path (·.removeCreature rules.isPlayer c)) (Function.update pos c none) := by
  intro way hway l hl
  rw [creaturesIn_modifyLeaf m (length_positionPath p) hway (g := fun l =>
    (Leaf.swapRemove c l.1, if rules.isPlayer c then Leaf.swapRemove c l.2 else l.2)) fun _ => rfl] at hl
  have hcovered : CoveredBy pos p.path c := by rw [CoveredBy, hc, Option.map_some]
  split at hl
  · rename_i heq
    subst heq
    obtain ⟨l', hl', rfl⟩ := Option.map_eq_some_iff.mp hl
    obtain ⟨hcreatures, hplayers⟩ := h _ hway l' hl'
    refine ⟨(hcreatures.swapRemove hcovered).congr fun d => (coveredBy_leave ..).symm, ?_⟩
    cases hplayer : rules.isPlayer c with
    | true =>
      refine (hplayers.swapRemove ⟨hplayer, hcovered⟩).congr fun d => ?_
      rw [coveredBy_leave]
      tauto
    | false =>
      refine hplayers.congr fun d => ?_
      have hother : rules.isPlayer d = true → d ≠ c := by
        rintro hd rfl
        rw [hplayer] at hd
        cases hd
      rw [coveredBy_leave]
      tauto
  · rename_i hne
    have hother : ∀ d, CoveredBy pos way d → d ≠ c := by
      rintro d hd rfl
      exact hne (Option.some.inj (hd.symm.trans hcovered))
    obtain ⟨hcreatures, hplayers⟩ := h way hway l hl
    refine ⟨hcreatures.congr fun d => ?_, hplayers.congr fun d => ?_⟩
    · have hd := hother d
      rw [coveredBy_leave]
      tauto
    · have hd := hother d
      rw [coveredBy_leave]
      tauto

theorem InLeaves.enter (h : InLeaves rules m pos) (hc : pos c = none) (p : Position) :
    InLeaves rules (m.modifyLeaf p.path (·.addCreature rules.isPlayer c)) (Function.update pos c (some p)) := by
  intro way hway l hl
  rw [creaturesIn_modifyLeaf m (length_positionPath p) hway (g := fun l =>
    (l.1 ++ [c], if rules.isPlayer c then l.2 ++ [c] else l.2)) fun _ => rfl] at hl
  have hnone : ¬ CoveredBy pos way c := by simp [CoveredBy, hc]
  have hother : ∀ d, CoveredBy pos way d → d ≠ c := by
    rintro d hd rfl
    exact hnone hd
  split at hl
  · rename_i heq
    obtain ⟨l', hl', rfl⟩ := Option.map_eq_some_iff.mp hl
    obtain ⟨hcreatures, hplayers⟩ := h way hway l' hl'
    refine ⟨(hcreatures.snoc hnone).congr fun d => ?_, ?_⟩
    · have hd := hother d
      rw [coveredBy_enter]
      tauto
    · cases hplayer : rules.isPlayer c with
      | true =>
        refine (hplayers.snoc fun h => hnone h.2).congr fun d => ?_
        have hd := hother d
        rw [coveredBy_enter]
        constructor
        · rintro (rfl | hd')
          · exact ⟨hplayer, .inl ⟨rfl, heq.symm⟩⟩
          · exact ⟨hd'.1, .inr ⟨hd hd'.2, hd'.2⟩⟩
        · tauto
      | false =>
        refine hplayers.congr fun d => ?_
        have hd := hother d
        rw [coveredBy_enter]
        have hplayer' : rules.isPlayer d = true → d ≠ c := by
          intro hplayerd hdc
          rw [hdc, hplayer] at hplayerd
          cases hplayerd
        tauto
  · rename_i hne
    obtain ⟨hcreatures, hplayers⟩ := h way hway l hl
    have hpway : p.path ≠ way := fun h => hne h.symm
    refine ⟨hcreatures.congr fun d => ?_, hplayers.congr fun d => ?_⟩
    · have hd := hother d
      rw [coveredBy_enter]
      tauto
    · have hd := hother d
      rw [coveredBy_enter]
      tauto

theorem InLeaves.within (h : InLeaves rules m pos) (hc : pos c = some p) (hpath : q.path = p.path) :
    InLeaves rules m (Function.update pos c (some q)) := by
  have hsame : ∀ way d, CoveredBy pos way d ↔ CoveredBy (Function.update pos c (some q)) way d := by
    intro way d
    by_cases hd : d = c
    · simp [CoveredBy, hd, hc, hpath]
    · simp [CoveredBy, hd]
  intro way hway l hl
  obtain ⟨hcreatures, hplayers⟩ := h way hway l hl
  exact ⟨hcreatures.congr (hsame way), hplayers.congr fun d => and_congr_right fun _ => hsame way d⟩

end Moves

/-! ## Operations -/

section Operations

theorem getSpectators_map (isPlayer : ℕ → Bool) (m : Map) (spectators : List ℕ) (v : Map.View) :
    ∃ cache players, (m.getSpectators isPlayer spectators v).2 =
      { m with spectatorCache := cache, playersSpectatorCache := players } := by
  unfold Map.getSpectators
  split
  · exact ⟨_, _, rfl⟩
  · split
    · split
      · exact ⟨_, _, rfl⟩
      · split
        · exact ⟨_, _, rfl⟩
        · dsimp only
          split <;> exact ⟨_, _, rfl⟩
    · exact ⟨_, _, rfl⟩

def SameTiles (m m' : Map) : Prop := ∀ q, (m'.getTile q).isSome = (m.getTile q).isSome

theorem sameTiles_modifyTile (m : Map) (p : Position) (f : Tile → Tile) : SameTiles m (m.modifyTile p f) := by
  intro q
  rw [getTile_modifyTile]
  split
  · rw [Option.isSome_map]
  · rfl

theorem sameTiles_modifyLeaf (m : Map) (p : Position) {f : Leaf → Leaf} (hf : ∀ leaf, (f leaf).tiles = leaf.tiles) :
    SameTiles m (m.modifyLeaf p.path f) :=
      fun q => by rw [getTile_modifyLeaf m (length_positionPath p) hf]

theorem SameTiles.trans {m m' m'' : Map} (h : SameTiles m m') (h' : SameTiles m' m'') : SameTiles m m'' :=
  fun q => (h' q).trans (h q)

theorem creaturesIn_of_getTile (h : (m.getTile p).isSome = true) : ∃ l, m.creaturesIn p.path = some l := by
  unfold Map.getTile at h
  unfold Map.creaturesIn
  split at h
  · cases h
  · cases hleaf : m.root.get p.path with
    | none => rw [hleaf] at h; cases h
    | some leaf => exact ⟨_, rfl⟩

theorem creaturesOn_of_getTile (h : (m.getTile p).isSome = true) : ∃ l, m.creaturesOn p = some l := by
  obtain ⟨t, ht⟩ := Option.isSome_iff_exists.mp h
  exact ⟨t.creatures, by rw [Map.creaturesOn, ht, Option.map_some]⟩

theorem removeThing_eq {pos : ℕ → Option Position} (h : OnTiles m pos) (hc : pos c = some p)
    (htile : (m.getTile p).isSome = true) :
    m.removeThing rules p c = (m.clearSpectatorCaches rules.isPlayer c).modifyTile p (·.removeCreature c) := by
  obtain ⟨t, ht⟩ := Option.isSome_iff_exists.mp htile
  have hmem : c ∈ t.creatures := ((h p t.creatures (by rw [Map.creaturesOn, ht, Option.map_some])).2 c).mpr hc
  rw [Map.removeThing, if_pos (by rw [ht]; simpa using hmem)]

theorem getTile_of_queryDestination (h : m.queryDestination rules p c = some q) : (m.getTile q).isSome = true := by
  unfold Map.queryDestination at h
  split at h
  · simpa using List.find?_some (p := fun q => (m.getTile q).isSome) h
  · obtain ⟨t, ht, rfl⟩ := Option.map_eq_some_iff.mp h
    have hdest : ∃ dest, m.floorDestination p t = if (m.getTile dest).isSome then dest
        else p := ⟨_, rfl⟩
    obtain ⟨dest, hdest⟩ := hdest
    rw [hdest]
    split
    · assumption
    · rw [ht, Option.isSome_some]

end Operations

/-! ## The invariant -/

/-- The lists say where the creatures are. -/
structure Indexed (rules : Rules) (m : Map) : Prop where
  tiles : OnTiles m m.position
  leaves : InLeaves rules m m.position
  /-- a creature is on a tile of the map -/
  tile_exists : ∀ c p, m.position c = some p → (m.getTile p).isSome = true
  /-- what has been removed has been on the map -/
  removed : ∀ c, m.isRemoved c = true → (m.tile c).isSome = true

section Steps

theorem position_of_not_removed (h : m.isRemoved c = false) : m.position c = m.tile c := by
  rw [Map.position, h, if_neg Bool.false_ne_true]

theorem position_set {m m' : Map} (hremoved : m.isRemoved c = false) (hkept : m'.isRemoved = m.isRemoved)
    (htile : m'.tile = Function.update m.tile c (some p)) : m'.position = Function.update m.position c (some p) := by
  funext d
  unfold Map.position
  rw [hkept, htile]
  by_cases hd : d = c
  · rw [hd, hremoved, Function.update_self, Function.update_self, if_neg Bool.false_ne_true]
  · rw [Function.update_of_ne hd, Function.update_of_ne hd]

theorem Indexed.set {m' : Map} (h : Indexed rules m) (hremoved : m.isRemoved c = false)
    (hkept : m'.isRemoved = m.isRemoved) (htile : m'.tile = Function.update m.tile c (some p))
    (hexists : (m.getTile p).isSome = true) (hsame : SameTiles m m')
    (htiles : OnTiles m' (Function.update m.position c (some p)))
    (hleaves : InLeaves rules m' (Function.update m.position c (some p))) : Indexed rules m' where
  tiles := by rwa [position_set hremoved hkept htile]
  leaves := by rwa [position_set hremoved hkept htile]
  tile_exists d q hd := by
    rw [position_set hremoved hkept htile, update_eq_some] at hd
    rw [hsame]
    rcases hd with ⟨-, hq⟩ | ⟨-, hq⟩
    · rwa [← Option.some.inj hq]
    · exact h.tile_exists d q hq
  removed d hd := by
    rw [hkept] at hd
    rw [htile]
    by_cases hdc : d = c
    · rw [hdc, Function.update_self, Option.isSome_some]
    · rw [Function.update_of_ne hdc]
      exact h.removed d hd

theorem Indexed.getSpectators (h : Indexed rules m) (isPlayer : ℕ → Bool) (spectators : List ℕ) (v : Map.View) :
    Indexed rules (m.getSpectators isPlayer spectators v).2 := by
  obtain ⟨cache, players, hm⟩ := getSpectators_map isPlayer m spectators v
  rw [hm]
  exact ⟨h.tiles, h.leaves, h.tile_exists, h.removed⟩

theorem Indexed.placeCreature {m' : Map} {extendedPos forced : Bool} {relList : List (ℤ × ℤ)} (h : Indexed rules m)
    (hnew : m.tile c = none) (hplace : m.placeCreature rules p c extendedPos forced relList = some m') :
    Indexed rules m' := by
  obtain ⟨found, -, hplace⟩ := Option.bind_eq_some_iff.mp hplace
  obtain ⟨dest, hdest, rfl⟩ := Option.map_eq_some_iff.mp hplace
  have hremoved : m.isRemoved c = false := by
    by_contra hc
    have hsome := h.removed c (by simpa using hc)
    rw [hnew] at hsome
    cases hsome
  have hnone : m.position c = none := (position_of_not_removed hremoved).trans hnew
  have hentered := h.tiles.enter hnone dest
  have hleaves : InLeaves rules (m.addThing rules dest c) m.position := h.leaves.modifyTile dest _
  exact h.set hremoved rfl rfl (getTile_of_queryDestination hdest)
    ((sameTiles_modifyTile m dest _).trans (sameTiles_modifyLeaf _ dest fun _ => rfl))
    (hentered.modifyLeaf dest fun _ => rfl) (hleaves.enter hnone dest)

theorem Indexed.relocate {old : Position} (h : Indexed rules m) (hremoved : m.isRemoved c = false)
    (htile : m.tile c = some old) (hnew : (m.getTile p).isSome = true) :
    Indexed rules ((if old.path ≠ p.path then
      ((m.removeThing rules old c).modifyLeaf old.path (·.removeCreature rules.isPlayer c)).modifyLeaf p.path
        (·.addCreature rules.isPlayer c)
      else m.removeThing rules old c).addThing rules p c) := by
  have hold : m.position c = some old := (position_of_not_removed hremoved).trans htile
  have hnone : Function.update m.position c none c = none := Function.update_self ..
  have hagain : ∀ o : Option Position,
      Function.update (Function.update m.position c none) c o = Function.update m.position c o :=
    fun o => Function.update_idem ..
  rw [removeThing_eq h.tiles hold (h.tile_exists c old hold)]
  have hleft := h.tiles.leave hold
  have hleaves : InLeaves rules ((m.clearSpectatorCaches rules.isPlayer c).modifyTile old (·.removeCreature c))
      m.position := h.leaves.modifyTile old _
  have hsame := sameTiles_modifyTile m old (·.removeCreature c)
  split
  · have hgone := hleaves.leave hold
    have hcame := hgone.enter hnone p
    have hbare := (hleft.modifyLeaf old (f := (·.removeCreature rules.isPlayer c)) fun _ => rfl).modifyLeaf p
      (f := (·.addCreature rules.isPlayer c)) fun _ => rfl
    have hkept := (hsame.trans (sameTiles_modifyLeaf _ old
      (f := (·.removeCreature rules.isPlayer c)) fun _ => rfl)).trans
      (sameTiles_modifyLeaf _ p (f := (·.addCreature rules.isPlayer c)) fun _ => rfl)
    refine h.set hremoved rfl rfl hnew (hkept.trans (sameTiles_modifyTile _ p _)) ?_ ?_
    · rw [← hagain]
      exact hbare.enter hnone p
    · rw [← hagain]
      exact hcame.modifyTile p _
  · rename_i hpath
    refine h.set hremoved rfl rfl hnew (hsame.trans (sameTiles_modifyTile _ p _)) ?_ ?_
    · rw [← hagain]
      exact hleft.enter hnone p
    · exact (hleaves.within hold (not_not.mp hpath).symm).modifyTile p _

theorem Indexed.moveCreature (h : Indexed rules m) (hc : (m.position c).isSome = true)
    (hnew : (m.getTile p).isSome = true) : Indexed rules (m.moveCreature rules c p) := by
  obtain ⟨old, hold⟩ := Option.isSome_iff_exists.mp hc
  have hremoved : m.isRemoved c = false := by
    by_contra hr
    rw [Map.position, if_pos (by simpa using hr)] at hold
    cases hold
  have htile : m.tile c = some old := (position_of_not_removed hremoved).symm.trans hold
  have hseen := (h.getSpectators rules.isPlayer []
    { centerPos := old, multifloor := true }).getSpectators
    rules.isPlayer [] { centerPos := p, multifloor := true }
  rw [Map.moveCreature, htile]
  dsimp only
  obtain ⟨cache, players, hm⟩ := getSpectators_map rules.isPlayer m []
    { centerPos := old, multifloor := true }
  rw [hm] at hseen ⊢
  obtain ⟨cache', players', hm'⟩ := getSpectators_map rules.isPlayer
    { m with spectatorCache := cache, playersSpectatorCache := players } []
      { centerPos := p, multifloor := true }
  rw [hm'] at hseen ⊢
  exact hseen.relocate hremoved htile hnew

theorem position_removed {m' : Map} (hkept : m'.isRemoved = Function.update m.isRemoved c true)
    (htile : m'.tile = m.tile) : m'.position = Function.update m.position c none := by
  funext d
  unfold Map.position
  rw [hkept, htile]
  by_cases hd : d = c
  · rw [hd, Function.update_self, Function.update_self, if_pos rfl]
  · rw [Function.update_of_ne hd, Function.update_of_ne hd]

theorem Indexed.unset {m' : Map} (h : Indexed rules m) (htile : (m.tile c).isSome = true)
    (hkept : m'.isRemoved = Function.update m.isRemoved c true) (hset : m'.tile = m.tile)
    (hsame : SameTiles m m') (htiles : OnTiles m' (Function.update m.position c none))
    (hleaves : InLeaves rules m' (Function.update m.position c none)) : Indexed rules m' where
  tiles := by rwa [position_removed hkept hset]
  leaves := by rwa [position_removed hkept hset]
  tile_exists d q hd := by
    rw [position_removed hkept hset, update_eq_some] at hd
    rcases hd with ⟨-, hq⟩ | ⟨-, hq⟩
    · cases hq
    · exact (hsame q).trans (h.tile_exists d q hq)
  removed d hd := by
    rw [hset]
    by_cases hdc : d = c
    · rwa [hdc]
    · rw [hkept, Function.update_of_ne hdc] at hd
      exact h.removed d hd

theorem Indexed.removeFromTile (h : Indexed rules m) (hremoved : m.isRemoved c = false) (htile : m.tile c = some p) :
    Indexed rules { m.removeFromTile rules p c with isRemoved := Function.update m.isRemoved c true } := by
  have hold : m.position c = some p := (position_of_not_removed hremoved).trans htile
  have hbare : OnTiles (m.modifyLeaf p.path (·.removeCreature rules.isPlayer c)) m.position :=
    h.tiles.modifyLeaf p fun _ => rfl
  have hkept : SameTiles m (m.modifyLeaf p.path (·.removeCreature rules.isPlayer c)) :=
    sameTiles_modifyLeaf m p fun _ => rfl
  have hexists := (hkept p).trans (h.tile_exists c p hold)
  rw [Map.removeFromTile, removeThing_eq hbare hold hexists]
  exact h.unset (by rw [htile, Option.isSome_some]) rfl rfl
    (hkept.trans (sameTiles_modifyTile _ p _))
    (hbare.leave hold) ((h.leaves.leave hold).modifyTile p _)

theorem Indexed.step (h : Indexed rules m) {a : Action} (hlegal : Legal rules m a) :
    Indexed rules (step rules m a) := by
  cases a with
  | placeCreature c pos extendedPos forced relList =>
    unfold Maps.step
    dsimp only
    split
    · exact h
    · rename_i hnew
      cases hplace : m.placeCreature rules pos c extendedPos forced relList with
      | none => exact h
      | some m' => exact h.placeCreature (Option.not_isSome_iff_eq_none.mp hnew) hplace
  | moveCreature c newPos => exact h.moveCreature hlegal.1 hlegal.2
  | removeCreature c =>
    unfold Maps.step
    dsimp only
    split
    · exact h
    · rename_i hremoved
      split
      · exact h
      · rename_i p htile
        have hseen := h.getSpectators rules.isPlayer [] { centerPos := p, multifloor := true }
        obtain ⟨cache, players, hm⟩ := getSpectators_map rules.isPlayer m []
          { centerPos := p, multifloor := true }
        rw [hm] at hseen ⊢
        exact hseen.removeFromTile (by simpa using hremoved) htile
  | getSpectators spectators v => exact h.getSpectators rules.isPlayer spectators v

end Steps

/-! ## Before the first creature -/

/-- No creature is in the lists. -/
structure Leaf.Bare (leaf : Leaf) : Prop where
  creatureList : leaf.creatureList = []
  playerList : leaf.playerList = []
  tiles : ∀ z i j t, leaf.tiles z i j = some t → t.creatures = []

/-- No creature has been on the map. -/
structure Map.Bare (m : Map) : Prop where
  leaves : ∀ way leaf, way.length = 13 → m.root.get way = some leaf → leaf.Bare
  tile : m.tile = fun _ => none
  isRemoved : m.isRemoved = fun _ => false
  spectatorCache : m.spectatorCache = fun _ => none
  playersSpectatorCache : m.playersSpectatorCache = fun _ => none

section Bare

theorem bare_empty : ({} : Map).Bare := ⟨fun _ _ _ h => (by cases h), rfl, rfl, rfl, rfl⟩

theorem Map.Bare.modifyLeaf (h : m.Bare) {way : List Quadrant} (hway : way.length = 13)
    {f : Leaf → Leaf} (hf : ∀ leaf, leaf.Bare → (f leaf).Bare) : (m.modifyLeaf way f).Bare where
  leaves way' leaf hway' hleaf := by
    rw [get_modifyLeaf m hway hway'] at hleaf
    split at hleaf
    · obtain ⟨leaf', hleaf', rfl⟩ := Option.map_eq_some_iff.mp hleaf
      exact hf leaf' (h.leaves way' leaf' hway' hleaf')
    · exact h.leaves way' leaf hway' hleaf
  tile := h.tile
  isRemoved := h.isRemoved
  spectatorCache := h.spectatorCache
  playersSpectatorCache := h.playersSpectatorCache

theorem Map.Bare.createLeaf (h : m.Bare) (p : Position) : (m.createLeaf p).Bare := by
  unfold Map.createLeaf
  split
  · exact h
  have hcreated : { m with root := m.root.create ({} : Leaf) p.path }.Bare := by
    refine ⟨fun way leaf hway hleaf => ?_, h.tile, h.isRemoved, h.spectatorCache, h.playersSpectatorCache⟩
    rw [QTree.get_create {} m.root (length_positionPath p) hway] at hleaf
    split at hleaf
    · rename_i hpath hnone
      rw [Option.not_isSome_iff_eq_none.mp hpath, Option.getD_none, Option.some.injEq] at hleaf
      rw [← hleaf]
      exact ⟨rfl, rfl, fun _ _ _ _ h => by cases h⟩
    · exact h.leaves way leaf hway hleaf
  have hlinked : ∀ {m' : Map} (q : Position) {f : Leaf → Leaf}, m'.Bare →
      (∀ leaf : Leaf, (f leaf).creatureList = leaf.creatureList ∧ (f leaf).playerList = leaf.playerList ∧
        (f leaf).tiles = leaf.tiles) → (m'.modifyLeaf q.path f).Bare := by
    intro m' q f hbare hf
    refine hbare.modifyLeaf (length_positionPath q) fun leaf hleaf => ?_
    obtain ⟨hcreatures, hplayers, htiles⟩ := hf leaf
    exact ⟨hcreatures ▸ hleaf.creatureList, hplayers ▸ hleaf.playerList, htiles ▸ hleaf.tiles⟩
  dsimp only
  exact hlinked _ (hlinked _ (hlinked _ hcreated fun _ => ⟨rfl, rfl, rfl⟩) fun _ => ⟨rfl, rfl, rfl⟩)
    fun _ => ⟨rfl, rfl, rfl⟩

theorem Map.Bare.setTile (h : m.Bare) (p : Position) {t : Tile} (ht : t.creatures = []) : (m.setTile p t).Bare := by
  unfold Map.setTile
  split
  · exact h
  refine (h.createLeaf p).modifyLeaf (length_positionPath p)
    fun leaf hleaf => ⟨hleaf.creatureList, hleaf.playerList, ?_⟩
  intro z i j t' ht'
  unfold Leaf.setTile at ht'
  dsimp only at ht'
  split at ht'
  · rwa [← Option.some.inj ht']
  · exact hleaf.tiles z i j t' ht'

theorem Map.Bare.indexed (h : m.Bare) (rules : Rules) : Indexed rules m := by
  have hnone : ∀ c, m.position c = none := fun c => by rw [Map.position, h.tile, ite_self]
  refine ⟨fun p l hl => ?_, fun way hway l hl => ?_, fun c p hc => ?_, fun c hc => ?_⟩
  · obtain ⟨t, ht, rfl⟩ := Option.map_eq_some_iff.mp hl
    unfold Map.getTile at ht
    split at ht
    · cases ht
    obtain ⟨leaf, hleaf, ht⟩ := Option.bind_eq_some_iff.mp ht
    rw [(h.leaves _ leaf (length_positionPath p) hleaf).tiles _ _ _ t ht]
    exact ⟨List.nodup_nil, fun c => by simp [hnone]⟩
  · obtain ⟨leaf, hleaf, rfl⟩ := Option.map_eq_some_iff.mp hl
    have hbare := h.leaves way leaf hway hleaf
    simp [Lists, CoveredBy, hbare.creatureList, hbare.playerList, hnone]
  · rw [hnone] at hc
    cases hc
  · rw [h.isRemoved] at hc
    cases hc

end Bare

/-! ## Runs -/

instance (pos : ℕ → Option Position) (way : List Quadrant) : DecidablePred (CoveredBy pos way) :=
  fun _ => inferInstanceAs (Decidable (_ = _))

/-- The lists of the tile and the leaf of its position have the creature once, those of
the other tiles and leaves do not have it; and none has it if it is not on the map. -/
structure InPlace (rules : Rules) (m : Map) (c : ℕ) : Prop where
  tile : ∀ p l, m.creaturesOn p = some l → l.count c = if m.position c = some p then 1 else 0
  leaf : ∀ way l, way.length = 13 → m.creaturesIn way = some l →
    l.1.count c = if CoveredBy m.position way c then 1 else 0
  player : ∀ way l, way.length = 13 → m.creaturesIn way = some l →
    l.2.count c = if rules.isPlayer c = true ∧ CoveredBy m.position way c then 1 else 0
  lists_exist : ∀ p, m.position c = some p → (∃ l, m.creaturesOn p = some l) ∧ ∃ l, m.creaturesIn p.path = some l

theorem Lists.count {l : List ℕ} {s : ℕ → Prop} [DecidablePred s] (h : Lists l s) (c : ℕ) :
    l.count c = if s c then 1 else 0 := by
  rw [h.1.count]
  simp only [h.2 c]

theorem Indexed.inPlace (h : Indexed rules m) (c : ℕ) : InPlace rules m c where
  tile p l hl := (h.tiles p l hl).count c
  leaf way l hway hl := (h.leaves way hway l hl).1.count c
  player way l hway hl := (h.leaves way hway l hl).2.count c
  lists_exist p hp := ⟨creaturesOn_of_getTile (h.tile_exists c p hp), creaturesIn_of_getTile (h.tile_exists c p hp)⟩

/-- Wherever creatures are placed, moved and removed, the lists have them where they are. -/
theorem creatures_are_in_place (rules : Rules) {start : Map} (hstart : start.Bare) {as : List Action}
    (hlegal : Along (step rules) (Legal rules) start as) :
    ∀ pre, pre <+: as → ∀ c, InPlace rules (run (step rules) start pre) c := by
  intro pre hpre c
  have hstep : ∀ m a, Indexed rules m → Legal rules m a → Indexed rules (step rules m a) :=
    fun _ _ hindexed hok => hindexed.step hok
  exact (inv_reached hstep (hstart.indexed rules) hlegal pre hpre).inPlace c

/-- A street of two tiles under different leaves. -/
def street : Map := (({} : Map).setTile ⟨7, 0, 7⟩ {}).setTile ⟨8, 0, 7⟩ {}

def streetRules : Rules := { isPlayer := (· = 1) }

/-- The player goes from one leaf to the other and back, and the monster is removed. -/
def streetRun : List Action :=
  [.placeCreature 1 ⟨7, 0, 7⟩ false false [], .moveCreature 1 ⟨8, 0, 7⟩, .placeCreature 2 ⟨7, 0, 7⟩ false false [],
    .moveCreature 1 ⟨7, 0, 7⟩, .removeCreature 2]

theorem bare_street : street.Bare := (bare_empty.setTile ⟨7, 0, 7⟩ rfl).setTile ⟨8, 0, 7⟩ rfl

theorem creatures_are_in_place_street : InPlace streetRules (run (step streetRules) street streetRun) 1 :=
  creatures_are_in_place streetRules bare_street (by decide +kernel) streetRun
    (List.prefix_refl _) 1

end ForgottenServer.Maps
