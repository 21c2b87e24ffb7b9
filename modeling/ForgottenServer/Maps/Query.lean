import Mathlib.Data.List.ProdSigma
import ForgottenServer.Maps.Links
import ForgottenServer.Tiles.Turn

/-! # Queries for a range

What `getSpectatorsInternal` finds for any ranges and floors. It walks over the leaves
of a rectangle of blocks; the corners of the rectangle are cut down to the map, and
for that they are turned into an `int32_t` first. -/
namespace ForgottenServer.Maps
open ForgottenServer.Lib.Quadtree ForgottenServer.Lib.Run ForgottenServer.Tiles

/-- A conversion to `int32_t`. -/
def int32 (n : ℤ) : ℤ := Int.bmod n (2 ^ 32)

def IsInt (n : ℤ) : Prop := -2 ^ 31 ≤ n ∧ n < 2 ^ 31

instance : DecidablePred IsInt := fun n => inferInstanceAs (Decidable (-2 ^ 31 ≤ n ∧ n < 2 ^ 31))

/-- A sum of two values of type `int`, where an overflow is undefined. -/
def addInt (a b : ℤ) : Option ℤ := if IsInt (a + b) then some (a + b) else none

/-- The arguments of `getSpectatorsInternal`. An `int_fast16_t` has 64 bits. -/
structure Query where
  centerPos : Position
  minRangeX : Int32
  maxRangeX : Int32
  minRangeY : Int32
  maxRangeY : Int32
  minRangeZ : Int32
  maxRangeZ : Int32
  onlyPlayers : Bool := false

namespace Query

def minoffset (q : Query) : ℤ := int32 (q.centerPos.z.toNat - q.maxRangeZ.toInt)

def maxoffset (q : Query) : ℤ := int32 (q.centerPos.z.toNat - q.minRangeZ.toInt)

/-- A corner: a sum is cut down to the map, and to a whole block. -/
def corner (n : ℤ) : ℕ := Map.floorOf (Map.clamp (int32 n))

/-- The creature of a list is in the ranges. -/
def finds (q : Query) (m : Map) (min_x max_x min_y max_y : ℤ) (c : ℕ) : Bool :=
  let cpos := (m.tile c).getD {}
  let offsetZ : ℤ := q.centerPos.z.toNat - cpos.z.toNat
  !(q.minRangeZ.toInt > cpos.z.toNat || q.maxRangeZ.toInt < cpos.z.toNat) &&
    !(min_y + offsetZ > cpos.y.toNat || max_y + offsetZ < cpos.y.toNat ||
      min_x + offsetZ > cpos.x.toNat || max_x + offsetZ < cpos.x.toNat)

def list (q : Query) : Leaf → List ℕ := if q.onlyPlayers then Leaf.playerList else Leaf.creatureList

/-- `getSpectatorsInternal`: what it adds to the spectators, if it is defined. -/
def getSpectatorsInternal (q : Query) (m : Map) : Option (List ℕ) := do
  let min_y ← addInt q.centerPos.y.toNat q.minRangeY.toInt
  let min_x ← addInt q.centerPos.x.toNat q.minRangeX.toInt
  let max_y ← addInt q.centerPos.y.toNat q.maxRangeY.toInt
  let max_x ← addInt q.centerPos.x.toNat q.maxRangeX.toInt
  let startx1 := corner (min_x + q.minoffset)
  let starty1 := corner (min_y + q.minoffset)
  let endx2 := corner (max_x + q.maxoffset)
  let endy2 := corner (max_y + q.maxoffset)
  return m.scanRows q.list (q.finds m min_x max_x min_y max_y) (Map.steps startx1 endx2) startx1
    (Map.steps starty1 endy2) starty1 (m.leafAt startx1 starty1)

end Query

/-! ## The walk -/

section Walk
variable {m : Map} {list : Leaf → List ℕ} {sees : ℕ → Bool}

def Map.inBlock (m : Map) (list : Leaf → List ℕ) (sees : ℕ → Bool) (x y : ℕ) : List ℕ :=
  match m.root.get (path 15 13 x y) with
  | some leaf => (list leaf).filter sees
  | none => []

/-- With the right links, a row is walked block by block, whether the leaves are there or not. -/
theorem scanRow_eq (h : m.Linked) (ny n nx : ℕ) : m.scanRow list sees ny n nx (m.leafAt nx ny) =
      (List.range n).flatMap fun i => m.inBlock list sees (nx + 8 * i) ny := by
  induction n generalizing nx with
  | zero => rfl
  | succ n ih =>
    have hnext : (List.range n).flatMap (fun i => m.inBlock list sees (nx + 8 + 8 * i) ny) =
        (List.range n).flatMap fun i => m.inBlock list sees (nx + 8 * (i + 1)) ny := by
      congr 1
      funext i
      rw [Nat.mul_succ, Nat.add_assoc, Nat.add_comm 8]
    rw [List.range_succ_eq_map, List.flatMap_cons, List.flatMap_map, ← hnext, ← ih, Nat.mul_zero,
      Nat.add_zero, Map.inBlock]
    cases hleaf : m.root.get (path 15 13 nx ny) with
    | none =>
      have hnone : m.leafAt nx ny = none := by rw [Map.leafAt, hleaf]; rfl
      rw [hnone, Map.scanRow]
      rfl
    | some leaf =>
      have hsome : m.leafAt nx ny = some (path 15 13 nx ny) := by rw [Map.leafAt, hleaf]; rfl
      rw [hsome, Map.scanRow, hleaf]
      dsimp only
      rw [h.east nx ny leaf hleaf]

theorem scanRows_eq (h : m.Linked) (columns startx n ny : ℕ) :
    m.scanRows list sees columns startx n ny (m.leafAt startx ny) =
      (List.range n).flatMap fun j => (List.range columns).flatMap fun i =>
        m.inBlock list sees (startx + 8 * i) (ny + 8 * j) := by
  induction n generalizing ny with
  | zero => rfl
  | succ n ih =>
    have hnext : ((List.range n).flatMap fun j => (List.range columns).flatMap fun i =>
          m.inBlock list sees (startx + 8 * i) (ny + 8 + 8 * j)) =
        (List.range n).flatMap fun j => (List.range columns).flatMap fun i =>
          m.inBlock list sees (startx + 8 * i) (ny + 8 * (j + 1)) := by
      congr 1
      funext j
      rw [Nat.mul_succ, Nat.add_assoc, Nat.add_comm 8]
    have hrow : m.scanRow list sees ny columns startx (m.leafAt startx ny) =
        (List.range columns).flatMap fun i => m.inBlock list sees (startx + 8 * i) ny :=
      scanRow_eq h ny columns startx
    rw [List.range_succ_eq_map, List.flatMap_cons, List.flatMap_map, ← hnext, ← ih]
    simp only [Nat.mul_zero, Nat.add_zero]
    rw [← hrow]
    cases hleaf : m.root.get (path 15 13 startx ny) with
    | none =>
      have hnone : m.leafAt startx ny = none := by rw [Map.leafAt, hleaf]; rfl
      rw [hnone, Map.scanRows]
    | some leaf =>
      have hsome : m.leafAt startx ny = some (path 15 13 startx ny) := by
        rw [Map.leafAt, hleaf]
        rfl
      rw [hsome, Map.scanRows, hleaf, Option.bind_some, h.south startx ny leaf hleaf]

end Walk

/-! ## What is found -/

section Found
variable {rules : Rules} {m : Map} {q : Query} {p : Position}

namespace Query

/-- The sums of the centre and the ranges are defined. -/
structure Defined (q : Query) : Prop where
  minX : IsInt (q.centerPos.x.toNat + q.minRangeX.toInt)
  maxX : IsInt (q.centerPos.x.toNat + q.maxRangeX.toInt)
  minY : IsInt (q.centerPos.y.toNat + q.minRangeY.toInt)
  maxY : IsInt (q.centerPos.y.toNat + q.maxRangeY.toInt)

/-- The box that is asked for: it is shifted by one for each floor between. -/
structure Box (q : Query) (p : Position) : Prop where
  minZ : q.minRangeZ.toInt ≤ p.z.toNat
  maxZ : p.z.toNat ≤ q.maxRangeZ.toInt
  minX : q.centerPos.x.toNat + q.minRangeX.toInt + (q.centerPos.z.toNat - p.z.toNat) ≤ p.x.toNat
  maxX : p.x.toNat ≤ q.centerPos.x.toNat + q.maxRangeX.toInt + (q.centerPos.z.toNat - p.z.toNat)
  minY : q.centerPos.y.toNat + q.minRangeY.toInt + (q.centerPos.z.toNat - p.z.toNat) ≤ p.y.toNat
  maxY : p.y.toNat ≤ q.centerPos.y.toNat + q.maxRangeY.toInt + (q.centerPos.z.toNat - p.z.toNat)

def startx1 (q : Query) : ℕ := corner (q.centerPos.x.toNat + q.minRangeX.toInt + q.minoffset)

def starty1 (q : Query) : ℕ := corner (q.centerPos.y.toNat + q.minRangeY.toInt + q.minoffset)

def endx2 (q : Query) : ℕ := corner (q.centerPos.x.toNat + q.maxRangeX.toInt + q.maxoffset)

def endy2 (q : Query) : ℕ := corner (q.centerPos.y.toNat + q.maxRangeY.toInt + q.maxoffset)

/-- The block of a position lies between the corners. -/
structure Scanned (q : Query) (p : Position) : Prop where
  startx : q.startx1 ≤ p.x.toNat
  endx : p.x.toNat < q.endx2 + 8
  starty : q.starty1 ≤ p.y.toNat
  endy : p.y.toNat < q.endy2 + 8

/-- The creatures that are to be found. -/
def Finds (q : Query) (rules : Rules) (m : Map) (c : ℕ) : Prop :=
  ∃ p, m.position c = some p ∧ q.Box p ∧ (q.onlyPlayers = true → rules.isPlayer c = true)

/-- The query is answered with the creatures in its box, each once. -/
def Exact (q : Query) (rules : Rules) (m : Map) : Prop :=
  ∃ l, q.getSpectatorsInternal m = some l ∧ Lists l (q.Finds rules m)

theorem finds_iff {min_x max_x min_y max_y : ℤ} {c : ℕ} (hc : m.tile c = some p)
    (hmin_x : min_x = q.centerPos.x.toNat + q.minRangeX.toInt)
    (hmax_x : max_x = q.centerPos.x.toNat + q.maxRangeX.toInt)
    (hmin_y : min_y = q.centerPos.y.toNat + q.minRangeY.toInt)
    (hmax_y : max_y = q.centerPos.y.toNat + q.maxRangeY.toInt) :
    q.finds m min_x max_x min_y max_y c = true ↔ q.Box p := by
  rw [finds, hc, Option.getD_some, hmin_x, hmax_x, hmin_y, hmax_y]
  simp only [Bool.and_eq_true, Bool.not_eq_true', Bool.or_eq_false_iff, decide_eq_false_iff_not, not_lt, gt_iff_lt]
  exact ⟨fun ⟨⟨hminZ, hmaxZ⟩, ⟨⟨hminY, hmaxY⟩, hminX⟩, hmaxX⟩ =>
      ⟨hminZ, hmaxZ, hminX, hmaxX, hminY, hmaxY⟩,
    fun h => ⟨⟨h.minZ, h.maxZ⟩, ⟨⟨h.minY, h.maxY⟩, h.minX⟩, h.maxX⟩⟩

end Query

theorem Indexed.inBlock (h : Indexed rules m) (q : Query) (sees : ℕ → Bool) (x y : ℕ) :
    Lists (m.inBlock q.list sees x y) fun c => CoveredBy m.position (path 15 13 x y) c ∧
      (q.onlyPlayers = true → rules.isPlayer c = true) ∧ sees c = true := by
  have hlength : (path 15 13 x y).length = 13 := length_path 15 13 x y
  rw [Map.inBlock]
  cases hleaf : m.root.get (path 15 13 x y) with
  | none =>
    refine ⟨List.nodup_nil, fun c => iff_of_false List.not_mem_nil ?_⟩
    rintro ⟨hcovered, -⟩
    obtain ⟨p, hp, hpath⟩ := Option.map_eq_some_iff.mp hcovered
    obtain ⟨l, hl⟩ := creaturesIn_of_getTile (h.tile_exists c p hp)
    rw [Map.creaturesIn, hpath, hleaf] at hl
    cases hl
  | some leaf =>
    obtain ⟨hcreatures, hplayers⟩ := h.leaves _ hlength (leaf.creatureList, leaf.playerList)
      (by rw [Map.creaturesIn, hleaf, Option.map_some])
    have hlist : Lists (q.list leaf) fun c => CoveredBy m.position (path 15 13 x y) c ∧
        (q.onlyPlayers = true → rules.isPlayer c = true) := by
      rw [Query.list]
      cases q.onlyPlayers with
      | true =>
        exact hplayers.congr fun c =>
          ⟨fun hc => ⟨hc.2, fun _ => hc.1⟩, fun hc => ⟨hc.2 rfl, hc.1⟩⟩
      | false => exact hcreatures.congr fun c => ⟨fun hc => ⟨hc, fun hf => by cases hf⟩, And.left⟩
    refine ⟨hlist.1.filter _, fun c => ?_⟩
    rw [List.mem_filter, hlist.2, and_assoc]

theorem corner_spec (n : ℤ) : ∃ b, Query.corner n = 8 * b ∧ b < 8192 := by
  have hlt : Map.clamp (int32 n) < 65536 := by
    rw [Map.clamp]
    omega
  refine ⟨Map.clamp (int32 n) / 8, ?_, by omega⟩
  rw [Query.corner, Map.floorOf]
  omega

theorem lt_steps_iff {i a b : ℕ} : i < Map.steps (8 * a) (8 * b) ↔ a + i ≤ b := by
  rw [Map.steps]
  split <;> omega

theorem coveredBy_block_iff {pos : ℕ → Option Position} {c x y : ℕ} (hx : x < 8192) (hy : y < 8192) :
    CoveredBy pos (path 15 13 (8 * x) (8 * y)) c ↔ ∃ p, pos c = some p ∧ p.x.toNat / 8 = x ∧ p.y.toNat / 8 = y := by
  rw [CoveredBy, Option.map_eq_some_iff]
  refine exists_congr fun p => and_congr_right fun _ => ?_
  have hpx := p.x.toNat_lt
  have hpy := p.y.toNat_lt
  rw [Position.path, way_eq_iff]
  omega

theorem Indexed.inBlocks (h : Indexed rules m) (q : Query) (sees : ℕ → Bool) {a b a' b' : ℕ} (hb : b < 8192)
    (hb' : b' < 8192) : Lists ((List.range (Map.steps (8 * a') (8 * b'))).flatMap fun j =>
        (List.range (Map.steps (8 * a) (8 * b))).flatMap fun i =>
          m.inBlock q.list sees (8 * a + 8 * i) (8 * a' + 8 * j))
      fun c => ∃ p, m.position c = some p ∧
        (8 * a ≤ p.x.toNat ∧ p.x.toNat < 8 * b + 8 ∧ 8 * a' ≤ p.y.toNat ∧ p.y.toNat < 8 * b' + 8) ∧
        (q.onlyPlayers = true → rules.isPlayer c = true) ∧ sees c = true := by
  have hblock : ∀ i j c, a + i ≤ b → a' + j ≤ b' → (c ∈ m.inBlock q.list sees (8 * a + 8 * i) (8 * a' + 8 * j) ↔
        (∃ p, m.position c = some p ∧ p.x.toNat / 8 = a + i ∧ p.y.toNat / 8 = a' + j) ∧
          (q.onlyPlayers = true → rules.isPlayer c = true) ∧ sees c = true) := by
    intro i j c hi hj
    rw [(h.inBlock q sees _ _).2, ← Nat.mul_add, ← Nat.mul_add]
    exact and_congr_left fun _ => coveredBy_block_iff (by omega) (by omega)
  -- two blocks with one creature are one block
  have hdisjoint : ∀ i j i' j', a + i ≤ b → a' + j ≤ b' → a + i' ≤ b → a' + j' ≤ b' →
      (i ≠ i' ∨ j ≠ j') → List.Disjoint (m.inBlock q.list sees (8 * a + 8 * i) (8 * a' + 8 * j))
        (m.inBlock q.list sees (8 * a + 8 * i') (8 * a' + 8 * j')) := by
    intro i j i' j' hi hj hi' hj' hne c hc hc'
    obtain ⟨⟨p, hp, hpi, hpj⟩, -⟩ := (hblock i j c hi hj).mp hc
    obtain ⟨⟨p', hp', hpi', hpj'⟩, -⟩ := (hblock i' j' c hi' hj').mp hc'
    obtain rfl : p = p' := Option.some.inj (hp.symm.trans hp')
    omega
  constructor
  · rw [List.nodup_flatMap]
    refine ⟨fun j hj => ?_, List.nodup_range.pairwise_of_forall_ne fun j hj j' hj' hne => ?_⟩
    · rw [List.mem_range, lt_steps_iff] at hj
      rw [List.nodup_flatMap]
      refine ⟨fun i _ => (h.inBlock q sees _ _).1, List.nodup_range.pairwise_of_forall_ne fun i hi i' hi' hne => ?_⟩
      rw [List.mem_range, lt_steps_iff] at hi hi'
      exact hdisjoint i j i' j hi hj hi' hj (.inl hne)
    · rw [List.mem_range, lt_steps_iff] at hj hj'
      intro c hc hc'
      obtain ⟨i, hi, hc⟩ := List.mem_flatMap.mp hc
      obtain ⟨i', hi', hc'⟩ := List.mem_flatMap.mp hc'
      rw [List.mem_range, lt_steps_iff] at hi hi'
      exact hdisjoint i j i' j' hi hj hi' hj' (.inr hne) hc hc'
  · intro c
    simp only [List.mem_flatMap, List.mem_range, lt_steps_iff]
    constructor
    · rintro ⟨j, hj, i, hi, hc⟩
      obtain ⟨⟨p, hp, hpi, hpj⟩, hrest⟩ := (hblock i j c hi hj).mp hc
      exact ⟨p, hp, by omega, hrest⟩
    · rintro ⟨p, hp, hbounds, hrest⟩
      have hi : a + (p.x.toNat / 8 - a) ≤ b := by omega
      have hj : a' + (p.y.toNat / 8 - a') ≤ b' := by omega
      exact ⟨_, hj, _, hi, (hblock _ _ c hi hj).mpr ⟨⟨p, hp, by omega, by omega⟩, hrest⟩⟩

theorem addInt_eq_some_iff {a b n : ℤ} : addInt a b = some n ↔ IsInt (a + b) ∧ a + b = n := by
  rw [addInt]
  split
  · rename_i h
    rw [Option.some.injEq, and_iff_right h]
  · rename_i h
    exact iff_of_false (by simp) fun h' => h h'.1

theorem Query.Defined.getSpectatorsInternal_eq (h : q.Defined) (m : Map) :
    q.getSpectatorsInternal m = some (m.scanRows q.list
      (q.finds m (q.centerPos.x.toNat + q.minRangeX.toInt) (q.centerPos.x.toNat + q.maxRangeX.toInt)
        (q.centerPos.y.toNat + q.minRangeY.toInt) (q.centerPos.y.toNat + q.maxRangeY.toInt))
      (Map.steps q.startx1 q.endx2) q.startx1 (Map.steps q.starty1 q.endy2) q.starty1
      (m.leafAt q.startx1 q.starty1)) := by
  rw [Query.getSpectatorsInternal, addInt, if_pos h.minY, addInt, if_pos h.minX, addInt,
    if_pos h.maxY, addInt, if_pos h.maxX]
  rfl

theorem Query.defined_of_eq_some {l : List ℕ} (h : q.getSpectatorsInternal m = some l) : q.Defined := by
  obtain ⟨min_y, hmin_y, h⟩ := Option.bind_eq_some_iff.mp h
  obtain ⟨min_x, hmin_x, h⟩ := Option.bind_eq_some_iff.mp h
  obtain ⟨max_y, hmax_y, h⟩ := Option.bind_eq_some_iff.mp h
  obtain ⟨max_x, hmax_x, -⟩ := Option.bind_eq_some_iff.mp h
  exact {
    minX := (addInt_eq_some_iff.mp hmin_x).1
    maxX := (addInt_eq_some_iff.mp hmax_x).1
    minY := (addInt_eq_some_iff.mp hmin_y).1
    maxY := (addInt_eq_some_iff.mp hmax_y).1 }

/-- Where the sums are defined, the creatures in the box are found that stand between the
corners. -/
theorem Query.Defined.lists (hq : q.Defined) (h : Indexed rules m) (hlinked : m.Linked) :
    ∃ l, q.getSpectatorsInternal m = some l ∧ Lists l fun c => ∃ p, m.position c = some p ∧
      q.Scanned p ∧ (q.onlyPlayers = true → rules.isPlayer c = true) ∧ q.Box p := by
  refine ⟨_, hq.getSpectatorsInternal_eq m, ?_⟩
  obtain ⟨a, ha, hbound⟩ := corner_spec (q.centerPos.x.toNat + q.minRangeX.toInt + q.minoffset)
  obtain ⟨a', ha', hbound'⟩ := corner_spec (q.centerPos.y.toNat + q.minRangeY.toInt + q.minoffset)
  obtain ⟨b, hb, hendx⟩ := corner_spec (q.centerPos.x.toNat + q.maxRangeX.toInt + q.maxoffset)
  obtain ⟨b', hb', hendy⟩ := corner_spec (q.centerPos.y.toNat + q.maxRangeY.toInt + q.maxoffset)
  have hstartx : q.startx1 = 8 * a := ha
  have hstarty : q.starty1 = 8 * a' := ha'
  have hendx2 : q.endx2 = 8 * b := hb
  have hendy2 : q.endy2 = 8 * b' := hb'
  rw [scanRows_eq hlinked, hstartx, hstarty, hendx2, hendy2]
  refine (h.inBlocks q _ hendx hendy).congr fun c => exists_congr fun p => ?_
  refine and_congr_right fun hp => ?_
  have htile : m.tile c = some p := by
    unfold Map.position at hp
    split at hp
    · cases hp
    · exact hp
  rw [finds_iff htile rfl rfl rfl rfl, ← hstartx, ← hstarty, ← hendx2, ← hendy2]
  refine and_congr_left fun _ => ⟨fun hscanned => ?_, fun hscanned => ?_⟩
  · exact ⟨hscanned.1, hscanned.2.1, hscanned.2.2.1, hscanned.2.2.2⟩
  · exact ⟨hscanned.startx, hscanned.endx, hscanned.starty, hscanned.endy⟩

/-- The answer is exact if and only if the sums are defined, and whoever is in the box stands
between the corners. -/
theorem Query.exact_iff (h : Indexed rules m) (hlinked : m.Linked) :
    q.Exact rules m ↔ q.Defined ∧ ∀ c p, m.position c = some p → q.Box p →
      (q.onlyPlayers = true → rules.isPlayer c = true) → q.Scanned p := by
  constructor
  · rintro ⟨l, hl, hlists⟩
    have hdefined := Query.defined_of_eq_some hl
    refine ⟨hdefined, fun c p hp hbox hplayer => ?_⟩
    obtain ⟨l', hl', hlists'⟩ := hdefined.lists h hlinked
    obtain rfl : l = l' := Option.some.inj (hl.symm.trans hl')
    obtain ⟨p', hp', hscanned, -⟩ := (hlists'.2 c).mp ((hlists.2 c).mpr ⟨p, hp, hbox, hplayer⟩)
    obtain rfl : p = p' := Option.some.inj (hp.symm.trans hp')
    exact hscanned
  · rintro ⟨hdefined, hscanned⟩
    obtain ⟨l, hl, hlists⟩ := hdefined.lists h hlinked
    refine ⟨l, hl, hlists.congr fun c => exists_congr fun p => and_congr_right fun hp => ?_⟩
    exact ⟨fun ⟨_, hplayer, hbox⟩ => ⟨hbox, hplayer⟩,
      fun ⟨hbox, hplayer⟩ => ⟨hscanned c p hp hbox hplayer, hplayer, hbox⟩⟩

end Found

/-! ## Sums that fit -/

section Fits
variable {m : Map} {q : Query} {p : Position}

theorem int32_of_isInt {n : ℤ} (h : IsInt n) : int32 n = n := by
  obtain ⟨hmin, hmax⟩ := h
  rw [int32]
  exact Int.bmod_eq_of_le (by omega) (by omega)

theorem corner_le {n : ℤ} (h : IsInt n) {k : ℕ} (hk : n ≤ k) : Query.corner n ≤ k := by
  rw [Query.corner, int32_of_isInt h, Map.floorOf, Map.clamp]
  omega

theorem lt_corner {n : ℤ} (h : IsInt n) {k : ℕ} (hk : k ≤ n) (hlt : k < 65536) : k < Query.corner n + 8 := by
  rw [Query.corner, int32_of_isInt h, Map.floorOf, Map.clamp]
  omega

/-- No sum on the way to the corners leaves the range of its type. -/
structure Query.Fits (q : Query) : Prop extends Query.Defined q where
  minoffset : IsInt (q.centerPos.z.toNat - q.maxRangeZ.toInt)
  maxoffset : IsInt (q.centerPos.z.toNat - q.minRangeZ.toInt)
  startx : IsInt (q.centerPos.x.toNat + q.minRangeX.toInt + (q.centerPos.z.toNat - q.maxRangeZ.toInt))
  endx : IsInt (q.centerPos.x.toNat + q.maxRangeX.toInt + (q.centerPos.z.toNat - q.minRangeZ.toInt))
  starty : IsInt (q.centerPos.y.toNat + q.minRangeY.toInt + (q.centerPos.z.toNat - q.maxRangeZ.toInt))
  endy : IsInt (q.centerPos.y.toNat + q.maxRangeY.toInt + (q.centerPos.z.toNat - q.minRangeZ.toInt))

theorem Query.Fits.scanned (h : q.Fits) (hp : q.Box p) : q.Scanned p := by
  have hmin : q.minoffset = q.centerPos.z.toNat - q.maxRangeZ.toInt := int32_of_isInt h.minoffset
  have hmax : q.maxoffset = q.centerPos.z.toNat - q.minRangeZ.toInt := int32_of_isInt h.maxoffset
  have hminZ := hp.minZ
  have hmaxZ := hp.maxZ
  have hminX := hp.minX
  have hmaxX := hp.maxX
  have hminY := hp.minY
  have hmaxY := hp.maxY
  constructor
  · rw [startx1, hmin]
    exact corner_le h.startx (by omega)
  · rw [endx2, hmax]
    exact lt_corner h.endx (by omega) p.x.toNat_lt
  · rw [starty1, hmin]
    exact corner_le h.starty (by omega)
  · rw [endy2, hmax]
    exact lt_corner h.endy (by omega) p.y.toNat_lt

end Fits

/-! ## Maps that are built -/

section Built
variable {m : Map}

theorem removeItem_creatures (types : ℕ → ItemType) (t : Tile) (x : Item) (count : ℕ) :
    (t.removeItem types x count).creatures = t.creatures := by
  unfold Tile.removeItem
  split_ifs <;> rfl

theorem addItem_creatures (types : ℕ → ItemType) (t : Tile) (x : Item) :
    (t.addItem types x).creatures = t.creatures := by
  unfold Tile.addItem
  dsimp only
  split_ifs
  · rfl
  · split <;> rfl
  · split
    · exact removeItem_creatures types t _ 1
    · rfl
  · split
    · split
      · exact removeItem_creatures types t _ 1
      · rfl
    · rfl

theorem addItems_creatures (types : ℕ → ItemType) (t : Tile) (items : List Item) :
    (items.foldl (·.addItem types) t).creatures = t.creatures := by
  induction items generalizing t with
  | nil => rfl
  | cons x items ih => rw [List.foldl_cons, ih, addItem_creatures]

theorem Map.Bare.setAnyTile (h : m.Bare) (types : ℕ → ItemType) (p : Position) {t : Tile}
    (ht : t.creatures = []) : (m.setAnyTile types p t).Bare := by
  unfold Map.setAnyTile
  split
  · exact h
  · rename_i hlayer
    split
    · refine (h.createLeaf p).modifyLeaf (length_positionPath p)
        fun leaf hleaf => ⟨hleaf.creatureList, hleaf.playerList, ?_⟩
      intro z i j after hafter
      unfold Leaf.modifyTile at hafter
      dsimp only at hafter
      split at hafter
      · obtain ⟨tile, htile, rfl⟩ := Option.map_eq_some_iff.mp hafter
        rw [addItems_creatures]
        exact hleaf.tiles z i j tile htile
      · exact hleaf.tiles z i j after hafter
    · have hset := h.setTile p ht
      rwa [Map.setTile, if_neg hlayer] at hset

/-- A map that is made of tiles, one after the other. -/
def build (types : ℕ → ItemType) (tiles : List (Position × Tile)) : Map :=
  run (fun m t => m.setAnyTile types t.1 t.2) {} tiles

theorem build_linked (types : ℕ → ItemType) (tiles : List (Position × Tile)) :
    (build types tiles).Linked := by
  have hstep : ∀ (m : Map) (t : Position × Tile), m.Linked → True →
      (m.setAnyTile types t.1 t.2).Linked := fun m t h _ => h.setAnyTile types t.1 t.2
  exact inv_run hstep linked_empty (Along.of_forall fun _ _ => trivial)

theorem build_bare (types : ℕ → ItemType) {tiles : List (Position × Tile)}
    (htiles : ∀ t ∈ tiles, t.2.creatures = []) : (build types tiles).Bare := by
  have hstep : ∀ (m : Map) (t : Position × Tile), m.Bare → t.2.creatures = [] →
      (m.setAnyTile types t.1 t.2).Bare := fun m t h ht => h.setAnyTile types t.1 ht
  exact inv_run hstep bare_empty (Along.of_forall htiles)

end Built

/-- However a map is built of new tiles and creatures are placed on it, its links say which leaves
there are next to each other, and a query whose sums fit finds the creatures in its box, each once.
In any case a query does so exactly if its sums are defined and whoever is in the box stands in a
block between the corners. -/
theorem range_query_iff (rules : Rules) (types : ℕ → ItemType) {tiles : List (Position × Tile)}
    (htiles : ∀ t ∈ tiles, t.2.creatures = []) {actions : List Action}
    (hlegal : Along (step rules) (Legal rules) (build types tiles) actions) (q : Query) :
    let m := run (step rules) (build types tiles) actions
    m.Linked ∧ (q.Fits → q.Exact rules m) ∧ (q.Exact rules m ↔ q.Defined ∧ ∀ c p, m.position c = some p → q.Box p →
        (q.onlyPlayers = true → rules.isPlayer c = true) → q.Scanned p) := by
  intro m
  have hbare := build_bare types htiles
  have hindexed : Indexed rules m := by
    have hstep : ∀ m a, Indexed rules m → Legal rules m a → Indexed rules (step rules m a) :=
      fun _ _ hindexed hok => hindexed.step hok
    exact inv_run hstep (hbare.indexed rules) hlegal
  have hlinked : m.Linked := by
    have hstep : ∀ m a, m.Linked → Legal rules m a → (step rules m a).Linked :=
      fun _ a h _ => h.step rules a
    exact inv_run hstep (build_linked types tiles) hlegal
  have hiff := q.exact_iff hindexed hlinked
  refine ⟨hlinked, fun hfits => hiff.mpr ⟨hfits.toDefined, fun _ _ _ hbox _ => ?_⟩, hiff⟩
  exact hfits.scanned hbox

/-- An outpost of one tile in the corner of the world, and a creature on it. -/
def outpost : List (Position × Tile) := [(⟨0, 0, 0⟩, {})]

def outpostTypes (id : ℕ) : ItemType := { id }

def outpostRun : List Action := [.placeCreature 1 ⟨0, 0, 0⟩ false false []]

def manned : Map := run (step streetRules) (build outpostTypes outpost) outpostRun

/-- Everything to the west, and little else. -/
def westward : Query where
  centerPos := ⟨0, 0, 0⟩
  minRangeX := -2147483647
  maxRangeX := 1
  minRangeY := -1
  maxRangeY := 1
  minRangeZ := 0
  maxRangeZ := 7

theorem range_query_outpost :
    manned.Linked ∧ ({ westward with minRangeX := -1 } : Query).Exact streetRules manned := by
  have htiles : ∀ t ∈ outpost, t.2.creatures = [] := by
    intro t ht
    rw [List.mem_singleton.mp ht]
  have hlegal : Along (step streetRules) (Legal streetRules) (build outpostTypes outpost)
      outpostRun := by decide +kernel
  obtain ⟨hlinked, hfits, -⟩ := range_query_iff streetRules outpostTypes htiles hlegal
    { westward with minRangeX := -1 }
  refine ⟨hlinked, hfits ?_⟩
  constructor
  · constructor <;> decide
  all_goals decide

/-- The sum of the western corner is below all values of an `int32_t`, and becomes one far to the
east: the creature in the centre is not found. -/
theorem westward_finds_nobody : Along (step streetRules) (Legal streetRules) (build outpostTypes outpost) outpostRun ∧
      westward.Defined ∧ ¬westward.Exact streetRules manned := by
  refine ⟨by decide +kernel, by constructor <;> decide, ?_⟩
  rintro ⟨l, hl, -, hmem⟩
  have hnobody : westward.getSpectatorsInternal manned = some [] := by decide +kernel
  obtain rfl : l = [] := Option.some.inj (hl.symm.trans hnobody)
  have hfinds : westward.Finds streetRules manned 1 :=
    ⟨⟨0, 0, 0⟩, by decide +kernel, by constructor <;> decide, fun h => by cases h⟩
  exact List.not_mem_nil ((hmem 1).mpr hfinds)

end ForgottenServer.Maps
