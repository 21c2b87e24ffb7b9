import ForgottenServer.Combat.Symmetry

/-! # Areas for all directions

The areas of the straight directions are turned about the middle of a matrix twice as
long as the pattern, which is right for every pattern that `int` can hold. Mirroring
and flipping take the new centre from the other side of the pattern. -/
namespace ForgottenServer.Combat
open ForgottenServer.Lib.Grid
open ForgottenServer.Maps (IsInt addInt int32)
open MatrixArea

/-! ## Mirrored and flipped -/

theorem int32_of_isInt {n : ℤ} (h : IsInt n) : int32 n = n := by
  obtain ⟨hlow, hhigh⟩ := h
  exact Int.bmod_eq_of_le (by omega) (by omega)

theorem countdown_of_lt {n : ℕ} (h : n < 2 ^ 31) : countdown n = some (List.range n).reverse := by
  rw [countdown, int32_of_isInt ⟨by omega, by omega⟩, if_neg (by omega), Int.toNat_natCast]

theorem countdown_of_gt {n : ℕ} (h : 2 ^ 31 < n) (hn : n < 2 ^ 32) : countdown n = some [] := by
  have hneg : int32 n = n - 2 ^ 32 := by
    rw [int32, Int.bmod_def]
    omega
  rw [countdown, hneg, if_neg (by omega), Int.toNat_of_nonpos (by omega)]
  rfl

theorem mem_countdown {n x i : ℕ} : (x, i) ∈ (List.range n).reverse.zipIdx ↔ i < n ∧ x = n - 1 - i := by
  rw [List.mk_mem_zipIdx_iff_getElem?]
  by_cases hi : i < n
  · rw [List.getElem?_reverse (by simpa using hi), List.length_range, List.getElem?_range (by omega),
      Option.some.injEq]
    omega
  · rw [List.getElem?_eq_none (by simpa using hi)]
    simp [hi]

def mirrored (input : MatrixArea) (y x : ℕ) : ℤ × ℤ := (y, (input.cols - 1 - x : ℕ))

def flipped (input : MatrixArea) (y x : ℕ) : ℤ × ℤ := ((input.rows - 1 - y : ℕ), x)

theorem mirror_assigns (input : MatrixArea) : Assigns input (mirrored input) ((List.range input.rows).flatMap fun y =>
      (List.range input.cols).reverse.zipIdx.map fun (x, rx) =>
        (((y : ℤ), (rx : ℤ)), input.data (y, x))) := by
  intro w
  simp only [List.mem_flatMap, List.mem_range, List.mem_map, Prod.exists, mem_countdown]
  constructor
  · intro ⟨y, hy, x, rx, ⟨hrx, hx⟩, hw⟩
    refine ⟨y, hy, x, by omega, ?_⟩
    rw [← hw, mirrored, show input.cols - 1 - x = rx by omega]
  · intro ⟨y, hy, x, hx, hw⟩
    exact ⟨y, hy, x, input.cols - 1 - x, ⟨by omega, by omega⟩, hw.symm⟩

theorem flip_assigns (input : MatrixArea) : Assigns input (flipped input) ((List.range input.cols).flatMap fun x =>
      (List.range input.rows).reverse.zipIdx.map fun (y, ry) =>
        (((ry : ℤ), (x : ℤ)), input.data (y, x))) := by
  intro w
  simp only [List.mem_flatMap, List.mem_range, List.mem_map, Prod.exists, mem_countdown]
  constructor
  · intro ⟨x, hx, y, ry, ⟨hry, hy⟩, hw⟩
    refine ⟨y, by omega, x, hx, ?_⟩
    rw [← hw, flipped, show input.rows - 1 - y = ry by omega]
  · intro ⟨y, hy, x, hx, hw⟩
    exact ⟨x, hx, y, input.rows - 1 - y, ⟨by omega, by omega⟩, hw.symm⟩

theorem mirrored_apart (input : MatrixArea) : Apart input (mirrored input) := by
  intro y hy x hx y' hy' x' hx' h
  simp only [mirrored, Prod.mk.injEq, Nat.cast_inj] at h
  omega

theorem flipped_apart (input : MatrixArea) : Apart input (flipped input) := by
  intro y hy x hx y' hy' x' hx' h
  simp only [flipped, Prod.mk.injEq, Nat.cast_inj] at h
  omega

/-- A copy of `input` in a square of the given size, with the given centre. -/
structure CopyOf (input output : MatrixArea) (place : ℕ → ℕ → ℤ × ℤ) (size centerY centerX : ℕ) : Prop
    extends Copied input output place where
  rows_eq : output.rows = size
  cols_eq : output.cols = size
  centerY_eq : output.centerY = centerY
  centerX_eq : output.centerX = centerX

theorem copyOf_of_write {input output : MatrixArea} {place : ℕ → ℕ → ℤ × ℤ} {ws : List ((ℤ × ℤ) × Bool)}
    {size : ℕ} (hws : Assigns input place ws) (hplace : Apart input place)
    (h : ({ rows := size, cols := size } : MatrixArea).write ws = some output) (centerY centerX : ℕ) :
    CopyOf input (output.setCenter centerY centerX) place size centerY centerX := by
  obtain ⟨⟨hin, hdata⟩, hrows, hcols⟩ := write_copied hws hplace h
  exact ⟨⟨hin, hdata⟩, hrows, hcols, rfl, rfl⟩

theorem copied_mirror (input : MatrixArea) (size : ℕ) (hcols : input.cols < 2 ^ 31)
    (hy : input.rows ≤ size) (hx : input.cols ≤ size) :
    ∃ output, AreaCombat.copied input size .mirror = some output ∧
      CopyOf input output (mirrored input) size input.centerY (uint32 (input.rows - 1 - input.centerX)) := by
  obtain ⟨output, hout⟩ := exists_write size size (mirror_assigns input) (by
    intro y hy x hx
    rw [inside_iff]
    simp only [mirrored]
    omega)
  refine ⟨output.setCenter input.centerY (uint32 (input.rows - 1 - input.centerX)), ?_,
    copyOf_of_write (mirror_assigns input) (mirrored_apart input) hout _ _⟩
  rw [AreaCombat.copied, copyArea, countdown_of_lt hcols, Option.bind_eq_bind, Option.bind_some, hout]
  rfl

theorem copied_flip (input : MatrixArea) (size : ℕ) (hrows : input.rows < 2 ^ 31)
    (hy : input.rows ≤ size) (hx : input.cols ≤ size) :
    ∃ output, AreaCombat.copied input size .flip = some output ∧
      CopyOf input output (flipped input) size (uint32 (input.cols - 1 - input.centerY)) input.centerX := by
  obtain ⟨output, hout⟩ := exists_write size size (flip_assigns input) (by
    intro y hy x hx
    rw [inside_iff]
    simp only [flipped]
    omega)
  refine ⟨output.setCenter (uint32 (input.cols - 1 - input.centerY)) input.centerX, ?_,
    copyOf_of_write (flip_assigns input) (flipped_apart input) hout _ _⟩
  rw [AreaCombat.copied, copyArea, countdown_of_lt hrows, Option.bind_eq_bind, Option.bind_some, hout]
  rfl

theorem copied_mirror_of_gt (input : MatrixArea) (size : ℕ) (hcols : 2 ^ 31 < input.cols)
    (hcols' : input.cols < 2 ^ 32) :
    ∃ output, AreaCombat.copied input size .mirror = some output ∧ output.offsets = ∅ := by
  have hnil : ((List.range input.rows).flatMap fun y =>
      (([] : List ℕ).zipIdx.map fun (x, rx) => (((y : ℤ), (rx : ℤ)), input.data (y, x)))) = [] :=
    List.flatMap_eq_nil_iff.mpr fun _ _ => rfl
  refine ⟨({ rows := size, cols := size } : MatrixArea).setCenter input.centerY
    (uint32 (input.rows - 1 - input.centerX)), ?_, ?_⟩
  · rw [AreaCombat.copied, copyArea, countdown_of_gt hcols hcols', Option.bind_eq_bind, Option.bind_some, hnil]
    rfl
  · ext p
    simp [mem_offsets, setCenter]

/-! ## Turned -/

/-- Where an offset is turned to. -/
def MatrixOperation.turned (op : MatrixOperation) (p : ℤ × ℤ) : ℤ × ℤ :=
  (p.2 * op.turn.2 + p.1 * op.turn.1, p.2 * op.turn.1 + p.1 * -op.turn.2)

/-- The middle of an output matrix. -/
def middle (size : ℕ) : ℤ := int32 ((size / 2 : ℕ) - 1)

def Rotation (op : MatrixOperation) : Prop := op = .rotate90 ∨ op = .rotate180 ∨ op = .rotate270

theorem copied_rotation {op : MatrixOperation} (hop : Rotation op) (input : MatrixArea) (size : ℕ) :
    AreaCombat.copied input size op =
      ((((List.range input.cols).flatMap fun x => (List.range input.rows).map fun y => (x, y)).mapM
        fun (x, y) => (rotatedCell input (middle size) (middle size) op x y).map
          fun cell => (cell, input.data (y, x))).bind fun ws =>
        (({ rows := size, cols := size } : MatrixArea).write ws).map
          fun output : MatrixArea => output.setCenter (uint32 (middle size)) (uint32 (middle size))) := by
  rcases hop with rfl | rfl | rfl <;>
    simp [AreaCombat.copied, copyArea, middle, Option.map_eq_bind]

theorem rotated_assigns {op : MatrixOperation} {input : MatrixArea} {size : ℕ} {place : ℕ → ℕ → ℤ × ℤ}
    (hcell : ∀ y < input.rows, ∀ x < input.cols,
      rotatedCell input (middle size) (middle size) op x y = some (place y x)) :
    ∃ ws, ((List.range input.cols).flatMap fun x => (List.range input.rows).map fun y => (x, y)).mapM
        (fun (x, y) => (rotatedCell input (middle size) (middle size) op x y).map
          fun cell => (cell, input.data (y, x))) = some ws ∧ Assigns input place ws := by
  refine ⟨((List.range input.cols).flatMap fun x => (List.range input.rows).map fun y => (x, y)).map
    fun (x, y) => (place y x, input.data (y, x)), mapM_eq_some.mpr ?_, ?_⟩
  · rw [List.map_map]
    refine List.map_congr_left fun c hc => ?_
    obtain ⟨x, hx, hc⟩ := List.mem_flatMap.mp hc
    obtain ⟨y, hy, rfl⟩ := List.mem_map.mp hc
    simp [hcell y (List.mem_range.mp hy) x (List.mem_range.mp hx)]
  · intro w
    simp only [List.mem_map, List.mem_flatMap, List.mem_range, Prod.exists, Prod.mk.injEq]
    constructor
    · intro ⟨x, y, ⟨x', hx, y', hy, hx', hy'⟩, hw⟩
      subst hx' hy'
      exact ⟨y', hy, x', hx, hw.symm⟩
    · intro ⟨y, hy, x, hx, hw⟩
      exact ⟨x, y, ⟨x, hx, y, hy, rfl, rfl⟩, hw.symm⟩

theorem exists_copied_rotation {op : MatrixOperation} (hop : Rotation op) (input : MatrixArea) (size : ℕ)
    (place : ℕ → ℕ → ℤ × ℤ)
    (hcell : ∀ y < input.rows, ∀ x < input.cols,
      rotatedCell input (middle size) (middle size) op x y = some (place y x))
    (hin : ∀ y < input.rows, ∀ x < input.cols, ({ rows := size, cols := size } : MatrixArea).inside (place y x) = true)
    (hplace : Apart input place) :
    ∃ output, AreaCombat.copied input size op = some output ∧
      CopyOf input output place size (uint32 (middle size)) (uint32 (middle size)) := by
  obtain ⟨ws, hmap, hws⟩ := rotated_assigns hcell
  obtain ⟨output, hout⟩ := exists_write size size hws hin
  refine ⟨output.setCenter (uint32 (middle size)) (uint32 (middle size)), ?_, copyOf_of_write hws hplace hout _ _⟩
  rw [copied_rotation hop, hmap, Option.bind_some, hout]
  rfl

theorem cells_of_copied {op : MatrixOperation} (hop : Rotation op) {input output : MatrixArea} {size : ℕ}
    (h : AreaCombat.copied input size op = some output) :
    ∀ y < input.rows, ∀ x < input.cols, ∃ cell,
      rotatedCell input (middle size) (middle size) op x y = some cell ∧
        0 ≤ cell.1 ∧ cell.1 < size ∧ 0 ≤ cell.2 ∧ cell.2 < size := by
  rw [copied_rotation hop, Option.bind_eq_some_iff] at h
  obtain ⟨ws, hmap, hout⟩ := h
  obtain ⟨output', hwrite, -⟩ := Option.map_eq_some_iff.mp hout
  obtain ⟨data, hdata, -⟩ := Option.map_eq_some_iff.mp hwrite
  intro y hy x hx
  have hmem : (rotatedCell input (middle size) (middle size) op x y).map
      (fun cell => (cell, input.data (y, x))) ∈ ws.map some := by
    rw [← mapM_eq_some.mp hmap]
    exact List.mem_map.mpr ⟨(x, y), List.mem_flatMap.mpr ⟨x, List.mem_range.mpr hx,
      List.mem_map.mpr ⟨y, List.mem_range.mpr hy, rfl⟩⟩, rfl⟩
  obtain ⟨w, hw, hsome⟩ := List.mem_map.mp hmem
  obtain ⟨cell, hcell, rfl⟩ := Option.map_eq_some_iff.mp hsome.symm
  exact ⟨cell, hcell, inside_iff.mp (inside_of_writes hdata _ hw)⟩

theorem rotatedCell_eq_some {op : MatrixOperation} {input : MatrixArea} {r : ℤ} {x y : ℕ} {cell : ℤ × ℤ} :
    rotatedCell input r r op x y = some cell ↔
      let q := op.turned (int32 (y - input.centerY), int32 (x - input.centerX))
      IsInt q.2 ∧ IsInt q.1 ∧ IsInt (q.1 + r) ∧ IsInt (q.2 + r) ∧ cell = ((uint32 (q.1 + r) : ℤ), q.2 + r) := by
  simp only [rotatedCell, toInt, addInt, MatrixOperation.turned, Option.bind_eq_bind,
    Option.bind_eq_some_iff, Option.ite_none_right_eq_some, Option.some.injEq, Option.pure_def]
  constructor
  · rintro ⟨_, ⟨h1, rfl⟩, _, ⟨h2, rfl⟩, _, ⟨h3, rfl⟩, _, ⟨h4, rfl⟩, hcell⟩
    exact ⟨h1, h2, h3, h4, hcell.symm⟩
  · rintro ⟨h1, h2, h3, h4, hcell⟩
    exact ⟨_, ⟨h1, rfl⟩, _, ⟨h2, rfl⟩, _, ⟨h3, rfl⟩, _, ⟨h4, rfl⟩, hcell.symm⟩

/-- A pattern is so short that `int` holds the turned cells. -/
def Fits (rows cols centerX centerY : ℕ) : Prop :=
  max rows cols - 1 + max (max centerX (cols - 1 - centerX)) (max centerY (rows - 1 - centerY)) < 2 ^ 31

/-- The centre is one of the cells. -/
structure Centered (m : MatrixArea) : Prop where
  rows_lt : m.rows < 2 ^ 32
  cols_lt : m.cols < 2 ^ 32
  centerX_lt : m.centerX < m.cols
  centerY_lt : m.centerY < m.rows

theorem maxOutput_of_lt {m : MatrixArea} (h : max m.rows m.cols < 2 ^ 31) :
    AreaCombat.maxOutput m = max m.rows m.cols * 2 := by
  rw [AreaCombat.maxOutput, uint32, max_comm]
  omega

theorem middle_of_lt {n : ℕ} (h : n < 2 ^ 31) : middle (n * 2) = n - 1 := by
  rw [middle, Nat.mul_div_cancel _ (by norm_num), int32_of_isInt ⟨by omega, by omega⟩]

theorem turned_bounds {op : MatrixOperation} {p : ℤ × ℤ} {b : ℤ} (hop : Rotation op)
    (h1 : -b ≤ p.1 ∧ p.1 ≤ b) (h2 : -b ≤ p.2 ∧ p.2 ≤ b) :
    (-b ≤ (op.turned p).1 ∧ (op.turned p).1 ≤ b) ∧ -b ≤ (op.turned p).2 ∧ (op.turned p).2 ≤ b := by
  rcases hop with rfl | rfl | rfl <;> simp [MatrixOperation.turned, MatrixOperation.turn] <;> omega

theorem turned_inj {op : MatrixOperation} {p q : ℤ × ℤ} (hop : Rotation op)
    (h : op.turned p = op.turned q) : p = q := by
  rcases hop with rfl | rfl | rfl <;>
    simp [MatrixOperation.turned, MatrixOperation.turn] at h <;> ext <;> omega

/-- Every pattern that fits is turned about its centre. -/
theorem copied_turned {op : MatrixOperation} (hop : Rotation op) {m : MatrixArea} (hm : Centered m)
    (hfits : Fits m.rows m.cols m.centerX m.centerY) :
    ∃ output, AreaCombat.copied m (AreaCombat.maxOutput m) op = some output ∧
      output.offsets = m.offsets.image op.turned := by
  obtain ⟨hrows, hcols, hcx, hcy⟩ := hm
  unfold Fits at hfits
  set n := max m.rows m.cols with hn
  have hlt : n < 2 ^ 31 := by omega
  have hr : middle (n * 2) = n - 1 := middle_of_lt hlt
  rw [maxOutput_of_lt hlt]
  let place (y x : ℕ) : ℤ × ℤ :=
    ((op.turned ((y : ℤ) - m.centerY, (x : ℤ) - m.centerX)).1 + (n - 1),
      (op.turned ((y : ℤ) - m.centerY, (x : ℤ) - m.centerX)).2 + (n - 1))
  -- every offset is less than `2 ^ 31 - n + 1`, and less than `n`
  have hbounds : ∀ y < m.rows, ∀ x < m.cols, ∃ b : ℤ, b ≤ n - 1 ∧ n - 1 + b < 2 ^ 31 ∧
      (-b ≤ (op.turned ((y : ℤ) - m.centerY, (x : ℤ) - m.centerX)).1 ∧
        (op.turned ((y : ℤ) - m.centerY, (x : ℤ) - m.centerX)).1 ≤ b) ∧
      -b ≤ (op.turned ((y : ℤ) - m.centerY, (x : ℤ) - m.centerX)).2 ∧
        (op.turned ((y : ℤ) - m.centerY, (x : ℤ) - m.centerX)).2 ≤ b := by
    intro y hy x hx
    refine ⟨(max (max m.centerX (m.cols - 1 - m.centerX)) (max m.centerY (m.rows - 1 - m.centerY)) : ℕ),
      by omega, by omega, turned_bounds hop ?_ ?_⟩ <;> dsimp only <;> omega
  obtain ⟨output, hout, hcopy⟩ := exists_copied_rotation hop m (n * 2) place (by
      intro y hy x hx
      obtain ⟨b, hb, hb', h1, h2⟩ := hbounds y hy x hx
      rw [rotatedCell_eq_some, hr, int32_of_isInt ⟨by omega, by omega⟩,
        int32_of_isInt ⟨by omega, by omega⟩]
      refine ⟨⟨by omega, by omega⟩, ⟨by omega, by omega⟩, ⟨by omega, by omega⟩, ⟨by omega, by omega⟩, ?_⟩
      ext
      · simp only [place, uint32]
        omega
      · rfl)
    (by
      intro y hy x hx
      obtain ⟨b, hb, hb', h1, h2⟩ := hbounds y hy x hx
      rw [inside_iff]
      simp only [place]
      omega)
    (by
      intro y hy x hx y' hy' x' hx' h
      have hq := turned_inj hop (Prod.ext (by simpa [place] using congrArg Prod.fst h)
        (by simpa [place] using congrArg Prod.snd h))
      simp only [Prod.mk.injEq] at hq
      omega)
  refine ⟨output, hout, offsets_of_copied hcopy.toCopied op.turned fun y hy x hx => ?_⟩
  have hmiddle : ((uint32 (middle (n * 2)) : ℕ) : ℤ) = n - 1 := by
    rw [hr, uint32]
    omega
  rw [hcopy.centerY_eq, hcopy.centerX_eq, hmiddle]
  ext <;> exact add_comm _ _

/-- A longer row or column is turned to a place outside the output, whose size is
taken modulo `2 ^ 32`. -/
theorem lt_of_turned {n c : ℕ} (hc : c < n) (hn : n < 2 ^ 32) (h : ∀ x < n, IsInt (-int32 ((x : ℤ) - c)) ∧
      0 ≤ -int32 ((x : ℤ) - c) + middle (uint32 ((n : ℤ) * 2)) ∧
      -int32 ((x : ℤ) - c) + middle (uint32 ((n : ℤ) * 2)) < uint32 ((n : ℤ) * 2)) : n < 2 ^ 31 := by
  by_contra hge
  obtain ⟨j, rfl⟩ := Nat.exists_eq_add_of_le (Nat.le_of_not_lt hge)
  have hsize : uint32 (((2 ^ 31 + j : ℕ) : ℤ) * 2) = j * 2 := by
    rw [uint32]
    omega
  rw [hsize, middle_of_lt (by omega)] at h
  by_cases hright : c + j < 2 ^ 31 + j
  · obtain ⟨-, hlow, -⟩ := h (c + j) hright
    rw [int32_of_isInt ⟨by omega, by omega⟩] at hlow
    omega
  · obtain ⟨⟨-, hint⟩, -, hhigh⟩ := h (c - (j + 1)) (by omega)
    rw [int32_of_isInt ⟨by omega, by omega⟩] at hint hhigh
    omega

theorem fits_of_copied {m : MatrixArea} (hm : Centered m)
    (h : ∀ op, Rotation op → ∃ output, AreaCombat.copied m (AreaCombat.maxOutput m) op = some output) :
    Fits m.rows m.cols m.centerX m.centerY := by
  obtain ⟨hrows, hcols, hcx, hcy⟩ := hm
  have hcells : ∀ op, Rotation op → ∀ y < m.rows, ∀ x < m.cols,
      let q := op.turned (int32 (y - m.centerY), int32 (x - m.centerX))
      let r := middle (AreaCombat.maxOutput m)
      IsInt q.2 ∧ IsInt q.1 ∧ IsInt (q.1 + r) ∧ IsInt (q.2 + r) ∧ 0 ≤ q.2 + r ∧ q.2 + r < AreaCombat.maxOutput m := by
    intro op hop y hy x hx
    obtain ⟨output, hout⟩ := h op hop
    obtain ⟨cell, hcell, -, -, hin⟩ := cells_of_copied hop hout y hy x hx
    obtain ⟨h1, h2, h3, h4, rfl⟩ := rotatedCell_eq_some.mp hcell
    exact ⟨h1, h2, h3, h4, hin⟩
  have h90 := hcells .rotate90 (.inl rfl)
  have h180 := hcells .rotate180 (.inr (.inl rfl))
  have h270 := hcells .rotate270 (.inr (.inr rfl))
  simp only [MatrixOperation.turned, MatrixOperation.turn, mul_zero, mul_one, add_zero, zero_add, neg_zero,
    mul_neg, neg_neg] at h90 h180 h270
  have hlt : max m.rows m.cols < 2 ^ 31 := by
    by_cases hmax : m.rows ≤ m.cols
    · rw [max_eq_right hmax]
      refine lt_of_turned hcx hcols fun x hx => ?_
      obtain ⟨h1, -, -, -, h2⟩ := h180 m.centerY hcy x hx
      rw [AreaCombat.maxOutput, max_eq_left hmax] at h2
      exact ⟨h1, h2⟩
    · rw [max_eq_left (by omega)]
      refine lt_of_turned hcy hrows fun y hy => ?_
      obtain ⟨h1, -, -, -, h2⟩ := h90 y hy m.centerX hcx
      rw [AreaCombat.maxOutput, max_eq_right (by omega)] at h2
      exact ⟨h1, h2⟩
  rw [maxOutput_of_lt hlt, middle_of_lt hlt] at h90 h180 h270
  -- the first and the last of the rows and of the columns
  obtain ⟨-, -, ⟨-, hfirstY⟩, ⟨-, hfirstX⟩, -⟩ := h180 0 (by omega) 0 (by omega)
  obtain ⟨-, -, ⟨-, hlastX⟩, -⟩ := h90 0 (by omega) (m.cols - 1) (by omega)
  obtain ⟨-, -, -, ⟨-, hlastY⟩, -⟩ := h270 (m.rows - 1) (by omega) 0 (by omega)
  rw [int32_of_isInt ⟨by omega, by omega⟩] at hfirstY hfirstX hlastX hlastY
  unfold Fits
  omega

/-! ## The areas -/

theorem offsets_mirrored {input output : MatrixArea} {size centerX : ℕ}
    (h : CopyOf input output (mirrored input) size input.centerY centerX) :
    output.offsets = input.offsets.image fun q =>
      (q.1, ((input.cols : ℤ) - 1 - input.centerX - centerX) - q.2) := by
  refine offsets_of_copied h.toCopied _ fun y hy x hx => ?_
  rw [h.centerY_eq, h.centerX_eq, mirrored]
  ext <;> dsimp only <;> omega

theorem offsets_flipped {input output : MatrixArea} {size centerY : ℕ}
    (h : CopyOf input output (flipped input) size centerY input.centerX) :
    output.offsets = input.offsets.image fun q =>
      (((input.rows : ℤ) - 1 - input.centerY - centerY) - q.1, q.2) := by
  refine offsets_of_copied h.toCopied _ fun y hy x hx => ?_
  rw [h.centerY_eq, h.centerX_eq, flipped]
  ext <;> dsimp only <;> omega

theorem copied_mirror_square {m : MatrixArea} (hm : Centered m) (hsquare : m.rows = m.cols)
    (hlt : m.cols < 2 ^ 31) (size : ℕ) (hsize : m.cols ≤ size) :
    ∃ output, AreaCombat.copied m size .mirror = some output ∧
      output.offsets = m.offsets.image fun q => (q.1, -q.2) := by
  obtain ⟨output, hout, hcopy⟩ := copied_mirror m size hlt (by omega) hsize
  refine ⟨output, hout, ?_⟩
  have hcx := hm.centerX_lt
  have hcenter : ((m.cols : ℤ) - 1 - m.centerX - uint32 ((m.rows : ℤ) - 1 - m.centerX)) = 0 := by
    rw [uint32]
    omega
  rw [offsets_mirrored hcopy, hcenter]
  simp

theorem copied_flip_square {m : MatrixArea} (hm : Centered m) (hsquare : m.rows = m.cols)
    (hlt : m.cols < 2 ^ 31) (size : ℕ) (hsize : m.cols ≤ size) :
    ∃ output, AreaCombat.copied m size .flip = some output ∧ output.rows = size ∧ output.cols = size ∧
      output.centerX = m.centerX ∧ output.centerY = m.rows - 1 - m.centerY ∧
      output.offsets = m.offsets.image fun q => (-q.1, q.2) := by
  obtain ⟨output, hout, hcopy⟩ := copied_flip m size (by omega) (by omega) hsize
  have hcy := hm.centerY_lt
  have hcenter : uint32 ((m.cols : ℤ) - 1 - m.centerY) = m.rows - 1 - m.centerY := by
    rw [uint32]
    omega
  refine ⟨output, hout, hcopy.rows_eq, hcopy.cols_eq, hcopy.centerX_eq, hcopy.centerY_eq.trans hcenter, ?_⟩
  have hzero : ((m.rows : ℤ) - 1 - m.centerY - uint32 ((m.cols : ℤ) - 1 - m.centerY)) = 0 := by
    rw [hcenter]
    omega
  rw [offsets_flipped hcopy, hzero]
  simp

theorem square_of_mirror {m output : MatrixArea} (hm : Centered m) (hlt : max m.rows m.cols < 2 ^ 31)
    (hcells : m.offsets.Nonempty) (h : AreaCombat.copied m (max m.rows m.cols * 2) .mirror = some output)
    (hoffsets : output.offsets = m.offsets.image fun q => (q.1, -q.2)) : m.rows = m.cols := by
  obtain ⟨output', hout, hcopy⟩ := copied_mirror m (max m.rows m.cols * 2) (by omega) (by omega) (by omega)
  obtain rfl : output' = output := Option.some.inj (hout.symm.trans h)
  set k : ℤ := (m.cols : ℤ) - 1 - m.centerX - uint32 ((m.rows : ℤ) - 1 - m.centerX) with hk
  have hzero : k = 0 := by
    refine shift_eq_zero (hcells.image fun q => (q.1, -q.2)) ?_
    calc
      _ = m.offsets.image fun q => (q.1, k - q.2) := by
        rw [Finset.image_image]
        refine Finset.image_congr fun q _ => ?_
        ext
        · rfl
        · dsimp only [Function.comp]
          omega
      _ = output'.offsets := by rw [offsets_mirrored hcopy]
      _ = _ := hoffsets
  obtain ⟨hrows, hcols, hcx, -⟩ := hm
  rw [hk, uint32] at hzero
  omega

namespace AreaCombat

def Shows (ac : AreaCombat) (dir : Maps.Direction) (offsets : Finset (ℤ × ℤ)) : Prop :=
  ∃ area, ac.areas dir = some area ∧ area.offsets = offsets

theorem setupArea_eq_some {ac ac' : AreaCombat} {list : List ℕ} {rows : ℕ} :
    ac.setupArea list rows = some ac' ↔ ∃ area, createArea list rows = some area ∧
      ∃ south, copied area (maxOutput area) .rotate180 = some south ∧
      ∃ east, copied area (maxOutput area) .rotate90 = some east ∧
      ∃ west, copied area (maxOutput area) .rotate270 = some west ∧
        (((ac.set .south south).set .east east).set .west west).set .north area = ac' := by
  simp [setupArea, Option.bind_eq_some_iff]

theorem setupExtArea_eq_some {ac ac' : AreaCombat} {list : List ℕ} {rows : ℕ} (hlist : list ≠ []) :
    ac.setupExtArea list rows = some ac' ↔ ∃ area, createArea list rows = some area ∧
      ∃ ne, copied area (maxOutput area) .mirror = some ne ∧
      ∃ sw, copied area (maxOutput area) .flip = some sw ∧
      ∃ se, copied sw (maxOutput area) .mirror = some se ∧
        (((({ ac with hasExtArea := true } : AreaCombat).set .northeast ne).set .southeast se).set
          .southwest sw).set .northwest area = ac' := by
  simp [setupExtArea, hlist, Option.bind_eq_some_iff]

end AreaCombat

/-- The areas that are set up are turned, mirrored and flipped about the centre. -/
structure Symmetric (p : Pattern) (ac : AreaCombat) : Prop where
  straight : ∃ ac', ac.setupArea p.list p.rows = some ac' ∧ ac'.Shows .north p.offsets ∧
    ac'.Shows .east (p.offsets.image fun q => (q.2, -q.1)) ∧
    ac'.Shows .south (p.offsets.image fun q => (-q.1, -q.2)) ∧
    ac'.Shows .west (p.offsets.image fun q => (-q.2, q.1))
  diagonal : ∃ ac', ac.setupExtArea p.list p.rows = some ac' ∧ ac'.Shows .northwest p.offsets ∧
    ac'.Shows .northeast (p.offsets.image fun q => (q.1, -q.2)) ∧
    ac'.Shows .southwest (p.offsets.image fun q => (-q.1, q.2)) ∧
    ac'.Shows .southeast (p.offsets.image fun q => (-q.1, -q.2))

namespace Pattern
variable {p : Pattern}

theorem offsets_eq_empty : p.offsets = ∅ ↔ ∀ value ∈ p.list, value ≠ 1 ∧ value ≠ 3 := by
  have hcols : 0 < p.cols := Nat.zero_lt_of_lt p.centerX_lt
  constructor
  · intro h value hvalue
    by_contra hmark
    obtain ⟨i, hi⟩ := List.mem_iff_getElem?.mp hvalue
    have hlt : i < p.rows * p.cols := p.length_eq ▸ (List.getElem?_eq_some_iff.mp hi).1
    have hcell : p.Cell (i / p.cols) (i % p.cols) := by
      rw [Cell, Nat.div_add_mod', hi, Option.some.injEq, Option.some.injEq]
      tauto
    have hmem := mem_offsets.mpr ⟨i / p.cols, Nat.div_lt_of_lt_mul (Nat.mul_comm _ _ ▸ hlt), i % p.cols,
      Nat.mod_lt _ hcols, hcell, rfl⟩
    rw [h] at hmem
    exact absurd hmem (Finset.notMem_empty _)
  · intro h
    refine Finset.eq_empty_of_forall_notMem fun q hq => ?_
    obtain ⟨y, -, x, -, hc, -⟩ := mem_offsets.mp hq
    rcases hc with hc | hc
    · exact (h 1 (List.mem_of_getElem? hc)).1 rfl
    · exact (h 3 (List.mem_of_getElem? hc)).2 rfl

end Pattern

theorem straight_iff {p : Pattern} (ac : AreaCombat) {area : MatrixArea}
    (harea : createArea p.list p.rows = some area) (hm : Centered area) (hoffsets : area.offsets = p.offsets) :
    (∃ ac', ac.setupArea p.list p.rows = some ac' ∧ ac'.Shows .north p.offsets ∧
      ac'.Shows .east (p.offsets.image fun q => (q.2, -q.1)) ∧
      ac'.Shows .south (p.offsets.image fun q => (-q.1, -q.2)) ∧
      ac'.Shows .west (p.offsets.image fun q => (-q.2, q.1))) ↔
    Fits area.rows area.cols area.centerX area.centerY := by
  constructor
  · intro ⟨ac', hac, _⟩
    obtain ⟨area', harea', south, hsouth, east, heast, west, hwest, -⟩ := AreaCombat.setupArea_eq_some.mp hac
    obtain rfl : area' = area := Option.some.inj (harea'.symm.trans harea)
    refine fits_of_copied hm fun op hop => ?_
    rcases hop with rfl | rfl | rfl
    · exact ⟨east, heast⟩
    · exact ⟨south, hsouth⟩
    · exact ⟨west, hwest⟩
  · intro hfits
    obtain ⟨south, hsouth, hs⟩ := copied_turned (.inr (.inl rfl)) hm hfits
    obtain ⟨east, heast, he⟩ := copied_turned (.inl rfl) hm hfits
    obtain ⟨west, hwest, hw⟩ := copied_turned (.inr (.inr rfl)) hm hfits
    refine ⟨_, AreaCombat.setupArea_eq_some.mpr ⟨area, harea, south, hsouth, east, heast, west, hwest, rfl⟩,
      ⟨area, rfl, hoffsets⟩, ⟨east, rfl, ?_⟩, ⟨south, rfl, ?_⟩, ⟨west, rfl, ?_⟩⟩
    · rw [he, hoffsets]
      refine Finset.image_congr fun q _ => ?_
      simp [MatrixOperation.turned, MatrixOperation.turn]
    · rw [hs, hoffsets]
      refine Finset.image_congr fun q _ => ?_
      simp [MatrixOperation.turned, MatrixOperation.turn]
    · rw [hw, hoffsets]
      refine Finset.image_congr fun q _ => ?_
      simp [MatrixOperation.turned, MatrixOperation.turn]

/-- A loop of `int32_t` down from `2 ^ 31` is undefined. -/
theorem ne_of_copied_mirror {input output : MatrixArea} {size : ℕ}
    (h : AreaCombat.copied input size .mirror = some output) : input.cols ≠ 2 ^ 31 := by
  intro hcols
  rw [AreaCombat.copied, copyArea, hcols] at h
  cases h

/-- The diagonal areas are right for squares, and where there is nothing to copy. -/
theorem diagonal_iff {p : Pattern} (ac : AreaCombat) {area : MatrixArea} (harea : createArea p.list p.rows = some area)
    (hm : Centered area) (hoffsets : area.offsets = p.offsets) (hlt : max area.rows area.cols < 2 ^ 31) :
    (∃ ac', ac.setupExtArea p.list p.rows = some ac' ∧ ac'.Shows .northwest p.offsets ∧
      ac'.Shows .northeast (p.offsets.image fun q => (q.1, -q.2)) ∧
      ac'.Shows .southwest (p.offsets.image fun q => (-q.1, q.2)) ∧
      ac'.Shows .southeast (p.offsets.image fun q => (-q.1, -q.2))) ↔
    (area.rows = area.cols ∧ area.rows < 2 ^ 30) ∨ (p.offsets = ∅ ∧ max area.rows area.cols ≠ 2 ^ 30) := by
  have hlist : p.list ≠ [] := by
    rw [← List.length_pos_iff, p.length_eq]
    exact Nat.mul_pos (Nat.zero_lt_of_lt p.centerY_lt) (Nat.zero_lt_of_lt p.centerX_lt)
  simp only [AreaCombat.setupExtArea_eq_some hlist, harea, Option.some.injEq, exists_eq_left', maxOutput_of_lt hlt]
  constructor
  · intro ⟨ac', ⟨ne, hne, sw, hsw, se, hse, hac⟩, _, hshowne, _, hshowse⟩
    subst hac
    obtain ⟨ne', hne', hoffne⟩ := hshowne
    obtain rfl : ne = ne' := Option.some.inj hne'
    obtain ⟨se', hse', hoffse⟩ := hshowse
    obtain rfl : se = se' := Option.some.inj hse'
    obtain ⟨sw', hsw', hcopy⟩ := copied_flip area (max area.rows area.cols * 2) (by omega) (by omega) (by omega)
    obtain rfl : sw' = sw := Option.some.inj (hsw'.symm.trans hsw)
    have hsize : sw'.cols = max area.rows area.cols * 2 := hcopy.cols_eq
    have hmax : max area.rows area.cols ≠ 2 ^ 30 := by
      have := ne_of_copied_mirror hse
      omega
    rcases p.offsets.eq_empty_or_nonempty with hempty | hcells
    · exact .inr ⟨hempty, hmax⟩
    · have hsquare : area.rows = area.cols :=
        square_of_mirror hm hlt (hoffsets ▸ hcells) hne (hoffsets ▸ hoffne)
      refine .inl ⟨hsquare, ?_⟩
      by_contra hge
      obtain ⟨se', hse', hnone⟩ := copied_mirror_of_gt sw' (max area.rows area.cols * 2) (by omega) (by omega)
      obtain rfl : se' = se := Option.some.inj (hse'.symm.trans hse)
      rw [hnone] at hoffse
      exact absurd hoffse.symm (hcells.image _).ne_empty
  · rintro (⟨hsquare, hsmall⟩ | ⟨hempty, hmax⟩)
    · obtain ⟨ne, hne, hoffne⟩ := copied_mirror_square hm hsquare (by omega)
        (max area.rows area.cols * 2) (by omega)
      obtain ⟨sw, hsw, hrows, hcols, hcx, hcy, hoffsw⟩ := copied_flip_square hm hsquare (by omega)
        (max area.rows area.cols * 2) (by omega)
      have hcenter := hm.centerX_lt
      obtain ⟨se, hse, hoffse⟩ := copied_mirror_square (m := sw) ⟨by omega, by omega, by omega, by omega⟩
        (by omega) (by omega) (max area.rows area.cols * 2) (by omega)
      refine ⟨_, ⟨ne, hne, sw, hsw, se, hse, rfl⟩, ⟨area, rfl, hoffsets⟩, ⟨ne, rfl, hoffsets ▸ hoffne⟩,
        ⟨sw, rfl, hoffsets ▸ hoffsw⟩, se, rfl, ?_⟩
      rw [hoffse, hoffsw, hoffsets, Finset.image_image]
      rfl
    · obtain ⟨ne, hne, hcopyne⟩ := copied_mirror area (max area.rows area.cols * 2) (by omega) (by omega) (by omega)
      obtain ⟨sw, hsw, hcopysw⟩ := copied_flip area (max area.rows area.cols * 2) (by omega) (by omega) (by omega)
      have hnosw : sw.offsets = ∅ := by rw [offsets_flipped hcopysw, hoffsets, hempty, Finset.image_empty]
      obtain ⟨se, hse, hnose⟩ : ∃ se, AreaCombat.copied sw (max area.rows area.cols * 2) .mirror = some se ∧
          se.offsets = ∅ := by
        have hrows := hcopysw.rows_eq
        have hcols := hcopysw.cols_eq
        by_cases hsmall : sw.cols < 2 ^ 31
        · obtain ⟨se, hse, hcopyse⟩ := copied_mirror sw (max area.rows area.cols * 2) hsmall (by omega) (by omega)
          exact ⟨se, hse, by rw [offsets_mirrored hcopyse, hnosw, Finset.image_empty]⟩
        · exact copied_mirror_of_gt sw _ (by omega) (by omega)
      rw [hempty]
      simp only [Finset.image_empty]
      refine ⟨_, ⟨ne, hne, sw, hsw, se, hse, rfl⟩, ⟨area, rfl, hoffsets.trans hempty⟩, ⟨ne, rfl, ?_⟩,
        ⟨sw, rfl, hnosw⟩, se, rfl, hnose⟩
      rw [offsets_mirrored hcopyne, hoffsets, hempty, Finset.image_empty]

/-- The areas of a pattern are symmetric when it is a square, or marks no cell. -/
theorem areas_symmetric_iff (p : Pattern) (ac : AreaCombat) : Symmetric p ac ↔ (p.rows = p.cols ∧ p.rows < 2 ^ 30) ∨
      ((∀ value ∈ p.list, value ≠ 1 ∧ value ≠ 3) ∧ Fits p.rows p.cols p.centerX p.centerY ∧
        max p.rows p.cols ≠ 2 ^ 30) := by
  obtain ⟨area, harea, hrows, hcols, hcx, hcy, hoffsets⟩ := p.createArea_pattern
  have hm : Centered area := by
    have := p.rows_lt
    have := p.cols_lt
    have := p.centerX_lt
    have := p.centerY_lt
    constructor <;> omega
  have hstraight := straight_iff ac harea hm hoffsets
  have hdiagonal := diagonal_iff ac harea hm hoffsets
  rw [hrows, hcols, hcx, hcy] at hstraight
  rw [hrows, hcols] at hdiagonal
  have hlong : Fits p.rows p.cols p.centerX p.centerY → max p.rows p.cols < 2 ^ 31 := by
    unfold Fits
    omega
  rw [← Pattern.offsets_eq_empty]
  constructor
  · intro ⟨hs, hd⟩
    have hfits := hstraight.mp hs
    rcases (hdiagonal (hlong hfits)).mp hd with hsquare | ⟨hempty, hmax⟩
    · exact .inl hsquare
    · exact .inr ⟨hempty, hfits, hmax⟩
  · rintro (⟨hsquare, hsmall⟩ | ⟨hempty, hfits, hmax⟩)
    · have hfits : Fits p.rows p.cols p.centerX p.centerY := by
        have := p.centerX_lt
        have := p.centerY_lt
        unfold Fits
        omega
      exact ⟨hstraight.mpr hfits, (hdiagonal (hlong hfits)).mpr (.inl ⟨hsquare, hsmall⟩)⟩
    · exact ⟨hstraight.mpr hfits, (hdiagonal (hlong hfits)).mpr (.inr ⟨hempty, hmax⟩)⟩

/-- Two cells next to each other, with the centre on the first. -/
def pair : Pattern where
  list := [3, 1]
  rows := 1
  cols := 2
  centerX := 0
  centerY := 0
  rows_lt := by decide
  cols_lt := by decide
  centerX_lt := by decide
  centerY_lt := Nat.one_pos
  length_eq := rfl
  marked_iff := by
    intro i value h
    match i, h with
    | 0, h | 1, h =>
      cases h
      decide
    | i + 2, h => cases h

/-- The area of the northeast is one column too far to the right. -/
theorem pair_not_symmetric :
    ((({} : AreaCombat).setupExtArea pair.list pair.rows).bind fun ac => ac.areas .northeast).map offsets =
        some {(0, 0), (0, 1)} ∧
      pair.offsets = {(0, 0), (0, 1)} ∧ ¬ Symmetric pair {} := by
  have hne : ((({} : AreaCombat).setupExtArea pair.list pair.rows).bind fun ac =>
      ac.areas .northeast).map offsets = some {(0, 0), (0, 1)} := by
    decide +kernel
  refine ⟨hne, by decide, fun h => ?_⟩
  obtain ⟨ac', hac, -, ⟨ne, harea, hoffsets⟩, -⟩ := h.diagonal
  rw [hac, Option.bind_some, harea, Option.map_some, hoffsets] at hne
  exact absurd hne (by decide)

end ForgottenServer.Combat
