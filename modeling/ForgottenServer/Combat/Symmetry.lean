import ForgottenServer.Combat.Area

/-! # The symmetries of combat areas

The cells of an area are read as offsets from its centre. A copy puts every cell of
the input to a place of the output, and the centre it is given decides by which map
of offsets the copy differs from the input. -/
namespace ForgottenServer.Combat
open ForgottenServer.Lib.Grid
open ForgottenServer.Maps (IsInt addInt int32)

/-! ## Copies -/

namespace MatrixArea

/-- The rows and columns of the cells, counted from the centre. -/
def offsets (m : MatrixArea) : Finset (ℤ × ℤ) :=
  ((Finset.range m.rows ×ˢ Finset.range m.cols).filter fun p => m.data (p.1, p.2)).image
    fun p => ((p.1 : ℤ) - m.centerY, (p.2 : ℤ) - m.centerX)

theorem mem_offsets {m : MatrixArea} {p : ℤ × ℤ} : p ∈ m.offsets ↔ ∃ y < m.rows, ∃ x < m.cols, m.data (↑y, ↑x) = true ∧
      p = ((y : ℤ) - m.centerY, (x : ℤ) - m.centerX) := by
  simp only [offsets, Finset.mem_image, Finset.mem_filter, Finset.mem_product, Finset.mem_range, Prod.exists]
  constructor
  · intro ⟨y, x, ⟨⟨hy, hx⟩, hd⟩, hp⟩
    exact ⟨y, hy, x, hx, hd, hp.symm⟩
  · intro ⟨y, hy, x, hx, hd, hp⟩
    exact ⟨y, x, ⟨⟨hy, hx⟩, hd⟩, hp.symm⟩

theorem inside_iff {m : MatrixArea} {p : ℤ × ℤ} :
    m.inside p = true ↔ 0 ≤ p.1 ∧ p.1 < m.rows ∧ 0 ≤ p.2 ∧ p.2 < m.cols := by
  simp [inside]

/-- The assignments copy every cell of the input to its place. -/
def Assigns (input : MatrixArea) (place : ℕ → ℕ → ℤ × ℤ) (ws : List ((ℤ × ℤ) × Bool)) : Prop :=
  ∀ w, w ∈ ws ↔ ∃ y < input.rows, ∃ x < input.cols, w = (place y x, input.data (y, x))

/-- Different cells of the input have different places. -/
def Apart (input : MatrixArea) (place : ℕ → ℕ → ℤ × ℤ) : Prop :=
  ∀ y < input.rows, ∀ x < input.cols, ∀ y' < input.rows, ∀ x' < input.cols, place y x = place y' x' → y = y' ∧ x = x'

/-- Every cell of the input has a place in the output, and nothing else is there. -/
structure Copied (input output : MatrixArea) (place : ℕ → ℕ → ℤ × ℤ) : Prop where
  inside : ∀ y < input.rows, ∀ x < input.cols, output.inside (place y x) = true
  data_iff : ∀ k, output.data k = true ↔ ∃ y < input.rows, ∃ x < input.cols, input.data (y, x) = true ∧ k = place y x

variable {input output : MatrixArea} {place : ℕ → ℕ → ℤ × ℤ} {ws : List ((ℤ × ℤ) × Bool)} {rows cols : ℕ}

theorem write_copied (hws : Assigns input place ws) (hplace : Apart input place)
    (h : ({ rows, cols } : MatrixArea).write ws = some output) :
    Copied input output place ∧ output.rows = rows ∧ output.cols = cols := by
  obtain ⟨data, hdata, rfl⟩ := Option.map_eq_some_iff.mp h
  have hsame : ∀ w ∈ ws, ∀ w' ∈ ws, w.1 = w'.1 → w.2 = w'.2 := by
    intro w hw w' hw' hkey
    obtain ⟨y, hy, x, hx, rfl⟩ := (hws w).mp hw
    obtain ⟨y', hy', x', hx', rfl⟩ := (hws w').mp hw'
    obtain ⟨rfl, rfl⟩ := hplace y hy x hx y' hy' x' hx' hkey
    rfl
  refine ⟨⟨fun y hy x hx => ?_, fun k => ?_⟩, rfl, rfl⟩
  · exact inside_of_writes hdata _ ((hws _).mpr ⟨y, hy, x, hx, rfl⟩)
  · rw [show _ ↔ (k, true) ∈ ws from writes_on hdata hsame k, hws]
    constructor
    · intro ⟨y, hy, x, hx, hw⟩
      exact ⟨y, hy, x, hx, (Prod.mk.inj hw).2.symm, (Prod.mk.inj hw).1⟩
    · intro ⟨y, hy, x, hx, hd, hk⟩
      exact ⟨y, hy, x, hx, by rw [hk, hd]⟩

theorem exists_write (rows cols : ℕ) (hws : Assigns input place ws)
    (h : ∀ y < input.rows, ∀ x < input.cols, ({ rows, cols } : MatrixArea).inside (place y x) = true) :
    ∃ output, ({ rows, cols } : MatrixArea).write ws = some output := by
  obtain ⟨data, hdata⟩ := exists_writes (a := fun _ => false) (by
    intro w hw
    obtain ⟨y, hy, x, hx, rfl⟩ := (hws w).mp hw
    exact h y hy x hx)
  exact ⟨{ rows, cols, data }, by simp [write, hdata]⟩

/-- The centre of the output says which map of offsets the copy is. -/
theorem offsets_of_copied (hc : Copied input output place) (T : ℤ × ℤ → ℤ × ℤ)
    (hT : ∀ y < input.rows, ∀ x < input.cols, place y x =
      (output.centerY + (T ((y : ℤ) - input.centerY, (x : ℤ) - input.centerX)).1,
        output.centerX + (T ((y : ℤ) - input.centerY, (x : ℤ) - input.centerX)).2)) :
    output.offsets = input.offsets.image T := by
  ext p
  rw [Finset.mem_image, mem_offsets]
  constructor
  · intro ⟨y', hy', x', hx', hd, hp⟩
    obtain ⟨y, hy, x, hx, hd, hk⟩ := (hc.data_iff _).mp hd
    refine ⟨_, mem_offsets.mpr ⟨y, hy, x, hx, hd, rfl⟩, ?_⟩
    rw [hT y hy x hx] at hk
    obtain ⟨hy', hx'⟩ := Prod.mk.inj hk
    rw [hp, hy', hx']
    ext <;> simp
  · intro ⟨q, hq, hp⟩
    obtain ⟨y, hy, x, hx, hd, rfl⟩ := mem_offsets.mp hq
    have hin := inside_iff.mp (hc.inside y hy x hx)
    have hplace := hT y hy x hx
    refine ⟨(place y x).1.toNat, by omega, (place y x).2.toNat, by omega,
      (hc.data_iff _).mpr ⟨y, hy, x, hx, hd, ?_⟩, ?_⟩
    · ext <;> simp <;> omega
    · rw [← hp]
      rw [Int.toNat_of_nonneg hin.1, Int.toNat_of_nonneg hin.2.2.1, hplace]
      ext <;> simp

end MatrixArea

/-! ## Patterns -/

/-- A list of `rows * cols` entries of which one is marked as the centre. -/
structure Pattern where
  list : List ℕ
  rows : ℕ
  cols : ℕ
  centerX : ℕ
  centerY : ℕ
  rows_lt : rows < 2 ^ 32
  cols_lt : cols < 2 ^ 32
  centerX_lt : centerX < cols
  centerY_lt : centerY < rows
  length_eq : list.length = rows * cols
  marked_iff : ∀ i value, list[i]? = some value → ((value = 2 ∨ value = 3) ↔ i = centerY * cols + centerX)

namespace Pattern
variable (p : Pattern)

def Cell (y x : ℕ) : Prop := p.list[y * p.cols + x]? = some 1 ∨ p.list[y * p.cols + x]? = some 3

/-- The cells that the pattern gives, from its centre. -/
def offsets : Finset (ℤ × ℤ) :=
  ((Finset.range p.rows ×ˢ Finset.range p.cols).filter fun c =>
    p.list[c.1 * p.cols + c.2]? = some 1 ∨ p.list[c.1 * p.cols + c.2]? = some 3).image
    fun c => ((c.1 : ℤ) - p.centerY, (c.2 : ℤ) - p.centerX)

variable {p}

theorem mem_offsets {q : ℤ × ℤ} :
    q ∈ p.offsets ↔ ∃ y < p.rows, ∃ x < p.cols, p.Cell y x ∧ q = ((y : ℤ) - p.centerY, (x : ℤ) - p.centerX) := by
  simp only [offsets, Finset.mem_image, Finset.mem_filter, Finset.mem_product, Finset.mem_range, Prod.exists]
  constructor
  · intro ⟨y, x, ⟨⟨hy, hx⟩, hc⟩, hq⟩
    exact ⟨y, hy, x, hx, hc, hq.symm⟩
  · intro ⟨y, hy, x, hx, hc, hq⟩
    exact ⟨y, x, ⟨⟨hy, hx⟩, hc⟩, hq.symm⟩

theorem index_inj {n y x y' x' : ℕ} (hx : x < n) (hx' : x' < n) (h : y * n + x = y' * n + x') : y = y' ∧ x = x' := by
  have hy : y = y' := by
    have hdiv := congrArg (· / n) h
    simpa only [Nat.add_comm _ x, Nat.add_comm _ x', Nat.add_mul_div_right _ _ (Nat.zero_lt_of_lt hx),
      Nat.div_eq_of_lt hx, Nat.div_eq_of_lt hx', Nat.zero_add] using hdiv
  subst hy
  exact ⟨rfl, by omega⟩

/-- The first `n` entries of the pattern are in the area. -/
structure Filled (p : Pattern) (n : ℕ) (area : MatrixArea) : Prop where
  rows_eq : area.rows = p.rows
  cols_eq : area.cols = p.cols
  center : p.centerY * p.cols + p.centerX < n → area.centerX = p.centerX ∧ area.centerY = p.centerY
  data_iff : ∀ k, area.data k = true ↔ ∃ y, ∃ x < p.cols, y * p.cols + x < n ∧ p.Cell y x ∧ k = ((y : ℤ), (x : ℤ))

theorem Filled.value {n y x v : ℕ} {area : MatrixArea} (hf : p.Filled n area) (hn : n = y * p.cols + x)
    (hx : x < p.cols) (hv : p.list[n]? = some v) :
    ∃ area', (if v = 1 ∨ v = 3 then area.setValue y x true else some area) = some area' ∧
      area'.rows = p.rows ∧ area'.cols = p.cols ∧ area'.centerX = area.centerX ∧
      area'.centerY = area.centerY ∧ ∀ k, area'.data k = true ↔
        ∃ y, ∃ x < p.cols, y * p.cols + x < n + 1 ∧ p.Cell y x ∧ k = ((y : ℤ), (x : ℤ)) := by
  have hy : y < p.rows := by
    have hlt : n < p.rows * p.cols := p.length_eq ▸ (List.getElem?_eq_some_iff.mp hv).1
    by_contra hge
    have := Nat.mul_le_mul_right p.cols (Nat.le_of_not_lt hge)
    omega
  have hcell : p.Cell y x ↔ v = 1 ∨ v = 3 := by
    rw [Cell, ← hn, hv]
    simp
  have hat : ∀ y' x', x' < p.cols → (y' * p.cols + x' < n + 1 ↔ y' * p.cols + x' < n ∨ y' = y ∧ x' = x) := by
    intro y' x' hx'
    constructor
    · intro hlt
      by_cases heq : y' * p.cols + x' = n
      · exact .inr (index_inj hx' hx (heq.trans hn))
      · exact .inl (by omega)
    · rintro (hlt | ⟨rfl, rfl⟩) <;> omega
  by_cases hmark : v = 1 ∨ v = 3
  · have hin : area.inside (↑y, ↑x) = true :=
      MatrixArea.inside_iff.mpr (by simp only [hf.rows_eq, hf.cols_eq]; omega)
    refine ⟨{ area with data := Function.update area.data (↑y, ↑x) true }, ?_, hf.rows_eq, hf.cols_eq,
      rfl, rfl, fun k => ?_⟩
    · simp [hmark, MatrixArea.setValue, MatrixArea.write, writes, hin]
    · by_cases hk : k = (↑y, ↑x)
      · subst hk
        simp only [Function.update_self, true_iff]
        exact ⟨y, x, hx, by omega, hcell.mpr hmark, rfl⟩
      · rw [show (Function.update area.data (↑y, ↑x) true k = true) = (area.data k = true) by
          rw [Function.update_of_ne hk], hf.data_iff]
        refine exists_congr fun y' => exists_congr fun x' => and_congr_right fun hx' => ?_
        rw [hat y' x' hx']
        constructor
        · rintro ⟨hlt, h⟩
          exact ⟨.inl hlt, h⟩
        · rintro ⟨hlt, hc, hk'⟩
          rcases hlt with hlt | ⟨rfl, rfl⟩
          · exact ⟨hlt, hc, hk'⟩
          · exact absurd hk' hk
  · refine ⟨area, if_neg hmark, hf.rows_eq, hf.cols_eq, rfl, rfl, fun k => ?_⟩
    rw [hf.data_iff]
    refine exists_congr fun y' => exists_congr fun x' => and_congr_right fun hx' => ?_
    rw [hat y' x' hx']
    constructor
    · rintro ⟨hlt, h⟩
      exact ⟨.inl hlt, h⟩
    · rintro ⟨hlt, hc, hk'⟩
      rcases hlt with hlt | ⟨rfl, rfl⟩
      · exact ⟨hlt, hc, hk'⟩
      · exact absurd (hcell.mp hc) hmark

theorem Filled.step {n y x v : ℕ} {area : MatrixArea} (hf : p.Filled n area) (hn : n = y * p.cols + x)
    (hx : x < p.cols) (hv : p.list[n]? = some v) :
    ∃ area', (if v = 1 ∨ v = 3 then area.setValue y x true else some area) = some area' ∧
      p.Filled (n + 1) (if v = 2 ∨ v = 3 then area'.setCenter y x else area') := by
  obtain ⟨area', harea, hrows, hcols, hcx, hcy, hdata⟩ := hf.value hn hx hv
  refine ⟨area', harea, ?_⟩
  have hmark := p.marked_iff n v hv
  by_cases hc : v = 2 ∨ v = 3
  · obtain ⟨hy, hx⟩ := index_inj hx p.centerX_lt (hn.symm.trans (hmark.mp hc))
    rw [if_pos hc]
    exact ⟨hrows, hcols, fun _ => ⟨hx, hy⟩, hdata⟩
  · rw [if_neg hc]
    refine ⟨hrows, hcols, fun hlt => ?_, hdata⟩
    have hne := mt hmark.mpr hc
    rw [hcx, hcy]
    exact hf.center (by omega)

theorem fillArea_cons (area : MatrixArea) (x y v : ℕ) (l : List ℕ) :
    fillArea area x y (v :: l) = (if v = 1 ∨ v = 3 then area.setValue y x true else some area).bind fun area' =>
        let area' := if v = 2 ∨ v = 3 then area'.setCenter y x else area'
        if area'.cols = x + 1 then fillArea area' 0 (y + 1) l else fillArea area' (x + 1) y l := by
  rw [fillArea]
  split <;> rfl

theorem fillArea_filled {l : List ℕ} : ∀ {n y x : ℕ} {area : MatrixArea}, p.Filled n area →
    n = y * p.cols + x → x < p.cols → p.list.drop n = l →
    ∃ area', fillArea area x y l = some area' ∧ p.Filled (n + l.length) area' := by
  induction l with
  | nil => exact fun {n y x area} hf _ _ _ => ⟨area, rfl, hf⟩
  | cons v l ih =>
    intro n y x area hf hn hx hl
    have hv : p.list[n]? = some v := by
      have := congrArg (·[0]?) hl
      simpa using this
    have hl' : p.list.drop (n + 1) = l := by
      rw [← List.drop_drop, hl]
      rfl
    obtain ⟨area', harea, hf'⟩ := hf.step hn hx hv
    rw [fillArea_cons, harea, List.length_cons, ← Nat.add_assoc, Nat.add_right_comm]
    simp only [Option.bind_some, hf'.cols_eq]
    split
    · exact ih hf' (by rw [Nat.succ_mul]; omega) (by omega) hl'
    · exact ih hf' (by omega) (by omega) hl'

theorem uint32_of_lt {n : ℕ} (h : n < 2 ^ 32) : uint32 n = n := by
  rw [uint32, Int.emod_eq_of_lt (by omega) (by exact_mod_cast h), Int.toNat_natCast]

theorem createArea_pattern (p : Pattern) :
    ∃ area, createArea p.list p.rows = some area ∧ area.rows = p.rows ∧ area.cols = p.cols ∧
      area.centerX = p.centerX ∧ area.centerY = p.centerY ∧ area.offsets = p.offsets := by
  have hrows : 0 < p.rows := Nat.zero_lt_of_lt p.centerY_lt
  have hcols : 0 < p.cols := Nat.zero_lt_of_lt p.centerX_lt
  have hstart : p.Filled 0 { rows := p.rows, cols := p.cols } := ⟨rfl, rfl, by simp, by simp⟩
  obtain ⟨area, harea, hf⟩ := fillArea_filled hstart (y := 0) (by simp) hcols rfl
  rw [List.drop_zero, Nat.zero_add, p.length_eq] at hf
  have hbound : ∀ y x, x < p.cols → (y * p.cols + x < p.rows * p.cols ↔ y < p.rows) := by
    intro y x hx
    constructor
    · intro hlt
      exact Nat.lt_of_mul_lt_mul_right (Nat.lt_of_le_of_lt (Nat.le_add_right ..) hlt)
    · intro hlt
      have := Nat.mul_le_mul_right p.cols (Nat.succ_le_of_lt hlt)
      rw [Nat.succ_mul] at this
      omega
  have hcenter := hf.center ((hbound _ _ p.centerX_lt).mpr p.centerY_lt)
  refine ⟨area, ?_, hf.rows_eq, hf.cols_eq, hcenter.1, hcenter.2, ?_⟩
  · rw [createArea, if_neg hrows.ne', p.length_eq, Nat.mul_div_cancel_left _ hrows, uint32_of_lt p.cols_lt]
    exact harea
  · ext q
    simp only [MatrixArea.mem_offsets, mem_offsets, hf.rows_eq, hf.cols_eq, hcenter.1, hcenter.2,
      hf.data_iff, Prod.mk.injEq, Nat.cast_inj]
    constructor
    · intro ⟨y, hy, x, hx, ⟨y', x', _, _, hc, hyy, hxx⟩, hq⟩
      subst hyy hxx
      exact ⟨y, hy, x, hx, hc, hq⟩
    · intro ⟨y, hy, x, hx, hc, hq⟩
      exact ⟨y, hy, x, hx, ⟨y, x, hx, (hbound y x hx).mpr hy, hc, rfl, rfl⟩, hq⟩

end Pattern
end ForgottenServer.Combat
