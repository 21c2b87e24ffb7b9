import ForgottenServer.Maps.Map
import Mathlib.Algebra.Order.Group.Abs
import Mathlib.Tactic.Ring

/-! # Lines of sight

`Map::checkSightLine` walks from one position to another and looks at a tile after
each step. It moves to whichever of three neighbours is closest to the ideal line,
and from then on straight as soon as one coordinate is reached. The distances are
computed in 32 bits; their exact values stay small on the way. -/
namespace ForgottenServer.Maps.SightLine

/-- What the loops ask a tile. -/
structure Square where
  blockProjectile : Bool := false
  thingCount : ℕ := 0

/-- The map, as far as a line of sight is concerned. -/
abbrev World := Position → Option Square

/-- The constants of the walk to a destination. -/
structure Line where
  destination : Position
  mx : ℤ
  my : ℤ
  A : Int32
  B : Int32
  C : Int32

def direction (start destination : UInt16) : ℤ :=
  if start < destination then 1 else if start = destination then 0 else -1

def Line.between (start destination : Position) : Line :=
  let A := Int32.ofInt (destination.y.toNat - start.y.toNat)
  let B := Int32.ofInt (start.x.toNat - destination.x.toNat)
  { destination
    mx := direction start.x destination.x
    my := direction start.y destination.y
    A
    B
    C := -(A * .ofInt destination.x.toNat + B * .ofInt destination.y.toNat) }

/-- `std::abs`, which leaves the least number negative. -/
def abs32 (v : Int32) : Int32 := if v < 0 then -v else v

def Line.distance (l : Line) (x y : ℤ) : Int32 := abs32 (l.A * .ofInt x + l.B * .ofInt y + l.C)

/-- `+=` of a signed number to a coordinate. -/
def shift (x : UInt16) (m : ℤ) : UInt16 := .ofInt (x.toNat + m)

/-- One turn of the first loop, as far as the position goes. -/
def Line.next (l : Line) (start : Position) : Position :=
  let move_hor := l.distance (start.x.toNat + l.mx) start.y.toNat
  let move_ver := l.distance start.x.toNat (start.y.toNat + l.my)
  let move_cross := l.distance (start.x.toNat + l.mx) (start.y.toNat + l.my)
  let start :=
    if start.y ≠ l.destination.y ∧ (start.x = l.destination.x ∨ move_hor > move_ver ∨ move_hor > move_cross) then
      { start with y := shift start.y l.my }
    else start
  if start.x ≠ l.destination.x ∧ (start.y = l.destination.y ∨ move_ver > move_hor ∨ move_ver > move_cross) then
    { start with x := shift start.x l.mx }
  else start

def blocked (world : World) (p : Position) : Bool := (world p).any (·.blockProjectile)

/-- The first loop: the squares that it tests, and where it ends if none of them blocks. -/
def sightLoop (world : World) (l : Line) (fuel : ℕ) (start : Position) : Option (List Position × Option Position) :=
  if start.x ≠ l.destination.x ∨ start.y ≠ l.destination.y then
    match fuel with
    | 0 => none
    | fuel + 1 =>
      let start := l.next start
      if blocked world start then some ([start], none)
      else (sightLoop world l fuel start).map fun (tested, ending) => (start :: tested, ending)
  else some ([], some start)

/-- The second loop, through the floors. -/
def floorLoop (world : World) (destination : UInt8) (fuel : ℕ) (start : Position) : Option Bool :=
  if start.z ≠ destination then
    match fuel with
    | 0 => none
    | fuel + 1 =>
      if (world start).any fun tile => 0 < tile.thingCount then some false
      else floorLoop world destination fuel { start with z := start.z + 1 }
  else some true

/-- The walk goes down, from the upper of the two positions. -/
def ends (fromPos toPos : Position) : Position × Position :=
  if fromPos.z > toPos.z then (toPos, fromPos) else (fromPos, toPos)

/-- `Map::checkSightLine`; no result stands for a loop that has not ended yet. -/
def checkSightLine (world : World) (fuel : ℕ) (fromPos toPos : Position) : Option Bool :=
  if fromPos = toPos then some true
  else
    let (start, destination) := ends fromPos toPos
    (sightLoop world (.between start destination) fuel start).bind fun (_, ending) =>
      match ending with
      | none => some false
      | some start => floorLoop world destination.z fuel start

/-! ## Steps towards the destination -/

def Closer (x x' dx : UInt16) : Prop :=
  x.toNat < dx.toNat ∧ x'.toNat = x.toNat + 1 ∨ dx.toNat < x.toNat ∧ x'.toNat + 1 = x.toNat

/-- A step by one in a direction or in both, that does not lead past the destination. -/
structure Toward (d p q : Position) : Prop where
  x : q.x = p.x ∨ Closer p.x q.x d.x
  y : q.y = p.y ∨ Closer p.y q.y d.y
  z : q.z = p.z
  moved : q ≠ p

/-- What is left of the way, step by step. -/
def remaining (p d : Position) : ℕ :=
  ((p.x.toNat : ℤ) - d.x.toNat).natAbs + ((p.y.toNat : ℤ) - d.y.toNat).natAbs

def Between (a b x : ℕ) : Prop := a ≤ x ∧ x ≤ b ∨ b ≤ x ∧ x ≤ a

/-- In the smallest box with two corners. -/
def InBox (a b p : Position) : Prop :=
  Between a.x.toNat b.x.toNat p.x.toNat ∧ Between a.y.toNat b.y.toNat p.y.toNat

theorem Closer.natAbs {x x' dx : UInt16} (h : Closer x x' dx) :
    ((x'.toNat : ℤ) - dx.toNat).natAbs + 1 = ((x.toNat : ℤ) - dx.toNat).natAbs := by
  rcases h with ⟨hlt, heq⟩ | ⟨hlt, heq⟩ <;> omega

theorem Closer.between {a x x' dx : UInt16} (h : Closer x x' dx) (hx : Between a.toNat dx.toNat x.toNat) :
    Between a.toNat dx.toNat x'.toNat := by
  unfold Between at hx ⊢
  rcases h with ⟨hlt, heq⟩ | ⟨hlt, heq⟩ <;> omega

theorem Toward.remaining_lt {d p q : Position} (h : Toward d p q) : remaining q d < remaining p d := by
  unfold remaining
  rcases h.x with hx | hx <;> rcases h.y with hy | hy
  · have hz := h.z
    exact absurd (by cases p; cases q; simp_all) h.moved
  · have := hy.natAbs
    rw [hx]
    omega
  · have := hx.natAbs
    rw [hy]
    omega
  · have := hx.natAbs
    have := hy.natAbs
    omega

theorem Toward.inBox {s d p q : Position} (h : Toward d p q) (hp : InBox s d p) : InBox s d q := by
  constructor
  · rcases h.x with hx | hx
    · rw [hx]
      exact hp.1
    · exact hx.between hp.1
  · rcases h.y with hy | hy
    · rw [hy]
      exact hp.2
    · exact hy.between hp.2

theorem closer_shift {s x dx : UInt16} (hx : Between s.toNat dx.toNat x.toNat) (hne : x ≠ dx) :
    Closer x (shift x (direction s dx)) dx := by
  have hne' : x.toNat ≠ dx.toNat := fun h => hne (UInt16.toNat_inj.mp h)
  have hsmall := UInt16.toNat_lt x
  have hsmall' := UInt16.toNat_lt dx
  unfold Between at hx
  unfold Closer shift direction UInt16.ofInt
  rw [UInt16.toNat_ofNat']
  simp only [UInt16.lt_iff_toNat_lt, ← UInt16.toNat_inj]
  split
  · omega
  · split <;> omega

/-! ## The ideal line -/

/-- How far a point is from the line, without the bounds of the machine. -/
def offset (s d : Position) (x y : ℤ) : ℤ :=
  ((d.y.toNat : ℤ) - s.y.toNat) * (x - d.x.toNat) + ((s.x.toNat : ℤ) - d.x.toNat) * (y - d.y.toNat)

theorem toInt_abs32 {e : ℤ} (h : |e| < 2 ^ 31) : (abs32 (.ofInt e)).toInt = |e| := by
  obtain ⟨hlow, hhigh⟩ := abs_lt.mp h
  have he : (Int32.ofInt e).toInt = e := Int32.toInt_ofInt_of_le hlow.le hhigh
  have hneg : (Int32.ofInt (-e)).toInt = -e := Int32.toInt_ofInt_of_le (by omega) (by omega)
  have hsign : Int32.ofInt e < 0 ↔ e < 0 := by
    rw [Int32.lt_iff_toInt_lt, he]
    exact Iff.rfl
  unfold abs32
  split
  · rename_i hlt
    have hlt' := hsign.mp hlt
    rw [← Int32.ofInt_neg, hneg, abs_of_neg hlt']
  · rename_i hge
    have hge' := not_lt.mp (mt hsign.mpr hge)
    rw [he, abs_of_nonneg hge']

theorem distance_between {s d : Position} {x y : ℤ} (h : |offset s d x y| < 2 ^ 31) :
    ((Line.between s d).distance x y).toInt = |offset s d x y| := by
  rw [← toInt_abs32 h, Line.distance, Line.between]
  dsimp only
  rw [← Int32.ofInt_mul, ← Int32.ofInt_mul, ← Int32.ofInt_mul, ← Int32.ofInt_mul, ← Int32.ofInt_add,
    ← Int32.ofInt_add, ← Int32.ofInt_neg, ← Int32.ofInt_add]
  congr 3
  unfold offset
  ring

/-- Three neighbours of a point near the line: one is closer than a straight step, and the
closest is as near as the point was. -/
theorem closest {e a b m : ℤ} (hab : 0 < a ∧ b < 0 ∨ a < 0 ∧ 0 < b) (he : |e| ≤ m) (ha : |a| ≤ m) (hb : |b| ≤ m) :
    ((|e + a| > |e + b| ∨ |e + a| > |e + a + b|) ∨ |e + b| > |e + a| ∨ |e + b| > |e + a + b|) ∧
    (|e + a| ≤ |e + b| → |e + a| ≤ |e + a + b| → |e + a| ≤ m) ∧
    (|e + b| ≤ |e + a| → |e + b| ≤ |e + a + b| → |e + b| ≤ m) ∧
    (|e + a + b| ≤ |e + a| → |e + a + b| ≤ |e + b| → |e + a + b| ≤ m) := by
  rcases abs_cases e with ⟨h₁, _⟩ | ⟨h₁, _⟩ <;> rcases abs_cases (e + a) with ⟨h₂, _⟩ | ⟨h₂, _⟩ <;>
    rcases abs_cases (e + b) with ⟨h₃, _⟩ | ⟨h₃, _⟩ <;>
    rcases abs_cases (e + a + b) with ⟨h₄, _⟩ | ⟨h₄, _⟩ <;>
    rcases hab with ⟨_, _⟩ | ⟨_, _⟩ <;> simp only [h₁, h₂, h₃, h₄, abs_le] at * <;> omega

theorem direction_eq (s d : UInt16) :
    direction s d = if s.toNat < d.toNat then 1 else if s.toNat = d.toNat then 0 else -1 := by
  simp only [direction, UInt16.lt_iff_toNat_lt, ← UInt16.toNat_inj]

/-- What a step in one direction changes of the offset. -/
def horizontal (s d : Position) : ℤ := ((d.y.toNat : ℤ) - s.y.toNat) * direction s.x d.x

def vertical (s d : Position) : ℤ := ((s.x.toNat : ℤ) - d.x.toNat) * direction s.y d.y

/-- No offset on the way is greater. -/
def width (s d : Position) : ℤ := max |(d.y.toNat : ℤ) - s.y.toNat| |(s.x.toNat : ℤ) - d.x.toNat|

theorem width_lt (s d : Position) : width s d < 2 ^ 16 := by
  have := UInt16.toNat_lt s.x
  have := UInt16.toNat_lt s.y
  have := UInt16.toNat_lt d.x
  have := UInt16.toNat_lt d.y
  exact max_lt (abs_lt.mpr ⟨by omega, by omega⟩) (abs_lt.mpr ⟨by omega, by omega⟩)

theorem abs_mul_direction (c : ℤ) (s d : UInt16) : |c * direction s d| ≤ |c| := by
  unfold direction
  split
  · rw [mul_one]
  · split
    · rw [mul_zero, abs_zero]
      exact abs_nonneg c
    · rw [mul_neg_one, abs_neg]

theorem abs_horizontal (s d : Position) : |horizontal s d| ≤ width s d :=
  (abs_mul_direction _ _ _).trans (le_max_left _ _)

theorem abs_vertical (s d : Position) : |vertical s d| ≤ width s d :=
  (abs_mul_direction _ _ _).trans (le_max_right _ _)

theorem opposite {s d : Position} (hx : s.x ≠ d.x) (hy : s.y ≠ d.y) :
    0 < horizontal s d ∧ vertical s d < 0 ∨ horizontal s d < 0 ∧ 0 < vertical s d := by
  have hx' : s.x.toNat ≠ d.x.toNat := fun h => hx (UInt16.toNat_inj.mp h)
  have hy' : s.y.toNat ≠ d.y.toNat := fun h => hy (UInt16.toNat_inj.mp h)
  unfold horizontal vertical
  rw [direction_eq, direction_eq]
  rw [if_neg hx', if_neg hy']
  split <;> split <;> omega

theorem offset_horizontal (s d : Position) (x y : ℤ) :
    offset s d (x + direction s.x d.x) y = offset s d x y + horizontal s d := by
  unfold offset horizontal
  ring

theorem offset_vertical (s d : Position) (x y : ℤ) :
    offset s d x (y + direction s.y d.y) = offset s d x y + vertical s d := by
  unfold offset vertical
  ring

/-! ## One turn -/

/-- The walk is in the box, and near the line until one coordinate is reached. -/
structure OnLine (s d p : Position) : Prop where
  box : InBox s d p
  near : p.x ≠ d.x → p.y ≠ d.y → |offset s d p.x.toNat p.y.toNat| ≤ width s d

theorem ne_of_between {s d x : UInt16} (h : Between s.toNat d.toNat x.toNat) (hne : x ≠ d) : s ≠ d := by
  intro heq
  subst heq
  unfold Between at h
  exact hne (UInt16.toNat_inj.mp (by omega))

section Turn
variable {s d p : Position}

theorem distances (hnear : |offset s d p.x.toNat p.y.toNat| ≤ width s d) :
    ((Line.between s d).distance (p.x.toNat + direction s.x d.x) p.y.toNat).toInt =
      |offset s d p.x.toNat p.y.toNat + horizontal s d| ∧
    ((Line.between s d).distance p.x.toNat (p.y.toNat + direction s.y d.y)).toInt =
      |offset s d p.x.toNat p.y.toNat + vertical s d| ∧
    ((Line.between s d).distance (p.x.toNat + direction s.x d.x) (p.y.toNat + direction s.y d.y)).toInt =
      |offset s d p.x.toNat p.y.toNat + horizontal s d + vertical s d| := by
  have hwidth := width_lt s d
  have hhor := abs_horizontal s d
  have hver := abs_vertical s d
  have h₁ := abs_add_le (offset s d p.x.toNat p.y.toNat) (horizontal s d)
  have h₂ := abs_add_le (offset s d p.x.toNat p.y.toNat) (vertical s d)
  have h₃ := abs_add_le (offset s d p.x.toNat p.y.toNat + horizontal s d) (vertical s d)
  refine ⟨?_, ?_, ?_⟩
  · rw [distance_between] <;> rw [offset_horizontal]
    omega
  · rw [distance_between] <;> rw [offset_vertical]
    omega
  · rw [distance_between] <;> rw [offset_vertical, offset_horizontal]
    omega

theorem closer_x (h : OnLine s d p) (hx : p.x ≠ d.x) : Closer p.x (shift p.x (direction s.x d.x)) d.x :=
  closer_shift h.box.1 hx

theorem closer_y (h : OnLine s d p) (hy : p.y ≠ d.y) : Closer p.y (shift p.y (direction s.y d.y)) d.y :=
  closer_shift h.box.2 hy

theorem Closer.ne {x x' dx : UInt16} (h : Closer x x' dx) : x' ≠ x := by
  intro heq
  subst heq
  rcases h with ⟨_, h⟩ | ⟨_, h⟩ <;> omega

theorem toNat_shift {s x dx : UInt16} (hx : Between s.toNat dx.toNat x.toNat) (hne : x ≠ dx) :
    ((shift x (direction s dx)).toNat : ℤ) = x.toNat + direction s dx := by
  have hs := ne_of_between hx hne
  have hs' : s.toNat ≠ dx.toNat := fun h => hs (UInt16.toNat_inj.mp h)
  have hcloser := closer_shift hx hne
  unfold Between at hx
  unfold Closer at hcloser
  rw [direction_eq] at hcloser ⊢
  split at hcloser <;> simp_all only [if_true, if_false] <;> omega

theorem next_row (hx : p.x ≠ d.x) (hy : p.y = d.y) :
    (Line.between s d).next p = { p with x := shift p.x (direction s.x d.x) } := by
  simp [Line.next, Line.between, hx, hy]

theorem next_column (hx : p.x = d.x) (hy : p.y ≠ d.y) :
    (Line.between s d).next p = { p with y := shift p.y (direction s.y d.y) } := by
  simp [Line.next, Line.between, hx, hy]

/-- Elsewhere it takes the closest of three neighbours, but may reach the row of the
destination and move sideways at once. -/
theorem next_open (h : OnLine s d p) (hx : p.x ≠ d.x) (hy : p.y ≠ d.y) : ∃ e, e = offset s d p.x.toNat p.y.toNat ∧
    ((|e + horizontal s d| ≤ |e + vertical s d| ∧ |e + horizontal s d| ≤ |e + horizontal s d + vertical s d| ∧
      (Line.between s d).next p = { p with x := shift p.x (direction s.x d.x) }) ∨
    (|e + vertical s d| ≤ |e + horizontal s d| ∧ |e + vertical s d| ≤ |e + horizontal s d + vertical s d| ∧
      (Line.between s d).next p = { p with y := shift p.y (direction s.y d.y) }) ∨
    ((shift p.y (direction s.y d.y) = d.y ∨ |e + horizontal s d + vertical s d| ≤ |e + horizontal s d| ∧
        |e + horizontal s d + vertical s d| ≤ |e + vertical s d|) ∧
      (Line.between s d).next p =
        { p with x := shift p.x (direction s.x d.x), y := shift p.y (direction s.y d.y) })) := by
  have hnear := h.near hx hy
  obtain ⟨hhor, hver, hcross⟩ := distances hnear
  have hopp := opposite (ne_of_between h.box.1 hx) (ne_of_between h.box.2 hy)
  obtain ⟨hprogress, -⟩ := closest hopp hnear (abs_horizontal s d) (abs_vertical s d)
  refine ⟨_, rfl, ?_⟩
  have hconstants : (Line.between s d).destination = d ∧ (Line.between s d).mx = direction s.x d.x ∧
      (Line.between s d).my = direction s.y d.y := ⟨rfl, rfl, rfl⟩
  obtain ⟨hd, hmx, hmy⟩ := hconstants
  simp only [Line.next, hd, hmx, hmy, gt_iff_lt, Int32.lt_iff_toInt_lt, hhor, hver, hcross, hx, hy, ne_eq,
    not_false_eq_true, true_and, false_or]
  generalize offset s d p.x.toNat p.y.toNat = e at *
  by_cases hup : |e + vertical s d| < |e + horizontal s d| ∨
      |e + horizontal s d + vertical s d| < |e + horizontal s d|
  · simp only [if_pos hup, hx, not_false_eq_true, true_and]
    split
    · rename_i haside
      exact .inr (.inr ⟨haside.imp_right fun hc => by omega, rfl⟩)
    · rename_i hstay
      exact .inr (.inl ⟨by omega, by omega, rfl⟩)
  · rw [if_neg hup]
    have haside := hprogress.resolve_left hup
    simp only [hx, hy, not_false_eq_true, true_and, false_or]
    rw [if_pos haside]
    exact .inl ⟨by omega, by omega, rfl⟩

theorem toward_x (h : OnLine s d p) (hx : p.x ≠ d.x) : Toward d p { p with x := shift p.x (direction s.x d.x) } :=
  ⟨.inr (closer_x h hx), .inl rfl, rfl, fun heq => (closer_x h hx).ne (congrArg Position.x heq)⟩

theorem toward_y (h : OnLine s d p) (hy : p.y ≠ d.y) : Toward d p { p with y := shift p.y (direction s.y d.y) } :=
  ⟨.inl rfl, .inr (closer_y h hy), rfl, fun heq => (closer_y h hy).ne (congrArg Position.y heq)⟩

theorem toward_both (h : OnLine s d p) (hx : p.x ≠ d.x) (hy : p.y ≠ d.y) :
    Toward d p { p with x := shift p.x (direction s.x d.x), y := shift p.y (direction s.y d.y) } :=
  ⟨.inr (closer_x h hx), .inr (closer_y h hy), rfl, fun heq => (closer_x h hx).ne (congrArg Position.x heq)⟩

/-- Every turn goes one step towards the destination and stays on the line. -/
theorem next_spec (h : OnLine s d p) (hne : p.x ≠ d.x ∨ p.y ≠ d.y) :
    Toward d p ((Line.between s d).next p) ∧ OnLine s d ((Line.between s d).next p) := by
  by_cases hy : p.y = d.y
  · have hx := hne.resolve_right fun hn => hn hy
    have htoward := toward_x h hx
    rw [next_row hx hy]
    exact ⟨htoward, htoward.inBox h.box, fun _ hy' => absurd hy hy'⟩
  by_cases hx : p.x = d.x
  · have htoward := toward_y h hy
    rw [next_column hx hy]
    exact ⟨htoward, htoward.inBox h.box, fun hx' _ => absurd hx hx'⟩
  have hnear := h.near hx hy
  have hopp := opposite (ne_of_between h.box.1 hx) (ne_of_between h.box.2 hy)
  obtain ⟨-, hsideways, hup, hcross⟩ := closest hopp hnear (abs_horizontal s d) (abs_vertical s d)
  have hxs := toNat_shift h.box.1 hx
  have hys := toNat_shift h.box.2 hy
  obtain ⟨e, rfl, ⟨h₁, h₂, heq⟩ | ⟨h₁, h₂, heq⟩ | ⟨hreach, heq⟩⟩ := next_open h hx hy
  · have htoward := toward_x h hx
    rw [heq]
    refine ⟨htoward, htoward.inBox h.box, fun _ _ => ?_⟩
    dsimp only
    rw [hxs, offset_horizontal]
    exact hsideways h₁ h₂
  · have htoward := toward_y h hy
    rw [heq]
    refine ⟨htoward, htoward.inBox h.box, fun _ _ => ?_⟩
    dsimp only
    rw [hys, offset_vertical]
    exact hup h₁ h₂
  · have htoward := toward_both h hx hy
    rw [heq]
    refine ⟨htoward, htoward.inBox h.box, fun _ hy' => ?_⟩
    obtain ⟨h₁, h₂⟩ := hreach.resolve_left hy'
    dsimp only
    rw [hxs, hys, offset_vertical, offset_horizontal]
    exact hcross h₁ h₂

end Turn

/-! ## The whole walk -/

/-- What a walk from `p` to `d` looks like: the squares that it tests, and where it ends. -/
structure Walk (world : World) (s d p : Position) (tested : List Position) (ending : Option Position) :
    Prop where
  steps : List.IsChain (Toward d) (p :: tested)
  length : tested.length ≤ remaining p d
  box : ∀ q ∈ tested, InBox s d q
  stopped : ending = none → ∃ q, tested.getLast? = some q ∧ blocked world q = true
  arrived : ∀ e, ending = some e → (p :: tested).getLast? = some e ∧ e.x = d.x ∧ e.y = d.y ∧ e.z = p.z ∧
    ∀ q ∈ tested, blocked world q = false

section Loop
variable {world : World} {s d p : Position}

theorem walk_nil (hx : p.x = d.x) (hy : p.y = d.y) : Walk world s d p [] (some p) where
  steps := .singleton p
  length := Nat.zero_le _
  box q hq := by cases hq
  stopped h := by cases h
  arrived e he := by
    cases he
    exact ⟨rfl, hx, hy, rfl, fun q hq => by cases hq⟩

theorem walk_blocked {q : Position} (h : Toward d p q) (hbox : InBox s d q) (hq : blocked world q = true) :
    Walk world s d p [q] none where
  steps := .cons_cons h (.singleton q)
  length := Nat.succ_le_of_lt ((Nat.zero_le _).trans_lt h.remaining_lt)
  box q' hq' := by
    rw [List.mem_singleton.mp hq']
    exact hbox
  stopped _ := ⟨q, rfl, hq⟩
  arrived e he := by cases he

theorem walk_cons {q : Position} {tested : List Position} {ending : Option Position} (h : Toward d p q)
    (hbox : InBox s d q) (hq : blocked world q = false) (hwalk : Walk world s d q tested ending) :
    Walk world s d p (q :: tested) ending where
  steps := .cons_cons h hwalk.steps
  length := (Nat.succ_le_succ hwalk.length).trans h.remaining_lt
  box q' hq' := by
    rcases List.mem_cons.mp hq' with rfl | hq'
    · exact hbox
    · exact hwalk.box q' hq'
  stopped hnone := by
    obtain ⟨q', hlast, hblocked⟩ := hwalk.stopped hnone
    exact ⟨q', by rw [List.getLast?_cons, hlast, Option.getD_some], hblocked⟩
  arrived e he := by
    obtain ⟨hlast, hx, hy, hz, hfree⟩ := hwalk.arrived e he
    refine ⟨by rw [List.getLast?_cons, hlast, Option.getD_some], hx, hy, hz.trans h.z, fun q' hq' => ?_⟩
    rcases List.mem_cons.mp hq' with rfl | hq'
    · exact hq
    · exact hfree q' hq'

theorem sightLoop_walk (fuel : ℕ) (h : OnLine s d p) (hfuel : remaining p d ≤ fuel) :
    ∃ tested ending, sightLoop world (.between s d) fuel p = some (tested, ending) ∧
      Walk world s d p tested ending := by
  have hd : (Line.between s d).destination = d := rfl
  induction fuel generalizing p with
  | zero =>
    have hx : p.x = d.x := UInt16.toNat_inj.mp (by unfold remaining at hfuel; omega)
    have hy : p.y = d.y := UInt16.toNat_inj.mp (by unfold remaining at hfuel; omega)
    exact ⟨[], some p, by rw [sightLoop, hd, if_neg (by simp [hx, hy])], walk_nil hx hy⟩
  | succ fuel ih =>
    by_cases hne : p.x ≠ d.x ∨ p.y ≠ d.y
    · obtain ⟨htoward, hline⟩ := next_spec h hne
      have hloop := sightLoop.eq_def world (.between s d) (fuel + 1) p
      rw [hd, if_pos hne] at hloop
      dsimp only at hloop
      cases hb : blocked world ((Line.between s d).next p) with
      | true =>
        refine ⟨_, none, ?_, walk_blocked htoward hline.box hb⟩
        rw [hloop, hb, if_pos rfl]
      | false =>
        have hless := htoward.remaining_lt
        obtain ⟨tested, ending, hrest, hwalk⟩ := ih hline (by omega)
        refine ⟨_, ending, ?_, walk_cons htoward hline.box hb hwalk⟩
        rw [hloop, hb, if_neg Bool.false_ne_true, hrest]
        rfl
    · obtain ⟨hx, hy⟩ := not_or.mp hne
      refine ⟨[], some p, ?_, walk_nil (not_not.mp hx) (not_not.mp hy)⟩
      rw [sightLoop.eq_def, hd, if_neg hne]

theorem onLine_start (s d : Position) : OnLine s d s := by
  have hx := UInt16.toNat_lt s.x
  refine ⟨⟨by unfold Between; omega, by unfold Between; omega⟩, fun _ _ => ?_⟩
  have hzero : offset s d s.x.toNat s.y.toNat = 0 := by
    unfold offset
    ring
  rw [hzero, abs_zero]
  exact le_max_of_le_left (abs_nonneg _)

theorem floorLoop_ends (world : World) (destination : UInt8) (fuel : ℕ) {p : Position} (hz : p.z ≤ destination)
    (hfuel : destination.toNat - p.z.toNat ≤ fuel) : ∃ clear, floorLoop world destination fuel p = some clear := by
  induction fuel generalizing p with
  | zero =>
    have hle := UInt8.le_iff_toNat_le.mp hz
    have heq : p.z = destination := UInt8.toNat_inj.mp (by omega)
    exact ⟨true, by rw [floorLoop, if_neg (not_not.mpr heq)]⟩
  | succ fuel ih =>
    rw [floorLoop.eq_def]
    split
    · rename_i hne
      have hle := UInt8.le_iff_toNat_le.mp hz
      have hne' : p.z.toNat ≠ destination.toNat := fun heq => hne (UInt8.toNat_inj.mp heq)
      have hsmall := UInt8.toNat_lt destination
      have hnext : (p.z + 1).toNat = p.z.toNat + 1 := by
        rw [UInt8.toNat_add, UInt8.toNat_one]
        omega
      dsimp only
      split
      · exact ⟨false, rfl⟩
      · exact ih (UInt8.le_iff_toNat_le.mpr (by dsimp only; omega)) (by dsimp only; omega)
    · exact ⟨true, rfl⟩

end Loop

/-- For every map and all positions: the walk of `checkSightLine` ends after as many turns at
most as the coordinates differ, at the destination unless a square blocks it. Each square
is a step by one towards the destination from the one before and lies in the box of the
two positions. The floors below end as well, and with them the function. -/
theorem sight_line_ends (world : World) (fromPos toPos : Position) (fuel : ℕ)
    (hfuel : remaining fromPos toPos + 255 ≤ fuel) :
    (∃ tested ending, sightLoop world (.between (ends fromPos toPos).1 (ends fromPos toPos).2)
        (remaining fromPos toPos) (ends fromPos toPos).1 = some (tested, ending) ∧
      Walk world (ends fromPos toPos).1 (ends fromPos toPos).2 (ends fromPos toPos).1 tested ending) ∧
    ∃ clear, checkSightLine world fuel fromPos toPos = some clear := by
  have hsymm : remaining (ends fromPos toPos).1 (ends fromPos toPos).2 = remaining fromPos toPos := by
    unfold ends remaining
    split
    · dsimp only
      omega
    · rfl
  have hfloors : (ends fromPos toPos).1.z ≤ (ends fromPos toPos).2.z := by
    unfold ends
    split
    · rename_i hgt
      exact UInt8.le_of_lt hgt
    · rename_i hle
      exact UInt8.not_lt.mp hle
  have hline := onLine_start (ends fromPos toPos).1 (ends fromPos toPos).2
  refine ⟨sightLoop_walk _ hline hsymm.le, ?_⟩
  unfold checkSightLine
  split
  · exact ⟨true, rfl⟩
  · obtain ⟨tested, ending, hloop, hwalk⟩ := @sightLoop_walk world _ _ _ fuel hline (by omega)
    dsimp only
    rw [hloop, Option.bind_some]
    cases ending with
    | none => exact ⟨false, rfl⟩
    | some e =>
      have hz := (hwalk.arrived e rfl).2.2.2.1
      have hsmall := UInt8.toNat_lt (ends fromPos toPos).2.z
      exact floorLoop_ends world _ fuel (by rw [hz]; exact hfloors) (by omega)

/-- From one side of the map to the other with nothing between. -/
theorem sight_line_ends_far : (∃ tested ending, sightLoop (fun _ => none) (.between (ends ⟨0, 0, 7⟩ ⟨65535, 1, 6⟩).1
        (ends ⟨0, 0, 7⟩ ⟨65535, 1, 6⟩).2) (remaining ⟨0, 0, 7⟩ ⟨65535, 1, 6⟩)
        (ends ⟨0, 0, 7⟩ ⟨65535, 1, 6⟩).1 = some (tested, ending) ∧
      Walk (fun _ => none) (ends ⟨0, 0, 7⟩ ⟨65535, 1, 6⟩).1 (ends ⟨0, 0, 7⟩ ⟨65535, 1, 6⟩).2
        (ends ⟨0, 0, 7⟩ ⟨65535, 1, 6⟩).1 tested ending) ∧
    ∃ clear, checkSightLine (fun _ => none) 65791 ⟨0, 0, 7⟩ ⟨65535, 1, 6⟩ = some clear :=
  sight_line_ends (fun _ => none) ⟨0, 0, 7⟩ ⟨65535, 1, 6⟩ 65791 (by decide)

end ForgottenServer.Maps.SightLine
