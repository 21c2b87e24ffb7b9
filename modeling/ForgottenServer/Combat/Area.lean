import ForgottenServer.Lib.Grid
import ForgottenServer.Maps.Path
import ForgottenServer.Maps.Query

/-! # Areas of combat

A pattern of rows and columns is copied for each direction: turned for the straight
ones, mirrored and flipped for the others. `none` stands for a write outside the
output matrix and for an overflow of `int`, which C++ leaves undefined. Sine and
cosine of multiples of 90 degrees are exact. -/
namespace ForgottenServer.Combat
open ForgottenServer.Lib.Grid
open ForgottenServer.Maps (Direction IsInt addInt int32)

def uint32 (n : ℤ) : ℕ := (n % 2 ^ 32).toNat

structure MatrixArea where
  rows : ℕ := 0
  cols : ℕ := 0
  centerX : ℕ := 0
  centerY : ℕ := 0
  /-- `data_[row][col]`, zero at first -/
  data : ℤ × ℤ → Bool := fun _ => false

namespace MatrixArea

def inside (m : MatrixArea) (p : ℤ × ℤ) : Bool := 0 ≤ p.1 ∧ p.1 < m.rows ∧ 0 ≤ p.2 ∧ p.2 < m.cols

def setCenter (m : MatrixArea) (y x : ℕ) : MatrixArea := { m with centerX := x, centerY := y }

/-- Assignments to cells. -/
def write (m : MatrixArea) (ws : List ((ℤ × ℤ) × Bool)) : Option MatrixArea :=
  (writes m.inside m.data ws).map fun data => { m with data }

def setValue (m : MatrixArea) (row col : ℕ) (value : Bool) : Option MatrixArea :=
  m.write [((row, col), value)]

end MatrixArea

inductive MatrixOperation
  | copy | mirror | flip | rotate90 | rotate180 | rotate270
  deriving DecidableEq, Repr

/-- The values of `x` in `for (int32_t x = n; --x >= 0;)`, for a `uint32_t` `n`. -/
def countdown (n : ℕ) : Option (List ℕ) :=
  if int32 n = -2 ^ 31 then none else some (List.range (int32 n).toNat).reverse

/-- Cosine and sine of the angle. -/
def MatrixOperation.turn : MatrixOperation → ℤ × ℤ
  | .rotate90 => (0, 1)
  | .rotate180 => (-1, 0)
  | .rotate270 => (0, -1)
  | _ => (1, 0)

def toInt (n : ℤ) : Option ℤ := if IsInt n then some n else none

def rotatedCell (input : MatrixArea) (rotateCenterX rotateCenterY : ℤ) (op : MatrixOperation) (x y : ℕ) :
    Option (ℤ × ℤ) := do
  let newX := int32 (x - input.centerX)
  let newY := int32 (y - input.centerY)
  let (cos, sin) := op.turn
  let rotatedX ← toInt (newX * cos + newY * -sin)
  let rotatedY ← toInt (newX * sin + newY * cos)
  let row ← addInt rotatedY rotateCenterY
  let col ← addInt rotatedX rotateCenterX
  -- the row is passed as `uint32_t`
  return (uint32 row, col)

def copyArea (input output : MatrixArea) (op : MatrixOperation) : Option MatrixArea :=
  match op with
  | .copy => do
    let output ← output.write ((List.range input.rows).flatMap fun y =>
      (List.range input.cols).map fun x => ((↑y, ↑x), input.data (y, x)))
    return output.setCenter input.centerY input.centerX
  | .mirror => do
    let xs ← countdown input.cols
    let output ← output.write ((List.range input.rows).flatMap fun y =>
      xs.zipIdx.map fun (x, rx) => ((↑y, ↑rx), input.data (y, x)))
    return output.setCenter input.centerY (uint32 (input.rows - 1 - input.centerX))
  | .flip => do
    let ys ← countdown input.rows
    let output ← output.write ((List.range input.cols).flatMap fun x =>
      ys.zipIdx.map fun (y, ry) => ((↑ry, ↑x), input.data (y, x)))
    return output.setCenter (uint32 (input.cols - 1 - input.centerY)) input.centerX
  | _ => do
    let rotateCenterX := int32 ((output.cols / 2 : ℕ) - 1)
    let rotateCenterY := int32 ((output.rows / 2 : ℕ) - 1)
    let ws ← ((List.range input.cols).flatMap fun x =>
      (List.range input.rows).map fun y => (x, y)).mapM fun (x, y) => do
        let cell ← rotatedCell input rotateCenterX rotateCenterY op x y
        return (cell, input.data (y, x))
    let output ← output.write ws
    return output.setCenter (uint32 rotateCenterY) (uint32 rotateCenterX)

/-- The loop of `createArea`. -/
def fillArea (area : MatrixArea) : ℕ → ℕ → List ℕ → Option MatrixArea
  | _, _, [] => some area
  | x, y, value :: list => do
    let area ← if value = 1 ∨ value = 3 then area.setValue y x true else some area
    let area := if value = 2 ∨ value = 3 then area.setCenter y x else area
    if area.cols = x + 1 then fillArea area 0 (y + 1) list else fillArea area (x + 1) y list

def createArea (list : List ℕ) (rows : ℕ) : Option MatrixArea :=
  fillArea { rows, cols := if rows = 0 then 0 else uint32 ((list.length / rows : ℕ) : ℤ) } 0 0 list

structure AreaCombat where
  areas : Direction → Option MatrixArea := fun _ => none
  hasExtArea : Bool := false

namespace AreaCombat

/-- `areas[dir] = area`. -/
def set (ac : AreaCombat) (dir : Direction) (area : MatrixArea) : AreaCombat :=
  { ac with areas := Function.update ac.areas dir (some area) }

/-- The size of the matrices that `area` is copied to. -/
def maxOutput (area : MatrixArea) : ℕ := uint32 ((max area.cols area.rows : ℕ) * 2)

/-- A new matrix with a copy of `area`. -/
def copied (area : MatrixArea) (size : ℕ) (op : MatrixOperation) : Option MatrixArea :=
  copyArea area { rows := size, cols := size } op

def setupArea (ac : AreaCombat) (list : List ℕ) (rows : ℕ) : Option AreaCombat := do
  let area ← createArea list rows
  let southArea ← copied area (maxOutput area) .rotate180
  let ac := ac.set .south southArea
  let eastArea ← copied area (maxOutput area) .rotate90
  let ac := ac.set .east eastArea
  let westArea ← copied area (maxOutput area) .rotate270
  let ac := ac.set .west westArea
  return ac.set .north area

def setupExtArea (ac : AreaCombat) (list : List ℕ) (rows : ℕ) : Option AreaCombat :=
  if list.isEmpty then some ac
  else do
    let ac := { ac with hasExtArea := true }
    let area ← createArea list rows
    let neArea ← copied area (maxOutput area) .mirror
    let ac := ac.set .northeast neArea
    let swArea ← copied area (maxOutput area) .flip
    let seArea ← copied swArea (maxOutput area) .mirror
    let ac := ac.set .southeast seArea
    let ac := ac.set .southwest swArea
    return ac.set .northwest area

end AreaCombat
end ForgottenServer.Combat
