import ForgottenServer.Things.Move

/-! # Adding an item

`Game::internalAddItem`, for an item that lies nowhere yet. A null dereference
ends the process: the result is then `none`. -/
namespace ForgottenServer.Things

/-- What a call returns: the answer, the world after it and what is written to
`remainderCount`. The overload without that argument drops the last. -/
structure Added where
  ret : ReturnValue
  world : World
  remainderCount : ℕ := 0

namespace World
variable (rules : Rules) (w : World)

/-- The checks: the place takes the item, and the original cylinder all of it. -/
def checkPlace (destCylinder : Cylinder) (d : Destination) (r : ℕ) : ReturnValue × ℕ :=
  let count := (w.item r).count
  let ret := w.queryAdd rules d.cylinder d.index r count d.flags false
  if ret ≠ .noError then (ret, 0)
  else w.queryMaxCount rules destCylinder whereEver r count d.flags

/-- The stack at the place that takes some of the item. -/
def mergesWith (d : Destination) (r : ℕ) : Option ℕ :=
  d.toItem.filter fun y => w.isStackable rules r && (w.item r).equals (w.item y)

/-- The item itself is put at the place. -/
def putThing (d : Destination) (r : ℕ) : World :=
  let w := w.addThing rules d.cylinder d.index r
  if w.hasThing rules d.cylinder r then w.notify rules d.cylinder else w

/-- The whole item went into the stack `y`. -/
def afterMerge (d : Destination) (y : ℕ) : World :=
  if w.hasThing rules d.cylinder y then w.notify rules d.cylinder else w

/-- An item with a duration starts to decay, be it in a place or not. -/
def beginDecay (r : ℕ) : World :=
  w.setItem r (Item.lift fun x => if 0 < x.getDuration then x.setDecaying .decayingTrue else x)

/-- Where one call puts the item. -/
def placeOf (destCylinder : Cylinder) (r : ℕ) (index : ℤ) (flags : Flags) : Destination :=
  w.queryDestination rules r { cylinder := destCylinder, index, flags }

/-- The rounds of `Game::internalAddItem`: what a stack leaves over is a new item
that is added by another call. A round leaves less than it was given, so there
are at most as many as the item has units. -/
def addRounds : ℕ → World → Cylinder → ℕ → ℤ → Flags → Bool → Option Added
  | 0, _, _, _, _, _, _ => none
  | fuel + 1, w, destCylinder, r, index, flags, test =>
    let d := w.placeOf rules destCylinder r index flags
    let (ret, maxQueryCount) := w.checkPlace rules destCylinder d r
    if ret ≠ .noError then some { ret, world := w }
    else if test then some { ret := .noError, world := w }
    else match w.mergesWith rules d r with
      | some y =>
        let m := min (w.item r).count maxQueryCount
        let n := w.mergeCount (some y) m
        let w := w.merge rules d.cylinder (some y) n
        let count := m - n
        if 0 < count then
          if (w.item r).count ≠ count then
            (w.cloneItem rules r count).bind fun w' =>
              (addRounds fuel w' destCylinder w.next whereEver d.flags false).map fun rest =>
                { ret := .noError, world := rest.world.beginDecay r
                  remainderCount := if rest.ret ≠ .noError then count else 0 }
          else some { ret := .noError, world := (w.putThing rules d r).beginDecay r }
        else some { ret := .noError, world := (w.afterMerge rules d y).beginDecay r }
      | none => some { ret := .noError, world := (w.putThing rules d r).beginDecay r }

/-- `Game::internalAddItem`. -/
def internalAddItem (toCylinder : Cylinder) (r : ℕ) (index : ℤ) (flags : Flags) (test : Bool) : Option Added :=
  addRounds rules ((w.item r).count + 1) w toCylinder r index flags test

end World
end ForgottenServer.Things
