import ForgottenServer.Things.Changes

/-! # Moving an item

`Game::internalMoveItem`. The source is the tile where it is a browse field. A
null dereference ends the process: the result is then `none`. -/
namespace ForgottenServer.Things
namespace World
variable (rules : Rules) (w : World)

/-- `MAP_MAX_LAYERS`. -/
def mapMaxLayers : ℕ := 16

/-- Follow `queryDestination` until a cylinder names itself. -/
def findDestination (r : ℕ) : ℕ → Destination → Destination
  | 0, d => d
  | fuel + 1, d =>
    let d' := w.queryDestination rules r d
    if d'.cylinder = d.cylinder then d'
    else findDestination r fuel { d' with flags := {} }

/-- The item in the way is put where the moved one comes from. -/
def swapOut (fromCylinder toCylinder : Cylinder) (toItem : ℕ) : World :=
  let w := w.removeThing rules toCylinder toItem (w.item toItem).count
  let w := w.addThing rules fromCylinder 0 toItem
  let w := w.notify rules toCylinder
  if w.hasThing rules fromCylinder toItem then w.notify rules fromCylinder else w

/-- The exchange goes through: the source takes the item in the way, and that one can be removed. -/
def canExchange (fromCylinder : Cylinder) (d : Destination) (r toItem : ℕ) (actor : Bool) : ReturnValue × Bool :=
  let count := (w.item toItem).count
  let ret := w.queryAdd rules fromCylinder (w.getThingIndex rules fromCylinder r) toItem count {} false
  if ret ≠ .noError then (ret, false)
  else
    let (retMaxCount, maxQueryCount) := w.queryMaxCount rules fromCylinder whereEver toItem count {}
    if retMaxCount ≠ .noError ∧ maxQueryCount = 0 then (retMaxCount, false)
    else (.noError, w.queryRemove rules d.cylinder toItem count d.flags actor = .noError)

/-- The check that the item can be added, with the exchange: the answer, the
world and the item at the destination. -/
def checkAdd (fromCylinder : Cylinder) (d : Destination) (r count : ℕ) (actor : Bool) :
    Option (ReturnValue × World × Option ℕ) :=
  let ret := w.queryAdd rules d.cylinder d.index r count d.flags actor
  if ret ≠ .needExchange then some (ret, w, d.toItem)
  else d.toItem.map fun toItem =>
    let (ret, exchange) := w.canExchange rules fromCylinder d r toItem actor
    if exchange then
      let w := w.swapOut rules fromCylinder d.cylinder toItem
      (w.queryAdd rules d.cylinder d.index r count d.flags false, w, none)
    else (ret, w, some toItem)

/-- The cylinder is the item that is traded or lies in it. -/
def isInTradeItem (tradeItem : Option ℕ) (c : Cylinder) : Bool :=
  tradeItem.any fun x => .container x ∈ c :: w.ancestors w.depth c

/-- `clone`, with a count of its own; the new item has the reference `next`. -/
def cloneItem (r count : ℕ) : Option World :=
  let x := w.item r
  let items := fun id => (rules.items id).toItemType
  (Decay.Item.copy items { id := x.id, count := x.count, attributes := x.attributes }).map fun y =>
    let y := if x.attributes.isSome ∧ 0 < y.getDuration then y.setDecaying .decayingTrue else y
    { w with
      item := Function.update w.item w.next { id := y.id, count := count % 2 ^ 8, attributes := y.attributes }
      next := w.next + 1 }

/-- How many of `m` items an equal stack takes; `100 - count` is unsigned. -/
def mergeCount (updateItem : Option ℕ) (m : ℕ) : ℕ :=
  match updateItem with
  | some y => min ((100 - (w.item y).count : ℤ) % 2 ^ 32).toNat m
  | none => 0

def merge (toCylinder : Cylinder) (updateItem : Option ℕ) (n : ℕ) : World :=
  match updateItem with
  | some y => w.updateThing rules toCylinder y (w.item y).id ((w.item y).count + n)
  | none => w

/-- The rest is a stack of its own: the world, the item to add and the stack that took some. -/
def cloneRest (r n : ℕ) (updateItem : Option ℕ) : Option (World × Option ℕ × Option ℕ) :=
  if 0 < n then (w.cloneItem rules r n).map fun w' => (w', some w.next, updateItem)
  else some (w, none, updateItem)

/-- What comes of the `m` items that were taken from a stack. -/
def restack (toCylinder : Cylinder) (toItem : Option ℕ) (r m : ℕ) : Option (World × Option ℕ × Option ℕ) :=
  let updateItem := toItem.filter fun y => (w.item r).equals (w.item y)
  let n := w.mergeCount updateItem m
  (w.merge rules toCylinder updateItem n).cloneRest rules r (m - n) updateItem

def addMoved (toCylinder : Cylinder) (index : ℤ) (moveItem : Option ℕ) : World :=
  match moveItem with
  | some x => w.addThing rules toCylinder index x
  | none => w

/-- The notifications and the start of the decay at the end of a move. -/
def afterMove (fromCylinder toCylinder : Cylinder) (moveItem updateItem : Option ℕ) : World :=
  let w := w.notify rules fromCylinder
  let w := if moveItem.any (w.hasThing rules toCylinder) then w.notify rules toCylinder else w
  if updateItem.any (w.hasThing rules toCylinder) then w.notify rules toCylinder else w

def startDecay (moveItem : Option ℕ) : World :=
  match moveItem with
  | some x =>
    w.setItem x (Item.lift fun y =>
      if 0 < y.getDuration ∧ y.getDecaying ≠ .decayingTrue then y.setDecaying .decayingTrue else y)
  | none => w

/-- The removal and the addition. -/
def transfer (fromCylinder : Cylinder) (d : Destination) (r m : ℕ) : Option (World × Option ℕ) :=
  let stackable := w.isStackable rules r
  let w := w.removeThing rules fromCylinder r m
  let stacked := if stackable then w.restack rules d.cylinder d.toItem r m else some (w, some r, none)
  stacked.map fun (w, moveItem, updateItem) =>
    let w := w.addMoved rules d.cylinder d.index moveItem
    (w.afterMove rules fromCylinder d.cylinder moveItem updateItem, moveItem)

/-- How much is moved when `maxQueryCount` fits. -/
def movedCount (r count maxQueryCount : ℕ) : ℕ :=
  if w.isStackable rules r then min count maxQueryCount else maxQueryCount

/-- The part of `internalMoveItem` after the checks of `checkAdd`. -/
def moveChecked (fromCylinder : Cylinder) (d : Destination) (r count : ℕ) (actor : Bool)
    (tradeItem : Option ℕ) : Option (ReturnValue × World) :=
  let (retMaxCount, maxQueryCount) := w.queryMaxCount rules d.cylinder d.index r count d.flags
  if retMaxCount ≠ .noError ∧ maxQueryCount = 0 then some (retMaxCount, w)
  else
    let m := w.movedCount rules r count maxQueryCount
    let ret := w.queryRemove rules fromCylinder r m d.flags actor
    if ret ≠ .noError then some (ret, w)
    else if w.isInTradeItem tradeItem d.cylinder then some (.notEnoughRoom, w)
    else (w.transfer rules fromCylinder d r m).map fun (w', moveItem) =>
      if w.isStackable rules r ∧ maxQueryCount < count then (retMaxCount, w')
      else (.noError, w'.startDecay moveItem)

/-- The arguments of `internalMoveItem`. -/
structure Request where
  fromCylinder : Cylinder
  toCylinder : Cylinder
  index : ℤ := whereEver
  item : ℕ
  count : ℕ := 1
  flags : Flags := {}
  /-- an actor is named -/
  actor : Bool := false
  tradeItem : Option ℕ := none
  /-- what the event `onMoveItem` answers, where it is asked -/
  onMoveItem : Bool := true

/-- Where the item goes to. -/
def destination (q : Request) : Destination :=
  w.findDestination rules q.item mapMaxLayers { cylinder := q.toCylinder, index := q.index, flags := q.flags }

/-- `Game::internalMoveItem`. -/
def internalMoveItem (q : Request) : Option (ReturnValue × World) :=
  let d := w.destination rules q
  if !q.onMoveItem then some (.notPossible, w)
  else if d.toItem = some q.item then some (.noError, w)
  else (w.checkAdd rules q.fromCylinder d q.item q.count q.actor).bind fun (ret, w, toItem) =>
    if ret ≠ .noError then some (ret, w)
    else w.moveChecked rules q.fromCylinder { d with toItem } q.item q.count q.actor q.tradeItem

/-! ## Failed moves -/

/-- The item in the way is put where the moved one comes from. -/
def exchanges (q : Request) : Bool :=
  let d := w.destination rules q
  w.queryAdd rules d.cylinder d.index q.item q.count d.flags q.actor = .needExchange &&
    d.toItem.any fun toItem => (w.canExchange rules q.fromCylinder d q.item toItem q.actor).2

/-- The world in which the item in the way has been exchanged, where it is. -/
def exchanged (q : Request) : World :=
  let d := w.destination rules q
  match d.toItem with
  | some y =>
    if q.onMoveItem ∧ y ≠ q.item ∧ w.exchanges rules q then w.swapOut rules q.fromCylinder d.cylinder y
    else w
  | none => w

/-- Where the item goes to after an exchange. -/
def landing (q : Request) : Destination :=
  let d := w.destination rules q
  if w.exchanges rules q then { d with toItem := none } else d

/-- The event and `queryAdd` let the item in. -/
def admits (q : Request) : Bool :=
  q.onMoveItem && (w.checkAdd rules q.fromCylinder (w.destination rules q) q.item q.count q.actor).any
    fun answer => answer.1 = .noError

/-- What `queryMaxCount` answers: `retMaxCount` and `maxQueryCount`. -/
def maxCount (q : Request) : ReturnValue × ℕ :=
  let d := w.landing rules q
  (w.exchanged rules q).queryMaxCount rules d.cylinder d.index q.item q.count d.flags

/-- Only a part of the stack finds room, and nothing keeps that part from going. -/
def movesPart (q : Request) : Bool :=
  let d := w.landing rules q
  let fits := (w.maxCount rules q).2
  let w' := w.exchanged rules q
  w.admits rules q && w'.isStackable rules q.item && 0 < fits && fits < q.count &&
    w'.queryRemove rules q.fromCylinder q.item fits d.flags q.actor = .noError &&
    !w'.isInTradeItem q.tradeItem d.cylinder

variable {rules w}

theorem checkAdd_spec {q : Request} {ret : ReturnValue} {w' : World} {toItem : Option ℕ}
    (hmove : q.onMoveItem = true) (hself : (w.destination rules q).toItem ≠ some q.item)
    (h : w.checkAdd rules q.fromCylinder (w.destination rules q) q.item q.count q.actor = some (ret, w', toItem)) :
    w' = w.exchanged rules q ∧ { w.destination rules q with toItem } = w.landing rules q := by
  unfold exchanged landing exchanges
  unfold checkAdd at h
  generalize w.destination rules q = d at h hself
  dsimp only at h ⊢
  split at h
  · rename_i hneed
    cases h
    simp only [hneed, decide_false, Bool.false_and, Bool.false_eq_true, and_false, if_false, and_true]
    split <;> rfl
  · rename_i hneed
    obtain ⟨y, hy, heq⟩ := Option.map_eq_some_iff.mp h
    rw [hy] at hself
    have hne : y ≠ q.item := fun e => hself (congrArg some e)
    simp only [not_not.mp hneed, hy, decide_true, Bool.true_and, Option.any_some, hmove, hne,
      ne_eq, not_false_eq_true, true_and]
    split at heq
    · rename_i hcan
      cases heq
      simp [hcan]
    · rename_i hcan
      cases heq
      simp [hcan, ← hy]

/-- After the checks a failed move changes nothing, unless it moves a part. -/
theorem moveChecked_failed {c : Cylinder} {d : Destination} {r count : ℕ} {actor : Bool}
    {tradeItem : Option ℕ} {ret : ReturnValue} {w' : World}
    (h : w.moveChecked rules c d r count actor tradeItem = some (ret, w')) (hret : ret ≠ .noError) :
    let answer := w.queryMaxCount rules d.cylinder d.index r count d.flags
    if w.isStackable rules r && 0 < answer.2 && answer.2 < count &&
        w.queryRemove rules c r answer.2 d.flags actor = .noError &&
        !w.isInTradeItem tradeItem d.cylinder then
      ret = answer.1 ∧ ∃ moveItem, w.transfer rules c d r answer.2 = some (w', moveItem)
    else w' = w := by
  unfold moveChecked at h
  generalize w.queryMaxCount rules d.cylinder d.index r count d.flags = answer at h
  obtain ⟨retMaxCount, fits⟩ := answer
  dsimp only at h ⊢
  have hpart : w.isStackable rules r = true → fits < count →
      w.movedCount rules r count fits = fits := fun hstack hless => by
    rw [movedCount, if_pos hstack, min_eq_right hless.le]
  split at h
  · -- nothing fits
    rename_i hzero
    cases h
    simp [hzero.2]
  split at h
  · rename_i hremove
    cases h
    rw [if_neg]
    simp only [Bool.and_eq_true, decide_eq_true_eq]
    rintro ⟨⟨⟨⟨hstack, -⟩, hless⟩, hgoes⟩, -⟩
    rw [hpart hstack hless] at hremove
    exact hremove hgoes
  rename_i hremove
  split at h
  · rename_i htrade
    cases h
    simp [htrade]
  rename_i htrade
  obtain ⟨⟨w₁, moveItem⟩, htransfer, heq⟩ := Option.map_eq_some_iff.mp h
  dsimp only at heq
  split at heq
  · rename_i hless
    cases heq
    rw [hpart hless.1 hless.2] at hremove htransfer
    have hpos : 0 < fits := by
      by_contra hzero
      rw [Nat.eq_zero_of_not_pos hzero] at hremove
      exact queryRemove_zero c r d.flags actor (not_not.mp hremove)
    rw [if_pos (by simp [hless.1, hless.2, hpos, not_not.mp hremove, htrade])]
    exact ⟨rfl, moveItem, htransfer⟩
  · cases heq
    exact absurd rfl hret

/-- A failed move changes nothing but what it exchanges, unless a part of a
stack goes: then that part has been moved, and the answer is that of `queryMaxCount`. -/
theorem failed_move_changes_nothing {q : Request} {ret : ReturnValue} {w' : World}
    (h : w.internalMoveItem rules q = some (ret, w')) (hret : ret ≠ .noError) :
    if w.movesPart rules q then
      ret = (w.maxCount rules q).1 ∧ ∃ moveItem,
        (w.exchanged rules q).transfer rules q.fromCylinder (w.landing rules q) q.item
          (w.maxCount rules q).2 = some (w', moveItem)
    else w' = w.exchanged rules q := by
  unfold internalMoveItem at h
  dsimp only at h
  split at h
  · rename_i hmove
    cases h
    have hmove : q.onMoveItem = false := by simpa using hmove
    rw [if_neg (by simp [movesPart, admits, hmove]), exchanged]
    split
    · rw [if_neg (by simp [hmove])]
    · rfl
  rename_i hmove
  split at h
  · cases h
    exact absurd rfl hret
  rename_i hself
  obtain ⟨⟨ret₁, w₁, toItem⟩, hcheck, hrest⟩ := Option.bind_eq_some_iff.mp h
  dsimp only at hrest
  have hmove : q.onMoveItem = true := by simpa using hmove
  obtain ⟨hworld, hland⟩ := checkAdd_spec hmove hself hcheck
  have hadmits : w.admits rules q = decide (ret₁ = .noError) := by
    simp [admits, hmove, hcheck]
  split at hrest
  · rename_i hrefused
    cases hrest
    rw [if_neg (by simp [movesPart, hadmits, hrefused])]
    exact hworld
  · rename_i hin
    rw [hland, hworld] at hrest
    have hspec := moveChecked_failed hrest hret
    unfold movesPart
    rw [hadmits, decide_eq_true (not_not.mp hin)]
    simp only [Bool.true_and]
    exact hspec

def bagsAndGold : Rules where
  items id := if id = 2148 then { id := 2148, stackable := true } else { id, group := .container }

/-- A full bag with half a stack of gold, and another bag with a whole stack. -/
def twoBags : World where
  item
    | 0 => { id := 1987, container := some { itemlist := [1], maxSize := 1 } }
    | 1 => { id := 2148, count := 50, parent := some (.container 0) }
    | 2 => { id := 1987, container := some { itemlist := [3] } }
    | 3 => { id := 2148, count := 100, parent := some (.container 2) }
    | _ => { id := 0 }
  player _ := { inventory := fun _ => none }
  tile _ := {}
  next := 4

theorem failed_move_changes_nothing_bag_into_itself : ∃ w',
    twoBags.internalMoveItem bagsAndGold { fromCylinder := .tile 0, toCylinder := .container 0, item := 0 } =
      some (.thisIsImpossible, w') ∧ w' = twoBags := by
  have hrun : (twoBags.internalMoveItem bagsAndGold
      { fromCylinder := .tile 0, toCylinder := .container 0, item := 0 }).map Prod.fst =
        some .thisIsImpossible := by decide +kernel
  obtain ⟨⟨ret, w'⟩, hcall, rfl⟩ := Option.map_eq_some_iff.mp hrun
  have hsame := failed_move_changes_nothing hcall (by decide)
  rw [if_neg (by decide +kernel)] at hsame
  exact ⟨w', hcall, hsame⟩

/-- Fifty coins of the hundred go over, and the call fails. -/
theorem failed_move_moves_part : ¬ ∀ (rules : Rules) (w w' : World) (q : Request) (ret : ReturnValue),
    w.internalMoveItem rules q = some (ret, w') → ret ≠ .noError →
      ∀ x ∈ w.children q.fromCylinder, (w'.item x).count = (w.item x).count := by
  intro h
  have hrun : (twoBags.internalMoveItem bagsAndGold
      { fromCylinder := .container 2, toCylinder := .container 0, item := 3, count := 100 }).map
        (fun y => (y.1, (y.2.item 3).count)) = some (.containerNotEnoughRoom, 50) := by
          decide +kernel
  obtain ⟨⟨ret, w'⟩, hcall, heq⟩ := Option.map_eq_some_iff.mp hrun
  obtain ⟨rfl, hcount⟩ := Prod.mk.inj heq
  have hsame := h _ _ _ _ _ hcall (by decide) 3 (by decide)
  rw [hcount] at hsame
  exact absurd hsame (by decide)

end World
end ForgottenServer.Things
