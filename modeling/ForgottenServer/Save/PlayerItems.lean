import ForgottenServer.Save.House

/-! # The items of players

`IOLoginData::saveItems` writes the items of a player as rows, breadth first, and
`loadPlayer` hangs the items of the rows into each other again. A row knows its own id
and the one of its parent, which is a slot of the inventory or the id of a container.
The rows are what the table has; that a query may fail is not part of the model. -/
namespace ForgottenServer.Save
open ForgottenServer.Lib.Wire

variable (sv : Server)

/-- `CreateItem` with a count. -/
def Item.createItem (id count : ℕ) : Option Item :=
  let it := sv.items id
  if it.group = .deprecated ∨ it.id = 0 then none
  else if it.classOf ≠ .item then some (new sv id 0)
  else some (new sv (Decay.Item.createId (fun id => (sv.items id).toItemType) id)
    (if it.stackable ∧ count = 0 then 1 else count))

mutual

def Tree.weight : Tree → ℕ
  | .node _ l => 1 + Tree.weights l

def Tree.weights : List Tree → ℕ
  | [] => 0
  | t :: l => t.weight + Tree.weights l

end

theorem weights_append (l m : List Tree) : Tree.weights (l ++ m) = Tree.weights l + Tree.weights m := by
  induction l with
  | nil => simp [Tree.weights]
  | cons t l ih => rw [List.cons_append, Tree.weights, Tree.weights, ih]; omega

namespace Player

structure Row where
  pid : ℕ
  sid : ℕ
  itemtype : ℕ
  count : ℕ
  attributes : Bytes
  deriving DecidableEq, Repr

/-! ## Saving -/

/-- Where `saveItems` is: the last id, the containers whose items are not yet written and
the rows. -/
structure Saver where
  runningId : ℕ := 100
  queue : List (Tree × ℕ) := []
  rows : List Row := []

def row (pid sid : ℕ) (x : Item) : Row where
  pid
  sid
  itemtype := x.id
  count := (x.getSubType sv % 2 ^ 16).toNat
  attributes := x.writeAttr sv

/-- One item is written; a container is queued under its id. -/
def Saver.addRow (pid : ℕ) (st : Saver) (t : Tree) : Saver where
  runningId := st.runningId + 1
  queue := if (t.item.classOf sv).isContainer then st.queue ++ [(t, st.runningId + 1)] else st.queue
  rows := st.rows ++ [row sv pid (st.runningId + 1) t.item]

def Saver.load (st : Saver) : ℕ := Tree.weights (st.queue.map Prod.fst)

theorem addRows_load (pid : ℕ) (l : List Tree) (st : Saver) :
    (l.foldl (Saver.addRow sv pid) st).load ≤ st.load + Tree.weights l := by
  induction l generalizing st with
  | nil => exact Nat.le_add_right _ _
  | cons t l ih =>
    have hstep : (st.addRow sv pid t).load ≤ st.load + t.weight := by
      unfold Saver.addRow Saver.load
      dsimp only
      split_ifs
      · rw [List.map_append, weights_append]
        simp [Tree.weights]
      · omega
    have := ih (st.addRow sv pid t)
    rw [List.foldl_cons, Tree.weights]
    omega

/-- The loop over the queue. -/
def Saver.run (st : Saver) : Saver :=
  match _h : st.queue with
  | [] => st
  | (t, parentId) :: queue => (t.children.foldl (Saver.addRow sv parentId) { st with queue }).run
termination_by st.load
decreasing_by
  obtain ⟨x, l⟩ := t
  have hle := addRows_load sv parentId l { st with queue }
  simp only [Tree.children]
  have hload : st.load = 1 + Tree.weights l + Tree.weights (queue.map Prod.fst) := by
    rw [Saver.load, _h, List.map_cons, Tree.weights, Tree.weight]
  have hrest : ({ st with queue } : Saver).load = Tree.weights (queue.map Prod.fst) := rfl
  omega

/-- The slots of the inventory, from `CONST_SLOT_FIRST` to `CONST_SLOT_LAST`. -/
def slots : List ℕ := List.range' 1 10

/-- What `savePlayer` gives to `saveItems`. -/
def itemBlocks (inventory : ℕ → Option Tree) : List (ℕ × Tree) :=
  slots.filterMap fun slot => (inventory slot).map fun t => (slot, t)

/-- `IOLoginData::saveItems`. -/
def saveItems (itemList : List (ℕ × Tree)) : List Row :=
  ((itemList.foldl (fun st (pid, t) => Saver.addRow sv pid st t) {}).run sv).rows

/-! ## Loading -/

/-- `std::map` of ids to an item and the id of its parent, in the order of the ids. -/
abbrev ItemMap := List (ℕ × Item × ℕ)

def ItemMap.assign (sid : ℕ) (pair : Item × ℕ) : ItemMap → ItemMap
  | [] => [(sid, pair)]
  | e :: m =>
    if sid < e.1 then (sid, pair) :: e :: m
    else if sid = e.1 then (sid, pair) :: m
    else e :: ItemMap.assign sid pair m

def ItemMap.find (m : ItemMap) (sid : ℕ) : Option (Item × ℕ) := (m.find? fun e => e.1 = sid).map Prod.snd

/-- The item of a row. That its attributes cannot be read is only reported. -/
def loadRow (r : Row) : Option Item :=
  (Item.createItem sv r.itemtype r.count).map fun x => (x.unserialize sv r.attributes).2.1

/-- `IOLoginData::loadItems`. -/
def loadItems (result : List Row) : ItemMap :=
  result.foldl (fun m r =>
    match loadRow sv r with
    | some x => m.assign r.sid (x, r.pid)
    | none => m) []

/-- Which items hang where: the items of each container, and the slots of the player. -/
structure Hung where
  itemlist : ℕ → List ℕ := fun _ => []
  inventory : ℕ → Option ℕ := fun _ => none

/-- `Player::internalAddThing`, which does not replace an item. -/
def Hung.equip (h : Hung) (slot sid : ℕ) : Hung :=
  if (h.inventory slot).isSome then h
  else { h with inventory := fun s => if s = slot then some sid else h.inventory s }

/-- `Container::internalAddThing`. -/
def Hung.push (h : Hung) (container sid : ℕ) : Hung :=
  { h with itemlist := fun c => if c = container then sid :: h.itemlist c else h.itemlist c }

/-- One round of the loop in `loadPlayer`. -/
def attach (m : ItemMap) (h : Hung) (e : ℕ × Item × ℕ) : Hung :=
  let (sid, _, pid) := e
  if 1 ≤ pid ∧ pid ≤ 10 then h.equip pid sid
  else match m.find pid with
    | none => h
    | some (container, _) => if (container.classOf sv).isContainer then h.push pid sid else h

/-- The loop goes through the map from its end. -/
def attachAll (m : ItemMap) : Hung := m.reverse.foldl (attach sv m) {}

end Player
end ForgottenServer.Save
