import ForgottenServer.Decay.Item
import ForgottenServer.Lib.Run
import ForgottenServer.Lib.Table
import Mathlib.Data.Fintype.Basic
import Mathlib.Algebra.BigOperators.Fin
import Mathlib.Algebra.Order.BigOperators.Group.Finset
import Mathlib.Data.List.Count

/-! # The decay wheel

Items that decay wait in `toDecayItems` and then in one of four buckets, of
which `checkDecay` handles one a tick. The wheel holds a reference to each. The
world around an item is asked while an event is handled (`World`); what scripts
do when they are told of a change is left out. -/
namespace ForgottenServer.Decay
open ForgottenServer.Lib ForgottenServer.Lib.Run

structure Game where
  /-- the items that were made so far have the references below `next` -/
  item : ℕ → Item
  next : ℕ
  toDecayItems : List ℕ := []
  decayItems : Fin 4 → List ℕ := fun _ => []
  lastBucket : Fin 4 := 0
  toReleaseItems : List ℕ := []

/-- What the parents of items answer. -/
structure World where
  /-- `getThingIndex` finds it -/
  hasIndex : ℕ → Bool
  canTransform : ℕ → Bool
  /-- `queryRemove` and `canRemove` -/
  canRemove : ℕ → Bool
  /-- it has a parent again after `addThing` -/
  keeps : ℕ → Bool
  /-- what is in it, at any depth -/
  inside : ℕ → List ℕ

namespace Game

def modify (g : Game) (r : ℕ) (f : Item → Item) : Game :=
  { g with item := Function.update g.item r (f (g.item r)) }

/-- `ReleaseItem`. -/
def releaseItem (g : Game) (r : ℕ) : Game := { g with toReleaseItems := g.toReleaseItems ++ [r] }

/-- Take a reference and queue the item. -/
def push (g : Game) (r : ℕ) : Game :=
  { g.modify r fun x => { x.setDecaying .decayingTrue with referenceCounter := x.referenceCounter + 1 } with
    toDecayItems := r :: g.toDecayItems }

def erase (g : Game) (bucket : Fin 4) (r : ℕ) : Game :=
  { g with decayItems := Function.update g.decayItems bucket ((g.decayItems bucket).erase r) }

def pushBack (g : Game) (bucket : Fin 4) (r : ℕ) : Game :=
  { g with decayItems := Function.update g.decayItems bucket (g.decayItems bucket ++ [r]) }

/-- The item has no parent any more, and is released. -/
def drop (w : World) (g : Game) (r : ℕ) : Game :=
  let item (q : ℕ) : Item :=
    if q = r then { g.item q with place := .gone }
    else if q ∈ w.inside r ∧ (g.item q).place = .world then { g.item q with place := .lost }
    else g.item q
  { g with item := item }.releaseItem r

def add (g : Game) (x : Item) : Game :=
  { g with item := Function.update g.item g.next x, next := g.next + 1 }

end Game

variable (items : ℕ → ItemType)

/-- `internalRemoveItem` of the whole item. -/
def internalRemoveItem (w : World) (g : Game) (r : ℕ) : Game :=
  if !(g.item r).hasParent then g
  else if !w.canRemove r then g
  else
    let g := g.drop w r
    -- asked of a removed item, which cannot decay
    if (g.item r).canDecay items then g.erase 0 r else g

/-- The new id and subtype that `transformItem` gives to an item it keeps. -/
def updated (x : Item) (newId : ℕ) (newCount : ℤ) : Item :=
  let curType := items x.id
  let newType := items newId
  let count := x.getSubType items
  let y := if curType.id ≠ newType.id ∧ newType.group ≠ curType.group then x.setDefaultSubtype items else x
  let itemId := if curType.id ≠ newType.id then newId else x.id
  let count := if newCount ≠ -1 ∧ newType.hasSubType then newCount else count
  (y.setID items itemId).setSubType items count

/-- The same for an item that changes between top and down items. -/
def lifted (x : Item) (newId : ℕ) (newCount : ℤ) : Item :=
  if newCount ≠ -1 then (x.setID items newId).setSubType items newCount else x.setID items newId

/-- Put a new item in the place of another. -/
def replaceItem (w : World) (g : Game) (r : ℕ) (y : Item) : Game :=
  (g.add { y with place := (g.item r).place }).drop w r

/-- `transformItem`, which answers with an item or none; `again` is what it
answers when it calls itself. -/
def transformStep (w : World) (g : Game) (r newId : ℕ) (newCount : ℤ) (again : Game × Option ℕ) : Game × Option ℕ :=
  let x := g.item r
  let newType := items newId
  let curType := items x.id
  if x.id = newId ∧ (newCount = -1 ∨ newCount = x.getSubType items ∧ newCount ≠ 0) then (g, some r)
  else if !x.hasParent then (g, none)
  else if !w.hasIndex r then (g, some r)
  else if !w.canTransform r then (g, some r)
  else if newType.id = 0 then (g, some r)
  else if curType.alwaysOnTop ≠ newType.alwaysOnTop then
    let g := g.modify r fun x => lifted items x newId newCount
    if w.keeps r then (g, some r) else (g.drop w r, none)
  else if curType.type = newType.type then
    if newCount = 0 ∧ (curType.stackable ∨ x.attr.charges.isSome) then
      if curType.stackable then (internalRemoveItem items w g r, none)
      else
        let newItemId := if curType.id = newType.id then x.getDecayTo items else newId
        if newItemId < 0 then (internalRemoveItem items w g r, none)
        else if newItemId ≠ newId then
          match Item.create items (newItemId % 2 ^ 16).toNat 1 with
          | none => (g, none)
          | some y => (replaceItem w g r y, some g.next)
        else again
    else (g.modify r fun x => updated items x newId newCount, some r)
  else
    match Item.create items newId (if newCount = -1 then 0 else (newCount % 2 ^ 16).toNat) with
    | none => (g, none)
    | some y =>
      let g' := replaceItem w g r y
      if 0 < y.getDuration ∧ y.getDecaying ≠ .decayingTrue then (g'.push g.next, some g.next)
      else (g', some g.next)

def transformItem (w : World) (g : Game) (r newId : ℕ) (newCount : ℤ) : Game × Option ℕ :=
  transformStep items w g r newId newCount (transformStep items w g r newId (-1) (g, some r))

/-- `internalDecayItem`; `startDecay` is what it does with the new item. -/
def internalDecayItem (startDecay : Game → ℕ → Option Game) (w : World) (g : Game) (r : ℕ) : Option Game :=
  let x := g.item r
  if (items x.id).decayTo ≠ 0 then
    match transformItem items w g r (x.getDecayTo items % 2 ^ 16).toNat (-1) with
    | (g, some newItem) => startDecay g newItem
    | (g, none) => some g
  else some (internalRemoveItem items w g r)

/-- `startDecay`. Item types whose items decay at once into each other keep it
from returning, which the fuel stands for. -/
def startDecay (w : World) : ℕ → Game → ℕ → Option Game
  | 0, _, _ => none
  | fuel + 1, g, r =>
    let x := g.item r
    if !x.canDecay items then some g
    else if x.getDecaying = .decayingTrue then some g
    else if 0 < x.getDuration then some (g.push r)
    else internalDecayItem items (startDecay w fuel) w g r

/-- The duration as `checkDecay` reads it, an `int32_t`. -/
def Item.signedDuration (x : Item) : ℤ := Int.bmod x.getDuration (2 ^ 32)

/-- What a tick takes from the duration. -/
def Item.decreaseTime (x : Item) : ℤ := min 1000 x.signedDuration

inductive Fate
  | decays
  | moves (newBucket : Fin 4)
  | stays
  deriving DecidableEq

/-- What a tick does with an item that had this duration. -/
def Item.fate (bucket : Fin 4) (x : Item) : Fate :=
  let duration := x.signedDuration - x.decreaseTime
  if duration ≤ 0 then .decays
  else if duration < 1000 then
    let newBucket := bucket + Fin.ofNat 4 ((duration + 125) / 1000).toNat
    if newBucket = bucket then .decays else .moves newBucket
  else .stays

/-- `checkDecay` for one item of the bucket. -/
def checkItem (fuel : ℕ) (w : World) (bucket : Fin 4) (g : Game) (r : ℕ) : Option Game :=
  let x := g.item r
  if !x.canDecay items then
    some (((g.modify r (·.setDecaying .decayingFalse)).releaseItem r).erase bucket r)
  else
    let g := g.modify r (·.decreaseDuration x.decreaseTime)
    match x.fate bucket with
    | .decays =>
      (internalDecayItem items (startDecay items w fuel) w (g.erase bucket r) r).map (·.releaseItem r)
    | .moves newBucket => some ((g.erase bucket r).pushBack newBucket r)
    | .stays => some g

/-- Where `cleanup` puts an item that is queued. -/
def Item.bucketOf (lastBucket : Fin 4) (x : Item) : Fin 4 :=
  if 1000 ≤ x.getDuration then lastBucket
  else lastBucket + 1 + Fin.ofNat 4 (x.getDuration / 1000)

/-- Give back the references that were released. -/
def Game.freeItems (g : Game) : Game :=
  { g with
    item := fun r => { g.item r with
      referenceCounter := (g.item r).referenceCounter - g.toReleaseItems.count r }
    toReleaseItems := [] }

def cleanup (g : Game) : Game :=
  let g := g.freeItems
  let g' := g.toDecayItems.foldl (fun g' r => g'.pushBack ((g.item r).bucketOf g.lastBucket) r) g
  { g' with toDecayItems := [] }

def checkDecay (fuel : ℕ) (w : World) (g : Game) : Option Game := do
  let bucket := g.lastBucket + 1
  let g ← (g.decayItems bucket).foldlM (checkItem items fuel w bucket) g
  some (cleanup { g with lastBucket := bucket })

/-- `Item::clone`. -/
def clone (g : Game) (r : ℕ) : Game :=
  let x := g.item r
  match x.copy items with
  | none => g
  | some y => if x.attributes.isSome ∧ 0 < y.getDuration then (g.add y).push g.next else g.add y

inductive Event
  | startDecay (w : World) (r : ℕ)
  | transformItem (w : World) (r newId : ℕ) (newCount : ℤ)
  | setID (r newId : ℕ)
  | clone (r : ℕ)
  | remove (w : World) (r : ℕ)
  | checkDecay (w : World)
  | cleanup

/-- An event about items that exist. -/
def step (fuel : ℕ) (g : Game) : Event → Option Game
  | .startDecay w r => if r < g.next then startDecay items w fuel g r else some g
  | .transformItem w r newId newCount =>
    some (if r < g.next then (transformItem items w g r newId newCount).1 else g)
  | .setID r newId => some (if r < g.next then g.modify r (·.setID items newId) else g)
  | .clone r => some (if r < g.next then clone items g r else g)
  | .remove w r => some (if r < g.next then internalRemoveItem items w g r else g)
  | .checkDecay w => checkDecay items fuel w g
  | .cleanup => some (cleanup g)

/-! ## Occurrences -/

namespace Game

/-- How often an item is in the wheel. -/
def occurrences (g : Game) (r : ℕ) : ℕ := g.toDecayItems.count r + ∑ b, (g.decayItems b).count r

@[simp] theorem occurrences_releaseItem (g : Game) (r : ℕ) : (g.releaseItem r).occurrences = g.occurrences := rfl

@[simp] theorem occurrences_drop (w : World) (g : Game) (r : ℕ) : (g.drop w r).occurrences = g.occurrences := rfl

@[simp] theorem modify_item_self (g : Game) (r : ℕ) (f : Item → Item) :
    (g.modify r f).item r = f (g.item r) := Function.update_self _ _ _

theorem modify_item_of_ne (g : Game) {r q : ℕ} (h : q ≠ r) (f : Item → Item) :
    (g.modify r f).item q = g.item q := Function.update_of_ne h _ _

@[simp] theorem add_item_self (g : Game) (x : Item) : (g.add x).item g.next = x :=
  Function.update_self _ _ _

theorem add_item_of_lt {g : Game} {q : ℕ} (h : q < g.next) (x : Item) : (g.add x).item q = g.item q :=
  Function.update_of_ne h.ne _ _

theorem drop_item_self (w : World) (g : Game) (r : ℕ) :
    (g.drop w r).item r = { g.item r with place := .gone } := if_pos rfl

theorem drop_attributes (w : World) (g : Game) (r q : ℕ) :
    ((g.drop w r).item q).attributes = (g.item q).attributes := by
  change Item.attributes (if q = r then _ else if _ then _ else _) = _
  split
  · rfl
  · split <;> rfl

theorem occurrences_push (g : Game) (r q : ℕ) :
    (g.push r).occurrences q = g.occurrences q + if r = q then 1 else 0 := by
  simp only [occurrences, push, modify, List.count_cons, beq_iff_eq]
  omega

theorem occurrences_erase {g : Game} {bucket : Fin 4} {r : ℕ} (h : r ∈ g.decayItems bucket) (q : ℕ) :
    (g.erase bucket r).occurrences q + (if r = q then 1 else 0) = g.occurrences q := by
  have hsum := Table.sum_function_update g.decayItems bucket ((g.decayItems bucket).erase r) (List.count q)
  have hcount : ((g.decayItems bucket).erase r).count q + (if r = q then 1 else 0) =
      (g.decayItems bucket).count q := by
    rw [(List.perm_cons_erase h).count_eq q, List.count_cons]
    simp
  simp only [occurrences, erase]
  omega

theorem occurrences_pushBack (g : Game) (bucket : Fin 4) (r q : ℕ) :
    (g.pushBack bucket r).occurrences q = g.occurrences q + if r = q then 1 else 0 := by
  have hsum := Table.sum_function_update g.decayItems bucket (g.decayItems bucket ++ [r]) (List.count q)
  rw [List.count_append, List.count_singleton] at hsum
  simp only [beq_iff_eq] at hsum
  simp only [occurrences, pushBack]
  omega

end Game

/-! ## The invariant -/

/-- The reference that the owner of an item holds. -/
def Item.owner (x : Item) : ℕ := if x.place = .gone then 0 else 1

/-- No item is twice in the wheel, and every reference is held by the owner of
the item, by the wheel or by the list of releases; `owed` are those between. -/
structure Inv (owed : ℕ → ℕ) (g : Game) : Prop where
  once : ∀ r, g.occurrences r ≤ 1
  refs : ∀ r < g.next, (g.item r).referenceCounter =
    (g.item r).owner + g.occurrences r + g.toReleaseItems.count r + owed r
  known : ∀ r, g.next ≤ r → g.occurrences r = 0 ∧ g.toReleaseItems.count r = 0 ∧ owed r = 0

/-- An item that is decaying is in the wheel. -/
def Settled (g : Game) (r : ℕ) : Prop :=
  r < g.next → (g.item r).getDecaying = .decayingTrue → (g.item r).live = true →
    g.occurrences r = 1 ∧ 0 < (g.item r).getDuration

/-- What happens to `b`: nothing but the list of new items to decay changes, and
no other item except that it may be removed. -/
structure Effect (owed : ℕ → ℕ) (b : ℕ) (g g' : Game) : Prop where
  inv : Inv owed g'
  settled : ∀ r, Settled g r → Settled g' r
  next : g.next ≤ g'.next
  decayItems : g'.decayItems = g.decayItems
  lastBucket : g'.lastBucket = g.lastBucket
  others : ∀ r < g.next, r ≠ b → ∃ p, g'.item r = { g.item r with place := p }
  removed : ∀ r < g.next, (g'.item r).place = (g.item r).place ∨ (g'.item r).isRemoved = true
  stay : ∀ r < g.next, (g.item r).isRemoved = true → (g'.item r).isRemoved = true

section Effect
variable {owed : ℕ → ℕ} {b r : ℕ} {g g' g'' : Game}

theorem Effect.idle (h : Inv owed g) : Effect owed b g g :=
  ⟨h, fun _ h => h, le_rfl, rfl, rfl, fun _ _ _ => ⟨_, rfl⟩, fun _ _ => .inl rfl, fun _ _ h => h⟩

theorem Effect.trans {n : ℕ} (h : Effect owed b g g') (h' : Effect owed n g' g'')
    (hn : n = b ∨ g.next ≤ n) : Effect owed b g g'' where
  inv := h'.inv
  settled r hr := h'.settled r (h.settled r hr)
  next := h.next.trans h'.next
  decayItems := h'.decayItems.trans h.decayItems
  lastBucket := h'.lastBucket.trans h.lastBucket
  others r hr hb := by
    obtain ⟨p, hp⟩ := h.others r hr hb
    obtain ⟨p', hp'⟩ := h'.others r (hr.trans_le h.next) (by omega)
    exact ⟨p', by rw [hp', hp]⟩
  removed r hr := by
    have hr' := hr.trans_le h.next
    rcases h'.removed r hr' with h2 | h2
    · rcases h.removed r hr with h1 | h1
      · exact .inl (h2.trans h1)
      · exact .inr (h'.stay r hr' h1)
    · exact .inr h2
  stay r hr hrem := h'.stay r (hr.trans_le h.next) (h.stay r hr hrem)

theorem Effect.of_item (hinv : Inv owed g') (hsettled : ∀ r, Settled g r → Settled g' r) (hnext : g'.next = g.next)
    (hbuckets : g'.decayItems = g.decayItems) (hlast : g'.lastBucket = g.lastBucket)
    (hitem : ∀ r ≠ b, g'.item r = g.item r) (hplace : (g'.item b).place = (g.item b).place) : Effect owed b g g' := by
  have hall : ∀ r, (g'.item r).place = (g.item r).place := by
    intro r
    by_cases hr : r = b
    · rw [hr, hplace]
    · rw [hitem r hr]
  refine ⟨hinv, hsettled, hnext.ge, hbuckets, hlast, fun r _ hr => ⟨_, hitem r hr⟩,
    fun r _ => .inl (hall r), fun r _ hrem => ?_⟩
  rwa [Item.isRemoved, hall r]

theorem modify_inv (h : Inv owed g) {f : Item → Item} (hplace : (f (g.item r)).place = (g.item r).place)
    (hrefs : (f (g.item r)).referenceCounter = (g.item r).referenceCounter) : Inv owed (g.modify r f) := by
  refine ⟨h.once, fun q hq => ?_, h.known⟩
  by_cases heq : q = r
  · subst heq
    rw [Game.modify_item_self, hrefs, Item.owner, hplace]
    exact h.refs q hq
  · rw [Game.modify_item_of_ne g heq]
    exact h.refs q hq

theorem Effect.modify (h : Inv owed g) {f : Item → Item} (hf : Item.Calm (g.item b) (f (g.item b))) :
    Effect owed b g (g.modify b f) := by
  have hb := g.modify_item_self b f
  have hother : ∀ r ≠ b, (g.modify b f).item r = g.item r := fun r hr => g.modify_item_of_ne hr f
  refine .of_item (modify_inv h hf.place hf.referenceCounter) (fun r hs hr hstate hlive => ?_) rfl rfl rfl
    hother (by rw [hb, hf.place])
  · by_cases heq : r = b
    · subst heq
      rw [hb] at hstate hlive ⊢
      obtain ⟨hstate', hdur⟩ := hf.decaying hstate
      rw [Item.live, hf.place] at hlive
      rw [hdur]
      exact hs hr hstate' hlive
    · rw [hother r heq] at hstate hlive ⊢
      exact hs hr hstate hlive

theorem push_settled (hocc : g.occurrences b = 0) (hdur : 0 < (g.item b).getDuration) : Settled (g.push b) b := by
  intro _ _ _
  rw [Game.occurrences_push, if_pos rfl, hocc]
  refine ⟨rfl, ?_⟩
  rw [Game.push, Game.modify_item_self]
  exact hdur

theorem Effect.push (h : Inv owed g) (hb : b < g.next) (hocc : g.occurrences b = 0)
    (hdur : 0 < (g.item b).getDuration) : Effect owed b g (g.push b) := by
  have hother : ∀ r ≠ b, (g.push b).item r = g.item r := fun r hr => Function.update_of_ne hr _ _
  have hself : (g.push b).item b =
      { (g.item b).setDecaying .decayingTrue with referenceCounter := (g.item b).referenceCounter + 1 } :=
    Function.update_self _ _ _
  refine .of_item ⟨fun r => ?_, fun r hr => ?_, fun r hr => ?_⟩ (fun r hs hr hstate hlive => ?_)
    rfl rfl rfl hother (by rw [hself]; rfl)
  · rw [Game.occurrences_push]
    have := h.once r
    split
    · subst b
      omega
    · omega
  · have hrefs := h.refs r hr
    rw [Game.occurrences_push]
    by_cases heq : r = b
    · subst heq
      rw [hself, if_pos rfl]
      change (g.item r).referenceCounter + 1 =
        (g.item r).owner + (g.occurrences r + 1) + g.toReleaseItems.count r + owed r
      omega
    · rw [hother r heq, if_neg (Ne.symm heq)]
      exact hrefs
  · have hne : b ≠ r := (hb.trans_le hr).ne
    rw [Game.occurrences_push, if_neg hne]
    exact h.known r hr
  · by_cases heq : r = b
    · subst heq
      exact push_settled hocc hdur hr hstate hlive
    · rw [hother r heq] at hstate hlive ⊢
      rw [Game.occurrences_push, if_neg (Ne.symm heq)]
      exact hs hr hstate hlive

theorem Effect.drop (w : World) (h : Inv owed g) (hb : b < g.next) (hplace : (g.item b).place ≠ .gone) :
    Effect owed b g (g.drop w b) := by
  have hother : ∀ r ≠ b, (g.drop w b).item r = g.item r ∨
      (g.item r).place = .world ∧ (g.drop w b).item r = { g.item r with place := .lost } := by
    intro r hr
    change (if r = b then _ else if _ then _ else _) = _ ∨ _ ∧ (if r = b then _ else if _ then _ else _) = _
    rw [if_neg hr]
    split
    · rename_i hin
      exact .inr ⟨hin.2, rfl⟩
    · exact .inl rfl
  have hself := g.drop_item_self w b
  have hcount : ∀ r, (g.drop w b).toReleaseItems.count r = g.toReleaseItems.count r + if b = r then 1 else 0 := by
    intro r
    change (g.toReleaseItems ++ [b]).count r = _
    rw [List.count_append, List.count_singleton]
    simp
  have hremoved : ∀ r, (g.drop w b).item r = g.item r ∨ ((g.drop w b).item r).isRemoved = true := by
    intro r
    by_cases heq : r = b
    · subst heq
      exact .inr (by rw [hself]; rfl)
    · rcases hother r heq with hr | ⟨-, hr⟩
      · exact .inl hr
      · exact .inr (by rw [hr]; rfl)
  refine ⟨⟨h.once, fun r hr => ?_, fun r hr => ?_⟩, fun r hs hr hstate hlive => ?_, le_rfl, rfl, rfl,
    fun r _ hr => ?_, fun r _ => ?_, fun r _ hrem => ?_⟩
  · have hrefs := h.refs r hr
    rw [hcount, Game.occurrences_drop]
    by_cases heq : r = b
    · subst heq
      simp only [Item.owner, if_neg hplace] at hrefs
      rw [hself, if_pos rfl]
      simp only [Item.owner, if_true]
      omega
    · rw [if_neg (Ne.symm heq)]
      rcases hother r heq with hr' | ⟨hworld, hr'⟩
      · rw [hr']
        exact hrefs
      · have howner : (g.item r).owner = 1 := by rw [Item.owner, hworld]; rfl
        rw [howner] at hrefs
        rw [hr']
        exact hrefs
  · obtain ⟨hocc, hrel, howed⟩ := h.known r hr
    have hne : b ≠ r := (hb.trans_le hr).ne
    rw [hcount, if_neg hne]
    exact ⟨hocc, hrel, howed⟩
  · rcases hother r (fun heq => by subst heq; rw [hself] at hlive; cases hlive) with hr' | ⟨-, hr'⟩
    · rw [hr'] at hstate hlive ⊢
      exact hs hr hstate hlive
    · rw [hr'] at hlive
      cases hlive
  · rcases hother r hr with hr' | ⟨-, hr'⟩
    · exact ⟨_, hr'⟩
    · exact ⟨_, hr'⟩
  · rcases hremoved r with hr | hr
    · exact .inl (by rw [hr])
    · exact .inr hr
  · rcases hremoved r with hr | hr
    · rwa [hr]
    · exact hr

theorem add_inv (h : Inv owed g) {x : Item} (hrefs : x.referenceCounter = 1) (hplace : x.place ≠ .gone) :
    Inv owed (g.add x) := by
  refine ⟨h.once, fun r hr => ?_, fun r hr => h.known r ((Nat.le_succ _).trans hr)⟩
  rcases Nat.lt_succ_iff_lt_or_eq.mp hr with hlt | rfl
  · rw [Game.add_item_of_lt hlt]
    exact h.refs r hlt
  · obtain ⟨hocc, hrel, howed⟩ := h.known g.next le_rfl
    change ((g.add x).item g.next).referenceCounter = ((g.add x).item g.next).owner + g.occurrences g.next +
        g.toReleaseItems.count g.next + owed g.next
    rw [Game.add_item_self, hocc, hrel, howed, hrefs, Item.owner, if_neg hplace]

theorem add_settled {x : Item} (hr : r ≠ g.next) (h : Settled g r) : Settled (g.add x) r := by
  intro hlt hstate hlive
  rcases Nat.lt_succ_iff_lt_or_eq.mp hlt with hlt | heq
  · rw [Game.add_item_of_lt hlt] at hstate hlive ⊢
    exact h hlt hstate hlive
  · exact absurd heq hr

theorem Effect.add (h : Inv owed g) {x : Item} (hrefs : x.referenceCounter = 1) (hplace : x.place ≠ .gone)
    (hstate : x.getDecaying ≠ .decayingTrue) : Effect owed b g (g.add x) := by
  have hother : ∀ r < g.next, (g.add x).item r = g.item r := fun r hr => Game.add_item_of_lt hr x
  refine ⟨add_inv h hrefs hplace, fun r hs => ?_, Nat.le_succ _, rfl, rfl, fun r hr _ => ⟨_, hother r hr⟩,
    fun r hr => .inl (by rw [hother r hr]), fun r hr hrem => by rwa [hother r hr]⟩
  by_cases hr : r = g.next
  · intro _ hstate' _
    rw [hr, Game.add_item_self] at hstate'
    exact absurd hstate' hstate
  · exact add_settled hr hs

end Effect

/-! ## What the functions do -/

section Functions
variable {items : ℕ → ItemType} {owed : ℕ → ℕ} {w : World} {g : Game} {r : ℕ}

theorem Item.place_of_hasParent {x : Item} (h : x.hasParent = true) : x.place ≠ .gone := by
  intro hgone
  rw [Item.hasParent, hgone] at h
  cases h

theorem drop_canDecay (items : ℕ → ItemType) (w : World) (g : Game) (r : ℕ) :
    ((g.drop w r).item r).canDecay items = false := by
  rw [Game.drop_item_self]
  rfl

theorem internalRemoveItem_effect (items : ℕ → ItemType) (w : World) (h : Inv owed g) (hr : r < g.next) :
    Effect owed r g (internalRemoveItem items w g r) := by
  unfold internalRemoveItem
  split
  · exact .idle h
  · rename_i hparent
    split
    · exact .idle h
    · dsimp only
      rw [drop_canDecay]
      exact .drop w h hr (Item.place_of_hasParent (by simpa using hparent))

theorem replaceItem_effect (h : Inv owed g) (hr : r < g.next) (hparent : (g.item r).hasParent = true) {y : Item}
    (hy : y.getDecaying = .decayingFalse ∧ y.referenceCounter = 1 ∧ y.place = .unplaced) :
    Effect owed r g (replaceItem w g r y) := by
  have hplace := Item.place_of_hasParent hparent
  have hnot : y.getDecaying ≠ .decayingTrue := by rw [hy.1]; exact fun h => by cases h
  have hadd : Effect owed r g (g.add { y with place := (g.item r).place }) :=
    .add h hy.2.1 hplace hnot
  have hitem := Game.add_item_of_lt hr { y with place := (g.item r).place }
  refine hadd.trans (.drop w hadd.inv (hr.trans_le hadd.next) ?_) (.inl rfl)
  rwa [hitem]

/-- An answer of `transformItem`: the item itself, as often in the wheel as
before, or a new one, which is in the wheel only if it is decaying. -/
def Answer (owed : ℕ → ℕ) (r : ℕ) (g : Game) (a : Game × Option ℕ) : Prop :=
  Effect owed r g a.1 ∧ ∀ n ∈ a.2, n < a.1.next ∧ (n = r ∧ a.1.occurrences r = g.occurrences r ∨
      g.next ≤ n ∧ ((a.1.item n).getDecaying ≠ .decayingTrue → a.1.occurrences n = 0))

theorem Answer.ite {c : Prop} [Decidable c] {a a' : Game × Option ℕ} (h : c → Answer owed r g a)
    (h' : ¬c → Answer owed r g a') : Answer owed r g (if c then a else a') := by
  split
  · exact h ‹_›
  · exact h' ‹_›

theorem Answer.none {g' : Game} (h : Effect owed r g g') : Answer owed r g (g', none) :=
  ⟨h, fun _ hn => by cases hn⟩

theorem Answer.same {g' : Game} (h : Effect owed r g g') (hr : r < g.next)
    (hocc : g'.occurrences r = g.occurrences r) : Answer owed r g (g', some r) := by
  refine ⟨h, fun n hn => ?_⟩
  obtain rfl := Option.some.inj hn
  exact ⟨hr.trans_le h.next, .inl ⟨rfl, hocc⟩⟩

theorem Answer.new {y : Item} (h : Inv owed g) (hr : r < g.next) (hparent : (g.item r).hasParent = true)
    (hy : y.getDecaying = .decayingFalse ∧ y.referenceCounter = 1 ∧ y.place = .unplaced) :
    Answer owed r g (replaceItem w g r y, some g.next) := by
  have heff := replaceItem_effect (w := w) h hr hparent hy
  refine ⟨heff, fun n hn => ?_⟩
  obtain rfl := Option.some.inj hn
  exact ⟨Nat.lt_succ_self _, .inr ⟨le_rfl, fun _ => (h.known g.next le_rfl).1⟩⟩

theorem Answer.queued {y : Item} (h : Inv owed g) (hr : r < g.next) (hparent : (g.item r).hasParent = true)
    (hy : y.getDecaying = .decayingFalse ∧ y.referenceCounter = 1 ∧ y.place = .unplaced) (hdur : 0 < y.getDuration) :
    Answer owed r g ((replaceItem w g r y).push g.next, some g.next) := by
  have heff := replaceItem_effect (w := w) h hr hparent hy
  have hattr : ((replaceItem w g r y).item g.next).attributes = y.attributes := by
    rw [replaceItem, Game.drop_attributes, Game.add_item_self]
  have hpush : Effect owed g.next (replaceItem w g r y) ((replaceItem w g r y).push g.next) := by
    refine .push heff.inv (Nat.lt_succ_self _) (h.known g.next le_rfl).1 ?_
    simpa only [Item.getDuration, Item.attr, hattr] using hdur
  refine ⟨heff.trans hpush (.inr le_rfl), fun n hn => ?_⟩
  obtain rfl := Option.some.inj hn
  refine ⟨Nat.lt_succ_self _, .inr ⟨le_rfl, fun hstate => absurd ?_ hstate⟩⟩
  simp [Game.push, Game.modify, Item.getDecaying, Item.setDecaying, Item.setAttr, Item.attr]

theorem updated_calm (x : Item) (newId : ℕ) (newCount : ℤ) : Item.Calm x (updated items x newId newCount) := by
  unfold updated
  dsimp only
  refine Item.Calm.trans ?_ ((Item.setID_calm items _ _).trans (Item.setSubType_calm items _ _))
  split
  · exact Item.setDefaultSubtype_calm items x
  · exact .same x

theorem lifted_calm (x : Item) (newId : ℕ) (newCount : ℤ) : Item.Calm x (lifted items x newId newCount) := by
  unfold lifted
  split
  · exact (Item.setID_calm items _ _).trans (Item.setSubType_calm items _ _)
  · exact Item.setID_calm items _ _

theorem transformStep_answer (h : Inv owed g) (hr : r < g.next) (newId : ℕ) (newCount : ℤ) {again : Game × Option ℕ}
    (hagain : Answer owed r g again) : Answer owed r g (transformStep items w g r newId newCount again) := by
  have hidle : Answer owed r g (g, some r) := .same (.idle h) hr rfl
  unfold transformStep
  dsimp only
  refine .ite (fun _ => hidle) fun _ => .ite (fun _ => .none (.idle h)) fun hparent => ?_
  have hparent' : (g.item r).hasParent = true := by simpa using hparent
  refine .ite (fun _ => hidle) fun _ => .ite (fun _ => hidle) fun _ => .ite (fun _ => hidle) fun _ => ?_
  refine .ite (fun _ => ?lift) fun _ => .ite (fun _ => ?sameType) fun _ => ?replace
  case lift =>
    have hlift : Effect owed r g (g.modify r fun x => lifted items x newId newCount) :=
      .modify h (lifted_calm _ _ _)
    refine .ite (fun _ => .same hlift hr rfl) fun _ => .none (hlift.trans (.drop w hlift.inv hr ?_) (.inl rfl))
    have hself : ((g.modify r fun x => lifted items x newId newCount).item r).place = (g.item r).place := by
      rw [Game.modify_item_self, (lifted_calm _ _ _).place]
    rw [hself]
    exact Item.place_of_hasParent hparent'
  case sameType =>
    have hremove := internalRemoveItem_effect items w h hr
    refine .ite (fun _ => .ite (fun _ => .none hremove) fun _ => .ite (fun _ => .none hremove) fun _ =>
      .ite (fun _ => ?_) fun _ => hagain) fun _ => .same (.modify h (updated_calm _ _ _)) hr rfl
    split
    · exact .none (.idle h)
    · rename_i y hy
      exact .new h hr hparent' (Item.create_fresh items hy)
  case replace =>
    split
    · exact .none (.idle h)
    · rename_i y hy
      have hfresh := Item.create_fresh items hy
      exact .ite (fun hd => .queued h hr hparent' hfresh hd.1) fun _ => .new h hr hparent' hfresh

theorem transformItem_answer (items : ℕ → ItemType) (w : World) (h : Inv owed g) (hr : r < g.next) (newId : ℕ)
    (newCount : ℤ) : Answer owed r g (transformItem items w g r newId newCount) :=
  transformStep_answer h hr newId newCount (transformStep_answer h hr newId (-1) (.same (.idle h) hr rfl))

/-- What `startDecay` does with an item that is not in the wheel unless it is
decaying. -/
def Starts (owed : ℕ → ℕ) (start : Game → ℕ → Option Game) : Prop :=
  ∀ g r, Inv owed g → r < g.next → ((g.item r).getDecaying ≠ .decayingTrue → g.occurrences r = 0) →
    ∀ g' ∈ start g r, Effect owed r g g'

theorem internalDecayItem_effect {start : Game → ℕ → Option Game} (hstart : Starts owed start)
    (h : Inv owed g) (hr : r < g.next) (hocc : g.occurrences r = 0) {g' : Game}
    (hg' : g' ∈ internalDecayItem items start w g r) : Effect owed r g g' := by
  unfold internalDecayItem at hg'
  dsimp only at hg'
  split at hg'
  · obtain ⟨heff, hnew⟩ := transformItem_answer items w h hr (((g.item r).getDecayTo items % 2 ^ 16).toNat) (-1)
    split at hg'
    · rename_i g1 n heq
      rw [heq] at heff hnew
      obtain ⟨hn, hor⟩ := hnew n rfl
      rcases hor with ⟨rfl, hsame⟩ | ⟨hge, hnot⟩
      · exact heff.trans (hstart g1 n heff.inv hn (fun _ => hsame.trans hocc) g' hg') (.inl rfl)
      · exact heff.trans (hstart g1 n heff.inv hn hnot g' hg') (.inr hge)
    · rename_i g1 heq
      rw [heq] at heff
      obtain rfl := Option.some.inj hg'
      exact heff
  · obtain rfl := Option.some.inj hg'
    exact internalRemoveItem_effect items w h hr

theorem startDecay_starts (fuel : ℕ) : Starts owed (startDecay items w fuel) := by
  induction fuel with
  | zero =>
    intro g r _ _ _ g' hg'
    cases hg'
  | succ fuel ih =>
    intro g r h hr hocc g' hg'
    unfold startDecay at hg'
    dsimp only at hg'
    split at hg'
    · obtain rfl := Option.some.inj hg'
      exact .idle h
    · split at hg'
      · obtain rfl := Option.some.inj hg'
        exact .idle h
      · rename_i hstate
        split at hg'
        · rename_i hdur
          obtain rfl := Option.some.inj hg'
          exact .push h hr (hocc hstate) hdur
        · exact internalDecayItem_effect ih h hr (hocc hstate) hg'

/-- The item is not decaying any more, or has been removed. -/
def Over (x : Item) : Prop := x.getDecaying ≠ .decayingTrue ∨ x.live = false

theorem Over.settled (h : Over (g.item r)) : Settled g r := by
  intro _ hstate hlive
  rcases h with h | h
  · exact absurd hstate h
  · rw [h] at hlive
    cases hlive

/-- The decay of the item ends its decay state: it can be removed, its target
exists and can be taken, and `setID` forgets the state if it is the same item. -/
def clears (items : ℕ → ItemType) (w : World) (r : ℕ) (x : Item) : Bool :=
  let curType := items x.id
  let newId := (x.getDecayTo items % 2 ^ 16).toNat
  let newType := items newId
  if curType.decayTo = 0 then w.canRemove r
  else
    x.id ≠ newId && w.hasIndex r && w.canTransform r && newType.id ≠ 0 &&
      if curType.alwaysOnTop ≠ newType.alwaysOnTop then
        !w.keeps r || (x.setID items newId).getDecaying ≠ .decayingTrue
      else if curType.type = newType.type then
        (updated items x newId (-1)).getDecaying ≠ .decayingTrue
      else newType.group ≠ .deprecated

theorem drop_over (w : World) (g : Game) (r : ℕ) : Over ((g.drop w r).item r) := by
  rw [Game.drop_item_self]
  exact .inr rfl

theorem create_isSome {type : ℕ} (hid : (items type).id ≠ 0) (hgroup : (items type).group ≠ .deprecated) (count : ℕ) :
    ∃ y, Item.create items type count = some y := by
  unfold Item.create
  dsimp only
  rw [if_neg (by simp [hid, hgroup])]
  split <;> exact ⟨_, rfl⟩

theorem internalRemoveItem_over (hparent : (g.item r).hasParent = true) (h : w.canRemove r = true) :
    Over ((internalRemoveItem items w g r).item r) := by
  unfold internalRemoveItem
  simp only [hparent, h, Bool.not_true, Bool.false_eq_true, if_false, drop_canDecay]
  exact drop_over w g r

theorem transformItem_over (hr : r < g.next) (hparent : (g.item r).hasParent = true)
    (hto : (items (g.item r).id).decayTo ≠ 0) (h : clears items w r (g.item r) = true) :
    Over ((transformItem items w g r ((g.item r).getDecayTo items % 2 ^ 16).toNat (-1)).1.item r) := by
  simp only [clears, if_neg hto, Bool.and_eq_true, decide_eq_true_eq] at h
  obtain ⟨⟨⟨⟨hid, hindex⟩, htransform⟩, hnew⟩, hend⟩ := h
  generalize ((g.item r).getDecayTo items % 2 ^ 16).toNat = newId at hid hnew hend ⊢
  unfold transformItem transformStep
  simp only [hid, hparent, hindex, htransform, hnew, false_and, Bool.not_true, Bool.false_eq_true, if_false]
  by_cases htop : (items (g.item r).id).alwaysOnTop ≠ (items newId).alwaysOnTop
  · rw [if_pos htop] at hend ⊢
    split
    · rename_i hkeeps
      rw [hkeeps] at hend
      rw [Game.modify_item_self]
      exact .inl (by simpa [lifted] using hend)
    · exact drop_over w _ r
  · rw [if_neg htop] at hend ⊢
    by_cases htype : (items (g.item r).id).type = (items newId).type
    · rw [if_pos htype] at hend
      rw [if_pos htype, if_neg (by simp), Game.modify_item_self]
      exact .inl (by simpa using hend)
    · rw [if_neg htype] at hend
      obtain ⟨y, hy⟩ := create_isSome hnew (by simpa using hend) 0
      rw [if_neg htype, if_pos trivial, hy]
      dsimp only
      split
      · rw [Game.push, Game.modify_item_of_ne _ hr.ne]
        exact drop_over w _ r
      · exact drop_over w _ r

/-- A decaying item that was taken out of the wheel is settled by its decay. -/
theorem internalDecayItem_settles {start : Game → ℕ → Option Game} (hstart : Starts owed start)
    (h : Inv owed g) (hr : r < g.next) (hocc : g.occurrences r = 0)
    (hclears : (g.item r).getDecaying = .decayingTrue → clears items w r (g.item r) = true)
    (hparent : (g.item r).hasParent = true) {g' : Game}
    (hg' : g' ∈ internalDecayItem items start w g r) : Settled g' r := by
  by_cases hstate : (g.item r).getDecaying = .decayingTrue
  case neg =>
    exact (internalDecayItem_effect hstart h hr hocc hg').settled r (Over.settled (.inl hstate))
  have hc := hclears hstate
  unfold internalDecayItem at hg'
  dsimp only at hg'
  split at hg'
  · rename_i hto
    obtain ⟨heff, hnew⟩ := transformItem_answer items w h hr (((g.item r).getDecayTo items % 2 ^ 16).toNat) (-1)
    have hover := transformItem_over hr hparent hto hc
    split at hg'
    · rename_i g1 n heq
      rw [heq] at heff hnew hover
      obtain ⟨hn, hor⟩ := hnew n rfl
      refine (hstart g1 n heff.inv hn ?_ g' hg').settled r hover.settled
      rcases hor with ⟨rfl, hsame⟩ | ⟨-, hnot⟩
      · exact fun _ => hsame.trans hocc
      · exact hnot
    · rename_i g1 heq
      rw [heq] at hover
      obtain rfl := Option.some.inj hg'
      exact hover.settled
  · rename_i hto
    obtain rfl := Option.some.inj hg'
    simp only [not_not] at hto
    simp only [clears, if_pos hto] at hc
    exact (internalRemoveItem_over hparent hc).settled

/-- An item that runs out in this tick while it is decaying ends its decay state. -/
def EndsWell (items : ℕ → ItemType) (w : World) (bucket : Fin 4) (r : ℕ) (x : Item) : Prop :=
  x.canDecay items = true → x.getDecaying = .decayingTrue → x.fate bucket = .decays →
    clears items w r (x.decreaseDuration x.decreaseTime) = true

end Functions

/-! ## A tick -/

/-- What does not touch the items of a bucket other than `r`, except that they
may be removed. -/
structure Apart (bucket : Fin 4) (r : ℕ) (g g' : Game) : Prop where
  settled : ∀ q ≠ r, Settled g q → Settled g' q
  next : g.next ≤ g'.next
  waiting : ∀ q ≠ r, q ∈ g.decayItems bucket → q ∈ g'.decayItems bucket
  lastBucket : g'.lastBucket = g.lastBucket
  others : ∀ q < g.next, q ≠ r → ∃ p, g'.item q = { g.item q with place := p }
  removed : ∀ q < g.next, (g'.item q).place = (g.item q).place ∨ (g'.item q).isRemoved = true
  stay : ∀ q < g.next, (g.item q).isRemoved = true → (g'.item q).isRemoved = true

section Tick
variable {items : ℕ → ItemType} {w : World} {bucket : Fin 4} {r : ℕ} {g g' g'' : Game}

theorem Apart.trans (h : Apart bucket r g g') (h' : Apart bucket r g' g'') : Apart bucket r g g'' where
  settled q hq hs := h'.settled q hq (h.settled q hq hs)
  next := h.next.trans h'.next
  waiting q hq hm := h'.waiting q hq (h.waiting q hq hm)
  lastBucket := h'.lastBucket.trans h.lastBucket
  others q hq hne := by
    obtain ⟨p, hp⟩ := h.others q hq hne
    obtain ⟨p', hp'⟩ := h'.others q (hq.trans_le h.next) hne
    exact ⟨p', by rw [hp', hp]⟩
  removed q hq := by
    have hq' := hq.trans_le h.next
    rcases h'.removed q hq' with h2 | h2
    · rcases h.removed q hq with h1 | h1
      · exact .inl (h2.trans h1)
      · exact .inr (h'.stay q hq' h1)
    · exact .inr h2
  stay q hq hrem := h'.stay q (hq.trans_le h.next) (h.stay q hq hrem)

theorem Effect.apart {owed : ℕ → ℕ} (h : Effect owed r g g') : Apart bucket r g g' :=
  ⟨fun q _ => h.settled q, h.next, fun q _ hm => by rwa [h.decayItems], h.lastBucket,
    h.others, h.removed,
    h.stay⟩

theorem Apart.modify {f : Item → Item} (hf : (f (g.item r)).place = (g.item r).place) :
    Apart bucket r g (g.modify r f) := by
  have hplace : ∀ q, ((g.modify r f).item q).place = (g.item q).place := by
    intro q
    by_cases hq : q = r
    · rw [hq, Game.modify_item_self, hf]
    · rw [Game.modify_item_of_ne g hq]
  refine ⟨fun q hq hs => ?_, le_rfl, fun _ _ hm => hm, rfl, fun q _ hq => ?_, fun q _ => .inl (hplace q),
    fun q _ hrem => ?_⟩
  · unfold Settled
    rw [Game.modify_item_of_ne g hq]
    exact hs
  · exact ⟨_, Game.modify_item_of_ne g hq f⟩
  · rwa [Item.isRemoved, hplace q]

theorem Apart.of_lists (hitem : g'.item = g.item) (hnext : g'.next = g.next) (hlast : g'.lastBucket = g.lastBucket)
    (hocc : ∀ q ≠ r, g'.occurrences q = g.occurrences q)
    (hwait : ∀ q ≠ r, q ∈ g.decayItems bucket → q ∈ g'.decayItems bucket) : Apart bucket r g g' := by
  refine ⟨fun q hq hs => ?_, hnext.ge, hwait, hlast, fun q _ _ => ⟨_, by rw [hitem]⟩,
    fun q _ => .inl (by rw [hitem]), fun q _ hrem => by rwa [hitem]⟩
  unfold Settled
  rw [hitem, hnext, hocc q hq]
  exact hs

theorem Apart.releaseItem : Apart bucket r g (g.releaseItem r) :=
  .of_lists rfl rfl rfl (fun _ _ => rfl) fun _ _ hm => hm

theorem Apart.erase (h : r ∈ g.decayItems bucket) : Apart bucket r g (g.erase bucket r) := by
  refine .of_lists rfl rfl rfl (fun q hq => ?_) fun q hq hm => ?_
  · have := Game.occurrences_erase h q
    rwa [if_neg (Ne.symm hq)] at this
  · simp only [Game.erase, Function.update_self]
    exact (List.mem_erase_of_ne hq).mpr hm

theorem Apart.pushBack (b : Fin 4) : Apart bucket r g (g.pushBack b r) := by
  refine .of_lists rfl rfl rfl (fun q hq => ?_) fun q hq hm => ?_
  · rw [Game.occurrences_pushBack, if_neg (Ne.symm hq), Nat.add_zero]
  · simp only [Game.pushBack, Function.update_apply]
    split
    · rename_i heq
      exact List.mem_append_left _ (heq ▸ hm)
    · exact hm

/-- One reference is between the wheel and the list of releases. -/
def oweOne (r : ℕ) : ℕ → ℕ := fun q => if r = q then 1 else 0

theorem erase_inv (h : Inv (fun _ => 0) g) (hr : r ∈ g.decayItems bucket) :
    Inv (oweOne r) (g.erase bucket r) ∧ (g.erase bucket r).occurrences r = 0 := by
  have hocc := Game.occurrences_erase hr
  have hself := hocc r
  rw [if_pos rfl] at hself
  have hone := h.once r
  refine ⟨⟨fun q => ?_, fun q hq => ?_, fun q hq => ?_⟩, by omega⟩
  · have := h.once q
    have := hocc q
    omega
  · have hrefs := h.refs q hq
    have := hocc q
    change (g.item q).referenceCounter = (g.item q).owner + (g.erase bucket r).occurrences q +
      g.toReleaseItems.count q + if r = q then 1 else 0
    omega
  · obtain ⟨h0, hrel, -⟩ := h.known q hq
    have := hocc q
    exact ⟨by omega, hrel, by unfold oweOne; omega⟩

theorem releaseItem_inv (h : Inv (oweOne r) g) : Inv (fun _ => 0) (g.releaseItem r) := by
  have hcount : ∀ q, (g.releaseItem r).toReleaseItems.count q = g.toReleaseItems.count q + oweOne r q := by
    intro q
    change (g.toReleaseItems ++ [r]).count q = _
    rw [List.count_append, List.count_singleton]
    simp [oweOne]
  refine ⟨h.once, fun q hq => ?_, fun q hq => ?_⟩
  · have hrefs := h.refs q hq
    rw [hcount, Game.occurrences_releaseItem]
    change (g.item q).referenceCounter = (g.item q).owner + _ + _ + 0
    omega
  · obtain ⟨h0, hrel, howed⟩ := h.known q hq
    rw [hcount]
    exact ⟨h0, by omega, rfl⟩

theorem pushBack_inv (h : Inv (oweOne r) g) (hocc : g.occurrences r = 0) (b : Fin 4) :
    Inv (fun _ => 0) (g.pushBack b r) := by
  have hcount := g.occurrences_pushBack b r
  refine ⟨fun q => ?_, fun q hq => ?_, fun q hq => ?_⟩
  · rw [hcount]
    have := h.once q
    split
    · subst r
      omega
    · omega
  · have hrefs := h.refs q hq
    rw [hcount]
    change (g.item q).referenceCounter = (g.item q).owner + (_ + if r = q then 1 else 0) + g.toReleaseItems.count q + 0
    unfold oweOne at hrefs
    omega
  · obtain ⟨h0, hrel, howed⟩ := h.known q hq
    rw [hcount]
    unfold oweOne at howed
    exact ⟨by omega, hrel, rfl⟩

theorem Item.decreaseDuration_pos {x : Item} (h : x.fate bucket ≠ .decays) :
    0 < (x.decreaseDuration x.decreaseTime).getDuration := by
  have hleft : 0 < x.signedDuration - x.decreaseTime := by
    by_contra hle
    apply h
    unfold Item.fate
    dsimp only
    rw [if_pos (not_lt.mp hle)]
  unfold Item.getDuration
  rw [show (x.decreaseDuration x.decreaseTime).attr.duration =
    some (x.attr.duration.getD 0 - x.decreaseTime) from rfl, Option.getD_some]
  unfold Item.decreaseTime Item.signedDuration Item.getDuration at *
  rw [Int.bmod_def] at hleft ⊢
  push_cast at hleft ⊢
  split_ifs at hleft ⊢ <;> omega

theorem Item.hasParent_of_canDecay {x : Item} (h : x.canDecay items = true) : x.hasParent = true := by
  simp only [Item.canDecay, Item.isRemoved, Bool.and_eq_true, Bool.not_eq_true', decide_eq_false_iff_not, not_not] at h
  simp [Item.hasParent, h.1.1]

/-- What a tick does to one item of its bucket. -/
structure Ticked (items : ℕ → ItemType) (bucket : Fin 4) (r : ℕ) (g g' : Game) : Prop
    extends Apart bucket r g g' where
  inv : Inv (fun _ => 0) g'
  own : Settled g r → Settled g' r
  /-- the duration of an item that does not run out is decreased -/
  lapse : (g.item r).canDecay items = true → (g.item r).fate bucket ≠ .decays →
    (g'.item r).attributes = ((g.item r).decreaseDuration (g.item r).decreaseTime).attributes

theorem checkItem_ticked {fuel : ℕ} (h : Inv (fun _ => 0) g) (hr : r ∈ g.decayItems bucket)
    (hends : EndsWell items w bucket r (g.item r)) (hg' : g' ∈ checkItem items fuel w bucket g r) :
    Ticked items bucket r g g' := by
  have hlt : r < g.next := by
    by_contra hge
    have h0 := (h.known r (not_lt.mp hge)).1
    have := (erase_inv h hr).2
    have := Game.occurrences_erase hr r
    rw [if_pos rfl] at this
    omega
  unfold checkItem at hg'
  dsimp only at hg'
  split at hg'
  · rename_i hcan
    obtain rfl := Option.some.inj hg'
    -- erasing and releasing commute
    change Ticked items bucket r g (((g.modify r (·.setDecaying .decayingFalse)).erase bucket r).releaseItem r)
    have hmod : Inv (fun _ => 0) (g.modify r (·.setDecaying .decayingFalse)) := modify_inv h rfl rfl
    have hstay : Apart bucket r g (g.modify r (·.setDecaying .decayingFalse)) := .modify rfl
    have hout := hstay.trans (.erase hr)
    refine ⟨hout.trans .releaseItem,
      releaseItem_inv (erase_inv hmod hr).1, fun _ => Over.settled (.inl ?_), fun hc => ?_⟩
    · change ((g.modify r (·.setDecaying .decayingFalse)).item r).getDecaying ≠ _
      rw [Game.modify_item_self]
      exact fun h => by cases h
    · rw [hc] at hcan
      cases hcan
  · rename_i hcan
    have hcan' : (g.item r).canDecay items = true := by simpa using hcan
    have hmod : Inv (fun _ => 0) (g.modify r (·.decreaseDuration (g.item r).decreaseTime)) :=
      modify_inv h rfl rfl
    obtain ⟨hinv, hocc⟩ := erase_inv hmod hr
    have hstay : Apart bucket r g (g.modify r (·.decreaseDuration (g.item r).decreaseTime)) :=
      .modify rfl
    have hout := hstay.trans (.erase hr)
    have hself := g.modify_item_self r (·.decreaseDuration (g.item r).decreaseTime)
    split at hg'
    · rename_i hfate
      obtain ⟨g2, hg2, rfl⟩ := Option.map_eq_some_iff.mp hg'
      have heff := internalDecayItem_effect (startDecay_starts fuel) hinv hlt hocc hg2
      refine ⟨hout.trans (heff.apart.trans .releaseItem),
        releaseItem_inv heff.inv, fun _ => ?_, fun _ hne => absurd hfate hne⟩
      change Settled g2 r
      refine internalDecayItem_settles (startDecay_starts fuel) hinv hlt hocc ?_ ?_ hg2
      · intro hstate
        change clears items w r ((g.modify r (·.decreaseDuration (g.item r).decreaseTime)).item r) = true
        change ((g.modify r (·.decreaseDuration (g.item r).decreaseTime)).item r).getDecaying = _ at hstate
        rw [hself] at hstate ⊢
        exact hends hcan' hstate hfate
      · change ((g.modify r (·.decreaseDuration (g.item r).decreaseTime)).item r).hasParent = true
        rw [hself]
        exact Item.hasParent_of_canDecay hcan'
    · rename_i newBucket hfate
      obtain rfl := Option.some.inj hg'
      have hne : (g.item r).fate bucket ≠ .decays := by rw [hfate]; exact fun h => by cases h
      refine ⟨hout.trans (.pushBack newBucket),
        pushBack_inv hinv hocc newBucket, fun _ _ _ _ => ⟨?_, ?_⟩, fun _ _ => ?_⟩
      · rw [Game.occurrences_pushBack, hocc, if_pos rfl]
      · change 0 < ((g.modify r (·.decreaseDuration (g.item r).decreaseTime)).item r).getDuration
        rw [hself]
        exact Item.decreaseDuration_pos hne
      · change ((g.modify r (·.decreaseDuration (g.item r).decreaseTime)).item r).attributes = _
        rw [hself]
    · rename_i hfate
      obtain rfl := Option.some.inj hg'
      have hne : (g.item r).fate bucket ≠ .decays := by rw [hfate]; exact fun h => by cases h
      refine ⟨hstay, hmod, fun hs hr' hstate hlive => ?_, fun _ _ => by rw [hself]⟩
      rw [hself] at hstate hlive ⊢
      exact ⟨(hs hlt hstate hlive).1, Item.decreaseDuration_pos hne⟩

theorem EndsWell.place {x : Item} (h : EndsWell items w bucket r x) {p : Place}
    (hp : p = x.place ∨ ({ x with place := p } : Item).isRemoved = true) :
    EndsWell items w bucket r { x with place := p } := by
  intro hcan
  rcases hp with rfl | hrem
  · exact h hcan
  · simp only [Item.canDecay, hrem, Bool.not_true, Bool.false_and, Bool.false_eq_true] at hcan

/-- What a tick does to the durations of the items it handles: they are
decreased once, unless the item runs out or is removed before its turn. -/
structure Turned (items : ℕ → ItemType) (bucket : Fin 4) (l : List ℕ) (g g' : Game) : Prop where
  others : ∀ r < g.next, r ∉ l → (g'.item r).attributes = (g.item r).attributes
  lapse : ∀ r ∈ l, (g.item r).canDecay items = true → (g.item r).fate bucket ≠ .decays →
    (g'.item r).attributes = ((g.item r).decreaseDuration (g.item r).decreaseTime).attributes ∨
      (g'.item r).isRemoved = true

theorem bucket_turned {fuel : ℕ} (l : List ℕ) (hl : l.Nodup) {g g' : Game} (hmem : ∀ r ∈ l, r ∈ g.decayItems bucket)
    (hlt : ∀ r ∈ l, r < g.next) (h : Inv (fun _ => 0) g) (hs : ∀ r, Settled g r)
    (hends : ∀ r ∈ l, EndsWell items w bucket r (g.item r)) (hg' : g' ∈ l.foldlM (checkItem items fuel w bucket) g) :
    Inv (fun _ => 0) g' ∧ (∀ r, Settled g' r) ∧ g.next ≤ g'.next ∧
      (∀ r < g.next, (g.item r).isRemoved = true → (g'.item r).isRemoved = true) ∧
      Turned items bucket l g g' := by
  induction l generalizing g with
  | nil =>
    obtain rfl := Option.some.inj hg'
    exact ⟨h, hs, le_rfl, fun _ _ hrem => hrem, fun _ _ _ => rfl, fun _ hr => by cases hr⟩
  | cons a l ih =>
    obtain ⟨ha, hl⟩ := List.nodup_cons.mp hl
    obtain ⟨g1, hg1, hrest⟩ := Option.bind_eq_some_iff.mp hg'
    have htick := checkItem_ticked h (hmem a (by simp)) (hends a (by simp)) hg1
    have hne : ∀ r ∈ l, r ≠ a := fun r hr heq => ha (heq ▸ hr)
    have hs1 : ∀ r, Settled g1 r := by
      intro r
      by_cases heq : r = a
      · subst heq
        exact htick.own (hs r)
      · exact htick.settled r heq (hs r)
    have hends1 : ∀ r ∈ l, EndsWell items w bucket r (g1.item r) := by
      intro r hr
      have hr' := hlt r (List.mem_cons_of_mem a hr)
      obtain ⟨p, hp⟩ := htick.others r hr' (hne r hr)
      have hplace := htick.removed r hr'
      rw [hp] at hplace ⊢
      exact (hends r (List.mem_cons_of_mem a hr)).place hplace
    obtain ⟨hinv, hset, hnext, hstay, hturn⟩ := ih hl
      (fun r hr => htick.waiting r (hne r hr) (hmem r (List.mem_cons_of_mem a hr)))
      (fun r hr => (hlt r (List.mem_cons_of_mem a hr)).trans_le htick.next) htick.inv hs1 hends1 hrest
    refine ⟨hinv, hset, htick.next.trans hnext,
      fun r hr hrem => hstay r (hr.trans_le htick.next) (htick.stay r hr hrem), fun r hr hnot => ?_,
      fun r hr hcan hfate => ?_⟩
    · have hra : r ≠ a := fun heq => hnot (by simp [heq])
      have hrl : r ∉ l := fun hrl => hnot (List.mem_cons_of_mem a hrl)
      obtain ⟨p, hp⟩ := htick.others r hr hra
      rw [hturn.others r (hr.trans_le htick.next) hrl, hp]
    · rcases List.mem_cons.mp hr with rfl | hrl
      · -- its turn comes first
        left
        rw [hturn.others r ((hlt r (by simp)).trans_le htick.next) ha]
        exact htick.lapse hcan hfate
      · have hr' := hlt r (List.mem_cons_of_mem a hrl)
        obtain ⟨p, hp⟩ := htick.others r hr' (hne r hrl)
        rcases htick.removed r hr' with hplace | hrem
        · have hsame : g1.item r = g.item r := by
            rw [hp] at hplace
            rw [hp, show p = (g.item r).place from hplace]
          have := hturn.lapse r hrl
          rw [hsame] at this
          exact this hcan hfate
        · exact .inr (hstay r (hr'.trans_le htick.next) hrem)

theorem pushBacks_spec (f : ℕ → Fin 4) (l : List ℕ) (g : Game) :
    let g' := l.foldl (fun g' r => g'.pushBack (f r) r) g
    g'.item = g.item ∧ g'.next = g.next ∧ g'.toDecayItems = g.toDecayItems ∧
      g'.toReleaseItems = g.toReleaseItems ∧ g'.lastBucket = g.lastBucket ∧
      ∀ q, g'.occurrences q = g.occurrences q + l.count q := by
  induction l generalizing g with
  | nil => exact ⟨rfl, rfl, rfl, rfl, rfl, fun _ => rfl⟩
  | cons a l ih =>
    obtain ⟨h1, h2, h3, h4, h5, h6⟩ := ih (g.pushBack (f a) a)
    refine ⟨h1, h2, h3, h4, h5, fun q => ?_⟩
    rw [List.foldl_cons, h6, Game.occurrences_pushBack, List.count_cons]
    simp only [beq_iff_eq]
    omega

theorem cleanup_spec (g : Game) : (∀ r, (cleanup g).item r = { g.item r with
      referenceCounter := (g.item r).referenceCounter - g.toReleaseItems.count r }) ∧
    (cleanup g).next = g.next ∧ (cleanup g).toReleaseItems = [] ∧
    ∀ r, (cleanup g).occurrences r = g.occurrences r := by
  obtain ⟨h1, h2, h3, h4, -, h6⟩ := pushBacks_spec (fun r => (g.freeItems.item r).bucketOf g.freeItems.lastBucket)
      g.freeItems.toDecayItems g.freeItems
  refine ⟨fun r => congrFun h1 r, h2, h4, fun r => ?_⟩
  have hocc := h6 r
  have hsame : g.freeItems.occurrences r = g.occurrences r := rfl
  simp only [Game.occurrences, h3, List.count_nil, cleanup] at hocc hsame ⊢
  omega

theorem cleanup_inv (h : Inv (fun _ => 0) g) : Inv (fun _ => 0) (cleanup g) := by
  obtain ⟨hitem, hnext, hrel, hocc⟩ := cleanup_spec g
  refine ⟨fun r => by rw [hocc]; exact h.once r, fun r hr => ?_, fun r hr => ?_⟩
  · have hrefs := h.refs r (hnext ▸ hr)
    have howner : ((cleanup g).item r).owner = (g.item r).owner := by rw [hitem]; rfl
    rw [howner, hocc, hrel, hitem]
    simp only [List.count_nil]
    omega
  · rw [hocc, hrel]
    exact ⟨(h.known r (hnext ▸ hr)).1, rfl, rfl⟩

theorem cleanup_settled (h : Settled g r) : Settled (cleanup g) r := by
  obtain ⟨hitem, hnext, -, hocc⟩ := cleanup_spec g
  intro hr hstate hlive
  rw [hitem] at hstate hlive ⊢
  rw [hocc]
  exact h (hnext ▸ hr) hstate hlive

theorem clone_sound (h : Inv (fun _ => 0) g) (hs : ∀ q, Settled g q) (hr : r < g.next)
    (hlive : (g.item r).getDecaying = .decayingTrue → (g.item r).live = true) :
    Inv (fun _ => 0) (clone items g r) ∧ ∀ q, Settled (clone items g r) q := by
  unfold clone
  dsimp only
  cases hy : (g.item r).copy items with
  | none => exact ⟨h, hs⟩
  | some y =>
    dsimp only
    obtain ⟨hrefs, hplace, hstate⟩ := Item.copy_fresh items hy
    have hplace' : y.place ≠ .gone := by rw [hplace]; exact fun h => by cases h
    have hadd : Inv (fun _ => 0) (g.add y) := add_inv h hrefs hplace'
    split
    · rename_i hpush
      have hocc : (g.add y).occurrences g.next = 0 := (h.known g.next le_rfl).1
      have hdur : 0 < ((g.add y).item g.next).getDuration := by
        rw [Game.add_item_self]
        exact hpush.2
      have heff : Effect (fun _ => 0) g.next (g.add y) ((g.add y).push g.next) :=
        .push hadd (Nat.lt_succ_self _) hocc hdur
      refine ⟨heff.inv, fun q => ?_⟩
      by_cases hq : q = g.next
      · subst hq
        exact push_settled hocc hdur
      · exact heff.settled q (add_settled hq (hs q))
    · rename_i hpush
      -- a decaying original is live, so its duration is left
      have hnot : y.getDecaying ≠ .decayingTrue := by
        intro hy
        obtain ⟨hattr, hx, hdur⟩ := hstate hy
        have := (hs r hr hx (hlive hx)).2
        exact hpush ⟨hattr, by omega⟩
      have heff : Effect (fun _ => 0) g.next g (g.add y) := .add h hrefs hplace' hnot
      exact ⟨hadd, fun q => heff.settled q (hs q)⟩

theorem checkDecay_sound {fuel : ℕ} (h : Inv (fun _ => 0) g) (hs : ∀ q, Settled g q)
    (hends : ∀ r ∈ g.decayItems (g.lastBucket + 1), EndsWell items w (g.lastBucket + 1) r (g.item r))
    (hg' : g' ∈ checkDecay items fuel w g) :
    Inv (fun _ => 0) g' ∧ (∀ q, Settled g' q) ∧
      Turned items (g.lastBucket + 1) (g.decayItems (g.lastBucket + 1)) g g' := by
  have hcount : ∀ r, (g.decayItems (g.lastBucket + 1)).count r ≤ g.occurrences r := by
    intro r
    have := Finset.single_le_sum (f := fun b => (g.decayItems b).count r) (fun _ _ => Nat.zero_le _)
      (Finset.mem_univ (g.lastBucket + 1))
    exact this.trans (Nat.le_add_left _ _)
  have hnodup : (g.decayItems (g.lastBucket + 1)).Nodup :=
    List.nodup_iff_count_le_one.mpr fun r => (hcount r).trans (h.once r)
  have hlt : ∀ r ∈ g.decayItems (g.lastBucket + 1), r < g.next := by
    intro r hr
    by_contra hge
    have h0 := (h.known r (not_lt.mp hge)).1
    have hpos := List.count_pos_iff.mpr hr
    have := hcount r
    omega
  obtain ⟨g1, hg1, hlast⟩ := Option.bind_eq_some_iff.mp hg'
  obtain rfl := Option.some.inj hlast
  obtain ⟨hinv, hset, hnext, hstay, hturn⟩ :=
    bucket_turned _ hnodup (fun r hr => hr) hlt h hs hends hg1
  have hinv' : Inv (fun _ => 0) { g1 with lastBucket := g.lastBucket + 1 } :=
    ⟨hinv.once, hinv.refs, hinv.known⟩
  obtain ⟨hitem, -⟩ := cleanup_spec { g1 with lastBucket := g.lastBucket + 1 }
  refine ⟨cleanup_inv hinv', fun q => cleanup_settled (hset q), fun r hr hnot => ?_, fun r hr hcan hfate => ?_⟩
  · rw [hitem]
    exact hturn.others r hr hnot
  · rw [hitem]
    exact hturn.lapse r hr hcan hfate

end Tick

/-! ## Runs -/

/-- What has to hold before an event: no item is queued that is still in the
wheel although its decay state was reset, no removed item is cloned while it is
decaying, and the items that run out in a tick end their decay state. -/
def Ok (items : ℕ → ItemType) (g : Game) : Event → Prop
  | .startDecay _ r => r < g.next → (g.item r).canDecay items = true →
    (g.item r).getDecaying ≠ .decayingTrue → g.occurrences r = 0
  | .clone r => r < g.next → (g.item r).getDecaying = .decayingTrue → (g.item r).live = true
  | .checkDecay w => ∀ r ∈ g.decayItems (g.lastBucket + 1), EndsWell items w (g.lastBucket + 1) r (g.item r)
  | _ => True

instance (items : ℕ → ItemType) (w : World) (bucket : Fin 4) (r : ℕ) (x : Item) :
    Decidable (EndsWell items w bucket r x) :=
  inferInstanceAs (Decidable (_ → _ → _ → _))

instance (items : ℕ → ItemType) (g : Game) : ∀ e, Decidable (Ok items g e)
  | .startDecay _ r => inferInstanceAs (Decidable (r < g.next → (g.item r).canDecay items = true →
    (g.item r).getDecaying ≠ .decayingTrue → g.occurrences r = 0))
  | .clone r => inferInstanceAs (Decidable (r < g.next → (g.item r).getDecaying = .decayingTrue →
    (g.item r).live = true))
  | .checkDecay w => inferInstanceAs (Decidable (∀ r ∈ g.decayItems (g.lastBucket + 1),
    EndsWell items w (g.lastBucket + 1) r (g.item r)))
  | .transformItem .. | .setID .. | .remove .. | .cleanup => .isTrue trivial

section Runs
variable {items : ℕ → ItemType}

theorem step_sound {fuel : ℕ} {g g' : Game} {e : Event} (h : Inv (fun _ => 0) g) (hs : ∀ r, Settled g r)
    (hok : Ok items g e) (hg' : g' ∈ step items fuel g e) : Inv (fun _ => 0) g' ∧ ∀ r, Settled g' r := by
  have hkeep : ∀ {r : ℕ} {g' : Game}, Effect (fun _ => 0) r g g' → Inv (fun _ => 0) g' ∧ ∀ r, Settled g' r :=
        fun heff => ⟨heff.inv, fun q => heff.settled q (hs q)⟩
  cases e with
  | startDecay w r =>
    simp only [step] at hg'
    split at hg'
    · rename_i hr
      by_cases hcan : (g.item r).canDecay items = true
      · exact hkeep (startDecay_starts fuel g r h hr (hok hr hcan) g' hg')
      · cases fuel with
        | zero => cases hg'
        | succ fuel =>
          simp only [startDecay, hcan, Bool.not_false, if_true] at hg'
          obtain rfl := Option.some.inj hg'
          exact ⟨h, hs⟩
    · obtain rfl := Option.some.inj hg'
      exact ⟨h, hs⟩
  | transformItem w r newId newCount =>
    obtain rfl := Option.some.inj hg'
    split
    · rename_i hr
      exact hkeep (transformItem_answer items w h hr newId newCount).1
    · exact ⟨h, hs⟩
  | setID r newId =>
    obtain rfl := Option.some.inj hg'
    split
    · exact hkeep (.modify h (Item.setID_calm items _ _))
    · exact ⟨h, hs⟩
  | clone r =>
    obtain rfl := Option.some.inj hg'
    split
    · rename_i hr
      exact clone_sound h hs hr (hok hr)
    · exact ⟨h, hs⟩
  | remove w r =>
    obtain rfl := Option.some.inj hg'
    split
    · rename_i hr
      exact hkeep (internalRemoveItem_effect items w h hr)
    · exact ⟨h, hs⟩
  | checkDecay w =>
    obtain ⟨hinv, hset, -⟩ := checkDecay_sound h hs hok hg'
    exact ⟨hinv, hset⟩
  | cleanup =>
    obtain rfl := Option.some.inj hg'
    exact ⟨cleanup_inv h, fun r => cleanup_settled (hs r)⟩

/-- A step of a run, which ends when a step does not return. -/
def stepAll (items : ℕ → ItemType) (fuel : ℕ) (s : Option Game) (e : Event) : Option Game :=
  s.bind (step items fuel · e)

/-- In every run whose events meet the condition, every state reached holds each
item at most once in the wheel, and exactly once while it is decaying and not
removed; the references of an item are those of its owner, of the wheel and of
the releases to come. A tick decreases the durations of its bucket, once each. -/
theorem wheel_holds_once (items : ℕ → ItemType) (fuel : ℕ) (g : Game) (es : List Event) (h : Inv (fun _ => 0) g)
    (hs : ∀ r, Settled g r) (hok : Along (stepAll items fuel) (fun s e => ∀ g ∈ s, Ok items g e) (some g) es) :
    (∀ pre, pre <+: es → ∀ g' ∈ run (stepAll items fuel) (some g) pre, (∀ r, g'.occurrences r ≤ 1) ∧
      (∀ r < g'.next, (g'.item r).getDecaying = .decayingTrue → (g'.item r).live = true → g'.occurrences r = 1) ∧
      ∀ r < g'.next, (g'.item r).referenceCounter = (g'.item r).owner + g'.occurrences r + g'.toReleaseItems.count r) ∧
    ∀ pre w, pre ++ [.checkDecay w] <+: es → ∀ g' ∈ run (stepAll items fuel) (some g) pre,
      ∀ g'' ∈ checkDecay items fuel w g',
        Turned items (g'.lastBucket + 1) (g'.decayItems (g'.lastBucket + 1)) g' g'' := by
  have hstep : ∀ (s : Option Game) (e : Event), (∀ g ∈ s, Inv (fun _ => 0) g ∧ ∀ r, Settled g r) →
      (∀ g ∈ s, Ok items g e) → ∀ g ∈ stepAll items fuel s e, Inv (fun _ => 0) g ∧ ∀ r, Settled g r := by
    intro s e hinv hoks g' hg'
    obtain ⟨g0, hg0, hg'⟩ := Option.bind_eq_some_iff.mp hg'
    obtain ⟨h0, hs0⟩ := hinv g0 hg0
    exact step_sound h0 hs0 (hoks g0 hg0) hg'
  have hreach := inv_reached hstep (s := some g) (fun g' hg' => by
    obtain rfl := Option.some.inj hg'
    exact ⟨h, hs⟩) hok
  refine ⟨fun pre hpre g' hg' => ?_, fun pre w hpre g' hg' g'' hg'' => ?_⟩
  · obtain ⟨hinv, hset⟩ := hreach pre hpre g' hg'
    exact ⟨hinv.once, fun r hr hstate hlive => (hset r hr hstate hlive).1, hinv.refs⟩
  · obtain ⟨hinv, hset⟩ := hreach pre ((List.prefix_append pre _).trans hpre) g' hg'
    obtain ⟨post, rfl⟩ := hpre
    exact (checkDecay_sound hinv hset (hok.left.last g' hg') hg'').2.2

end Runs

/-- A torch burns for two seconds, or for five when it is new; then it is burnt out. -/
def torches : ℕ → ItemType
  | 1 => { id := 1, decayTime := 2, decayTo := 3 }
  | 2 => { id := 2, decayTime := 5, decayTo := 3 }
  | 3 => { id := 3 }
  | _ => { id := 0 }

def meadow : World := ⟨fun _ => true, fun _ => true, fun _ => true, fun _ => true, fun _ => []⟩

/-- A torch of the first kind lies in the world. -/
def lit : Game where
  item := fun _ => { Item.new torches 1 1 with place := .world }
  next := 1

theorem lit_inv : Inv (fun _ => 0) lit := by
  have hocc : ∀ r, lit.occurrences r = 0 := fun r => by simp [Game.occurrences, lit]
  refine ⟨fun r => by rw [hocc]; exact Nat.zero_le 1, fun r _ => ?_, fun r _ => ⟨hocc r, rfl, rfl⟩⟩
  rw [hocc]
  rfl

theorem lit_settled (r : ℕ) : Settled lit r := fun _ h => by cases h

/-- It is queued and burns out in the eighth tick. -/
def burning : List Event := .startDecay meadow 0 :: .cleanup :: List.replicate 8 (.checkDecay meadow)

theorem wheel_holds_once_burning : ∃ g ∈ run (stepAll torches 2) (some lit) burning,
      (g.item 0).id = 3 ∧ (g.item 0).referenceCounter = 1 ∧ g.occurrences 0 ≤ 1 := by
  have hsound := (wheel_holds_once torches 2 lit burning lit_inv lit_settled (by decide +kernel)).1
    burning List.prefix_rfl
  have hend : (run (stepAll torches 2) (some lit) burning).map
      (fun g => ((g.item 0).id, (g.item 0).referenceCounter)) = some (3, 1) := by
    decide +kernel
  obtain ⟨g, hg, heq⟩ := Option.map_eq_some_iff.mp hend
  obtain ⟨hid, hrefs⟩ := Prod.mk.inj heq
  exact ⟨g, hg, hid, hrefs, (hsound g hg).1 0⟩

/-- A burning torch is made new and queued again. -/
def relit : List Event := [.startDecay meadow 0, .transformItem meadow 0 2 (-1), .startDecay meadow 0]

/-- It is twice in the wheel, and loses two seconds in one revolution. -/
theorem relit_twice : (run (stepAll torches 2) (some lit) relit).map
      (fun g => (g.occurrences 0, (g.item 0).getDuration)) = some (2, 5000) ∧
    (run (stepAll torches 2) (some lit) (relit ++ .cleanup :: List.replicate 4 (.checkDecay meadow))).map
      (fun g => (g.occurrences 0, (g.item 0).getDuration)) = some (2, 3000) := by
  decide +kernel

end ForgottenServer.Decay
