import ForgottenServer.Lib.Run
import ForgottenServer.Lib.Table
import Mathlib.Algebra.BigOperators.Fin
import Mathlib.Algebra.BigOperators.Group.Finset.Basic
import Mathlib.Data.List.Count
import Mathlib.Tactic.Common

/-! # The life of a creature

A creature counts the references to it and is deleted by whoever takes back the last
one. References are held by the map, the ten lists of `checkCreatures`, the creatures
to be released, the lists of targets and friends of the monsters, the lists of
summons, and by sessions, spawns and tiles that tell of a creature. Creatures stand for
their addresses, and an address is not used a second time. -/
namespace ForgottenServer.Creatures
open ForgottenServer.Lib.Run ForgottenServer.Lib

/-- `EVENT_CREATURECOUNT`. -/
abbrev eventCreatureCount : ℕ := 10

structure Creature where
  /-- there is one at the address, and its destructor has not run -/
  alive : Bool := false
  /-- nobody but the caller of `new` has it -/
  loose : Bool := false
  referenceCounter : ℕ := 0
  health : ℤ := 1000
  /-- it has a parent, a tile of the map -/
  placed : Bool := false
  isInternalRemoved : Bool := false
  creatureCheck : Bool := false
  inCheckCreaturesVector : Bool := false
  master : Option ℕ := none
  summons : List ℕ := []
  targetList : List ℕ := []
  friendList : List ℕ := []
  /-- how many sessions, spawns and notifications of tiles hold it -/
  held : ℕ := 0
  deriving DecidableEq, Repr

structure Game where
  creatures : ℕ → Creature := fun _ => {}
  /-- the addresses used so far -/
  created : ℕ := 0
  checkCreatureLists : Fin eventCreatureCount → List ℕ := fun _ => []
  toReleaseCreatures : List ℕ := []
  /-- the list of the next call of `checkCreatures` -/
  index : Fin eventCreatureCount := 0
  /-- the list `checkCreatures` goes through, and where it is in it -/
  cursor : Option (Fin eventCreatureCount × ℕ) := none
  /-- its calls so far -/
  calls : ℕ := 0
  /-- the creatures it let think -/
  visited : List ℕ := []

/-! ## Operations -/

def Game.modify (g : Game) (c : ℕ) (f : Creature → Creature) : Game :=
  { g with creatures := Function.update g.creatures c (f (g.creatures c)) }

def Game.incrementReferenceCounter (g : Game) (c : ℕ) : Game :=
  g.modify c fun x => { x with referenceCounter := x.referenceCounter + 1, loose := false }

def Game.decrementReferenceCounter (g : Game) (c : ℕ) : Game :=
  g.modify c fun x => { x with referenceCounter := x.referenceCounter - 1 }

/-- `new Player`, `new Monster`, `new Npc`. -/
def Game.create (g : Game) : Game :=
  { g.modify g.created (fun _ => { alive := true, loose := true }) with created := g.created + 1 }

/-- `internalPlaceCreature`, when `Map::placeCreature` finds room. -/
def Game.internalPlaceCreature (g : Game) (c : ℕ) : Game :=
  if (g.creatures c).placed then g
  else (g.modify c fun x => { x with placed := true }).incrementReferenceCounter c

def Game.releaseCreature (g : Game) (c : ℕ) : Game :=
  { g with toReleaseCreatures := g.toReleaseCreatures ++ [c] }

def Game.removeCreatureCheck (g : Game) (c : ℕ) : Game :=
  if (g.creatures c).inCheckCreaturesVector then g.modify c fun x => { x with creatureCheck := false }
  else g

/-- `removeCreature`; the summons are removed after it, one by one. -/
def Game.removeCreature (g : Game) (c : ℕ) : Game :=
  if (g.creatures c).isInternalRemoved || !(g.creatures c).placed then g
  else
    let g := g.modify c fun x => { x with placed := false, isInternalRemoved := true }
    (g.releaseCreature c).removeCreatureCheck c

def Game.setCheckList (g : Game) (i : Fin eventCreatureCount) (l : List ℕ) : Game :=
  { g with checkCreatureLists := Function.update g.checkCreatureLists i l }

/-- `addCreatureCheck`, with the list that `uniform_random` names. -/
def Game.addCreatureCheck (g : Game) (c : ℕ) (i : Fin eventCreatureCount) : Game :=
  let g := g.modify c fun x => { x with creatureCheck := true }
  if (g.creatures c).inCheckCreaturesVector then g
  else
    let g := g.modify c fun x => { x with inCheckCreaturesVector := true }
    (g.setCheckList i (g.checkCreatureLists i ++ [c])).incrementReferenceCounter c

def Game.decrementAll (g : Game) (l : List ℕ) : Game := l.foldl Game.decrementReferenceCounter g

/-- The part of `cleanup` for the creatures. -/
def Game.cleanup (g : Game) : Game :=
  { g with toReleaseCreatures := [] }.decrementAll g.toReleaseCreatures

/-- One turn of the loop in `checkCreatures`; behind the last creature of the list it ends. -/
def Game.checkNext (g : Game) (i : Fin eventCreatureCount) (k : ℕ) : Game :=
  match (g.checkCreatureLists i)[k]? with
  | none => { g with cursor := none }.cleanup
  | some c =>
    if (g.creatures c).creatureCheck then
      -- what `onThink` and the others do comes as further steps
      { g with
        cursor := some (i, k + 1)
        visited := g.visited ++ if 0 < (g.creatures c).health then [c] else [] }
    else
      let g := g.modify c fun x => { x with inCheckCreaturesVector := false }
      (g.setCheckList i ((g.checkCreatureLists i).eraseIdx k)).releaseCreature c

def Game.addFriend (g : Game) (m c : ℕ) : Game :=
  if c ∈ (g.creatures m).friendList then g
  else (g.modify m fun x => { x with friendList := c :: x.friendList }).incrementReferenceCounter c

def Game.removeFriend (g : Game) (m c : ℕ) : Game :=
  if c ∈ (g.creatures m).friendList then
    (g.modify m fun x => { x with friendList := x.friendList.erase c }).decrementReferenceCounter c
  else g

def Game.addTarget (g : Game) (m c : ℕ) (pushFront : Bool) : Game :=
  if c ∈ (g.creatures m).targetList then g
  else
    (g.incrementReferenceCounter c).modify m fun x =>
      { x with targetList := if pushFront then c :: x.targetList else x.targetList ++ [c] }

def Game.removeTarget (g : Game) (m c : ℕ) : Game :=
  if c ∈ (g.creatures m).targetList then
    (g.modify m fun x => { x with targetList := x.targetList.erase c }).decrementReferenceCounter c
  else g

/-- The two loops of `updateTargetList`, with the creatures that are not seen any more. -/
def Game.updateTargetList (g : Game) (m : ℕ) (gone : ℕ → Bool) : Game :=
  let x := g.creatures m
  let g := g.modify m fun x => { x with
    friendList := x.friendList.filter fun c => !gone c
    targetList := x.targetList.filter fun c => !gone c }
  (g.decrementAll (x.friendList.filter gone)).decrementAll (x.targetList.filter gone)

def Game.clearTargetList (g : Game) (m : ℕ) : Game :=
  (g.modify m fun x => { x with targetList := [] }).decrementAll (g.creatures m).targetList

def Game.clearFriendList (g : Game) (m : ℕ) : Game :=
  (g.modify m fun x => { x with friendList := [] }).decrementAll (g.creatures m).friendList

/-- `onFollowCreatureComplete`. -/
def Game.onFollowCreatureComplete (g : Game) (m c : ℕ) (hasFollowPath : Bool) : Game :=
  let x := g.creatures m
  if c ∉ x.targetList then g
  else
    let targetList := x.targetList.erase c
    if hasFollowPath then g.modify m fun x => { x with targetList := c :: targetList }
    else if x.master = none then g.modify m fun x => { x with targetList := targetList ++ [c] }
    else (g.modify m fun x => { x with targetList := targetList }).decrementReferenceCounter c

/-- `setMaster` with a creature. -/
def Game.joinMaster (g : Game) (c m : ℕ) : Game :=
  (g.incrementReferenceCounter c).modify m fun x => { x with summons := x.summons ++ [c] }

/-- The end of `setMaster`, for the master there was before. -/
def Game.leaveMaster (g : Game) (c : ℕ) : Option ℕ → Game
  | none => g
  | some m =>
    if c ∈ (g.creatures m).summons then
      (g.modify m fun x => { x with summons := x.summons.erase c }).decrementReferenceCounter c
    else g

def Game.setMaster (g : Game) (c : ℕ) (newMaster : Option ℕ) : Game :=
  let oldMaster := (g.creatures c).master
  let g := match newMaster with
    | none => g
    | some m => g.joinMaster c m
  (g.modify c fun x => { x with master := newMaster }).leaveMaster c oldMaster

def Game.removeMaster (g : Game) (c : ℕ) : Game :=
  if (g.creatures c).master = none then g
  else (g.modify c fun x => { x with master := none }).decrementReferenceCounter c

/-- What `Monster::death` does to the references. -/
def Game.death (g : Game) (m : ℕ) : Game :=
  let g := (g.creatures m).summons.foldl Game.removeMaster g
  let g := g.modify m fun x => { x with summons := [] }
  (g.clearTargetList m).clearFriendList m

/-- The destructors, which do the same. -/
def Game.destroy (g : Game) (m : ℕ) : Game :=
  (g.death m).modify m fun _ => {}

/-! ## References -/

/-- How often the lists of a creature name another. -/
def Creature.names (x : Creature) (c : ℕ) : ℕ :=
  x.summons.count c + x.targetList.count c + x.friendList.count c

/-- The references to a creature that the record at the address `k` stands for. -/
def Creature.share (x : Creature) (k c : ℕ) : ℕ :=
  x.names c + if k = c then (if x.placed then 1 else 0) + x.held else 0

/-- How often the lists of the game name a creature. -/
def Game.listed (g : Game) (c : ℕ) : ℕ :=
  ∑ i, (g.checkCreatureLists i).count c + g.toReleaseCreatures.count c

/-- All places that hold a reference to a creature. -/
def Game.references (g : Game) (c : ℕ) : ℕ :=
  g.listed c + ∑ k ∈ Finset.range g.created, (g.creatures k).share k c

/-- There is a pointer to the creature: somewhere in the game or with who made it. -/
def Game.Known (g : Game) (c : ℕ) : Prop := g.references c ≠ 0 ∨ (g.creatures c).loose = true

instance (g : Game) (c : ℕ) : Decidable (g.Known c) :=
  inferInstanceAs (Decidable (g.references c ≠ 0 ∨ (g.creatures c).loose = true))

inductive Event
  | create
  /-- a session, a spawn or `postAddNotification` takes the creature -/
  | hold (c : ℕ)
  | drop (c : ℕ)
  /-- the end of `postAddNotification`, which leaves its reference to `cleanup` -/
  | postAdded (c : ℕ)
  /-- `changeHealth`, and what the makers of creatures set -/
  | setHealth (c : ℕ) (health : ℤ)
  | internalPlaceCreature (c : ℕ)
  | removeCreature (c : ℕ)
  | addCreatureCheck (c : ℕ) (i : Fin eventCreatureCount)
  | removeCreatureCheck (c : ℕ)
  /-- the call of `checkCreatures` that is due -/
  | checkCreatures
  /-- a turn of its loop -/
  | checkNext
  | cleanup
  | addFriend (m c : ℕ)
  | removeFriend (m c : ℕ)
  | clearFriendList (m : ℕ)
  | addTarget (m c : ℕ) (pushFront : Bool)
  | removeTarget (m c : ℕ)
  | clearTargetList (m : ℕ)
  | updateTargetList (m : ℕ) (gone : ℕ → Bool)
  | onFollowCreatureComplete (m c : ℕ) (hasFollowPath : Bool)
  | setMaster (c : ℕ) (newMaster : Option ℕ)
  | death (m : ℕ)
  /-- the creature is deleted: by the last reference, or by who made it and gave it to nobody.
  The maker does not look at the counter; a script that places a creature and then refuses it
  is left out. -/
  | delete (c : ℕ)

def Event.names : Event → List ℕ
  | .create | .checkCreatures | .checkNext | .cleanup | .delete _ => []
  | .hold c | .drop c | .postAdded c | .setHealth c _ | .internalPlaceCreature c | .removeCreature c
  | .addCreatureCheck c _ | .removeCreatureCheck c => [c]
  | .clearFriendList m | .clearTargetList m | .updateTargetList m _ | .death m => [m]
  | .addFriend m c | .removeFriend m c | .addTarget m c _ | .removeTarget m c
  | .onFollowCreatureComplete m c _ => [m, c]
  | .setMaster c newMaster => c :: newMaster.toList

def Game.take (g : Game) (c : ℕ) : Game :=
  (g.modify c fun x => { x with held := x.held + 1 }).incrementReferenceCounter c

def Game.giveBack (g : Game) (c : ℕ) : Game :=
  if (g.creatures c).held = 0 then g
  else (g.modify c fun x => { x with held := x.held - 1 }).decrementReferenceCounter c

/-- The reference of a notification is taken back with the others. -/
def Game.handOver (g : Game) (c : ℕ) : Game :=
  if (g.creatures c).held = 0 then g
  else (g.modify c fun x => { x with held := x.held - 1 }).releaseCreature c

def Game.apply (g : Game) : Event → Game
  | .create => g.create
  | .hold c => g.take c
  | .drop c => g.giveBack c
  | .postAdded c => g.handOver c
  | .setHealth c health => g.modify c fun x => { x with health := health }
  | .internalPlaceCreature c => g.internalPlaceCreature c
  | .removeCreature c => g.removeCreature c
  | .addCreatureCheck c i => g.addCreatureCheck c i
  | .removeCreatureCheck c => g.removeCreatureCheck c
  | .checkCreatures =>
    if g.cursor = none then
      { g with cursor := some (g.index, 0), index := g.index + 1, calls := g.calls + 1 }
    else g
  | .checkNext =>
    match g.cursor with
    | none => g
    | some (i, k) => g.checkNext i k
  | .cleanup => g.cleanup
  | .addFriend m c => g.addFriend m c
  | .removeFriend m c => g.removeFriend m c
  | .clearFriendList m => g.clearFriendList m
  | .addTarget m c pushFront => g.addTarget m c pushFront
  | .removeTarget m c => g.removeTarget m c
  | .clearTargetList m => g.clearTargetList m
  | .updateTargetList m gone => g.updateTargetList m gone
  | .onFollowCreatureComplete m c hasFollowPath => g.onFollowCreatureComplete m c hasFollowPath
  | .setMaster c newMaster => g.setMaster c newMaster
  | .death m => g.death m
  | .delete c =>
    if (g.creatures c).alive && (g.creatures c).referenceCounter = 0 then g.destroy c else g

/-- One step. An event that is about a creature nobody has a pointer to does not happen. -/
def Game.step (g : Game) (e : Event) : Game :=
  if ∀ c ∈ e.names, g.Known c then g.apply e else g

/-! ## What an operation writes -/

section Modify
variable {g : Game} {c k m : ℕ} {f : Creature → Creature}

@[simp] theorem modify_self : (g.modify m f).creatures m = f (g.creatures m) := Function.update_self ..

theorem modify_of_ne (h : k ≠ m) : (g.modify m f).creatures k = g.creatures k :=
  Function.update_of_ne h ..

@[simp] theorem modify_created : (g.modify m f).created = g.created := rfl

@[simp] theorem modify_listed : (g.modify m f).listed c = g.listed c := rfl

theorem modify_field {β : Type*} (field : Creature → β) (h : ∀ x, field (f x) = field x) (k : ℕ) :
    field ((g.modify m f).creatures k) = field (g.creatures k) := by
  by_cases hk : k = m
  · rw [hk, modify_self, h]
  · rw [modify_of_ne hk]

theorem references_modify (hm : m < g.created) :
    (g.modify m f).references c + (g.creatures m).share m c = g.references c + (f (g.creatures m)).share m c := by
  have hmem : m ∈ Finset.range g.created := Finset.mem_range.mpr hm
  have hrest : ∑ k ∈ (Finset.range g.created).erase m, ((g.modify m f).creatures k).share k c =
      ∑ k ∈ (Finset.range g.created).erase m, (g.creatures k).share k c := by
    refine Finset.sum_congr rfl fun k hk => ?_
    rw [modify_of_ne (Finset.ne_of_mem_erase hk)]
  unfold Game.references
  rw [modify_listed, modify_created, ← Finset.add_sum_erase _ _ hmem, hrest, modify_self,
    ← Finset.add_sum_erase _ (fun k => (g.creatures k).share k c) hmem]
  omega

theorem references_modify_same (hf : ∀ x, (f x).share m c = x.share m c) :
    (g.modify m f).references c = g.references c := by
  unfold Game.references
  refine congrArg₂ _ rfl (Finset.sum_congr rfl fun k _ => ?_)
  by_cases hk : k = m
  · rw [hk, modify_self, hf]
  · rw [modify_of_ne hk]

end Modify

/-! ## The books -/

/-- The counters are right but for references that are counted too late (`credit`) or are
gone and still counted (`owed`); who is deleted is counted nowhere. -/
structure Game.Books (g : Game) (credit owed : List ℕ) : Prop where
  counted : ∀ c, (g.creatures c).referenceCounter + credit.count c = g.references c + owed.count c
  dead : ∀ c, (g.creatures c).alive = false → g.creatures c = {}
  fresh : ∀ c, g.created ≤ c → (g.creatures c).alive = false
  loose : ∀ c, (g.creatures c).loose = true → (g.creatures c).referenceCounter = 0

section Books
variable {g : Game} {c m : ℕ} {f : Creature → Creature} {credit credit' owed owed' : List ℕ}

theorem Game.Books.lt_created (h : g.Books credit owed) (hc : (g.creatures c).alive = true) : c < g.created := by
  by_contra hle
  rw [h.fresh c (Nat.le_of_not_lt hle)] at hc
  cases hc

theorem Game.Books.alive_of_counted (h : g.Books credit owed)
    (hc : (g.creatures c).referenceCounter ≠ 0) : (g.creatures c).alive = true := by
  by_contra hdead
  rw [h.dead c (Bool.eq_false_iff.mpr hdead)] at hc
  exact hc rfl

theorem Game.Books.alive (h : g.Books [] []) (hc : g.Known c) : (g.creatures c).alive = true := by
  rcases hc with hc | hc
  · refine h.alive_of_counted ?_
    have := h.counted c
    simp only [List.count_nil, Nat.add_zero] at this
    rwa [this]
  · by_contra hdead
    rw [h.dead c (Bool.eq_false_iff.mpr hdead)] at hc
    cases hc

/-- The record of a living creature changes, and its share of the references with it. -/
theorem Game.Books.modify (h : g.Books credit owed) (hm : (g.creatures m).alive = true)
    (halive : (f (g.creatures m)).alive = true)
    (hcounter : (f (g.creatures m)).referenceCounter = (g.creatures m).referenceCounter)
    (hloose : (f (g.creatures m)).loose = (g.creatures m).loose)
    (hshare : ∀ c, (f (g.creatures m)).share m c + credit.count c + owed'.count c =
      (g.creatures m).share m c + credit'.count c + owed.count c) :
    (g.modify m f).Books credit' owed' where
  counted c := by
    have hold := h.counted c
    have hnew := @references_modify g c m f (h.lt_created hm)
    have hs := hshare c
    have hkeep : ((g.modify m f).creatures c).referenceCounter = (g.creatures c).referenceCounter := by
      by_cases hc : c = m
      · rw [hc, modify_self, hcounter]
      · rw [modify_of_ne hc]
    omega
  dead c hc := by
    by_cases hcm : c = m
    · rw [hcm, modify_self, halive] at hc
      cases hc
    · rw [modify_of_ne hcm] at hc ⊢
      exact h.dead c hc
  fresh c hc := by
    have hne : c ≠ m := by
      rintro rfl
      exact absurd (h.lt_created hm) (Nat.not_lt.mpr hc)
    rw [modify_of_ne hne]
    exact h.fresh c hc
  loose c hc := by
    by_cases hcm : c = m
    · rw [hcm, modify_self] at hc ⊢
      rw [hcounter]
      exact h.loose m (hloose ▸ hc)
    · rw [modify_of_ne hcm] at hc ⊢
      exact h.loose c hc

theorem Game.Books.relist {g' : Game} (h : g.Books credit owed) (hcreatures : g'.creatures = g.creatures)
    (hcreated : g'.created = g.created)
    (hlisted : ∀ c, g'.listed c + credit.count c + owed'.count c = g.listed c + credit'.count c + owed.count c) :
    g'.Books credit' owed' where
  counted c := by
    have hold := h.counted c
    have hs := hlisted c
    unfold Game.references at hold ⊢
    rw [hcreatures, hcreated]
    omega
  dead := hcreatures ▸ h.dead
  fresh := by
    rw [hcreatures, hcreated]
    exact h.fresh
  loose := hcreatures ▸ h.loose

theorem Game.Books.count (h : g.Books credit owed) (hc : (g.creatures c).alive = true)
    (hcount : ∀ k, credit.count k + owed'.count k = credit'.count k + owed.count k + [c].count k) :
    (g.incrementReferenceCounter c).Books credit' owed' where
  counted k := by
    have hold := h.counted k
    have hs := hcount k
    have hsame : (g.incrementReferenceCounter c).references k = g.references k :=
      references_modify_same fun _ => rfl
    rw [hsame]
    by_cases hk : k = c
    · subst hk
      rw [Game.incrementReferenceCounter, modify_self]
      simp only [List.count_singleton_self] at hs
      dsimp only
      omega
    · rw [Game.incrementReferenceCounter, modify_of_ne hk]
      rw [List.count_singleton, if_neg (by simpa using Ne.symm hk)] at hs
      omega
  dead k hk := by
    by_cases hkc : k = c
    · subst hkc
      rw [Game.incrementReferenceCounter, modify_self] at hk
      rw [hc] at hk
      cases hk
    · rw [Game.incrementReferenceCounter, modify_of_ne hkc] at hk ⊢
      exact h.dead k hk
  fresh k hk := by
    have hne : k ≠ c := by
      rintro rfl
      exact absurd (h.lt_created hc) (Nat.not_lt.mpr hk)
    rw [Game.incrementReferenceCounter, modify_of_ne hne]
    exact h.fresh k hk
  loose k hk := by
    by_cases hkc : k = c
    · subst hkc
      rw [Game.incrementReferenceCounter, modify_self] at hk
      cases hk
    · rw [Game.incrementReferenceCounter, modify_of_ne hkc] at hk ⊢
      exact h.loose k hk

theorem Game.Books.uncount (h : g.Books [] (c :: owed)) : (g.decrementReferenceCounter c).Books [] owed where
  counted k := by
    have hold := h.counted k
    have hsame : (g.decrementReferenceCounter c).references k = g.references k :=
      references_modify_same fun _ => rfl
    rw [hsame]
    rw [List.count_cons] at hold
    by_cases hk : k = c
    · subst hk
      rw [Game.decrementReferenceCounter, modify_self]
      simp only [List.count_nil, beq_self_eq_true, if_true] at hold ⊢
      omega
    · rw [Game.decrementReferenceCounter, modify_of_ne hk]
      rw [if_neg (by simpa using Ne.symm hk)] at hold
      exact hold
  dead k hk := by
    by_cases hkc : k = c
    · subst hkc
      rw [Game.decrementReferenceCounter, modify_self] at hk ⊢
      rw [h.dead k hk]
      rfl
    · rw [Game.decrementReferenceCounter, modify_of_ne hkc] at hk ⊢
      exact h.dead k hk
  fresh k hk := by
    have halive := h.fresh k hk
    rw [← halive]
    exact modify_field Creature.alive (by intro x; rfl) k
  loose k hk := by
    by_cases hkc : k = c
    · subst hkc
      rw [Game.decrementReferenceCounter, modify_self] at hk ⊢
      rw [h.loose k hk]
    · rw [Game.decrementReferenceCounter, modify_of_ne hkc] at hk ⊢
      exact h.loose k hk

theorem Game.Books.congr (h : g.Books credit owed) (howed : ∀ c, owed'.count c = owed.count c) :
    g.Books credit owed' :=
  { h with counted := fun c => by rw [h.counted c, howed] }

theorem Game.Books.uncountAll {l : List ℕ} (h : g.Books [] (l ++ owed)) : (g.decrementAll l).Books [] owed := by
  induction l generalizing g with
  | nil => exact h
  | cons c l ih => exact ih h.uncount

end Books

/-! ## The operations keep the books -/

section Operations
variable {g : Game} {c m : ℕ}

theorem Game.Books.create (h : g.Books [] []) : g.create.Books [] [] where
  counted c := by
    have hdead := h.fresh g.created le_rfl
    have hrefs : g.create.references c = g.references c := by
      unfold Game.references Game.create
      rw [Finset.sum_range_succ]
      dsimp only
      rw [modify_self]
      have hrest : ∑ k ∈ Finset.range g.created,
          ((g.modify g.created fun _ => { alive := true, loose := true }).creatures k).share k c =
          ∑ k ∈ Finset.range g.created, (g.creatures k).share k c := by
        refine Finset.sum_congr rfl fun k hk => ?_
        rw [modify_of_ne (Nat.ne_of_lt (Finset.mem_range.mp hk))]
      rw [hrest]
      simp [Creature.share, Creature.names, Game.listed, Game.modify]
    rw [hrefs, ← h.counted c]
    have hold : (g.creatures g.created).referenceCounter = 0 := by rw [h.dead _ hdead]
    by_cases hc : c = g.created
    · rw [hc, hold]
      simp [Game.create]
    · rw [Game.create]
      dsimp only
      rw [modify_of_ne hc]
  dead c hc := by
    by_cases hcm : c = g.created
    · rw [hcm, Game.create] at hc
      simp at hc
    · rw [Game.create] at hc ⊢
      dsimp only at hc ⊢
      rw [modify_of_ne hcm] at hc ⊢
      exact h.dead c hc
  fresh c hc := by
    have hlt : g.created < c := hc
    rw [Game.create]
    dsimp only
    rw [modify_of_ne (Nat.ne_of_gt hlt)]
    exact h.fresh c hlt.le
  loose c hc := by
    by_cases hcm : c = g.created
    · rw [hcm, Game.create]
      simp
    · rw [Game.create] at hc ⊢
      dsimp only at hc ⊢
      rw [modify_of_ne hcm] at hc ⊢
      exact h.loose c hc

theorem Game.Books.take (h : g.Books [] []) (hc : (g.creatures c).alive = true) : (g.take c).Books [] [] := by
  have hheld : (g.modify c fun x => { x with held := x.held + 1 }).Books [c] [] := by
    refine h.modify hc hc rfl rfl fun k => ?_
    simp only [Creature.share, Creature.names, List.count_nil, List.count_singleton, beq_iff_eq]
    split <;> omega
  exact hheld.count (by simpa using hc) fun k => by simp

theorem Game.Books.giveBack (h : g.Books [] []) (hc : (g.creatures c).alive = true) : (g.giveBack c).Books [] [] := by
  unfold Game.giveBack
  split
  · exact h
  · rename_i hheld
    refine Game.Books.uncount (h.modify hc hc rfl rfl fun k => ?_)
    simp only [Creature.share, Creature.names, List.count_nil, List.count_singleton, beq_iff_eq]
    split <;> omega

theorem Game.Books.internalPlaceCreature (h : g.Books [] []) (hc : (g.creatures c).alive = true) :
    (g.internalPlaceCreature c).Books [] [] := by
  unfold Game.internalPlaceCreature
  split
  · exact h
  · rename_i hplaced
    have hplace : (g.modify c fun x => { x with placed := true }).Books [c] [] := by
      refine h.modify hc hc rfl rfl fun k => ?_
      simp only [Creature.share, Creature.names, List.count_nil, List.count_singleton, beq_iff_eq, hplaced]
      split <;> simp
      omega
    exact hplace.count (by simpa using hc) fun k => by simp

theorem Game.Books.flag {credit owed : List ℕ} {f : Creature → Creature} (h : g.Books credit owed)
    (hm : (g.creatures m).alive = true)
    (hf : f (g.creatures m) = { g.creatures m with
      health := (f (g.creatures m)).health
      creatureCheck := (f (g.creatures m)).creatureCheck
      inCheckCreaturesVector := (f (g.creatures m)).inCheckCreaturesVector
      isInternalRemoved := (f (g.creatures m)).isInternalRemoved
      master := (f (g.creatures m)).master }) :
    (g.modify m f).Books credit owed := by
  refine h.modify hm (by rw [hf]; exact hm) (by rw [hf]) (by rw [hf]) fun k => ?_
  rw [hf]
  rfl

theorem listed_release (k : ℕ) : (g.releaseCreature c).listed k = g.listed k + [c].count k := by
  simp only [Game.listed, Game.releaseCreature, List.count_append, Nat.add_assoc]

@[simp] theorem releaseCreature_creatures : (g.releaseCreature c).creatures = g.creatures := rfl

theorem Game.Books.handOver (h : g.Books [] []) (hc : (g.creatures c).alive = true) : (g.handOver c).Books [] [] := by
  unfold Game.handOver
  split
  · exact h
  · rename_i hheld
    have hless : (g.modify c fun x => { x with held := x.held - 1 }).Books [] [c] := by
      refine h.modify hc hc rfl rfl fun k => ?_
      simp only [Creature.share, Creature.names, List.count_nil, List.count_singleton, beq_iff_eq]
      split <;> omega
    refine hless.relist rfl rfl fun k => ?_
    rw [listed_release]
    simp only [List.count_nil]
    omega

theorem Game.Books.removeCreatureCheck (h : g.Books [] []) (hc : (g.creatures c).alive = true) :
    (g.removeCreatureCheck c).Books [] [] := by
  unfold Game.removeCreatureCheck
  split
  · exact h.flag hc rfl
  · exact h

theorem Game.Books.removeCreature (h : g.Books [] []) (hc : (g.creatures c).alive = true) :
    (g.removeCreature c).Books [] [] := by
  unfold Game.removeCreature
  split
  · exact h
  · rename_i hcan
    have hplaced : (g.creatures c).placed = true := by
      by_contra hno
      exact hcan (by simp [Bool.eq_false_iff.mpr hno])
    have hout : (g.modify c fun x => { x with placed := false, isInternalRemoved := true }).Books [] [c] := by
      refine h.modify hc hc rfl rfl fun k => ?_
      simp only [Creature.share, Creature.names, List.count_nil, List.count_singleton, beq_iff_eq, hplaced]
      split <;> simp
      omega
    refine Game.Books.removeCreatureCheck (c := c) (hout.relist rfl rfl fun k => ?_) (by simpa using hc)
    rw [listed_release]
    simp only [List.count_nil]
    omega

theorem listed_setCheckList (i : Fin eventCreatureCount) (l : List ℕ) (k : ℕ) :
    (g.setCheckList i l).listed k + (g.checkCreatureLists i).count k = g.listed k + l.count k := by
  have hsum := Table.sum_function_update g.checkCreatureLists i l (List.count k)
  unfold Game.listed Game.setCheckList
  dsimp only
  omega

theorem Game.Books.addCreatureCheck {i : Fin eventCreatureCount} (h : g.Books [] [])
    (hc : (g.creatures c).alive = true) : (g.addCreatureCheck c i).Books [] [] := by
  unfold Game.addCreatureCheck
  dsimp only
  have hflag : (g.modify c fun x => { x with creatureCheck := true }).Books [] [] := h.flag hc rfl
  have halive : ((g.modify c fun x => { x with creatureCheck := true }).creatures c).alive = true := by
    simpa using hc
  generalize (g.modify c fun x => { x with creatureCheck := true }) = g at hflag halive
  split
  · exact hflag
  · have hin := hflag.flag (f := fun x => { x with inCheckCreaturesVector := true }) halive rfl
    have halive' : ((g.modify c fun x => { x with inCheckCreaturesVector := true }).creatures c).alive = true := by
      simpa using halive
    generalize (g.modify c fun x => { x with inCheckCreaturesVector := true }) = g at hin halive'
    have hlist : (g.setCheckList i (g.checkCreatureLists i ++ [c])).Books [c] [] := by
      refine hin.relist rfl rfl fun k => ?_
      have hlisted := @listed_setCheckList g i (g.checkCreatureLists i ++ [c]) k
      simp only [List.count_append, List.count_nil] at hlisted ⊢
      omega
    exact hlist.count halive' fun k => by simp

theorem Game.Books.cleanup (h : g.Books [] []) : g.cleanup.Books [] [] := by
  have hrelease : ({ g with toReleaseCreatures := [] } : Game).Books [] g.toReleaseCreatures := by
    refine h.relist rfl rfl fun k => ?_
    simp only [Game.listed, List.count_nil]
    omega
  exact Game.Books.uncountAll (hrelease.congr fun k => by rw [List.append_nil])

theorem Game.Books.checkNext {i : Fin eventCreatureCount} {k : ℕ} (h : g.Books [] [])
    (hi : ∀ c ∈ g.checkCreatureLists i, (g.creatures c).alive = true) : (g.checkNext i k).Books [] [] := by
  unfold Game.checkNext
  split
  · exact Game.Books.cleanup ⟨h.counted, h.dead, h.fresh, h.loose⟩
  · rename_i c hget
    split
    · exact ⟨h.counted, h.dead, h.fresh, h.loose⟩
    · have halive := hi c (List.mem_of_getElem? hget)
      have hflag := h.flag (f := fun x => { x with inCheckCreaturesVector := false }) halive rfl
      dsimp only
      have hsame : (g.modify c fun x => { x with inCheckCreaturesVector := false }).checkCreatureLists =
        g.checkCreatureLists := rfl
      rw [hsame]
      rw [← hsame] at hget ⊢
      generalize (g.modify c fun x => { x with inCheckCreaturesVector := false }) = g at hflag hget
      obtain ⟨hlt, hmem⟩ := List.getElem?_eq_some_iff.mp hget
      refine hflag.relist rfl rfl fun a => ?_
      have hlisted := @listed_setCheckList g i ((g.checkCreatureLists i).eraseIdx k) a
      have hcount := (List.getElem_cons_eraseIdx_perm hlt).count_eq a
      rw [hmem, List.count_cons] at hcount
      rw [listed_release, List.count_singleton]
      simp only [beq_iff_eq, List.count_nil] at hcount ⊢
      omega

@[simp] theorem increment_alive (k : ℕ) :
    ((g.incrementReferenceCounter c).creatures k).alive = (g.creatures k).alive :=
  modify_field Creature.alive (by intro x; rfl) k

theorem Game.Books.addFriend (h : g.Books [] []) (hm : (g.creatures m).alive = true)
    (hc : (g.creatures c).alive = true) : (g.addFriend m c).Books [] [] := by
  unfold Game.addFriend
  split
  · exact h
  · have hadd : (g.modify m fun x => { x with friendList := c :: x.friendList }).Books [c] [] := by
      refine h.modify hm hm rfl rfl fun k => ?_
      simp only [Creature.share, Creature.names, List.count_nil, List.count_cons]
      omega
    have halive := @modify_field g m (fun x => { x with friendList := c :: x.friendList }) _
      Creature.alive (fun _ => rfl) c
    exact hadd.count (halive.trans hc) fun k => by simp

theorem Game.Books.removeFriend (h : g.Books [] []) (hm : (g.creatures m).alive = true) :
    (g.removeFriend m c).Books [] [] := by
  unfold Game.removeFriend
  split
  · rename_i hmem
    refine Game.Books.uncount (h.modify hm hm rfl rfl fun k => ?_)
    have hcount := (List.perm_cons_erase hmem).count_eq k
    simp only [Creature.share, Creature.names, List.count_nil, List.count_cons] at hcount ⊢
    omega
  · exact h

theorem Game.Books.addTarget {pushFront : Bool} (h : g.Books [] []) (hm : (g.creatures m).alive = true)
    (hc : (g.creatures c).alive = true) : (g.addTarget m c pushFront).Books [] [] := by
  unfold Game.addTarget
  split
  · exact h
  · have hcounted : (g.incrementReferenceCounter c).Books [] [c] := h.count hc fun k => by simp
    have halive : ((g.incrementReferenceCounter c).creatures m).alive = true := by simpa using hm
    refine hcounted.modify halive halive rfl rfl fun k => ?_
    split <;>
    · simp only [Creature.share, Creature.names, List.count_nil, List.count_cons, List.count_append]
      omega

theorem Game.Books.removeTarget (h : g.Books [] []) (hm : (g.creatures m).alive = true) :
    (g.removeTarget m c).Books [] [] := by
  unfold Game.removeTarget
  split
  · rename_i hmem
    refine Game.Books.uncount (h.modify hm hm rfl rfl fun k => ?_)
    have hcount := (List.perm_cons_erase hmem).count_eq k
    simp only [Creature.share, Creature.names, List.count_nil, List.count_cons] at hcount ⊢
    omega
  · exact h

theorem Game.Books.updateTargetList {gone : ℕ → Bool} (h : g.Books [] [])
    (hm : (g.creatures m).alive = true) : (g.updateTargetList m gone).Books [] [] := by
  unfold Game.updateTargetList
  refine Game.Books.uncountAll (Game.Books.uncountAll (h.modify hm hm rfl rfl fun k => ?_))
  have hfriends := (List.filter_append_perm gone (g.creatures m).friendList).count_eq k
  have htargets := (List.filter_append_perm gone (g.creatures m).targetList).count_eq k
  simp only [Creature.share, Creature.names, List.count_nil, List.count_append] at hfriends htargets ⊢
  omega

theorem Game.Books.clearTargetList (h : g.Books [] []) (hm : (g.creatures m).alive = true) :
    (g.clearTargetList m).Books [] [] := by
  refine Game.Books.uncountAll (h.modify hm hm rfl rfl fun k => ?_)
  simp only [Creature.share, Creature.names, List.count_nil, List.count_append]
  omega

theorem Game.Books.clearFriendList (h : g.Books [] []) (hm : (g.creatures m).alive = true) :
    (g.clearFriendList m).Books [] [] := by
  refine Game.Books.uncountAll (h.modify hm hm rfl rfl fun k => ?_)
  simp only [Creature.share, Creature.names, List.count_nil, List.count_append]
  omega

theorem Game.Books.onFollowCreatureComplete {hasFollowPath : Bool} (h : g.Books [] [])
    (hm : (g.creatures m).alive = true) : (g.onFollowCreatureComplete m c hasFollowPath).Books [] [] := by
  unfold Game.onFollowCreatureComplete
  dsimp only
  split
  · exact h
  rename_i hmem
  have hcount := fun k => (List.perm_cons_erase (not_not.mp hmem)).count_eq k
  split
  · refine h.modify hm hm rfl rfl fun k => ?_
    have := hcount k
    simp only [Creature.share, Creature.names, List.count_nil, List.count_cons] at this ⊢
    omega
  split
  · refine h.modify hm hm rfl rfl fun k => ?_
    have := hcount k
    simp only [Creature.share, Creature.names, List.count_nil, List.count_cons, List.count_append] at this ⊢
    omega
  · refine Game.Books.uncount (h.modify hm hm rfl rfl fun k => ?_)
    have := hcount k
    simp only [Creature.share, Creature.names, List.count_nil, List.count_cons] at this ⊢
    omega

theorem Game.Books.joinMaster (h : g.Books [] []) (hc : (g.creatures c).alive = true)
    (hm : (g.creatures m).alive = true) : (g.joinMaster c m).Books [] [] := by
  have hcounted : (g.incrementReferenceCounter c).Books [] [c] := h.count hc fun k => by simp
  have halive : ((g.incrementReferenceCounter c).creatures m).alive = true := by simpa using hm
  refine hcounted.modify halive halive rfl rfl fun k => ?_
  simp only [Creature.share, Creature.names, List.count_nil, List.count_append]
  omega

theorem Game.Books.alive_of_summons {credit owed : List ℕ} (h : g.Books credit owed)
    (hm : (g.creatures m).summons ≠ []) : (g.creatures m).alive = true := by
  by_contra hdead
  rw [h.dead m (Bool.eq_false_iff.mpr hdead)] at hm
  exact hm rfl

theorem Game.Books.leaveMaster {oldMaster : Option ℕ} (h : g.Books [] []) :
    (g.leaveMaster c oldMaster).Books [] [] := by
  unfold Game.leaveMaster
  split
  · exact h
  split
  · rename_i m hmem
    have halive := h.alive_of_summons (List.ne_nil_of_mem hmem)
    refine Game.Books.uncount (h.modify halive halive rfl rfl fun k => ?_)
    have hcount := (List.perm_cons_erase hmem).count_eq k
    simp only [Creature.share, Creature.names, List.count_nil, List.count_cons] at hcount ⊢
    omega
  · exact h

@[simp] theorem joinMaster_alive (k : ℕ) : ((g.joinMaster c m).creatures k).alive = (g.creatures k).alive :=
  calc ((g.joinMaster c m).creatures k).alive
      _ = ((g.incrementReferenceCounter c).creatures k).alive :=
        modify_field Creature.alive (by intro x; rfl) k
      _ = (g.creatures k).alive := increment_alive k

theorem Game.Books.setMaster {newMaster : Option ℕ} (h : g.Books [] []) (hc : (g.creatures c).alive = true)
    (hm : ∀ m, newMaster = some m → (g.creatures m).alive = true) : (g.setMaster c newMaster).Books [] [] := by
  unfold Game.setMaster
  dsimp only
  split
  · exact (h.flag hc rfl).leaveMaster
  · rename_i m
    have hjoin := h.joinMaster hc (hm m rfl)
    exact (hjoin.flag (by simpa using hc) rfl).leaveMaster

end Operations

end ForgottenServer.Creatures
