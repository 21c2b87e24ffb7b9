import ForgottenServer.Net.OwnTile
import ForgottenServer.Tiles.Stack

/-! # Stack positions

`Tile::getStackposOfItem` and `Tile::getStackposOfCreature` say where a client has a
thing of a tile. What the client has is the description of the tile: of its things in
the order of the description, without the creatures that the player cannot see, the
first ten. -/
namespace ForgottenServer.Net
open ForgottenServer.Tiles (Stacked)
open ForgottenServer.Maps (Position)

/-! ## The functions of the tile -/

/-- A loop of the search has found the position or given up, or it goes on. -/
abbrev Search := Except ℤ ℕ

section Functions
variable (types : ℕ → Tiles.ItemType) (creatureOf : ℕ → Creature) (player : Player)

def topItemsLoop (item : Tiles.Item) : ℕ → List Tiles.Item → Search
  | n, [] => .ok n
  | n, x :: items =>
    if x.ref = item.ref then .error n
    else if n + 1 = 10 then .error (-1)
    else topItemsLoop item (n + 1) items

/-- The loop over the creatures that are above a down item. -/
def creaturesLoop : ℕ → List ℕ → Search
  | n, [] => .ok n
  | n, c :: creatures =>
    if player.canSeeCreature (creatureOf c) then
      if 10 ≤ n + 1 then .error (-1) else creaturesLoop (n + 1) creatures
    else creaturesLoop n creatures

def downItemsLoop (item : Tiles.Item) : ℕ → List Tiles.Item → Search
  | n, [] => .ok n
  | n, x :: items =>
    if x.ref = item.ref then .error n
    else if 10 ≤ n + 1 then .error (-1)
    else downItemsLoop item (n + 1) items

/-- The loop over the creatures, the last one first, until the creature is met. -/
def creatureLoop (creature : ℕ) : ℕ → List ℕ → Search
  | n, [] => .ok n
  | n, c :: creatures =>
    if c = creature then .error n
    else if player.canSeeCreature (creatureOf c) then
      if 10 ≤ n + 1 then .error (-1) else creatureLoop creature (n + 1) creatures
    else creatureLoop creature n creatures

/-- After all loops the thing was not found. -/
def Search.position : Search → ℤ
  | .error n => n
  | .ok _ => -1

def getStackposOfCreature (t : Tiles.Tile) (creature : ℕ) : ℤ :=
  let n := (if t.ground.isSome then 1 else 0) + t.topItems.length
  -- without a list of items there are fewer than ten
  if 10 ≤ n then -1
  else (creatureLoop creatureOf player creature n t.creatures.reverse).position

def getStackposOfItem (t : Tiles.Tile) (item : Tiles.Item) : ℤ :=
  if t.ground.any (·.ref = item.ref) then 0
  else
    let n := if t.ground.isSome then 1 else 0
    let alwaysOnTop := (item.type types).alwaysOnTop
    Search.position do
      let n ← if alwaysOnTop then topItemsLoop item n t.topItems
        else if 10 ≤ n + t.topItems.length then .error (-1)
        else .ok (n + t.topItems.length)
      let n ← creaturesLoop creatureOf player n t.creatures
      if alwaysOnTop then .ok n else downItemsLoop item n t.downItems

end Functions

/-! ## What is described -/

/-- What the description reads of an item. -/
def look (x : Tiles.Item) : Item where
  id := x.id.toUInt16
  itemCount := x.count.toUInt16
  fluidType := UInt16.ofInt (x.attr.fluidType.getD 0)

def shownTile (creatureOf : ℕ → Creature) (position : Position) (t : Tiles.Tile) : Tile where
  position
  ground := t.ground.map look
  topItems := t.topItems.map look
  downItems := t.downItems.map look
  creatures := t.creatures.map creatureOf

section Client
variable (creatureOf : ℕ → Creature) (player : Player)

def visible (t : Tiles.Tile) : List ℕ :=
  t.creatures.reverse.filter fun c => player.canSeeCreature (creatureOf c)

/-- The things that can be described, in their order. -/
def candidates (t : Tiles.Tile) : List Tiles.Thing :=
  t.ground.toList.map .item ++ (t.topItems.map .item ++
    ((visible creatureOf player t).map .creature ++ t.downItems.map .item))

def clientStack (t : Tiles.Tile) : List Tiles.Thing := (candidates creatureOf player t).take 10

/-- The entry of a description is about the thing. -/
inductive Describes : Tiles.Thing → Thing → Prop
  | item (x : Tiles.Item) : Describes (.item x) (.item (look x))
  | creature (c : ℕ) (known : Bool) (remove : ℕ) : Describes (.creature c) (.creature (creatureOf c) known remove)

end Client

section Description
variable {v : View} {known : Finset ℕ} {count : ℕ} {creatureOf : ℕ → Creature}

theorem describes_items (items : List Tiles.Item) :
    List.Forall₂ (Describes creatureOf) (items.map .item) ((items.map look).map .item) := by
  induction items with
  | nil => exact .nil
  | cons x items ih => exact .cons (.item x) ih

theorem addTopItems_take (known : Finset ℕ) (count : ℕ) (items : List Item) (h : count < 10) :
    (addTopItems false known count items).things = (items.take (10 - count)).map .item ∧
    (addTopItems false known count items).knownCreatureSet = known ∧
    ((addTopItems false known count items).returns = true ↔ 10 ≤ count + items.length) ∧
    ((addTopItems false known count items).returns = false →
      (addTopItems false known count items).count = count + items.length) := by
  induction items generalizing count with
  | nil => simp [addTopItems, h]
  | cons item items ih =>
    simp only [addTopItems, Bool.and_false, Bool.false_eq_true, if_false, List.length_cons]
    split
    · rename_i hten
      obtain rfl : count = 9 := by omega
      refine ⟨by simp, rfl, ?_, fun hfalse => by cases hfalse⟩
      simp only [true_iff]
      omega
    · obtain ⟨hthings, hknown, hreturns, hcount⟩ := ih (count + 1) (by omega)
      obtain ⟨k, hk⟩ : ∃ k, 10 - count = k + 1 := ⟨9 - count, by omega⟩
      refine ⟨?_, hknown, ?_, ?_⟩
      · simp only [Added.cons, hthings, hk, List.take_succ_cons, List.map_cons]
        congr 4
        omega
      · simp only [Added.cons, hreturns]
        omega
      · intro hgoes
        simp only [Added.cons, hcount hgoes]
        omega

theorem addCreatures_take (v : View) (creatureOf : ℕ → Creature) (known : Finset ℕ) (count : ℕ)
    (creatures : List ℕ) (playerAdded : Bool) (h : count < 10) :
    let seen := creatures.filter fun c => v.player.canSeeCreature (creatureOf c)
    let added := addCreatures v false count playerAdded known (creatures.map creatureOf)
    List.Forall₂ (Describes creatureOf) ((seen.take (10 - count)).map .creature) added.things ∧
    (added.returns = true ↔ 10 ≤ count + seen.length) ∧
    (added.returns = false → added.count = count + seen.length) := by
  induction creatures generalizing count playerAdded known with
  | nil => simp [addCreatures, h]
  | cons c creatures ih =>
    simp only [List.map_cons, addCreatures, Bool.false_and, Bool.false_eq_true, if_false]
    by_cases hsee : v.player.canSeeCreature (creatureOf c) = true
    · simp only [hsee, Bool.not_true, Bool.false_eq_true, if_false]
      rw [List.filter_cons_of_pos (p := fun c => v.player.canSeeCreature (creatureOf c)) hsee]
      obtain ⟨k, hk⟩ : ∃ k, 10 - count = k + 1 := ⟨9 - count, by omega⟩
      split
      · rename_i hten
        obtain rfl : count = 9 := by omega
        refine ⟨.cons (.creature c _ _) (by simp), ?_, fun hfalse => by cases hfalse⟩
        simp only [true_iff, List.length_cons]
        omega
      · obtain ⟨hthings, hreturns, hcount⟩ := ih
          (checkCreatureAsKnown v.game (some v.player) v.order known (creatureOf c).id).knownCreatureSet
          (count + 1) (playerAdded || decide ((creatureOf c).id = v.player.id)) (by omega)
        have hk' : 10 - (count + 1) = k := by omega
        rw [hk'] at hthings
        refine ⟨?_, ?_, ?_⟩
        · rw [hk, List.take_succ_cons, List.map_cons]
          exact .cons (.creature c _ _) hthings
        · simp only [Added.cons, hreturns, List.length_cons]
          omega
        · intro hgoes
          simp only [Added.cons, hcount hgoes, List.length_cons]
          omega
    · simp only [hsee, Bool.not_false, if_true]
      rw [List.filter_cons_of_neg (p := fun c => v.player.canSeeCreature (creatureOf c)) hsee]
      exact ih known count playerAdded h

theorem addDownItems_take (items : List Item) (h : count < 10) :
    addDownItems count items = (items.take (10 - count)).map .item := by
  induction items generalizing count with
  | nil => simp [addDownItems]
  | cons item items ih =>
    obtain ⟨k, hk⟩ : ∃ k, 10 - count = k + 1 := ⟨9 - count, by omega⟩
    simp only [addDownItems, hk, List.take_succ_cons, List.map_cons]
    split
    · obtain rfl : k = 0 := by omega
      simp
    · rw [ih (by omega)]
      congr 4
      omega

/-- The client of another place gets the first ten candidates, in their order. -/
theorem describes_clientStack (v : View) (t : Tiles.Tile) (creatureOf : ℕ → Creature) {position : Position}
    (known : Finset ℕ) (hpos : position ≠ v.player.position) :
    List.Forall₂ (Describes creatureOf) (clientStack creatureOf v.player t)
      (tileThings v (shownTile creatureOf position t) known).1 := by
  have hground : List.Forall₂ (Describes creatureOf) (t.ground.toList.map .item)
      ((t.ground.map look).toList.map .item) := by
    rw [Option.toList_map]
    exact describes_items _
  obtain ⟨g, hg⟩ : ∃ g, (t.ground.toList.map Tiles.Thing.item).length = g := ⟨_, rfl⟩
  have hshort : g ≤ 1 := by
    rw [← hg]
    cases t.ground <;> simp
  have hg' : ((t.ground.map look).toList.map Thing.item).length = g := hground.length_eq.symm.trans hg
  obtain ⟨hthings, hknown, hreturns, hcount⟩ := addTopItems_take known g (t.topItems.map look) (by omega)
  rw [← List.map_take] at hthings
  simp only [List.length_map] at hreturns hcount
  unfold clientStack candidates tileThings shownTile
  simp only [hpos, decide_false, hg', hthings, hknown]
  rw [List.take_append, List.take_append, List.take_append, hg, List.length_map, List.length_map,
    List.take_of_length_le (by omega), ← List.map_take, ← List.map_take, ← List.map_take]
  split
  · rename_i hlong
    have hlong := hreturns.mp hlong
    rw [Nat.sub_eq_zero_of_le (show 10 - g ≤ t.topItems.length by omega)]
    simp only [List.take_zero, List.map_nil, Nat.zero_sub, List.append_nil]
    exact List.rel_append hground (describes_items _)
  · rename_i hroom
    have hroom' : g + t.topItems.length < 10 := by
      rw [hreturns] at hroom
      omega
    obtain ⟨hcrowd, hfull, hcount'⟩ := addCreatures_take v creatureOf known _ t.creatures.reverse false hroom'
    rw [hcount (by simpa using hroom), ← List.map_reverse]
    have hrest : 10 - g - t.topItems.length = 10 - (g + t.topItems.length) := by omega
    rw [hrest]
    split
    · rename_i hlong
      have hlong := hfull.mp hlong
      have hnone : 10 - (g + t.topItems.length) - (visible creatureOf v.player t).length = 0 := by
        unfold visible
        omega
      rw [hnone, List.take_zero, List.map_nil, List.append_nil, List.append_assoc]
      exact List.rel_append hground (List.rel_append (describes_items _) hcrowd)
    · rename_i hgoes
      rw [hfull] at hgoes
      have hcount'' := hcount' (Bool.eq_false_iff.mpr (mt hfull.mp hgoes))
      rw [hcount'', addDownItems_take _ (by omega), ← List.map_take, List.append_assoc, List.append_assoc]
      refine List.rel_append hground (List.rel_append (describes_items _) (List.rel_append hcrowd ?_))
      have hleft : 10 - (g + t.topItems.length) - (visible creatureOf v.player t).length =
          10 - (g + t.topItems.length +
            (t.creatures.reverse.filter fun c => v.player.canSeeCreature (creatureOf c)).length) := by
        unfold visible
        omega
      rw [hleft]
      exact describes_items _

end Description

/-! ## Where the search ends -/

/-- A thing that so many others come before. -/
def positionOf (n : ℕ) : ℤ := if n < 10 then n else -1

section Search
variable {types : ℕ → Tiles.ItemType} {creatureOf : ℕ → Creature} {player : Player} {n : ℕ} {item : Tiles.Item}

theorem topItemsLoop_found {before after : List Tiles.Item} (h : n < 10) (hbefore : ∀ x ∈ before, x.ref ≠ item.ref) :
    topItemsLoop item n (before ++ item :: after) = .error (positionOf (n + before.length)) := by
  induction before generalizing n with
  | nil => simp [topItemsLoop, positionOf, h]
  | cons x before ih =>
    simp only [List.cons_append, topItemsLoop, hbefore x (by simp), if_false, List.length_cons]
    split
    · rename_i hten
      rw [positionOf, if_neg (by omega)]
    · rw [ih (by omega) fun y hy => hbefore y (by simp [hy])]
      congr 2
      omega

theorem downItemsLoop_eq (items : List Tiles.Item) (h : n < 10) :
    downItemsLoop item n items = topItemsLoop item n items := by
  induction items generalizing n with
  | nil => rfl
  | cons x items ih =>
    simp only [downItemsLoop, topItemsLoop]
    by_cases hten : n + 1 = 10
    · simp only [hten, le_refl, if_true]
    · rw [if_neg (show ¬10 ≤ n + 1 by omega), if_neg hten, ih (by omega)]

theorem creaturesLoop_eq (creatures : List ℕ) (h : n < 10) : creaturesLoop creatureOf player n creatures =
      let seen := n + (creatures.filter fun c => player.canSeeCreature (creatureOf c)).length
      if seen < 10 then .ok seen else .error (-1) := by
  induction creatures generalizing n with
  | nil => simp [creaturesLoop, h]
  | cons c creatures ih =>
    simp only [creaturesLoop]
    by_cases hsee : player.canSeeCreature (creatureOf c) = true
    · rw [if_pos hsee, List.filter_cons_of_pos (p := fun c => player.canSeeCreature (creatureOf c)) hsee,
        List.length_cons]
      split
      · rw [if_neg (by omega)]
      · rw [ih (by omega)]
        simp only [Nat.add_comm _ 1, Nat.add_left_comm n 1]
        simp only [Nat.add_assoc]
    · rw [if_neg hsee, List.filter_cons_of_neg (p := fun c => player.canSeeCreature (creatureOf c)) hsee]
      exact ih h

theorem creatureLoop_found {before after : List ℕ} {creature : ℕ} (h : n < 10) (hbefore : creature ∉ before) :
    creatureLoop creatureOf player creature n (before ++ creature :: after) =
      .error (positionOf (n + (before.filter fun c => player.canSeeCreature (creatureOf c)).length)) := by
  induction before generalizing n with
  | nil => simp [creatureLoop, positionOf, h]
  | cons c before ih =>
    obtain ⟨hne, hrest⟩ := not_or.mp (mt List.mem_cons.mpr hbefore)
    simp only [List.cons_append, creatureLoop, Ne.symm hne, if_false]
    by_cases hsee : player.canSeeCreature (creatureOf c) = true
    · rw [if_pos hsee, List.filter_cons_of_pos (p := fun c => player.canSeeCreature (creatureOf c)) hsee,
        List.length_cons]
      split
      · rw [positionOf, if_neg (by omega)]
      · rw [ih (by omega) hrest]
        congr 2
        omega
    · rw [if_neg hsee, List.filter_cons_of_neg (p := fun c => player.canSeeCreature (creatureOf c)) hsee]
      exact ih h hrest

end Search

/-! ## Both agree -/

section Agreement
variable {types : ℕ → Tiles.ItemType} {creatureOf : ℕ → Creature} {player : Player} {t : Tiles.Tile}
  {x : Tiles.Item} {creature : ℕ}

theorem candidates_nodup (creatureOf : ℕ → Creature) (player : Player) (h : Stacked types t) :
    (candidates creatureOf player t).Nodup := by
  have hperm : (t.ground.toList.map Tiles.Thing.item ++ (t.topItems.map Tiles.Thing.item ++
      (t.creatures.reverse.map Tiles.Thing.creature ++ t.downItems.map Tiles.Thing.item))).Perm
      t.stack.things :=
    ((((List.reverse_perm t.creatures).map _).append_right _).append_left _).append_left _
  refine List.Nodup.sublist ?_ (hperm.nodup_iff.mpr (Tiles.things_nodup h))
  exact (((List.filter_sublist.map _).append_right _).append_left _).append_left _

theorem position_spec {l before after : List Tiles.Thing} {thing : Tiles.Thing} (hl : l = before ++ thing :: after)
    (hnodup : l.Nodup) :
    (∀ i : ℕ, positionOf before.length = i ↔ (l.take 10)[i]? = some thing) ∧
    (positionOf before.length = -1 ↔ thing ∉ l.take 10) := by
  have hat : l[before.length]? = some thing := by
    rw [hl]
    simp
  have hlt : before.length < l.length := by
    rw [hl]
    simp
  have hkey : ∀ i : ℕ, positionOf before.length = i ↔ (l.take 10)[i]? = some thing := by
    intro i
    rw [List.getElem?_take]
    unfold positionOf
    by_cases hi : i < 10
    · rw [if_pos hi, ← hat, eq_comm (a := l[i]?), List.getElem?_inj hlt hnodup]
      split <;> omega
    · rw [if_neg hi]
      simp only [reduceCtorEq, iff_false]
      split <;> omega
  refine ⟨hkey, ?_⟩
  rw [List.mem_iff_getElem?]
  constructor
  · intro hnone hfound
    obtain ⟨i, hi⟩ := hfound
    have := (hkey i).mpr hi
    omega
  · intro hnone
    unfold positionOf at hkey ⊢
    by_cases hten : before.length < 10
    · rw [if_pos hten] at hkey
      exact absurd ⟨_, (hkey before.length).mp rfl⟩ hnone
    · rw [if_neg hten]

theorem ref_ne_of_before {before after : List Tiles.Thing} (h : Stacked types t)
    (hl : candidates creatureOf player t = before ++ .item x :: after) (hx : x ∈ t.contents)
    {y : Tiles.Item} (hy : y ∈ t.contents) (hbefore : .item y ∈ before) : y.ref ≠ x.ref := by
  intro href
  have hnodup := candidates_nodup creatureOf player h
  rw [hl, List.nodup_append] at hnodup
  exact hnodup.2.2 _ hbefore _ (by simp) (congrArg _ (h.distinct.eq hy hx href))

theorem length_visible (t : Tiles.Tile) : (visible creatureOf player t).length =
    (t.creatures.filter fun c => player.canSeeCreature (creatureOf c)).length := by
  rw [visible, List.filter_reverse, List.length_reverse]

theorem length_ground_or (t : Tiles.Tile) : t.ground.toList.length = if t.ground.isSome then 1 else 0 := by
  cases t.ground <;> rfl

theorem not_ground (h : ∀ y ∈ t.ground.toList, y.ref ≠ x.ref) : t.ground.any (·.ref = x.ref) = false := by
  cases hground : t.ground with
  | none => rfl
  | some y => simpa [hground] using h y

theorem getStackposOfItem_top {front back : List Tiles.Item} (hsplit : t.topItems = front ++ x :: back)
    (htop : (x.type types).alwaysOnTop = true) (hother : ∀ y ∈ t.ground.toList ++ front, y.ref ≠ x.ref) :
    getStackposOfItem types creatureOf player t x =
      positionOf ((if t.ground.isSome then 1 else 0) + front.length) := by
  have hshort : (if t.ground.isSome then 1 else 0) < 10 := by split <;> omega
  rw [getStackposOfItem, not_ground fun y hy => hother y (by simp [hy])]
  simp only [Bool.false_eq_true, if_false, htop, if_true]
  rw [hsplit, topItemsLoop_found hshort fun y hy => hother y (by simp [hy])]
  rfl

theorem getStackposOfItem_down {front back : List Tiles.Item} (hsplit : t.downItems = front ++ x :: back)
    (hdown : (x.type types).alwaysOnTop = false) (hother : ∀ y ∈ t.ground.toList ++ front, y.ref ≠ x.ref) :
    getStackposOfItem types creatureOf player t x =
      positionOf ((if t.ground.isSome then 1 else 0) + t.topItems.length +
        (visible creatureOf player t).length + front.length) := by
  generalize hg : (if t.ground.isSome then 1 else 0) = g
  rw [getStackposOfItem, not_ground fun y hy => hother y (by simp [hy])]
  simp only [Bool.false_eq_true, if_false, hdown, hg]
  by_cases htop : 10 ≤ g + t.topItems.length
  · rw [if_pos htop, positionOf, if_neg (by omega)]
    rfl
  · rw [if_neg htop]
    change Search.position (creaturesLoop creatureOf player (g + t.topItems.length) t.creatures >>=
      fun n => downItemsLoop x n t.downItems) = _
    rw [creaturesLoop_eq t.creatures (by omega), ← length_visible]
    dsimp only
    by_cases hcrowd : g + t.topItems.length + (visible creatureOf player t).length < 10
    · rw [if_pos hcrowd]
      change Search.position (downItemsLoop x _ t.downItems) = _
      rw [downItemsLoop_eq _ hcrowd, hsplit, topItemsLoop_found hcrowd fun y hy => hother y (by simp [hy])]
      rfl
    · rw [if_neg hcrowd, positionOf, if_neg (by omega)]
      rfl

/-- The position of an item is the number of candidates before it, if that is less than ten. -/
theorem getStackposOfItem_found (creatureOf : ℕ → Creature) (player : Player) (h : Stacked types t)
    (hx : x ∈ t.contents) :
    ∃ before after, candidates creatureOf player t = before ++ .item x :: after ∧
      getStackposOfItem types creatureOf player t x = positionOf before.length := by
  have hmem := hx
  rw [Tiles.Tile.contents, Tiles.Tile.items_eq, List.mem_append, List.mem_append] at hmem
  rcases hmem with hground | hdown | htop
  · have hground := Option.mem_toList.mp hground
    refine ⟨[], _, by rw [candidates, hground]; rfl, ?_⟩
    simp [getStackposOfItem, hground, positionOf]
  · obtain ⟨front, back, hsplit⟩ := List.append_of_mem hdown
    have hl : candidates creatureOf player t = (t.ground.toList.map .item ++ (t.topItems.map .item ++
          ((visible creatureOf player t).map .creature ++ front.map .item))) ++
        .item x :: back.map .item := by
      rw [candidates, hsplit]
      simp
    have hother : ∀ y ∈ t.ground.toList ++ front, y.ref ≠ x.ref := by
      intro y hy
      refine ref_ne_of_before h hl hx ?_ ?_
      · rw [Tiles.Tile.contents, Tiles.Tile.items_eq, hsplit]
        simp only [List.mem_append] at hy ⊢
        tauto
      · simp only [List.mem_append, List.mem_map] at hy ⊢
        rcases hy with hy | hy
        · exact .inl ⟨y, hy, rfl⟩
        · exact .inr (.inr (.inr ⟨y, hy, rfl⟩))
    refine ⟨_, _, hl, ?_⟩
    rw [getStackposOfItem_down hsplit (h.ordered.down x hdown) hother]
    simp only [List.length_append, List.length_map, ← length_ground_or]
    congr 1
    omega
  · obtain ⟨front, back, hsplit⟩ := List.append_of_mem htop
    have hl : candidates creatureOf player t = (t.ground.toList.map .item ++ front.map .item) ++
        .item x :: (back.map .item ++ ((visible creatureOf player t).map .creature ++ t.downItems.map .item)) := by
      rw [candidates, hsplit]
      simp
    have hother : ∀ y ∈ t.ground.toList ++ front, y.ref ≠ x.ref := by
      intro y hy
      refine ref_ne_of_before h hl hx ?_ ?_
      · rw [Tiles.Tile.contents, Tiles.Tile.items_eq, hsplit]
        simp only [List.mem_append] at hy ⊢
        tauto
      · rw [← List.map_append]
        exact List.mem_map_of_mem hy
    refine ⟨_, _, hl, ?_⟩
    rw [getStackposOfItem_top hsplit (h.ordered.top x htop) hother, List.length_append, List.length_map,
      List.length_map, length_ground_or]

theorem getStackposOfCreature_found (h : Stacked types t) (hc : creature ∈ t.creatures)
    (hsee : player.canSeeCreature (creatureOf creature) = true) :
    ∃ before after, candidates creatureOf player t = before ++ .creature creature :: after ∧
      getStackposOfCreature creatureOf player t creature = positionOf before.length := by
  obtain ⟨front, back, hsplit⟩ := List.append_of_mem (List.mem_reverse.mpr hc)
  have hnodup : (front ++ creature :: back).Nodup := by
    rw [← hsplit]
    exact List.nodup_reverse.mpr h.creatures
  have hbefore : creature ∉ front := by
    intro hmem
    rw [List.nodup_append] at hnodup
    exact hnodup.2.2 _ hmem _ (by simp) rfl
  have hl : candidates creatureOf player t = (t.ground.toList.map .item ++ (t.topItems.map .item ++
        (front.filter fun c => player.canSeeCreature (creatureOf c)).map .creature)) ++
      .creature creature :: ((back.filter fun c => player.canSeeCreature (creatureOf c)).map .creature ++
        t.downItems.map .item) := by
    rw [candidates, visible, hsplit, List.filter_append,
      List.filter_cons_of_pos (p := fun c => player.canSeeCreature (creatureOf c)) hsee]
    simp
  refine ⟨_, _, hl, ?_⟩
  simp only [List.length_append, List.length_map, ← Nat.add_assoc]
  rw [length_ground_or, getStackposOfCreature]
  generalize (if t.ground.isSome then 1 else 0) = g
  by_cases hfull : 10 ≤ g + t.topItems.length
  · refine (if_pos hfull).trans ?_
    rw [positionOf, if_neg (by omega)]
  · refine (if_neg hfull).trans ?_
    rw [hsplit, creatureLoop_found (by omega) hbefore]
    rfl

end Agreement

/-- For every tile of another place, observer and state of the known creatures: what is
described are the things of the client's stack, and the position of an item or of a
visible creature is its place there, and -1 for what is not there. -/
theorem stack_positions_agree (types : ℕ → Tiles.ItemType) (v : View) (t : Tiles.Tile) (creatureOf : ℕ → Creature)
    (position : Position) (known : Finset ℕ) (h : Stacked types t) (hpos : position ≠ v.player.position) :
    List.Forall₂ (Describes creatureOf) (clientStack creatureOf v.player t)
      (tileThings v (shownTile creatureOf position t) known).1 ∧
    (∀ x ∈ t.contents, (∀ k : ℕ, getStackposOfItem types creatureOf v.player t x = k ↔
        (clientStack creatureOf v.player t)[k]? = some (.item x)) ∧
      (getStackposOfItem types creatureOf v.player t x = -1 ↔ .item x ∉ clientStack creatureOf v.player t)) ∧
    ∀ c ∈ t.creatures, v.player.canSeeCreature (creatureOf c) = true →
      (∀ k : ℕ, getStackposOfCreature creatureOf v.player t c = k ↔
        (clientStack creatureOf v.player t)[k]? = some (.creature c)) ∧
      (getStackposOfCreature creatureOf v.player t c = -1 ↔ .creature c ∉ clientStack creatureOf v.player t) := by
  have hnodup := candidates_nodup creatureOf v.player h
  refine ⟨describes_clientStack v t creatureOf known hpos, ?_, ?_⟩
  · intro x hx
    obtain ⟨before, after, hl, hposition⟩ := getStackposOfItem_found creatureOf v.player h hx
    rw [hposition]
    exact position_spec hl hnodup
  · intro c hc hsee
    obtain ⟨before, after, hl, hposition⟩ := getStackposOfCreature_found h hc hsee
    rw [hposition]
    exact position_spec hl hnodup

/-- A bench under a lamp, with somebody in front of an invisible monster. -/
def bench : Tiles.Tile where
  ground := some { id := 100, ref := 1 }
  items := [{ id := 700, ref := 2 }, { id := 1210, ref := 3 }]
  downItemCount := 1
  creatures := [2, 3]

def passerBy (id : ℕ) : Creature := { id, isInvisible := id = 3 }

theorem stack_positions_agree_bench :
    getStackposOfItem Tiles.streetTypes passerBy shopkeeper.player bench { id := 700, ref := 2 } = 3 ∧
    (clientStack passerBy shopkeeper.player bench)[3]? = some (.item { id := 700, ref := 2 }) := by
  have hstacked : Stacked Tiles.streetTypes bench :=
    ⟨⟨rfl, by decide⟩, by decide, by decide, ⟨by decide, by decide⟩⟩
  obtain ⟨-, hitems, -⟩ := stack_positions_agree Tiles.streetTypes shopkeeper bench passerBy ⟨99, 100, 7⟩ ∅
    hstacked (by decide)
  have hplace : (clientStack passerBy shopkeeper.player bench)[3]? = some (.item { id := 700, ref := 2 }) := by
    decide
  exact ⟨((hitems _ (by decide)).1 3).mpr hplace, hplace⟩

end ForgottenServer.Net
