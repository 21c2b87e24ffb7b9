import ForgottenServer.Net.TileDescription

/-! # The tile of the player

At most ten things of a tile are described, and on the tile that the player stands
on he is one of them: the top items leave room, and in the tenth place he stands
for whichever creature would be there. -/
namespace ForgottenServer.Net

variable {v : View} {own : Bool} {count : ℕ} {known : Finset ℕ}

/-- An entry that is the player's. -/
def Thing.isSelf (v : View) : Thing → Bool
  | .item _ => false
  | .creature c _ _ => c.id = v.player.id

/-- How often the player is described. -/
def timesSeen (v : View) (things : List Thing) : ℕ := things.countP (Thing.isSelf v)

theorem timesSeen_append (things things' : List Thing) :
    timesSeen v (things ++ things') = timesSeen v things + timesSeen v things' := List.countP_append

theorem timesSeen_items {things : List Thing} (h : ∀ t ∈ things, ∃ item, t = .item item) : timesSeen v things = 0 := by
  refine List.countP_eq_zero.mpr fun t ht => ?_
  obtain ⟨item, rfl⟩ := h t ht
  simp [Thing.isSelf]

theorem canSeeCreature_self {player : Player} {c : Creature} (h : c.id = player.id) :
    player.canSeeCreature c = true := if_pos h

/-! ## The loops -/

theorem addTopItems_items (items : List Item) :
    ∀ t ∈ (addTopItems own known count items).things, ∃ item, t = .item item := by
  induction items generalizing count with
  | nil => simp [addTopItems]
  | cons item items ih =>
    simp only [addTopItems]
    split
    · simp
    · split
      · simp
      · intro t ht
        rcases List.mem_cons.mp ht with rfl | ht
        · exact ⟨item, rfl⟩
        · exact ih t ht

theorem addTopItems_count (own : Bool) (known : Finset ℕ) (count : ℕ) (items : List Item) (h : count < 10) :
    (addTopItems own known count items).count = count + (addTopItems own known count items).things.length ∧
    (addTopItems own known count items).count ≤ 10 ∧
    ((addTopItems own known count items).returns = false → (addTopItems own known count items).count < 10) := by
  induction items generalizing count with
  | nil => exact ⟨rfl, h.le, fun _ => h⟩
  | cons item items ih =>
    simp only [addTopItems]
    split
    · rename_i hnine
      simp only [Bool.and_eq_true, decide_eq_true_eq] at hnine
      have hle : count + 1 ≤ 10 := by omega
      have hlt : count + 1 < 10 := by omega
      exact ⟨rfl, hle, fun _ => hlt⟩
    · split
      · rename_i hten
        exact ⟨rfl, hten.le, fun hfalse => by cases hfalse⟩
      · obtain ⟨hcount, hle, hlt⟩ := ih (count + 1) (by omega)
        refine ⟨?_, hle, hlt⟩
        change (addTopItems own known (count + 1) items).count = _
        rw [hcount]
        simp only [Added.cons, List.length_cons]
        omega

theorem addTopItems_own (known : Finset ℕ) (count : ℕ) (items : List Item) (h : count < 9) :
    (addTopItems true known count items).returns = false := by
  induction items generalizing count with
  | nil => rfl
  | cons item items ih =>
    simp only [addTopItems]
    split
    · rfl
    · rename_i hnine
      simp only [Bool.and_true, decide_eq_true_eq] at hnine
      rw [if_neg (by omega)]
      exact ih (count + 1) (by omega)

theorem addCreatures_count (v : View) (own : Bool) (known : Finset ℕ) (count : ℕ) (creatures : List Creature)
    (playerAdded : Bool) (h : count < 10) :
    (addCreatures v own count playerAdded known creatures).count =
      count + (addCreatures v own count playerAdded known creatures).things.length ∧
    (addCreatures v own count playerAdded known creatures).count ≤ 10 ∧
    ((addCreatures v own count playerAdded known creatures).returns = false →
      (addCreatures v own count playerAdded known creatures).count < 10) := by
  induction creatures generalizing count playerAdded known with
  | nil => exact ⟨rfl, h.le, fun _ => h⟩
  | cons c creatures ih =>
    simp only [addCreatures]
    split
    · exact ih known count playerAdded h
    · split
      · rename_i hten
        exact ⟨rfl, hten.le, fun hfalse => by cases hfalse⟩
      · rename_i hten
        generalize (if own && decide (count = 9) && !playerAdded then v.player.toCreature else c) = shown
        have hrest := ih
          (checkCreatureAsKnown v.game (some v.player) v.order known shown.id).knownCreatureSet (count + 1)
          (playerAdded || decide (shown.id = v.player.id)) (by omega)
        obtain ⟨hcount, hle, hlt⟩ := hrest
        refine ⟨?_, hle, hlt⟩
        simp only [Added.cons, List.length_cons]
        omega

theorem addCreatures_self (v : View) (known : Finset ℕ) (count : ℕ) (creatures : List Creature) (playerAdded : Bool)
    (h : count < 10) (honce : creatures.countP (fun c => c.id = v.player.id) = if playerAdded then 0 else 1) :
    timesSeen v (addCreatures v true count playerAdded known creatures).things = if playerAdded then 0 else 1 := by
  induction creatures generalizing count playerAdded known with
  | nil => exact honce
  | cons c creatures ih =>
    rw [List.countP_cons] at honce
    simp only [addCreatures]
    split
    · rename_i hhidden
      have hother : c.id ≠ v.player.id := fun hself => by
        rw [canSeeCreature_self hself] at hhidden
        cases hhidden
      simp only [hother, decide_false, Bool.false_eq_true, if_false, Nat.add_zero] at honce
      exact ih known count playerAdded h honce
    · cases playerAdded with
      | true =>
        simp only [if_true, Nat.add_eq_zero_iff, ite_eq_right_iff, Nat.one_ne_zero, imp_false,
          decide_eq_true_eq] at honce
        simp only [Bool.not_true, Bool.and_false, Bool.false_eq_true, if_false, Bool.true_or]
        split
        · simp [timesSeen, Thing.isSelf, honce.2]
        · have hrest := ih
            (checkCreatureAsKnown v.game (some v.player) v.order known c.id).knownCreatureSet (count + 1)
            true (by omega) honce.1
          simpa [timesSeen, Added.cons, Thing.isSelf, honce.2] using hrest
      | false =>
        simp only [Bool.not_false, Bool.and_true, Bool.false_or, Bool.true_and, decide_eq_true_eq]
        by_cases hnine : count = 9
        · -- the tenth place is the player's
          simp [hnine, timesSeen, Thing.isSelf]
        · rw [if_neg hnine, if_neg (by omega)]
          by_cases hself : c.id = v.player.id
          · simp only [hself, decide_true, if_true, Bool.false_eq_true, if_false] at honce
            have hrest := ih
              (checkCreatureAsKnown v.game (some v.player) v.order known c.id).knownCreatureSet (count + 1)
              true (by omega) (by simpa using honce)
            simp only [hself, decide_true] at hrest ⊢
            simpa [timesSeen, Added.cons, Thing.isSelf, hself] using hrest
          · simp only [hself, decide_false, Bool.false_eq_true, if_false, Nat.add_zero] at honce
            have hrest := ih
              (checkCreatureAsKnown v.game (some v.player) v.order known c.id).knownCreatureSet (count + 1)
              false (by omega) (by simpa using honce)
            simp only [hself, decide_false] at hrest ⊢
            simpa [timesSeen, Added.cons, Thing.isSelf, hself] using hrest

theorem addDownItems_items (items : List Item) : ∀ t ∈ addDownItems count items, ∃ item, t = .item item := by
  induction items generalizing count with
  | nil => simp [addDownItems]
  | cons item items ih =>
    intro t ht
    simp only [addDownItems] at ht
    rcases List.mem_cons.mp ht with rfl | ht
    · exact ⟨item, rfl⟩
    · split at ht
      · simp at ht
      · exact ih t ht

theorem addDownItems_length (count : ℕ) (items : List Item) (h : count < 10) :
    count + (addDownItems count items).length ≤ 10 := by
  induction items generalizing count with
  | nil => simpa [addDownItems] using h.le
  | cons item items ih =>
    simp only [addDownItems, List.length_cons]
    split
    · simp only [List.length_nil]
      omega
    · have := ih (count + 1) (by omega)
      omega

/-! ## The description -/

theorem length_ground (ground : Option Item) : (ground.toList.map Thing.item).length ≤ 1 := by
  cases ground <;> simp

theorem tileThings_length (v : View) (tile : Tile) (known : Finset ℕ) : (tileThings v tile known).1.length ≤ 10 := by
  have hground := length_ground tile.ground
  obtain ⟨htop, hle, hlt⟩ := addTopItems_count (tile.position = v.player.position) known
    (tile.ground.toList.map Thing.item).length tile.topItems (by omega)
  unfold tileThings
  dsimp only
  split
  · rw [List.length_append]
    omega
  · rename_i hgoes
    have hcount := hlt (by simpa using hgoes)
    obtain ⟨hcreatures, hle', hlt'⟩ := addCreatures_count v (tile.position = v.player.position)
      (addTopItems (decide (tile.position = v.player.position)) known
        (tile.ground.toList.map Thing.item).length tile.topItems).knownCreatureSet _
      tile.creatures.reverse false hcount
    split
    · simp only [List.length_append]
      omega
    · rename_i hgoes'
      have hdown := addDownItems_length _ tile.downItems (hlt' (by simpa using hgoes'))
      simp only [List.length_append]
      omega

/-- For every tile that the player stands on, the description has at most ten things and the
player is exactly one of them. -/
theorem player_sees_himself (v : View) (tile : Tile) (known : Finset ℕ) (hpos : tile.position = v.player.position)
    (hstands : tile.creatures.countP (fun c => c.id = v.player.id) = 1) :
    (tileThings v tile known).1.length ≤ 10 ∧ timesSeen v (tileThings v tile known).1 = 1 := by
  refine ⟨tileThings_length v tile known, ?_⟩
  have hground := length_ground tile.ground
  have hgroundItems : ∀ t ∈ tile.ground.toList.map Thing.item, ∃ item, t = .item item := by
    intro t ht
    obtain ⟨item, _, rfl⟩ := List.mem_map.mp ht
    exact ⟨item, rfl⟩
  have hreturns := addTopItems_own known (tile.ground.toList.map Thing.item).length tile.topItems (by omega)
  obtain ⟨-, -, hlt⟩ := addTopItems_count true known (tile.ground.toList.map Thing.item).length
    tile.topItems (by omega)
  have hself := addCreatures_self v
    (addTopItems true known (tile.ground.toList.map Thing.item).length tile.topItems).knownCreatureSet _
    tile.creatures.reverse false (hlt hreturns)
    (by rw [List.countP_reverse]; exact hstands)
  unfold tileThings
  simp only [hpos, decide_true, hreturns, Bool.false_eq_true, if_false]
  split
  · simp only [timesSeen_append, timesSeen_items hgroundItems, timesSeen_items (addTopItems_items _), hself]
    rfl
  · simp only [timesSeen_append, timesSeen_items hgroundItems, timesSeen_items (addTopItems_items _), hself,
      timesSeen_items (addDownItems_items _)]
    rfl

/-- A player in a crowd, behind nine signs. -/
def shopkeeper : View where
  player := { id := 1, position := ⟨100, 100, 7⟩, isPlayer := true }
  order := .ascending
  items := fun _ => { clientId := 102 }
  getTile := fun _ _ _ => none

def counter : Tile where
  position := ⟨100, 100, 7⟩
  ground := some { id := 1 }
  topItems := List.replicate 9 { id := 2 }
  creatures := [{ id := 1, isPlayer := true }, { id := 2, isPlayer := true }, { id := 3, isInGhostMode := true }]

theorem player_sees_himself_counter :
    (tileThings shopkeeper counter ∅).1.length ≤ 10 ∧ timesSeen shopkeeper (tileThings shopkeeper counter ∅).1 = 1 :=
  player_sees_himself shopkeeper counter ∅ rfl rfl

end ForgottenServer.Net
