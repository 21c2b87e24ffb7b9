import ForgottenServer.Inventory.Removals

/-! # Crafting

`Crafting.attempt` looks for each ingredient and each tool of a recipe in the
inventory, then removes them one after the other. What it adds for a success comes
after that and is not part of the model. -/
namespace ForgottenServer.Crafting
open ForgottenServer.Inventory

structure Ingredient where
  id : UInt16
  count : ℕ

structure Tool where
  id : UInt16
  consumeOnUse : Bool := false

/-- A registered recipe, with the defaults of `registerRecipe`. -/
structure Recipe where
  craftingSkill : ℕ
  requiredSkillLevel : ℤ := 1
  requiredVocation : List ℕ := []
  ingredients : List Ingredient
  tools : List Tool := []
  successChance : ℤ := 80
  skillBonusPerLevel : ℤ := 2
  maxSuccessChance : ℤ := 100

/-- A player; what he carries of a type is counted in 32 bits. -/
structure Player (types : ℕ → Decay.ItemType) where
  getStorageValue : ℕ → ℤ
  vocation : ℕ
  slots : Slots
  carried : Carried slots
  small : ∀ id, carriedCount types slots id < 2 ^ 32

inductive Reason
  | skill | vocation | ingredients | tools | success | failed
  deriving DecidableEq, Repr

/-! ## The functions -/

section Attempt
variable {types : ℕ → Decay.ItemType} (player : Player types) (recipe : Recipe)

/-- `player:getItemCount`. -/
def getItemCount (id : UInt16) : ℕ := (getItemTypeCount types player.slots id.toNat (-1)).toNat

def STORAGE_SKILL_BASE : ℕ := 40000

def getSkillLevel (skillId : ℕ) : ℤ :=
  let level := player.getStorageValue (STORAGE_SKILL_BASE + skillId)
  if level < 1 then 1 else level

def hasIngredients : Bool :=
  recipe.ingredients.all fun ingredient => !decide (getItemCount player ingredient.id < ingredient.count)

def hasTools : Bool := recipe.tools.all fun tool => !decide (getItemCount player tool.id < 1)

def checkVocation : Bool :=
  recipe.requiredVocation.isEmpty || recipe.requiredVocation.any (· = player.vocation)

def meetsSkillRequirement : Bool := recipe.requiredSkillLevel ≤ getSkillLevel player recipe.craftingSkill

def calculateSuccessChance : ℤ :=
  let skillLevel := getSkillLevel player recipe.craftingSkill
  let bonusLevels := max 0 (skillLevel - recipe.requiredSkillLevel)
  let chance := recipe.successChance + bonusLevels * recipe.skillBonusPerLevel
  min recipe.maxSuccessChance (max 0 chance)

/-- `player:removeItem(id, count)`, whose answer is not looked at. -/
def removeItem (types : ℕ → Decay.ItemType) (slots : Slots) (id : UInt16) (count : ℕ) : Slots :=
  (removeItemOfType types slots id.toNat (UInt32.ofNat count) (-1) false).2

def consumeIngredients (types : ℕ → Decay.ItemType) : Slots → List Ingredient → Slots
  | slots, [] => slots
  | slots, ingredient :: ingredients =>
    consumeIngredients types (removeItem types slots ingredient.id ingredient.count) ingredients

def consumeTools (types : ℕ → Decay.ItemType) : Slots → List Tool → Slots
  | slots, [] => slots
  | slots, tool :: tools =>
    consumeTools types (if tool.consumeOnUse then removeItem types slots tool.id 1 else slots) tools

/-- `Crafting.attempt`, up to the results: what it returns, and what is carried then. -/
def attempt (roll : ℤ) : Bool × Reason × Slots :=
  if !meetsSkillRequirement player recipe then (false, .skill, player.slots)
  else if !checkVocation player recipe then (false, .vocation, player.slots)
  else if !hasIngredients player recipe then (false, .ingredients, player.slots)
  else if !hasTools player recipe then (false, .tools, player.slots)
  else
    let slots := consumeIngredients types player.slots recipe.ingredients
    let slots := consumeTools types slots recipe.tools
    if roll ≤ calculateSuccessChance player recipe then (true, .success, slots)
    else (false, .failed, slots)

end Attempt

/-! ## What is consumed -/

/-- What a recipe names of an item in all. -/
def Recipe.need (recipe : Recipe) (id : UInt16) : ℕ :=
  (recipe.ingredients.map fun ingredient => if id = ingredient.id then ingredient.count else 0).sum +
    (recipe.tools.map fun tool => if id = tool.id ∧ tool.consumeOnUse then 1 else 0).sum

section Consumed
variable {types : ℕ → Decay.ItemType} (player : Player types) (recipe : Recipe)

def ConsumesExactly (roll : ℤ) : Prop :=
  match (attempt player recipe roll).2 with
  | (.skill, slots) | (.vocation, slots) | (.ingredients, slots) | (.tools, slots) => slots = player.slots
  | (.success, slots) | (.failed, slots) => ∀ id : UInt16,
    carriedCount types slots id.toNat + recipe.need id = carriedCount types player.slots id.toNat

def Passes : Prop :=
  meetsSkillRequirement player recipe = true ∧ checkVocation player recipe = true ∧
    hasIngredients player recipe = true ∧ hasTools player recipe = true

/-- There is enough for all entries of the recipe together. -/
def Enough : Prop := ∀ id, recipe.need id ≤ carriedCount types player.slots id.toNat

def requests : List (ℕ × UInt32) :=
  recipe.ingredients.map (fun ingredient => (ingredient.id.toNat, UInt32.ofNat ingredient.count)) ++
    (recipe.tools.filter (·.consumeOnUse)).map fun tool => (tool.id.toNat, 1)

/-- Each removal takes what it is asked for and no more, from what those before it have left. -/
def AllClean : Prop :=
  ∀ done r, done ++ [r] <+: requests recipe → Clean types (removeEach types player.slots done) r.1 r.2

variable {player recipe}

theorem attempt_refused {roll : ℤ} (h : ¬ Passes player recipe) : ConsumesExactly player recipe roll := by
  unfold ConsumesExactly attempt
  cases hskill : meetsSkillRequirement player recipe with
  | false => rfl
  | true =>
    cases hvocation : checkVocation player recipe with
    | false => rfl
    | true =>
      cases hingredients : hasIngredients player recipe with
      | false => rfl
      | true =>
        cases htools : hasTools player recipe with
        | false => rfl
        | true => exact absurd ⟨hskill, hvocation, hingredients, htools⟩ h

theorem consumeIngredients_eq (slots : Slots) (ingredients : List Ingredient) :
    consumeIngredients types slots ingredients = removeEach types slots
      (ingredients.map fun ingredient => (ingredient.id.toNat, UInt32.ofNat ingredient.count)) := by
  induction ingredients generalizing slots with
  | nil => rfl
  | cons ingredient ingredients ih => exact ih _

theorem consumeTools_eq (slots : Slots) (tools : List Tool) : consumeTools types slots tools = removeEach types slots
      ((tools.filter (·.consumeOnUse)).map fun tool => (tool.id.toNat, 1)) := by
  induction tools generalizing slots with
  | nil => rfl
  | cons tool tools ih =>
    cases hconsume : tool.consumeOnUse with
    | true =>
      rw [List.filter_cons_of_pos hconsume, consumeTools, hconsume, if_pos rfl]
      exact ih _
    | false =>
      rw [List.filter_cons_of_neg (by simp [hconsume]), consumeTools, hconsume, if_neg Bool.false_ne_true]
      exact ih _

theorem attempt_passed (roll : ℤ) (h : Passes player recipe) : ConsumesExactly player recipe roll ↔ ∀ id : UInt16,
      carriedCount types (removeEach types player.slots (requests recipe)) id.toNat + recipe.need id =
        carriedCount types player.slots id.toNat := by
  obtain ⟨hskill, hvocation, hingredients, htools⟩ := h
  have hslots : consumeTools types (consumeIngredients types player.slots recipe.ingredients) recipe.tools =
      removeEach types player.slots (requests recipe) := by
    rw [consumeTools_eq, consumeIngredients_eq, requests, removeEach, removeEach, removeEach, List.foldl_append]
  have hattempt : attempt player recipe roll = if roll ≤ calculateSuccessChance player recipe then
      (true, .success, removeEach types player.slots (requests recipe))
      else (false, .failed, removeEach types player.slots (requests recipe)) := by
    simp only [attempt, hskill, hvocation, hingredients, htools, Bool.not_true, Bool.false_eq_true, if_false, hslots]
  rw [ConsumesExactly, hattempt]
  split
  all_goals rename_i heq
  all_goals split at heq <;> cases heq
  · rfl
  · rfl

theorem getItemCount_eq (id : UInt16) : getItemCount player id = carriedCount types player.slots id.toNat :=
  getItemTypeCount_toNat (player.small id.toNat)

theorem toNat_count (h : Passes player recipe) {ingredient : Ingredient}
    (hmem : ingredient ∈ recipe.ingredients) : (UInt32.ofNat ingredient.count).toNat = ingredient.count := by
  obtain ⟨-, -, hingredients, -⟩ := h
  have hle := List.all_eq_true.mp hingredients ingredient hmem
  simp only [Bool.not_eq_true', decide_eq_false_iff_not, not_lt] at hle
  rw [getItemCount_eq] at hle
  have := player.small ingredient.id.toNat
  rw [UInt32.toNat_ofNat', Nat.mod_eq_of_lt (by omega)]

theorem asked_requests (h : Passes player recipe) (id : UInt16) :
    asked (requests recipe) id.toNat = recipe.need id := by
  rw [requests, asked_append, asked, asked, List.map_map, List.map_map, Recipe.need]
  congr 1
  · refine congrArg List.sum (List.map_congr_left fun ingredient hmem => ?_)
    simp only [Function.comp, UInt16.toNat_inj, toNat_count h hmem]
  · induction recipe.tools with
    | nil => rfl
    | cons tool tools ih =>
      cases hconsume : tool.consumeOnUse with
      | true =>
        rw [List.filter_cons_of_pos hconsume, List.map_cons, List.sum_cons, List.map_cons, List.sum_cons, ih]
        simp [Function.comp, UInt16.toNat_inj, hconsume]
      | false =>
        rw [List.filter_cons_of_neg (by simp [hconsume]), ih, List.map_cons, List.sum_cons]
        simp [hconsume]

/-- Whoever passes the checks needs enough for all entries together; and it is sufficient that each
removal, when its turn comes, finds enough and takes only items that go alone. -/
theorem attempt_consumes_exactly (player : Player types) (recipe : Recipe) (roll : ℤ) :
    (ConsumesExactly player recipe roll → ¬ Passes player recipe ∨ Enough player recipe) ∧
      (¬ Passes player recipe ∨ AllClean player recipe → ConsumesExactly player recipe roll) := by
  by_cases hpass : Passes player recipe
  · rw [attempt_passed roll hpass]
    constructor
    · intro hexact
      refine .inr fun id => ?_
      have := hexact id
      omega
    · intro h id
      rw [← asked_requests hpass]
      exact removeEach_removed player.carried player.small (h.resolve_left (not_not.mpr hpass)) id.toNat
  · exact ⟨fun _ => .inl hpass, fun _ => attempt_refused hpass⟩

end Consumed

/-! ## An ingredient that is named twice -/

/-- Everything is stacked. -/
def pantry (id : ℕ) : Decay.ItemType := { id, stackable := true }

/-- Three of an item that the recipe names two times two of. -/
def cook : Player pantry where
  getStorageValue := fun _ => 1
  vocation := 0
  slots := [some ({ id := 2671, count := 3, ref := 1 }, .nil)]
  carried := ⟨by decide, by decide⟩
  small := by
    intro id
    simp only [carriedCount, contents, Lib.Bags.Bag.total, matching, countByType]
    split <;> simp

def stew : Recipe where
  craftingSkill := 1
  ingredients := [⟨2671, 2⟩, ⟨2671, 2⟩]

/-- The second entry is not paid for. -/
theorem stew_for_half : (attempt cook stew 1).1 = true ∧
      carriedCount pantry (attempt cook stew 1).2.2 2671 + 2 = carriedCount pantry cook.slots 2671 ∧
      stew.need 2671 = 4 ∧ ¬ ConsumesExactly cook stew 1 := by
  have hleft : carriedCount pantry (attempt cook stew 1).2.2 2671 = 1 := by decide +kernel
  have hall : carriedCount pantry cook.slots 2671 = 3 := by decide
  have hneed : stew.need 2671 = 4 := by decide
  have hdone : (attempt cook stew 1).2.1 = .success := by decide +kernel
  refine ⟨by decide +kernel, by omega, hneed, fun h => ?_⟩
  have hresult : (attempt cook stew 1).2 = (.success, (attempt cook stew 1).2.2) := Prod.ext hdone rfl
  unfold ConsumesExactly at h
  rw [hresult] at h
  have hlost : carriedCount pantry (attempt cook stew 1).2.2 2671 + stew.need 2671 =
      carriedCount pantry cook.slots 2671 := h 2671
  omega

end ForgottenServer.Crafting
