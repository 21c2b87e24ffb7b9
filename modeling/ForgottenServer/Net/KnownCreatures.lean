import ForgottenServer.Lib.Run
import ForgottenServer.Net.Sight
import Mathlib.Data.Finset.Card
import Mathlib.Data.Finset.Dedup
import Mathlib.Data.Finset.Sort

/-! # The creatures that a client knows

The server keeps the ids that it has sent, so that the client keeps the same. -/
namespace ForgottenServer.Net
open ForgottenServer.Lib.Run

/-- An order in which a `std::unordered_set` may be gone through. -/
structure Order where
  list : Finset ℕ → List ℕ
  nodup : ∀ s, (list s).Nodup
  mem : ∀ s id, id ∈ list s ↔ id ∈ s

/-- What `checkCreatureAsKnown` leaves: `removedKnown` may be left as it was. -/
structure Checked where
  knownCreatureSet : Finset ℕ
  known : Bool
  removedKnown : Option ℕ

def checkCreatureAsKnown (game : Game) (player : Option Player) (order : Order)
    (knownCreatureSet : Finset ℕ) (id : ℕ) : Checked :=
  if id ∈ knownCreatureSet then ⟨knownCreatureSet, true, none⟩
  else
    let set := insert id knownCreatureSet
    if 1300 < set.card then
      match (order.list set).find? fun it => !canSeeCreature player (game.getCreatureByID it) with
      | some it => ⟨set.erase it, false, some it⟩
      | none =>
        let rest := if (order.list set).head? = some id then (order.list set).tail
          else order.list set
        match rest.head? with
        | some it => ⟨set.erase it, false, some it⟩
        | none => ⟨set, false, none⟩
    else ⟨set, false, some 0⟩

/-- What a client does that is sent a creature: an unknown one is added, and the
removed one dropped. -/
def clientAdds (client : Finset ℕ) (id : ℕ) (c : Checked) : Finset ℕ :=
  if c.known then client
  else insert id (match c.removedKnown with
    | some removed => client.erase removed
    | none => client)

/-- The server and the client, with the creatures and the player at the moment. -/
structure Session where
  game : Game := {}
  player : Option Player := none
  knownCreatureSet : Finset ℕ := ∅
  client : Finset ℕ := ∅

inductive Event
  | check (order : Order) (id : ℕ)
  /-- creatures, or the player, appear, move, change or are removed -/
  | change (game : Game) (player : Option Player)

def Session.check (s : Session) (order : Order) (id : ℕ) : Checked :=
  checkCreatureAsKnown s.game s.player order s.knownCreatureSet id

def Session.step (s : Session) : Event → Session
  | .check order id =>
    { s with
      knownCreatureSet := (s.check order id).knownCreatureSet
      client := clientAdds s.client id (s.check order id) }
  | .change game player => { s with game, player }

/-- The creature of a call can be seen. -/
def Session.Sees (s : Session) : Event → Prop
  | .check _ id => canSeeCreature s.player (s.game.getCreatureByID id) = true
  | .change _ _ => True

/-! ## One call -/

/-- A removed id is an old one. -/
structure Fits (before : Finset ℕ) (id : ℕ) (c : Checked) : Prop where
  mem : id ∈ c.knownCreatureSet
  card : c.knownCreatureSet.card ≤ 1300
  removed : ∀ removed ∈ c.removedKnown, removed ≠ 0 → removed ≠ id ∧ removed ∈ before

variable {game : Game} {player : Option Player} {order : Order} {before : Finset ℕ} {id it : ℕ}

theorem ne_zero_of_canSee (h : canSeeCreature player (game.getCreatureByID id) = true) : id ≠ 0 := by
  rintro rfl
  rw [game.getCreatureByID_zero] at h
  exact absurd h (by simp [canSeeCreature])

/-- Either nothing is removed, or an old id: the new one is seen and so not looked for,
and the search for anyone steps over it. -/
theorem checkCreatureAsKnown_cases (order : Order) (hsees : canSeeCreature player (game.getCreatureByID id) = true) :
    id ∈ before ∧ checkCreatureAsKnown game player order before id = ⟨before, true, none⟩ ∨
    id ∉ before ∧ (insert id before).card ≤ 1300 ∧
      checkCreatureAsKnown game player order before id = ⟨insert id before, false, some 0⟩ ∨
    ∃ it ∈ before, it ≠ id ∧ id ∉ before ∧ checkCreatureAsKnown game player order before id =
        ⟨(insert id before).erase it, false, some it⟩ := by
  by_cases hknown : id ∈ before
  · exact .inl ⟨hknown, by rw [checkCreatureAsKnown, if_pos hknown]⟩
  right
  rw [checkCreatureAsKnown, if_neg hknown]
  dsimp only
  by_cases hfull : 1300 < (insert id before).card
  swap
  · exact .inl ⟨hknown, not_lt.mp hfull, by rw [if_neg hfull]⟩
  right
  rw [if_pos hfull]
  -- an id of the list that is not the new one is an old one
  have hold : ∀ {it}, it ∈ order.list (insert id before) → it ≠ id → it ∈ before := fun hit hne =>
    Finset.mem_of_mem_insert_of_ne ((order.mem _ _).mp hit) hne
  split
  · rename_i it hfind
    have hunseen := List.find?_some hfind
    have hne : it ≠ id := by
      rintro rfl
      simp [hsees] at hunseen
    exact ⟨it, hold (List.mem_of_find?_eq_some hfind) hne, hne, hknown, rfl⟩
  · have hlength : 1300 < (order.list (insert id before)).length := by
      have hset : (order.list (insert id before)).toFinset = insert id before := by
        ext it
        rw [List.mem_toFinset, order.mem]
      rw [← List.toFinset_card_of_nodup (order.nodup _), hset]
      exact hfull
    have hnodup := order.nodup (insert id before)
    cases hlist : order.list (insert id before) with
    | nil =>
      rw [hlist] at hlength
      simp at hlength
    | cons first rest =>
      rw [hlist] at hlength hnodup hold
      by_cases hfirst : first = id
      · subst hfirst
        cases rest with
        | nil => simp at hlength
        | cons second rest =>
          have hne : second ≠ first := fun heq => (List.nodup_cons.mp hnodup).1 (by simp [heq])
          exact ⟨second, hold (by simp) hne, hne, hknown, by simp⟩
      · exact ⟨first, hold (by simp) hfirst, hfirst, hknown, by simp [hfirst]⟩

theorem checkCreatureAsKnown_fits (order : Order) (hsees : canSeeCreature player (game.getCreatureByID id) = true)
    (hcard : before.card ≤ 1300) : Fits before id (checkCreatureAsKnown game player order before id) := by
  obtain ⟨hknown, h⟩ | ⟨hknown, hroom, h⟩ | ⟨it, hit, hne, hknown, h⟩ :=
    checkCreatureAsKnown_cases order hsees
  · rw [h]
    exact ⟨hknown, hcard, by simp⟩
  · rw [h]
    refine ⟨Finset.mem_insert_self _ _, hroom, fun removed hremoved hzero => ?_⟩
    exact absurd (Option.mem_some.mp hremoved).symm hzero
  · rw [h]
    refine ⟨Finset.mem_erase.mpr ⟨hne.symm, Finset.mem_insert_self _ _⟩, ?_, fun removed hremoved _ => ?_⟩
    · rw [Finset.card_erase_of_mem (Finset.mem_insert_of_mem hit), Finset.card_insert_of_notMem hknown]
      omega
    · obtain rfl := Option.mem_some.mp hremoved
      exact ⟨hne, hit⟩

theorem clientAdds_check (order : Order)
    (hsees : canSeeCreature player (game.getCreatureByID id) = true) (hzero : 0 ∉ before) :
    clientAdds before id (checkCreatureAsKnown game player order before id) =
      (checkCreatureAsKnown game player order before id).knownCreatureSet := by
  obtain ⟨-, h⟩ | ⟨-, -, h⟩ | ⟨it, -, hne, -, h⟩ := checkCreatureAsKnown_cases order hsees
  · rw [h]
    rfl
  · rw [h]
    change insert id (before.erase 0) = insert id before
    rw [Finset.erase_eq_of_notMem hzero]
  · rw [h]
    change insert id (before.erase it) = (insert id before).erase it
    rw [Finset.erase_insert_of_ne hne.symm]

/-! ## Runs -/

structure Session.Inv (s : Session) : Prop where
  same : s.client = s.knownCreatureSet
  card : s.knownCreatureSet.card ≤ 1300
  zero : 0 ∉ s.knownCreatureSet

theorem Session.inv_init : Session.Inv {} := ⟨rfl, by simp, by simp⟩

theorem Session.inv_step (s : Session) (event : Event) (h : s.Inv) (hsees : s.Sees event) : (s.step event).Inv := by
  cases event with
  | change game player => exact ⟨h.same, h.card, h.zero⟩
  | check order id =>
    have hfits := checkCreatureAsKnown_fits order hsees h.card
    refine ⟨?_, hfits.card, ?_⟩
    · change clientAdds s.client id (s.check order id) = (s.check order id).knownCreatureSet
      rw [h.same]
      exact clientAdds_check order hsees h.zero
    · change 0 ∉ (s.check order id).knownCreatureSet
      rw [Session.check]
      have hid := ne_zero_of_canSee hsees
      obtain ⟨-, hc⟩ | ⟨-, -, hc⟩ | ⟨it, -, -, -, hc⟩ := checkCreatureAsKnown_cases order hsees
      · rw [hc]
        exact h.zero
      · rw [hc, Finset.mem_insert, not_or]
        exact ⟨hid.symm, h.zero⟩
      · rw [hc, Finset.mem_erase, Finset.mem_insert, not_and_or, not_or]
        exact .inr ⟨hid.symm, h.zero⟩

theorem known_creatures_in_step (events : List Event) (order : Order) (id : ℕ)
    (hsees : Along Session.step Session.Sees {} (events ++ [.check order id])) :
    let s := run Session.step {} events
    Fits s.knownCreatureSet id (s.check order id) ∧
      (s.step (.check order id)).client = (s.step (.check order id)).knownCreatureSet := by
  intro s
  have hinv : s.Inv := inv_run Session.inv_step Session.inv_init hsees.left
  have hlast : s.Sees (.check order id) := hsees.last
  exact ⟨checkCreatureAsKnown_fits order hlast hinv.card, (s.inv_step _ hinv hlast).same⟩

def Order.ascending : Order where
  list s := s.sort
  nodup s := s.sort_nodup _
  mem s _ := s.mem_sort _

/-- A monster next to the player is made known. -/
theorem known_creatures_in_step_monster :
    let game : Game := { monsters := fun id => some { id, position := ⟨101, 100, 7⟩ } }
    let player : Player := { id := 0x10000000, position := ⟨100, 100, 7⟩, isPlayer := true }
    let s := run Session.step {} [.change game (some player)]
    Fits s.knownCreatureSet 0x40000000 (s.check .ascending 0x40000000) ∧
      (s.step (.check .ascending 0x40000000)).client = (s.step (.check .ascending 0x40000000)).knownCreatureSet := by
  intro game player
  have hsees : canSeeCreature (some player) (game.getCreatureByID 0x40000000) = true := by decide
  exact known_creatures_in_step [.change game (some player)] .ascending 0x40000000 ⟨trivial, hsees, trivial⟩

end ForgottenServer.Net
