import ForgottenServer.Creatures.Links
import Mathlib.Data.List.InsertIdx

/-! # Every creature thinks once a second

`checkCreatures` is called every 100 ms, each time for the next of the ten lists.
Its loop runs over a list that what the creatures do may lengthen, and takes the
creatures out of it that are not to be checked any more. -/
namespace ForgottenServer.Creatures
open ForgottenServer.Lib.Run ForgottenServer.Lib

section Frame
variable {g : Game} {c m : ℕ}

/-- The events that touch one of the ten lists or the clock. -/
def Event.ticks : Event → Bool
  | .addCreatureCheck .. | .checkCreatures | .checkNext => true
  | _ => false

theorem clock_leaveMaster {oldMaster : Option ℕ} : (g.leaveMaster c oldMaster).clock = g.clock := by
  unfold Game.leaveMaster
  split
  · rfl
  · split <;> rfl

theorem clock_setMaster {newMaster : Option ℕ} : (g.setMaster c newMaster).clock = g.clock := by
  unfold Game.setMaster
  dsimp only
  rw [clock_leaveMaster]
  split <;> rfl

theorem clock_death : (g.death m).clock = g.clock := by
  have hfold : ∀ (l : List ℕ) (g : Game), (l.foldl Game.removeMaster g).clock = g.clock := by
    intro l
    induction l with
    | nil => exact fun _ => rfl
    | cons c l ih =>
      intro g
      refine (ih _).trans ?_
      unfold Game.removeMaster
      split <;> rfl
  rw [death_eq]
  exact (alike_clearFriendList.trans alike_clearTargetList).clock.trans (hfold _ g)

def Game.SameTime (g' g : Game) : Prop :=
  g'.checkCreatureLists = g.checkCreatureLists ∧ g'.clock = g.clock

theorem sameTime_step {e : Event} (he : e.ticks = false) : (g.step e).SameTime g := by
  unfold Game.step
  split
  swap
  · exact ⟨rfl, rfl⟩
  by_cases hbinds : e.binds = false
  · exact ⟨congrArg Prod.fst (alike_apply hbinds).checks, (alike_apply hbinds).clock⟩
  · cases e with
    | create => exact ⟨rfl, rfl⟩
    | setMaster c newMaster => exact ⟨congrArg Prod.fst checks_setMaster, clock_setMaster⟩
    | death m => exact ⟨congrArg Prod.fst checks_death, clock_death⟩
    | delete c =>
      simp only [Game.apply]
      split
      · exact ⟨congrArg Prod.fst (checks_death (m := c)), clock_death (m := c)⟩
      · exact ⟨rfl, rfl⟩
    | addCreatureCheck c i => cases he
    | checkCreatures => cases he
    | checkNext => cases he
    | _ => exact absurd rfl hbinds

end Frame

/-! ## Passes over a list -/

/-- How many of the first calls are for a list. -/
def turnsOf (i : Fin eventCreatureCount) (calls : ℕ) : ℕ :=
  (calls + (eventCreatureCount - 1) - i) / eventCreatureCount

theorem turnsOf_succ (i : Fin eventCreatureCount) (calls : ℕ) :
    turnsOf i (calls + 1) = turnsOf i calls + if calls % eventCreatureCount = i then 1 else 0 := by
  have hi := i.isLt
  unfold turnsOf eventCreatureCount at *
  split <;> omega

theorem turnsOf_rounds (i : Fin eventCreatureCount) (calls n : ℕ) :
    turnsOf i (calls + eventCreatureCount * n) = turnsOf i calls + n := by
  have hi := i.isLt
  unfold turnsOf eventCreatureCount at *
  omega

/-- 1 while the pass over the list of a creature has not got to the creature yet. -/
def Game.toCome (g : Game) (i : Fin eventCreatureCount) (c : ℕ) : ℕ :=
  match g.cursor with
  | none => 0
  | some (j, k) => if j = i ∧ c ∉ (g.checkCreatureLists i).take k then 1 else 0

/-- The pass under way has not left its list, and the calls go round the lists in order. -/
structure Game.Clocked (g : Game) : Prop where
  bound : ∀ j k, g.cursor = some (j, k) → k ≤ (g.checkCreatureLists j).length
  index : g.index.val = g.calls % eventCreatureCount

/-- A creature is in a list and has thought `thoughts` times and once for every turn of the
list but `turns` of them. -/
structure Game.Watched (g : Game) (i : Fin eventCreatureCount) (c thoughts turns : ℕ) : Prop where
  mem : c ∈ g.checkCreatureLists i
  count : g.visited.count c + g.toCome i c + turns = thoughts + turnsOf i g.calls

section Pass
variable {g g' : Game} {i : Fin eventCreatureCount} {c thoughts turns : ℕ}

theorem Game.SameTime.fields (h : g'.SameTime g) : g'.checkCreatureLists = g.checkCreatureLists ∧
    g'.cursor = g.cursor ∧ g'.index = g.index ∧ g'.calls = g.calls ∧ g'.visited = g.visited := by
  obtain ⟨hlists, hclock⟩ := h
  simp only [Game.clock, Prod.mk.injEq] at hclock
  exact ⟨hlists, hclock⟩

theorem Game.Clocked.same (h : g.Clocked) (hsame : g'.SameTime g) : g'.Clocked := by
  obtain ⟨hlists, hcursor, hindex, hcalls, -⟩ := hsame.fields
  exact ⟨by rw [hlists, hcursor]; exact h.bound, by rw [hindex, hcalls]; exact h.index⟩

theorem Game.Watched.same (h : g.Watched i c thoughts turns) (hsame : g'.SameTime g) :
    g'.Watched i c thoughts turns := by
  obtain ⟨hlists, hcursor, -, hcalls, hvisited⟩ := hsame.fields
  refine ⟨hlists ▸ h.mem, ?_⟩
  have hcome : g'.toCome i c = g.toCome i c := by unfold Game.toCome; rw [hcursor, hlists]
  rw [hvisited, hcome, hcalls]
  exact h.count

/-! ### A creature is added -/

theorem addCreatureCheck_lists {a : ℕ} {j : Fin eventCreatureCount} : (g.addCreatureCheck a j).clock = g.clock ∧
      ∀ i, (g.addCreatureCheck a j).checkCreatureLists i = g.checkCreatureLists i ∨
        (g.addCreatureCheck a j).checkCreatureLists i = g.checkCreatureLists i ++ [a] := by
  unfold Game.addCreatureCheck
  dsimp only
  split
  · exact ⟨rfl, fun _ => .inl rfl⟩
  · refine ⟨rfl, fun i => ?_⟩
    by_cases hij : i = j
    · subst hij
      exact .inr (Function.update_self ..)
    · exact .inl (Function.update_of_ne hij ..)

theorem Game.Clocked.addCreatureCheck {a : ℕ} {j : Fin eventCreatureCount} (h : g.Clocked) :
    (g.addCreatureCheck a j).Clocked := by
  obtain ⟨hclock, hlists⟩ := @addCreatureCheck_lists g a j
  simp only [Game.clock, Prod.mk.injEq] at hclock
  obtain ⟨hcursor, hindex, hcalls, -⟩ := hclock
  refine ⟨fun i k hk => ?_, by rw [hindex, hcalls]; exact h.index⟩
  have hle := h.bound i k (hcursor ▸ hk)
  rcases hlists i with heq | heq
  · rw [heq]
    exact hle
  · rw [heq, List.length_append]
    exact Nat.le_add_right_of_le hle

theorem Game.Watched.addCreatureCheck {a : ℕ} {j : Fin eventCreatureCount} (h : g.Watched i c thoughts turns)
    (hclocked : g.Clocked) : (g.addCreatureCheck a j).Watched i c thoughts turns := by
  obtain ⟨hclock, hlists⟩ := @addCreatureCheck_lists g a j
  simp only [Game.clock, Prod.mk.injEq] at hclock
  obtain ⟨hcursor, -, hcalls, hvisited⟩ := hclock
  have hcome : (g.addCreatureCheck a j).toCome i c = g.toCome i c := by
    unfold Game.toCome
    rw [hcursor]
    cases hg : g.cursor with
    | none => rfl
    | some pos =>
      obtain ⟨l, k⟩ := pos
      dsimp only
      by_cases hl : l = i
      · subst hl
        have hle := hclocked.bound l k hg
        rcases hlists l with heq | heq
        · rw [heq]
        · rw [heq, List.take_append_of_le_length hle]
      · rw [if_neg fun hboth => hl hboth.1, if_neg fun hboth => hl hboth.1]
  refine ⟨?_, by rw [hvisited, hcome, hcalls]; exact h.count⟩
  rcases hlists i with heq | heq
  · rw [heq]
    exact h.mem
  · rw [heq]
    exact List.mem_append_left _ h.mem

/-! ### A pass begins -/

theorem checkCreatures_cases : (g.cursor ≠ none ∧ g.apply .checkCreatures = g) ∨
    (g.cursor = none ∧ g.apply .checkCreatures =
      { g with cursor := some (g.index, 0), index := g.index + 1, calls := g.calls + 1 }) := by
  by_cases h : g.cursor = none
  · exact .inr ⟨h, by simp only [Game.apply, if_pos h]⟩
  · exact .inl ⟨h, by simp only [Game.apply, if_neg h]⟩

theorem Game.Clocked.checkCreatures (h : g.Clocked) : (g.apply .checkCreatures).Clocked := by
  rcases @checkCreatures_cases g with ⟨-, heq⟩ | ⟨-, heq⟩
  · rwa [heq]
  · rw [heq]
    refine ⟨fun j k hk => ?_, ?_⟩
    · obtain ⟨-, rfl⟩ := Prod.mk.inj (Option.some.inj hk)
      exact Nat.zero_le _
    · have hindex := h.index
      dsimp only
      rw [Fin.val_add, hindex]
      simp [eventCreatureCount]

theorem Game.Watched.checkCreatures (h : g.Watched i c thoughts turns) (hclocked : g.Clocked) :
    (g.apply .checkCreatures).Watched i c thoughts turns := by
  rcases @checkCreatures_cases g with ⟨-, heq⟩ | ⟨hcursor, heq⟩
  · rwa [heq]
  · rw [heq]
    refine ⟨h.mem, ?_⟩
    have hcount := h.count
    have hbefore : g.toCome i c = 0 := by unfold Game.toCome; rw [hcursor]
    rw [hbefore] at hcount
    dsimp only
    rw [turnsOf_succ]
    have hafter : ({ g with cursor := some (g.index, 0), index := g.index + 1, calls := g.calls + 1 } :
        Game).toCome i c = if g.calls % eventCreatureCount = i then 1 else 0 := by
      unfold Game.toCome
      simp only [List.take_zero, List.not_mem_nil, not_false_eq_true, and_true, ← hclocked.index, Fin.ext_iff]
    rw [hafter]
    omega

/-! ### A turn of the loop -/

theorem checkNext_cases {j : Fin eventCreatureCount} {k : ℕ} : ((g.checkCreatureLists j).length ≤ k ∧
      (g.checkNext j k).SameTime { g with cursor := none }) ∨
    (∃ a, (g.checkCreatureLists j)[k]? = some a ∧ (g.creatures a).creatureCheck = true ∧ g.checkNext j k = { g with
        cursor := some (j, k + 1)
        visited := g.visited ++ if 0 < (g.creatures a).health then [a] else [] }) ∨
    ∃ a, (g.checkCreatureLists j)[k]? = some a ∧ (g.creatures a).creatureCheck = false ∧
      (g.checkNext j k).clock = g.clock ∧
      (g.checkNext j k).checkCreatureLists =
        Function.update g.checkCreatureLists j ((g.checkCreatureLists j).eraseIdx k) := by
  unfold Game.checkNext
  cases hget : (g.checkCreatureLists j)[k]? with
  | none =>
    exact .inl ⟨List.getElem?_eq_none_iff.mp hget, congrArg Prod.fst alike_cleanup.checks, alike_cleanup.clock⟩
  | some a =>
    dsimp only
    split
    · rename_i hcheck
      exact .inr (.inl ⟨a, rfl, hcheck, rfl⟩)
    · rename_i hcheck
      exact .inr (.inr ⟨a, rfl, Bool.eq_false_iff.mpr hcheck, rfl, rfl⟩)

theorem Game.Clocked.checkNext {j : Fin eventCreatureCount} {k : ℕ} (h : g.Clocked)
    (hcursor : g.cursor = some (j, k)) : (g.checkNext j k).Clocked := by
  rcases @checkNext_cases g j k with ⟨-, hsame⟩ | ⟨a, hget, -, heq⟩ | ⟨a, hget, -, hclock, hlists⟩
  · have hend : ({ g with cursor := none } : Game).Clocked := ⟨nofun, h.index⟩
    exact hend.same hsame
  · rw [heq]
    refine ⟨fun j' k' hk => ?_, h.index⟩
    obtain ⟨rfl, rfl⟩ := Prod.mk.inj (Option.some.inj hk)
    exact (List.getElem?_eq_some_iff.mp hget).1
  · simp only [Game.clock, Prod.mk.injEq] at hclock
    obtain ⟨hcursor', hindex, hcalls, -⟩ := hclock
    refine ⟨fun j' k' hk => ?_, by rw [hindex, hcalls]; exact h.index⟩
    rw [hcursor', hcursor] at hk
    obtain ⟨rfl, rfl⟩ := Prod.mk.inj (Option.some.inj hk)
    have hlt := (List.getElem?_eq_some_iff.mp hget).1
    rw [hlists, Function.update_self, List.length_eraseIdx, if_pos hlt]
    omega

theorem Game.Checked.unique {j : Fin eventCreatureCount} (h : g.Checked)
    (hi : c ∈ g.checkCreatureLists i) (hj : c ∈ g.checkCreatureLists j) : j = i := by
  by_contra hne
  have hsum := h c
  rw [if_pos (h.mark hi)] at hsum
  have hpair : (g.checkCreatureLists i).count c + (g.checkCreatureLists j).count c ≤
      ∑ l, (g.checkCreatureLists l).count c := by
    rw [← Finset.sum_pair (f := fun l => (g.checkCreatureLists l).count c) (Ne.symm hne)]
    exact Finset.sum_le_sum_of_subset (Finset.subset_univ _)
  have hposi := List.count_pos_iff.mpr hi
  have hposj := List.count_pos_iff.mpr hj
  omega

theorem Game.Checked.nodup (h : g.Checked) : (g.checkCreatureLists i).Nodup := by
  refine List.nodup_iff_count_le_one.mpr fun c => ?_
  have hle : (g.checkCreatureLists i).count c ≤ ∑ i, (g.checkCreatureLists i).count c :=
    Finset.single_le_sum (f := fun i => (g.checkCreatureLists i).count c) (fun _ _ => Nat.zero_le _)
      (Finset.mem_univ i)
  have hsum := h c
  split at hsum <;> omega

theorem Game.Watched.checkNext {j : Fin eventCreatureCount} {k : ℕ} (h : g.Watched i c thoughts turns)
    (hcursor : g.cursor = some (j, k)) (hchecked : g.Checked) (hcheck : (g.creatures c).creatureCheck = true)
    (hhealth : 0 < (g.creatures c).health) : (g.checkNext j k).Watched i c thoughts turns := by
  have hcount := h.count
  have hcome : g.toCome i c = if j = i ∧ c ∉ (g.checkCreatureLists i).take k then 1 else 0 := by
    unfold Game.toCome
    rw [hcursor]
  rw [hcome] at hcount
  rcases @checkNext_cases g j k with ⟨hend, hsame⟩ | ⟨a, hget, -, heq⟩ | ⟨a, hget, hgone, hclock, hlists⟩
  · -- the pass is over, and the creature was in it
    have hnone : ({ g with cursor := none } : Game).Watched i c thoughts turns := by
      refine ⟨h.mem, ?_⟩
      rw [if_neg] at hcount
      · exact hcount
      · rintro ⟨rfl, hnot⟩
        rw [List.take_of_length_le hend] at hnot
        exact hnot h.mem
    exact hnone.same hsame
  · obtain ⟨hlt, hmem⟩ := List.getElem?_eq_some_iff.mp hget
    rw [heq]
    refine ⟨h.mem, ?_⟩
    have hthinks : (if 0 < (g.creatures a).health then [a] else []).count c = if a = c then 1 else 0 := by
      by_cases ha : a = c
      · rw [ha, if_pos hhealth, if_pos rfl, List.count_singleton_self]
      · rw [if_neg ha]
        split <;> simp [ha]
    have hafter : ({ g with
        cursor := some (j, k + 1)
        visited := g.visited ++ if 0 < (g.creatures a).health then [a] else [] } : Game).toCome i c =
        if j = i ∧ c ∉ (g.checkCreatureLists i).take (k + 1) then 1 else 0 := rfl
    rw [hafter]
    dsimp only
    rw [List.count_append, hthinks]
    by_cases hj : j = i
    · subst hj
      have hnext : c ∈ (g.checkCreatureLists j).take (k + 1) ↔ c ∈ (g.checkCreatureLists j).take k ∨ c = a := by
        rw [List.take_succ_eq_append_getElem hlt, hmem, List.mem_append, List.mem_singleton]
      simp only [true_and, hnext] at hcount ⊢
      by_cases ha : c = a
      · -- it is the creature's turn
        have hnot : c ∉ (g.checkCreatureLists j).take k := by
          intro hin
          have hnodup := hchecked.nodup (i := j)
          rw [← List.take_append_drop k (g.checkCreatureLists j)] at hnodup
          have hdrop : c ∈ (g.checkCreatureLists j).drop k := by
            rw [List.drop_eq_getElem_cons hlt, hmem, ha]
            exact List.mem_cons_self
          exact List.disjoint_of_nodup_append hnodup hin hdrop
        rw [if_pos hnot] at hcount
        rw [if_pos ha.symm, if_neg (by simp [ha])]
        omega
      · rw [if_neg (Ne.symm ha)]
        simp only [ha, or_false]
        exact hcount
    · have ha : a ≠ c := by
        rintro rfl
        exact hj (hchecked.unique h.mem (List.mem_of_getElem? hget))
      rw [if_neg fun hboth => hj hboth.1] at hcount
      rw [if_neg ha, if_neg fun hboth => hj hboth.1]
      exact hcount
  · -- another creature is taken out
    have ha : a ≠ c := by
      rintro rfl
      rw [hcheck] at hgone
      cases hgone
    obtain ⟨hlt, hmem⟩ := List.getElem?_eq_some_iff.mp hget
    simp only [Game.clock, Prod.mk.injEq] at hclock
    obtain ⟨hcursor', -, hcalls, hvisited⟩ := hclock
    have hafter : (g.checkNext j k).toCome i c =
        if j = i ∧ c ∉ (g.checkCreatureLists i).take k then 1 else 0 := by
      unfold Game.toCome
      rw [hcursor', hcursor, hlists]
      by_cases hj : j = i
      · subst hj
        dsimp only
        rw [Function.update_self, List.take_eraseIdx_eq_take_of_le _ _ _ le_rfl]
      · dsimp only
        rw [if_neg fun hboth => hj hboth.1, if_neg fun hboth => hj hboth.1]
    refine ⟨?_, by rw [hvisited, hafter, hcalls]; exact hcount⟩
    rw [hlists]
    by_cases hj : i = j
    · subst hj
      rw [Function.update_self]
      have hin := (List.getElem_cons_eraseIdx_perm hlt).mem_iff.mpr h.mem
      rw [hmem] at hin
      exact (List.mem_cons.mp hin).resolve_left (Ne.symm ha)
    · rw [Function.update_of_ne hj]
      exact h.mem

/-! ### Runs -/

theorem Game.Clocked.step {e : Event} (h : g.Clocked) : (g.step e).Clocked := by
  by_cases he : e.ticks = false
  · exact h.same (sameTime_step he)
  unfold Game.step
  split
  swap
  · exact h
  cases e with
  | addCreatureCheck a j => exact h.addCreatureCheck
  | checkCreatures => exact h.checkCreatures
  | checkNext =>
    simp only [Game.apply]
    split
    · exact h
    · rename_i hcursor
      exact h.checkNext hcursor
  | _ => exact absurd rfl he

theorem Game.Watched.step {e : Event} (h : g.Watched i c thoughts turns) (hclocked : g.Clocked)
    (hchecked : g.Checked) (hcheck : (g.creatures c).creatureCheck = true)
    (hhealth : 0 < (g.creatures c).health) : (g.step e).Watched i c thoughts turns := by
  by_cases he : e.ticks = false
  · exact h.same (sameTime_step he)
  unfold Game.step
  split
  swap
  · exact h
  cases e with
  | addCreatureCheck a j => exact h.addCreatureCheck hclocked
  | checkCreatures => exact h.checkCreatures hclocked
  | checkNext =>
    simp only [Game.apply]
    split
    · exact h
    · rename_i hcursor
      exact h.checkNext hcursor hchecked hcheck hhealth
  | _ => exact absurd rfl he

theorem run_clocked (es : List Event) : (run Game.step {} es).Clocked := by
  have hall : Along Game.step (fun _ _ => True) {} es := Along.of_forall fun _ _ => trivial
  exact inv_run (fun _ _ h _ => h.step) ⟨nofun, rfl⟩ hall

theorem Game.Watched.run {pre es : List Event} (h : (Run.run Game.step {} pre).Watched i c thoughts turns)
    (hcheck : ∀ mid, mid <+: es → ((Run.run Game.step {} (pre ++ mid)).creatures c).creatureCheck = true ∧
        0 < ((Run.run Game.step {} (pre ++ mid)).creatures c).health) :
    (Run.run Game.step {} (pre ++ es)).Watched i c thoughts turns := by
  induction es using List.reverseRecOn with
  | nil => rwa [List.append_nil]
  | append_singleton es e ih =>
    have hbefore := ih fun mid hmid => hcheck mid (hmid.trans (List.prefix_append _ _))
    rw [← List.append_assoc, run_append]
    obtain ⟨hstays, hhealth⟩ := hcheck es (List.prefix_append _ _)
    exact hbefore.step (run_clocked _) (run_inv _).checked hstays hhealth

end Pass

/-- A creature is made, placed and put into the first list. -/
def newcomer : List Event :=
  [.create, .internalPlaceCreature 0, .addCreatureCheck 0 ⟨0, by decide⟩]

/-- Ten passes, the first over the list with the creature in it. -/
def oneRound : List Event :=
  [.checkCreatures, .checkNext, .checkNext] ++ (List.replicate 9 [.checkCreatures, .checkNext]).flatten

end ForgottenServer.Creatures
