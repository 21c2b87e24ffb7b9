import ForgottenServer.Creatures.Lifetime
import Mathlib.Algebra.Order.BigOperators.Group.Finset

/-! # No creature is deleted while something names it

The counters of all creatures are exact in every state a run leads to, the lists of
summons and the masters agree, and a creature is in one of the ten lists of
`checkCreatures` at most, and there once. -/
namespace ForgottenServer.Creatures
open ForgottenServer.Lib.Run ForgottenServer.Lib

/-- Whoever has a master is in its list of summons once, and nobody else is. -/
def Game.Linked (g : Game) : Prop :=
  ∀ m c, (g.creatures m).summons.count c = if (g.creatures c).master = some m then 1 else 0

/-- Whoever is marked is in one of the ten lists, once, and nobody else is. -/
def Game.Checked (g : Game) : Prop :=
  ∀ c, ∑ i, (g.checkCreatureLists i).count c = if (g.creatures c).inCheckCreaturesVector then 1 else 0

/-! ## What most events leave alone -/

def Game.bonds (g : Game) (k : ℕ) : List ℕ × Option ℕ :=
  ((g.creatures k).summons, (g.creatures k).master)

/-- The lists of `checkCreatures`, and the marks of the creatures in them. -/
def Game.checks (g : Game) : (Fin eventCreatureCount → List ℕ) × (ℕ → Bool) :=
  (g.checkCreatureLists, fun k => (g.creatures k).inCheckCreaturesVector)

/-- How far `checkCreatures` is. -/
def Game.clock (g : Game) : Option (Fin eventCreatureCount × ℕ) × Fin eventCreatureCount × ℕ × List ℕ :=
  (g.cursor, g.index, g.calls, g.visited)

section Frame
variable {g g' : Game} {c m : ℕ} {f : Creature → Creature}

theorem Game.Linked.of_bonds (h : g.Linked) (hbonds : g'.bonds = g.bonds) : g'.Linked := by
  intro m c
  have hm : (g'.creatures m).summons = (g.creatures m).summons := congrArg Prod.fst (congrFun hbonds m)
  have hc : (g'.creatures c).master = (g.creatures c).master := congrArg Prod.snd (congrFun hbonds c)
  rw [hm, hc]
  exact h m c

theorem Game.Checked.of_checks (h : g.Checked) (hchecks : g'.checks = g.checks) : g'.Checked := by
  intro c
  have hlists : g'.checkCreatureLists = g.checkCreatureLists := congrArg Prod.fst hchecks
  have hmark : (g'.creatures c).inCheckCreaturesVector = (g.creatures c).inCheckCreaturesVector :=
    congrFun (congrArg Prod.snd hchecks) c
  rw [hlists, hmark]
  exact h c

theorem bonds_modify (hf : ∀ x, (f x).summons = x.summons ∧ (f x).master = x.master) :
    (g.modify m f).bonds = g.bonds := by
  funext k
  have hsummons := @modify_field g m f _ Creature.summons (fun x => (hf x).1) k
  have hmaster := @modify_field g m f _ Creature.master (fun x => (hf x).2) k
  exact Prod.ext hsummons hmaster

theorem checks_modify (hf : ∀ x, (f x).inCheckCreaturesVector = x.inCheckCreaturesVector) :
    (g.modify m f).checks = g.checks :=
  Prod.ext rfl (funext fun k => modify_field Creature.inCheckCreaturesVector hf k)

/-- Bonds, checks and clock of two games are the same. -/
structure Game.Alike (g' g : Game) : Prop where
  bonds : g'.bonds = g.bonds
  checks : g'.checks = g.checks
  clock : g'.clock = g.clock

theorem Game.Alike.refl : g.Alike g := ⟨rfl, rfl, rfl⟩

theorem Game.Alike.trans {g'' : Game} (h : g''.Alike g') (h' : g'.Alike g) : g''.Alike g :=
  ⟨h.1.trans h'.1, h.2.trans h'.2, h.3.trans h'.3⟩

theorem alike_modify (hf : ∀ x, (f x).summons = x.summons ∧ (f x).master = x.master ∧
    (f x).inCheckCreaturesVector = x.inCheckCreaturesVector) : (g.modify m f).Alike g :=
  ⟨bonds_modify fun x => ⟨(hf x).1, (hf x).2.1⟩, checks_modify fun x => (hf x).2.2, rfl⟩

theorem alike_increment : (g.incrementReferenceCounter c).Alike g := alike_modify fun _ => ⟨rfl, rfl, rfl⟩

theorem alike_decrement : (g.decrementReferenceCounter c).Alike g := alike_modify fun _ => ⟨rfl, rfl, rfl⟩

theorem alike_decrementAll (l : List ℕ) : (g.decrementAll l).Alike g := by
  induction l generalizing g with
  | nil => exact .refl
  | cons c l ih => exact (ih (g := g.decrementReferenceCounter c)).trans alike_decrement

theorem alike_removeCreatureCheck : (g.removeCreatureCheck c).Alike g := by
  unfold Game.removeCreatureCheck
  split
  · exact alike_modify fun _ => ⟨rfl, rfl, rfl⟩
  · exact .refl

theorem alike_cleanup : g.cleanup.Alike g :=
  (alike_decrementAll g.toReleaseCreatures).trans ⟨rfl, rfl, rfl⟩

theorem alike_clearTargetList : (g.clearTargetList m).Alike g :=
  (alike_decrementAll _).trans (alike_modify (by intro x; exact ⟨rfl, rfl, rfl⟩))

theorem alike_clearFriendList : (g.clearFriendList m).Alike g :=
  (alike_decrementAll _).trans (alike_modify (by intro x; exact ⟨rfl, rfl, rfl⟩))

/-- The events that touch a bond, one of the ten lists or the clock. -/
def Event.binds : Event → Bool
  | .create | .setMaster .. | .death _ | .delete _ | .addCreatureCheck .. | .checkCreatures
  | .checkNext => true
  | _ => false

theorem alike_apply {e : Event} (he : e.binds = false) : (g.apply e).Alike g := by
  cases e with
  | create => cases he
  | setMaster c newMaster => cases he
  | death m => cases he
  | delete c => cases he
  | addCreatureCheck c i => cases he
  | checkCreatures => cases he
  | checkNext => cases he
  | hold c => exact alike_increment.trans (alike_modify (by intro x; exact ⟨rfl, rfl, rfl⟩))
  | drop c =>
    simp only [Game.apply, Game.giveBack]
    split
    · exact .refl
    · exact alike_decrement.trans (alike_modify (by intro x; exact ⟨rfl, rfl, rfl⟩))
  | postAdded c =>
    simp only [Game.apply, Game.handOver]
    split
    · exact .refl
    · have hrelease : ∀ g : Game, (g.releaseCreature c).Alike g := fun _ => ⟨rfl, rfl, rfl⟩
      exact (hrelease _).trans (alike_modify (by intro x; exact ⟨rfl, rfl, rfl⟩))
  | setHealth c health =>
    simp only [Game.apply]
    exact alike_modify fun _ => ⟨rfl, rfl, rfl⟩
  | internalPlaceCreature c =>
    simp only [Game.apply, Game.internalPlaceCreature]
    split
    · exact .refl
    · exact alike_increment.trans (alike_modify (by intro x; exact ⟨rfl, rfl, rfl⟩))
  | removeCreature c =>
    simp only [Game.apply, Game.removeCreature]
    split
    · exact .refl
    · have hrelease : ∀ g : Game, (g.releaseCreature c).Alike g := fun _ => ⟨rfl, rfl, rfl⟩
      refine alike_removeCreatureCheck.trans ((hrelease _).trans (alike_modify ?_))
      exact fun _ => ⟨rfl, rfl, rfl⟩
  | removeCreatureCheck c => exact alike_removeCreatureCheck
  | cleanup => exact alike_cleanup
  | addFriend m c =>
    simp only [Game.apply, Game.addFriend]
    split
    · exact .refl
    · exact alike_increment.trans (alike_modify (by intro x; exact ⟨rfl, rfl, rfl⟩))
  | removeFriend m c =>
    simp only [Game.apply, Game.removeFriend]
    split
    · exact alike_decrement.trans (alike_modify (by intro x; exact ⟨rfl, rfl, rfl⟩))
    · exact .refl
  | clearFriendList m => exact alike_clearFriendList
  | addTarget m c pushFront =>
    simp only [Game.apply, Game.addTarget]
    split
    · exact .refl
    · exact (alike_modify (by intro x; exact ⟨rfl, rfl, rfl⟩)).trans alike_increment
  | removeTarget m c =>
    simp only [Game.apply, Game.removeTarget]
    split
    · exact alike_decrement.trans (alike_modify (by intro x; exact ⟨rfl, rfl, rfl⟩))
    · exact .refl
  | clearTargetList m => exact alike_clearTargetList
  | updateTargetList m gone =>
    refine ((alike_decrementAll _).trans (alike_decrementAll _)).trans (alike_modify ?_)
    exact fun _ => ⟨rfl, rfl, rfl⟩
  | onFollowCreatureComplete m c hasFollowPath =>
    simp only [Game.apply, Game.onFollowCreatureComplete]
    split
    · exact .refl
    split
    · exact alike_modify fun _ => ⟨rfl, rfl, rfl⟩
    split
    · exact alike_modify fun _ => ⟨rfl, rfl, rfl⟩
    · exact alike_decrement.trans (alike_modify (by intro x; exact ⟨rfl, rfl, rfl⟩))

end Frame

section Bonds
variable {g g' : Game} {c m : ℕ}

/-! ## Setting a master -/

theorem summons_leaveMaster {oldMaster : Option ℕ} (k : ℕ) : ((g.leaveMaster c oldMaster).creatures k).summons =
      if oldMaster = some k then (g.creatures k).summons.erase c else (g.creatures k).summons := by
  unfold Game.leaveMaster
  split
  · rfl
  · rename_i m
    have hdec : ∀ g : Game, ((g.decrementReferenceCounter c).creatures k).summons =
        (g.creatures k).summons := fun g => modify_field Creature.summons (by intro x; rfl) k
    split
    · rw [hdec]
      by_cases hk : k = m
      · rw [hk, modify_self, if_pos rfl]
      · rw [modify_of_ne hk, if_neg (by simpa using Ne.symm hk)]
    · rename_i hno
      split
      · rename_i heq
        cases heq
        rw [List.erase_of_not_mem hno]
      · rfl

theorem master_leaveMaster {oldMaster : Option ℕ} (k : ℕ) :
    ((g.leaveMaster c oldMaster).creatures k).master = (g.creatures k).master := by
  unfold Game.leaveMaster
  split
  · rfl
  split
  · exact (modify_field Creature.master (by intro x; rfl) k).trans
      (modify_field Creature.master (by intro x; rfl) k)
  · rfl

theorem summons_joinMaster (k : ℕ) : ((g.joinMaster c m).creatures k).summons =
    if m = k then (g.creatures k).summons ++ [c] else (g.creatures k).summons := by
  have hinc : ∀ k, ((g.incrementReferenceCounter c).creatures k).summons = (g.creatures k).summons :=
    fun k => modify_field Creature.summons (by intro x; rfl) k
  unfold Game.joinMaster
  by_cases hk : k = m
  · rw [hk, modify_self, if_pos rfl]
    dsimp only
    rw [hinc]
  · rw [modify_of_ne hk, hinc, if_neg (Ne.symm hk)]

theorem master_joinMaster (k : ℕ) : ((g.joinMaster c m).creatures k).master = (g.creatures k).master :=
  (modify_field Creature.master (by intro x; rfl) k).trans
    (modify_field Creature.master (by intro x; rfl) k)

theorem Game.Linked.setMaster {newMaster : Option ℕ} (h : g.Linked) : (g.setMaster c newMaster).Linked := by
  intro k a
  have hmaster : ((g.setMaster c newMaster).creatures a).master =
      if a = c then newMaster else (g.creatures a).master := by
    unfold Game.setMaster
    dsimp only
    rw [master_leaveMaster]
    by_cases ha : a = c
    · rw [ha, modify_self, if_pos rfl]
    · rw [modify_of_ne ha, if_neg ha]
      split
      · rfl
      · exact master_joinMaster a
  have hsummons : ((g.setMaster c newMaster).creatures k).summons =
      let l := if newMaster = some k then (g.creatures k).summons ++ [c] else (g.creatures k).summons
      if (g.creatures c).master = some k then l.erase c else l := by
    unfold Game.setMaster
    dsimp only
    rw [summons_leaveMaster]
    have hflag : ∀ g : Game, ((g.modify c fun x => { x with master := newMaster }).creatures k).summons =
        (g.creatures k).summons := fun g => modify_field Creature.summons (by intro x; rfl) k
    rw [hflag]
    cases newMaster with
    | none => rfl
    | some m => simp only [summons_joinMaster, Option.some.injEq]
  rw [hmaster, hsummons]
  have hold := h k a
  have holdc := h k c
  dsimp only
  by_cases ha : a = c
  · subst ha
    rw [if_pos rfl]
    split <;> split <;> simp_all
  · rw [if_neg ha, ← hold]
    have hne : (c == a) = false := by simpa using Ne.symm ha
    split <;> split <;> simp [List.count_erase, List.count_append, List.count_singleton, hne]

/-! ## Dying -/

/-- What `removeMaster` does to a creature that has a master. -/
def Creature.orphan (x : Creature) : Creature :=
  { x with master := none, referenceCounter := x.referenceCounter - 1 }

theorem removeMaster_eq (hmaster : (g.creatures c).master ≠ none) : g.removeMaster c = g.modify c Creature.orphan := by
  rw [Game.removeMaster, if_neg hmaster]
  simp [Game.decrementReferenceCounter, Game.modify, Creature.orphan]

theorem foldl_removeMaster {l : List ℕ} (hnodup : l.Nodup) (hmaster : ∀ c ∈ l, (g.creatures c).master ≠ none) :
    l.foldl Game.removeMaster g =
      { g with creatures := fun k => if k ∈ l then (g.creatures k).orphan else g.creatures k } := by
  induction l generalizing g with
  | nil => simp
  | cons c l ih =>
    obtain ⟨hc, hl⟩ := List.nodup_cons.mp hnodup
    have hothers : ∀ k ∈ l, (g.modify c Creature.orphan).creatures k = g.creatures k := fun k hk =>
      modify_of_ne (by rintro rfl; exact hc hk)
    rw [List.foldl_cons, removeMaster_eq (hmaster c List.mem_cons_self), ih hl fun k hk => by
      rw [hothers k hk]
      exact hmaster k (List.mem_cons_of_mem c hk)]
    refine congrArg (fun creatures => ({ g with creatures } : Game)) (funext fun k => ?_)
    by_cases hk : k = c
    · subst hk
      rw [if_neg hc, if_pos List.mem_cons_self, modify_self]
    · rw [modify_of_ne hk]
      simp only [List.mem_cons, hk, false_or]

/-- The references of the orphans are not counted any more, while the list is still there. -/
theorem Game.Books.orphans {l : List ℕ} (h : g.Books [] []) (hnodup : l.Nodup)
    (hcounted : ∀ c ∈ l, (g.creatures c).referenceCounter ≠ 0) :
    ({ g with creatures := fun k => if k ∈ l then (g.creatures k).orphan else g.creatures k } : Game).Books l [] where
  counted c := by
    have hold := h.counted c
    have hrefs : ({ g with creatures := fun k =>
        if k ∈ l then (g.creatures k).orphan else g.creatures k } : Game).references c =
        g.references c := by
      unfold Game.references
      refine congrArg₂ _ rfl (Finset.sum_congr rfl fun k _ => ?_)
      dsimp only
      split <;> rfl
    rw [hrefs, ← hold]
    dsimp only
    split
    · rename_i hc
      have := hcounted c hc
      rw [List.count_eq_one_of_mem hnodup hc, Creature.orphan, List.count_nil]
      dsimp only
      omega
    · rename_i hc
      rw [List.count_eq_zero_of_not_mem hc, List.count_nil]
  dead c hc := by
    dsimp only at hc ⊢
    split at hc
    · rename_i hmem
      rw [Creature.orphan] at hc
      have := hcounted c hmem
      rw [h.dead c hc] at this
      exact absurd rfl this
    · rename_i hmem
      rw [if_neg hmem]
      exact h.dead c hc
  fresh c hc := by
    have hdead := h.fresh c hc
    dsimp only
    split
    · exact hdead
    · exact hdead
  loose c hc := by
    dsimp only at hc ⊢
    split at hc
    · rename_i hmem
      exact absurd (h.loose c hc) (hcounted c hmem)
    · rename_i hmem
      rw [if_neg hmem]
      exact h.loose c hc

theorem Game.Linked.nodup (h : g.Linked) (m : ℕ) : (g.creatures m).summons.Nodup := by
  refine List.nodup_iff_count_le_one.mpr fun c => ?_
  rw [h m c]
  split <;> omega

theorem Game.Linked.master (h : g.Linked) (hc : c ∈ (g.creatures m).summons) : (g.creatures c).master = some m := by
  have hpos := List.count_pos_iff.mpr hc
  rw [h m c] at hpos
  by_contra hne
  rw [if_neg hne] at hpos
  cases hpos

theorem Game.Books.names_le (h : g.Books [] []) (hm : (g.creatures m).alive = true) :
    (g.creatures m).share m c ≤ (g.creatures c).referenceCounter := by
  have hcount := h.counted c
  have hle : (g.creatures m).share m c ≤ ∑ k ∈ Finset.range g.created, (g.creatures k).share k c :=
    Finset.single_le_sum (f := fun k => (g.creatures k).share k c) (fun _ _ => Nat.zero_le _)
      (Finset.mem_range.mpr (h.lt_created hm))
  rw [Game.references] at hcount
  simp only [List.count_nil] at hcount
  omega

/-- The game without the summons of a creature, before its other lists are cleared. -/
def Game.disband (g : Game) (m : ℕ) : Game :=
  ((g.creatures m).summons.foldl Game.removeMaster g).modify m fun x => { x with summons := [] }

theorem disband_creatures (h : g.Linked) (k : ℕ) : (g.disband m).creatures k =
    let x := if k ∈ (g.creatures m).summons then (g.creatures k).orphan else g.creatures k
    if k = m then { x with summons := [] } else x := by
  have hfold := foldl_removeMaster (h.nodup m) fun c hc => by rw [h.master hc]; exact nofun
  unfold Game.disband
  rw [hfold]
  by_cases hk : k = m
  · rw [hk, modify_self, if_pos rfl]
  · rw [modify_of_ne hk, if_neg hk]

theorem Game.Books.disband (h : g.Books [] []) (hlinked : g.Linked)
    (hm : (g.creatures m).alive = true) : (g.disband m).Books [] [] := by
  have hfold := foldl_removeMaster (hlinked.nodup m) fun c hc => by rw [hlinked.master hc]; exact nofun
  have horphans := h.orphans (hlinked.nodup m) fun c hc => by
    have hle := h.names_le (c := c) hm
    have hpos := List.count_pos_iff.mpr hc
    simp only [Creature.share, Creature.names] at hle
    omega
  unfold Game.disband
  rw [← hfold] at horphans
  have hsame : ∀ x : Creature, x.orphan.alive = x.alive ∧ x.orphan.summons = x.summons :=
    fun _ => ⟨rfl, rfl⟩
  have halive : (((g.creatures m).summons.foldl Game.removeMaster g).creatures m).alive = true := by
    rw [hfold]
    dsimp only
    split <;> exact hm
  have hsummons : (((g.creatures m).summons.foldl Game.removeMaster g).creatures m).summons =
      (g.creatures m).summons := by
    rw [hfold]
    dsimp only
    split <;> rfl
  refine horphans.modify halive halive rfl rfl fun k => ?_
  simp only [Creature.share, Creature.names, hsummons, List.count_nil]
  omega

theorem death_eq : g.death m = ((g.disband m).clearTargetList m).clearFriendList m := rfl

theorem disband_alive (h : g.Linked) (k : ℕ) : ((g.disband m).creatures k).alive = (g.creatures k).alive := by
  rw [disband_creatures h]
  dsimp only
  split <;> split <;> rfl

theorem alive_decrementAll (l : List ℕ) (k : ℕ) : ((g.decrementAll l).creatures k).alive = (g.creatures k).alive := by
  induction l generalizing g with
  | nil => rfl
  | cons c l ih =>
    exact (ih (g := g.decrementReferenceCounter c)).trans (modify_field Creature.alive (by intro x; rfl) k)

theorem clearTargetList_alive (k : ℕ) : ((g.clearTargetList m).creatures k).alive = (g.creatures k).alive :=
  (alive_decrementAll _ k).trans (modify_field Creature.alive (by intro x; rfl) k)

theorem Game.Books.death (h : g.Books [] []) (hlinked : g.Linked)
    (hm : (g.creatures m).alive = true) : (g.death m).Books [] [] := by
  rw [death_eq]
  have hdisband := (disband_alive (m := m) hlinked m).trans hm
  exact ((h.disband hlinked hm).clearTargetList hdisband).clearFriendList ((clearTargetList_alive m).trans hdisband)

theorem Game.Linked.disband (h : g.Linked) : (g.disband m).Linked := by
  have hmaster : ∀ a, ((g.disband m).creatures a).master =
      if a ∈ (g.creatures m).summons then none else (g.creatures a).master := by
    intro a
    rw [disband_creatures h]
    dsimp only
    split <;> split <;> rfl
  have hsummons : ∀ k, ((g.disband m).creatures k).summons =
      if k = m then [] else (g.creatures k).summons := by
    intro k
    rw [disband_creatures h]
    dsimp only
    split
    · rfl
    · split <;> rfl
  intro k a
  rw [hmaster, hsummons]
  have hold := h k a
  by_cases ha : a ∈ (g.creatures m).summons
  · have hmaster := h.master ha
    rw [if_pos ha, if_neg (show ¬(none : Option ℕ) = some k from nofun)]
    split
    · rfl
    · rename_i hk
      rw [hold, hmaster, if_neg (by simpa using Ne.symm hk)]
  · rw [if_neg ha]
    split
    · rename_i hk
      subst hk
      rw [← hold, List.count_eq_zero_of_not_mem ha]
      rfl
    · exact hold

theorem Game.Linked.death (h : g.Linked) : (g.death m).Linked := by
  rw [death_eq]
  exact (h.disband (m := m)).of_bonds (alike_clearFriendList.trans alike_clearTargetList).bonds

/-! ## Being deleted -/

theorem decrementAll_of_not_mem {l : List ℕ} {k : ℕ} (hk : k ∉ l) :
    (g.decrementAll l).creatures k = g.creatures k := by
  induction l generalizing g with
  | nil => rfl
  | cons c l ih =>
    have hne : k ≠ c := by
      rintro rfl
      exact hk List.mem_cons_self
    have hrest : k ∉ l := fun hmem => hk (List.mem_cons_of_mem c hmem)
    exact (ih (g := g.decrementReferenceCounter c) hrest).trans (modify_of_ne hne)

theorem Game.Books.unnamed (h : g.Books [] []) (hm : (g.creatures m).alive = true)
    (hzero : (g.creatures c).referenceCounter = 0) :
    c ∉ (g.creatures m).summons ∧ c ∉ (g.creatures m).targetList ∧ c ∉ (g.creatures m).friendList := by
  have hle := h.names_le (c := c) hm
  rw [hzero, Creature.share, Creature.names] at hle
  have hnone := Nat.le_zero.mp hle
  refine ⟨?_, ?_, ?_⟩ <;>
  · intro hmem
    have := List.count_pos_iff.mpr hmem
    omega

theorem death_self (h : g.Books [] []) (hlinked : g.Linked) (hm : (g.creatures m).alive = true)
    (hzero : (g.creatures m).referenceCounter = 0) :
    (g.death m).creatures m = { g.creatures m with summons := [], targetList := [], friendList := [] } := by
  obtain ⟨hsummons, htargets, hfriends⟩ := h.unnamed hm hzero
  have hdisband : (g.disband m).creatures m = { g.creatures m with summons := [] } := by
    rw [disband_creatures hlinked]
    dsimp only
    rw [if_neg hsummons, if_pos rfl]
  have hclear : ((g.disband m).clearTargetList m).creatures m =
      { g.creatures m with summons := [], targetList := [] } := by
    rw [Game.clearTargetList, decrementAll_of_not_mem, modify_self, hdisband]
    rw [hdisband]
    exact htargets
  rw [death_eq, Game.clearFriendList, decrementAll_of_not_mem, modify_self, hclear]
  rw [hclear]
  exact hfriends

theorem Game.Books.destroy (h : g.Books [] []) (hlinked : g.Linked) (hm : (g.creatures m).alive = true)
    (hzero : (g.creatures m).referenceCounter = 0) : (g.destroy m).Books [] [] := by
  have hdeath := h.death hlinked hm
  have hself := death_self h hlinked hm hzero
  have hshare := h.names_le (c := m) hm
  rw [hzero, Creature.share, if_pos rfl] at hshare
  have hnothing : ∀ c, ((g.death m).creatures m).share m c = 0 := by
    intro c
    rw [hself]
    simp only [Creature.share, Creature.names, List.count_nil]
    split <;> omega
  have halive : ((g.death m).creatures m).alive = true := by rw [hself]; exact hm
  have hlt := hdeath.lt_created halive
  have hempty : ∀ c, ({} : Creature).share m c = 0 := by
    intro c
    simp [Creature.share, Creature.names]
  unfold Game.destroy
  refine ⟨fun c => ?_, fun c hc => ?_, fun c hc => ?_, fun c hc => ?_⟩
  · have hnew := @references_modify (g.death m) c m (fun _ => {}) hlt
    have hold := hdeath.counted c
    rw [hnothing, hempty] at hnew
    by_cases hcm : c = m
    · subst hcm
      rw [hself] at hold
      rw [modify_self]
      dsimp only at hold ⊢
      omega
    · rw [modify_of_ne hcm]
      omega
  · by_cases hcm : c = m
    · rw [hcm, modify_self]
    · rw [modify_of_ne hcm] at hc ⊢
      exact hdeath.dead c hc
  · by_cases hcm : c = m
    · rw [hcm, modify_self]
    · rw [modify_of_ne hcm]
      exact hdeath.fresh c hc
  · by_cases hcm : c = m
    · rw [hcm, modify_self]
    · rw [modify_of_ne hcm] at hc ⊢
      exact hdeath.loose c hc

theorem Game.Linked.destroy (h : g.Linked) (hbooks : g.Books [] []) (hm : (g.creatures m).alive = true)
    (hzero : (g.creatures m).referenceCounter = 0) : (g.destroy m).Linked := by
  have hself := death_self hbooks h hm hzero
  have hmaster : (g.creatures m).master = none := by
    by_contra hne
    obtain ⟨k, hk⟩ := Option.ne_none_iff_exists'.mp hne
    have hcount := h k m
    rw [if_pos hk] at hcount
    have hmem : m ∈ (g.creatures k).summons := List.count_pos_iff.mp (by omega)
    have halive := hbooks.alive_of_summons (List.ne_nil_of_mem hmem)
    exact (hbooks.unnamed halive hzero).1 hmem
  refine (h.death (m := m)).of_bonds (funext fun k => ?_)
  unfold Game.bonds Game.destroy
  by_cases hk : k = m
  · rw [hk, modify_self, hself, hmaster]
  · rw [modify_of_ne hk]

end Bonds

/-! ## The lists of `checkCreatures` -/

section Checks
variable {g : Game} {c m : ℕ}

theorem checks_leaveMaster {oldMaster : Option ℕ} : (g.leaveMaster c oldMaster).checks = g.checks := by
  unfold Game.leaveMaster
  split
  · rfl
  split
  · exact (checks_modify (by intro x; rfl)).trans (checks_modify (by intro x; rfl))
  · rfl

theorem checks_setMaster {newMaster : Option ℕ} : (g.setMaster c newMaster).checks = g.checks := by
  unfold Game.setMaster
  dsimp only
  rw [checks_leaveMaster]
  refine (checks_modify (by intro x; rfl)).trans ?_
  split
  · rfl
  · exact (checks_modify (by intro x; rfl)).trans (checks_modify (by intro x; rfl))

theorem checks_foldl_removeMaster (l : List ℕ) : (l.foldl Game.removeMaster g).checks = g.checks := by
  induction l generalizing g with
  | nil => rfl
  | cons c l ih =>
    refine (ih (g := g.removeMaster c)).trans ?_
    unfold Game.removeMaster
    split
    · rfl
    · exact (checks_modify (by intro x; rfl)).trans (checks_modify (by intro x; rfl))

theorem checks_death : (g.death m).checks = g.checks := by
  rw [death_eq]
  refine (alike_clearFriendList.trans alike_clearTargetList).checks.trans ?_
  exact (checks_modify (by intro x; rfl)).trans (checks_foldl_removeMaster _)

theorem Game.Checked.setCheckList {i : Fin eventCreatureCount} {l : List ℕ}
    {f : Creature → Creature} (h : g.Checked) (mark : Bool)
    (hf : ∀ x, (f x).inCheckCreaturesVector = mark)
    (hself : l.count c + (if (g.creatures c).inCheckCreaturesVector then 1 else 0) =
      (g.checkCreatureLists i).count c + if mark then 1 else 0)
    (hothers : ∀ k, k ≠ c → l.count k = (g.checkCreatureLists i).count k) :
    ((g.modify c f).setCheckList i l).Checked := by
  intro k
  have hsum := Table.sum_function_update g.checkCreatureLists i l (List.count k)
  have hold := h k
  unfold Game.setCheckList
  dsimp only
  by_cases hk : k = c
  · subst hk
    rw [modify_self, hf]
    exact Nat.add_right_cancel (hsum.trans (by omega))
  · rw [modify_of_ne hk, ← hold]
    rw [hothers k hk] at hsum
    exact Nat.add_right_cancel hsum

theorem Game.Checked.not_mem {i : Fin eventCreatureCount} (h : g.Checked)
    (hmark : (g.creatures c).inCheckCreaturesVector = false) : c ∉ g.checkCreatureLists i := by
  intro hmem
  have hsum := h c
  rw [hmark, if_neg nofun] at hsum
  have hle : (g.checkCreatureLists i).count c ≤ ∑ i, (g.checkCreatureLists i).count c :=
    Finset.single_le_sum (f := fun i => (g.checkCreatureLists i).count c) (fun _ _ => Nat.zero_le _)
      (Finset.mem_univ i)
  have hpos := List.count_pos_iff.mpr hmem
  omega

theorem Game.Checked.mark {i : Fin eventCreatureCount} (h : g.Checked)
    (hc : c ∈ g.checkCreatureLists i) : (g.creatures c).inCheckCreaturesVector = true := by
  by_contra hno
  exact h.not_mem (Bool.eq_false_iff.mpr hno) hc

theorem Game.Checked.addCreatureCheck {i : Fin eventCreatureCount} (h : g.Checked) :
    (g.addCreatureCheck c i).Checked := by
  have hflag : (g.modify c fun x => { x with creatureCheck := true }).Checked :=
    h.of_checks (checks_modify fun _ => rfl)
  unfold Game.addCreatureCheck
  dsimp only
  split
  · exact hflag
  · rename_i hmark
    refine Game.Checked.of_checks ?_ alike_increment.checks
    refine hflag.setCheckList true (fun _ => rfl) ?_ fun k hk => ?_
    · rw [if_neg hmark]
      simp [Game.modify]
    · have hne : (c == k) = false := by simpa using Ne.symm hk
      simp [Game.modify, List.count_singleton, hne]

theorem bonds_addCreatureCheck {i : Fin eventCreatureCount} : (g.addCreatureCheck c i).bonds = g.bonds := by
  have hset : ∀ (g : Game) (l : List ℕ), (g.setCheckList i l).bonds = g.bonds := fun _ _ => rfl
  unfold Game.addCreatureCheck
  dsimp only
  split
  · exact bonds_modify fun _ => ⟨rfl, rfl⟩
  · rw [alike_increment.bonds, hset]
    refine (bonds_modify ?_).trans (bonds_modify ?_) <;> exact fun _ => ⟨rfl, rfl⟩

theorem bonds_checkNext {i : Fin eventCreatureCount} {k : ℕ} : (g.checkNext i k).bonds = g.bonds := by
  have hrelease : ∀ (g : Game) (c : ℕ) (l : List ℕ),
      ((g.setCheckList i l).releaseCreature c).bonds = g.bonds := fun _ _ _ => rfl
  unfold Game.checkNext
  split
  · rw [alike_cleanup.bonds]
    rfl
  split
  · rfl
  · dsimp only
    rw [hrelease]
    exact bonds_modify fun _ => ⟨rfl, rfl⟩

theorem Game.Checked.checkNext {i : Fin eventCreatureCount} {k : ℕ} (h : g.Checked) : (g.checkNext i k).Checked := by
  unfold Game.checkNext
  split
  · exact Game.Checked.of_checks (g := { g with cursor := none }) h alike_cleanup.checks
  rename_i c hget
  split
  · exact h
  · obtain ⟨hlt, hmem⟩ := List.getElem?_eq_some_iff.mp hget
    have hmark := h.mark (List.mem_of_getElem? hget)
    have hcount := fun a => (List.getElem_cons_eraseIdx_perm hlt).count_eq a
    refine Game.Checked.of_checks (g := (g.modify c fun x =>
      { x with inCheckCreaturesVector := false }).setCheckList i _) ?_ rfl
    refine h.setCheckList false (fun _ => rfl) ?_ fun a ha => ?_
    · have := hcount c
      rw [hmem, List.count_cons_self] at this
      rw [if_pos hmark, if_neg nofun]
      exact this
    · have := hcount a
      rw [hmem, List.count_cons_of_ne (Ne.symm ha)] at this
      exact this

end Checks

/-! ## Runs -/

/-- The counters are exact, masters and summons agree, and so do the lists of
`checkCreatures` and the marks. -/
structure Game.Inv (g : Game) : Prop where
  books : g.Books [] []
  linked : g.Linked
  checked : g.Checked

section Run
variable {g : Game} {c m : ℕ}

theorem start_inv : ({} : Game).Inv where
  books := {
    counted := fun c => by simp [Game.references, Game.listed]
    dead := fun _ _ => rfl
    fresh := fun _ _ => rfl
    loose := nofun }
  linked _ _ := by simp
  checked _ := by simp

theorem Game.Inv.create (h : g.Inv) : g.create.Inv := by
  have hdead := h.books.dead _ (h.books.fresh g.created le_rfl)
  have hsame : ∀ {β : Type} (field : Creature → β), field { alive := true, loose := true } = field {} →
      ∀ k, field (g.create.creatures k) = field (g.creatures k) := by
    intro β field hfield k
    unfold Game.create
    dsimp only
    by_cases hk : k = g.created
    · rw [hk, modify_self, hdead, hfield]
    · rw [modify_of_ne hk]
  exact {
    books := h.books.create
    linked := h.linked.of_bonds (funext fun k =>
      Prod.ext (hsame Creature.summons rfl k) (hsame Creature.master rfl k))
    checked := h.checked.of_checks (Prod.ext rfl (funext (hsame Creature.inCheckCreaturesVector rfl))) }

theorem Game.Inv.delete (h : g.Inv) (hm : (g.creatures m).alive = true)
    (hzero : (g.creatures m).referenceCounter = 0) : (g.destroy m).Inv where
  books := h.books.destroy h.linked hm hzero
  linked := h.linked.destroy h.books hm hzero
  checked := by
    have hnone : ∑ i, (g.checkCreatureLists i).count m = 0 := by
      have hcount := h.books.counted m
      rw [hzero, Game.references, Game.listed] at hcount
      simp only [List.count_nil] at hcount
      omega
    have hmark : (g.creatures m).inCheckCreaturesVector = false := by
      by_contra hno
      have hsum := h.checked m
      rw [hnone, if_pos (by simpa using hno)] at hsum
      cases hsum
    refine (h.checked.of_checks (checks_death (m := m))).of_checks (Prod.ext rfl (funext fun k => ?_))
    unfold Game.checks Game.destroy
    dsimp only
    by_cases hk : k = m
    · rw [hk, modify_self, death_self h.books h.linked hm hzero, hmark]
    · rw [modify_of_ne hk]

theorem Game.Inv.listed_alive (h : g.Inv) {i : Fin eventCreatureCount}
    (hc : c ∈ g.checkCreatureLists i) : (g.creatures c).alive = true := by
  refine h.books.alive (.inl ?_)
  have hmark := h.checked.mark hc
  have hsum := h.checked c
  rw [if_pos hmark] at hsum
  rw [Game.references, Game.listed, hsum]
  omega

theorem Game.Inv.step {e : Event} (h : g.Inv) : (g.step e).Inv := by
  unfold Game.step
  split
  swap
  · exact h
  rename_i hknown
  have halive : ∀ c ∈ e.names, (g.creatures c).alive = true := fun c hc => h.books.alive (hknown c hc)
  have keep : e.binds = false → (g.apply e).Books [] [] → (g.apply e).Inv := fun he hbooks =>
    ⟨hbooks, h.linked.of_bonds (alike_apply he).bonds, h.checked.of_checks (alike_apply he).checks⟩
  cases e with
  | create => exact h.create
  | hold c => exact keep rfl (h.books.take (halive c (by simp [Event.names])))
  | drop c => exact keep rfl (h.books.giveBack (halive c (by simp [Event.names])))
  | postAdded c => exact keep rfl (h.books.handOver (halive c (by simp [Event.names])))
  | setHealth c health =>
    refine keep rfl ?_
    simp only [Game.apply]
    exact h.books.flag (halive c (by simp [Event.names])) rfl
  | internalPlaceCreature c =>
    exact keep rfl (h.books.internalPlaceCreature (halive c (by simp [Event.names])))
  | removeCreature c => exact keep rfl (h.books.removeCreature (halive c (by simp [Event.names])))
  | addCreatureCheck c i =>
    exact ⟨h.books.addCreatureCheck (halive c (by simp [Event.names])),
      h.linked.of_bonds bonds_addCreatureCheck, h.checked.addCreatureCheck⟩
  | removeCreatureCheck c =>
    exact keep rfl (h.books.removeCreatureCheck (halive c (by simp [Event.names])))
  | checkCreatures =>
    simp only [Game.apply]
    split
    · exact ⟨h.books.relist rfl rfl fun _ => rfl, h.linked, h.checked⟩
    · exact h
  | checkNext =>
    simp only [Game.apply]
    split
    · exact h
    · exact ⟨h.books.checkNext fun _ hc => h.listed_alive hc, h.linked.of_bonds bonds_checkNext, h.checked.checkNext⟩
  | cleanup => exact keep rfl h.books.cleanup
  | addFriend m c =>
    exact keep rfl (h.books.addFriend (halive m (by simp [Event.names])) (halive c (by simp [Event.names])))
  | removeFriend m c => exact keep rfl (h.books.removeFriend (halive m (by simp [Event.names])))
  | clearFriendList m => exact keep rfl (h.books.clearFriendList (halive m (by simp [Event.names])))
  | addTarget m c pushFront =>
    exact keep rfl (h.books.addTarget (halive m (by simp [Event.names])) (halive c (by simp [Event.names])))
  | removeTarget m c => exact keep rfl (h.books.removeTarget (halive m (by simp [Event.names])))
  | clearTargetList m => exact keep rfl (h.books.clearTargetList (halive m (by simp [Event.names])))
  | updateTargetList m gone =>
    exact keep rfl (h.books.updateTargetList (halive m (by simp [Event.names])))
  | onFollowCreatureComplete m c hasFollowPath =>
    exact keep rfl (h.books.onFollowCreatureComplete (halive m (by simp [Event.names])))
  | setMaster c newMaster =>
    refine ⟨h.books.setMaster (halive c (by simp [Event.names])) fun m hm => ?_,
      h.linked.setMaster, h.checked.of_checks checks_setMaster⟩
    exact halive m (by simp [Event.names, hm])
  | death m =>
    exact ⟨h.books.death h.linked (halive m (by simp [Event.names])), h.linked.death,
      h.checked.of_checks checks_death⟩
  | delete c =>
    simp only [Game.apply]
    split
    · rename_i hcan
      simp only [Bool.and_eq_true, decide_eq_true_eq] at hcan
      exact h.delete hcan.1 hcan.2
    · exact h

theorem run_inv (es : List Event) : (run Game.step {} es).Inv := by
  have hall : Along Game.step (fun _ _ => True) {} es := Along.of_forall fun _ _ => trivial
  exact inv_run (fun _ _ h _ => h.step) start_inv hall

/-- In every run, whatever creatures are made, placed, checked, targeted, befriended, summoned,
removed and deleted, and in whatever order: the counter of a creature is the number of places that
name it; so whoever stands on the map, is in one of the ten lists, is to be released, is a target,
a friend or a summon, or has a master, has not been deleted, nor has its master; the lists of
summons and the masters agree; and a creature is in the ten lists once if it is marked, and
otherwise not. -/
theorem nothing_named_is_deleted (es : List Event) :
    let g := run Game.step {} es
    (∀ c, (g.creatures c).referenceCounter = g.references c) ∧ (∀ c, g.Known c → (g.creatures c).alive = true) ∧
      (∀ c m, (g.creatures c).master = some m → (g.creatures c).alive = true ∧ (g.creatures m).alive = true) ∧
      (∀ m c, (g.creatures m).summons.count c = if (g.creatures c).master = some m then 1 else 0) ∧
      ∀ c, ∑ i, (g.checkCreatureLists i).count c =
        if (g.creatures c).inCheckCreaturesVector then 1 else 0 := by
  intro g
  have h : g.Inv := run_inv es
  refine ⟨fun c => ?_, fun c hc => h.books.alive hc, fun c m hmaster => ?_, h.linked, h.checked⟩
  · have := h.books.counted c
    simpa only [List.count_nil, Nat.add_zero] using this
  · have hmem : c ∈ (g.creatures m).summons := by
      refine List.count_pos_iff.mp ?_
      rw [h.linked m c, if_pos hmaster]
      exact Nat.one_pos
    refine ⟨?_, h.books.alive_of_summons (List.ne_nil_of_mem hmem)⟩
    by_contra hdead
    rw [h.books.dead c (Bool.eq_false_iff.mpr hdead)] at hmaster
    cases hmaster

end Run

end ForgottenServer.Creatures
