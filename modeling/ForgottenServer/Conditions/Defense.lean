import ForgottenServer.Conditions.Undoing

/-! # Attribute conditions and the defence

One flag of the creature says whether it can use its defence. Starting, merging
and ending a condition write it; it is right as long as no step meets another
condition that it forgets. -/
namespace ForgottenServer.Conditions
open ForgottenServer.Lib.Run

variable {p : Creature}

/-- The creature can use its defence unless an active condition disables it. -/
def DefenseRight (p : Creature) : Prop :=
  p.canUseDefense = true ↔ ∀ c ∈ p.conditions, c.disableDefense = false

def disables (l : List ConditionAttributes) : Bool := l.any fun c => c.disableDefense

theorem disables_eq_false {l : List ConditionAttributes} : disables l = false ↔ ∀ c ∈ l, c.disableDefense = false := by
  unfold disables
  simp only [List.any_eq_false, Bool.not_eq_true]

theorem disables_append (l l' : List ConditionAttributes) : disables (l ++ l') = (disables l || disables l') :=
  List.any_append

theorem disables_cons (c : ConditionAttributes) (l : List ConditionAttributes) :
    disables (c :: l) = (c.disableDefense || disables l) := List.any_cons

theorem defenseRight_iff : DefenseRight p ↔ p.canUseDefense = !disables p.conditions := by
  unfold DefenseRight
  rw [← disables_eq_false]
  cases p.canUseDefense <;> cases disables p.conditions <;> decide

theorem disables_filter (l : List ConditionAttributes) (ends : ConditionAttributes → Bool) :
    (disables (l.filter fun c => !ends c) || disables (l.filter ends)) = disables l := by
  induction l with
  | nil => rfl
  | cons c l ih =>
    rw [disables_cons, ← ih]
    cases h : ends c with
    | false =>
      rw [List.filter_cons_of_pos (by simp [h]), List.filter_cons_of_neg (by simp [h]),
        disables_cons, Bool.or_assoc]
    | true =>
      rw [List.filter_cons_of_neg (by simp [h]), List.filter_cons_of_pos h, disables_cons,
        Bool.or_left_comm]

/-- Of the conditions that `ends` chooses one disables the defence only if none of the others does.
-/
def endsWell (l : List ConditionAttributes) (ends : ConditionAttributes → Bool) : Bool :=
  !disables (l.filter ends) || !disables (l.filter fun c => !ends c)

/-- A condition is added that disables the defence, or no other does. A merge ends
the old condition, and does not take the defence away for the new one. -/
def addsWell (p : Creature) (add : ConditionAttributes) (now : Int64) : Bool :=
  match Creature.split add p.conditions with
  | some (before, prevCond, after) =>
    if prevCond.updateCondition add.toCondition now then
      if prevCond.disableDefense then !add.disableDefense && !disables (before ++ after)
      else !add.disableDefense || disables (before ++ after)
    else true
  | none => add.disableDefense || !disables p.conditions

def removesWell (p : Creature) (index : ℕ) : Bool :=
  match p.conditions[index]? with
  | some c => !c.disableDefense || !disables (p.conditions.eraseIdx index)
  | none => true

/-- The step takes the defence away or gives it back as it should. -/
def keepsDefense (p : Creature) : Action → Bool
  | .addCondition add now => addsWell p add now
  | .removeId id => endsWell p.conditions fun c => c.id = id
  | .removeCondition index => removesWell p index
  | .executeConditions _ now => endsWell p.conditions fun c => !c.goesOn now
  | .death => endsWell p.conditions fun c => c.isPersistent
  | _ => true

theorem removeConditions_defense (h : DefenseRight p) (ends : ConditionAttributes → Bool) :
    DefenseRight (p.removeConditions ends) ↔ endsWell p.conditions ends = true := by
  have hshift := removeConditions_shifted p ends
  rw [defenseRight_iff] at h ⊢
  rw [hshift.canUseDefense, hshift.conditions]
  dsimp only
  rw [h, ← disables_filter p.conditions ends, endsWell]
  show ((!(_ || _) || disables (p.conditions.filter ends)) = _) ↔ _
  cases disables (p.conditions.filter ends) <;>
    cases disables (p.conditions.filter fun c => !ends c) <;> decide

theorem addCondition_defense (h : DefenseRight p) (add : ConditionAttributes) (now : Int64) :
    DefenseRight (p.addCondition add now) ↔ addsWell p add now = true := by
  rw [defenseRight_iff] at h ⊢
  unfold addsWell
  rcases addCondition_cases p add now with ⟨before, prev, after, hsplit, heq⟩ | ⟨hsplit, heq⟩
  · simp only [heq, hsplit, disables_append, disables_cons]
    rw [split_eq hsplit, disables_append, disables_cons] at h
    rcases merge_cases prev p add now with ⟨hno, hsame⟩ | ⟨hyes, q, hend, happly, hdefense⟩
    · rw [hsame, hno, h]
      simp
    · have hdefend : q.canUseDefense = (p.canUseDefense || prev.disableDefense) :=
        hend.canUseDefense
      rw [happly.canUseDefense, hdefend, hdefense, hyes, h]
      cases prev.disableDefense <;> cases add.disableDefense <;> cases disables before <;>
        cases disables after <;> decide
  · obtain ⟨hstart, hdefense⟩ := startCondition_shifted add p now
    simp only [heq, hsplit, disables_append, disables_cons, hstart.canUseDefense, hstart.conditions, hdefense]
    cases add.disableDefense <;> cases disables p.conditions <;> decide

theorem removeCondition_defense (h : DefenseRight p) (index : ℕ) :
    DefenseRight (p.removeCondition index) ↔ removesWell p index = true := by
  unfold removesWell Creature.removeCondition
  cases hget : p.conditions[index]? with
  | none => simpa using h
  | some c =>
    obtain ⟨before, after, hlist, herase⟩ : ∃ before after, p.conditions = before ++ c :: after ∧
        p.conditions.eraseIdx index = before ++ after := split_at hget
    have hend := endCondition_shifted c { p with conditions := before ++ after }
    have hdefense : (c.endCondition { p with conditions := before ++ after }).canUseDefense =
        (p.canUseDefense || c.disableDefense) := hend.canUseDefense
    rw [defenseRight_iff, hlist, disables_append, disables_cons] at h
    dsimp only
    rw [herase, defenseRight_iff, hdefense, hend.conditions, h]
    simp only [disables_append]
    cases c.disableDefense <;> cases disables before <;> cases disables after <;> decide

theorem goesOn_executeCondition (c : Condition) (interval : Int32) (now : Int64) :
    (c.executeCondition interval).goesOn now = c.goesOn now := by
  by_cases hticks : c.ticks = -1
  · rw [Condition.executeCondition, if_pos hticks]
  · have hlimit := Condition.executeCondition_limited hticks interval
    have hend : (c.executeCondition interval).endTime = c.endTime := by
      rw [Condition.executeCondition, if_neg hticks]
    simp [Condition.goesOn, hticks, hlimit, hend]

theorem disables_modify {f : ConditionAttributes → ConditionAttributes}
    (hf : ∀ c, (f c).disableDefense = c.disableDefense) (l : List ConditionAttributes) (index : ℕ) :
    disables (l.modify index f) = disables l := by
  induction l generalizing index with
  | nil => rw [List.modify_nil]
  | cons c l ih =>
    cases index with
    | zero => rw [List.modify_zero_cons, disables_cons, disables_cons, hf]
    | succ index => rw [List.modify_succ_cons, disables_cons, disables_cons, ih]

theorem disables_map (f : ConditionAttributes → ConditionAttributes)
    (hf : ∀ c, (f c).disableDefense = c.disableDefense) (l : List ConditionAttributes) :
    disables (l.map f) = disables l := by
  unfold disables
  simp only [List.any_map, Function.comp_def, hf]

theorem endsWell_map {f : ConditionAttributes → ConditionAttributes} (ends : ConditionAttributes → Bool)
    (hf : ∀ c, (f c).disableDefense = c.disableDefense) (hends : ∀ c, ends (f c) = ends c)
    (l : List ConditionAttributes) : endsWell (l.map f) ends = endsWell l ends := by
  unfold endsWell disables
  simp only [List.filter_map, List.any_map, Function.comp_def, hf, hends]

theorem step_defense (h : DefenseRight p) (a : Action) : DefenseRight (step p a) ↔ keepsDefense p a = true := by
  cases a with
  | addCondition c now => exact addCondition_defense h c now
  | removeType =>
    refine (removeConditions_defense h _).trans ?_
    simp [endsWell, disables, keepsDefense]
  | removeId id => exact removeConditions_defense h _
  | removeCondition index => exact removeCondition_defense h index
  | setTicks index ticks now =>
    refine iff_of_true ?_ rfl
    rw [defenseRight_iff] at h ⊢
    have hlist := disables_modify (f := fun c => c.setTicks ticks now) (fun _ => rfl) p.conditions index
    exact h.trans (congrArg _ hlist.symm)
  | executeConditions interval now =>
    let f := fun c : ConditionAttributes => c.executeCondition interval.toInt32
    have hexecuted : DefenseRight { p with conditions := p.conditions.map f } := by
      rw [defenseRight_iff] at h ⊢
      exact h.trans (congrArg _ (disables_map f (fun _ => rfl) p.conditions).symm)
    refine (removeConditions_defense hexecuted _).trans ?_
    have hends := endsWell_map (f := f) (fun c => !c.goesOn now) (fun _ => rfl)
      (fun c => congrArg _ (goesOn_executeCondition c.toCondition interval.toInt32 now)) p.conditions
    rw [hends]
    rfl
  | death => exact removeConditions_defense h _
  | equip m =>
    have hshift := equip_shifted p m
    refine iff_of_true ?_ rfl
    rw [defenseRight_iff] at h ⊢
    show (p.equip m).canUseDefense = !disables (p.equip m).conditions
    rw [hshift.canUseDefense, hshift.conditions, h]
  | advance healthMax manaMax magLevel skillLevel => exact iff_of_true h rfl

/-- The defence follows the conditions in every state of a run exactly if every
step of the run keeps it right. -/
theorem defense_follows_conditions {p : Creature} (hp : DefenseRight p) (as : List Action) :
    (∀ pre, pre <+: as → DefenseRight (run step p pre)) ↔ Along step (fun q a => keepsDefense q a = true) p as :=
  @inv_reached_iff _ _ step _ DefenseRight (fun _ a hq => step_defense hq a) _ as hp

/-- One condition that disables the defence, and its end. -/
def challenge : List Action :=
  [.addCondition { disableDefense := true, ticks := 1000 } 0, .executeConditions 1000 2000]

theorem defense_follows_conditions_challenge :
    Along step (fun q a => keepsDefense q a = true) {} challenge ∧ DefenseRight {} ∧
      ∀ pre, pre <+: challenge → DefenseRight (run step {} pre) := by
  have hstart : DefenseRight {} := defenseRight_iff.mpr rfl
  have hsteps : Along step (fun q a => keepsDefense q a = true) {} challenge := by decide +kernel
  exact ⟨hsteps, hstart, (defense_follows_conditions hstart challenge).mpr hsteps⟩

/-- A second condition gives the defence back that the first one has taken away. -/
theorem second_condition_restores_defense : ¬ ∀ (p : Creature) (as : List Action), DefenseRight p →
    DefenseRight (run step p as) := by
  intro h
  have hlast := h {} [.addCondition { disableDefense := true, ticks := 10000 } 0,
    .addCondition { subId := 1, ticks := 10000 } 0] (defenseRight_iff.mpr rfl)
  rw [defenseRight_iff] at hlast
  revert hlast
  decide +kernel

end ForgottenServer.Conditions
