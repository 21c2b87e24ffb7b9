import ForgottenServer.Conditions.Attributes

/-! # Attribute conditions are undone

Every function that touches `varSkills`, `varSpecialSkills` or `varStats` shifts
the entries by a known amount. From this follows that in every run the entries
are what they would be without conditions and what the conditions of the list
add to them. -/
namespace ForgottenServer.Conditions
open ForgottenServer.Lib.Run

/-- The entries of `varSkills`, `varSpecialSkills` and `varStats`. -/
inductive Var
  | skill (i : Skill)
  | specialSkill (i : SpecialSkill)
  | stat (i : Stat)
  deriving DecidableEq, Repr

def Creature.var (p : Creature) : Var → Int32
  | .skill i => p.varSkills i
  | .specialSkill i => p.varSpecialSkills i
  | .stat i => p.varStats i

def ConditionAttributes.delta (c : ConditionAttributes) : Var → Int32
  | .skill i => c.skills i
  | .specialSkill i => c.specialSkills i
  | .stat i => c.stats i

def Modifiers.delta (m : Modifiers) : Var → Int32
  | .skill i => m.skills i
  | .specialSkill i => m.specialSkills i
  | .stat i => m.stats i

/-- The entries change by `d`; the conditions and the defence are the same. -/
structure Shifted (p q : Creature) (d : Var → Int32) : Prop where
  var : ∀ v, q.var v = p.var v + d v
  conditions : q.conditions = p.conditions
  isPlayer : q.isPlayer = p.isPlayer
  canUseDefense : q.canUseDefense = p.canUseDefense

variable {p q r : Creature} {c : ConditionAttributes} {d e : Var → Int32}

theorem Shifted.same (hvar : ∀ v, q.var v = p.var v) (hconditions : q.conditions = p.conditions)
    (hplayer : q.isPlayer = p.isPlayer) (hdefense : q.canUseDefense = p.canUseDefense) : Shifted p q fun _ => 0 :=
  ⟨fun v => by rw [hvar, Int32.add_zero], hconditions, hplayer, hdefense⟩

theorem Shifted.refl (p : Creature) : Shifted p p fun _ => 0 := .same (fun _ => rfl) rfl rfl rfl

theorem Shifted.trans (h : Shifted p q d) (h' : Shifted q r e) : Shifted p r fun v => d v + e v where
  var v := by rw [h'.var, h.var, Int32.add_assoc]
  conditions := h'.conditions.trans h.conditions
  isPlayer := h'.isPlayer.trans h.isPlayer
  canUseDefense := h'.canUseDefense.trans h.canUseDefense

theorem Shifted.congr (h : Shifted p q d) (hd : ∀ v, d v = e v) : Shifted p q e :=
  ⟨fun v => by rw [h.var, hd], h.conditions, h.isPlayer, h.canUseDefense⟩

theorem setVarSkill_shifted (p : Creature) (i : Skill) (n : Int32) :
    Shifted p (p.setVarSkill i n) fun v => if v = .skill i then n else 0 := by
  refine ⟨fun v => ?_, rfl, rfl, rfl⟩
  cases v with
  | skill j =>
    simp only [Creature.var, Creature.setVarSkill, Function.update_apply, Var.skill.injEq]
    split
    · rename_i h
      rw [h]
    · exact (Int32.add_zero _).symm
  | specialSkill j => simp [Creature.var, Creature.setVarSkill]
  | stat j => simp [Creature.var, Creature.setVarSkill]

theorem setVarSpecialSkill_shifted (p : Creature) (i : SpecialSkill) (n : Int32) :
    Shifted p (p.setVarSpecialSkill i n) fun v => if v = .specialSkill i then n else 0 := by
  refine ⟨fun v => ?_, rfl, rfl, rfl⟩
  cases v with
  | skill j => simp [Creature.var, Creature.setVarSpecialSkill]
  | specialSkill j =>
    simp only [Creature.var, Creature.setVarSpecialSkill, Function.update_apply, Var.specialSkill.injEq]
    split
    · rename_i h
      rw [h]
    · exact (Int32.add_zero _).symm
  | stat j => simp [Creature.var, Creature.setVarSpecialSkill]

theorem changeHealth_shifted (p : Creature) (n : Int32) : Shifted p (p.changeHealth n) fun _ => 0 :=
  .same (fun v => by cases v <;> rfl) rfl rfl rfl

theorem changeMana_shifted (p : Creature) (n : Int32) : Shifted p (p.changeMana n) fun _ => 0 := by
  unfold Creature.changeMana
  split
  · exact .refl p
  · exact .same (fun v => by cases v <;> rfl) rfl rfl rfl

theorem setVarStats_shifted (p : Creature) (i : Stat) (n : Int32) :
    Shifted p (p.setVarStats i n) fun v => if v = .stat i then n else 0 := by
  have hset : Shifted p { p with varStats := Function.update p.varStats i (p.varStats i + n) }
      fun v => if v = .stat i then n else 0 := by
    refine ⟨fun v => ?_, rfl, rfl, rfl⟩
    cases v with
    | skill j => simp [Creature.var]
    | specialSkill j => simp [Creature.var]
    | stat j =>
      simp only [Creature.var, Function.update_apply, Var.stat.injEq]
      split
      · rename_i h
        rw [h]
      · exact (Int32.add_zero _).symm
  unfold Creature.setVarStats
  dsimp only
  split
  · split
    · exact (hset.trans (changeHealth_shifted _ _)).congr fun v => Int32.add_zero _
    · exact hset
  · split
    · split
      · exact (hset.trans (changeMana_shifted _ _)).congr fun v => Int32.add_zero _
      · exact hset
    · exact hset

theorem foldl_shifted {n : ℕ} {set : Creature → Fin n → Int32 → Creature} {entry : Fin n → Var}
    {m : Fin n → Int32} {changes : Fin n → Prop} [DecidablePred changes]
    (hset : ∀ p i x, Shifted p (set p i x) fun v => if v = entry i then x else 0)
    (hchanges : ∀ i, ¬ changes i → m i = 0) (l : List (Fin n)) (p : Creature) :
    Shifted p (l.foldl (fun p i => if changes i then set p i (m i) else p) p)
      fun v => (l.map fun i => if v = entry i then m i else 0).sum := by
  induction l generalizing p with
  | nil => exact .refl p
  | cons i l ih =>
    rw [List.foldl_cons]
    have hfirst : Shifted p (if changes i then set p i (m i) else p) fun v => if v = entry i then
        m i else 0 := by
      split
      · exact hset p i (m i)
      · rename_i h
        exact (Shifted.refl p).congr fun v => by rw [hchanges i h, ite_self]
    exact (hfirst.trans (ih _)).congr fun v => by rw [List.map_cons, List.sum_cons]

theorem sum_zero {ι : Type} (l : List ι) : (l.map fun _ => (0 : Int32)).sum = 0 := by
  induction l with
  | nil => rfl
  | cons i l ih => rw [List.map_cons, List.sum_cons, ih, Int32.add_zero]

theorem sum_entry {ι : Type} [DecidableEq ι] {l : List ι} (hl : l.Nodup) {j : ι} (hj : j ∈ l) (m : ι → Int32) :
    (l.map fun i => if j = i then m i else 0).sum = m j := by
  induction l with
  | nil => cases hj
  | cons i l ih =>
    rw [List.map_cons, List.sum_cons]
    obtain ⟨hi, hl⟩ := List.nodup_cons.mp hl
    rcases List.mem_cons.mp hj with rfl | hj
    · have hrest : (l.map fun i => if j = i then m i else 0) = l.map fun _ => 0 :=
        List.map_congr_left fun k hk => if_neg fun (h : j = k) => hi (h ▸ hk)
      rw [hrest, sum_zero, if_pos rfl, Int32.add_zero]
    · have hne : j ≠ i := fun h => hi (h ▸ hj)
      rw [ih hl hj, if_neg hne, Int32.zero_add]

theorem arrays_shifted (skill : Skill → Prop) (specialSkill : SpecialSkill → Prop) (stat : Stat → Prop)
    [DecidablePred skill] [DecidablePred specialSkill] [DecidablePred stat] {m : Modifiers}
    (hskill : ∀ i, ¬ skill i → m.skills i = 0) (hspecial : ∀ i, ¬ specialSkill i → m.specialSkills i = 0)
    (hstat : ∀ i, ¬ stat i → m.stats i = 0) (p : Creature) :
    Shifted p ((List.finRange 4).foldl (fun p i => if stat i then
      p.setVarStats i (m.stats i) else p)
      ((List.finRange 6).foldl (fun p i => if specialSkill i then p.setVarSpecialSkill i (m.specialSkills i) else p)
        ((List.finRange 7).foldl (fun p i => if skill i then p.setVarSkill i (m.skills i)
          else p) p))) m.delta := by
  have h₁ := foldl_shifted setVarSkill_shifted hskill (List.finRange 7) p
  have h₂ := foldl_shifted setVarSpecialSkill_shifted hspecial (List.finRange 6)
  have h₃ := foldl_shifted setVarStats_shifted hstat (List.finRange 4)
  refine ((h₁.trans (h₂ _)).trans (h₃ _)).congr fun v => ?_
  cases v with
  | skill j =>
    simp only [Var.skill.injEq, reduceCtorEq, if_false, sum_zero, Int32.add_zero, Modifiers.delta]
    exact sum_entry (List.nodup_finRange 7) (List.mem_finRange j) m.skills
  | specialSkill j =>
    simp only [Var.specialSkill.injEq, reduceCtorEq, if_false, sum_zero, Int32.add_zero,
      Int32.zero_add, Modifiers.delta]
    exact sum_entry (List.nodup_finRange 6) (List.mem_finRange j) m.specialSkills
  | stat j =>
    simp only [Var.stat.injEq, reduceCtorEq, if_false, sum_zero, Int32.zero_add, Int32.add_zero, Modifiers.delta]
    exact sum_entry (List.nodup_finRange 4) (List.mem_finRange j) m.stats

/-! ## One condition -/

/-- What a condition adds to the entries of a player. -/
def share (p : Creature) (c : ConditionAttributes) (v : Var) : Int32 := if p.isPlayer then c.delta v else 0

theorem applyTo_shifted (c : ConditionAttributes) (p : Creature) :
    Shifted p (c.applyTo p).2 (share p (c.applyTo p).1) ∧ (c.applyTo p).1.disableDefense = c.disableDefense ∧
      (c.applyTo p).1.toCondition = c.toCondition := by
  unfold ConditionAttributes.applyTo
  split
  · rename_i hplayer
    refine ⟨?_, rfl, rfl⟩
    let c₁ := c.updatePercentSkills p
    let c₂ := c₁.updatePercentStats (c₁.updateSkills p)
    have h := arrays_shifted (m := ⟨c₂.skills, c₂.specialSkills, c₂.stats⟩) (fun i => c₂.skills i ≠ 0)
      (fun i => c₂.specialSkills i ≠ 0) (fun i => c₂.stats i ≠ 0)
      (fun _ => not_not.mp) (fun _ => not_not.mp) (fun _ => not_not.mp) p
    refine h.congr fun v => ?_
    rw [share, if_pos hplayer]
    cases v <;> rfl
  · rename_i hplayer
    refine ⟨(Shifted.refl p).congr fun v => ?_, rfl, rfl⟩
    rw [share, if_neg hplayer]

theorem startCondition_shifted (c : ConditionAttributes) (p : Creature) (now : Int64) :
    Shifted { p with canUseDefense := !c.disableDefense } (c.startCondition p now).2
        (share p (c.startCondition p now).1) ∧
      (c.startCondition p now).1.disableDefense = c.disableDefense := by
  obtain ⟨hshift, hdefense, -⟩ := applyTo_shifted
    { c with toCondition := c.toCondition.startCondition now }
      { p with canUseDefense := !c.disableDefense }
  exact ⟨hshift, hdefense⟩

theorem endCondition_shifted (c : ConditionAttributes) (p : Creature) :
    Shifted { p with canUseDefense := p.canUseDefense || c.disableDefense } (c.endCondition p)
      fun v => -share p c v := by
  have hwithdraw : Shifted p (if p.isPlayer then c.withdraw p else p) fun v => -share p c v := by
    split
    · rename_i hplayer
      have h := arrays_shifted (m := ⟨fun i => -c.skills i, fun i => -c.specialSkills i, fun i => -c.stats i⟩)
        (fun i => c.skills i ≠ 0 ∨ c.skillsPercent i ≠ 0) (fun i => c.specialSkills i ≠ 0)
        (fun i => c.stats i ≠ 0) (fun i hi => ?_) (fun i hi => ?_) (fun i hi => ?_) p
      · refine h.congr fun v => ?_
        rw [share, if_pos hplayer]
        cases v <;> rfl
      · show -c.skills i = 0
        rw [not_not.mp (not_or.mp hi).1]
        rfl
      · show -c.specialSkills i = 0
        rw [not_not.mp hi]
        rfl
      · show -c.stats i = 0
        rw [not_not.mp hi]
        rfl
    · rename_i hplayer
      refine (Shifted.refl p).congr fun v => ?_
      rw [share, if_neg hplayer]
      rfl
  unfold ConditionAttributes.endCondition
  dsimp only
  split
  · rename_i hdisable
    refine ⟨fun v => ?_, hwithdraw.conditions, hwithdraw.isPlayer, ?_⟩
    · exact hwithdraw.var v
    · rw [hdisable, Bool.or_true]
  · rename_i hdisable
    refine ⟨fun v => hwithdraw.var v, hwithdraw.conditions, hwithdraw.isPlayer, ?_⟩
    rw [Bool.eq_false_of_not_eq_true hdisable, Bool.or_false]
    exact hwithdraw.canUseDefense

theorem merge_cases (prev : ConditionAttributes) (p : Creature) (add : ConditionAttributes) (now : Int64) :
    prev.updateCondition add.toCondition now = false ∧ prev.addCondition p add now = (prev, p) ∨
      prev.updateCondition add.toCondition now = true ∧ ∃ q,
        Shifted { p with canUseDefense := p.canUseDefense || prev.disableDefense } q
          (fun v => -share p prev v) ∧
        Shifted q (prev.addCondition p add now).2 (share q (prev.addCondition p add now).1) ∧
        (prev.addCondition p add now).1.disableDefense = add.disableDefense := by
  unfold ConditionAttributes.addCondition
  split
  · rename_i hupdate
    refine .inr ⟨hupdate, prev.endCondition p, endCondition_shifted prev p, ?_⟩
    obtain ⟨hshift, hdefense, -⟩ := applyTo_shifted _ (prev.endCondition p)
    exact ⟨hshift, hdefense⟩
  · rename_i hupdate
    exact .inl ⟨Bool.eq_false_of_not_eq_true hupdate, rfl⟩

theorem addCondition_cases (p : Creature) (add : ConditionAttributes) (now : Int64) :
    (∃ before prev after, Creature.split add p.conditions = some (before, prev, after) ∧ p.addCondition add now =
        { (prev.addCondition p add now).2 with
          conditions := before ++ (prev.addCondition p add now).1 :: after }) ∨
    (Creature.split add p.conditions = none ∧ p.addCondition add now = { (add.startCondition p now).2 with
        conditions := (add.startCondition p now).2.conditions ++ [(add.startCondition p now).1] }) := by
  unfold Creature.addCondition
  split
  · rename_i before prev after hsplit
    exact .inl ⟨before, prev, after, hsplit, rfl⟩
  · rename_i hsplit
    exact .inr ⟨hsplit, rfl⟩

/-! ## The list -/

/-- The sum of what the conditions add to an entry. -/
def applied (l : List ConditionAttributes) (v : Var) : Int32 := (l.map fun c => c.delta v).sum

theorem applied_cons (c : ConditionAttributes) (l : List ConditionAttributes) (v : Var) :
    applied (c :: l) v = c.delta v + applied l v := rfl

theorem applied_append (l l' : List ConditionAttributes) (v : Var) :
    applied (l ++ l') v = applied l v + applied l' v := by
  induction l with
  | nil => exact (Int32.zero_add _).symm
  | cons c l ih => rw [List.cons_append, applied_cons, applied_cons, ih, Int32.add_assoc]

theorem applied_filter (l : List ConditionAttributes) (ends : ConditionAttributes → Bool) (v : Var) :
    applied (l.filter fun c => !ends c) v + applied (l.filter ends) v = applied l v := by
  induction l with
  | nil => rfl
  | cons c l ih =>
    rw [applied_cons, ← ih]
    cases h : ends c with
    | false =>
      rw [List.filter_cons_of_pos (by simp [h]), List.filter_cons_of_neg (by simp [h]),
        applied_cons]
      grind
    | true =>
      rw [List.filter_cons_of_neg (by simp [h]), List.filter_cons_of_pos h, applied_cons]
      grind

/-- The entries are `base` with what the conditions add. -/
structure Settled (base : Var → Int32) (p : Creature) : Prop where
  isPlayer : p.isPlayer = true
  var : ∀ v, p.var v = base v + applied p.conditions v

theorem split_eq {add : ConditionAttributes} {l before after : List ConditionAttributes} {prev : ConditionAttributes}
    (h : Creature.split add l = some (before, prev, after)) : l = before ++ prev :: after := by
  induction l generalizing before with
  | nil => cases h
  | cons c l ih =>
    rw [Creature.split] at h
    split at h
    · cases h
      rfl
    · obtain ⟨⟨l₁, d, l₂⟩, hsplit, heq⟩ := Option.map_eq_some_iff.mp h
      cases heq
      rw [ih hsplit, List.cons_append]

theorem endAll_shifted (l : List ConditionAttributes) (p : Creature) :
    Shifted { p with canUseDefense := p.canUseDefense || l.any fun c => c.disableDefense }
      (l.foldl (fun p c => c.endCondition p) p) fun v => -(if p.isPlayer then applied l v else 0) := by
  induction l generalizing p with
  | nil =>
    have hdefense : p.canUseDefense = (p.canUseDefense || [].any
        fun c : ConditionAttributes => c.disableDefense) := by
      simp
    refine ⟨fun v => ?_, rfl, rfl, hdefense⟩
    show p.var v = p.var v + -(if p.isPlayer then 0 else 0)
    rw [ite_self]
    exact (Int32.add_zero _).symm
  | cons c l ih =>
    rw [List.foldl_cons]
    have hfirst := endCondition_shifted c p
    have hrest := ih (c.endCondition p)
    refine ⟨fun v => ?_, hrest.conditions.trans hfirst.conditions, hrest.isPlayer.trans hfirst.isPlayer, ?_⟩
    · have hone : (c.endCondition p).var v = p.var v + -share p c v := hfirst.var v
      have hall := hrest.var v
      rw [hfirst.isPlayer] at hall
      show _ = p.var v + _
      rw [hall]
      show (c.endCondition p).var v + _ = _
      rw [hone, share, applied_cons]
      dsimp only
      split <;> grind
    · rw [hrest.canUseDefense]
      dsimp only
      rw [hfirst.canUseDefense, List.any_cons, Bool.or_assoc]

theorem removeConditions_shifted (p : Creature) (ends : ConditionAttributes → Bool) : Shifted
      { p with
        conditions := p.conditions.filter fun c => !ends c
        canUseDefense := p.canUseDefense || (p.conditions.filter ends).any fun c => c.disableDefense }
      (p.removeConditions ends) fun v =>
        -(if p.isPlayer then applied (p.conditions.filter ends) v else 0) :=
  endAll_shifted (p.conditions.filter ends)
    { p with conditions := p.conditions.filter fun c => !ends c }

theorem split_at {l : List ConditionAttributes} {index : ℕ} (h : l[index]? = some c) :
    ∃ before after, l = before ++ c :: after ∧ l.eraseIdx index = before ++ after := by
  obtain ⟨hlt, hget⟩ := List.getElem?_eq_some_iff.mp h
  refine ⟨l.take index, l.drop (index + 1), ?_, List.eraseIdx_eq_take_drop_succ l index⟩
  rw [← hget, List.getElem_cons_drop, List.take_append_drop]

/-! ## Entries without conditions -/

/-- The entries as they would be without conditions: only equipment changes them. -/
def bareStep (base : Var → Int32) : Action → Var → Int32
  | .equip m => fun v => base v + m.delta v
  | _ => base

variable {base : Var → Int32}

theorem Settled.removeConditions (h : Settled base p) (ends : ConditionAttributes → Bool) :
    Settled base (p.removeConditions ends) := by
  have hshift := removeConditions_shifted p ends
  refine ⟨hshift.isPlayer.trans h.isPlayer, fun v => ?_⟩
  have hall := applied_filter p.conditions ends v
  have hvar : (p.removeConditions ends).var v =
      p.var v + -(if p.isPlayer then applied (p.conditions.filter ends) v else 0) := hshift.var v
  rw [if_pos h.isPlayer, h.var v, ← hall] at hvar
  rw [hvar, hshift.conditions]
  grind

theorem Settled.of_conditions {l : List ConditionAttributes} (h : Settled base p)
    (hl : ∀ v, applied l v = applied p.conditions v) : Settled base { p with conditions := l } := by
  refine ⟨h.isPlayer, fun v => ?_⟩
  show p.var v = _
  rw [h.var v, hl v]

theorem applied_map {f : ConditionAttributes → ConditionAttributes} (hf : ∀ c v, (f c).delta v = c.delta v)
    (l : List ConditionAttributes) (v : Var) : applied (l.map f) v = applied l v := by
  unfold applied
  rw [List.map_map]
  exact congrArg List.sum (List.map_congr_left fun c _ => hf c v)

theorem applied_modify {f : ConditionAttributes → ConditionAttributes} (hf : ∀ c v, (f c).delta v = c.delta v)
    (l : List ConditionAttributes) (index : ℕ) (v : Var) : applied (l.modify index f) v = applied l v := by
  induction l generalizing index with
  | nil => rw [List.modify_nil]
  | cons c l ih =>
    cases index with
    | zero => rw [List.modify_zero_cons, applied_cons, applied_cons, hf]
    | succ index => rw [List.modify_succ_cons, applied_cons, applied_cons, ih]

theorem Settled.addCondition (h : Settled base p) (add : ConditionAttributes) (now : Int64) :
    Settled base (p.addCondition add now) := by
  rcases addCondition_cases p add now with ⟨before, prev, after, hsplit, heq⟩ | ⟨-, heq⟩ <;>
    rw [heq]
  · have hlist := split_eq hsplit
    rcases merge_cases prev p add now with ⟨-, hsame⟩ | ⟨-, q, hend, happly, -⟩
    · rw [hsame]
      exact h.of_conditions fun v => by rw [hlist]
    · have hplayer : q.isPlayer = true := hend.isPlayer.trans h.isPlayer
      generalize prev.addCondition p add now = result at happly
      obtain ⟨c, r⟩ := result
      refine ⟨happly.isPlayer.trans hplayer, fun v => ?_⟩
      have hq : q.var v = p.var v + -share p prev v := hend.var v
      have hr : r.var v = q.var v + share q c v := happly.var v
      rw [share, if_pos hplayer] at hr
      rw [share, if_pos h.isPlayer, h.var v, hlist, applied_append, applied_cons] at hq
      show r.var v = base v + applied (before ++ c :: after) v
      rw [hr, hq, applied_append, applied_cons]
      grind
  · have hstart := (startCondition_shifted add p now).1
    generalize add.startCondition p now = result at hstart
    obtain ⟨c, q⟩ := result
    refine ⟨hstart.isPlayer.trans h.isPlayer, fun v => ?_⟩
    have hq : q.var v = p.var v + share p c v := hstart.var v
    rw [share, if_pos h.isPlayer, h.var v] at hq
    show q.var v = base v + applied (q.conditions ++ [c]) v
    rw [hq, hstart.conditions, applied_append]
    show base v + applied p.conditions v + c.delta v = base v + (applied p.conditions v + (c.delta v + 0))
    rw [Int32.add_zero, Int32.add_assoc]

theorem Settled.removeCondition (h : Settled base p) (index : ℕ) : Settled base (p.removeCondition index) := by
  unfold Creature.removeCondition
  cases hget : p.conditions[index]? with
  | none => exact h
  | some c =>
    obtain ⟨before, after, hlist, herase⟩ := split_at hget
    have hend := endCondition_shifted c { p with conditions := before ++ after }
    rw [herase]
    refine ⟨hend.isPlayer.trans h.isPlayer, fun v => ?_⟩
    have hvar : (c.endCondition { p with conditions := before ++ after }).var v =
        p.var v + -(if p.isPlayer then c.delta v else 0) := hend.var v
    rw [if_pos h.isPlayer, h.var v, hlist, applied_append, applied_cons] at hvar
    rw [hvar, hend.conditions]
    show _ = base v + applied (before ++ after) v
    rw [applied_append]
    grind

theorem equip_shifted (p : Creature) (m : Modifiers) : Shifted p (p.equip m) m.delta :=
  arrays_shifted _ _ _ (fun _ => not_not.mp) (fun _ => not_not.mp) (fun _ => not_not.mp) p

theorem step_settled (h : Settled base p) (a : Action) : Settled (bareStep base a) (step p a) := by
  cases a with
  | addCondition c now => exact h.addCondition c now
  | removeType => exact h.removeConditions _
  | removeId id => exact h.removeConditions _
  | removeCondition index => exact h.removeCondition index
  | setTicks index ticks now =>
    exact h.of_conditions fun v => applied_modify (fun c v => by cases v <;>
      rfl) p.conditions index v
  | executeConditions interval now =>
    exact (h.of_conditions fun v => applied_map (fun c v => by cases v <;>
      rfl) p.conditions v).removeConditions _
  | death => exact h.removeConditions _
  | equip m =>
    have hshift := equip_shifted p m
    refine ⟨hshift.isPlayer.trans h.isPlayer, fun v => ?_⟩
    show (p.equip m).var v = base v + m.delta v + applied (p.equip m).conditions v
    rw [hshift.var v, hshift.conditions, h.var v]
    grind
  | advance healthMax manaMax magLevel skillLevel => exact ⟨h.isPlayer, h.var⟩

def Action.isEquip : Action → Bool
  | .equip _ => true
  | _ => false

theorem run_bareStep {as : List Action} (h : ∀ a ∈ as, a.isEquip = false) : run bareStep base as = base := by
  induction as with
  | nil => rfl
  | cons a as ih =>
    have ha : bareStep base a = base := by
      cases a with
      | equip m => exact absurd (h _ (List.mem_cons_self ..)) (by simp [Action.isEquip])
      | _ => rfl
    rw [run_cons, ha]
    exact ih fun b hb => h b (List.mem_cons_of_mem a hb)

/-- The entries are always what they would be without conditions, with what the
conditions that are applied add to them. -/
theorem attributes_undone_exactly {p : Creature} (hplayer : p.isPlayer = true) (hstart : p.conditions = [])
    (as : List Action) :
    (∀ v, (run step p as).var v = run bareStep p.var as v + applied (run step p as).conditions v) ∧
      ((run step p as).conditions = [] → (∀ a ∈ as, a.isEquip = false) → (run step p as).var = p.var) := by
  have hsettled : ∀ (as : List Action) (base : Var → Int32) (q : Creature), Settled base q →
      Settled (run bareStep base as) (run step q as) := by
    intro as
    induction as with
    | nil => exact fun _ _ h => h
    | cons a as ih => exact fun base q h => ih _ _ (step_settled h a)
  have hinit : Settled p.var p := by
    refine ⟨hplayer, fun v => ?_⟩
    rw [hstart]
    exact (Int32.add_zero _).symm
  have hlast := hsettled as p.var p hinit
  refine ⟨hlast.var, fun hnone hbare => funext fun v => ?_⟩
  rw [hlast.var v, hnone, run_bareStep hbare]
  exact Int32.add_zero _

/-- Half as strong again, for ten seconds; then more of it, and for longer. -/
def potions : List Action :=
  [.addCondition { skillsPercent := fun _ => 150, statsPercent := fun _ => 120, ticks := 10000 } 0,
    .advance 1200 300 20 fun _ => 60,
    .addCondition
      { skillsPercent := fun _ => 200, stats := fun _ => 50, specialSkills := fun _ => 5, ticks := 20000 } 1,
    .equip { skills := fun _ => 3 },
    .executeConditions 1000 1000]

theorem attributes_undone_exactly_potions : (run step {} potions).conditions.length = 1 ∧
    ∀ v, (run step {} potions).var v = run bareStep (fun _ => 0) potions v +
      applied (run step {} potions).conditions v := by
  have hbare : Creature.var {} = fun _ => 0 := funext fun v => by cases v <;> rfl
  refine ⟨by decide +kernel, ?_⟩
  rw [← hbare]
  exact (attributes_undone_exactly rfl rfl potions).1

end ForgottenServer.Conditions
