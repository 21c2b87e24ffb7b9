import ForgottenServer.Speed.Player
import ForgottenServer.Lib.Run

/-! # The speed is what gives it

Every function shifts `varSpeed` by what the conditions and the mount give more or
less after it, except for the mounts that the conditions below are about. -/
namespace ForgottenServer.Speed
open ForgottenServer.Conditions ForgottenServer.Lib.Run

def Active.delta : Active → Int32
  | .speed c => c.speedDelta
  | .outfit _ => 0

def deltas (l : List Active) : Int32 := (l.map Active.delta).sum

def Mounts.speed (mounts : Mounts) (id : UInt8) : Int32 :=
  ((mounts.getMountByID id).map Mount.speed).getD 0

def Player.mountSpeed (p : Player) (mounts : Mounts) : Int32 :=
  if p.isMounted then mounts.speed p.getCurrentMount else 0

/-- The sum that `varSpeed` should be. -/
def Composed (mounts : Mounts) (p : Player) : Prop :=
  p.varSpeed = deltas p.conditions + p.mountSpeed mounts

instance (mounts : Mounts) (p : Player) : Decidable (Composed mounts p) :=
  inferInstanceAs (Decidable (_ = _))

/-- What `varSpeed` has too much. -/
def excess (mounts : Mounts) (p : Player) : Int32 :=
  p.varSpeed - (deltas p.conditions + p.mountSpeed mounts)

theorem composed_iff {mounts : Mounts} {p : Player} : Composed mounts p ↔ excess mounts p = 0 := by
  rw [Composed, excess]
  grind

variable {mounts : Mounts} {p : Player} {env : Env}

/-! ## Differences -/

theorem changeSpeed_eq (p : Player) (d : Int32) : p.changeSpeed d = { p with varSpeed := p.varSpeed + d } := by
  have hcancel : p.baseSpeed + p.varSpeed.toUInt32 - p.baseSpeed = p.varSpeed.toUInt32 := by grind
  rw [Player.changeSpeed, Player.getSpeed, UInt32.toUInt32_toInt32, hcancel, Int32.toInt32_toUInt32]

theorem changeSpeed_zero (p : Player) : p.changeSpeed 0 = p := by
  rw [changeSpeed_eq, Int32.add_zero]

theorem changeSpeed_changeSpeed (p : Player) (d e : Int32) :
    (p.changeSpeed d).changeSpeed e = p.changeSpeed (d + e) := by
  rw [changeSpeed_eq, changeSpeed_eq, changeSpeed_eq, Int32.add_assoc]

@[simp] theorem deltas_cons (c : Active) (l : List Active) : deltas (c :: l) = c.delta + deltas l := by
  rw [deltas, List.map_cons, List.sum_cons]
  rfl

/-- The player with other conditions, and the speed that they give. -/
def Player.withConditions (p : Player) (l : List Active) : Player :=
  { p.changeSpeed (deltas l - deltas p.conditions) with conditions := l }

theorem excess_withConditions (l : List Active) : excess mounts (p.withConditions l) = excess mounts p := by
  rw [Player.withConditions, changeSpeed_eq]
  change p.varSpeed + (deltas l - deltas p.conditions) - (deltas l + p.mountSpeed mounts) = _
  rw [excess]
  grind

/-! ## Conditions -/

theorem endCondition_eq (p : Player) (c : Active) : p.endCondition c = p.changeSpeed (-c.delta) := by
  cases c with
  | speed c => rfl
  | outfit c =>
    change p = p.changeSpeed (-0)
    rw [Int32.neg_zero, changeSpeed_zero]

theorem startCondition_eq (p : Player) (env : Env) (c : Active) :
    (p.startCondition env c).1 = p.changeSpeed (p.startCondition env c).2.delta := by
  cases c with
  | speed c => rfl
  | outfit c => exact (changeSpeed_zero p).symm

theorem startCondition_type (p : Player) (env : Env) (c : Active) :
    (p.startCondition env c).2.base.conditionType = c.base.conditionType := by
  have hbase : ∀ b : Condition, (b.startCondition env.now).conditionType = b.conditionType := by
    intro b
    unfold Condition.startCondition
    split <;> rfl
  cases c with
  | speed c => exact hbase c.toCondition
  | outfit c => exact hbase c.toCondition

theorem changeSpeed_ite (p : Player) (d : Int32) : (if d ≠ 0 then p.changeSpeed d else p) = p.changeSpeed d := by
  split
  · rfl
  · rename_i hzero
    rw [not_not.mp hzero, changeSpeed_zero]

theorem mergeSpeed_eq (p : Player) (env : Env) (c add : ConditionSpeed) :
    (p.mergeSpeed env c add).1 = p.changeSpeed ((p.mergeSpeed env c add).2.speedDelta - c.speedDelta) := by
  have hsame : p = p.changeSpeed (c.speedDelta - c.speedDelta) := by
    rw [Int32.sub_self, changeSpeed_zero]
  unfold Player.mergeSpeed
  split
  · exact hsame
  · split
    · exact hsame
    · exact changeSpeed_ite p _

theorem mergeCondition_eq (p : Player) (env : Env) (c add : Active) :
    (p.mergeCondition env c add).1 = p.changeSpeed ((p.mergeCondition env c add).2.delta - c.delta) := by
  have hsame : ∀ c : Active, p = p.changeSpeed (c.delta - c.delta) := fun c => by
    rw [Int32.sub_self, changeSpeed_zero]
  cases c with
  | speed c =>
    cases add with
    | speed add => exact mergeSpeed_eq p env c add
    | outfit add => exact hsame (.speed c)
  | outfit c =>
    cases add with
    | speed add => exact hsame (.outfit c)
    | outfit add =>
      rw [Player.mergeCondition]
      split
      · exact hsame (.outfit c)
      · exact hsame (.outfit c)

theorem mergeFirst_eq (p : Player) (env : Env) (add : Active) (l : List Active) :
    (p.mergeFirst env add l).1 = p.changeSpeed (deltas (p.mergeFirst env add l).2 - deltas l) := by
  induction l with
  | nil =>
    change p = p.changeSpeed (0 - 0)
    rw [Int32.sub_self, changeSpeed_zero]
  | cons c l ih =>
    rw [Player.mergeFirst]
    split
    · dsimp only
      rw [deltas_cons, deltas_cons, mergeCondition_eq]
      congr 1
      grind
    · dsimp only
      rw [deltas_cons, deltas_cons, ih]
      congr 1
      grind

theorem removeLoop_eq (p : Player) (env : Env) (force : Bool) (hits : Condition → Bool) (l : List Active) :
    (p.removeLoop env force hits l).1 = p.changeSpeed (deltas (p.removeLoop env force hits l).2 - deltas l) := by
  induction l generalizing p with
  | nil =>
    change p = p.changeSpeed (0 - 0)
    rw [Int32.sub_self, changeSpeed_zero]
  | cons c l ih =>
    rw [Player.removeLoop]
    split
    · dsimp only
      rw [deltas_cons, deltas_cons, ih]
      congr 1
      grind
    · split
      · dsimp only
        rw [Int32.sub_self, changeSpeed_zero]
      · rw [ih, endCondition_eq, changeSpeed_changeSpeed, deltas_cons]
        congr 1
        grind

theorem delta_execute (interval : Int32) (c : Active) : (c.execute interval).delta = c.delta := by
  cases c <;> rfl

theorem executeLoop_eq (p : Player) (env : Env) (interval : Int32) (l : List Active) :
    (p.executeLoop env interval l).1 = p.changeSpeed (deltas (p.executeLoop env interval l).2 - deltas l) := by
  induction l generalizing p with
  | nil =>
    change p = p.changeSpeed (0 - 0)
    rw [Int32.sub_self, changeSpeed_zero]
  | cons c l ih =>
    have hdelta := delta_execute interval c
    rw [Player.executeLoop]
    split
    · dsimp only
      rw [deltas_cons, deltas_cons, hdelta, ih]
      congr 1
      grind
    · rw [ih, endCondition_eq, changeSpeed_changeSpeed, deltas_cons, hdelta]
      congr 1
      grind

theorem removeWhere_eq (p : Player) (env : Env) (force : Bool) (hits : Condition → Bool) :
    p.removeWhere env force hits = p.withConditions (p.removeLoop env force hits p.conditions).2 := by
  rw [Player.removeWhere, removeLoop_eq]
  rfl

theorem executeConditions_eq (p : Player) (env : Env) (interval : Int32) :
    p.executeConditions env interval = p.withConditions (p.executeLoop env interval p.conditions).2 := by
  rw [Player.executeConditions, executeLoop_eq]
  rfl

theorem deltas_append (l m : List Active) : deltas (l ++ m) = deltas l + deltas m := by
  rw [deltas, List.map_append, List.sum_append]
  rfl

theorem deltas_eraseIdx {l : List Active} {i : ℕ} {c : Active} (h : l[i]? = some c) :
    deltas (l.eraseIdx i) - deltas l = -c.delta := by
  induction l generalizing i with
  | nil => cases h
  | cons x l ih =>
    cases i with
    | zero =>
      cases h
      rw [List.eraseIdx_cons_zero, deltas_cons]
      grind
    | succ i =>
      have hrest := ih h
      rw [List.eraseIdx_cons_succ, deltas_cons, deltas_cons]
      grind

theorem withConditions_self (p : Player) : p.withConditions p.conditions = p := by
  rw [Player.withConditions, Int32.sub_self, changeSpeed_zero]

theorem removeConditionAt_eq (p : Player) (env : Env) (i : ℕ) (force : Bool) :
    ∃ l, p.removeConditionAt env i force = p.withConditions l := by
  unfold Player.removeConditionAt
  cases hfound : p.conditions[i]? with
  | none => exact ⟨p.conditions, (withConditions_self p).symm⟩
  | some c =>
    dsimp only
    split
    · exact ⟨p.conditions, (withConditions_self p).symm⟩
    · refine ⟨p.conditions.eraseIdx i, ?_⟩
      rw [endCondition_eq, Player.withConditions, deltas_eraseIdx hfound, changeSpeed_eq, changeSpeed_eq]

theorem startCondition_withConditions (p : Player) (env : Env) (c : Active) :
    ({ (p.startCondition env c).1 with conditions := p.conditions ++ [(p.startCondition env c).2] } : Player) =
      p.withConditions (p.conditions ++ [(p.startCondition env c).2]) := by
  have hdelta : deltas (p.conditions ++ [(p.startCondition env c).2]) - deltas p.conditions =
      (p.startCondition env c).2.delta := by
    rw [deltas_append, deltas_cons]
    change deltas p.conditions + ((p.startCondition env c).2.delta + 0) - deltas p.conditions = _
    grind
  rw [startCondition_eq, Player.withConditions, hdelta]

/-! ## Mounts -/

theorem getCurrentMount_setCurrentMount (p : Player) (mountId : UInt8) :
    (p.setCurrentMount mountId).getCurrentMount = mountId := by
  have hvalid : mountId.toUInt32.toInt32 ≠ -1 := by
    intro h
    have hword := congrArg (fun x : Int32 => x.toUInt32.toNat) h
    have hbyte := mountId.toNat_lt
    have hleft : mountId.toUInt32.toInt32.toUInt32.toNat = mountId.toNat := by simp
    have hright : (-1 : Int32).toUInt32.toNat = 4294967295 := by decide
    omega
  have hbyte : mountId.toUInt32.toInt32.toUInt32.toUInt8 = mountId := by simp
  rw [Player.getCurrentMount, Player.setCurrentMount, Player.addStorageValue]
  dsimp only
  rw [if_pos rfl, if_pos hvalid]
  exact hbyte

theorem getCurrentMount_mountKey (p : Player) (mountId : UInt8) (value : Int32) :
    (p.addStorageValue (mountKey mountId) value).getCurrentMount = p.getCurrentMount := by
  have hkey : PSTRG_MOUNTS_CURRENTMOUNT ≠ mountKey mountId := by
    have hbyte := (mountId - 1).toNat_lt
    rw [PSTRG_MOUNTS_CURRENTMOUNT, mountKey]
    omega
  rw [Player.getCurrentMount, Player.addStorageValue]
  dsimp only
  rw [if_neg hkey]
  rfl

theorem speed_of_getMountByID {id : UInt8} {mount : Mount} (h : mounts.getMountByID id = some mount) :
    mounts.speed id = mount.speed := by
  rw [Mounts.speed, h]
  rfl

theorem dismount_eq (mounts : Mounts) (p : Player) : p.dismount mounts = { p with
    varSpeed := p.varSpeed + if 0 < mounts.speed p.getCurrentMount then
      -mounts.speed p.getCurrentMount else 0
    defaultOutfit := { p.defaultOutfit with lookMount := 0 } } := by
  rw [Player.dismount]
  cases hmount : mounts.getMountByID p.getCurrentMount with
  | none =>
    have hspeed : mounts.speed p.getCurrentMount = 0 := by
      rw [Mounts.speed, hmount]
      rfl
    rw [hspeed, if_neg (by decide), Int32.add_zero]
  | some mount =>
    rw [speed_of_getMountByID hmount]
    dsimp only
    split
    · rw [changeSpeed_eq]
    · rw [Int32.add_zero]

theorem excess_dismount (hmounted : p.isMounted = true) : excess mounts (p.dismount mounts) =
    excess mounts p + if 0 < mounts.speed p.getCurrentMount then 0
      else mounts.speed p.getCurrentMount := by
  have hbefore : excess mounts p = p.varSpeed - (deltas p.conditions + mounts.speed p.getCurrentMount) := by
    rw [excess, Player.mountSpeed, if_pos hmounted]
  rw [dismount_eq, hbefore]
  change p.varSpeed + (if 0 < mounts.speed p.getCurrentMount then
    -mounts.speed p.getCurrentMount else 0) -
    (deltas p.conditions + 0) = _
  split <;> grind

/-! ## Steps -/

/-- A player on a mount has it as the current one. -/
def Seated (mounts : Mounts) (p : Player) : Prop :=
  p.isMounted = true → (mounts.getMountByID p.getCurrentMount).isSome = true

/-- The mount that is taken shows, unless it gives no speed. -/
def MountsWell (mounts : Mounts) (p : Player) (env : Env) : Prop :=
  match p.ride mounts env with
  | .on mount => mount.clientId = 0 → mount.speed = 0
  | _ => True

def DismountsWell (mounts : Mounts) (p : Player) : Prop :=
  p.isMounted = true → 0 ≤ mounts.speed p.getCurrentMount

/-- The mount chosen with the outfit is the one of its id. -/
def ChangesWell (mounts : Mounts) (p : Player) (env : Env) (lookMount : UInt16) : Prop :=
  if lookMount = 0 then DismountsWell mounts p
  else
    match mounts.getMountByClientID lookMount with
    | none => True
    | some mount =>
      p.hasMount env mount = true → p.isMounted = true → mounts.speed mount.id = mount.speed

def UntamesWell (mounts : Mounts) (p : Player) (mountId : UInt8) : Prop :=
  (mounts.getMountByID mountId).isSome = true → (p.storageMap (mountKey mountId)).isSome = true →
    p.getCurrentMount = mountId → DismountsWell mounts p

/-- The condition on a step, by what it does with mounts. -/
def GoesWell (mounts : Mounts) (p : Player) : Event → Prop
  | .addCondition _ add _ =>
    add.base.conditionType = .outfit → ¬ p.conditions.any (Active.sameAs · add) → DismountsWell mounts p
  | .toggleMount env mount =>
    p.isExhausted env = false → if mount then MountsWell mounts p env else DismountsWell mounts p
  | .playerChangeOutfit env outfit =>
    env.allowChangeOutfit = true →
      ChangesWell mounts p env (if env.isOutfit outfit.lookType then outfit.lookMount else 0)
  | .untameMount mountId => UntamesWell mounts p mountId
  | .onChangeZone env protection =>
    if protection then env.access = false → DismountsWell mounts p
    else p.wasMounted = true → MountsWell mounts p env
  | _ => True

/-- A step that keeps the excess exactly if `ok`, and the player seated. -/
structure Keeps (mounts : Mounts) (p q : Player) (ok : Prop) : Prop where
  excess : excess mounts q = excess mounts p ↔ ok
  seated : Seated mounts p → Seated mounts q

variable {q r : Player} {ok : Prop}

theorem Keeps.refl (p : Player) : Keeps mounts p p True := ⟨by simp, id⟩

theorem Keeps.congr {ok' : Prop} (h : Keeps mounts p q ok) (hok : ok ↔ ok') : Keeps mounts p q ok' :=
  ⟨h.excess.trans hok, h.seated⟩

theorem keeps_withConditions (p : Player) (l : List Active) : Keeps mounts p (p.withConditions l) True where
  excess := by simp [excess_withConditions]
  seated h := by
    rw [Player.withConditions, changeSpeed_eq]
    exact h

theorem keeps_of_conditions {l : List Active} (h : q = p.withConditions l) : Keeps mounts p q True := by
  rw [h]
  exact keeps_withConditions p l

theorem not_mounted_dismount (mounts : Mounts) (p : Player) : (p.dismount mounts).isMounted = false := by
  rw [dismount_eq]
  rfl

theorem keeps_dismount (hmounted : p.isMounted = true) :
    Keeps mounts p (p.dismount mounts) (DismountsWell mounts p) where
  excess := by
    rw [excess_dismount hmounted, DismountsWell]
    constructor
    · intro h _
      split at h <;> grind
    · intro h
      have hspeed := h hmounted
      split <;> grind
  seated _ h := by
    rw [not_mounted_dismount] at h
    cases h

theorem Keeps.andThen (h : Keeps mounts p q True) (h' : Keeps mounts q r ok) : Keeps mounts p r ok where
  excess := by rw [← h'.excess, h.excess.mpr trivial]
  seated hseated := h'.seated (h.seated hseated)

theorem Keeps.before (h : Keeps mounts p q ok) (h' : Keeps mounts q r True) : Keeps mounts p r ok where
  excess := by rw [← h.excess, h'.excess.mpr trivial]
  seated hseated := h'.seated (h.seated hseated)

theorem keeps_onAddCondition (p : Player) (env : Env) (type : ConditionType) :
    Keeps mounts p (p.onAddCondition mounts env type) (type = .outfit → DismountsWell mounts p) := by
  have hfirst : ∃ l, (if type = .paralyze ∧ p.hasCondition env .haste then p.removeCondition env .haste false
      else if type = .haste ∧ p.hasCondition env .paralyze then
        p.removeCondition env .paralyze false
      else p) = p.withConditions l := by
    split
    · exact ⟨_, removeWhere_eq p env false _⟩
    · split
      · exact ⟨_, removeWhere_eq p env false _⟩
      · exact ⟨p.conditions, (withConditions_self p).symm⟩
  obtain ⟨l, hl⟩ := hfirst
  have hwell : DismountsWell mounts (p.withConditions l) ↔ DismountsWell mounts p := by
    rw [Player.withConditions, changeSpeed_eq]
    rfl
  rw [Player.onAddCondition, hl]
  split
  · rename_i hoff
    refine (keeps_withConditions p l).andThen ((keeps_dismount hoff.2).congr ?_)
    rw [hwell]
    exact ⟨fun h _ => h, fun h => h hoff.1⟩
  · rename_i hstay
    refine (keeps_withConditions p l).congr ⟨fun _ htype hmounted => ?_, fun _ => trivial⟩
    have hsame : (p.withConditions l).isMounted = p.isMounted := by
      rw [Player.withConditions, changeSpeed_eq]
      rfl
    exact absurd ⟨htype, hsame.trans hmounted⟩ hstay

theorem keeps_addCondition (p : Player) (env : Env) (add : Active) (force : Bool) :
    Keeps mounts p (p.addCondition mounts env add force).1
      (add.base.conditionType = .outfit → ¬ p.conditions.any (Active.sameAs · add) → DismountsWell mounts p) := by
  rw [Player.addCondition]
  split
  · rename_i hwaits
    simp only [Bool.and_eq_true, decide_eq_true_eq] at hwaits
    refine (Keeps.refl p).congr ⟨fun _ htype => ?_, fun _ => trivial⟩
    rw [htype] at hwaits
    exact absurd hwaits.1.1.2 (by decide)
  · split
    · rename_i hthere
      have hmerge : ({ (p.mergeFirst env add p.conditions).1 with
          conditions := (p.mergeFirst env add p.conditions).2 } : Player) =
          p.withConditions (p.mergeFirst env add p.conditions).2 := by
        rw [mergeFirst_eq]
        rfl
      dsimp only
      rw [hmerge]
      exact (keeps_withConditions p _).congr ⟨fun _ _ hnew => absurd hthere hnew, fun _ => trivial⟩
    · rename_i hnew
      dsimp only
      have hwell : ∀ l, DismountsWell mounts (p.withConditions l) ↔
          DismountsWell mounts p := fun l => by
        rw [Player.withConditions, changeSpeed_eq]
        rfl
      have hconditions : (p.startCondition env add).1.conditions = p.conditions := by
        rw [startCondition_eq, changeSpeed_eq]
      rw [hconditions, startCondition_withConditions]
      refine (keeps_withConditions p _).andThen ((keeps_onAddCondition _ env _).congr ?_)
      rw [startCondition_type, hwell]
      exact ⟨fun h htype _ => h htype, fun h htype => h htype hnew⟩

theorem keeps_setCurrentMount (mountId : UInt8) (hfoot : p.isMounted = false) :
    Keeps mounts p (p.setCurrentMount mountId) True where
  excess := by
    have hmount : ∀ q : Player, q.isMounted = false → q.mountSpeed mounts = 0 := fun q hq => by
      rw [Player.mountSpeed, hq]
      rfl
    rw [excess, excess, hmount p hfoot, hmount (p.setCurrentMount mountId) hfoot]
    exact iff_of_true rfl trivial
  seated _ h := by
    change p.isMounted = true at h
    rw [hfoot] at h
    cases h

theorem ride_on {mount : Mount} (h : p.ride mounts env = .on mount) :
    p.isMounted = false ∧ mounts.getMountByID p.getCurrentMount = some mount := by
  unfold Player.ride at h
  split at h
  · cases h
  · rename_i hfoot
    refine ⟨by simpa using hfoot, ?_⟩
    split at h
    · cases h
    · split at h
      · cases h
      · split at h
        · cases h
        · split at h
          · cases h
          · rename_i currentMount hcurrent
            split at h
            · cases h
            · split at h
              · cases h
              · split at h
                · cases h
                · cases h
                  exact hcurrent

theorem ride_forgotten (h : p.ride mounts env = .forgotten) : p.isMounted = false := by
  unfold Player.ride at h
  split at h
  · cases h
  · rename_i hfoot
    simpa using hfoot

theorem keeps_toggleMount_on (hready : p.isExhausted env = false) :
    Keeps mounts p (p.toggleMount mounts env true).1 (MountsWell mounts p env) := by
  rw [Player.toggleMount, hready, MountsWell]
  simp only [Bool.false_eq_true, if_false, if_true]
  cases hride : p.ride mounts env with
  | refused => exact .refl p
  | forgotten => exact keeps_setCurrentMount 0 (ride_forgotten hride)
  | on mount =>
    obtain ⟨hfoot, hmount⟩ := ride_on hride
    dsimp only
    rw [changeSpeed_ite, changeSpeed_eq]
    constructor
    · have hbefore : p.mountSpeed mounts = 0 := by
        rw [Player.mountSpeed, hfoot]
        rfl
      rw [excess, excess, hbefore]
      change p.varSpeed + mount.speed - (deltas p.conditions +
        if decide (mount.clientId ≠ 0) = true then mounts.speed p.getCurrentMount else 0) = _ ↔ _
      rw [speed_of_getMountByID hmount]
      by_cases hclient : mount.clientId = 0
      · simp only [hclient, ne_eq, not_true_eq_false, decide_false, Bool.false_eq_true, if_false, forall_const]
        constructor <;> intro h <;> grind
      · simp only [hclient, ne_eq, not_false_eq_true, decide_true, if_true, false_imp_iff, iff_true]
        grind
    · intro _ _
      change (mounts.getMountByID p.getCurrentMount).isSome = true
      rw [hmount]
      rfl

theorem keeps_toggleMount (p : Player) (env : Env) (mount : Bool) : Keeps mounts p (p.toggleMount mounts env mount).1
      (p.isExhausted env = false → if mount then MountsWell mounts p env
        else DismountsWell mounts p) := by
  cases hready : p.isExhausted env with
  | true =>
    rw [Player.toggleMount, hready]
    exact (Keeps.refl p).congr ⟨fun _ h => absurd h (by decide), fun _ => trivial⟩
  | false =>
    cases mount with
    | true => exact (keeps_toggleMount_on hready).congr ⟨fun h _ => h, fun h => h rfl⟩
    | false =>
      rw [Player.toggleMount, hready]
      simp only [Bool.false_eq_true, if_false, forall_const]
      split
      · rename_i hfoot
        refine (Keeps.refl p).congr ⟨fun _ hmounted => ?_, fun _ => trivial⟩
        rw [hmounted] at hfoot
        cases hfoot
      · rename_i hmounted
        have hdismount := @keeps_dismount mounts p (by simpa using hmounted)
        exact ⟨hdismount.excess, hdismount.seated⟩

theorem keeps_onChangeZone (p : Player) (env : Env) (protection : Bool) :
    Keeps mounts p (p.onChangeZone mounts env protection)
      (if protection then env.access = false → DismountsWell mounts p
        else p.wasMounted = true → MountsWell mounts p env) := by
  cases protection with
  | true =>
    rw [Player.onChangeZone, if_pos rfl, if_pos rfl]
    split
    · rename_i hoff
      simp only [Bool.and_eq_true, Bool.not_eq_true'] at hoff
      have hdismount := @keeps_dismount mounts p hoff.2
      exact Keeps.congr ⟨hdismount.excess, hdismount.seated⟩ ⟨fun h _ => h, fun h => h hoff.1⟩
    · rename_i hstay
      refine (Keeps.refl p).congr ⟨fun _ haccess hmounted => ?_, fun _ => trivial⟩
      rw [haccess, hmounted] at hstay
      exact absurd rfl hstay
  | false =>
    rw [Player.onChangeZone, if_neg Bool.false_ne_true, if_neg Bool.false_ne_true]
    split
    · rename_i hwas
      have hready : p.isExhausted env = false := by
        rw [Player.isExhausted, hwas]
        simp
      have htoggle := @keeps_toggleMount_on mounts p env hready
      exact Keeps.congr ⟨htoggle.excess, htoggle.seated⟩ ⟨fun h _ => h, fun h => h hwas⟩
    · rename_i hwas
      exact (Keeps.refl p).congr ⟨fun _ h => absurd h hwas, fun _ => trivial⟩

theorem keeps_mountKey (p : Player) (mountId : UInt8) (value : Int32) :
    Keeps mounts p (p.addStorageValue (mountKey mountId) value) True where
  excess := by
    have hcurrent := getCurrentMount_mountKey p mountId value
    have hspeed : (p.addStorageValue (mountKey mountId) value).mountSpeed mounts =
        p.mountSpeed mounts := by
      rw [Player.mountSpeed, hcurrent]
      rfl
    rw [excess, hspeed]
    exact iff_of_true rfl trivial
  seated h hmounted := by
    rw [getCurrentMount_mountKey]
    exact h hmounted

theorem keeps_tameMount (p : Player) (mountId : UInt8) : Keeps mounts p (p.tameMount mounts mountId).1 True := by
  rw [Player.tameMount]
  split
  · exact .refl p
  · exact keeps_mountKey p mountId _

theorem keeps_untameMount (p : Player) (mountId : UInt8) :
    Keeps mounts p (p.untameMount mounts mountId).1 (UntamesWell mounts p mountId) := by
  rw [Player.untameMount]
  split
  · rename_i hnone
    refine (Keeps.refl p).congr ⟨fun _ hsome => ?_, fun _ => trivial⟩
    rw [Option.isNone_iff_eq_none.mp hnone] at hsome
    cases hsome
  · rename_i hsome
    rw [Bool.not_eq_true, Option.isNone_eq_false_iff] at hsome
    cases hvalue : p.storageMap (mountKey mountId) with
    | none =>
      refine (Keeps.refl p).congr ⟨fun _ _ hstored => ?_, fun _ => trivial⟩
      rw [hvalue] at hstored
      cases hstored
    | some value =>
      dsimp only
      have hcurrent := getCurrentMount_mountKey p mountId (value &&& ~~~mountBit mountId)
      have hkeeps := @keeps_mountKey mounts p mountId (value &&& ~~~mountBit mountId)
      have hwell : DismountsWell mounts (p.addStorageValue (mountKey mountId) (value &&& ~~~mountBit mountId)) ↔
          DismountsWell mounts p := by
        rw [DismountsWell, hcurrent]
        rfl
      rw [hcurrent]
      split
      · rename_i hid
        refine hkeeps.andThen ?_
        split
        · rename_i hmounted
          refine ((keeps_dismount hmounted).before (keeps_setCurrentMount 0 (not_mounted_dismount mounts _))).congr ?_
          rw [hwell]
          refine ⟨fun h _ _ _ => h, fun h => h (Option.isSome_iff_ne_none.mpr ?_) ?_ hid⟩
          · exact Option.isSome_iff_ne_none.mp hsome
          · rw [hvalue]
            rfl
        · rename_i hfoot
          rw [Bool.not_eq_true] at hfoot
          refine (keeps_setCurrentMount 0 hfoot).congr ⟨fun _ _ _ _ hmounted => ?_, fun _ => trivial⟩
          change p.isMounted = false at hfoot
          rw [hfoot] at hmounted
          cases hmounted
      · rename_i hother
        exact hkeeps.congr ⟨fun _ _ _ h => absurd h hother, fun _ => trivial⟩

theorem keeps_changeLevel (p : Player) (level : UInt32) : Keeps mounts p (p.changeLevel level) True := by
  rw [Player.changeLevel]
  split
  · rw [changeSpeed_zero]
    exact ⟨iff_of_true rfl trivial, id⟩
  · exact .refl p

theorem keeps_wear {outfit : Look} (h : decide (outfit.lookMount ≠ 0) = p.isMounted) :
    Keeps mounts p { p with defaultOutfit := outfit } True where
  excess := by
    have hmounted : ({ p with defaultOutfit := outfit } : Player).isMounted = p.isMounted := h
    have hspeed : ({ p with defaultOutfit := outfit } : Player).mountSpeed mounts =
        p.mountSpeed mounts := by
      rw [Player.mountSpeed, hmounted]
      rfl
    rw [excess, hspeed]
    exact iff_of_true rfl trivial
  seated hseated hmounted := hseated (h.symm.trans hmounted)

theorem Keeps.wear {outfit : Look} (h : Keeps mounts p q ok) (hlook : decide (outfit.lookMount ≠ 0) = q.isMounted) :
    Keeps mounts p (q.wear env outfit) ok := by
  unfold Player.wear
  split
  · exact h.before (keeps_wear hlook)
  · exact h

theorem keeps_changeMount {mount prevMount : Mount} (hmounted : p.isMounted = true)
    (hprev : mounts.getMountByID p.getCurrentMount = some prevMount)
    (hmount : (mounts.getMountByID mount.id).isSome = true) :
    Keeps mounts p ((p.changeSpeed (mount.speed - prevMount.speed)).setCurrentMount mount.id)
      (mounts.speed mount.id = mount.speed) where
  excess := by
    have hspeed : mounts.speed p.getCurrentMount = prevMount.speed := speed_of_getMountByID hprev
    have hbefore : excess mounts p = p.varSpeed - (deltas p.conditions + prevMount.speed) := by
      rw [excess, Player.mountSpeed, if_pos hmounted, hspeed]
    rw [changeSpeed_eq, hbefore, excess, Player.mountSpeed, getCurrentMount_setCurrentMount]
    change p.varSpeed + (mount.speed - prevMount.speed) -
      (deltas p.conditions + if p.isMounted = true then mounts.speed mount.id else 0) = _ ↔ _
    rw [if_pos hmounted]
    constructor <;> intro h <;> grind
  seated _ _ := by
    rw [getCurrentMount_setCurrentMount]
    exact hmount

theorem getMountByClientID_mem {clientId : UInt16} {mount : Mount}
    (h : mounts.getMountByClientID clientId = some mount) : (mounts.getMountByID mount.id).isSome = true := by
  rw [Mounts.getMountByID, List.find?_isSome]
  exact ⟨mount, List.mem_of_find?_eq_some h, by simp⟩

theorem keeps_playerChangeOutfit (hseated : Seated mounts p) (outfit : Look) :
    Keeps mounts p (p.playerChangeOutfit mounts env outfit) (env.allowChangeOutfit = true →
        ChangesWell mounts p env (if env.isOutfit outfit.lookType then outfit.lookMount
          else 0)) := by
  have hlook : (if env.isOutfit outfit.lookType then outfit.lookMount else 0) =
      (if env.isOutfit outfit.lookType then outfit
        else { outfit with lookMount := 0 }).lookMount := by
    split <;> rfl
  rw [Player.playerChangeOutfit, hlook]
  generalize (if env.isOutfit outfit.lookType then outfit
    else { outfit with lookMount := 0 }) = look
  split
  · rename_i hforbidden
    refine (Keeps.refl p).congr ⟨fun _ hallowed => ?_, fun _ => trivial⟩
    rw [hallowed] at hforbidden
    cases hforbidden
  · rename_i hallowed
    have hallowed : env.allowChangeOutfit = true := by simpa using hallowed
    simp only [hallowed, forall_const]
    rw [ChangesWell]
    by_cases hnone : look.lookMount = 0
    · rw [if_neg (not_not.mpr hnone), if_pos hnone]
      split
      · rename_i hmounted
        exact (keeps_dismount hmounted).wear (by rw [not_mounted_dismount, hnone]; rfl)
      · rename_i hfoot
        rw [Bool.not_eq_true] at hfoot
        have hwell : DismountsWell mounts p := fun hmounted => by
          rw [hfoot] at hmounted
          cases hmounted
        exact ((Keeps.refl p).wear (by rw [hfoot, hnone]; rfl)).congr (iff_of_true trivial hwell)
    · rw [if_pos hnone, if_neg hnone]
      cases hmount : mounts.getMountByClientID look.lookMount with
      | none => exact .refl p
      | some mount =>
        dsimp only
        split
        · rename_i hforeign
          exact (Keeps.refl p).congr ⟨fun _ hown => by simp [hown] at hforeign, fun _ => trivial⟩
        · rename_i hown
          have hown : p.hasMount env mount = true := by simpa using hown
          cases hmounted : p.isMounted with
          | true =>
            obtain ⟨prevMount, hprev⟩ := Option.isSome_iff_exists.mp (hseated hmounted)
            have hkeeps := keeps_changeMount hmounted hprev (getMountByClientID_mem hmount)
            rw [if_pos rfl, hprev]
            dsimp only
            refine (hkeeps.wear ?_).congr ⟨fun h _ _ => h, fun h => h hown rfl⟩
            rw [changeSpeed_eq]
            exact (decide_eq_true hnone).trans hmounted.symm
          | false =>
            rw [if_neg Bool.false_ne_true]
            exact ((keeps_setCurrentMount mount.id hmounted).wear (by exact hmounted.symm)).congr
              ⟨fun _ _ h => absurd h (by decide), fun _ => trivial⟩

theorem keeps_step (hseated : Seated mounts p) (e : Event) :
    Keeps mounts p (p.step mounts e) (GoesWell mounts p e) := by
  cases e with
  | addCondition env add force => exact keeps_addCondition p env add force
  | removeCondition env type force => exact keeps_of_conditions (removeWhere_eq p env force _)
  | removeConditionOfId env type id force =>
    exact keeps_of_conditions (removeWhere_eq p env force _)
  | removeConditionAt env i force =>
    obtain ⟨l, hl⟩ := removeConditionAt_eq p env i force
    exact keeps_of_conditions hl
  | removePersistent env => exact keeps_of_conditions (removeWhere_eq p env true _)
  | executeConditions env interval =>
    exact keeps_of_conditions (executeConditions_eq p env interval)
  | toggleMount env mount => exact keeps_toggleMount p env mount
  | playerChangeOutfit env outfit => exact keeps_playerChangeOutfit hseated outfit
  | tameMount mountId => exact keeps_tameMount p mountId
  | untameMount mountId => exact keeps_untameMount p mountId
  | onChangeZone env protection => exact keeps_onChangeZone p env protection
  | changeLevel level => exact keeps_changeLevel p level

/-- From the login on, `varSpeed` is the sum in every state that a run passes through
exactly when all its steps treat the mounts well. -/
theorem speed_is_composed_iff (mounts : Mounts) (p : Player) (events : List Event) :
    (∀ pre, pre <+: events → Composed mounts (run (Player.step mounts) p.login pre)) ↔
      Along (Player.step mounts) (GoesWell mounts) p.login events := by
  refine @inv_reached_iff_of_legal _ _ (Player.step mounts) (fun _ _ => True) (GoesWell mounts) (Seated mounts)
    (Composed mounts) ?_ ?_ p.login events ?_ ?_ (Along.of_forall fun _ _ => trivial)
  · intro q e hseated _
    exact (keeps_step hseated e).seated hseated
  · intro q e hseated hcomposed _
    rw [composed_iff] at hcomposed ⊢
    rw [← hcomposed]
    exact (keeps_step hseated e).excess
  · intro hmounted
    cases hmounted
  · rfl

/-- A horse that is slower than its rider. -/
def slowMount : Mount where
  id := 1
  clientId := 368
  speed := -20
  premium := false

/-- The player tames the mount, chooses it, mounts and dismounts. -/
def aRide : List Event :=
  [.tameMount 1, .playerChangeOutfit { now := 1 } { lookMount := 368 },
    .toggleMount { now := 10000 } true, .toggleMount { now := 20000 } false]

/-- The speed of a slow mount is added by mounting and not taken back by dismounting. -/
theorem slow_mount_stays : ¬ Composed [slowMount] (run (Player.step [slowMount]) ({} : Player).login aRide) := by
  decide

end ForgottenServer.Speed
