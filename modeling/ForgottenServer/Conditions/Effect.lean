import ForgottenServer.Conditions.Reloading
import ForgottenServer.Conditions.Undoing
import ForgottenServer.Lib.Machine

/-! # The effect of a loaded condition

A condition acts on a player by what the player holds as long as it lasts, and by
what executing it gives. Two conditions have the same effect in a game when they hold
the same and no executions in it tell them apart. -/
namespace ForgottenServer.Conditions
open ForgottenServer.Lib.Machine

/-- What a player has from a condition that has started. -/
structure Held where
  changes : Var → Int32 := fun _ => 0
  disableDefense : Bool := false
  speedDelta : Int32 := 0
  /-- the bits of the formula, from which a speed change of zero is drawn -/
  formula : List UInt32 := []
  outfit : Option Outfit := none
  lightInfo : Option LightInfo := none
  delayed : Bool := false

namespace AnyCondition

def held : AnyCondition → Held
  | .attributes c => { changes := c.delta, disableDefense := c.disableDefense }
  | .speed c => { speedDelta := c.speedDelta, formula := [c.mina, c.minb, c.maxa, c.maxb] }
  | .outfit c => { outfit := c.outfit }
  | .light c => { lightInfo := c.lightInfo }
  | .damage c => { delayed := c.delayed }
  | _ => {}

/-- The time that is left for the effect. Damage in rounds ends with its rounds. -/
def remaining : AnyCondition → Option Int32
  | .damage c => if c.periodDamage = 0 then none else some c.ticks
  | c => some c.base.ticks

end AnyCondition

/-- The ids of the creatures that are in the game or come into it; none is zero. -/
structure Creatures where
  ids : Set UInt32
  zero : 0 ∉ ids

namespace Creatures

/-- A call that is made in the game. -/
structure Call (game : Creatures) extends Think where
  inGame : ∀ id ∉ game.ids, getCreatureByID id = none

variable (game : Creatures) (interval : Int32)

/-- A call that looks nothing up. -/
def after : game.Call where
  interval
  inGame _ _ := rfl

open Classical in
/-- A call while all the creatures are there. -/
noncomputable def together : game.Call where
  interval
  getCreatureByID id := if id ∈ game.ids then some false else none
  inGame _ hid := if_neg hid

@[simp] theorem after_interval : (game.after interval).interval = interval := rfl

@[simp] theorem after_protectionZone : (game.after interval).protectionZone = false := rfl

@[simp] theorem together_interval : (game.together interval).interval = interval := rfl

def think (c : AnyCondition) (call : game.Call) : AnyCondition × Given := c.executeCondition call.toThink

end Creatures

variable {game : Creatures}

structure SameEffect (game : Creatures) (c d : AnyCondition) : Prop where
  conditionType : c.base.conditionType = d.base.conditionType
  id : c.base.id = d.base.id
  subId : c.base.subId = d.base.subId
  isBuff : c.base.isBuff = d.base.isBuff
  aggressive : c.base.aggressive = d.base.aggressive
  held : c.held = d.held
  remaining : c.remaining = d.remaining
  alike : Alike game.think c d

/-! ## Clocks -/

/-- The clock may start again without anyone noticing. -/
def Unnoticed (gain period internal : UInt32) : Prop := gain = 0 ∨ period = 0 ∨ internal = 0

instance (gain period internal : UInt32) : Decidable (Unnoticed gain period internal) :=
  inferInstanceAs (Decidable (_ ∨ _ ∨ _))

/-- What a clock gives, and where it goes on, compared to one that has been started again. -/
def SameClock (gain period internal internal' : UInt32) : Prop := gain = 0 ∨ period = 0 ∨ internal = internal'

theorem elapse_period_zero (internal : UInt32) (interval : Int32) (acts : Bool) :
    (elapse internal 0 interval acts).2 = acts := by
  cases acts <;> simp [elapse]

theorem SameClock.elapse {gain period internal internal' : UInt32}
    (h : SameClock gain period internal internal') (interval : Int32) (acts : Bool) :
    ((if (elapse internal period interval acts).2 then gain else 0) =
      if (elapse internal' period interval acts).2 then gain else 0) ∧
    SameClock gain period (elapse internal period interval acts).1 (elapse internal' period interval acts).1 := by
  rcases h with rfl | rfl | rfl
  · exact ⟨by rw [ite_self, ite_self], .inl rfl⟩
  · exact ⟨by rw [elapse_period_zero, elapse_period_zero], .inr (.inl rfl)⟩
  · exact ⟨rfl, .inr (.inr rfl)⟩

/-- An interval at which a clock that stands at zero is not over while this one is. -/
theorem unnoticed_iff {gain period internal : UInt32} :
    (∀ interval, (if (elapse internal period interval true).2 then gain else 0) =
      if (elapse 0 period interval true).2 then gain else 0) ↔ Unnoticed gain period internal := by
  constructor
  · intro h
    by_contra hno
    simp only [Unnoticed, not_or] at hno
    obtain ⟨hgain, hperiod, hinternal⟩ := hno
    by_cases hover : period ≤ internal
    · have hnow := h 0
      have hlater : ¬ period ≤ 0 := fun hle => hperiod (UInt32.le_zero_iff.mp hle)
      have hzero : Int32.toUInt32 0 = 0 := rfl
      simp only [elapse, hzero, UInt32.add_zero, hover, hlater] at hnow
      exact hgain (by simpa using hnow)
    · have hthen := h (period - internal).toInt32
      have hle : internal ≤ period := UInt32.le_of_lt (UInt32.not_le.mp hover)
      have hfull : internal + (period - internal) = period := by
        rw [UInt32.add_comm, UInt32.sub_add_cancel]
      have hshort : ¬ period ≤ period - internal := by
        rw [UInt32.le_iff_toNat_le, UInt32.toNat_sub_of_le _ _ hle]
        rw [UInt32.le_iff_toNat_le] at hle
        have hpos : internal.toNat ≠ 0 := fun hz => hinternal (UInt32.toNat_inj.mp hz)
        omega
      have hback : (period - internal).toInt32.toUInt32 = period - internal := rfl
      simp only [elapse, hback, hfull, UInt32.zero_add, hshort] at hthen
      exact hgain (by simpa using hthen)
  · intro h interval
    exact (SameClock.elapse h interval true).1

/-! ## Class by class -/

theorem regeneration_alike {c d : ConditionRegeneration} (hperiod : d.healthTicks = c.healthTicks)
    (hgain : d.healthGain = c.healthGain) (hperiod' : d.manaTicks = c.manaTicks) (hgain' : d.manaGain = c.manaGain)
    (hhealth : d.internalHealthTicks = 0) (hmana : d.internalManaTicks = 0) :
    Alike game.think (.regeneration c) (.regeneration d) ↔ Unnoticed c.healthGain c.healthTicks c.internalHealthTicks ∧
        Unnoticed c.manaGain c.manaTicks c.internalManaTicks := by
  rw [alike_embed (fun (c : ConditionRegeneration) (t : game.Call) => c.executeCondition t.toThink) fun c t => rfl]
  constructor
  · intro h
    constructor
    · refine unnoticed_iff.mp fun interval => ?_
      have hanswer := congrArg Given.health (h.answer (game.after interval))
      simpa only [ConditionRegeneration.executeCondition, hperiod, hgain, hhealth, Creatures.after_interval,
        Creatures.after_protectionZone, Bool.not_false] using hanswer
    · refine unnoticed_iff.mp fun interval => ?_
      have hanswer := congrArg Given.mana (h.answer (game.after interval))
      simpa only [ConditionRegeneration.executeCondition, hperiod', hgain', hmana, Creatures.after_interval,
        Creatures.after_protectionZone, Bool.not_false] using hanswer
  · rintro ⟨h, h'⟩
    let R (c d : ConditionRegeneration) : Prop :=
      (d.healthTicks = c.healthTicks ∧ d.healthGain = c.healthGain ∧
      SameClock c.healthGain c.healthTicks c.internalHealthTicks d.internalHealthTicks) ∧
      d.manaTicks = c.manaTicks ∧ d.manaGain = c.manaGain ∧
      SameClock c.manaGain c.manaTicks c.internalManaTicks d.internalManaTicks
    refine alike_of_bisim (R := R) ?_ ⟨⟨hperiod, hgain, by rwa [hhealth]⟩, hperiod', hgain', by rwa [hmana]⟩
    rintro c d t ⟨⟨hp, hg, hclock⟩, hp', hg', hclock'⟩
    obtain ⟨hgive, hnext⟩ := hclock.elapse t.interval !t.protectionZone
    obtain ⟨hgive', hnext'⟩ := hclock'.elapse t.interval !t.protectionZone
    refine ⟨?_, ⟨hp, hg, ?_⟩, hp', hg', ?_⟩
    · simp only [ConditionRegeneration.executeCondition, hp, hg, hp', hg', hgive, hgive']
    · simpa only [ConditionRegeneration.executeCondition, hp] using hnext
    · simpa only [ConditionRegeneration.executeCondition, hp'] using hnext'

theorem soul_alike {c d : ConditionSoul} (hperiod : d.soulTicks = c.soulTicks)
    (hgain : d.soulGain = c.soulGain) (hsoul : d.internalSoulTicks = 0) :
    Alike game.think (.soul c) (.soul d) ↔ Unnoticed c.soulGain c.soulTicks c.internalSoulTicks := by
  rw [alike_embed (fun (c : ConditionSoul) (t : game.Call) => c.executeCondition t.toThink) fun c t => rfl]
  constructor
  · intro h
    refine unnoticed_iff.mp fun interval => ?_
    have hanswer := congrArg Given.soul (h.answer (game.after interval))
    simpa only [ConditionSoul.executeCondition, hperiod, hgain, hsoul, Creatures.after_interval,
      Creatures.after_protectionZone, Bool.not_false] using hanswer
  · intro h
    let R (c d : ConditionSoul) : Prop := d.soulTicks = c.soulTicks ∧ d.soulGain = c.soulGain ∧
      SameClock c.soulGain c.soulTicks c.internalSoulTicks d.internalSoulTicks
    refine alike_of_bisim (R := R) ?_ ⟨hperiod, hgain, by rwa [hsoul]⟩
    rintro c d t ⟨hp, hg, hclock⟩
    obtain ⟨hgive, hnext⟩ := hclock.elapse t.interval !t.protectionZone
    refine ⟨?_, hp, hg, ?_⟩
    · simp only [ConditionSoul.executeCondition, hp, hg, hgive]
    · simpa only [ConditionSoul.executeCondition, hp] using hnext

theorem light_alike {c d : ConditionLight} (hticks : d.internalLightTicks = c.internalLightTicks)
    (hinterval : d.lightChangeInterval = c.lightChangeInterval) : Alike game.think (.light c) (.light d) := by
  rw [alike_embed (fun (c : ConditionLight) (t : game.Call) => c.executeCondition t.toThink) fun c t => rfl]
  let R (c d : ConditionLight) : Prop :=
    d.internalLightTicks = c.internalLightTicks ∧ d.lightChangeInterval = c.lightChangeInterval
  refine alike_of_bisim (R := R) ?_ ⟨hticks, hinterval⟩
  rintro c d t ⟨ht, hi⟩
  simp only [ConditionLight.executeCondition, ht, hi, R, and_self]

theorem idle_alike {C : Type} {wrap : C → AnyCondition} {next : C → Think → C}
    (hwrap : ∀ c t, (wrap c).executeCondition t = (wrap (next c t), {})) (c d : C) :
    Alike game.think (wrap c) (wrap d) := by
  rw [alike_embed (fun c (t : game.Call) => (next c t.toThink, ({} : Given))) fun c t => hwrap c t.toThink]
  exact alike_of_bisim (R := fun _ _ => True) (fun _ _ _ _ => ⟨rfl, trivial⟩) trivial

/-! ## Damage -/

namespace ConditionDamage

/-- It is that of no field, and of no creature in the game. -/
def Anonymous (game : Creatures) (c : ConditionDamage) : Prop := c.field = false ∧ c.owner ∉ game.ids

variable {c d : ConditionDamage}

theorem Anonymous.doDamage (hc : c.Anonymous game) (hd : d.Anonymous game) (t : game.Call) :
    c.doDamage t.toThink = d.doDamage t.toThink := by
  funext healthChange
  simp [ConditionDamage.doDamage, hc.1, hd.1, t.inGame _ hc.2, t.inGame _ hd.2]

theorem Anonymous.of_hit (hd : d.Anonymous game) {interval healthChange : Int32}
    (h : c.doDamage (game.together interval).toThink healthChange =
      d.doDamage (game.together interval).toThink healthChange) :
    c.Anonymous game := by
  refine ⟨(congrArg Hit.field h).trans hd.1, fun howner => ?_⟩
  have hattacker := congrArg Hit.attacker h
  simp [ConditionDamage.doDamage, Creatures.together, howner, hd.2] at hattacker

theorem executeCondition_anonymous (t : Think) : (c.executeCondition t).1.Anonymous game ↔ c.Anonymous game := by
  unfold ConditionDamage.executeCondition
  split
  · rfl
  · split <;> rfl

theorem executeCondition_nil (hc : c.periodDamage = 0) (hlist : c.damageList = []) (t : Think) :
    c.executeCondition t = ({ c with toCondition := c.toCondition.executeCondition t.interval }, {}) := by
  rw [ConditionDamage.executeCondition, if_neg (not_not.mpr hc), hlist]

end ConditionDamage

/-- Damage in rounds, as long as the condition ends: the rounds, the type and whose damage it is decide. -/
theorem rounds_alike_iff {c d : ConditionDamage} (hc : c.periodDamage = 0) (hd : d.periodDamage = 0)
    (htype : d.conditionType = c.conditionType) (hlist : d.damageList = c.damageList)
    (hc' : c.ticks ≠ -1) (hd' : d.ticks ≠ -1) (hanonymous : d.Anonymous game) :
    Alike game.think (.damage c) (.damage d) ↔ (c.damageList ≠ [] → c.Anonymous game) := by
  rw [alike_embed (fun (c : ConditionDamage) (t : game.Call) => c.deal t.toThink) fun c t => rfl]
  constructor
  · intro h hsome
    obtain ⟨info, rest, hinfo⟩ := List.exists_cons_of_ne_nil hsome
    have hhit := congrArg Given.hit (h.answer (game.together info.timeLeft))
    have hnow : ¬0 < info.timeLeft - info.timeLeft := by rw [Int32.sub_self]; decide
    simp only [ConditionDamage.deal, ConditionDamage.executeCondition, hc, hd, hlist, hinfo,
      Creatures.together_interval, hnow, ne_eq, not_true_eq_false, if_false, Option.map_some,
      Option.some.injEq] at hhit
    exact hanonymous.of_hit hhit
  intro horigin
  let R (c d : ConditionDamage) : Prop := c.periodDamage = 0 ∧ d.periodDamage = 0 ∧
    d.conditionType = c.conditionType ∧ d.damageList = c.damageList ∧ c.ticks ≠ -1 ∧ d.ticks ≠ -1 ∧
    d.Anonymous game ∧ (c.damageList ≠ [] → c.Anonymous game)
  refine alike_of_bisim (R := R) ?_ ⟨hc, hd, htype, hlist, hc', hd', hanonymous, horigin⟩
  rintro c d t ⟨hc, hd, htype, hlist, hc', hd', hanonymous, horigin⟩
  have htype' (c : Condition) (interval : Int32) : (c.executeCondition interval).conditionType = c.conditionType := by
    unfold Condition.executeCondition
    split <;> rfl
  have hkept := (ConditionDamage.executeCondition_anonymous t.toThink).mpr hanonymous
  cases hrounds : c.damageList with
  | nil =>
    rw [ConditionDamage.deal, ConditionDamage.deal, ConditionDamage.executeCondition_nil hc hrounds,
      ConditionDamage.executeCondition_nil hd (hlist.trans hrounds)]
    exact ⟨rfl, hc, hd, by simp only [htype', htype], hlist, Condition.executeCondition_limited hc' _,
      Condition.executeCondition_limited hd' _, hanonymous, horigin⟩
  | cons damageInfo rest =>
    have hsome := horigin (by simp [hrounds])
    have hkept' := (ConditionDamage.executeCondition_anonymous t.toThink).mpr hsome
    simp only [ConditionDamage.deal, hsome.doDamage hanonymous t]
    unfold ConditionDamage.executeCondition at hkept hkept' ⊢
    rw [if_neg (not_not.mpr hc), hrounds] at hkept'
    rw [if_neg (not_not.mpr hd), hlist, hrounds] at hkept
    rw [if_neg (not_not.mpr hc), if_neg (not_not.mpr hd), hlist, hrounds]
    simp only [htype, ne_eq, hc', hd', not_false_eq_true, decide_true] at hkept hkept' ⊢
    refine ⟨trivial, hc, hd, by simp only [htype'], rfl, ?_, ?_, hkept, fun _ => hkept'⟩
    · refine Condition.executeCondition_limited ?_ _
      exact hc'
    · refine Condition.executeCondition_limited ?_ _
      exact hd'

theorem toInt_add_cases (a b : Int32) : (a + b).toInt = a.toInt + b.toInt ∨
    (a + b).toInt = a.toInt + b.toInt + 2 ^ 32 ∨ (a + b).toInt = a.toInt + b.toInt - 2 ^ 32 := by
  have ha := a.le_toInt
  have ha' := a.toInt_lt
  have hb := b.le_toInt
  have hb' := b.toInt_lt
  rw [Int32.toInt_add, Int.bmod]
  split <;> omega

/-- A clock that strikes together with one that stands at zero and strikes after two seconds is that
clock. -/
theorem strikes_iff {period tick : Int32} :
    (∀ interval, period ≤ tick + interval ↔ 2000 ≤ interval) ↔ period = 2000 ∧ tick = 0 := by
  constructor
  · intro h
    simp only [Int32.le_iff_toInt_le] at h
    have h₁ := h 2000
    have h₂ := h 1999
    have h₃ := h Int32.minValue
    have h₄ := h Int32.maxValue
    have e₁ := toInt_add_cases tick 2000
    have e₂ := toInt_add_cases tick 1999
    have e₃ := toInt_add_cases tick Int32.minValue
    have e₄ := toInt_add_cases tick Int32.maxValue
    have b₁ := (tick + 2000).toInt_lt
    have b₂ := (tick + 1999).le_toInt
    have b₃ := (tick + Int32.minValue).le_toInt
    have b₄ := (tick + Int32.maxValue).toInt_lt
    have b₅ := tick.le_toInt
    have b₆ := tick.toInt_lt
    have b₇ := (tick + 1999).toInt_lt
    have b₈ := (tick + 2000).le_toInt
    have b₉ := (tick + Int32.minValue).toInt_lt
    have b₀ := (tick + Int32.maxValue).le_toInt
    have v₁ : (2000 : Int32).toInt = 2000 := rfl
    have v₂ : (1999 : Int32).toInt = 1999 := rfl
    have v₃ : Int32.minValue.toInt = -2147483648 := rfl
    have v₄ : Int32.maxValue.toInt = 2147483647 := rfl
    rw [v₁] at h₁ e₁
    rw [v₂, v₁] at h₂
    rw [v₂] at e₂
    rw [v₃, v₁] at h₃
    rw [v₃] at e₃
    rw [v₄, v₁] at h₄
    rw [v₄] at e₄
    have htick : tick.toInt = 0 := by omega
    have hperiod : period.toInt = 2000 := by omega
    exact ⟨Int32.toInt_inj.mp (by rw [hperiod, v₁]), Int32.toInt_inj.mp htick⟩
  · rintro ⟨rfl, rfl⟩ interval
    rw [Int32.zero_add]

/-- Periodic damage: the clock of the new condition has to be the old one's, and nobody may have dealt it. -/
theorem period_alike_iff {c d : ConditionDamage} (hc : c.periodDamage ≠ 0) (hd : d.periodDamage = c.periodDamage)
    (htick : d.periodDamageTick = 0) (hinterval : d.tickInterval = 2000) (hanonymous : d.Anonymous game) :
    Alike game.think (.damage c) (.damage d) ↔
      (c.tickInterval = 2000 ∧ c.periodDamageTick = 0) ∧ c.Anonymous game := by
  rw [alike_embed (fun (c : ConditionDamage) (t : game.Call) => c.deal t.toThink) fun c t => rfl, ← strikes_iff]
  constructor
  · intro h
    have hstrikes : ∀ interval, c.tickInterval ≤ c.periodDamageTick + interval ↔ 2000 ≤ interval := by
      intro interval
      have hanswer := congrArg Given.damage (h.answer (game.after interval))
      simp only [ConditionDamage.deal, Creatures.after_interval, ConditionDamage.executeCondition, hd, if_pos hc,
        htick, hinterval, Int32.zero_add] at hanswer
      by_cases hold : c.tickInterval ≤ c.periodDamageTick + interval <;>
        by_cases hnew : 2000 ≤ interval <;> simp [hold, hnew] at hanswer ⊢
    refine ⟨hstrikes, ?_⟩
    have hhit := congrArg Given.hit (h.answer (game.together 2000))
    have hthen := (hstrikes 2000).mpr (by decide)
    have hthen' : (2000 : Int32) ≤ 0 + 2000 := by decide
    simp only [ConditionDamage.deal, ConditionDamage.executeCondition, hd, hc, Creatures.together_interval, htick,
      hinterval, hthen, hthen', ne_eq, not_false_eq_true, if_true, Option.map_some, Option.some.injEq] at hhit
    exact hanonymous.of_hit hhit
  · rintro ⟨h, horigin⟩
    obtain ⟨hc₁, hc₂⟩ := strikes_iff.mp h
    let R (c d : ConditionDamage) : Prop := c.periodDamage ≠ 0 ∧ d.periodDamage = c.periodDamage ∧
      d.periodDamageTick = c.periodDamageTick ∧ d.tickInterval = c.tickInterval ∧ d.Anonymous game ∧
      c.Anonymous game
    refine alike_of_bisim (R := R) ?_ ⟨hc, hd, htick.trans hc₂.symm, hinterval.trans hc₁.symm, hanonymous, horigin⟩
    rintro c d t ⟨hc, hd, ht, hi, hanonymous, horigin⟩
    have hkept := (ConditionDamage.executeCondition_anonymous t.toThink).mpr hanonymous
    have hkept' := (ConditionDamage.executeCondition_anonymous t.toThink).mpr horigin
    simp only [ConditionDamage.deal, horigin.doDamage hanonymous t]
    simp only [ConditionDamage.executeCondition, if_pos hc, ht, hi, hd, R] at hkept hkept' ⊢
    exact ⟨trivial, hc, trivial, trivial, trivial, hkept, hkept'⟩

/-! ## The rounds that come back -/

namespace ConditionDamage

/-- The time of the rounds. -/
def total (c : ConditionDamage) : ℤ := (c.damageList.map fun damageInfo => damageInfo.interval.toInt).sum

/-- The rounds take no negative time, and their time can be counted. -/
def InRange (c : ConditionDamage) : Prop :=
  (∀ damageInfo ∈ c.damageList, 0 ≤ damageInfo.interval.toInt) ∧ c.total < 2 ^ 31

theorem pushBack_ticks {c : ConditionDamage} {damageInfo : IntervalInfo} (hc : 0 ≤ c.ticks.toInt)
    (hinfo : 0 ≤ damageInfo.interval.toInt) (hsum : c.ticks.toInt + damageInfo.interval.toInt < 2 ^ 31) (now : Int64) :
    (c.pushBack damageInfo now).ticks.toInt = c.ticks.toInt + damageInfo.interval.toInt := by
  have hlimit : c.ticks ≠ -1 := by
    rintro h
    rw [h] at hc
    exact absurd hc (by decide)
  rw [pushBack, if_pos hlimit]
  show (c.ticks + damageInfo.interval).toInt = _
  rcases toInt_add_cases c.ticks damageInfo.interval with h | h | h
  · exact h
  · have := (c.ticks + damageInfo.interval).toInt_lt
    omega
  · have := (c.ticks + damageInfo.interval).le_toInt
    omega

theorem foldl_pushBack (l : List IntervalInfo) (c : ConditionDamage) (now : Int64) :
    (l.foldl (fun d damageInfo => d.pushBack damageInfo now) c).damageList = c.damageList ++ l ∧
    ∃ base : Condition, base.conditionType = c.conditionType ∧ base.id = c.id ∧ base.subId = c.subId ∧
      base.isBuff = c.isBuff ∧ base.aggressive = c.aggressive ∧
      l.foldl (fun d damageInfo => d.pushBack damageInfo now) c =
        { c with damageList := c.damageList ++ l, toCondition := base } := by
  induction l generalizing c with
  | nil => exact ⟨(List.append_nil _).symm, c.toCondition, rfl, rfl, rfl, rfl, rfl, by simp⟩
  | cons damageInfo l ih =>
    obtain ⟨hlist, base, htype, hid, hsub, hbuff, haggressive, heq⟩ :=
      ih (c.pushBack damageInfo now)
    have hpushed : ∀ {α : Type} (f : Condition → α), (∀ b ticks now, f (b.setTicks ticks now) = f b) →
        f (c.pushBack damageInfo now).toCondition = f c.toCondition := by
      intro α f hf
      rw [pushBack]
      dsimp only
      split
      · exact hf _ _ _
      · rfl
    rw [List.foldl_cons]
    refine ⟨by rw [hlist, pushBack, List.append_assoc, List.singleton_append], base,
      htype.trans (hpushed (·.conditionType) fun _ _ _ => rfl),
      hid.trans (hpushed (·.id) fun _ _ _ => rfl), hsub.trans (hpushed (·.subId) fun _ _ _ => rfl),
      hbuff.trans (hpushed (·.isBuff) fun _ _ _ => rfl),
      haggressive.trans (hpushed (·.aggressive) fun _ _ _ => rfl), ?_⟩
    rw [heq, pushBack, List.append_assoc, List.singleton_append]

theorem foldl_ticks (l : List IntervalInfo) (hl : ∀ damageInfo ∈ l, 0 ≤ damageInfo.interval.toInt)
    (c : ConditionDamage) (hc : 0 ≤ c.ticks.toInt)
    (hsum : c.ticks.toInt + (l.map fun damageInfo => damageInfo.interval.toInt).sum < 2 ^ 31) (now : Int64) :
    (l.foldl (fun d damageInfo => d.pushBack damageInfo now) c).ticks.toInt =
      c.ticks.toInt + (l.map fun damageInfo => damageInfo.interval.toInt).sum := by
  induction l generalizing c with
  | nil => exact (Int.add_zero _).symm
  | cons damageInfo l ih =>
    obtain ⟨hinfo, hl⟩ := List.forall_mem_cons.mp hl
    rw [List.map_cons, List.sum_cons, ← Int.add_assoc] at hsum ⊢
    have hrest : 0 ≤ (l.map fun damageInfo => damageInfo.interval.toInt).sum :=
      List.sum_nonneg (by simpa using hl)
    have hpush := pushBack_ticks hc hinfo (by omega) now
    rw [List.foldl_cons, ih hl _ (by omega) (by omega), hpush]

end ConditionDamage

/-! ## What is kept -/

namespace AnyCondition

/-- The bounds of what a condition holds. -/
def InRange : AnyCondition → Prop
  | .damage c => c.InRange
  | _ => True

/-- Nothing that `serialize` forgets matters: no special skill is changed, no clock
that is lost would be noticed, periodic damage has the interval of a new
condition and as much time as the rounds give it that come with it, and damage that
is still to be dealt is nobody's. -/
def Kept (game : Creatures) : AnyCondition → Prop
  | .attributes c => ∀ i, c.specialSkills i = 0
  | .regeneration c => Unnoticed c.healthGain c.healthTicks c.internalHealthTicks ∧
    Unnoticed c.manaGain c.manaTicks c.internalManaTicks
  | .soul c => Unnoticed c.soulGain c.soulTicks c.internalSoulTicks
  | .damage c =>
    if c.periodDamage = 0 then c.damageList ≠ [] → c.Anonymous game
    else c.ticks.toInt = c.total ∧ (c.tickInterval = 2000 ∧ c.periodDamageTick = 0) ∧ c.Anonymous game
  | _ => True

end AnyCondition

theorem delta_forgotten (c : IndexedAttributes) :
    c.delta = ConditionAttributes.delta { skills := c.skills, stats := c.stats } ↔ ∀ i, c.specialSkills i = 0 := by
  constructor
  · exact fun h i => congrFun h (.specialSkill i)
  · intro h
    funext v
    cases v with
    | skill i => rfl
    | specialSkill i => exact h i
    | stat i => rfl

/-- A condition that comes back has the same effect exactly if nothing that matters was forgotten.
-/
theorem sameEffect_reload {c : AnyCondition} (hrange : c.InRange) (hpersistent : c.base.isPersistent = true)
    (now : Int64) : SameEffect game c (c.reload now) ↔ c.Kept game := by
  have hlimit : c.base.ticks ≠ -1 := by
    intro h
    rw [Condition.isPersistent, if_pos h] at hpersistent
    cases hpersistent
  cases c with
  | generic c =>
    exact iff_of_true ⟨rfl, rfl, rfl, rfl, rfl, rfl, rfl, idle_alike (fun _ _ => rfl) _ _⟩ trivial
  | attributes c =>
    refine ⟨fun h => (delta_forgotten c).mp (congrArg Held.changes h.held), fun h => ?_⟩
    refine ⟨rfl, rfl, rfl, rfl, rfl, ?_, rfl, idle_alike (fun _ _ => rfl) _ _⟩
    exact congrArg (fun d => ({ changes := d, disableDefense := c.disableDefense } : Held))
      ((delta_forgotten c).mpr h)
  | regeneration c =>
    let new : ConditionRegeneration :=
      { toCondition := c.toCondition.reload, healthTicks := c.healthTicks, healthGain := c.healthGain
        manaTicks := c.manaTicks, manaGain := c.manaGain }
    have halike := @regeneration_alike game c new rfl rfl rfl rfl rfl rfl
    exact ⟨fun h => halike.mp h.alike, fun h => ⟨rfl, rfl, rfl, rfl, rfl, rfl, rfl, halike.mpr h⟩⟩
  | soul c =>
    let new : ConditionSoul :=
      { toCondition := c.toCondition.reload, soulTicks := c.soulTicks, soulGain := c.soulGain }
    have halike := @soul_alike game c new rfl rfl rfl
    exact ⟨fun h => halike.mp h.alike, fun h => ⟨rfl, rfl, rfl, rfl, rfl, rfl, rfl, halike.mpr h⟩⟩
  | damage c =>
    obtain ⟨hnonneg, hsum⟩ := hrange
    let new : ConditionDamage :=
      { toCondition := .new c.id c.conditionType 0 c.isBuff c.subId c.aggressive
        delayed := c.delayed, periodDamage := c.periodDamage }
    have hroom : (0 : ℤ) + c.total < 2 ^ 31 := by rwa [Int.zero_add]
    have hticks := ConditionDamage.foldl_ticks c.damageList hnonneg new le_rfl hroom now
    obtain ⟨-, base, htype, hid, hsub, hbuff, haggressive, heq⟩ :=
      ConditionDamage.foldl_pushBack c.damageList new now
    have hreload : AnyCondition.reload now (.damage c) =
        .damage { new with damageList := c.damageList, toCondition := base } :=
      congrArg AnyCondition.damage heq
    rw [heq] at hticks
    have htotal : base.ticks.toInt = c.total := hticks.trans (Int.zero_add _)
    let back : ConditionDamage := { new with damageList := c.damageList, toCondition := base }
    have hanonymous : back.Anonymous game := ⟨rfl, game.zero⟩
    rw [hreload]
    by_cases hperiod : c.periodDamage = 0
    · have hbase : base.ticks ≠ -1 := by
        intro h
        have hnn : 0 ≤ c.total := List.sum_nonneg (by simpa using hnonneg)
        rw [h] at htotal
        exact absurd (htotal ▸ hnn) (by decide)
      have halike := @rounds_alike_iff game c back hperiod hperiod htype rfl hlimit hbase hanonymous
      rw [AnyCondition.Kept, if_pos hperiod, ← halike]
      refine ⟨fun h => h.alike, fun h => ⟨htype.symm, hid.symm, hsub.symm, hbuff.symm, haggressive.symm, rfl, ?_, h⟩⟩
      simp only [AnyCondition.remaining, hperiod, new, if_true]
    · have halike := @period_alike_iff game c back hperiod rfl rfl rfl hanonymous
      have hremaining : AnyCondition.remaining (.damage c) = AnyCondition.remaining (.damage
            { new with damageList := c.damageList, toCondition := base }) ↔
            c.ticks.toInt = c.total := by
        simp only [AnyCondition.remaining, new, if_neg hperiod, Option.some.injEq, ← htotal, Int32.toInt_inj]
      rw [AnyCondition.Kept, if_neg hperiod, ← halike, ← hremaining]
      exact ⟨fun h => ⟨h.remaining, h.alike⟩, fun h => ⟨htype.symm, hid.symm, hsub.symm, hbuff.symm,
        haggressive.symm, rfl, h.1, h.2⟩⟩
  | speed c =>
    exact iff_of_true ⟨rfl, rfl, rfl, rfl, rfl, rfl, rfl, idle_alike (fun _ _ => rfl) _ _⟩ trivial
  | outfit c =>
    exact iff_of_true ⟨rfl, rfl, rfl, rfl, rfl, rfl, rfl, idle_alike (fun _ _ => rfl) _ _⟩ trivial
  | light c => exact iff_of_true ⟨rfl, rfl, rfl, rfl, rfl, rfl, rfl, light_alike rfl rfl⟩ trivial

/-! ## The conditions of a player -/

/-- A condition that a player may have: `createCondition` chose the class, and the numbers are in
range. -/
structure PlayerCondition where
  condition : AnyCondition
  fits : condition.fits = true
  inRange : condition.InRange

/-- The conditions that are saved. -/
def persistent (l : List PlayerCondition) : List AnyCondition :=
  (l.map PlayerCondition.condition).filter fun c => c.base.isPersistent

/-- What is loaded is what was saved, one by one and with the same effect, exactly if
no saved condition loses anything that matters. -/
theorem conditions_survive (game : Creatures) (l : List PlayerCondition) (now : Int64) :
    List.Forall₂ (SameEffect game) (persistent l)
      (storedConditions now (saveConditions (l.map PlayerCondition.condition))).reverse ↔
    ∀ c ∈ persistent l, c.Kept game := by
  have hfits : ∀ c ∈ l.map PlayerCondition.condition, c.fits = true := by
    intro c hc
    obtain ⟨x, -, rfl⟩ := List.mem_map.mp hc
    exact x.fits
  have hrange : ∀ c ∈ persistent l, c.InRange ∧ c.base.isPersistent = true := by
    intro c hc
    obtain ⟨hmem, hpersistent⟩ := List.mem_filter.mp hc
    obtain ⟨x, -, rfl⟩ := List.mem_map.mp hmem
    exact ⟨x.inRange, hpersistent⟩
  rw [storedConditions_saveConditions _ hfits, List.reverse_reverse, List.forall₂_map_right_iff]
  refine List.forall₂_same.trans ?_
  exact forall₂_congr fun c hc => sameEffect_reload (hrange c hc).1 (hrange c hc).2 now

/-- A game without creatures. -/
def nobody : Creatures := ⟨∅, id⟩

/-- A critical hit chance for five minutes. -/
def criticalHits : PlayerCondition where
  condition := .attributes { ticks := 300000, specialSkills := fun i => if i = 0 then 50 else 0 }
  fits := by decide
  inRange := trivial

theorem special_skills_are_lost : ¬ List.Forall₂ (SameEffect nobody) (persistent [criticalHits])
    (storedConditions 0 (saveConditions ([criticalHits].map PlayerCondition.condition))).reverse := by
  have hkept : ¬ criticalHits.condition.Kept nobody := fun h => absurd (h 0) (by decide)
  have hsaved : persistent [criticalHits] = [criticalHits.condition] := rfl
  rw [storedConditions_saveConditions _ (by simp [criticalHits.fits]), List.reverse_reverse]
  show ¬ List.Forall₂ (SameEffect nobody) [criticalHits.condition] [criticalHits.condition.reload 0]
  rintro (_ | ⟨h, -⟩)
  exact hkept ((sameEffect_reload criticalHits.inRange rfl 0).mp h)

end ForgottenServer.Conditions
