import ForgottenServer.Conditions.Serialize
import Mathlib.Algebra.BigOperators.Group.List.Basic

/-! # Damage in rounds

`ConditionDamage` from its rounds being added to the last one dealt. A round is dealt
in the first think at or after its interval, but the condition ends by the clock, at
the sum of the intervals. The clock of a run is a number of milliseconds. -/
namespace ForgottenServer.Conditions

/-- `EVENT_CREATURE_THINK_INTERVAL`. -/
def thinkInterval : Int32 := 1000

namespace ConditionDamage

/-- `addDamage`, and whether the rounds were added. -/
def addDamage (c : ConditionDamage) (rounds time value : Int32) (now : Int64) : ConditionDamage × Bool :=
  let time := if time < thinkInterval then thinkInterval else time
  if rounds = -1 then ({ c with periodDamage := value, tickInterval := time, ticks := -1 }, true)
  else if 0 < c.periodDamage then (c, false)
  else
    let damageInfo : IntervalInfo := { timeLeft := time, value, interval := time }
    ((List.replicate rounds.toInt.toNat damageInfo).foldl (fun c info => c.pushBack info now) c, true)

/-- `init`; without rounds they are made of the rolled values. -/
def init (c : ConditionDamage) (rolled : List Int32) (now : Int64) : ConditionDamage × Bool :=
  if c.periodDamage ≠ 0 then (c, true)
  else if c.damageList ≠ [] then (c, true)
  else
    let c := { c with toCondition := c.toCondition.setTicks 0 now }
    let c := rolled.foldl (fun c value => (c.addDamage 1 c.tickInterval (-value) now).1) c
    (c, c.damageList ≠ [])

/-- `startCondition`; `hit` is the answer of `doDamage` for the first damage. -/
def startCondition (c : ConditionDamage) (hit : Bool) (rolled : List Int32) (now : Int64) : Option ConditionDamage :=
  let c := { c with toCondition := c.toCondition.startCondition now }
  if !c.delayed && !hit then none
  else if (c.init rolled now).2 then some (c.init rolled now).1 else none

/-- A think away from any field. -/
def think (c : ConditionDamage) : ConditionDamage × Given := c.executeCondition { interval := thinkInterval }

/-- What `n` thinks deal, the first of them at `now`, unless the condition ends. -/
def dealt : ℕ → ConditionDamage → ℤ → List Int32
  | 0, _, _ => []
  | n + 1, c, now =>
    c.think.2.damage.toList ++
      if c.think.1.ticks = -1 ∨ now ≤ c.think.1.endTime.toInt then dealt n c.think.1 (now + 1000) else []

/-- What is dealt in all. -/
def Delivers (c : ConditionDamage) (now : ℤ) (values : List Int32) : Prop :=
  ∃ n₀, ∀ n, n₀ ≤ n → c.dealt n now = values

end ConditionDamage

/-- The thinks that a round takes. -/
def IntervalInfo.thinks (info : IntervalInfo) : ℕ := (info.timeLeft.toInt.toNat + 999) / 1000

def thinks (l : List IntervalInfo) : ℕ := (l.map IntervalInfo.thinks).sum

namespace ConditionDamage

/-! ## One think -/

/-- It deals its rounds one after another, each in a think to come. -/
structure Ready (c : ConditionDamage) : Prop where
  rounds : c.periodDamage = 0
  limited : c.ticks ≠ -1
  positive : ∀ info ∈ c.damageList, 1 ≤ info.timeLeft.toInt

variable {c : ConditionDamage} {info : IntervalInfo} {rest : List IntervalInfo} {now : ℤ}

theorem toInt_sub_thinkInterval {n : Int32} (h : 1 ≤ n.toInt) : (n - thinkInterval).toInt = n.toInt - 1000 := by
  have hlt := n.toInt_lt
  rw [Int32.toInt_sub]
  exact Int.bmod_eq_of_le (by change _ ≤ n.toInt - 1000; omega) (by change n.toInt - 1000 < _; omega)

theorem think_nil (h : c.Ready) (hlist : c.damageList = []) :
    c.think.2.damage = none ∧ c.think.1.Ready ∧ c.think.1.damageList = [] := by
  have hthink : c.think = ({ c with toCondition := c.toCondition.executeCondition thinkInterval }, {}) := by
    simp [think, executeCondition, h.rounds, hlist]
  rw [hthink]
  exact ⟨rfl, ⟨h.rounds, Condition.executeCondition_limited h.limited _, h.positive⟩, hlist⟩

theorem executeCondition_endTime (c : Condition) (interval : Int32) :
    (c.executeCondition interval).endTime = c.endTime := by
  unfold Condition.executeCondition
  split <;> rfl

theorem think_cons (h : c.Ready) (hlist : c.damageList = info :: rest) :
    c.think.1.Ready ∧ c.think.1.endTime = c.endTime ∧ ((1000 < info.timeLeft.toInt ∧ c.think.2.damage = none ∧
        c.think.1.damageList = { info with timeLeft := info.timeLeft - thinkInterval } :: rest) ∨
       (info.timeLeft.toInt ≤ 1000 ∧ c.think.2.damage = some info.value ∧ c.think.1.damageList = rest)) := by
  have hpos := h.positive info (hlist ▸ List.mem_cons_self)
  have hsub := toInt_sub_thinkInterval hpos
  have hwaits : 0 < info.timeLeft - thinkInterval ↔ 1000 < info.timeLeft.toInt := by
    rw [Int32.lt_iff_toInt_lt, hsub]
    change 0 < _ ↔ _
    omega
  have hrest : ∀ i ∈ rest, 1 ≤ i.timeLeft.toInt := fun i hi => h.positive i (hlist ▸ List.mem_cons_of_mem _ hi)
  have hlimited := Condition.executeCondition_limited h.limited thinkInterval
  have hend := executeCondition_endTime c.toCondition thinkInterval
  by_cases hlong : 1000 < info.timeLeft.toInt
  · have hthink : c.think = ({ c with
        toCondition := c.toCondition.executeCondition thinkInterval
        damageList := { info with timeLeft := info.timeLeft - thinkInterval } :: rest }, { damage := none }) := by
      simp [think, executeCondition, onTickCondition, h.rounds, hlist, h.limited, hwaits.mpr hlong]
    rw [hthink]
    refine ⟨⟨h.rounds, hlimited, fun i hi => ?_⟩, hend, .inl ⟨hlong, rfl, rfl⟩⟩
    rcases List.mem_cons.mp hi with rfl | hi
    · change 1 ≤ (info.timeLeft - thinkInterval).toInt
      omega
    · exact hrest i hi
  · have hthink : c.think = ({ c with
        toCondition := c.toCondition.executeCondition thinkInterval, damageList := rest },
        { damage := some info.value }) := by
      simp [think, executeCondition, onTickCondition, h.rounds, hlist, h.limited, mt hwaits.mp hlong]
    rw [hthink]
    exact ⟨⟨h.rounds, hlimited, hrest⟩, hend, .inr ⟨not_lt.mp hlong, rfl, rfl⟩⟩

/-! ## All thinks -/

theorem delivers_iff_think {values : List Int32} : c.Delivers now values ↔
    ∃ later, values = c.think.2.damage.toList ++ later ∧
      if c.think.1.ticks = -1 ∨ now ≤ c.think.1.endTime.toInt then c.think.1.Delivers (now + 1000) later
      else later = [] := by
  constructor
  · intro ⟨n₀, h⟩
    have hfirst := h (n₀ + 1) (by omega)
    rw [dealt] at hfirst
    refine ⟨_, hfirst.symm, ?_⟩
    split
    · refine ⟨n₀, fun n hn => ?_⟩
      rename_i hgoes
      have hmore := (h (n + 1) (by omega)).trans hfirst.symm
      rw [dealt, if_pos hgoes, if_pos hgoes] at hmore
      exact List.append_cancel_left hmore
    · rfl
  · intro ⟨later, hvalues, hlater⟩
    split at hlater
    · obtain ⟨n₀, h⟩ := hlater
      rename_i hgoes
      refine ⟨n₀ + 1, fun n hn => ?_⟩
      obtain ⟨m, rfl⟩ : ∃ m, n = m + 1 := ⟨n - 1, by omega⟩
      rw [dealt, if_pos hgoes, h m (by omega), hvalues]
    · rename_i hends
      refine ⟨1, fun n hn => ?_⟩
      obtain ⟨m, rfl⟩ : ∃ m, n = m + 1 := ⟨n - 1, by omega⟩
      rw [dealt, if_neg hends, hvalues, hlater]

theorem delivers_nil (h : c.Ready) (hlist : c.damageList = []) (now : ℤ) : c.Delivers now [] := by
  have hall : ∀ n (c : ConditionDamage) (now : ℤ), c.Ready → c.damageList = [] → c.dealt n now = [] := by
    intro n
    induction n with
    | zero => exact fun _ _ _ _ => rfl
    | succ n ih =>
      intro c now h hlist
      obtain ⟨hnone, hready, hlist'⟩ := think_nil h hlist
      rw [dealt, hnone, ih _ _ hready hlist', ite_self]
      rfl
  exact ⟨0, fun n _ => hall n c now h hlist⟩

theorem thinks_cons (info : IntervalInfo) (rest : List IntervalInfo) :
    thinks (info :: rest) = info.thinks + thinks rest := by
  rw [thinks, List.map_cons, List.sum_cons, thinks]

theorem thinks_eq_zero_iff {l : List IntervalInfo} (h : ∀ info ∈ l, 1 ≤ info.timeLeft.toInt) :
    thinks l = 0 ↔ l = [] := by
  cases l with
  | nil => exact iff_of_true rfl rfl
  | cons info rest =>
    have hpos := h info List.mem_cons_self
    refine iff_of_false ?_ (List.cons_ne_nil _ _)
    rw [thinks_cons, IntervalInfo.thinks]
    omega

/-- All rounds are dealt unless the clock runs out before the last think but one. -/
theorem delivers_iff (c : ConditionDamage) (now : ℤ) (h : c.Ready) :
    c.Delivers now (c.damageList.map IntervalInfo.value) ↔
      thinks c.damageList ≤ 1 ∨ now + 1000 * (thinks c.damageList : ℤ) ≤ c.endTime.toInt + 2000 := by
  induction hn : thinks c.damageList generalizing c now with
  | zero =>
    have hlist := (thinks_eq_zero_iff h.positive).mp hn
    rw [hlist]
    exact iff_of_true (delivers_nil h hlist now) (.inl (Nat.zero_le 1))
  | succ n ih =>
    cases hlist : c.damageList with
    | nil =>
      rw [hlist] at hn
      cases hn
    | cons info rest =>
      obtain ⟨hready, hend, hround⟩ := think_cons h hlist
      rw [hlist, thinks_cons, IntervalInfo.thinks] at hn
      have hpos := h.positive info (hlist ▸ List.mem_cons_self)
      rw [delivers_iff_think]
      simp only [hready.limited, false_or, hend]
      rcases hround with ⟨hlong, hnone, hnext⟩ | ⟨hshort, hsome, hnext⟩
      · have hless : thinks c.think.1.damageList = n := by
          rw [hnext, thinks_cons, IntervalInfo.thinks, toInt_sub_thinkInterval hpos]
          omega
        have hvalues : c.think.1.damageList.map IntervalInfo.value = (info :: rest).map IntervalInfo.value := by
          rw [hnext]
          rfl
        have hih := ih c.think.1 (now + 1000) hready hless
        rw [hvalues, hend] at hih
        rw [hnone]
        by_cases hgoes : now ≤ c.endTime.toInt
        · simp only [if_pos hgoes, Option.toList_none, List.nil_append, exists_eq_left']
          rw [hih]
          omega
        · simp only [if_neg hgoes, Option.toList_none, List.nil_append, exists_eq_left', List.map_cons]
          refine iff_of_false (List.cons_ne_nil _ _) ?_
          omega
      · have hless : thinks c.think.1.damageList = n := by
          rw [hnext]
          omega
        have hih := ih c.think.1 (now + 1000) hready hless
        rw [hnext, hend] at hih
        have hempty := thinks_eq_zero_iff (l := rest) fun i hi => hready.positive i (hnext ▸ hi)
        rw [hsome]
        simp only [Option.toList_some, List.map_cons, List.singleton_append, List.cons.injEq, true_and,
          exists_eq_left']
        by_cases hgoes : now ≤ c.endTime.toInt
        · rw [if_pos hgoes, hih]
          omega
        · rw [if_neg hgoes, List.map_eq_nil_iff, ← hempty]
          rw [hnext] at hless
          omega

/-! ## Conditions without an end -/

/-- Its first round comes back for ever. -/
structure Endless (c : ConditionDamage) (info : IntervalInfo) (rest : List IntervalInfo) : Prop where
  rounds : c.periodDamage = 0
  unlimited : c.ticks = -1
  list : c.damageList = info :: rest
  positive : 1 ≤ info.timeLeft.toInt
  again : 1 ≤ info.interval.toInt

theorem Endless.think (h : c.Endless info rest) : c.think.1.ticks = -1 ∧
    ((1000 < info.timeLeft.toInt ∧ c.think.2.damage = none ∧
      c.think.1.Endless { info with timeLeft := info.timeLeft - thinkInterval } rest) ∨
     (∃ info', c.think.2.damage = some info.value ∧ c.think.1.Endless info' rest)) := by
  have hsub := toInt_sub_thinkInterval h.positive
  have hwaits : 0 < info.timeLeft - thinkInterval ↔ 1000 < info.timeLeft.toInt := by
    rw [Int32.lt_iff_toInt_lt, hsub]
    change 0 < _ ↔ _
    omega
  have hbase : ({ c.toCondition with ticks := -1 } : Condition).executeCondition 0 = c.toCondition := by
    rw [← h.unlimited]
    exact if_pos h.unlimited
  by_cases hlong : 1000 < info.timeLeft.toInt
  · have hthink : c.think = ({ c with
        damageList := { info with timeLeft := info.timeLeft - thinkInterval } :: rest }, { damage := none }) := by
      simp [ConditionDamage.think, executeCondition, onTickCondition, h.rounds, h.list, h.unlimited, hwaits.mpr hlong]
      exact hbase
    have hlater : 1 ≤ (info.timeLeft - thinkInterval).toInt := by omega
    rw [hthink]
    exact ⟨h.unlimited, .inl ⟨hlong, rfl, h.rounds, h.unlimited, rfl, hlater, h.again⟩⟩
  · have hthink : c.think = ({ c with
        damageList := { info with timeLeft := info.interval } :: rest }, { damage := some info.value }) := by
      simp [ConditionDamage.think, executeCondition, onTickCondition, h.rounds, h.list, h.unlimited,
        mt hwaits.mp hlong]
      exact hbase
    rw [hthink]
    exact ⟨h.unlimited, .inr ⟨_, rfl, h.rounds, h.unlimited, rfl, h.again, h.again⟩⟩

theorem Endless.deals (h : c.Endless info rest) {values : List Int32} (hdelivers : c.Delivers now values) :
    ∃ (v : Int32) (later : List Int32) (c' : ConditionDamage) (now' : ℤ) (info' : IntervalInfo),
      values = v :: later ∧ c'.Endless info' rest ∧ c'.Delivers now' later := by
  induction hn : info.timeLeft.toInt.toNat using Nat.strong_induction_on generalizing c info now with
  | _ n ih =>
    obtain ⟨hunlimited, hround⟩ := h.think
    obtain ⟨later, hvalues, hlater⟩ := delivers_iff_think.mp hdelivers
    rw [if_pos (.inl hunlimited)] at hlater
    rcases hround with ⟨hlong, hnone, hnext⟩ | ⟨info', hsome, hnext⟩
    · rw [hnone] at hvalues
      obtain rfl : values = later := hvalues
      refine ih _ ?_ hnext hlater rfl
      change (_ - _ : Int32).toInt.toNat < n
      rw [toInt_sub_thinkInterval h.positive]
      omega
    · rw [hsome] at hvalues
      exact ⟨info.value, later, _, _, info', hvalues, hnext, hlater⟩

theorem Endless.not_delivers (h : c.Endless info rest) (values : List Int32) : ¬c.Delivers now values := by
  induction values generalizing c info now with
  | nil =>
    intro hdelivers
    obtain ⟨v, later, _, _, _, hnil, -⟩ := h.deals hdelivers
    cases hnil
  | cons v values ih =>
    intro hdelivers
    obtain ⟨_, later, c', now', info', heq, hnext, hlater⟩ := h.deals hdelivers
    obtain ⟨-, rfl⟩ := List.cons.inj heq
    exact ih hnext hlater

/-! ## Rounds that were added -/

/-- A call of `addDamage` and when it is made. -/
structure Call where
  rounds : Int32
  time : Int32
  value : Int32
  now : Int64

def added (c : ConditionDamage) (calls : List Call) : ConditionDamage :=
  calls.foldl (fun c call => (c.addDamage call.rounds call.time call.value call.now).1) c

/-- The intervals in all. -/
def intervals (l : List IntervalInfo) : ℤ := (l.map fun info => info.interval.toInt).sum

theorem intervals_le (l : List IntervalInfo)
    (h : ∀ info ∈ l, info.timeLeft = info.interval ∧ 1000 ≤ info.interval.toInt) :
    intervals l ≤ 1000 * (thinks l : ℤ) ∧ 1000 * (l.length : ℤ) ≤ intervals l := by
  induction l with
  | nil => exact ⟨le_rfl, le_rfl⟩
  | cons info rest ih =>
    obtain ⟨hle, hge⟩ := ih fun i hi => h i (List.mem_cons_of_mem info hi)
    obtain ⟨hfresh, hlong⟩ := h info List.mem_cons_self
    have htotal : intervals (info :: rest) = info.interval.toInt + intervals rest := rfl
    rw [thinks_cons, htotal, IntervalInfo.thinks, hfresh, List.length_cons]
    push_cast
    omega

/-- The rounds are new, and the clock runs for as long as they take, from some time
between `a` and `b` on; 32 bits may be too few for the number. -/
structure Built (a b : ℤ) (c : ConditionDamage) : Prop where
  rounds : c.periodDamage = 0
  fresh : ∀ info ∈ c.damageList, info.timeLeft = info.interval ∧ 1000 ≤ info.interval.toInt
  ticks : c.ticks ≠ -1 → c.ticks.toInt = (intervals c.damageList).bmod (2 ^ 32)
  unlimited : c.ticks = -1 → 2 ^ 31 ≤ intervals c.damageList
  endTime : c.damageList = [] ∨ c.ticks = -1 ∨ ∃ t, a ≤ t ∧ t ≤ b ∧ c.endTime.toInt = c.ticks.toInt + t

variable {a b : ℤ}

theorem toInt_endTime (ticks : Int32) {now : Int64} (hpos : 0 ≤ now.toInt) (hlt : now.toInt < 2 ^ 62) :
    (ticks.toInt64 + now).toInt = ticks.toInt + now.toInt := by
  have h := ticks.toInt_lt
  have h' := ticks.le_toInt
  rw [Int64.toInt_add, Int32.toInt_toInt64]
  exact Int.bmod_eq_of_le (by omega) (by omega)

theorem intervals_append (l : List IntervalInfo) (info : IntervalInfo) :
    intervals (l ++ [info]) = intervals l + info.interval.toInt := by
  simp [intervals]

theorem Built.pushBack (h : Built a b c) (hfresh : info.timeLeft = info.interval ∧ 1000 ≤ info.interval.toInt)
    {now : Int64} (ha : a ≤ now.toInt) (hb : now.toInt ≤ b) (hpos : 0 ≤ now.toInt) (hlt : now.toInt < 2 ^ 62) :
    Built a b (c.pushBack info now) := by
  have hlist : ∀ i ∈ c.damageList ++ [info], i.timeLeft = i.interval ∧ 1000 ≤ i.interval.toInt := by
    intro i hi
    rcases List.mem_append.mp hi with hi | hi
    · exact h.fresh i hi
    · rw [List.mem_singleton.mp hi]
      exact hfresh
  unfold ConditionDamage.pushBack
  by_cases hticks : c.ticks = -1
  · rw [if_neg (not_not.mpr hticks)]
    refine ⟨h.rounds, hlist, fun hne => absurd hticks hne, fun _ => ?_, .inr (.inl hticks)⟩
    have hold := h.unlimited hticks
    change 2 ^ 31 ≤ intervals (c.damageList ++ [info])
    rw [intervals_append]
    omega
  · rw [if_pos hticks]
    have hsum : (c.ticks + info.interval).toInt = (intervals (c.damageList ++ [info])).bmod (2 ^ 32) := by
      rw [Int32.toInt_add, h.ticks hticks, intervals_append]
      exact Int.bmod_add_bmod
    refine ⟨h.rounds, hlist, fun _ => hsum, fun hone => ?_, .inr (.inr ⟨now.toInt, ha, hb, toInt_endTime _ hpos hlt⟩)⟩
    change c.ticks + info.interval = -1 at hone
    change 2 ^ 31 ≤ intervals (c.damageList ++ [info])
    by_contra hsmall
    have hpositive := (intervals_le _ hlist).2
    rw [hone, Int.bmod_eq_of_le (by omega) (by omega)] at hsum
    change -1 = _ at hsum
    omega

theorem Built.addDamage (h : Built a b c) {rounds time value : Int32} (hrounds : rounds ≠ -1) {now : Int64}
    (ha : a ≤ now.toInt) (hb : now.toInt ≤ b) (hpos : 0 ≤ now.toInt) (hlt : now.toInt < 2 ^ 62) :
    Built a b (c.addDamage rounds time value now).1 := by
  unfold ConditionDamage.addDamage
  dsimp only
  rw [if_neg hrounds, if_neg (by rw [h.rounds]; decide)]
  have hclamped : 1000 ≤ (if time < thinkInterval then thinkInterval else time).toInt := by
    split
    · decide
    · rename_i hlong
      exact Int32.le_iff_toInt_le.mp (Int32.not_lt.mp hlong)
  generalize (if time < thinkInterval then thinkInterval else time) = time at hclamped ⊢
  dsimp only
  generalize rounds.toInt.toNat = n
  induction n generalizing c with
  | zero => exact h
  | succ n ih => exact ih (h.pushBack ⟨rfl, hclamped⟩ ha hb hpos hlt)

theorem Built.added (h : Built a b c) {calls : List Call} (hrounds : ∀ call ∈ calls, call.rounds ≠ -1)
    (hnow : ∀ call ∈ calls, a ≤ call.now.toInt ∧ call.now.toInt ≤ b) (ha : 0 ≤ a) (hb : b < 2 ^ 62) :
    Built a b (c.added calls) := by
  induction calls generalizing c with
  | nil => exact h
  | cons call calls ih =>
    obtain ⟨hlo, hhi⟩ := hnow call List.mem_cons_self
    exact ih (h.addDamage (hrounds call List.mem_cons_self) hlo hhi (by omega) (by omega))
      (fun call' hcall => hrounds call' (List.mem_cons_of_mem call hcall))
      fun call' hcall => hnow call' (List.mem_cons_of_mem call hcall)

/-! ## Starting -/

/-- A started condition: what is built, and the clock that a limited one has. -/
structure Started (now : ℤ) (c : ConditionDamage) : Prop where
  built : Built 0 now c
  list : c.damageList ≠ []
  clock : 0 < c.ticks.toInt → c.endTime.toInt = c.ticks.toInt + now

theorem Built.rolled {now : Int64} (h : Built now.toInt now.toInt c) (hpos : 0 ≤ now.toInt)
    (hlt : now.toInt < 2 ^ 62) (rolled : List Int32) :
    Built now.toInt now.toInt (rolled.foldl (fun c value => (c.addDamage 1 c.tickInterval (-value) now).1) c) := by
  induction rolled generalizing c with
  | nil => exact h
  | cons value rolled ih => exact ih (h.addDamage (by decide) le_rfl le_rfl hpos hlt)

theorem init_started {now : Int64} (h : Built 0 now.toInt c) (hlist : c.damageList = []) (hpos : 0 ≤ now.toInt)
    (hlt : now.toInt < 2 ^ 62) {rolled : List Int32} (hinit : (c.init rolled now).2 = true) :
    Started now.toInt (c.init rolled now).1 := by
  have hempty : Built now.toInt now.toInt { c with toCondition := c.toCondition.setTicks 0 now } :=
    ⟨h.rounds, h.fresh, fun _ => by simp [hlist, intervals, Condition.setTicks],
      fun hone => absurd hone (by decide : ¬(0 : Int32) = -1), .inl hlist⟩
  have hend := hempty.rolled hpos hlt rolled
  unfold init at hinit ⊢
  rw [if_neg (not_not.mpr h.rounds), if_neg (not_not.mpr hlist)] at hinit ⊢
  have hsome := of_decide_eq_true hinit
  refine ⟨⟨hend.rounds, hend.fresh, hend.ticks, hend.unlimited, ?_⟩, hsome, fun hticks => ?_⟩
  · rcases hend.endTime with hnil | hone | ⟨t, hlo, hhi, heq⟩
    · exact .inl hnil
    · exact .inr (.inl hone)
    · exact .inr (.inr ⟨t, hpos.trans hlo, hhi, heq⟩)
  · rcases hend.endTime with hnil | hone | ⟨t, hlo, hhi, heq⟩
    · exact absurd hnil hsome
    · rw [hone] at hticks
      exact absurd hticks (by decide)
    · rw [heq, le_antisymm hhi hlo]

theorem startCondition_started {now : Int64} {hit : Bool} {rolled : List Int32} {c' : ConditionDamage}
    (h : Built 0 now.toInt c) (hpos : 0 ≤ now.toInt) (hlt : now.toInt < 2 ^ 62)
    (hstart : c' ∈ c.startCondition hit rolled now) :
    Started now.toInt c' ∧ (c.damageList ≠ [] → c'.damageList = c.damageList) := by
  have hsign : 0 < c.ticks ↔ 0 < c.ticks.toInt := Int32.lt_iff_toInt_lt
  have hclock : 0 < c.ticks.toInt → (c.toCondition.startCondition now).endTime.toInt = c.ticks.toInt + now.toInt := by
    intro hticks
    rw [Condition.startCondition, if_pos (hsign.mpr hticks)]
    exact toInt_endTime _ hpos hlt
  have hsame : (c.toCondition.startCondition now).ticks = c.ticks := by
    unfold Condition.startCondition
    split <;> rfl
  have hbuilt : Built 0 now.toInt { c with toCondition := c.toCondition.startCondition now } := by
    refine ⟨h.rounds, h.fresh, fun hne => ?_, fun hone => h.unlimited (hsame ▸ hone), ?_⟩
    · change (c.toCondition.startCondition now).ticks.toInt = _
      rw [hsame]
      exact h.ticks (hsame ▸ hne)
    · by_cases hticks : 0 < c.ticks.toInt
      · refine .inr (.inr ⟨now.toInt, hpos, le_rfl, ?_⟩)
        change _ = (c.toCondition.startCondition now).ticks.toInt + _
        rw [hsame]
        exact hclock hticks
      · have hold : c.toCondition.startCondition now = c.toCondition :=
          if_neg (mt hsign.mp hticks)
        rw [hold]
        exact h.endTime
  unfold startCondition at hstart
  dsimp only at hstart
  split at hstart
  · cases hstart
  · split at hstart
    · rename_i hinit
      obtain rfl := Option.some.inj hstart
      by_cases hlist : c.damageList = []
      · exact ⟨init_started hbuilt hlist hpos hlt hinit, fun hne => absurd hlist hne⟩
      · have hkept : ∀ c' : ConditionDamage, c'.periodDamage = 0 → c'.damageList ≠ [] →
            c'.init rolled now = (c', true) := by
          intro c' hrounds hsome
          rw [init, if_neg (not_not.mpr hrounds), if_pos hsome]
        rw [hkept _ hbuilt.rounds hlist]
        refine ⟨⟨hbuilt, hlist, fun hticks => ?_⟩, fun _ => rfl⟩
        change 0 < (c.toCondition.startCondition now).ticks.toInt at hticks
        change _ = (c.toCondition.startCondition now).ticks.toInt + _
        rw [hsame] at hticks ⊢
        exact hclock hticks
    · cases hstart

/-- The rounds of a condition that starts, added or rolled, are all dealt in order
exactly if the clock is set, and is at least at the last think but one. -/
theorem rounds_delivered_iff (c₀ : ConditionDamage) (hperiod : c₀.periodDamage = 0) (hnone : c₀.damageList = [])
    (hticks : c₀.ticks = 0) (calls : List Call) (hrounds : ∀ call ∈ calls, call.rounds ≠ -1) (now : Int64)
    (hclock : 0 ≤ now.toInt ∧ now.toInt < 2 ^ 62)
    (hbefore : ∀ call ∈ calls, 0 ≤ call.now.toInt ∧ call.now.toInt ≤ now.toInt) (hit : Bool) (rolled : List Int32)
    (c : ConditionDamage) (hstart : c ∈ (c₀.added calls).startCondition hit rolled now) (first : ℕ) :
    ((c₀.added calls).damageList ≠ [] → c.damageList = (c₀.added calls).damageList) ∧
    (intervals c.damageList < 2 ^ 31 → c.ticks.toInt = intervals c.damageList) ∧
    (c.Delivers (now.toInt + first) (c.damageList.map IntervalInfo.value) ↔ c.ticks ≠ -1 ∧ (thinks c.damageList ≤ 1 ∨
        first + 1000 * (thinks c.damageList : ℤ) ≤ c.ticks.toInt + 2000)) := by
  have hnew : Built 0 now.toInt c₀ :=
    ⟨hperiod, fun info hinfo => by simp [hnone] at hinfo, fun _ => by simp [hticks, hnone, intervals],
      fun hone => by simp [hticks] at hone, .inl hnone⟩
  have hadded := hnew.added hrounds hbefore le_rfl hclock.2
  obtain ⟨hstarted, hsame⟩ := startCondition_started hadded hclock.1 hclock.2 hstart
  obtain ⟨hle, hge⟩ := intervals_le c.damageList hstarted.built.fresh
  have hsome := List.length_pos_iff.mpr hstarted.list
  have hsmall : intervals c.damageList < 2 ^ 31 → c.ticks.toInt = intervals c.damageList := by
    intro hlt
    have hlimited : c.ticks ≠ -1 := fun hone => absurd (hstarted.built.unlimited hone) (not_le.mpr hlt)
    rw [hstarted.built.ticks hlimited]
    exact Int.bmod_eq_of_le (by omega) (by omega)
  refine ⟨hsame, hsmall, ?_⟩
  by_cases hlimited : c.ticks = -1
  · obtain ⟨info, rest, hlist⟩ := List.exists_cons_of_ne_nil hstarted.list
    obtain ⟨hfresh, hlong⟩ := hstarted.built.fresh info (hlist ▸ List.mem_cons_self)
    have hendless : c.Endless info rest :=
      ⟨hstarted.built.rounds, hlimited, hlist, by rw [hfresh]; omega, by omega⟩
    exact iff_of_false (hendless.not_delivers _) fun h => h.1 hlimited
  · have hready : c.Ready := by
      refine ⟨hstarted.built.rounds, hlimited, fun info hinfo => ?_⟩
      obtain ⟨hfresh, hlong⟩ := hstarted.built.fresh info hinfo
      rw [hfresh]
      omega
    rw [delivers_iff c _ hready, and_iff_right hlimited]
    by_cases hpositive : 0 < c.ticks.toInt
    · rw [hstarted.clock hpositive]
      omega
    · -- the number has overflown, so that there are many thinks and no time
      have hlarge : ¬intervals c.damageList < 2 ^ 31 := by
        intro hlt
        have := hsmall hlt
        omega
      rcases hstarted.built.endTime with hnil | hone | ⟨t, -, hle', heq⟩
      · exact absurd hnil hstarted.list
      · exact absurd hone hlimited
      · omega

/-- A fire that has no rounds yet. -/
def fire : ConditionDamage := { toCondition := .new idCombat .fire 0 false 0 true }

theorem fire_delivered : ∃ c ∈ (fire.added [⟨5, 3000, -25, 0⟩, ⟨1, 5000, -666, 0⟩]).startCondition true [] 0,
    (c.Delivers (0 + 700) (c.damageList.map IntervalInfo.value) ↔ c.ticks ≠ -1 ∧ (thinks c.damageList ≤ 1 ∨
      (700 : ℕ) + 1000 * (thinks c.damageList : ℤ) ≤ c.ticks.toInt + 2000)) :=
  ⟨_, rfl, (rounds_delivered_iff fire rfl rfl rfl [⟨5, 3000, -25, 0⟩, ⟨1, 5000, -666, 0⟩] (by decide) 0
    (by decide) (by decide) true [] _ rfl 700).2.2⟩

/-- Two rounds at intervals of 1100 ms, the first think a second after the start. -/
theorem second_round_lost : ∃ c ∈ (fire.added [⟨2, 1100, -10, 0⟩]).startCondition true [] 0,
    c.damageList.map IntervalInfo.value = [-10, -10] ∧ ¬c.Delivers 1000 [-10, -10] :=
  ⟨_, rfl, rfl, fun h => absurd ((delivers_iff _ 1000 ⟨rfl, by decide, by decide⟩).mp h) (by decide)⟩

end ConditionDamage
end ForgottenServer.Conditions
