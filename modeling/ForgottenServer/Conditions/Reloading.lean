import ForgottenServer.Conditions.Serialize

/-! # Conditions that are saved and loaded

Each attribute that a class writes is read by one round of the loop of
`unserialize`. What comes back is the condition without the fields that are not
written, and so it is for all the conditions of a player. -/
namespace ForgottenServer.Conditions
open ForgottenServer.Lib.Wire

variable {now : Int64}

/-! ## What comes back -/

/-- The constructor, with what stands in front of a saved condition. -/
def Condition.reload (c : Condition) : Condition :=
  .new c.id c.conditionType c.ticks c.isBuff c.subId c.aggressive

def AnyCondition.reload (now : Int64) : AnyCondition → AnyCondition
  | .generic c => .generic c.reload
  | .attributes c => .attributes
    { toCondition := c.toCondition.reload, skills := c.skills, stats := c.stats
      disableDefense := c.disableDefense, currentSkill := 7, currentStat := 4 }
  | .regeneration c => .regeneration
    { toCondition := c.toCondition.reload, healthTicks := c.healthTicks, healthGain := c.healthGain
      manaTicks := c.manaTicks, manaGain := c.manaGain }
  | .soul c => .soul { toCondition := c.toCondition.reload, soulTicks := c.soulTicks, soulGain := c.soulGain }
  | .damage c => .damage <| c.damageList.foldl (fun d damageInfo => d.pushBack damageInfo now)
    { toCondition := .new c.id c.conditionType 0 c.isBuff c.subId c.aggressive
      delayed := c.delayed, periodDamage := c.periodDamage }
  | .speed c => .speed
    { toCondition := c.toCondition.reload, speedDelta := c.speedDelta, mina := c.mina, minb := c.minb
      maxa := c.maxa, maxb := c.maxb }
  | .outfit c => .outfit { toCondition := c.toCondition.reload, outfit := c.outfit }
  | .light c => .light
    { toCondition := c.toCondition.reload, lightInfo := c.lightInfo
      internalLightTicks := c.internalLightTicks, lightChangeInterval := c.lightChangeInterval }

/-- The class is that of the type. -/
def AnyCondition.fits : AnyCondition → Bool
  | .generic c => c.conditionType ∈
    [.invisible, .spellCooldown, .spellGroupCooldown, .infight, .drunk, .exhaustWeapon, .exhaustCombat,
      .exhaustHeal, .muted, .channelMutedTicks, .yellTicks, .pacified, .manaShield]
  | .attributes c => c.conditionType = .attributes
  | .regeneration c => c.conditionType = .regeneration
  | .soul c => c.conditionType = .soul
  | .damage c => c.conditionType.isDamage
  | .speed c => c.conditionType = .haste || c.conditionType = .paralyze
  | .outfit c => c.conditionType = .outfit
  | .light c => c.conditionType = .light

theorem createCondition_fits {id : Int8} {type : ConditionType} {ticks param : Int32} {buff aggressive : Bool}
    {subId : UInt32} {c : AnyCondition} (h : createCondition id type ticks param buff subId aggressive = some c) :
    c.fits = true := by
  cases type <;> cases h <;> rfl

/-! ## The header -/

theorem readTagged_tagged {α : Type} {attr : ConditionAttr} {readValue : Bytes → Option (α × Bytes)} {v : Bytes}
    (r : Bytes) : readTagged attr readValue (tagged attr v ++ r) = readValue (v ++ r) := by
  simp [readTagged, tagged]

theorem id_back (id : Int8) : id.toInt32.toUInt32.toUInt8.toInt8 = id := by
  have hbits : (id.toBitVec.signExtend 32).setWidth 8 = id.toBitVec := by
    rw [← BitVec.signExtend_eq_setWidth_of_le _ (by decide : 8 ≤ 32)]
    exact congrArg Int8.toBitVec (Int8.toInt8_toInt32 id)
  exact Int8.toBitVec.inj (by simpa using hbits)

def Condition.create (c : Condition) : Option AnyCondition :=
  createCondition c.id c.conditionType c.ticks 0 c.isBuff c.subId c.aggressive

theorem createFrom_serialize (c : Condition) (r : Bytes) :
    createFrom (c.serialize ++ r) = c.create.map fun d => (d, r) := by
  simp only [createFrom, Condition.serialize, List.append_assoc, readTagged_tagged, read32_write32,
    readBool_writeBool, Option.bind_eq_bind, Option.bind_some, writeInt,
    ConditionType.ofCode_code, id_back, Int32.toInt32_toUInt32, Condition.create]
  cases createCondition c.id c.conditionType c.ticks 0 c.isBuff c.subId c.aggressive <;> rfl

/-! ## Attribute by attribute -/

/-- Some rounds of the loop read `p` and turn `c` into `d`. -/
def Reads (now : Int64) (c : AnyCondition) (p : Bytes) (d : AnyCondition) : Prop :=
  ∃ k ≤ p.length, ∀ rounds r, unserialize now (k + rounds) c (p ++ r) = unserialize now rounds d r

variable {c d e : AnyCondition} {p q : Bytes}

theorem Reads.refl (c : AnyCondition) : Reads now c [] c :=
  ⟨0, le_rfl, fun rounds r => by rw [Nat.zero_add]; rfl⟩

theorem Reads.append (hp : Reads now c p d) (hq : Reads now d q e) : Reads now c (p ++ q) e := by
  obtain ⟨k, hk, hp⟩ := hp
  obtain ⟨l, hl, hq⟩ := hq
  refine ⟨k + l, by rw [List.length_append]; omega, fun rounds r => ?_⟩
  rw [List.append_assoc, Nat.add_assoc, hp, hq]

theorem unserialize_tagged {attr : ConditionAttr} (hattr : attr ≠ .last) (rounds : ℕ) (c : AnyCondition)
    (v r : Bytes) :
    unserialize now (rounds + 1) c (tagged attr v ++ r) = match c.unserializeProp now attr (v ++ r) with
      | none => (none, v ++ r)
      | some (c, s) => unserialize now rounds c s := by
  rw [unserialize, tagged, List.append_assoc, read8_write8]
  cases attr with
  | last => exact absurd rfl hattr
  | _ => rfl

theorem reads_tagged {attr : ConditionAttr} (hattr : attr ≠ .last)
    (h : ∀ r, c.unserializeProp now attr (p ++ r) = some (d, r)) : Reads now c (tagged attr p) d := by
  refine ⟨1, by simp [tagged, write8], fun rounds r => ?_⟩
  rw [Nat.add_comm, unserialize_tagged hattr, h]

theorem Reads.unserialize (hp : Reads now c p d) (r : Bytes) {rounds : ℕ} (hrounds : p.length < rounds) :
    unserialize now rounds c (p ++ (write8 ConditionAttr.last.code ++ r)) = (some d, r) := by
  obtain ⟨k, hk, hp⟩ := hp
  obtain ⟨n, rfl⟩ : ∃ n, rounds = k + (n + 1) := ⟨rounds - k - 1, by omega⟩
  rw [hp, Conditions.unserialize, read8_write8]
  simp only [ConditionAttr.ofCode_code]

/-! ## Class by class -/

theorem reads_entries {n : ℕ} {attr : ConditionAttr} (hattr : attr ≠ .last)
    (entries : Fin n → Int32) (state : (Fin n → Int32) → ℕ → AnyCondition)
    (hstate : ∀ a k v r, (state a k).unserializeProp now attr (writeInt v ++ r) =
      some (state (setEntry a k v) (k + 1), r)) (a : Fin n → Int32) :
    Reads now (state a 0) ((List.finRange n).flatMap fun i => tagged attr (writeInt (entries i)))
      (state entries n) := by
  -- the entries before `k` have been read
  suffices h : ∀ m k, k + m = n → Reads now (state (fun i => if i.val < k then entries i else a i) k)
      (((List.finRange n).drop k).flatMap fun i => tagged attr (writeInt (entries i))) (state entries n) by
    simpa using h n 0 (Nat.zero_add n)
  intro m
  induction m with
  | zero =>
    intro k hk
    obtain rfl : k = n := hk
    have hall : (fun i : Fin k => if i.val < k then entries i else a i) = entries :=
      funext fun i => if_pos i.isLt
    rw [hall, List.drop_eq_nil_of_le (by simp)]
    exact .refl _
  | succ m ih =>
    intro k hk
    have hlt : k < n := by omega
    have hdrop : (List.finRange n).drop k = ⟨k, hlt⟩ :: (List.finRange n).drop (k + 1) := by
      rw [List.drop_eq_getElem_cons (by simpa using hlt)]
      simp
    have hset : setEntry (fun i : Fin n => if i.val < k then entries i else a i) k (entries ⟨k, hlt⟩) =
        fun i => if i.val < k + 1 then entries i else a i := by
      funext i
      rw [setEntry, dif_pos hlt, Function.update_apply]
      by_cases hi : i = ⟨k, hlt⟩
      · rw [if_pos hi, hi, if_pos (Nat.lt_succ_self k)]
      · have hne : i.val ≠ k := fun h => hi (Fin.ext h)
        rw [if_neg hi]
        exact if_congr (by omega) rfl rfl
    rw [hdrop, List.flatMap_cons]
    refine (reads_tagged hattr fun r => ?_).append (ih (k + 1) (by omega))
    rw [hstate, hset]

/-- What is written behind the header turns the new condition into what comes back. -/
def Returns (now : Int64) (c : AnyCondition) : Prop :=
  ∃ d p, c.serialize = c.base.serialize ++ p ∧ c.base.create = some d ∧ Reads now d p (c.reload now)

theorem generic_returns {c : Condition} (h : (AnyCondition.generic c).fits = true) : Returns now (.generic c) := by
  refine ⟨.generic c.reload, [], (List.append_nil _).symm, ?_, .refl _⟩
  obtain ⟨type, id, subId, ticks, endTime, isBuff, aggressive⟩ := c
  cases type <;> first | rfl | cases h

theorem attributes_returns {c : IndexedAttributes} (h : c.conditionType = .attributes) :
    Returns now (.attributes c) := by
  let d : IndexedAttributes := { toCondition := c.toCondition.reload }
  have hskills := @reads_entries now _ .skills (by decide) c.skills
    (fun a k => .attributes { d with skills := a, currentSkill := k })
    (fun a k v r => by simp [AnyCondition.unserializeProp,
      IndexedAttributes.unserializeProp]) d.skills
  have hstats := @reads_entries now _ .stats (by decide) c.stats
    (fun a k => .attributes { d with skills := c.skills, currentSkill := 7, stats := a, currentStat := k })
    (fun a k v r => by simp [AnyCondition.unserializeProp,
      IndexedAttributes.unserializeProp]) d.stats
  have hdefense : Reads now
      (.attributes { d with skills := c.skills, currentSkill := 7, stats := c.stats, currentStat := 4 })
      (tagged .disableDefense (writeBool c.disableDefense)) (AnyCondition.reload now (.attributes c)) :=
    reads_tagged (by decide) fun r => by
      simp [AnyCondition.unserializeProp, IndexedAttributes.unserializeProp, AnyCondition.reload, d]
  refine ⟨.attributes d, _, ?_, ?_, (hskills.append hstats).append hdefense⟩
  · simp only [AnyCondition.serialize, ConditionAttributes.serialize, AnyCondition.base, List.append_assoc]
  · simp only [Condition.create, createCondition, AnyCondition.base, h]
    rw [← h]
    rfl

theorem regeneration_returns {c : ConditionRegeneration} (h : c.conditionType = .regeneration) :
    Returns now (.regeneration c) := by
  refine ⟨.regeneration { toCondition := c.toCondition.reload },
    tagged .healthTicks (write32 c.healthTicks) ++
    (tagged .healthGain (write32 c.healthGain) ++ (tagged .manaTicks (write32 c.manaTicks) ++
    tagged .manaGain (write32 c.manaGain))), ?_, ?_, 4, ?_, fun rounds r => ?_⟩
  · simp only [AnyCondition.serialize, ConditionRegeneration.serialize, AnyCondition.base, List.append_assoc]
  · simp only [Condition.create, createCondition, AnyCondition.base, h]
    rw [← h]
    rfl
  · simp [tagged, write8]
    omega
  · rw [Nat.add_comm]
    simp [unserialize_tagged, AnyCondition.unserializeProp, ConditionRegeneration.unserializeProp, AnyCondition.reload]

theorem soul_returns {c : ConditionSoul} (h : c.conditionType = .soul) : Returns now (.soul c) := by
  refine ⟨.soul { toCondition := c.toCondition.reload }, tagged .soulGain (write32 c.soulGain) ++
    tagged .soulTicks (write32 c.soulTicks), ?_, ?_, 2, ?_, fun rounds r => ?_⟩
  · simp only [AnyCondition.serialize, ConditionSoul.serialize, AnyCondition.base, List.append_assoc]
  · simp only [Condition.create, createCondition, AnyCondition.base, h]
    rw [← h]
    rfl
  · simp [tagged, write8]
    omega
  · rw [Nat.add_comm]
    simp [unserialize_tagged, AnyCondition.unserializeProp, ConditionSoul.unserializeProp, AnyCondition.reload]

theorem read_write_info (info : IntervalInfo) (r : Bytes) : IntervalInfo.read (info.write ++ r) = some (info, r) := by
  simp [IntervalInfo.read, IntervalInfo.write]

theorem reads_rounds (damageList : List IntervalInfo) (c : ConditionDamage) :
    Reads now (.damage c) (damageList.flatMap fun info => tagged .intervalData info.write)
      (.damage (damageList.foldl (fun d info => d.pushBack info now) c)) := by
  induction damageList generalizing c with
  | nil => exact .refl _
  | cons info rest ih =>
    rw [List.flatMap_cons, List.foldl_cons]
    refine (reads_tagged (by decide) fun r => ?_).append (ih _)
    rw [AnyCondition.unserializeProp, ConditionDamage.unserializeProp, read_write_info]
    rfl

theorem damage_returns {c : ConditionDamage} (h : c.conditionType.isDamage = true) : Returns now (.damage c) := by
  let d : ConditionDamage := { toCondition := .new c.id c.conditionType 0 c.isBuff c.subId c.aggressive }
  have hdelayed : Reads now (.damage d) (tagged .delayed (writeBool c.delayed))
      (.damage { d with delayed := c.delayed }) :=
    reads_tagged (by decide) fun r => by
      simp [AnyCondition.unserializeProp, ConditionDamage.unserializeProp]
  have hperiod : Reads now (.damage { d with delayed := c.delayed })
      (tagged .periodDamage (writeInt c.periodDamage))
      (.damage { d with delayed := c.delayed, periodDamage := c.periodDamage }) :=
    reads_tagged (by decide) fun r => by
      simp [AnyCondition.unserializeProp, ConditionDamage.unserializeProp]
  refine ⟨.damage d, _, ?_, ?_, (hdelayed.append hperiod).append (reads_rounds c.damageList _)⟩
  · simp only [AnyCondition.serialize, ConditionDamage.serialize, AnyCondition.base, List.append_assoc]
  · simp only [Condition.create, AnyCondition.base, d]
    revert h
    cases c.conditionType <;> intro h <;> first | rfl | cases h

theorem speed_returns {c : ConditionSpeed} (h : c.conditionType = .haste ∨ c.conditionType = .paralyze) :
    Returns now (.speed c) := by
  refine ⟨.speed { toCondition := c.toCondition.reload, speedDelta := 0 },
    tagged .speedDelta (writeInt c.speedDelta) ++ (tagged .formulaMinA (write32 c.mina) ++
    (tagged .formulaMinB (write32 c.minb) ++ (tagged .formulaMaxA (write32 c.maxa) ++
    tagged .formulaMaxB (write32 c.maxb)))), ?_, ?_, 5, ?_, fun rounds r => ?_⟩
  · simp only [AnyCondition.serialize, ConditionSpeed.serialize, AnyCondition.base, List.append_assoc]
  · rcases h with h | h
    all_goals
      simp only [Condition.create, createCondition, AnyCondition.base, h]
      rw [← h]
      rfl
  · simp [tagged, write8]
    omega
  · rw [Nat.add_comm]
    simp [unserialize_tagged, AnyCondition.unserializeProp, ConditionSpeed.unserializeProp, AnyCondition.reload]

theorem read_write_outfit (o : Outfit) (r : Bytes) : Outfit.read (o.write ++ r) = some (o, r) := by
  simp [Outfit.read, Outfit.write]

theorem outfit_returns {c : ConditionOutfit} (h : c.conditionType = .outfit) : Returns now (.outfit c) := by
  refine ⟨.outfit { toCondition := c.toCondition.reload }, tagged .outfit c.outfit.write, rfl, ?_,
    reads_tagged (by decide) fun r => ?_⟩
  · simp only [Condition.create, createCondition, AnyCondition.base, h]
    rw [← h]
    rfl
  · rw [AnyCondition.unserializeProp, ConditionOutfit.unserializeProp, read_write_outfit]
    rfl

theorem light_returns {c : ConditionLight} (h : c.conditionType = .light) : Returns now (.light c) := by
  refine ⟨.light { toCondition := c.toCondition.reload },
    tagged .lightColor (write32 c.lightInfo.color.toUInt32) ++
    (tagged .lightLevel (write32 c.lightInfo.level.toUInt32) ++
    (tagged .lightTicks (write32 c.internalLightTicks) ++
    tagged .lightInterval (write32 c.lightChangeInterval))), ?_, ?_, 4, ?_, fun rounds r => ?_⟩
  · simp only [AnyCondition.serialize, ConditionLight.serialize, AnyCondition.base, List.append_assoc]
  · simp only [Condition.create, createCondition, AnyCondition.base, h]
    rw [← h]
    rfl
  · simp [tagged, write8]
    omega
  · rw [Nat.add_comm]
    simp [unserialize_tagged, AnyCondition.unserializeProp, ConditionLight.unserializeProp, AnyCondition.reload]

theorem returns_of_fits (now : Int64) {c : AnyCondition} (h : c.fits = true) : Returns now c := by
  cases c with
  | generic c => exact generic_returns h
  | attributes c => exact attributes_returns (of_decide_eq_true h)
  | regeneration c => exact regeneration_returns (of_decide_eq_true h)
  | soul c => exact soul_returns (of_decide_eq_true h)
  | damage c => exact damage_returns h
  | speed c => exact speed_returns (by simpa [AnyCondition.fits] using h)
  | outfit c => exact outfit_returns (of_decide_eq_true h)
  | light c => exact light_returns (of_decide_eq_true h)

/-! ## The conditions of a player -/

/-- The loop over what was written: every condition comes back, the last one first. -/
theorem loadConditions_write (l : List AnyCondition) (hfits : ∀ c ∈ l, c.fits = true)
    (stored : List AnyCondition) {rounds : ℕ} (hrounds : l.length ≤ rounds) :
    loadConditions now rounds stored (l.flatMap fun c => c.serialize ++ write8 ConditionAttr.last.code) =
      (l.map (AnyCondition.reload now)).reverse ++ stored := by
  induction l generalizing stored rounds with
  | nil => cases rounds <;> rfl
  | cons c l ih =>
    obtain ⟨hc, hl⟩ := List.forall_mem_cons.mp hfits
    obtain ⟨d, p, hserialize, hcreate, hreads⟩ := returns_of_fits now hc
    obtain ⟨rounds, rfl⟩ : ∃ n, rounds = n + 1 := ⟨rounds - 1, by simp at hrounds; omega⟩
    rw [List.flatMap_cons, hserialize, List.append_assoc, List.append_assoc, loadConditions,
      createFrom_serialize, hcreate]
    simp only [Option.map_some]
    rw [hreads.unserialize _ (by simp [write8])]
    simp only
    rw [ih hl _ (by simpa using hrounds), List.map_cons, List.reverse_cons, List.append_assoc]
    rfl

theorem length_le_flatMap (l : List AnyCondition) :
    l.length ≤ (l.flatMap fun c => c.serialize ++ write8 ConditionAttr.last.code).length := by
  induction l with
  | nil => exact le_rfl
  | cons c l ih =>
    have hlast : (write8 ConditionAttr.last.code).length = 1 := rfl
    rw [List.flatMap_cons, List.length_append, List.length_append, List.length_cons]
    omega

theorem storedConditions_saveConditions (l : List AnyCondition) (hfits : ∀ c ∈ l, c.fits = true) :
    storedConditions now (saveConditions l) =
      ((l.filter fun c => c.base.isPersistent).map (AnyCondition.reload now)).reverse := by
  rw [storedConditions, saveConditions, loadConditions_write _ (fun c hc => hfits c (List.mem_of_mem_filter hc)) []
      (length_le_flatMap _), List.append_nil]

end ForgottenServer.Conditions
