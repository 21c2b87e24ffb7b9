import ForgottenServer.Conditions.Blob

/-! # Blobs that are loaded and started without a fault

A condition is followed through its records by the entries of its arrays that were
read and by the level of its light. What these come to is seen from the records. -/
namespace ForgottenServer.Conditions
open ForgottenServer.Lib.Wire ForgottenServer.Lib.Width

variable {now : Int64} {attr : ConditionAttr}

/-! ## Widths -/

theorem takes_readBool : Takes 1 readBool := takes_read8.map ⟨fun n => n ≠ 0, fun _ _ => rfl⟩

theorem takes_readInt : Takes 4 readInt := takes_read32.map ⟨UInt32.toInt32, fun _ _ => rfl⟩

theorem IntervalInfo.takes_read : Takes 12 IntervalInfo.read :=
  takes_readInt.bind fun _ => takes_readInt.bind fun _ => takes_readInt.bind fun _ => takes_pure _

theorem Outfit.takes_read : Takes 12 Outfit.read :=
  takes_read16.bind fun _ => takes_read16.bind fun _ => takes_read16.bind fun _ =>
    takes_read8.bind fun _ => takes_read8.bind fun _ => takes_read8.bind fun _ =>
      takes_read8.bind fun _ => takes_read8.bind fun _ => takes_read8.bind fun _ => takes_pure _

theorem Condition.prop_fits (c : Condition) (attr : ConditionAttr) : Fits attr.width (c.unserializeProp attr) := by
  cases attr with
  | type | id | subId => exact .takes (takes_read32.map ⟨_, fun _ _ => rfl⟩)
  | ticks => exact .takes (takes_readInt.map ⟨_, fun _ _ => rfl⟩)
  | isBuff | isAggressive => exact .takes (takes_readBool.map ⟨_, fun _ _ => rfl⟩)
  | last => exact .takes (takes_pure c)
  | _ => exact .fails fun _ => rfl

theorem IndexedAttributes.prop_fits (c : IndexedAttributes) (attr : ConditionAttr) :
    Fits (Kind.attributes.width attr) (c.unserializeProp attr) := by
  have hbase := c.toCondition.prop_fits attr
  cases attr with
  | skills | stats => exact .takes (takes_readInt.map ⟨_, fun _ _ => rfl⟩)
  | disableDefense => exact .takes (takes_readBool.map ⟨_, fun _ _ => rfl⟩)
  | _ => exact hbase.map fun base => { c with toCondition := base }

theorem ConditionRegeneration.prop_fits (c : ConditionRegeneration) (attr : ConditionAttr) :
    Fits (Kind.regeneration.width attr) (c.unserializeProp attr) := by
  have hbase := c.toCondition.prop_fits attr
  cases attr with
  | healthTicks | healthGain | manaTicks | manaGain => exact .takes (takes_read32.map ⟨_, fun _ _ => rfl⟩)
  | _ => exact hbase.map fun base => { c with toCondition := base }

theorem ConditionSoul.prop_fits (c : ConditionSoul) (attr : ConditionAttr) :
    Fits (Kind.soul.width attr) (c.unserializeProp attr) := by
  have hbase := c.toCondition.prop_fits attr
  cases attr with
  | soulGain | soulTicks => exact .takes (takes_read32.map ⟨_, fun _ _ => rfl⟩)
  | _ => exact hbase.map fun base => { c with toCondition := base }

theorem ConditionDamage.prop_fits (c : ConditionDamage) (attr : ConditionAttr) :
    Fits (Kind.damage.width attr) (c.unserializeProp now attr) := by
  have hbase := c.toCondition.prop_fits attr
  cases attr with
  | delayed => exact .takes (takes_readBool.map ⟨_, fun _ _ => rfl⟩)
  | periodDamage => exact .takes (takes_readInt.map ⟨_, fun _ _ => rfl⟩)
  | owner => exact .takes (takes_read32.map ⟨_, fun _ _ => rfl⟩)
  | intervalData => exact .takes (IntervalInfo.takes_read.map ⟨_, fun _ _ => rfl⟩)
  | _ => exact hbase.map fun base => { c with toCondition := base }

theorem ConditionSpeed.prop_fits (c : ConditionSpeed) (attr : ConditionAttr) :
    Fits (Kind.speed.width attr) (c.unserializeProp attr) := by
  have hbase := c.toCondition.prop_fits attr
  cases attr with
  | speedDelta => exact .takes (takes_readInt.map ⟨_, fun _ _ => rfl⟩)
  | formulaMinA | formulaMinB | formulaMaxA | formulaMaxB => exact .takes (takes_read32.map ⟨_, fun _ _ => rfl⟩)
  | _ => exact hbase.map fun base => { c with toCondition := base }

theorem ConditionOutfit.prop_fits (c : ConditionOutfit) (attr : ConditionAttr) :
    Fits (Kind.outfit.width attr) (c.unserializeProp attr) := by
  have hbase := c.toCondition.prop_fits attr
  cases attr with
  | outfit => exact .takes (Outfit.takes_read.map ⟨_, fun _ _ => rfl⟩)
  | _ => exact hbase.map fun base => { c with toCondition := base }

theorem ConditionLight.prop_fits (c : ConditionLight) (attr : ConditionAttr) :
    Fits (Kind.light.width attr) (c.unserializeProp attr) := by
  have hbase := c.toCondition.prop_fits attr
  cases attr with
  | lightColor | lightLevel | lightTicks | lightInterval => exact .takes (takes_read32.map ⟨_, fun _ _ => rfl⟩)
  | _ => exact hbase.map fun base => { c with toCondition := base }

namespace AnyCondition

def kind : AnyCondition → Kind
  | .generic _ => .generic
  | .attributes _ => .attributes
  | .regeneration _ => .regeneration
  | .soul _ => .soul
  | .damage _ => .damage
  | .speed _ => .speed
  | .outfit _ => .outfit
  | .light _ => .light

theorem prop_fits (c : AnyCondition) (now : Int64) (attr : ConditionAttr) :
    Fits (c.kind.width attr) (c.unserializeProp now attr) := by
  cases c with
  | generic c =>
    have hwidth : Kind.generic.width attr = attr.width := by cases attr <;> rfl
    change Fits (Kind.generic.width attr) _
    rw [hwidth]
    exact (c.prop_fits attr).map generic
  | attributes c => exact (c.prop_fits attr).map attributes
  | regeneration c => exact (c.prop_fits attr).map regeneration
  | soul c => exact (c.prop_fits attr).map soul
  | damage c => exact (c.prop_fits attr).map damage
  | speed c => exact (c.prop_fits attr).map speed
  | outfit c => exact (c.prop_fits attr).map outfit
  | light c => exact (c.prop_fits attr).map light

/-! ## What the faults depend on -/

/-- The entries of the array that were read. -/
def skillsRead : AnyCondition → ℕ
  | .attributes c => c.currentSkill
  | _ => 0

def statsRead : AnyCondition → ℕ
  | .attributes c => c.currentStat
  | _ => 0

def level : AnyCondition → UInt8
  | .light c => c.lightInfo.level
  | _ => 0

/-- A record makes `d` of `c`, as far as faults go. -/
structure Follows (c : AnyCondition) (record : Record) (d : AnyCondition) : Prop where
  kind : d.kind = c.kind
  skills : c.kind = .attributes → d.skillsRead = c.skillsRead + if record.attr = .skills then 1 else 0
  stats : c.kind = .attributes → d.statsRead = c.statsRead + if record.attr = .stats then 1 else 0
  level : c.kind = .light → d.level = if record.attr = .lightLevel then record.value.headD 0 else c.level

end AnyCondition

theorem low_byte {s r : Bytes} {n : UInt32} (h : read32 s = some (n, r)) : n.toUInt8 = (s.take 4).headD 0 := by
  rw [read32, Lib.Wire.read] at h
  split at h
  · cases h
  · cases h
    cases s with
    | nil => rfl
    | cons b s =>
      rw [List.take_succ_cons, List.headD_cons, decode, ← UInt8.toNat_inj, UInt32.toNat_toUInt8, UInt32.toNat_ofNat']
      have hb := b.toNat_lt
      omega

theorem IndexedAttributes.counted {c d : IndexedAttributes} {s r : Bytes}
    (h : c.unserializeProp attr s = some (d, r)) :
    d.currentSkill = c.currentSkill + (if attr = .skills then 1 else 0) ∧
      d.currentStat = c.currentStat + (if attr = .stats then 1 else 0) := by
  unfold unserializeProp at h
  split at h
  all_goals
    obtain ⟨⟨x, r⟩, _, heq⟩ := Option.map_eq_some_iff.mp h
    cases heq
  · exact ⟨rfl, rfl⟩
  · exact ⟨rfl, rfl⟩
  · exact ⟨rfl, rfl⟩
  · rename_i hskills hstats _ _
    exact ⟨by rw [if_neg hskills]; rfl, by rw [if_neg hstats]; rfl⟩

theorem ConditionLight.levelled {c d : ConditionLight} {s r : Bytes} (h : c.unserializeProp attr s = some (d, r)) :
    d.lightInfo.level = if attr = .lightLevel then (s.take 4).headD 0 else c.lightInfo.level := by
  unfold unserializeProp at h
  split at h
  all_goals
    obtain ⟨⟨x, r⟩, hread, heq⟩ := Option.map_eq_some_iff.mp h
    cases heq
  · rfl
  · exact low_byte hread
  · rfl
  · rfl
  · rename_i hlevel _ _
    rw [if_neg hlevel]

namespace AnyCondition

variable {c d : AnyCondition} {s : Bytes} {w : ℕ}

theorem follows_of_read {r : Bytes} (hw : c.kind.width attr = some w)
    (h : c.unserializeProp now attr s = some (d, r)) : c.Follows ⟨attr, s.take w⟩ d := by
  cases c with
  | attributes c =>
    obtain ⟨⟨x, r⟩, hread, heq⟩ := Option.map_eq_some_iff.mp h
    cases heq
    obtain ⟨hskills, hstats⟩ := IndexedAttributes.counted hread
    exact ⟨rfl, fun _ => hskills, fun _ => hstats, nofun⟩
  | light c =>
    obtain ⟨⟨x, r⟩, hread, heq⟩ := Option.map_eq_some_iff.mp h
    cases heq
    refine ⟨rfl, nofun, nofun, fun _ => ?_⟩
    have hlevel := ConditionLight.levelled hread
    by_cases hattr : attr = .lightLevel
    · subst hattr
      cases hw
      exact hlevel
    · rw [if_neg hattr] at hlevel
      rw [if_neg hattr]
      exact hlevel
  | _ =>
    obtain ⟨⟨x, r⟩, _, heq⟩ := Option.map_eq_some_iff.mp h
    cases heq
    exact ⟨rfl, nofun, nofun, nofun⟩

theorem prop_unknown (hw : c.kind.width attr = none) : c.unserializeProp now attr s = none := by
  have hfits := c.prop_fits now attr
  rw [hw] at hfits
  cases hfits with
  | fails h => exact h s

theorem prop_short (hw : c.kind.width attr = some w) (hs : s.length < w) : c.unserializeProp now attr s = none := by
  have hfits := c.prop_fits now attr
  rw [hw] at hfits
  cases hfits with
  | takes h => exact h.short hs

theorem prop_follows (now : Int64) (hw : c.kind.width attr = some w) (hs : w ≤ s.length) :
    ∃ d, c.unserializeProp now attr s = some (d, s.drop w) ∧ c.Follows ⟨attr, s.take w⟩ d := by
  have hfits := c.prop_fits now attr
  rw [hw] at hfits
  cases hfits with
  | takes h =>
    obtain ⟨d, hd⟩ := h.long hs
    exact ⟨d, hd, follows_of_read hw hd⟩

/-! ## The records of a condition -/

variable {record : Record} {l : List Record}

/-- The arrays have an entry for each record. -/
structure Room (c : AnyCondition) (l : List Record) : Prop where
  skills : c.kind = .attributes → c.skillsRead + count .skills l ≤ 7
  stats : c.kind = .attributes → c.statsRead + count .stats l ≤ 4

theorem count_cons (attr : ConditionAttr) (record : Record) (l : List Record) :
    count attr (record :: l) = (if record.attr = attr then 1 else 0) + count attr l := by
  rw [count, List.countP_cons, Nat.add_comm]
  simp only [decide_eq_true_eq]
  rfl

theorem room_cons (h : c.Follows record d) : c.Room (record :: l) ↔ d.Room l := by
  constructor
  · intro hroom
    refine ⟨fun hkind => ?_, fun hkind => ?_⟩
    · have hle := hroom.skills (h.kind ▸ hkind)
      rw [count_cons] at hle
      rw [h.skills (h.kind ▸ hkind)]
      omega
    · have hle := hroom.stats (h.kind ▸ hkind)
      rw [count_cons] at hle
      rw [h.stats (h.kind ▸ hkind)]
      omega
  · intro hroom
    refine ⟨fun hkind => ?_, fun hkind => ?_⟩
    · have hle := hroom.skills (h.kind.trans hkind)
      rw [h.skills hkind] at hle
      rw [count_cons]
      omega
    · have hle := hroom.stats (h.kind.trans hkind)
      rw [h.stats hkind] at hle
      rw [count_cons]
      omega

/-- An index is in its array where there is room for the record, and only there. -/
theorem checkIndex_spec (h : c.Room []) (attr : ConditionAttr) :
    (c.checkIndex attr = .ok () ∧ ∀ v, c.Room [⟨attr, v⟩]) ∨
      ((∃ fault, c.checkIndex attr = .error fault) ∧ ∀ v l, ¬ c.Room (⟨attr, v⟩ :: l)) := by
  have hroom : c.kind = .attributes → (attr = .skills → c.skillsRead < 7) →
      (attr = .stats → c.statsRead < 4) → ∀ v, c.Room [⟨attr, v⟩] := by
    intro hkind hskills hstats v
    have hskills₀ := h.skills hkind
    have hstats₀ := h.stats hkind
    refine ⟨fun _ => ?_, fun _ => ?_⟩
    · rw [count_cons]
      split
      · have := hskills ‹_›
        change c.skillsRead + (1 + 0) ≤ 7
        omega
      · exact hskills₀
    · rw [count_cons]
      split
      · have := hstats ‹_›
        change c.statsRead + (1 + 0) ≤ 4
        omega
      · exact hstats₀
  cases c with
  | attributes c =>
    cases attr with
    | skills =>
      by_cases hlt : c.currentSkill < 7
      · exact .inl ⟨if_pos hlt, hroom rfl (fun _ => hlt) nofun⟩
      · refine .inr ⟨⟨_, if_neg hlt⟩, fun v l hroom => ?_⟩
        have hle := hroom.skills rfl
        rw [count_cons, if_pos rfl] at hle
        change c.currentSkill + _ ≤ 7 at hle
        omega
    | stats =>
      by_cases hlt : c.currentStat < 4
      · exact .inl ⟨if_pos hlt, hroom rfl nofun fun _ => hlt⟩
      · refine .inr ⟨⟨_, if_neg hlt⟩, fun v l hroom => ?_⟩
        have hle := hroom.stats rfl
        rw [count_cons, if_pos rfl] at hle
        change c.currentStat + _ ≤ 4 at hle
        omega
    | _ => exact .inl ⟨rfl, hroom rfl nofun nofun⟩
  | _ => exact .inl ⟨rfl, fun v => ⟨nofun, nofun⟩⟩

theorem checkIndex_unknown (hw : c.kind.width attr = none) : c.checkIndex attr = .ok () := by
  cases c with
  | attributes c =>
    cases attr with
    | skills | stats => cases hw
    | _ => rfl
  | _ => rfl

/-- What comes of the records: a condition that ended is kept, with the level that they
leave. -/
inductive Loads (c : AnyCondition) : List Record × Bool × Bytes → Option AnyCondition × Bytes → Prop
  | ended {l : List Record} {r : Bytes} {d : AnyCondition} (hkind : d.kind = c.kind)
      (hlevel : c.kind = .light → d.level = levelAfter c.level l) : Loads c (l, true, r) (some d, r)
  | cut {l : List Record} {r : Bytes} : Loads c (l, false, r) (none, r)

theorem Loads.cons {p : List Record × Bool × Bytes} {result : Option AnyCondition × Bytes}
    (hfollows : c.Follows record d) (h : d.Loads p result) : c.Loads (record :: p.1, p.2) result := by
  cases h with
  | ended hkind hlevel =>
    refine .ended (hkind.trans hfollows.kind) fun hlight => ?_
    rw [hlevel (hfollows.kind.trans hlight), hfollows.level hlight]
    rfl
  | cut => exact .cut

theorem unserialize_spec (now : Int64) (rounds : ℕ) (s : Bytes) (h : c.Room []) : (c.Room (records c.kind rounds s).1 ∧
        ∃ result, Checked.unserialize now rounds c s = .ok result ∧ c.Loads (records c.kind rounds s) result) ∨
      (¬ c.Room (records c.kind rounds s).1 ∧ ∃ fault, Checked.unserialize now rounds c s = .error fault) := by
  induction rounds generalizing c s with
  | zero => exact .inl ⟨h, _, rfl, .ended rfl fun _ => rfl⟩
  | succ rounds ih =>
    cases s with
    | nil => exact .inl ⟨h, _, rfl, .ended rfl fun _ => rfl⟩
    | cons n s =>
      cases hattr : ConditionAttr.ofCode n with
      | none =>
        simp only [records, Checked.unserialize, read8, hattr]
        exact .inl ⟨h, _, rfl, .cut⟩
      | some attr =>
        by_cases hlast : attr = .last
        · simp only [records, Checked.unserialize, read8, hattr, if_pos hlast]
          exact .inl ⟨h, _, rfl, .ended rfl fun _ => rfl⟩
        simp only [records, Checked.unserialize, read8, hattr, if_neg hlast]
        cases hw : c.kind.width attr with
        | none =>
          simp only [checkIndex_unknown hw, prop_unknown hw]
          exact .inl ⟨h, _, rfl, .cut⟩
        | some w =>
          by_cases hs : s.length < w
          · simp only [if_pos hs, prop_short hw hs]
            obtain ⟨hindex, hroom⟩ | ⟨⟨fault, hindex⟩, hroom⟩ := checkIndex_spec h attr
            · simp only [hindex]
              exact .inl ⟨hroom s, _, rfl, .cut⟩
            · simp only [hindex]
              exact .inr ⟨hroom s [], _, rfl⟩
          · obtain ⟨d, hread, hfollows⟩ := prop_follows now hw (not_lt.mp hs)
            simp only [if_neg hs, hread]
            obtain ⟨hindex, hroom⟩ | ⟨⟨fault, hindex⟩, hroom⟩ := checkIndex_spec h attr
            · simp only [hindex]
              rw [room_cons hfollows, ← hfollows.kind]
              obtain ⟨hrest, result, hresult, hloads⟩ | ⟨hrest, hfault⟩ :=
                ih (s.drop w) ((room_cons hfollows).mp (hroom (s.take w)))
              · exact .inl ⟨hrest, result, hresult, hloads.cons hfollows⟩
              · exact .inr ⟨hrest, hfault⟩
            · simp only [hindex]
              exact .inr ⟨hroom _ _, _, rfl⟩

end AnyCondition

/-! ## Loops that come to an end

There are as many rounds as bytes, which is enough for both loops. -/

theorem AnyCondition.prop_rest {c d : AnyCondition} {s r : Bytes} (h : c.unserializeProp now attr s = some (d, r)) :
    r.length ≤ s.length :=
  (c.prop_fits now attr).rest h

theorem Checked.unserialize_rest {rounds : ℕ} {c : AnyCondition} {s : Bytes} {result : Option AnyCondition × Bytes}
    (h : unserialize now rounds c s = .ok result) : result.2.length ≤ s.length := by
  induction rounds generalizing c s with
  | zero =>
    cases h
    exact le_rfl
  | succ rounds ih =>
    cases s with
    | nil =>
      cases h
      exact le_rfl
    | cons n s =>
      have hcons : s.length ≤ (n :: s).length := Nat.le_succ _
      simp only [unserialize, read8] at h
      split at h
      · cases h
        exact hcons
      · split at h
        · cases h
          exact hcons
        · split at h
          · cases h
          · split at h
            · cases h
              exact hcons
            · rename_i hread
              exact (ih h).trans ((AnyCondition.prop_rest hread).trans hcons)

theorem Checked.unserialize_succ {rounds : ℕ} (c : AnyCondition) {s : Bytes} (h : s.length ≤ rounds) :
    unserialize now (rounds + 1) c s = unserialize now rounds c s := by
  induction rounds generalizing c s with
  | zero =>
    cases s with
    | nil => rfl
    | cons n s => cases h
  | succ rounds ih =>
    cases s with
    | nil => rfl
    | cons n s =>
      rw [unserialize, unserialize]
      simp only [read8]
      cases ConditionAttr.ofCode n with
      | none => rfl
      | some attr =>
        cases hread : c.unserializeProp now attr s with
        | none => simp only [hread]
        | some x =>
          obtain ⟨d, r⟩ := x
          have hle : r.length ≤ rounds := (AnyCondition.prop_rest hread).trans (Nat.le_of_succ_le_succ h)
          simp only [hread, ih d hle]

theorem readTagged_rest {α : Type} {f : Bytes → Option (α × Bytes)} {w : ℕ} {a : α} {s r : Bytes}
    (hf : Takes w f) (h : readTagged attr f s = some (a, r)) : r.length < s.length := by
  cases s with
  | nil => cases h
  | cons n s =>
    simp only [readTagged, read8, Option.bind_eq_bind, Option.bind_some] at h
    split at h
    · exact Nat.lt_succ_of_le (hf.rest h)
    · cases h

theorem createFrom_rest {c : AnyCondition} {s r : Bytes} (h : createFrom s = some (c, r)) : r.length < s.length := by
  simp only [createFrom, Option.bind_eq_bind, Option.bind_eq_some_iff, Option.pure_def, Option.some.injEq] at h
  obtain ⟨x₁, h₁, x₂, h₂, x₃, h₃, x₄, h₄, x₅, h₅, x₆, h₆, d, _, heq⟩ := h
  cases heq
  have h₁ := readTagged_rest takes_read32 h₁
  have h₂ := readTagged_rest takes_read32 h₂
  have h₃ := readTagged_rest takes_read32 h₃
  have h₄ := readTagged_rest takes_readBool h₄
  have h₅ := readTagged_rest takes_read32 h₅
  have h₆ := readTagged_rest takes_readBool h₆
  omega

theorem Checked.loadConditions_succ {rounds : ℕ} (stored : List AnyCondition) {s : Bytes} (h : s.length ≤ rounds) :
    loadConditions now (rounds + 1) stored s = loadConditions now rounds stored s := by
  induction rounds generalizing stored s with
  | zero =>
    cases s with
    | nil => rfl
    | cons n s => cases h
  | succ rounds ih =>
    rw [loadConditions, loadConditions]
    cases hcreate : createFrom s with
    | none => rfl
    | some x =>
      obtain ⟨c, r⟩ := x
      have hlt := createFrom_rest hcreate
      cases hresult : unserialize now r.length c r with
      | error fault => simp only [hresult]
      | ok result =>
        have hle := unserialize_rest hresult
        obtain ⟨d, rest⟩ := result
        have hrounds : rest.length ≤ rounds := by
          dsimp only at hle
          omega
        cases d with
        | none => simp only [hresult, ih stored hrounds]
        | some d => simp only [hresult, ih (d :: stored) hrounds]

theorem Checked.loadConditions_rounds {rounds : ℕ} (stored : List AnyCondition) {s : Bytes} (h : s.length ≤ rounds) :
    loadConditions now rounds stored s = loadConditions now s.length stored s := by
  induction rounds, h using Nat.le_induction with
  | base => rfl
  | succ rounds h ih => rw [loadConditions_succ stored h, ih]

/-! ## The conditions of a blob -/

theorem createCondition_kind {id : Int8} {type : ConditionType} {ticks : Int32} {buff aggressive : Bool}
    {subId : UInt32} (r : Bytes) :
    ((createCondition id type ticks 0 buff subId aggressive).bind fun c => some (c.kind, r)) =
      type.kind.bind fun kind => some (kind, r) := by
  cases type <;> rfl

theorem createCondition_fresh {id : Int8} {type : ConditionType} {ticks : Int32} {buff aggressive : Bool}
    {subId : UInt32} {c : AnyCondition} (h : createCondition id type ticks 0 buff subId aggressive = some c) :
    c.skillsRead = 0 ∧ c.statsRead = 0 ∧ c.level = 0 := by
  cases type <;> cases h <;> exact ⟨rfl, rfl, rfl⟩

theorem header_eq (s : Bytes) : header s = (createFrom s).map fun (c, s) => (c.kind, s) := by
  simp only [header, createFrom, Option.bind_eq_bind, Option.pure_def, Option.map_bind, Function.comp_def,
    Option.map_some, createCondition_kind]

theorem createFrom_fresh {s r : Bytes} {c : AnyCondition} (h : createFrom s = some (c, r)) :
    c.skillsRead = 0 ∧ c.statsRead = 0 ∧ c.level = 0 := by
  simp only [createFrom, Option.bind_eq_bind, Option.bind_eq_some_iff, Option.pure_def, Option.some.injEq] at h
  obtain ⟨_, _, _, _, _, _, _, _, _, _, _, _, d, hd, heq⟩ := h
  cases heq
  exact createCondition_fresh hd

theorem AnyCondition.room_fresh {c : AnyCondition} (hskills : c.skillsRead = 0) (hstats : c.statsRead = 0)
    (l : List Record) (ended : Bool) : c.Room l ↔ (⟨c.kind, l, ended⟩ : Section).Indexed := by
  constructor
  · intro hroom hkind
    have hle := hroom.skills hkind
    have hle' := hroom.stats hkind
    rw [hskills, Nat.zero_add] at hle
    rw [hstats, Nat.zero_add] at hle'
    exact ⟨hle, hle'⟩
  · intro hindexed
    refine ⟨fun hkind => ?_, fun hkind => ?_⟩
    · rw [hskills, Nat.zero_add]
      exact (hindexed hkind).1
    · rw [hstats, Nat.zero_add]
      exact (hindexed hkind).2

/-- A light does not divide by its level unless there is one. -/
def AnyCondition.Lit (c : AnyCondition) : Prop := c.kind = .light → c.level ≠ 0

/-- Loading goes through when no section has too many records. The conditions that
are stored are lit when all sections are. -/
theorem loadConditions_spec (now : Int64) (rounds : ℕ) (stored : List AnyCondition) (s : Bytes) :
    ((∀ sec ∈ sectionsFrom rounds s, sec.Indexed) ∧ ∃ l, Checked.loadConditions now rounds stored s = .ok l ∧
        ((∀ c ∈ l, c.Lit) ↔ (∀ c ∈ stored, c.Lit) ∧ ∀ sec ∈ sectionsFrom rounds s, sec.Lit)) ∨
      ((¬ ∀ sec ∈ sectionsFrom rounds s, sec.Indexed) ∧
        ∃ fault, Checked.loadConditions now rounds stored s = .error fault) := by
  induction rounds generalizing stored s with
  | zero => exact .inl ⟨List.forall_mem_nil _, stored, rfl, fun h => ⟨h, List.forall_mem_nil _⟩, fun h => h.1⟩
  | succ rounds ih =>
    cases hcreate : createFrom s with
    | none =>
      simp only [sectionsFrom, header_eq, Checked.loadConditions, hcreate, Option.map_none]
      exact .inl ⟨List.forall_mem_nil _, stored, rfl, fun h => ⟨h, List.forall_mem_nil _⟩, fun h => h.1⟩
    | some x =>
      obtain ⟨c, r⟩ := x
      obtain ⟨hskills, hstats, hlevel⟩ := createFrom_fresh hcreate
      have hroom := c.room_fresh hskills hstats
      have hspec := AnyCondition.unserialize_spec now r.length r
        ((hroom [] true).mpr fun _ => ⟨Nat.zero_le 7, Nat.zero_le 4⟩)
      simp only [sectionsFrom, header_eq, Checked.loadConditions, hcreate, Option.map_some, List.forall_mem_cons]
      generalize records c.kind r.length r = p at hspec
      obtain ⟨l, ended, rest⟩ := p
      obtain ⟨hindexed, result, hresult, hloads⟩ | ⟨hindexed, fault, hfault⟩ := hspec
      · simp only [hresult]
        have hsection := (hroom l ended).mp hindexed
        cases hloads with
        | ended hkind hafter =>
          rename_i d
          have hlit : d.Lit ↔ (⟨c.kind, l, true⟩ : Section).Lit := by
            rw [AnyCondition.Lit, hkind]
            constructor
            · intro h hlight _
              have hne := h hlight
              rwa [hafter hlight, hlevel] at hne
            · intro h hlight
              rw [hafter hlight, hlevel]
              exact h hlight rfl
          obtain ⟨hrest, l', hl', hiff⟩ | ⟨hrest, hfault⟩ := ih (d :: stored) rest
          · refine .inl ⟨⟨hsection, hrest⟩, l', hl', ?_⟩
            rw [hiff, List.forall_mem_cons, hlit]
            exact ⟨fun h => ⟨h.1.2, h.1.1, h.2⟩, fun h => ⟨⟨h.2.1, h.1⟩, h.2.2⟩⟩
          · exact .inr ⟨fun h => hrest h.2, hfault⟩
        | cut =>
          have hlit : (⟨c.kind, l, false⟩ : Section).Lit := fun _ h => absurd h Bool.false_ne_true
          obtain ⟨hrest, l', hl', hiff⟩ | ⟨hrest, hfault⟩ := ih stored rest
          · refine .inl ⟨⟨hsection, hrest⟩, l', hl', ?_⟩
            rw [hiff]
            exact ⟨fun h => ⟨h.1, hlit, h.2⟩, fun h => ⟨h.1, h.2.2⟩⟩
          · exact .inr ⟨fun h => hrest h.2, hfault⟩
      · simp only [hfault]
        exact .inr ⟨fun h => hindexed ((hroom l ended).mpr h.1), fault, rfl⟩

/-! ## Starting -/

theorem map_ok_iff {ε α β : Type} (f : α → β) (e : Except ε α) : (∃ b, e.map f = .ok b) ↔ ∃ a, e = .ok a := by
  cases e with
  | error e => exact iff_of_false (fun ⟨_, h⟩ => nomatch h) fun ⟨_, h⟩ => nomatch h
  | ok a => exact ⟨fun _ => ⟨a, rfl⟩, fun _ => ⟨f a, rfl⟩⟩

theorem ConditionLight.startCondition_ok_iff (c : ConditionLight) (now : Int64) :
    (∃ d, c.startCondition now = .ok d) ↔ c.lightInfo.level ≠ 0 := by
  unfold startCondition
  dsimp only
  split
  · rename_i hlevel
    exact iff_of_false (fun ⟨_, h⟩ => nomatch h) fun h => h hlevel
  · rename_i hlevel
    exact ⟨fun _ => hlevel, fun _ => ⟨_, rfl⟩⟩

theorem AnyCondition.startCondition_ok_iff (c : AnyCondition) (start : Start) (p : Creature) (now : Int64) :
    (∃ r, c.startCondition start p now = .ok r) ↔ c.Lit := by
  unfold AnyCondition.startCondition
  cases c with
  | light c =>
    dsimp only
    rw [map_ok_iff, c.startCondition_ok_iff]
    exact ⟨fun h _ => h, fun h => h rfl⟩
  | _ => exact iff_of_true ⟨_, rfl⟩ nofun

theorem startStored_ok_iff (now : Int64) (start : ℕ → Start) (p : Creature) (stored : List AnyCondition) :
    (∃ r, startStored now start p stored = .ok r) ↔ ∀ c ∈ stored, c.Lit := by
  induction stored generalizing start p with
  | nil => exact iff_of_true ⟨_, rfl⟩ (List.forall_mem_nil _)
  | cons c stored ih =>
    rw [startStored, List.forall_mem_cons, ← c.startCondition_ok_iff (start 0) p now]
    cases c.startCondition (start 0) p now with
    | error fault => exact iff_of_false (fun ⟨_, h⟩ => nomatch h) fun ⟨⟨_, h⟩, _⟩ => nomatch h
    | ok x =>
      obtain ⟨d, q⟩ := x
      dsimp only
      rw [map_ok_iff, ih]
      exact ⟨fun h => ⟨⟨_, rfl⟩, h⟩, fun h => h.2⟩

/-- A section neither fills an array past its end nor leaves a light without a level. -/
structure Section.Safe (sec : Section) : Prop where
  indexed : sec.Indexed
  lit : sec.Lit

/-- Loading a blob and starting its conditions is without a fault exactly if each of
its sections is safe. -/
theorem login_ok_iff (loaded started : Int64) (start : ℕ → Start) (p : Creature) (blob : Bytes) :
    (∃ r, login loaded started start p blob = .ok r) ↔ ∀ sec ∈ sections blob, sec.Safe := by
  rw [login]
  obtain ⟨hindexed, l, hl, hlit⟩ | ⟨hindexed, fault, hfault⟩ :=
    loadConditions_spec loaded blob.length [] blob
  · simp only [hl]
    rw [startStored_ok_iff, hlit]
    exact ⟨fun h sec hsec => ⟨hindexed sec hsec, h.2 sec hsec⟩,
      fun h => ⟨List.forall_mem_nil _, fun sec hsec => (h sec hsec).lit⟩⟩
  · simp only [hfault]
    exact iff_of_false (fun ⟨_, h⟩ => nomatch h) fun h => hindexed fun sec hsec => (h sec hsec).indexed

def eighthSkill : Bytes :=
  (Condition.new idDefault .attributes 1000 false 0 false).serialize ++
    (List.replicate 8 (tagged .skills (writeInt 1))).flatten ++ write8 ConditionAttr.last.code

/-- A saved light without its level. -/
def darkLight : Bytes :=
  (Condition.new idDefault .light 1000 false 0 false).serialize ++ write8 ConditionAttr.last.code

theorem login_fault : login 0 0 (fun _ => { hit := true, speedDelta := 0 }) {} eighthSkill = .error .skills ∧
      login 0 0 (fun _ => { hit := true, speedDelta := 0 }) {} darkLight = .error .division :=
  ⟨rfl, rfl⟩

end ForgottenServer.Conditions
