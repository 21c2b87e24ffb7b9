import ForgottenServer.Conditions.Rounds
import ForgottenServer.Lib.Width

/-! # The blob of conditions

What loading a blob and starting its conditions does, where C++ leaves an index past
an array and a division by zero undefined: both are faults here. Beside it stands
what the blob is made of, read without any condition. -/
namespace ForgottenServer.Conditions
open ForgottenServer.Lib.Wire ForgottenServer.Lib.Width

/-- What has no meaning: an entry past an array, or a division by zero. -/
inductive Fault
  | skills | stats | division
  deriving DecidableEq, Repr

/-! ## Loading -/

/-- An array is indexed before anything is read. -/
def AnyCondition.checkIndex : AnyCondition → ConditionAttr → Except Fault Unit
  | .attributes c, .skills => if c.currentSkill < 7 then .ok () else .error .skills
  | .attributes c, .stats => if c.currentStat < 4 then .ok () else .error .stats
  | _, _ => .ok ()

namespace Checked

/-- `Condition::unserialize`. -/
def unserialize (now : Int64) : ℕ → AnyCondition → Bytes → Except Fault (Option AnyCondition × Bytes)
  | 0, c, s => .ok (some c, s)
  | rounds + 1, c, s =>
    match read8 s with
    | none => .ok (some c, s)
    | some (n, s) =>
      match ConditionAttr.ofCode n with
      | none => .ok (none, s)
      | some attr =>
        if attr = .last then .ok (some c, s)
        else
          match c.checkIndex attr with
          | .error fault => .error fault
          | .ok _ =>
            match c.unserializeProp now attr s with
            | none => .ok (none, s)
            | some (c, s) => unserialize now rounds c s

/-- The loop of `loadPlayer`. -/
def loadConditions (now : Int64) : ℕ → List AnyCondition → Bytes → Except Fault (List AnyCondition)
  | 0, stored, _ => .ok stored
  | rounds + 1, stored, s =>
    match createFrom s with
    | none => .ok stored
    | some (c, s) =>
      match unserialize now s.length c s with
      | .error fault => .error fault
      | .ok (some c, s) => loadConditions now rounds (c :: stored) s
      | .ok (none, s) => loadConditions now rounds stored s

end Checked

/-! ## Starting -/

def ConditionLight.startCondition (c : ConditionLight) (now : Int64) : Except Fault ConditionLight :=
  let base := c.toCondition.startCondition now
  if c.lightInfo.level = 0 then .error .division
  else
    .ok { c with
      toCondition := base
      internalLightTicks := 0
      lightChangeInterval := (base.ticks / c.lightInfo.level.toUInt32.toInt32).toUInt32 }

/-- What decides a start beside the condition: the answer of `doDamage` for a first
damage, and the speed that a formula gives. -/
structure Start where
  hit : Bool
  speedDelta : Int32

def ConditionSpeed.startCondition (c : ConditionSpeed) (start : Start) (now : Int64) : ConditionSpeed :=
  { c with
    toCondition := c.toCondition.startCondition now
    speedDelta := if c.speedDelta = 0 then start.speedDelta else c.speedDelta }

/-- `startCondition`, for a condition of a blob: there is nothing to roll its rounds
from. A condition that does not start is dropped. -/
def AnyCondition.startCondition (c : AnyCondition) (start : Start) (p : Creature) (now : Int64) :
    Except Fault (Option AnyCondition × Creature) :=
  match c with
  | .generic c => .ok (some (.generic (c.startCondition now)), p)
  | .attributes c =>
    let (base, p) := c.toConditionAttributes.startCondition p now
    .ok (some (.attributes { c with toConditionAttributes := base }), p)
  | .regeneration c => .ok (some (.regeneration { c with toCondition := c.toCondition.startCondition now }), p)
  | .soul c => .ok (some (.soul { c with toCondition := c.toCondition.startCondition now }), p)
  | .damage c => .ok ((c.startCondition start.hit [] now).map .damage, p)
  | .speed c => .ok (some (.speed (c.startCondition start now)), p)
  | .outfit c => .ok (some (.outfit { c with toCondition := c.toCondition.startCondition now }), p)
  | .light c => (c.startCondition now).map fun c => (some (.light c), p)

/-- Each with a start of its own, the first in the list first. -/
def startStored (now : Int64) : (ℕ → Start) → Creature → List AnyCondition →
    Except Fault (List AnyCondition × Creature)
  | _, p, [] => .ok ([], p)
  | start, p, c :: stored =>
    match c.startCondition (start 0) p now with
    | .error fault => .error fault
    | .ok (c, p) => (startStored now (fun i => start (i + 1)) p stored).map fun (l, p) => (c.toList ++ l, p)

/-- A blob is loaded at one time and its conditions start at a later one. -/
def login (loaded started : Int64) (start : ℕ → Start) (p : Creature) (blob : Bytes) :
    Except Fault (List AnyCondition × Creature) :=
  match Checked.loadConditions loaded blob.length [] blob with
  | .error fault => .error fault
  | .ok stored => startStored started start p stored

/-! ## What a blob is made of -/

/-- The class of a condition. -/
inductive Kind
  | generic | attributes | regeneration | soul | damage | speed | outfit | light
  deriving DecidableEq, Repr

def ConditionType.kind : ConditionType → Option Kind
  | .none => Option.none
  | .poison | .fire | .energy | .drown | .freezing | .dazzled | .cursed | .bleeding => some .damage
  | .haste | .paralyze => some .speed
  | .outfit => some .outfit
  | .light => some .light
  | .regeneration => some .regeneration
  | .soul => some .soul
  | .attributes => some .attributes
  | _ => some .generic

/-- The bytes that the value of an attribute takes in any class. -/
def ConditionAttr.width : ConditionAttr → Option ℕ
  | .type | .id | .ticks | .subId => some 4
  | .isBuff | .isAggressive => some 1
  | .last => some 0
  | _ => none

/-- The bytes that the value of an attribute takes, for the attributes that a class has. -/
def Kind.width (kind : Kind) (attr : ConditionAttr) : Option ℕ :=
  match kind, attr with
  | .attributes, .skills | .attributes, .stats => some 4
  | .attributes, .disableDefense => some 1
  | .regeneration, .healthTicks | .regeneration, .healthGain => some 4
  | .regeneration, .manaTicks | .regeneration, .manaGain => some 4
  | .soul, .soulGain | .soul, .soulTicks => some 4
  | .damage, .delayed => some 1
  | .damage, .periodDamage | .damage, .owner => some 4
  | .damage, .intervalData => some 12
  | .speed, .speedDelta => some 4
  | .speed, .formulaMinA | .speed, .formulaMinB | .speed, .formulaMaxA | .speed, .formulaMaxB => some 4
  | .outfit, .outfit => some 12
  | .light, .lightColor | .light, .lightLevel | .light, .lightTicks | .light, .lightInterval => some 4
  | _, _ => attr.width

/-- An attribute with the bytes of its value. -/
structure Record where
  attr : ConditionAttr
  value : Bytes

/-- A condition of the blob, up to its end, or to an attribute that it does not have
or whose value is cut off. -/
structure Section where
  kind : Kind
  records : List Record
  ended : Bool

/-- The attributes behind a header, whether they end, and what is left. A value that
is cut off counts as a record. -/
def records (kind : Kind) : ℕ → Bytes → List Record × Bool × Bytes
  | 0, s => ([], true, s)
  | rounds + 1, s =>
    match read8 s with
    | none => ([], true, s)
    | some (n, s) =>
      match ConditionAttr.ofCode n with
      | none => ([], false, s)
      | some attr =>
        if attr = .last then ([], true, s)
        else
          match kind.width attr with
          | none => ([], false, s)
          | some w =>
            if s.length < w then ([⟨attr, s⟩], false, s)
            else
              let (l, ended, r) := records kind rounds (s.drop w)
              (⟨attr, s.take w⟩ :: l, ended, r)

/-- The class that a header is for. -/
def header (s : Bytes) : Option (Kind × Bytes) := do
  let (type, s) ← readTagged .type read32 s
  let (_, s) ← readTagged .id read32 s
  let (_, s) ← readTagged .ticks read32 s
  let (_, s) ← readTagged .isBuff readBool s
  let (_, s) ← readTagged .subId read32 s
  let (_, s) ← readTagged .isAggressive readBool s
  let kind ← (ConditionType.ofCode type).kind
  pure (kind, s)

def sectionsFrom : ℕ → Bytes → List Section
  | 0, _ => []
  | rounds + 1, s =>
    match header s with
    | none => []
    | some (kind, s) =>
      let (l, ended, r) := records kind s.length s
      ⟨kind, l, ended⟩ :: sectionsFrom rounds r

def sections (blob : Bytes) : List Section := sectionsFrom blob.length blob

def count (attr : ConditionAttr) (l : List Record) : ℕ := l.countP (·.attr = attr)

/-- The level of a light after the records: the low byte of the last one that has it. -/
def levelAfter (level : UInt8) (l : List Record) : UInt8 :=
  l.foldl (fun level record => if record.attr = .lightLevel then record.value.headD 0 else level) level

/-- No more records than the arrays have entries. -/
def Section.Indexed (sec : Section) : Prop :=
  sec.kind = .attributes → count .skills sec.records ≤ 7 ∧ count .stats sec.records ≤ 4

/-- A light has a level, unless it is deleted. -/
def Section.Lit (sec : Section) : Prop :=
  sec.kind = .light → sec.ended = true → levelAfter 0 sec.records ≠ 0

instance (sec : Section) : Decidable sec.Indexed := by unfold Section.Indexed; infer_instance

instance (sec : Section) : Decidable sec.Lit := by unfold Section.Lit; infer_instance

end ForgottenServer.Conditions
