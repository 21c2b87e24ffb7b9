import ForgottenServer.Save.Attributes

/-! # Attributes that are saved and loaded

Each part of what `serializeAttr` writes is read by some rounds of the loop of
`unserializeAttr`, which do to the new item what the part says of the old one.
The loop calls the `readAttr` of a class; what is shown here holds for each class
that reads the tags of `Item` as `Item` does. -/
namespace ForgottenServer.Save
open ForgottenServer.Lib.Wire
namespace Item

/-- The rounds that read `p` do `f` to the item. -/
def Reads (reader : Reader) (p : Bytes) (f : Item → Item) : Prop :=
  ∃ k ≤ p.length, ∀ fuel x r, unserializeWith reader (k + fuel) x (p ++ r) = unserializeWith reader fuel (f x) r

section Reads
variable {reader : Reader} {p q : Bytes} {f g : Item → Item}

theorem reads_nil : Reads reader [] fun x => x := ⟨0, le_rfl, fun fuel x r => by simp⟩

theorem Reads.append (hp : Reads reader p f) (hq : Reads reader q g) : Reads reader (p ++ q) fun x => g (f x) := by
  obtain ⟨k, hk, hp⟩ := hp
  obtain ⟨l, hl, hq⟩ := hq
  refine ⟨k + l, by rw [List.length_append]; omega, fun fuel x r => ?_⟩
  rw [List.append_assoc, Nat.add_assoc, hp, hq]

theorem Reads.ite {c : Prop} [Decidable c] (hp : Reads reader p f) :
    Reads reader (if c then p else []) fun x => if c then f x else x := by
  split
  · exact hp
  · exact reads_nil

theorem reads_tagged {tag : ℕ} (htag : 0 < tag ∧ tag < 256)
    (h : ∀ x r, reader x tag (p ++ r) = (.readContinue, f x, r)) : Reads reader (tagged tag p) f := by
  refine ⟨1, by simp [tagged], fun fuel x r => ?_⟩
  have hmod : tag % 256 ^ 1 = tag := Nat.mod_eq_of_lt htag.2
  rw [Nat.add_comm, unserializeWith, tagged, List.append_assoc, read_encode, hmod]
  simp only [if_neg htag.1.ne', h]

theorem Reads.unserialize (hp : Reads reader p f) (x : Item) (r : Bytes) {fuel : ℕ}
    (hfuel : p.length < fuel) : unserializeWith reader fuel x (p ++ 0 :: r) = (true, f x, r) := by
  obtain ⟨k, hk, hp⟩ := hp
  obtain ⟨n, rfl⟩ : ∃ n, fuel = k + (n + 1) := ⟨fuel - k - 1, by omega⟩
  rw [hp, unserializeWith]
  rfl

theorem Reads.unserialize_end (hp : Reads reader p f) {tag : ℕ} (htag : 0 < tag ∧ tag < 256)
    (hq : ∀ x r, reader x tag (q ++ r) = (.readEnd, g x, r)) (x : Item) (r : Bytes) {fuel : ℕ}
    (hfuel : p.length < fuel) : unserializeWith reader fuel x (p ++ (tagged tag q ++ r)) = (true, g (f x), r) := by
  obtain ⟨k, hk, hp⟩ := hp
  obtain ⟨n, rfl⟩ : ∃ n, fuel = k + (n + 1) := ⟨fuel - k - 1, by omega⟩
  have hmod : tag % 256 ^ 1 = tag := Nat.mod_eq_of_lt htag.2
  rw [hp, unserializeWith, tagged, List.append_assoc, read_encode, hmod]
  simp only [if_neg htag.1.ne', hq]

end Reads

/-! ## One attribute -/

/-- The tags that `Item::readAttr` leaves to other classes or does not know. -/
def foreign : List ℕ := [8, 10, 14, 20, 21, 23]

/-- The reader of a class that reads the tags of `Item` as `Item` does. -/
def ReadsAs (sv : Server) (reader : Reader) : Prop :=
  ∀ x attr s, attr ∉ foreign → reader x attr s = readAttr sv x attr s

abbrev IsOwn (tag : ℕ) : Prop := tag ∉ foreign ∧ 0 < tag ∧ tag < 256

/-- `x`'s attribute, where it has it. -/
def copyInt (x : Item) (a : IntAttr) (y : Item) : Item :=
  if x.hasInt a then y.setIntAttr a (x.getIntAttr a) else y

def copyStr (x : Item) (a : StrAttr) (y : Item) : Item := y.setStrAttr a (x.getStrAttr a)

theorem readNumber_write (x : Item) (k : ℕ) (v : ℤ) (r : Bytes) (f : ℕ → Item) :
    x.readNumber k (write k v ++ r) f = (.readContinue, f (v % 256 ^ k).toNat, r) := by
  rw [readNumber, read_write]

section Attributes
variable {sv : Server} {reader : Reader} {x : Item}

theorem reads_int (hreader : ReadsAs sv reader) {tag k : ℕ} (htag : IsOwn tag) {a : IntAttr} {toInt : ℕ → ℤ}
    (hread : ∀ y s, readAttr sv y tag s = y.readNumber k s fun n => y.setIntAttr a (toInt n))
    (hback : ∀ v, x.int a = some v → toInt (v % 256 ^ k).toNat = v) :
    Reads reader (x.writeIntAttr tag a k) (x.copyInt a) := by
  unfold writeIntAttr copyInt
  split
  · rename_i hhas
    obtain ⟨v, hv⟩ := Option.isSome_iff_exists.mp hhas
    refine reads_tagged htag.2 fun y r => ?_
    rw [hreader y tag _ htag.1, hread, readNumber_write]
    simp only [getIntAttr, hv, Option.getD_some, hback v hv]
  · exact reads_nil

theorem reads_str (hreader : ReadsAs sv reader) {tag : ℕ} (htag : IsOwn tag) {a : StrAttr}
    (hread : ∀ y s, readAttr sv y tag s = y.readText s a) (hlen : (x.getStrAttr a).length < 2 ^ 16) :
    Reads reader (x.writeStrAttr tag a) (x.copyStr a) := by
  unfold writeStrAttr copyStr
  split
  · refine reads_tagged htag.2 fun y r => ?_
    rw [hreader y tag _ htag.1, hread, readText, readString_writeString hlen]
  · rename_i hempty
    have hnil : x.getStrAttr a = [] := by simpa using hempty
    have hid : (fun y : Item => y.setStrAttr a (x.getStrAttr a)) = fun y => y := by
      funext y
      rw [hnil, setStrAttr, if_pos rfl]
    rw [hid]
    exact reads_nil

end Attributes

end Item

/-! ## Custom attributes -/

/-- A value that is written whole and read again. -/
def CustomAttribute.InRange : CustomAttribute → Prop
  | .blank => False
  | .string v => v.length < 2 ^ 16
  | _ => True

namespace Item

theorem unserializeCustom_serialize {v : CustomAttribute} (hv : v.InRange) (r : Bytes) :
    unserializeCustom (v.serialize ++ r) = (some v, r) := by
  have hbits : ∀ w : BitVec 64, BitVec.ofNat 64 (w.toNat % 18446744073709551616) = w := fun w => by
    rw [Nat.mod_eq_of_lt w.isLt, BitVec.ofNat_toNat, BitVec.setWidth_eq]
  cases v with
  | blank => exact hv.elim
  | string v =>
    rw [CustomAttribute.serialize, List.append_assoc, unserializeCustom, read_encode]
    simp only [Nat.reducePow, Nat.reduceMod, readString_writeString hv]
    rfl
  | integer v =>
    rw [CustomAttribute.serialize, List.append_assoc, unserializeCustom, read_encode]
    simp only [Nat.reducePow, Nat.reduceMod, read_encode, Option.map_some, Option.getD_some, hbits]
  | double v =>
    rw [CustomAttribute.serialize, List.append_assoc, unserializeCustom, read_encode]
    simp only [Nat.reducePow, Nat.reduceMod, read_encode, Option.map_some, Option.getD_some, hbits]
  | bool v =>
    rw [CustomAttribute.serialize, List.append_assoc, unserializeCustom, read_encode]
    simp only [Nat.reducePow, Nat.reduceMod, read_encode]
    cases v <;> rfl

/-- The entries one after the other. -/
def setCustomAttributes (m : CustomAttributeMap) (x : Item) : Item :=
  m.foldl (fun x e => x.setCustomAttribute e.1 e.2) x

structure EntryInRange (e : Bytes × CustomAttribute) : Prop where
  key : e.1.length < 2 ^ 16
  lower : toLowerCaseString e.1 = e.1
  value : e.2.InRange

theorem readCustomAttributes_entries {m : CustomAttributeMap} (hm : ∀ e ∈ m, EntryInRange e) (x : Item) (r : Bytes) :
    readCustomAttributes m.length x ((m.flatMap fun e => writeString e.1 ++ e.2.serialize) ++ r) =
      (.readContinue, setCustomAttributes m x, r) := by
  induction m generalizing x with
  | nil => rfl
  | cons e m ih =>
    have he := hm e (by simp)
    rw [List.length_cons, List.flatMap_cons, readCustomAttributes]
    simp only [List.append_assoc, readString_writeString he.key, unserializeCustom_serialize he.value]
    exact ih (fun e' he' => hm e' (List.mem_cons_of_mem e he')) _

theorem setCustomAttributes_custom {m : CustomAttributeMap} (hm : ∀ e ∈ m, EntryInRange e)
    (hkeys : (m.map Prod.fst).Nodup) {x : Item} {l : CustomAttributeMap} (hx : x.custom.getD [] = l)
    (hnew : ∀ e ∈ m, ∀ e' ∈ l, e'.1 ≠ e.1) : (setCustomAttributes m x).custom.getD [] = l ++ m := by
  induction m generalizing x l with
  | nil => simpa [setCustomAttributes] using hx
  | cons e m ih =>
    have he := hm e (by simp)
    have hfilter : l.filter (·.1 ≠ e.1) = l := by
      rw [List.filter_eq_self]
      intro e' he'
      simpa using hnew e (by simp) e' he'
    have hset : (x.setCustomAttribute e.1 e.2).custom.getD [] = l ++ [e] := by
      simp only [setCustomAttribute, hx, he.lower, Option.getD_some, hfilter]
    obtain ⟨hnotin, hkeys⟩ := List.nodup_cons.mp hkeys
    have hrest := ih (fun e' he' => hm e' (List.mem_cons_of_mem e he')) hkeys hset ?_
    · rw [setCustomAttributes, List.foldl_cons]
      rw [setCustomAttributes] at hrest
      rw [hrest, List.append_assoc]
      rfl
    · intro e' he' e'' he''
      rcases List.mem_append.mp he'' with hl | hl
      · exact hnew e' (List.mem_cons_of_mem e he') e'' hl
      · rw [List.mem_singleton.mp hl]
        intro heq
        exact hnotin (heq ▸ List.mem_map_of_mem he')

end Item

/-! ## The whole item -/

/-- The numbers that an attribute can hold and that its bytes can tell apart when they
are read. A date and a duration are read with a sign. -/
def IntAttr.range : IntAttr → ℤ × ℤ
  | .actionId | .uniqueId | .charges | .wrapId => (0, 2 ^ 16)
  | .date | .duration => (0, 2 ^ 31)
  | .weight | .attackSpeed | .owner | .corpseOwner => (0, 2 ^ 32)
  | .attack | .defense | .extraDefense | .armor | .decayTo => (-2 ^ 31, 2 ^ 31)
  | .hitChance => (-2 ^ 7, 2 ^ 7)
  | .shootRange | .storeItem | .openContainer | .fluidType | .doorId => (0, 2 ^ 8)
  | .decayState => (0, 3)

namespace Item

/-- Every attribute is in the range in which it is written, strings and custom
attributes are as their setters leave them. -/
structure InRange (x : Item) : Prop where
  count : x.count < 2 ^ 8
  int : ∀ a v, x.int a = some v → a.range.1 ≤ v ∧ v < a.range.2
  str : ∀ a v, x.str a = some v → v ≠ [] ∧ v.length < 2 ^ 16
  size : ∀ m, x.custom = some m → m.length < 2 ^ 64
  keys : ∀ m, x.custom = some m → (m.map Prod.fst).Nodup
  entries : ∀ m, x.custom = some m → ∀ e ∈ m, EntryInRange e

theorem InRange.getIntAttr {x : Item} (hx : x.InRange) (a : IntAttr) (h₀ : a.range.1 ≤ 0 ∧ 0 < a.range.2) :
    a.range.1 ≤ x.getIntAttr a ∧ x.getIntAttr a < a.range.2 := by
  unfold Item.getIntAttr
  cases h : x.int a with
  | none => exact h₀
  | some v => exact hx.int a v h

theorem InRange.getStrAttr {x : Item} (hx : x.InRange) (a : StrAttr) : (x.getStrAttr a).length < 2 ^ 16 := by
  unfold Item.getStrAttr
  cases h : x.str a with
  | none => decide
  | some v => exact (hx.str a v h).2

def copyCustom (x y : Item) : Item := setCustomAttributes (x.custom.getD []) y

def copyOverrides (x y : Item) : Item := overrides.foldl (fun y e => x.copyInt e.2.1 y) y

/-- What loading `x` does to its texts and its date. -/
def copyTexts (x y : Item) : Item :=
  let y := x.copyStr .text y
  let y := if x.getIntAttr .date ≠ 0 then y.setIntAttr .date (x.getIntAttr .date) else y
  x.copyStr .description (x.copyStr .writer y)

def copyDecay (x y : Item) : Item :=
  let y := x.copyInt .duration y
  if x.getDecaying = 1 ∨ x.getDecaying = 2 then y.setIntAttr .decayState 2 else y

def copyNames (x y : Item) : Item :=
  x.copyStr .pluralName (x.copyStr .article (x.copyStr .name y))

variable (sv : Server)

def copyCounts (x y : Item) : Item :=
  let it := x.type sv
  let y := if it.stackable || it.isFluid then y.setSubType sv (x.getSubType sv % 2 ^ 8) else y
  if x.getCharges ≠ 0 then y.setSubType sv x.getCharges else y

def copyActionId (x y : Item) : Item :=
  if (x.type sv).moveable ∧ x.getActionId ≠ 0 then y.setActionId x.getActionId else y

def copySubType (x y : Item) : Item := x.copyActionId sv (x.copyCounts sv y)

/-- What loading `x` does to a new item. -/
def copyAttr (x y : Item) : Item :=
  x.copyCustom (x.copyOverrides (x.copyNames (x.copyDecay (x.copyTexts (x.copySubType sv y)))))

section Parts
variable {sv : Server} {reader : Reader} {x : Item}

theorem writeSubType_reads (hreader : ReadsAs sv reader) : Reads reader (x.writeSubType sv) (x.copySubType sv) := by
  have hcount : Reads reader (tagged 15 (write 1 (x.getSubType sv)))
      fun y => y.setSubType sv (x.getSubType sv % 2 ^ 8) := by
    have hback : ((x.getSubType sv % 256 ^ 1).toNat : ℤ) = x.getSubType sv % 2 ^ 8 := by omega
    refine reads_tagged (by decide) fun y r => ?_
    rw [hreader y 15 _ (by decide)]
    simp only [readAttr, readNumber_write, hback]
  have hcharges : Reads reader (tagged 22 (write 2 x.getCharges)) fun y => y.setSubType sv x.getCharges := by
    have hback : ((x.getCharges % 256 ^ 2).toNat : ℤ) = x.getCharges := by
      simp only [getCharges]
      omega
    refine reads_tagged (by decide) fun y r => ?_
    rw [hreader y 22 _ (by decide)]
    simp only [readAttr, readNumber_write, hback]
  have haction : Reads reader (tagged 4 (write 2 x.getActionId)) fun y => y.setActionId x.getActionId := by
    have hback : ((x.getActionId % 256 ^ 2).toNat : ℤ) = x.getActionId := by
      simp only [getActionId]
      omega
    refine reads_tagged (by decide) fun y r => ?_
    rw [hreader y 4 _ (by decide)]
    simp only [readAttr, readNumber_write, hback]
  exact (hcount.ite.append hcharges.ite).append haction.ite

theorem writeTexts_reads (hreader : ReadsAs sv reader) (hx : x.InRange) : Reads reader x.writeTexts x.copyTexts := by
  have htext : Reads reader (x.writeStrAttr 6 .text) (x.copyStr .text) :=
    reads_str hreader (by decide) (fun _ _ => rfl) (hx.getStrAttr .text)
  have hdate : Reads reader (tagged 18 (write 4 (x.getIntAttr .date)))
      fun y => y.setIntAttr .date (x.getIntAttr .date) := by
    have hrange := hx.getIntAttr .date (by decide)
    simp only [IntAttr.range] at hrange
    have hback : Int.bmod (((x.getIntAttr .date) % 256 ^ 4).toNat : ℤ) (2 ^ 32) = x.getIntAttr .date := by
      rw [unsigned_of_range hrange.1 (by omega)]
      exact Int.bmod_eq_of_le_mul_two (by omega) (by omega)
    refine reads_tagged (by decide) fun y r => ?_
    rw [hreader y 18 _ (by decide)]
    simp only [readAttr, readNumber_write, setDate, hback]
  have hwriter : Reads reader (x.writeStrAttr 19 .writer) (x.copyStr .writer) :=
    reads_str hreader (by decide) (fun _ _ => rfl) (hx.getStrAttr .writer)
  have hdescription : Reads reader (x.writeStrAttr 7 .description) (x.copyStr .description) :=
    reads_str hreader (by decide) (fun _ _ => rfl) (hx.getStrAttr .description)
  exact ((htext.append hdate.ite).append hwriter).append hdescription

theorem writeDecay_reads (hreader : ReadsAs sv reader) (hx : x.InRange) : Reads reader x.writeDecay x.copyDecay := by
  have hduration : Reads reader (x.writeIntAttr 16 .duration 4) (x.copyInt .duration) := by
    refine reads_int hreader (by decide) (fun y s => rfl) fun v hv => ?_
    have hrange := hx.int .duration v hv
    simp only [IntAttr.range] at hrange
    rw [signed_of_range (by omega) (by omega)]
    exact max_eq_right hrange.1
  have hstate : Reads reader (if x.getDecaying = 1 ∨ x.getDecaying = 2 then tagged 17 (write 1 x.getDecaying) else [])
        fun y => if x.getDecaying = 1 ∨ x.getDecaying = 2 then
          y.setIntAttr .decayState 2 else y := by
    split
    · -- the byte is not looked at beyond its being zero
      have hne : (x.getDecaying % 256 ^ 1).toNat ≠ 0 := by omega
      refine reads_tagged (by decide) fun y r => ?_
      rw [hreader y 17 _ (by decide)]
      simp only [readAttr, readNumber_write, if_pos hne]
    · exact reads_nil
  exact hduration.append hstate

theorem writeNames_reads (hreader : ReadsAs sv reader) (hx : x.InRange) : Reads reader x.writeNames x.copyNames := by
  have hname : Reads reader (x.writeStrAttr 24 .name) (x.copyStr .name) :=
    reads_str hreader (by decide) (fun _ _ => rfl) (hx.getStrAttr .name)
  have harticle : Reads reader (x.writeStrAttr 25 .article) (x.copyStr .article) :=
    reads_str hreader (by decide) (fun _ _ => rfl) (hx.getStrAttr .article)
  have hplural : Reads reader (x.writeStrAttr 26 .pluralName) (x.copyStr .pluralName) :=
    reads_str hreader (by decide) (fun _ _ => rfl) (hx.getStrAttr .pluralName)
  exact (hname.append harticle).append hplural

/-- How each tag of `overrides` is read. -/
theorem override_reads (hreader : ReadsAs sv reader) (hx : x.InRange) :
    ∀ e ∈ overrides, Reads reader (x.writeIntAttr e.1 e.2.1 e.2.2) (x.copyInt e.2.1) := by
  have hunsigned : ∀ {tag k : ℕ} (a : IntAttr), IsOwn tag → a.range = (0, 256 ^ k) →
      (∀ y s, readAttr sv y tag s = y.readNumber k s fun n => y.setIntAttr a n) →
        Reads reader (x.writeIntAttr tag a k) (x.copyInt a) := by
    intro tag k a htag hrange hread
    refine reads_int hreader htag hread fun v hv => ?_
    have hv := hx.int a v hv
    rw [hrange] at hv
    exact unsigned_of_range hv.1 hv.2
  have hsigned : ∀ {tag k : ℕ} (a : IntAttr), IsOwn tag → 2 * a.range.1 = -256 ^ k → 2 * a.range.2 = 256 ^ k →
      (∀ y s, readAttr sv y tag s = y.readNumber k s fun n => y.setIntAttr a (toSigned k n)) →
        Reads reader (x.writeIntAttr tag a k) (x.copyInt a) := by
    intro tag k a htag hlow hhigh hread
    refine reads_int hreader htag hread fun v hv => ?_
    have hv := hx.int a v hv
    exact signed_of_range (by omega) (by omega)
  simp only [overrides, List.forall_mem_cons, List.not_mem_nil, false_implies, implies_true, and_true]
  refine ⟨hunsigned .weight ?_ ?_ ?_, hsigned .attack ?_ ?_ ?_ ?_, hunsigned .attackSpeed ?_ ?_ ?_,
    hsigned .defense ?_ ?_ ?_ ?_, hsigned .extraDefense ?_ ?_ ?_ ?_, hsigned .armor ?_ ?_ ?_ ?_,
    hsigned .hitChance ?_ ?_ ?_ ?_, hunsigned .shootRange ?_ ?_ ?_, hsigned .decayTo ?_ ?_ ?_ ?_,
    hunsigned .wrapId ?_ ?_ ?_, hunsigned .storeItem ?_ ?_ ?_, hunsigned .openContainer ?_ ?_ ?_⟩
  all_goals first | decide | exact fun _ _ => rfl

theorem overrides_reads (hreader : ReadsAs sv reader) (hx : x.InRange) {l : List (ℕ × IntAttr × ℕ)}
    (hl : ∀ e ∈ l, e ∈ overrides) :
    Reads reader (l.flatMap fun (tag, a, k) => x.writeIntAttr tag a k)
      fun y => l.foldl (fun y e => x.copyInt e.2.1 y) y := by
  induction l with
  | nil => exact reads_nil
  | cons e l ih =>
    have hhead := override_reads hreader hx e (hl e (by simp))
    exact hhead.append (ih fun e' he' => hl e' (List.mem_cons_of_mem e he'))

theorem writeCustomAttributes_reads (hreader : ReadsAs sv reader) (hx : x.InRange) :
    Reads reader x.writeCustomAttributes x.copyCustom := by
  unfold writeCustomAttributes copyCustom
  cases hm : x.custom with
  | none => exact reads_nil
  | some m =>
    have hsize : m.length % 256 ^ 8 = m.length := Nat.mod_eq_of_lt (hx.size m hm)
    refine reads_tagged (by decide) fun y r => ?_
    rw [hreader y 34 _ (by decide), List.append_assoc]
    simp only [readAttr, read_encode, hsize]
    exact readCustomAttributes_entries (hx.entries m hm) y r

theorem serializeAttr_reads (hreader : ReadsAs sv reader) (hx : x.InRange) :
    Reads reader (x.serializeAttr sv) (x.copyAttr sv) :=
  ((((((writeSubType_reads hreader).append (writeTexts_reads hreader hx)).append
    (writeDecay_reads hreader hx)).append (writeNames_reads hreader hx)).append
      (overrides_reads hreader hx fun _ he => he)).append (writeCustomAttributes_reads hreader hx))

end Parts

/-! ## What comes back -/

section Fields
variable (x y : Item)

@[simp] theorem setIntAttr_int (a b : IntAttr) (v : ℤ) :
    (y.setIntAttr a v).int b = if b = a then some v else y.int b := Function.update_apply _ _ _ _

@[simp] theorem setIntAttr_count (a : IntAttr) (v : ℤ) : (y.setIntAttr a v).count = y.count := rfl

/-- The texts and custom attributes are as they were. -/
structure SameTexts (x y : Item) : Prop where
  id : y.id = x.id
  str : y.str = x.str
  custom : y.custom = x.custom

/-- The numbers are as they were. -/
structure SameNumbers (x y : Item) : Prop where
  id : y.id = x.id
  count : y.count = x.count
  int : y.int = x.int

theorem SameTexts.trans {x y z : Item} (h : SameTexts x y) (h' : SameTexts y z) : SameTexts x z :=
  ⟨h'.id.trans h.id, h'.str.trans h.str, h'.custom.trans h.custom⟩

theorem SameNumbers.trans {x y z : Item} (h : SameNumbers x y) (h' : SameNumbers y z) : SameNumbers x z :=
  ⟨h'.id.trans h.id, h'.count.trans h.count, h'.int.trans h.int⟩

theorem setIntAttr_sameTexts (a : IntAttr) (v : ℤ) : SameTexts y (y.setIntAttr a v) :=
  ⟨rfl, rfl, rfl⟩

theorem setSubType_sameTexts (sv : Server) (n : ℤ) : SameTexts y (y.setSubType sv n) := by
  unfold setSubType
  dsimp only
  split_ifs <;> exact ⟨rfl, rfl, rfl⟩

theorem ite_sameTexts {c : Prop} [Decidable c] {z : Item} (h : SameTexts y z) : SameTexts y (if c then z else y) := by
  split
  · exact h
  · exact ⟨rfl, rfl, rfl⟩

theorem copyInt_sameTexts (a : IntAttr) : SameTexts y (x.copyInt a y) :=
  ite_sameTexts y (setIntAttr_sameTexts y a _)

theorem copyOverrides_sameTexts : SameTexts y (x.copyOverrides y) := by
  unfold copyOverrides
  generalize overrides = l
  induction l generalizing y with
  | nil => exact ⟨rfl, rfl, rfl⟩
  | cons e l ih => exact (copyInt_sameTexts x y e.2.1).trans (ih _)

theorem copySubType_sameTexts (sv : Server) : SameTexts y (x.copySubType sv y) :=
  ((ite_sameTexts y (setSubType_sameTexts y sv _)).trans (ite_sameTexts _ (setSubType_sameTexts _ sv _))).trans
      (ite_sameTexts _ (setIntAttr_sameTexts _ _ _))

theorem copyDecay_sameTexts : SameTexts y (x.copyDecay y) :=
  (copyInt_sameTexts x y .duration).trans (ite_sameTexts _ (setIntAttr_sameTexts _ _ _))

theorem new_sameTexts (sv : Server) (type count : ℕ) : SameTexts { id := type } (new sv type count) := by
  unfold new
  dsimp only
  split_ifs <;> exact ⟨rfl, rfl, rfl⟩

theorem copyStr_sameNumbers (a : StrAttr) : SameNumbers y (x.copyStr a y) := by
  unfold copyStr setStrAttr
  split <;> exact ⟨rfl, rfl, rfl⟩

theorem copyNames_sameNumbers : SameNumbers y (x.copyNames y) :=
  ((copyStr_sameNumbers x y .name).trans (copyStr_sameNumbers x _ .article)).trans
    (copyStr_sameNumbers x _ .pluralName)

theorem setCustomAttributes_sameNumbers (m : CustomAttributeMap) :
    SameNumbers y (setCustomAttributes m y) ∧ (setCustomAttributes m y).str = y.str := by
  induction m generalizing y with
  | nil => exact ⟨⟨rfl, rfl, rfl⟩, rfl⟩
  | cons e m ih =>
    obtain ⟨hnumbers, hstr⟩ := ih (y.setCustomAttribute e.1 e.2)
    have hset : SameNumbers y (y.setCustomAttribute e.1 e.2) := ⟨rfl, rfl, rfl⟩
    exact ⟨hset.trans hnumbers, hstr⟩

theorem copyStr_custom (a : StrAttr) : (x.copyStr a y).custom = y.custom := by
  unfold copyStr setStrAttr
  split <;> rfl

theorem copyStr_str {x : Item} (hx : x.InRange) (a b : StrAttr) :
    (x.copyStr a y).str b = if b = a ∧ (x.str a).isSome then x.str a else y.str b := by
  unfold copyStr setStrAttr getStrAttr
  cases h : x.str a with
  | none => simp
  | some v =>
    have hne : v ≠ [] := (hx.str a v h).1
    simp [hne, Function.update_apply]

theorem copyInt_int (a b : IntAttr) : (x.copyInt a y).int b = if b = a ∧ x.hasInt a then x.int a else y.int b := by
  unfold copyInt hasInt getIntAttr
  cases h : x.int a with
  | none => simp
  | some v => simp

theorem copyOverrides_int (b : IntAttr) : (x.copyOverrides y).int b =
    if b ∈ overrides.map (·.2.1) ∧ x.hasInt b then x.int b else y.int b := by
  unfold copyOverrides
  generalize overrides = l
  induction l generalizing y with
  | nil => simp
  | cons e l ih =>
    rw [List.foldl_cons, ih, copyInt_int]
    by_cases hb : b = e.2.1
    · subst hb
      by_cases hhas : x.hasInt e.2.1 <;> simp [hhas]
    · simp only [List.map_cons, List.mem_cons, hb, false_or, false_and, if_false]

end Fields

/-! The attributes of a loaded item -/

/-- What an item can have that neither its bytes nor its type brings back: charges are
read as a sub type, and a new item starts with the charges and the duration of its type. -/
structure Regular (sv : Server) (x : Item) : Prop where
  charges : x.getCharges ≠ 0 ↔ (x.type sv).charges ≠ 0 ∧ (x.type sv).isFluid = false ∧ (x.type sv).stackable = false
  duration : (x.type sv).duration ≠ 0 → x.hasInt .duration = true
  count : (x.type sv).isFluid = true ∨ (x.type sv).stackable = false → x.count = 1

/-- The attributes that are not written for every item. -/
def unsaved : List IntAttr := [.uniqueId, .owner, .corpseOwner, .doorId, .fluidType]

/-- The number that comes back: an action id only of what can be moved, and at least 100. -/
def kept (sv : Server) (x : Item) : IntAttr → ℤ
  | .actionId =>
    if (x.type sv).moveable ∧ x.getIntAttr .actionId ≠ 0 then max 100 (x.getIntAttr .actionId) else 0
  | .decayState => if x.getIntAttr .decayState = 1 then 2 else x.getIntAttr .decayState
  | a => x.getIntAttr a

structure Kept (sv : Server) (x y : Item) : Prop where
  id : y.id = x.id
  count : y.count = x.count
  subType : y.getSubType sv = x.getSubType sv
  uniqueId : y.int .uniqueId = none
  int : ∀ a, a ∉ unsaved → y.getIntAttr a = kept sv x a
  hasInt : ∀ a ∈ IntAttr.duration :: overrides.map (·.2.1), y.hasInt a = x.hasInt a
  str : y.str = x.str
  custom : ∀ key, y.getCustomAttribute key = x.getCustomAttribute key

section Loaded
variable {sv : Server} {x : Item} (n : ℕ)

/-- The item once its sub type and its charges are read. -/
structure CountsRead (sv : Server) (x y : Item) : Prop where
  count : y.count = x.count
  fluidType : (x.type sv).isFluid = true → y.int .fluidType = some x.getFluidType
  charges : y.getIntAttr .charges = x.getIntAttr .charges
  others : ∀ b, b ∉ [IntAttr.fluidType, .charges] → y.int b = (new sv x.id n).int b

theorem new_int {b : IntAttr} (hb : b ∉ [IntAttr.fluidType, .charges, .duration]) : (new sv x.id n).int b = none := by
  simp only [List.mem_cons, List.not_mem_nil, or_false, not_or] at hb
  unfold new
  dsimp only
  split_ifs <;> simp [hb]

theorem new_duration (h : (x.type sv).duration = 0) : (new sv x.id n).int .duration = none := by
  have h : (sv.items x.id).duration = 0 := h
  unfold new
  dsimp only
  rw [if_neg (by simp [h])]
  split_ifs <;> simp

theorem new_count (h : (x.type sv).isFluid = true ∨ (x.type sv).stackable = false) : (new sv x.id n).count = 1 := by
  have h : (sv.items x.id).isFluid = true ∨ (sv.items x.id).stackable = false := h
  unfold new
  dsimp only
  rcases h with h | h <;> split_ifs <;> simp_all

theorem new_type : (new sv x.id n).type sv = x.type sv := by
  unfold type
  rw [(new_sameTexts sv x.id n).id]

theorem copyCounts_fluid (hreg : Regular sv x) (hfluid : (x.type sv).isFluid = true) :
    x.copyCounts sv (new sv x.id n) = (new sv x.id n).setIntAttr .fluidType (x.getSubType sv % 2 ^ 8 % 2 ^ 16) := by
  have hcharges : x.getCharges = 0 := by
    by_contra h
    exact absurd hfluid (by simp [(hreg.charges.mp h).2.1])
  simp [copyCounts, hcharges, hfluid, setSubType, new_type]

theorem copyCounts_stack (hreg : Regular sv x) (hfluid : (x.type sv).isFluid = false)
    (hstack : (x.type sv).stackable = true) :
    x.copyCounts sv (new sv x.id n) = { new sv x.id n with count := (x.getSubType sv % 2 ^ 8 % 2 ^ 8).toNat } := by
  have hcharges : x.getCharges = 0 := by
    by_contra h
    exact absurd hstack (by simp [(hreg.charges.mp h).2.2])
  simp [copyCounts, hcharges, hfluid, hstack, setSubType, new_type]

theorem copyCounts_single (hreg : Regular sv x) (hfluid : (x.type sv).isFluid = false)
    (hstack : (x.type sv).stackable = false) :
    x.copyCounts sv (new sv x.id n) =
      if (x.type sv).charges ≠ 0 then (new sv x.id n).setIntAttr .charges (x.getCharges % 2 ^ 16)
      else new sv x.id n := by
  by_cases hcharges : (x.type sv).charges = 0
  · have hnone : x.getCharges = 0 := by
      by_contra h
      exact (hreg.charges.mp h).1 hcharges
    simp [copyCounts, hnone, hfluid, hstack, hcharges]
  · have hsome : x.getCharges ≠ 0 := hreg.charges.mpr ⟨hcharges, hfluid, hstack⟩
    simp [copyCounts, hsome, hfluid, hstack, hcharges, setSubType, new_type]

theorem new_charges (h : (x.type sv).isFluid = true ∨ (x.type sv).stackable = true ∨ (x.type sv).charges = 0) :
    (new sv x.id n).int .charges = none := by
  have h : (sv.items x.id).isFluid = true ∨ (sv.items x.id).stackable = true ∨ (sv.items x.id).charges = 0 := h
  unfold new
  dsimp only
  rcases h with h | h | h <;> split_ifs <;> simp_all

theorem getCharges_eq (hx : x.InRange) : x.getCharges = x.getIntAttr .charges := by
  have hrange := hx.getIntAttr .charges (by decide)
  simp only [IntAttr.range] at hrange
  exact Int.emod_eq_of_lt hrange.1 hrange.2

theorem copyCounts_read (hx : x.InRange) (hreg : Regular sv x) :
    CountsRead n sv x (x.copyCounts sv (new sv x.id n)) := by
  have hcharges := getCharges_eq hx
  cases hfluid : (x.type sv).isFluid with
  | true =>
    have hnone : x.getCharges = 0 := by
      by_contra h
      exact absurd hfluid (by simp [(hreg.charges.mp h).2.1])
    have hrange := hx.getIntAttr .fluidType (by decide)
    simp only [IntAttr.range] at hrange
    rw [copyCounts_fluid n hreg hfluid]
    refine ⟨?_, fun _ => ?_, ?_, fun b hb => ?_⟩
    · rw [setIntAttr_count, new_count n (.inl hfluid), hreg.count (.inl hfluid)]
    · rw [setIntAttr_int, if_pos rfl, getSubType, if_pos hfluid, getFluidType]
      congr 1
      omega
    · simp only [getIntAttr, setIntAttr_int, reduceCtorEq, if_false, new_charges n (.inl hfluid)]
      rw [← getIntAttr, ← hcharges, hnone]
      rfl
    · simp only [List.mem_cons, List.not_mem_nil, or_false, not_or] at hb
      rw [setIntAttr_int, if_neg hb.1]
  | false =>
    cases hstack : (x.type sv).stackable with
    | true =>
      have hnone : x.getCharges = 0 := by
        by_contra h
        exact absurd hstack (by simp [(hreg.charges.mp h).2.2])
      have hcount := hx.count
      rw [copyCounts_stack n hreg hfluid hstack]
      refine ⟨?_, fun h => absurd h (by simp [hfluid]), ?_, fun b hb => rfl⟩
      · simp only [getSubType, hfluid, hstack, Bool.false_eq_true, if_false, if_true]
        omega
      · simp only [getIntAttr, new_charges n (.inr (.inl hstack))]
        rw [← getIntAttr, ← hcharges, hnone]
        rfl
    | false =>
      rw [copyCounts_single n hreg hfluid hstack]
      refine ⟨?_, fun h => absurd h (by simp [hfluid]), ?_, fun b hb => ?_⟩
      · rw [hreg.count (.inr hstack)]
        split
        · exact new_count n (.inr hstack)
        · exact new_count n (.inr hstack)
      · split
        · have hrange := hx.getIntAttr .charges (by decide)
          simp only [IntAttr.range] at hrange
          simp only [getIntAttr, setIntAttr_int, if_true, Option.getD_some]
          rw [← getIntAttr, hcharges]
          omega
        · rename_i h
          have hzero : x.getCharges = 0 := by
            by_contra hne
            exact h (hreg.charges.mp hne).1
          simp only [getIntAttr, new_charges n (.inr (.inr (not_not.mp h)))]
          rw [← getIntAttr, ← hcharges, hzero]
          rfl
      · simp only [List.mem_cons, List.not_mem_nil, or_false, not_or] at hb
        split
        · rw [setIntAttr_int, if_neg hb.2]
        · rfl

theorem copyActionId_int (y : Item) (b : IntAttr) : (x.copyActionId sv y).int b =
    if b = .actionId ∧ (x.type sv).moveable ∧ x.getActionId ≠ 0 then
      some (if x.getActionId < 100 then 100 else x.getActionId)
    else y.int b := by
  unfold copyActionId setActionId
  by_cases h : (x.type sv).moveable ∧ x.getActionId ≠ 0 <;> simp [h]

theorem copyActionId_count (y : Item) : (x.copyActionId sv y).count = y.count := by
  unfold copyActionId setActionId
  split <;> rfl

theorem copyTexts_int (y : Item) (b : IntAttr) : (x.copyTexts y).int b =
    if b = .date ∧ x.getIntAttr .date ≠ 0 then some (x.getIntAttr .date) else y.int b := by
  unfold copyTexts
  dsimp only
  rw [(copyStr_sameNumbers x _ .description).int, (copyStr_sameNumbers x _ .writer).int]
  by_cases h : x.getIntAttr .date = 0
  · simp [h, (copyStr_sameNumbers x y .text).int]
  · simp [h, (copyStr_sameNumbers x y .text).int]

theorem copyTexts_count (y : Item) : (x.copyTexts y).count = y.count := by
  unfold copyTexts
  dsimp only
  rw [(copyStr_sameNumbers x _ .description).count, (copyStr_sameNumbers x _ .writer).count]
  split
  · exact (copyStr_sameNumbers x y .text).count
  · exact (copyStr_sameNumbers x y .text).count

theorem copyTexts_id_custom (y : Item) : (x.copyTexts y).id = y.id ∧ (x.copyTexts y).custom = y.custom := by
  unfold copyTexts
  dsimp only
  rw [(copyStr_sameNumbers x _ .description).id, (copyStr_sameNumbers x _ .writer).id, copyStr_custom, copyStr_custom]
  split
  · exact ⟨(copyStr_sameNumbers x y .text).id, copyStr_custom x y .text⟩
  · exact ⟨(copyStr_sameNumbers x y .text).id, copyStr_custom x y .text⟩

theorem copyDecay_int (y : Item) (b : IntAttr) : (x.copyDecay y).int b =
    if b = .decayState ∧ (x.getDecaying = 1 ∨ x.getDecaying = 2) then some 2
    else if b = .duration ∧ x.hasInt .duration then x.int .duration else y.int b := by
  unfold copyDecay
  dsimp only
  by_cases h : x.getDecaying = 1 ∨ x.getDecaying = 2 <;> simp [h, copyInt_int]

theorem copyDecay_count (y : Item) : (x.copyDecay y).count = y.count := by
  unfold copyDecay copyInt
  dsimp only
  split_ifs <;> rfl

theorem copyOverrides_count (y : Item) : (x.copyOverrides y).count = y.count := by
  unfold copyOverrides
  generalize overrides = l
  induction l generalizing y with
  | nil => rfl
  | cons e l ih =>
    rw [List.foldl_cons, ih]
    unfold copyInt
    split <;> rfl

theorem copyAttr_int (y : Item) (b : IntAttr) : (x.copyAttr sv y).int b =
    if b ∈ overrides.map (·.2.1) ∧ x.hasInt b then x.int b
    else (x.copyDecay (x.copyTexts (x.copySubType sv y))).int b := by
  unfold copyAttr copyCustom
  rw [(setCustomAttributes_sameNumbers _ _).1.int, copyOverrides_int, (copyNames_sameNumbers x _).int]

theorem copyAttr_count (y : Item) : (x.copyAttr sv y).count = (x.copySubType sv y).count := by
  unfold copyAttr copyCustom
  rw [(setCustomAttributes_sameNumbers _ _).1.count, copyOverrides_count,
    (copyNames_sameNumbers x _).count, copyDecay_count, copyTexts_count]

theorem copyAttr_id (y : Item) : (x.copyAttr sv y).id = y.id := by
  unfold copyAttr copyCustom
  rw [(setCustomAttributes_sameNumbers _ _).1.id, (copyOverrides_sameTexts x _).id,
    (copyNames_sameNumbers x _).id, (copyDecay_sameTexts x _).id, (copyTexts_id_custom _).1,
    (copySubType_sameTexts x _ sv).id]

theorem copyAttr_custom (hx : x.InRange) : (x.copyAttr sv (new sv x.id n)).custom.getD [] = x.custom.getD [] := by
  have hnone : (x.copyOverrides (x.copyNames (x.copyDecay (x.copyTexts
      (x.copySubType sv (new sv x.id n)))))).custom.getD [] = [] := by
    rw [(copyOverrides_sameTexts x _).custom, copyNames, copyStr_custom, copyStr_custom,
      copyStr_custom, (copyDecay_sameTexts x _).custom, (copyTexts_id_custom _).2,
      (copySubType_sameTexts x _ sv).custom, (new_sameTexts sv x.id n).custom]
    rfl
  unfold copyAttr copyCustom
  cases hm : x.custom with
  | none => exact hnone
  | some m => exact setCustomAttributes_custom (hx.entries m hm) (hx.keys m hm) hnone nofun

theorem copyAttr_str (hx : x.InRange) : (x.copyAttr sv (new sv x.id n)).str = x.str := by
  have hnew : (x.copySubType sv (new sv x.id n)).str = fun _ => none := by
    rw [(copySubType_sameTexts x _ sv).str, (new_sameTexts sv x.id n).str]
  have hdate : ∀ y : Item, (if x.getIntAttr .date ≠
      0 then y.setIntAttr .date (x.getIntAttr .date) else y).str = y.str := by
    intro y
    split <;> rfl
  funext b
  unfold copyAttr copyCustom
  rw [(setCustomAttributes_sameNumbers _ _).2, (copyOverrides_sameTexts x _).str, copyNames,
    copyStr_str _ hx, copyStr_str _ hx, copyStr_str _ hx, (copyDecay_sameTexts x _).str, copyTexts,
    copyStr_str _ hx, copyStr_str _ hx, hdate, copyStr_str _ hx, hnew]
  cases h : x.str b <;> cases b <;> simp [h]

theorem copyAttr_int_early (y : Item) {b : IntAttr} (hover : b ∉ overrides.map (·.2.1))
    (hb : b ∉ [IntAttr.date, .duration, .decayState]) : (x.copyAttr sv y).int b = (x.copySubType sv y).int b := by
  simp only [List.mem_cons, List.not_mem_nil, or_false, not_or] at hb
  rw [copyAttr_int, if_neg (fun h => hover h.1), copyDecay_int, if_neg (fun h => hb.2.2 h.1),
    if_neg (fun h => hb.2.1 h.1), copyTexts_int, if_neg (fun h => hb.1 h.1)]

theorem copyAttr_actionId (hx : x.InRange) (y : Item) (hy : y.int .actionId = none) :
    ((x.copyActionId sv y).int .actionId).getD 0 = kept sv x .actionId := by
  have hrange := hx.getIntAttr .actionId (by decide)
  simp only [IntAttr.range] at hrange
  have haction : x.getActionId = x.getIntAttr .actionId := Int.emod_eq_of_lt hrange.1 hrange.2
  rw [copyActionId_int, kept, haction]
  by_cases h : (x.type sv).moveable ∧ x.getIntAttr .actionId ≠ 0
  · rw [if_pos ⟨rfl, h⟩, if_pos h, Option.getD_some]
    omega
  · rw [if_neg (fun h' => h h'.2), if_neg h, hy, Option.getD_none]

theorem copySubType_int_none (hx : x.InRange) (hreg : Regular sv x) {b : IntAttr}
    (hb : b ∉ [IntAttr.fluidType, .charges, .duration, .actionId]) :
    (x.copySubType sv (new sv x.id n)).int b = none := by
  simp only [List.mem_cons, List.not_mem_nil, or_false, not_or] at hb
  rw [copySubType, copyActionId_int, if_neg (by simp [hb]),
    (copyCounts_read n hx hreg).others b (by simp [hb]), new_int n (by simp [hb])]

theorem copyAttr_override (hx : x.InRange) (hreg : Regular sv x) {a : IntAttr}
    (ha : a ∈ overrides.map (·.2.1)) : (x.copyAttr sv (new sv x.id n)).int a = x.int a := by
  have hfar : a ≠ .decayState ∧ a ≠ .duration ∧ a ≠ .date ∧
      a ∉ [IntAttr.fluidType, .charges, .duration, .actionId] := by
    revert ha
    cases a <;> decide
  rw [copyAttr_int]
  cases h : x.hasInt a with
  | true => rw [if_pos ⟨ha, rfl⟩]
  | false =>
    have hnone : x.int a = none := by simpa [hasInt] using h
    rw [if_neg (fun h => Bool.false_ne_true h.2), copyDecay_int, if_neg (fun h => hfar.1 h.1),
      if_neg (fun h => hfar.2.1 h.1), copyTexts_int, if_neg (fun h => hfar.2.2.1 h.1),
      copySubType_int_none n hx hreg hfar.2.2.2, hnone]

theorem copyAttr_duration (hx : x.InRange) (hreg : Regular sv x) :
    (x.copyAttr sv (new sv x.id n)).int .duration = x.int .duration := by
  rw [copyAttr_int, if_neg (by simp [overrides]), copyDecay_int, if_neg (fun h => nomatch h.1)]
  cases h : x.int .duration with
  | some v => simp [hasInt, h]
  | none =>
    have hnone : (x.type sv).duration = 0 := by
      by_contra hne
      exact absurd (hreg.duration hne) (by simp [hasInt, h])
    simp only [hasInt, h, Option.isSome_none, Bool.false_eq_true, and_false, if_false]
    rw [copyTexts_int, if_neg (by simp), copySubType, copyActionId_int, if_neg (by simp),
      (copyCounts_read n hx hreg).others .duration (by decide), new_duration n hnone]

theorem copyAttr_date (hx : x.InRange) (hreg : Regular sv x) :
    (x.copyAttr sv (new sv x.id n)).getIntAttr .date = x.getIntAttr .date := by
  rw [getIntAttr, copyAttr_int, if_neg (by simp [overrides]), copyDecay_int,
    if_neg (fun h => nomatch h.1), if_neg (fun h => nomatch h.1), copyTexts_int]
  split
  · rfl
  · rename_i h
    rw [copySubType_int_none n hx hreg (by decide)]
    exact (not_not.mp fun hne => h ⟨rfl, hne⟩).symm

theorem copyAttr_decayState (hx : x.InRange) (hreg : Regular sv x) :
    (x.copyAttr sv (new sv x.id n)).getIntAttr .decayState = kept sv x .decayState := by
  have hrange := hx.getIntAttr .decayState (by decide)
  simp only [IntAttr.range] at hrange
  have hstate : x.getDecaying = x.getIntAttr .decayState := Int.emod_eq_of_lt hrange.1 (by omega)
  rw [getIntAttr, copyAttr_int, if_neg (by simp [overrides]), copyDecay_int, kept, hstate]
  split
  · rw [Option.getD_some]
    split <;> omega
  · rename_i h
    rw [if_neg (fun h => nomatch h.1), copyTexts_int, if_neg (fun h => nomatch h.1),
      copySubType_int_none n hx hreg (by decide), Option.getD_none]
    simp only [true_and, not_or] at h
    split <;> omega

theorem copyAttr_charges (hx : x.InRange) (hreg : Regular sv x) :
    (x.copyAttr sv (new sv x.id n)).getIntAttr .charges = x.getIntAttr .charges := by
  rw [getIntAttr, copyAttr_int_early _ (by decide) (by decide), copySubType, copyActionId_int,
    if_neg (by simp)]
  exact (copyCounts_read n hx hreg).charges

theorem copyAttr_sameCount (hx : x.InRange) (hreg : Regular sv x) :
    (x.copyAttr sv (new sv x.id n)).count = x.count := by
  rw [copyAttr_count, copySubType, copyActionId_count, (copyCounts_read n hx hreg).count]

theorem copyAttr_subType (hx : x.InRange) (hreg : Regular sv x) :
    (x.copyAttr sv (new sv x.id n)).getSubType sv = x.getSubType sv := by
  unfold getSubType type getCharges
  rw [copyAttr_id, (new_sameTexts sv x.id n).id, copyAttr_sameCount n hx hreg, copyAttr_charges n hx hreg]
  dsimp only
  split
  · rename_i h
    have hfluid : (x.copyAttr sv (new sv x.id n)).int .fluidType = some x.getFluidType := by
      rw [copyAttr_int_early _ (by decide) (by decide), copySubType, copyActionId_int,
        if_neg (by simp), (copyCounts_read n hx hreg).fluidType h]
    rw [getFluidType, getIntAttr, hfluid, Option.getD_some, getFluidType, Int.emod_emod]
  · rfl

theorem kept_override {a : IntAttr} (ha : a ∈ overrides.map (·.2.1)) : kept sv x a = x.getIntAttr a := by
  cases a with
  | actionId => exact absurd ha (by decide)
  | decayState => exact absurd ha (by decide)
  | _ => rfl

theorem copyAttr_kept (hx : x.InRange) (hreg : Regular sv x) : Kept sv x (x.copyAttr sv (new sv x.id n)) where
  id := (copyAttr_id _).trans (new_sameTexts sv x.id n).id
  count := copyAttr_sameCount n hx hreg
  subType := copyAttr_subType n hx hreg
  uniqueId := by rw [copyAttr_int_early _ (by decide) (by decide),
    copySubType_int_none n hx hreg (by decide)]
  int a ha := by
    by_cases hmem : a ∈ overrides.map (·.2.1)
    · rw [kept_override hmem, getIntAttr, copyAttr_override n hx hreg hmem, getIntAttr]
    · have hrest : a = .actionId ∨ a = .date ∨ a = .duration ∨ a = .decayState ∨ a = .charges := by
        revert ha hmem
        cases a <;> decide
      rcases hrest with rfl | rfl | rfl | rfl | rfl
      · rw [getIntAttr, copyAttr_int_early _ (by decide) (by decide), copySubType]
        refine copyAttr_actionId hx _ ?_
        rw [(copyCounts_read n hx hreg).others .actionId (by decide), new_int n (by decide)]
      · exact copyAttr_date n hx hreg
      · show (x.copyAttr sv (new sv x.id n)).getIntAttr .duration = x.getIntAttr .duration
        rw [getIntAttr, copyAttr_duration n hx hreg, getIntAttr]
      · exact copyAttr_decayState n hx hreg
      · exact copyAttr_charges n hx hreg
  hasInt a ha := by
    rcases List.mem_cons.mp ha with rfl | hmem
    · rw [hasInt, copyAttr_duration n hx hreg, hasInt]
    · rw [hasInt, copyAttr_override n hx hreg hmem, hasInt]
  str := copyAttr_str n hx
  custom key := by rw [getCustomAttribute, copyAttr_custom n hx, getCustomAttribute]

end Loaded

theorem unserializeAttr_serializeAttr (sv : Server) (x : Item) (n : ℕ) (r : Bytes) (hx : x.InRange)
    (hreg : Regular sv x) :
    ∃ y, (new sv x.id n).unserializeAttr sv (x.serializeAttr sv ++ 0 :: r) = (true, y, r) ∧ Kept sv x y := by
  have hreads : Reads (readAttr sv) (x.serializeAttr sv) (x.copyAttr sv) :=
    serializeAttr_reads (fun _ _ _ _ => rfl) hx
  exact ⟨_, hreads.unserialize _ r (by rw [List.length_append, List.length_cons]; omega),
    copyAttr_kept n hx hreg⟩

/-- A type without a count, charges or a decay. -/
def swords : Server := { items := fun id => { id } }

/-- A sword with a name of its own and a mark that scripts have set. -/
def namedSword : Item where
  id := 2400
  int a := if a = .attack then some (-20) else none
  str a := if a = .name then some [101, 120] else none
  custom := some [([109], .bool true)]

theorem namedSword_inRange : namedSword.InRange where
  count := by decide
  int a v h := by
    obtain ⟨rfl, rfl⟩ : a = .attack ∧ v = -20 := by simpa [namedSword, eq_comm] using h
    decide
  str a v h := by
    obtain ⟨rfl, rfl⟩ : a = .name ∧ v = [101, 120] := by simpa [namedSword, eq_comm] using h
    decide
  size m h := by cases h; decide
  keys m h := by cases h; decide
  entries m h e he := by
    cases h
    obtain rfl := List.mem_singleton.mp he
    exact ⟨by decide, by decide, trivial⟩

theorem unserializeAttr_serializeAttr_named_sword : ∃ y,
    (new swords 2400 0).unserializeAttr swords (namedSword.serializeAttr swords ++ 0 :: [7]) = (true, y, [7]) ∧
      Kept swords namedSword y :=
  unserializeAttr_serializeAttr swords namedSword 0 [7] namedSword_inRange ⟨by decide, by decide, by decide⟩

/-- A sword of the map. -/
def markedSword : Item where
  id := 2400
  int a := if a = .uniqueId then some 1000 else none

theorem markedSword_inRange : markedSword.InRange where
  count := by decide
  int a v h := by
    obtain ⟨rfl, rfl⟩ : a = .uniqueId ∧ v = 1000 := by simpa [markedSword, eq_comm] using h
    decide
  str a v h := by cases h
  size m h := by cases h
  keys m h := by cases h
  entries m h := by cases h

/-- The unique id is not among the bytes. -/
theorem unique_id_is_lost : ¬ ∀ (sv : Server) (x : Item) (n : ℕ) (r : Bytes), x.InRange → Regular sv x →
    ∃ y, (new sv x.id n).unserializeAttr sv (x.serializeAttr sv ++ 0 :: r) = (true, y, r) ∧
      y.getIntAttr .uniqueId = x.getIntAttr .uniqueId := by
  intro h
  obtain ⟨y, hy, huid⟩ := h swords markedSword 0 [] markedSword_inRange ⟨by decide, by decide, by decide⟩
  have hlost : ((new swords 2400 0).unserializeAttr swords
      (markedSword.serializeAttr swords ++ [0])).2.1.getIntAttr .uniqueId = 0 := by decide +kernel
  have hsame : ((new swords 2400 0).unserializeAttr swords
      (markedSword.serializeAttr swords ++ [0])).2.1.getIntAttr .uniqueId = y.getIntAttr .uniqueId := by
    rw [show (new swords 2400 0).unserializeAttr swords (markedSword.serializeAttr swords ++ [0]) = _ from hy]
  rw [← hsame, hlost] at huid
  exact absurd huid (by decide)

end Item
end ForgottenServer.Save
