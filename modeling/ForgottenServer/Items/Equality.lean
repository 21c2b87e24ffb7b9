import ForgottenServer.Items.Attributes

/-! # Items that are equal

`equals` compares the word in a slot unless the slot holds a string. Of the custom map
that word is its address, and no two items share a map. -/
namespace ForgottenServer.Items
open ForgottenServer.Lib ForgottenServer.Lib.Run ForgottenServer.Lib.Wire
open ForgottenServer.Save (CustomAttribute)
open ForgottenServer.Decay (ItemType)

/-! ## What an item holds -/

/-- A value by content; of a custom map, what each key stands for. -/
inductive Content
  | integer (v : BitVec 64)
  | string (v : Bytes)
  | custom (map : Bytes → Option CustomAttribute)

def Value.content : Value → Content
  | .integer v => .integer v
  | .string v => .string v
  | .custom _ map => .custom fun key => (map.find? (·.1 = key)).map Prod.snd

namespace Item

def content (x : Item) (a : ItemAttr) : Option Content := (x.getAttributes.find a).map Value.content

def Same (x y : Item) : Prop := x.id = y.id ∧ x.content = y.content

/-- Where the custom map lies. -/
def mapAt (x : Item) : Option (BitVec 64) := (x.getAttributes.find .custom).map Value.word

def Apart (x y : Item) : Prop := ∀ address, x.mapAt = some address → y.mapAt ≠ some address

end Item

/-! ## Values of the right kind -/

def Value.fits (a : ItemAttr) : Value → Bool
  | .integer _ => a.isIntAttrType
  | .string _ => a.isStrAttrType
  | .custom _ _ => a.isCustomAttrType

theorem not_other_of_int {a : ItemAttr} (h : a.isIntAttrType = true) : a.isStrAttrType = false ∧ a ≠ .custom := by
  simpa [ItemAttr.isIntAttrType, ItemAttr.isCustomAttrType] using h

theorem eq_custom_of_fits {a : ItemAttr} {p : BitVec 64} {m : Save.CustomAttributeMap}
    (h : (Value.custom p m).fits a = true) : a = .custom := by
  simpa [Value.fits, ItemAttr.isCustomAttrType] using h

theorem exists_custom {v : Value} (h : v.fits .custom = true) : ∃ p m, v = .custom p m := by
  cases v with
  | custom p m => exact ⟨p, m, rfl⟩
  | integer => cases h
  | string => cases h

/-- The custom attribute is compared by where it lies, the others by content. -/
theorem sameValue_iff {a : ItemAttr} {v v' : Value} (h : v.fits a = true) (h' : v'.fits a = true) :
    Item.sameValue a v v' = true ↔ if a = .custom then v.word = v'.word else v.content = v'.content := by
  unfold Item.sameValue
  by_cases hcustom : a = .custom
  · subst hcustom
    simp [ItemAttr.isStrAttrType]
  · rw [if_neg hcustom]
    cases v with
    | custom => exact absurd (eq_custom_of_fits h) hcustom
    | integer n =>
      have hint := not_other_of_int h
      cases v' with
      | custom => exact absurd (eq_custom_of_fits h') hcustom
      | integer =>
        rw [if_neg (by simp [hint.1]), decide_eq_true_iff]
        simp only [Value.word, Value.content, Content.integer.injEq]
      | string => exact absurd h' (by simp [Value.fits, hint.1])
    | string t =>
      have hstr : a.isStrAttrType = true := h
      cases v' with
      | custom => exact absurd (eq_custom_of_fits h') hcustom
      | integer => exact absurd hstr (by simp [(not_other_of_int h').1])
      | string =>
        rw [if_pos hstr, decide_eq_true_iff]
        simp only [Value.text, Value.content, Content.string.injEq]

/-! ## Valid attributes -/

/-- Each attribute is there once at most, with its bit and a value of its kind. -/
structure ItemAttributes.Valid (s : ItemAttributes) : Prop where
  sound : s.Sound ItemAttr.bit
  fits : ∀ a v, s.find a = some v → v.fits a = true

namespace ItemAttributes.Valid
variable {s : ItemAttributes}

theorem empty : ItemAttributes.Valid {} where
  sound := ⟨List.nodup_nil, fun i => by simp⟩
  fits a v h := by cases h

theorem hasAttribute (h : s.Valid) (a : ItemAttr) : s.hasAttribute a = (s.find a).isSome :=
  Bool.eq_iff_iff.mpr (h.sound.has_iff ItemAttr.bit_injective a.bit_lt)

theorem changeAttr (h : s.Valid) {a : ItemAttr} {fresh : Value} {f : Value → Value}
    (hfresh : fresh.fits a = true) (hf : ∀ v, v.fits a = true → (f v).fits a = true) :
    (s.changeAttr a fresh f).Valid ∧
    (s.changeAttr a fresh f).find = Function.update s.find a (some (f ((s.find a).getD fresh))) := by
  obtain ⟨hsound, hfind⟩ := h.sound.alter ItemAttr.bit_injective a.bit_lt fresh f
  refine ⟨⟨hsound, fun b v hv => ?_⟩, hfind⟩
  change (s.alter ItemAttr.bit a fresh f).find b = some v at hv
  rw [hfind] at hv
  by_cases hb : b = a
  · subst hb
    rw [Function.update_self, Option.some.injEq] at hv
    rw [← hv]
    refine hf _ ?_
    cases hold : s.find b with
    | none => exact hfresh
    | some v => exact h.fits b v hold
  · rw [Function.update_of_ne hb] at hv
    exact h.fits b v hv

theorem setIntAttr (h : s.Valid) (a : ItemAttr) (n : BitVec 64) : (s.setIntAttr a n).Valid := by
  unfold ItemAttributes.setIntAttr
  split
  · rename_i hint
    exact And.left (h.changeAttr hint fun _ _ => hint)
  · exact h

theorem increaseIntAttr (h : s.Valid) (a : ItemAttr) (n : BitVec 64) : (s.increaseIntAttr a n).Valid := by
  unfold ItemAttributes.increaseIntAttr
  split
  · rename_i hint
    refine And.left (h.changeAttr hint fun v hv => ?_)
    cases v <;> exact hv
  · exact h

theorem setStrAttr (h : s.Valid) (a : ItemAttr) (t : Bytes) : (s.setStrAttr a t).Valid := by
  unfold ItemAttributes.setStrAttr
  split
  · exact h
  · rename_i hstr
    have hkind : a.isStrAttrType = true := by simpa using hstr
    split
    · exact h
    · exact And.left (h.changeAttr hkind fun _ _ => hkind)

theorem removeAttribute (h : s.Valid) (a : ItemAttr) :
    (s.removeAttribute a).Valid ∧ (s.removeAttribute a).find = Function.update s.find a none := by
  obtain ⟨hsound, hfind⟩ := h.sound.remove (k := a) ItemAttr.bit_injective ItemAttr.bit_lt
  refine ⟨⟨hsound, fun b v hv => ?_⟩, hfind⟩
  change (s.remove ItemAttr.bit a).find b = some v at hv
  rw [hfind] at hv
  by_cases hb : b = a
  · rw [hb, Function.update_self] at hv
    cases hv
  · rw [Function.update_of_ne hb] at hv
    exact h.fits b v hv

theorem mapCustom (h : s.Valid) (f : Save.CustomAttributeMap → Save.CustomAttributeMap) :
    (s.changeAttr .custom (.custom 0 []) (Value.mapCustom f)).Valid := by
  refine (h.changeAttr rfl fun v hv => ?_).1
  cases v <;> exact hv

theorem setCustomAttribute (h : s.Valid) (key : Bytes) (value : CustomAttribute) :
    (s.setCustomAttribute key value).Valid := h.mapCustom _

theorem removeCustomAttribute (h : s.Valid) (key : Bytes) : (s.removeCustomAttribute key).Valid := by
  unfold ItemAttributes.removeCustomAttribute
  dsimp only
  split
  · exact h.mapCustom _
  · exact h

theorem moveTo (h : s.Valid) (p : BitVec 64) :
    (s.moveTo p).Valid ∧ (s.moveTo p).find = fun a => (s.find a).map (Value.move p) := by
  obtain ⟨hsound, hfind⟩ := h.sound.map (Value.move p)
  refine ⟨⟨hsound, fun a v hv => ?_⟩, hfind⟩
  change (Slots.mk _ _ : ItemAttributes).find a = some v at hv
  rw [hfind] at hv
  obtain ⟨v', hv', rfl⟩ := Option.map_eq_some_iff.mp hv
  have hfits := h.fits a v' hv'
  cases v' <;> exact hfits

end ItemAttributes.Valid

/-! ## Valid items -/

namespace Item
variable {items : ℕ → ItemType} {x y : Item} {type count : ℕ}

/-- What the table has at an id has that id, or none. -/
def Numbered (items : ℕ → ItemType) : Prop := ∀ type, (items type).id = type ∨ (items type).id = 0

structure Valid (items : ℕ → ItemType) (x : Item) : Prop where
  attributes : x.getAttributes.Valid
  created : Decay.Item.createId items x.id = x.id
  /-- an item of the type has no attributes of its own, if this one has none -/
  bare : x.attributes = none → ∀ count, (new items x.id count).attributes = none

theorem createId_createId (hnumbered : Numbered items) (type : ℕ) :
    Decay.Item.createId items (Decay.Item.createId items type) = Decay.Item.createId items type := by
  have hself : ∀ t, t < 2202 ∨ (2206 < t ∧ t < 2210) ∨ (2212 < t ∧ t < 2215) ∨ t = 6132 ∨ t = 6300 ∨
      t = 18408 → Decay.Item.createId items t = t := by
    intro t ht
    have hid := hnumbered t
    unfold Decay.Item.createId
    dsimp only
    repeat' split
    all_goals omega
  have htype := hnumbered type
  generalize hto : Decay.Item.createId items type = t
  by_cases hsame : t = type
  · rw [hsame] at hto ⊢
    exact hto
  · refine hself t ?_
    unfold Decay.Item.createId at hto
    dsimp only at hto
    repeat' split at hto
    all_goals omega

theorem find_setIntAttr (h : x.getAttributes.Valid) {a : ItemAttr} (hint : a.isIntAttrType = true) (n : BitVec 64) :
    (x.setIntAttr a n).getAttributes.find = Function.update x.getAttributes.find a (some (.integer n)) := by
  have hchange : (x.getAttributes.changeAttr a (.integer 0) fun _ => .integer n).find = _ :=
    And.right (h.changeAttr hint fun _ _ => hint)
  change (x.getAttributes.setIntAttr a n).find = _
  rw [ItemAttributes.setIntAttr, if_pos hint, hchange]

/-- Nothing but integers. -/
def Plain (x : Item) : Prop := x.getAttributes.Valid ∧ x.getAttributes.find .custom = none

theorem Plain.setIntAttr (h : x.Plain) {a : ItemAttr} (hint : a.isIntAttrType = true) (n : BitVec 64) :
    (x.setIntAttr a n).Plain := by
  refine ⟨h.1.setIntAttr a n, ?_⟩
  rw [find_setIntAttr h.1 hint, Function.update_of_ne (not_other_of_int hint).2.symm]
  exact h.2

theorem Plain.ite {c : Prop} [Decidable c] (hx : x.Plain) (hy : y.Plain) : (if c then x else y).Plain := by
  split
  · exact hx
  · exact hy

theorem new_plain (items : ℕ → ItemType) (type count : ℕ) : (new items type count).Plain := by
  have hnone : ∀ n, Plain { id := type, count := n } := fun n => ⟨.empty, rfl⟩
  unfold new
  dsimp only
  refine .ite (Plain.setIntAttr ?_ rfl _) ?_
  all_goals
    exact .ite ((hnone 1).setIntAttr rfl _) (.ite (.ite (hnone _) (.ite (hnone _) (hnone 1)))
      (.ite ((hnone 1).setIntAttr rfl _) (hnone 1)))

theorem new_id (items : ℕ → ItemType) (type count : ℕ) : (new items type count).id = type := by
  unfold new
  dsimp only
  repeat' split
  all_goals rfl

theorem new_attributes_isSome (items : ℕ → ItemType) (type count : ℕ) :
    (new items type count).attributes.isSome = true ↔
      (items type).isFluid = true ∨ ((items type).stackable = false ∧ (items type).charges ≠ 0) ∨
        (items type).duration ≠ 0 := by
  unfold new
  dsimp only
  repeat' split
  all_goals simp_all [setIntAttr]

theorem create_eq_new (h : create items type count = some y) :
    ∃ n, y = new items (Decay.Item.createId items type) n := by
  unfold create at h
  dsimp only at h
  split at h
  · cases h
  · split at h
    · rename_i hclass
      have hid : Decay.Item.createId items type = type := by
        unfold Decay.Item.createId
        exact if_pos hclass
      rw [hid]
      exact ⟨0, (Option.some.inj h).symm⟩
    · exact ⟨_, (Option.some.inj h).symm⟩

theorem new_valid (hnumbered : Numbered items) (type count : ℕ) :
    (new items (Decay.Item.createId items type) count).Valid items where
  attributes := (new_plain items _ count).1
  created := by rw [new_id, createId_createId hnumbered]
  bare hnone n := by
    rw [new_id]
    rw [← Option.not_isSome_iff_eq_none, new_attributes_isSome] at hnone ⊢
    exact hnone

theorem Valid.setIntAttr (h : x.Valid items) (a : ItemAttr) (n : BitVec 64) : (x.setIntAttr a n).Valid items where
  attributes := h.attributes.setIntAttr a n
  created := h.created
  bare hnone := by cases hnone

theorem Valid.map (h : x.Valid items) {f : ItemAttributes → ItemAttributes}
    (hf : ∀ s : ItemAttributes, s.Valid → (f s).Valid) :
    ({ x with attributes := x.attributes.map f } : Item).Valid items where
  attributes := by
    have hattr := h.attributes
    unfold getAttributes at hattr ⊢
    cases hs : x.attributes with
    | none => exact .empty
    | some s =>
      rw [hs] at hattr
      exact hf s hattr
  created := h.created
  bare hnone := h.bare (Option.map_eq_none_iff.mp hnone)

theorem Valid.removeAttribute (h : x.Valid items) (a : ItemAttr) : (x.removeAttribute a).Valid items :=
  h.map fun _ hs => (hs.removeAttribute a).1

theorem Valid.apply (h : x.Valid items) (op : Operation) : (x.apply op).Valid items := by
  have hset : ∀ s : ItemAttributes, s.Valid → ({ x with attributes := some s } : Item).Valid items :=
    fun s hs => ⟨hs, h.created, fun hnone => by cases hnone⟩
  cases op with
  | setIntAttr a value => exact h.setIntAttr a value
  | increaseIntAttr a value => exact hset _ (h.attributes.increaseIntAttr a value)
  | setStrAttr a value => exact hset _ (h.attributes.setStrAttr a value)
  | removeAttribute a => exact h.removeAttribute a
  | setCustomAttribute key value => exact hset _ (h.attributes.setCustomAttribute key value)
  | removeCustomAttribute key => exact h.map fun s hs => hs.removeCustomAttribute key

theorem Valid.moveTo (h : x.Valid items) (p : BitVec 64) : (x.moveTo p).Valid items :=
  h.map fun _ hs => (hs.moveTo p).1

theorem find_moveTo (h : x.Valid items) (p : BitVec 64) :
    (x.moveTo p).getAttributes.find = fun a => (x.getAttributes.find a).map (Value.move p) := by
  have hattr := h.attributes
  unfold getAttributes at hattr ⊢
  unfold moveTo
  cases hs : x.attributes with
  | none => rfl
  | some s =>
    rw [hs] at hattr
    exact (hattr.moveTo p).2

theorem find_removeAttribute (h : x.Valid items) (a : ItemAttr) :
    (x.removeAttribute a).getAttributes.find = Function.update x.getAttributes.find a none := by
  have hattr := h.attributes
  unfold getAttributes at hattr ⊢
  unfold removeAttribute
  cases hs : x.attributes with
  | none => exact (Function.update_eq_self a _).symm
  | some s =>
    rw [hs] at hattr
    exact (hattr.removeAttribute a).2

theorem content_moveTo (h : x.Valid items) (p : BitVec 64) : (x.moveTo p).content = x.content := by
  funext a
  rw [content, content, find_moveTo h, Option.map_map]
  congr 1
  funext v
  cases v <;> rfl

theorem content_removeAttribute (h : x.Valid items) (a : ItemAttr) :
    (x.removeAttribute a).content = Function.update x.content a none := by
  funext b
  rw [content, find_removeAttribute h]
  by_cases hb : b = a
  · rw [hb, Function.update_self, Function.update_self, Option.map_none]
  · rw [Function.update_of_ne hb, Function.update_of_ne hb, content]

theorem mapAt_removeAttribute (h : x.Valid items) {a : ItemAttr} (ha : .custom ≠ a) :
    (x.removeAttribute a).mapAt = x.mapAt := by
  rw [mapAt, find_removeAttribute h, Function.update_of_ne ha, mapAt]

theorem mapAt_moveTo (h : x.Valid items) {p address : BitVec 64}
    (hat : (x.moveTo p).mapAt = some address) : address = p := by
  rw [mapAt, find_moveTo h, Option.map_map] at hat
  obtain ⟨v, hv, rfl⟩ := Option.map_eq_some_iff.mp hat
  obtain ⟨q, m, rfl⟩ := exists_custom (h.attributes.fits .custom v hv)
  rfl

/-- A clone has the attributes of the item, but for the decay state. -/
theorem clone_spec (hnumbered : Numbered items) (h : x.Valid items) (hclone : x.clone items = some y) :
    y.Valid items ∧ y.id = x.id ∧ ∃ v, y.getAttributes.find = Function.update x.getAttributes.find .decayState v := by
  obtain ⟨z, hz, rfl⟩ := Option.map_eq_some_iff.mp hclone
  obtain ⟨n, rfl⟩ := create_eq_new hz
  have hvalid := new_valid hnumbered x.id n
  have hcreated : (new items (Decay.Item.createId items x.id) n).id = x.id := by
    rw [new_id, h.created]
  split
  · rename_i hsome
    obtain ⟨s, hs⟩ := Option.isSome_iff_exists.mp hsome
    have hattr : s.Valid := by
      have hget := h.attributes
      rwa [getAttributes, hs] at hget
    have hgiven : x.getAttributes = s := by rw [getAttributes, hs, Option.getD_some]
    have hcopy : ({ new items (Decay.Item.createId items x.id) n with
        attributes := x.attributes } : Item).Valid items :=
      ⟨by rw [getAttributes, hs]; exact hattr, hvalid.created, fun hnone => by rw [hs] at hnone; cases hnone⟩
    dsimp only
    split
    · refine ⟨hcopy.setIntAttr _ _, hcreated, some (.integer 1), ?_⟩
      exact find_setIntAttr (a := .decayState) h.attributes rfl 1
    · refine ⟨hcopy, hcreated, x.getAttributes.find .decayState, ?_⟩
      rw [Function.update_eq_self]
      rfl
  · rename_i hnone
    have hbare : x.attributes = none := Option.not_isSome_iff_eq_none.mp hnone
    have hnew : (new items (Decay.Item.createId items x.id) n).attributes = none := by
      rw [h.created]
      exact h.bare hbare n
    refine ⟨hvalid, hcreated, x.getAttributes.find .decayState, ?_⟩
    rw [Function.update_eq_self, getAttributes, getAttributes, hbare, hnew]

/-! ## What is compared -/

theorem equals_iff_agree (x y : Item) : x.equals y = true ↔ x.id = y.id ∧ x.getAttributes.bits = y.getAttributes.bits ∧
      Slots.agree sameValue x.getAttributes.list y.getAttributes.list = true := by
  have hnil : ∀ l, Slots.agree sameValue l [] = true :=
    fun l => List.all_eq_true.mpr fun _ _ => List.all_nil
  unfold equals getAttributes
  by_cases hid : x.id = y.id
  · rw [if_neg (not_not.mpr hid), and_iff_right hid]
    cases x.attributes with
    | none =>
      cases y.attributes with
      | none => exact iff_of_true rfl ⟨rfl, rfl⟩
      | some t => exact decide_eq_true_iff.trans (eq_comm.trans (and_iff_left rfl).symm)
    | some s =>
      cases y.attributes with
      | none => exact decide_eq_true_iff.trans (and_iff_left (hnil _)).symm
      | some t =>
        change (if s.bits ≠ t.bits then false else Slots.agree sameValue s.list t.list) = true ↔ s.bits = t.bits ∧ _
        by_cases hbits : s.bits = t.bits
        · rw [if_neg (not_not.mpr hbits), and_iff_right hbits]
          rfl
        · simp [hbits]
  · simp [hid]

theorem equals_iff_find (hx : x.getAttributes.Valid) (hy : y.getAttributes.Valid) : x.equals y = true ↔ x.id = y.id ∧
      ∀ a, Option.Rel (fun v v' => sameValue a v v' = true) (x.getAttributes.find a) (y.getAttributes.find a) := by
  rw [equals_iff_agree, Slots.same_iff hx.sound hy.sound ItemAttr.bit_injective]

theorem equals_self (hx : x.getAttributes.Valid) : x.equals x = true := by
  rw [equals_iff_find hx hx]
  refine ⟨rfl, fun a => ?_⟩
  cases x.getAttributes.find a with
  | none => exact .none
  | some v => exact .some (by simp [sameValue])

theorem hasAttribute_custom (hx : x.getAttributes.Valid) :
    x.hasAttribute .custom = (x.getAttributes.find .custom).isSome := by
  rw [← hx.hasAttribute]
  unfold hasAttribute getAttributes
  cases x.attributes <;> rfl

theorem Same.hasAttribute_eq (h : x.Same y) (hx : x.getAttributes.Valid) (hy : y.getAttributes.Valid) :
    x.hasAttribute .custom = y.hasAttribute .custom := by
  have hcontent := congrArg Option.isSome (congrFun h.2 .custom)
  rwa [content, content, Option.isSome_map, Option.isSome_map, ← hasAttribute_custom hx,
    ← hasAttribute_custom hy] at hcontent

/-- Two items that share no map are equal when they are the same and have no map at all. -/
theorem equals_iff (hx : x.getAttributes.Valid) (hy : y.getAttributes.Valid) (hapart : x.Apart y) :
    x.equals y = true ↔ x.Same y ∧ x.hasAttribute .custom = false := by
  rw [equals_iff_find hx hy, hasAttribute_custom hx]
  constructor
  · intro ⟨hid, hrel⟩
    have hcustom : (x.getAttributes.find .custom).isSome = false := by
      have hword := hrel .custom
      cases hv : x.getAttributes.find .custom with
      | none => rfl
      | some v =>
        cases hv' : y.getAttributes.find .custom with
        | none =>
          rw [hv, hv'] at hword
          cases hword
        | some v' =>
          rw [hv, hv'] at hword
          cases hword with
          | some hsame =>
            rw [sameValue_iff (hx.fits _ _ hv) (hy.fits _ _ hv'), if_pos rfl] at hsame
            refine absurd ?_ (hapart v.word (by rw [mapAt, hv]; rfl))
            rw [mapAt, hv', hsame]
            rfl
    refine ⟨⟨hid, funext fun a => ?_⟩, hcustom⟩
    have ha := hrel a
    unfold content
    cases hv : x.getAttributes.find a with
    | none =>
      cases hv' : y.getAttributes.find a with
      | none => rfl
      | some v' =>
        rw [hv, hv'] at ha
        cases ha
    | some v =>
      cases hv' : y.getAttributes.find a with
      | none =>
        rw [hv, hv'] at ha
        cases ha
      | some v' =>
        have hne : a ≠ .custom := by
          intro heq
          rw [← heq, hv] at hcustom
          cases hcustom
        rw [hv, hv'] at ha
        cases ha with
        | some hsame =>
          rw [sameValue_iff (hx.fits _ _ hv) (hy.fits _ _ hv'), if_neg hne] at hsame
          rw [Option.map_some, Option.map_some, hsame]
  · intro ⟨⟨hid, hcontent⟩, hcustom⟩
    refine ⟨hid, fun a => ?_⟩
    have ha := congrFun hcontent a
    unfold content at ha
    cases hv : x.getAttributes.find a with
    | none =>
      rw [hv, Option.map_none, eq_comm, Option.map_eq_none_iff] at ha
      rw [ha]
      exact .none
    | some v =>
      have hne : a ≠ .custom := by
        intro heq
        rw [← heq, hv] at hcustom
        cases hcustom
      rw [hv, Option.map_some, eq_comm, Option.map_eq_some_iff] at ha
      obtain ⟨v', hv', hsame⟩ := ha
      rw [hv']
      refine .some ?_
      rw [sameValue_iff (hx.fits _ _ hv) (hy.fits _ _ hv'), if_neg hne, hsame]

end Item

/-! ## Items in memory -/

abbrev Memory := ℕ → Option Item

/-- The address is where the custom map of the item lies afterwards. -/
inductive Event
  | create (o type count : ℕ)
  | clone (o p : ℕ) (address : BitVec 64)
  | edit (o : ℕ) (op : Operation) (address : BitVec 64)
  | delete (o : ℕ)

namespace Memory
variable (items : ℕ → ItemType) (m : Memory)

def step : Event → Memory
  | .create o type count => Function.update m o (Item.create items type count)
  | .clone o p address =>
    Function.update m o (((m p).bind fun x => x.clone items).map fun x => x.moveTo address)
  | .edit o op address =>
    Function.update m o ((m o).map fun x => (x.apply op).moveTo address)
  | .delete o => Function.update m o none

/-- No other item has its map there. -/
def Free (o : ℕ) (address : BitVec 64) : Prop :=
  ∀ p x, p ≠ o → m p = some x → x.mapAt ≠ some address

def Legal : Event → Prop
  | .create o _ _ => m o = none
  | .clone o _ address => m o = none ∧ m.Free o address
  | .edit o _ address => m.Free o address
  | .delete _ => True

/-- Every item is valid and no two share a map. -/
structure Sound : Prop where
  valid : ∀ o x, m o = some x → x.Valid items
  apart : ∀ o p x y, o ≠ p → m o = some x → m p = some y → x.Apart y

variable {items} {m}

theorem Sound.update (h : m.Sound items) {o : ℕ} {new : Option Item} (hvalid : ∀ x, new = some x → x.Valid items)
    (hfree : ∀ x address, new = some x → x.mapAt = some address → m.Free o address) :
    Sound items (Function.update m o new) where
  valid p x hp := by
    by_cases heq : p = o
    · rw [heq, Function.update_self] at hp
      exact hvalid x hp
    · rw [Function.update_of_ne heq] at hp
      exact h.valid p x hp
  apart p q x y hne hp hq := by
    by_cases hpo : p = o
    · have hqo : q ≠ o := fun heq => hne (hpo.trans heq.symm)
      rw [hpo, Function.update_self] at hp
      rw [Function.update_of_ne hqo] at hq
      exact fun address hat => hfree x address hp hat q y hqo hq
    · rw [Function.update_of_ne hpo] at hp
      by_cases hqo : q = o
      · rw [hqo, Function.update_self] at hq
        exact fun address hat hat' => hfree y address hq hat' p x hpo hp hat
      · rw [Function.update_of_ne hqo] at hq
        exact h.apart p q x y hne hp hq

theorem Sound.step (hnumbered : Item.Numbered items) (h : m.Sound items) {e : Event}
    (hlegal : m.Legal e) : Sound items (m.step items e) := by
  cases e with
  | create o type count =>
    have hnew : ∀ x, Item.create items type count = some x → x.Valid items ∧ x.mapAt = none := by
      intro x hx
      obtain ⟨n, rfl⟩ := Item.create_eq_new hx
      refine ⟨Item.new_valid hnumbered type n, ?_⟩
      rw [Item.mapAt, (Item.new_plain items _ n).2]
      rfl
    refine h.update (fun x hx => (hnew x hx).1) fun x address hx hat => ?_
    rw [(hnew x hx).2] at hat
    cases hat
  | clone o p address =>
    have hnew : ∀ x, (((m p).bind fun x => x.clone items).map fun x => x.moveTo address) = some x →
        ∃ y : Item, y.Valid items ∧ x = y.moveTo address := by
      intro x hx
      obtain ⟨y, hy, rfl⟩ := Option.map_eq_some_iff.mp hx
      obtain ⟨z, hz, hclone⟩ := Option.bind_eq_some_iff.mp hy
      exact ⟨y, (Item.clone_spec hnumbered (h.valid p z hz) hclone).1, rfl⟩
    refine h.update (fun x hx => ?_) fun x q hx hat => ?_
    · obtain ⟨y, hy, rfl⟩ := hnew x hx
      exact hy.moveTo address
    · obtain ⟨y, hy, rfl⟩ := hnew x hx
      rw [Item.mapAt_moveTo hy hat]
      exact hlegal.2
  | edit o op address =>
    have hnew : ∀ x, (m o).map (fun x => (x.apply op).moveTo address) = some x →
        ∃ y : Item, y.Valid items ∧ x = y.moveTo address := by
      intro x hx
      obtain ⟨y, hy, rfl⟩ := Option.map_eq_some_iff.mp hx
      exact ⟨y.apply op, (h.valid o y hy).apply op, rfl⟩
    refine h.update (fun x hx => ?_) fun x q hx hat => ?_
    · obtain ⟨y, hy, rfl⟩ := hnew x hx
      exact hy.moveTo address
    · obtain ⟨y, hy, rfl⟩ := hnew x hx
      rw [Item.mapAt_moveTo hy hat]
      exact hlegal
  | delete o =>
    refine h.update (fun x hx => ?_) fun x address hx => ?_
    · cases hx
    · cases hx

theorem Sound.run (hnumbered : Item.Numbered items) {es : List Event}
    (hlegal : Along (Memory.step items) Legal (fun _ => none) es) :
    Sound items (Run.run (Memory.step items) (fun _ => none) es) := by
  have hstep : ∀ m e, Sound items m → Legal m e → Sound items (Memory.step items m e) :=
    fun m e h hl => h.step hnumbered hl
  refine inv_run hstep ⟨?_, ?_⟩ hlegal
  · intro o x hx
    cases hx
  · intro o p x y _ hx
    cases hx

end Memory

/-- `equals` is the comparison of contents but for two items with the same custom
attributes, which it tells apart. It is an equivalence all the same, and an item equals
its clone, the decay states left out, unless it has custom attributes. -/
theorem equals_iff_same (items : ℕ → ItemType) (hnumbered : Item.Numbered items) (es : List Event)
    (hlegal : Along (Memory.step items) Memory.Legal (fun _ => none) es) :
    let m := run (Memory.step items) (fun _ => none) es
    (∀ o p x y, m o = some x → m p = some y →
      ((x.equals y = true ↔ x.Same y) ↔ (o = p ∨ ¬(x.Same y ∧ x.hasAttribute .custom = true)))) ∧
    (∀ o x, m o = some x → x.equals x = true) ∧
    (∀ o p x y, m o = some x → m p = some y → x.equals y = true → y.equals x = true) ∧
    (∀ o p q x y z, m o = some x → m p = some y → m q = some z →
      x.equals y = true → y.equals z = true → x.equals z = true) ∧
    (∀ o x p y address, m o = some x → m p = none → x.clone items = some y → m.Free p address →
      (((y.moveTo address).removeAttribute .decayState).equals (x.removeAttribute .decayState) = true ↔
        x.hasAttribute .custom = false)) := by
  intro m
  have hsound : m.Sound items := Memory.Sound.run hnumbered hlegal
  have hvalid : ∀ {o x}, m o = some x → x.getAttributes.Valid :=
    fun hx => (hsound.valid _ _ hx).attributes
  have hequals : ∀ {o p x y}, m o = some x → m p = some y →
      (x.equals y = true ↔ o = p ∨ (x.Same y ∧ x.hasAttribute .custom = false)) := by
    intro o p x y hx hy
    by_cases heq : o = p
    · subst heq
      rw [hx, Option.some.injEq] at hy
      rw [← hy]
      exact iff_of_true (Item.equals_self (hvalid hx)) (.inl rfl)
    · rw [or_iff_right heq]
      exact Item.equals_iff (hvalid hx) (hvalid hy) (hsound.apart o p x y heq hx hy)
  have hself : ∀ {o p x y}, m o = some x → m p = some y → o = p → x.Same y := by
    intro o p x y hx hy heq
    rw [← heq, hx, Option.some.injEq] at hy
    rw [hy]
    exact ⟨rfl, rfl⟩
  refine ⟨fun o p x y hx hy => ?_, fun o x hx => Item.equals_self (hvalid hx), ?_, ?_, ?_⟩
  · rw [hequals hx hy, ← Bool.not_eq_true]
    have hsame := hself hx hy
    tauto
  · intro o p x y hx hy h
    rw [hequals hx hy] at h
    rw [hequals hy hx]
    obtain heq | ⟨hsame, hcustom⟩ := h
    · exact .inl heq.symm
    · exact .inr ⟨⟨hsame.1.symm, hsame.2.symm⟩, hsame.hasAttribute_eq (hvalid hx) (hvalid hy) ▸ hcustom⟩
  · intro o p q x y z hx hy hz h h'
    rw [hequals hx hy] at h
    rw [hequals hy hz] at h'
    rw [hequals hx hz]
    obtain rfl | ⟨hsame, hcustom⟩ := h
    · rw [hx, Option.some.injEq] at hy
      rw [hy]
      exact h'
    · obtain rfl | ⟨hsame', _⟩ := h'
      · rw [hy, Option.some.injEq] at hz
        rw [← hz]
        exact .inr ⟨hsame, hcustom⟩
      · exact .inr ⟨⟨hsame.1.trans hsame'.1, hsame.2.trans hsame'.2⟩, hcustom⟩
  · intro o x p y address hx hp hclone hfree
    obtain ⟨hy, hid, v, hfind⟩ := Item.clone_spec hnumbered (hsound.valid o x hx) hclone
    have hx' := hsound.valid o x hx
    have hmoved := hy.moveTo address
    have hcopy : ((y.moveTo address).removeAttribute .decayState).Same (x.removeAttribute .decayState) := by
      refine ⟨hid, ?_⟩
      rw [Item.content_removeAttribute hmoved, Item.content_removeAttribute hx', Item.content_moveTo hy]
      funext a
      by_cases ha : a = .decayState
      · rw [ha, Function.update_self, Function.update_self]
      · rw [Function.update_of_ne ha, Function.update_of_ne ha, Item.content, hfind,
          Function.update_of_ne ha, Item.content]
    have hapart : ((y.moveTo address).removeAttribute .decayState).Apart (x.removeAttribute .decayState) := by
      intro q hq hq'
      rw [Item.mapAt_removeAttribute hmoved (by decide)] at hq
      rw [Item.mapAt_removeAttribute hx' (by decide), Item.mapAt_moveTo hy hq] at hq'
      refine hfree o x (fun heq => ?_) hx hq'
      rw [heq, hp] at hx
      cases hx
    have hcustom : (x.removeAttribute .decayState).hasAttribute .custom = x.hasAttribute .custom := by
      rw [Item.hasAttribute_custom (hx'.removeAttribute _).attributes,
        Item.find_removeAttribute hx', Function.update_of_ne (by decide),
        Item.hasAttribute_custom hx'.attributes]
    rw [Item.equals_iff (hmoved.removeAttribute _).attributes (hx'.removeAttribute _).attributes hapart,
      and_iff_right hcopy, hcopy.hasAttribute_eq (hmoved.removeAttribute _).attributes
        (hx'.removeAttribute _).attributes, hcustom]

def plainTypes (type : ℕ) : ItemType := { id := type }

/-- Two crossbows with the same text, one marked before it was written on and one after. -/
def twoCrossbows : List Event :=
  [.create 0 2455 1, .create 1 2455 1, .edit 0 (.setIntAttr .actionId 100) 0,
    .edit 0 (.setStrAttr .text [65]) 0, .edit 1 (.setStrAttr .text [65]) 0,
    .edit 1 (.setIntAttr .actionId 100) 0]

theorem free_of_two {m : Memory} {o p : ℕ} {x : Item} {address : BitVec 64}
    (hm : ∀ q, q ≠ o → q ≠ p → m q = none) (hx : m p = some x) (hat : x.mapAt ≠ some address) :
    m.Free o address := by
  intro q y hne hy
  by_cases hq : q = p
  · rw [hq, hx, Option.some.injEq] at hy
    rwa [← hy]
  · rw [hm q hne hq] at hy
    cases hy

theorem twoCrossbows_legal :
    Along (Memory.step plainTypes) Memory.Legal (fun _ => none) twoCrossbows := by
  refine ⟨rfl, rfl, free_of_two (p := 1) ?_ rfl (by decide), free_of_two (p := 1) ?_ rfl (by decide),
    free_of_two (p := 0) ?_ rfl (by decide), free_of_two (p := 0) ?_ rfl (by decide), trivial⟩
  all_goals
    intro q h h'
    simp only [Memory.step, Function.update_of_ne h, Function.update_of_ne h']

theorem crossbows_equal_iff :
    ∃ x y, run (Memory.step plainTypes) (fun _ => none) twoCrossbows 0 = some x ∧
      run (Memory.step plainTypes) (fun _ => none) twoCrossbows 1 = some y ∧
      ((x.equals y = true ↔ x.Same y) ↔ ((0 : ℕ) = 1 ∨ ¬(x.Same y ∧ x.hasAttribute .custom = true))) :=
  ⟨_, _, rfl, rfl, (equals_iff_same plainTypes (fun _ => .inl rfl) twoCrossbows twoCrossbows_legal).1 0 1 _ _
    rfl rfl⟩

/-- Two crossbows with one custom attribute each, of the same key and value. -/
def twoMarked : List Event :=
  [.create 0 2455 1, .create 1 2455 1, .edit 0 (.setCustomAttribute [107] (.integer 1)) 8,
    .edit 1 (.setCustomAttribute [107] (.integer 1)) 16]

theorem marked_differ : Along (Memory.step plainTypes) Memory.Legal (fun _ => none) twoMarked ∧
    ∃ x y, run (Memory.step plainTypes) (fun _ => none) twoMarked 0 = some x ∧
      run (Memory.step plainTypes) (fun _ => none) twoMarked 1 = some y ∧
      x.Same y ∧ x.equals y = false := by
  refine ⟨⟨rfl, rfl, free_of_two (p := 1) ?_ rfl (by decide), free_of_two (p := 0) ?_ rfl (by decide),
    trivial⟩, _, _, rfl, rfl, ⟨rfl, funext fun a => ?_⟩, by decide⟩
  case refine_3 => cases a <;> rfl
  all_goals
    intro q h h'
    simp only [Memory.step, Function.update_of_ne h, Function.update_of_ne h']

end ForgottenServer.Items
