import ForgottenServer.Items.Equality

/-! # The attribute store

What the calls on `ItemAttributes` leave is known from the calls about each type alone:
the vector holds the last value that was set since the last removal. -/
namespace ForgottenServer.Items
open ForgottenServer.Lib ForgottenServer.Lib.Run ForgottenServer.Lib.Wire

def ItemAttributes.getStrAttr (s : ItemAttributes) (a : ItemAttr) : Bytes :=
  if !a.isStrAttrType then [] else ((s.getExistingAttr a).map Value.text).getD []

/-- A call with a single type. Strings that are set are not empty. -/
inductive Call
  | setIntAttr (a : ItemAttr) (value : BitVec 64)
  | increaseIntAttr (a : ItemAttr) (value : BitVec 64)
  | setStrAttr (a : ItemAttr) (value : Bytes) (nonempty : value ≠ [])
  | removeAttribute (a : ItemAttr)

namespace Call

def apply (s : ItemAttributes) : Call → ItemAttributes
  | .setIntAttr a value => s.setIntAttr a value
  | .increaseIntAttr a value => s.increaseIntAttr a value
  | .setStrAttr a value _ => s.setStrAttr a value
  | .removeAttribute a => s.removeAttribute a

/-- What a call makes of the value that a type was set to. A setter for the other kind
sets nothing. -/
def on (a : ItemAttr) (old : Option Value) : Call → Option Value
  | .setIntAttr b value => if b = a ∧ a.isIntAttrType then some (.integer value) else old
  | .increaseIntAttr b value =>
    if b = a ∧ a.isIntAttrType then some (.integer ((old.map Value.word).getD 0 + value)) else old
  | .setStrAttr b value _ => if b = a ∧ a.isStrAttrType then some (.string value) else old
  | .removeAttribute b => if b = a then none else old

end Call

/-- The vector and the bits after some calls. -/
def store (calls : List Call) : ItemAttributes := run Call.apply {} calls

/-- The last value set since the last removal. -/
def lastValue (a : ItemAttr) (calls : List Call) : Option Value := run (Call.on a) none calls

namespace ItemAttributes.Valid
variable {s : ItemAttributes}

theorem exists_integer {a : ItemAttr} (hint : a.isIntAttrType = true) {v : Value}
    (h : v.fits a = true) : ∃ n, v = .integer n := by
  have hother := not_other_of_int hint
  cases v with
  | integer n => exact ⟨n, rfl⟩
  | string t => exact absurd h (by simp [Value.fits, hother.1])
  | custom p m => exact absurd (eq_custom_of_fits h) hother.2

theorem find_changeAttr (h : s.Valid) {kind : ItemAttr → Bool} {b : ItemAttr} {fresh : Value}
    {f : Value → Value} (hfresh : kind b = true → fresh.fits b = true)
    (hf : kind b = true → ∀ v, v.fits b = true → (f v).fits b = true) (a : ItemAttr) :
    (if kind b then s.changeAttr b fresh f else s).find a =
      if b = a ∧ kind a then some (f ((s.find a).getD fresh)) else s.find a := by
  by_cases hb : b = a
  · subst hb
    by_cases hkind : kind b = true
    · rw [if_pos hkind, if_pos ⟨rfl, hkind⟩, (h.changeAttr (hfresh hkind) (hf hkind)).2, Function.update_self]
    · simp only [hkind, Bool.false_eq_true, and_false, if_false]
  · by_cases hkind : kind b = true
    · rw [if_pos hkind, (h.changeAttr (hfresh hkind) (hf hkind)).2, Function.update_of_ne (Ne.symm hb)]
      simp only [hb, false_and, if_false]
    · simp only [hb, hkind, Bool.false_eq_true, false_and, if_false]

/-- A call does to each type what it does to that type alone. -/
theorem find_apply (h : s.Valid) (call : Call) (a : ItemAttr) : (call.apply s).find a = call.on a (s.find a) := by
  cases call with
  | setIntAttr b value => exact h.find_changeAttr id (fun hint _ _ => hint) a
  | increaseIntAttr b value =>
    have hfind := @find_changeAttr s h ItemAttr.isIntAttrType b (.integer 0) (Value.addWord value) id
      (fun _ v hv => by cases v <;> exact hv) a
    change (s.increaseIntAttr b value).find a = _
    rw [ItemAttributes.increaseIntAttr, hfind, Call.on]
    split
    · rename_i hboth
      cases hold : s.find a with
      | none => rfl
      | some v =>
        obtain ⟨m, rfl⟩ := exists_integer hboth.2 (h.fits a v hold)
        rfl
    · rfl
  | setStrAttr b value hne =>
    have hfind := @find_changeAttr s h ItemAttr.isStrAttrType b (.string []) (fun _ => .string value)
      id (fun hstr _ _ => hstr) a
    change (s.setStrAttr b value).find a = _
    rw [ItemAttributes.setStrAttr, if_neg hne, Call.on, ← hfind]
    cases b.isStrAttrType <;> rfl
  | removeAttribute b =>
    change (s.removeAttribute b).find a = if b = a then none else s.find a
    rw [(h.removeAttribute b).2, Function.update_apply]
    simp only [eq_comm]

theorem apply (h : s.Valid) (call : Call) : (call.apply s).Valid := by
  cases call with
  | setIntAttr a value => exact h.setIntAttr a value
  | increaseIntAttr a value => exact h.increaseIntAttr a value
  | setStrAttr a value => exact h.setStrAttr a value
  | removeAttribute a => exact (h.removeAttribute a).1

theorem countP_eq (h : s.Valid) (a : ItemAttr) : s.list.countP (·.1 = a) = if s.hasAttribute a then 1 else 0 := by
  have hcount : s.list.countP (·.1 = a) = (s.list.map Prod.fst).count a := by
    rw [List.count, List.countP_map]
    rfl
  have hmem : a ∈ s.list.map Prod.fst ↔ s.hasAttribute a = true := by
    rw [h.hasAttribute, Slots.find_isSome_iff, List.mem_map]
  rw [hcount]
  split
  · exact List.count_eq_one_of_mem h.sound.nodup (hmem.mpr ‹_›)
  · exact List.count_eq_zero_of_not_mem fun hin => ‹¬ _› (hmem.mp hin)

theorem getExistingAttr (h : s.Valid) (a : ItemAttr) : s.getExistingAttr a = s.find a := by
  rw [ItemAttributes.getExistingAttr, h.hasAttribute]
  cases s.find a <;> rfl

theorem getIntAttr (h : s.Valid) (hcustom : s.find .custom = none) (a : ItemAttr) :
    s.getIntAttr a = ((s.find a).map Value.word).getD 0 := by
  rw [ItemAttributes.getIntAttr, h.getExistingAttr]
  split
  · rfl
  · rename_i hkind
    cases hv : s.find a with
    | none => rfl
    | some v =>
      have hfits := h.fits a v hv
      cases v with
      | integer n => exact absurd hfits hkind
      | string t => rfl
      | custom p m =>
        rw [eq_custom_of_fits hfits, hcustom] at hv
        cases hv

theorem getStrAttr (h : s.Valid) (a : ItemAttr) : s.getStrAttr a = ((s.find a).map Value.text).getD [] := by
  rw [ItemAttributes.getStrAttr, h.getExistingAttr]
  split
  · rename_i hkind
    cases hv : s.find a with
    | none => rfl
    | some v =>
      have hfits := h.fits a v hv
      cases v with
      | integer n => rfl
      | string t => exact absurd hfits (by simpa [Value.fits] using hkind)
      | custom p m => rfl
  · rfl

end ItemAttributes.Valid

theorem store_valid (calls : List Call) : (store calls).Valid :=
  inv_run (fun _ call hs _ => hs.apply call) .empty (Along.of_forall fun _ _ => trivial)

theorem find_store (calls : List Call) (a : ItemAttr) : (store calls).find a = lastValue a calls := by
  have hview : ∀ (s : ItemAttributes) (call : Call), s.Valid →
      (call.apply s).find a = call.on a (s.find a) := fun s call hs => hs.find_apply call a
  exact @run_view _ _ _ Call.apply (Call.on a) (fun s => s.find a) ItemAttributes.Valid
    (fun _ call hs => hs.apply call) hview {} .empty calls

theorem lastValue_custom (calls : List Call) : lastValue .custom calls = none := by
  have hstep : ∀ (v : Option Value) (call : Call), v = none → True → Call.on .custom v call = none := by
    rintro v call rfl -
    cases call with
    | removeAttribute b => exact ite_self none
    | _ => exact if_neg fun hboth => Bool.false_ne_true hboth.2
  exact inv_run hstep rfl (Along.of_forall fun _ _ => trivial)

/-- The bits say which types have a slot, each type has one at most, and what is read is
the last value set since the last removal. -/
theorem attribute_store (calls : List Call) (a : ItemAttr) :
    ((store calls).hasAttribute a = true ↔ (store calls).list.countP (·.1 = a) = 1) ∧
    (store calls).list.countP (·.1 = a) ≤ 1 ∧
    (store calls).getIntAttr a = ((lastValue a calls).map Value.word).getD 0 ∧
    (store calls).getStrAttr a = ((lastValue a calls).map Value.text).getD [] := by
  have hvalid := store_valid calls
  have hcount := hvalid.countP_eq a
  have hcustom : (store calls).find .custom = none := by rw [find_store, lastValue_custom]
  refine ⟨?_, ?_, ?_, ?_⟩
  · rw [hcount]
    cases (store calls).hasAttribute a <;> simp
  · rw [hcount]
    split <;> omega
  · rw [hvalid.getIntAttr hcustom, find_store]
  · rw [hvalid.getStrAttr, find_store]

end ForgottenServer.Items
