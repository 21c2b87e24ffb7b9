import ForgottenServer.Save.HouseTile
import ForgottenServer.Save.PlayerRows
import Mathlib.Data.List.Sort

/-! # Player items that are saved and loaded

The loop of `loadPlayer` goes through the rows backwards and puts every item in front of
the others in its container, so that every container has the rows under its id, in their
order. -/
namespace ForgottenServer.Save
open ForgottenServer.Lib.Wire

/-! ## The id of an item that is read -/

namespace Item
variable {sv : Server} {x : Item}

theorem Reads.unserialize_stop {reader : Reader} {p : Bytes} {f : Item → Item} (hp : Reads reader p f) (x : Item) :
    unserializeWith reader (p.length + 1) x p = (true, f x, []) := by
  obtain ⟨k, hk, hp⟩ := hp
  obtain ⟨n, hn⟩ : ∃ n, p.length + 1 = k + (n + 1) := ⟨p.length - k, by omega⟩
  have hrun := hp (n + 1) x []
  rw [List.append_nil] at hrun
  rw [hn, hrun, unserializeWith]
  rfl

theorem readNumber_id {k : ℕ} {s : Bytes} {f : ℕ → Item} (hf : ∀ n, (f n).id = x.id) :
    (x.readNumber k s f).2.1.id = x.id := by
  unfold readNumber
  split
  · rfl
  · exact hf _

theorem setStrAttr_id (a : StrAttr) (v : Bytes) : (x.setStrAttr a v).id = x.id := by
  unfold setStrAttr
  split_ifs <;> rfl

theorem readText_id (s : Bytes) (a : StrAttr) : (x.readText s a).2.1.id = x.id := by
  unfold readText
  split
  · rfl
  · exact setStrAttr_id a _

theorem readCustomAttributes_id (n : ℕ) (s : Bytes) : (readCustomAttributes n x s).2.1.id = x.id := by
  induction n generalizing x s with
  | zero => rfl
  | succ n ih =>
    rw [readCustomAttributes]
    split
    · rfl
    · split
      · rfl
      · exact ih _

theorem setUniqueId_id (n : ℕ) : (x.setUniqueId sv n).id = x.id := by
  unfold setUniqueId
  split_ifs <;> rfl

/-- No attribute changes the id. -/
theorem readAttr_id (attr : ℕ) (s : Bytes) : (readAttr sv x attr s).2.1.id = x.id := by
  have hsubType : ∀ n : ℤ, (x.setSubType sv n).id = x.id :=
    fun n => (x.setSubType_sameTexts sv n).id
  unfold readAttr
  split
  all_goals first
    | exact readNumber_id fun n => rfl
    | exact readText_id _ _
    | exact readNumber_id fun n => hsubType _
    | exact readNumber_id fun n => setUniqueId_id n
    | rfl
    | skip
  · refine readNumber_id fun n => ?_
    split_ifs <;> rfl
  · split
    · rfl
    · exact readCustomAttributes_id _ _

theorem readDestPos_id (s : Bytes) : (x.readDestPos s).2.1.id = x.id := by
  unfold readDestPos
  split
  · rfl
  · split
    · rfl
    · split <;> rfl

theorem readAttrOf_id (c : ItemClass) (attr : ℕ) (s : Bytes) : (readAttrOf sv c x attr s).2.1.id = x.id := by
  unfold readAttrOf
  split
  · split <;> rfl
  · exact readNumber_id fun n => rfl
  · exact readNumber_id fun n => rfl
  · exact readNumber_id fun n => setSleeper_id x n
  · exact readNumber_id fun n => rfl
  · exact readDestPos_id s
  · exact readAttr_id attr s

theorem unserializeWith_id {reader : Reader} (hreader : ∀ x attr s, (reader x attr s).2.1.id = x.id) (fuel : ℕ)
    (x : Item) (s : Bytes) : (unserializeWith reader fuel x s).2.1.id = x.id := by
  induction fuel generalizing x s with
  | zero => rfl
  | succ fuel ih =>
    rw [unserializeWith]
    split
    · rfl
    · rename_i attr s' _
      split_ifs
      · rfl
      · have hid := hreader x attr s'
        split
        · rename_i heq
          rw [heq] at hid
          exact hid
        · rename_i heq
          rw [heq] at hid
          exact hid
        · rename_i heq
          rw [heq] at hid
          exact (ih _ _).trans hid

theorem unserialize_id (x : Item) (s : Bytes) : (x.unserialize sv s).2.1.id = x.id :=
  unserializeWith_id (fun _ attr s => readAttrOf_id _ attr s) _ x s

end Item

namespace Player
variable {sv : Server}

/-! ## The map of the items -/

/-- What a row brings into the map. -/
def entry (sv : Server) (r : Row) : Option (ℕ × Item × ℕ) := (loadRow sv r).map fun x => (r.sid, x, r.pid)

theorem assign_perm {sid : ℕ} {pair : Item × ℕ} {m : ItemMap} (h : sid ∉ m.map Prod.fst) :
    (m.assign sid pair).Perm ((sid, pair) :: m) := by
  induction m with
  | nil => exact .refl _
  | cons e m ih =>
    rw [List.map_cons, List.mem_cons, not_or] at h
    rw [ItemMap.assign]
    split_ifs with hlt heq
    · exact .refl _
    · exact absurd heq h.1
    · exact ((ih h.2).cons e).trans (.swap _ _ _)

theorem assign_sorted {sid : ℕ} {pair : Item × ℕ} {m : ItemMap} (hm : m.Pairwise fun a b => a.1 < b.1)
    (h : sid ∉ m.map Prod.fst) : (m.assign sid pair).Pairwise fun a b => a.1 < b.1 := by
  induction m with
  | nil => simp [ItemMap.assign]
  | cons e m ih =>
    rw [List.map_cons, List.mem_cons, not_or] at h
    obtain ⟨hhead, htail⟩ := List.pairwise_cons.mp hm
    rw [ItemMap.assign]
    split_ifs with hlt heq
    · refine List.pairwise_cons.mpr ⟨fun a ha => ?_, hm⟩
      rcases List.mem_cons.mp ha with rfl | ha
      · exact hlt
      · exact hlt.trans (hhead a ha)
    · exact absurd heq h.1
    · refine List.pairwise_cons.mpr ⟨fun a ha => ?_, ih htail h.2⟩
      rcases List.mem_cons.mp ((assign_perm h.2).subset ha) with rfl | ha
      · exact lt_of_le_of_ne (not_lt.mp hlt) fun he => heq he.symm
      · exact hhead a ha

theorem entry_sid {r : Row} {e : ℕ × Item × ℕ} (h : entry sv r = some e) : e.1 = r.sid := by
  rw [entry, Option.map_eq_some_iff] at h
  obtain ⟨x, -, rfl⟩ := h
  rfl

theorem loadItems_from {result : List Row} {m : ItemMap} (hm : m.Pairwise fun a b => a.1 < b.1)
    (hnodup : (result.map Row.sid).Nodup) (hnew : ∀ r ∈ result, r.sid ∉ m.map Prod.fst) :
    let m' : ItemMap := result.foldl (fun m r =>
      match loadRow sv r with
      | some x => m.assign r.sid (x, r.pid)
      | none => m) m
    m'.Perm (m ++ result.filterMap (entry sv)) ∧ m'.Pairwise fun a b => a.1 < b.1 := by
  induction result generalizing m with
  | nil => exact ⟨by simp, hm⟩
  | cons r result ih =>
    rw [List.map_cons, List.nodup_cons] at hnodup
    obtain ⟨hfirst, hrest⟩ := hnodup
    have hold : r.sid ∉ m.map Prod.fst := hnew r (by simp)
    have hnew' : ∀ r' ∈ result, r'.sid ∉ m.map Prod.fst :=
      fun r' hr' => hnew r' (List.mem_cons_of_mem r hr')
    cases hload : loadRow sv r with
    | none =>
      obtain ⟨hperm, hsorted⟩ := ih hm hrest hnew'
      have hentry : entry sv r = none := by rw [entry, hload]; rfl
      simp only [List.foldl_cons, hload, List.filterMap_cons, hentry]
      exact ⟨hperm, hsorted⟩
    | some x =>
      have hentry : entry sv r = some (r.sid, x, r.pid) := by rw [entry, hload]; rfl
      have hassigned : (m.assign r.sid (x, r.pid)).Pairwise fun a b => a.1 < b.1 :=
        assign_sorted hm hold
      obtain ⟨hperm, hsorted⟩ := ih hassigned hrest fun r' hr' hmem => by
        have hmem' := ((assign_perm hold).map Prod.fst).subset hmem
        rw [List.map_cons, List.mem_cons] at hmem'
        rcases hmem' with heq | hmem'
        · have heq : r'.sid = r.sid := heq
          exact hfirst (heq ▸ List.mem_map_of_mem hr')
        · exact hnew' r' hr' hmem'
      simp only [List.foldl_cons, hload, List.filterMap_cons, hentry]
      refine ⟨hperm.trans ?_, hsorted⟩
      exact ((assign_perm hold).append_right _).trans List.perm_middle.symm

theorem loadItems_eq {rows result : List Row} (hsorted : (rows.map Row.sid).Pairwise (· < ·))
    (hresult : result.Perm rows) : loadItems sv result = rows.filterMap (entry sv) := by
  have hnodup : (result.map Row.sid).Nodup :=
    (hresult.map Row.sid).nodup_iff.mpr (hsorted.imp fun h => h.ne)
  obtain ⟨hperm, hsorted'⟩ : (loadItems sv result).Perm ([] ++ result.filterMap (entry sv)) ∧ _ :=
    loadItems_from .nil hnodup (by simp)
  have hrows : (rows.filterMap (entry sv)).Pairwise fun a b => a.1 < b.1 := by
    rw [List.pairwise_filterMap]
    rw [List.pairwise_map] at hsorted
    refine hsorted.imp fun {r r'} hlt e he e' he' => ?_
    rw [entry_sid he, entry_sid he']
    exact hlt
  refine List.Perm.eq_of_pairwise (fun a b _ _ hab hba =>
    absurd (hab.trans hba) (lt_irrefl _)) hsorted' hrows ?_
  exact hperm.trans (hresult.filterMap _)

/-! ## The loop over the map -/

def under (l : ItemMap) (id : ℕ) : List ℕ := (l.filter fun e => e.2.2 = id).map Prod.fst

theorem under_cons (e : ℕ × Item × ℕ) (l : ItemMap) (id : ℕ) :
    under (e :: l) id = if e.2.2 = id then e.1 :: under l id else under l id := by
  by_cases h : e.2.2 = id
  · rw [if_pos h, under, List.filter_cons_of_pos (by simp [h]), List.map_cons, under]
  · rw [if_neg h, under, List.filter_cons_of_neg (by simp [h]), under]

def IsSlot (id : ℕ) : Prop := 1 ≤ id ∧ id ≤ 10

instance (id : ℕ) : Decidable (IsSlot id) := inferInstanceAs (Decidable (_ ∧ _))

def isHolder (sv : Server) (m : ItemMap) (id : ℕ) : Bool :=
  !decide (IsSlot id) && (m.find id).any fun e => (e.1.classOf sv).isContainer

theorem attach_slot {m : ItemMap} {h : Hung} {e : ℕ × Item × ℕ} (hslot : IsSlot e.2.2) :
    attach sv m h e = h.equip e.2.2 e.1 := if_pos hslot

theorem attach_holder {m : ItemMap} {h : Hung} {e : ℕ × Item × ℕ} (hslot : ¬ IsSlot e.2.2) :
    attach sv m h e = if isHolder sv m e.2.2 then h.push e.2.2 e.1 else h := by
  have hrange : ¬ (1 ≤ e.2.2 ∧ e.2.2 ≤ 10) := hslot
  unfold attach
  dsimp only
  rw [if_neg hrange, isHolder, decide_eq_false hslot]
  cases m.find e.2.2 with
  | none => rfl
  | some c => simp

theorem equip_inventory (h : Hung) (slot sid s : ℕ) :
    (h.equip slot sid).inventory s = if s = slot then (h.inventory s).or (some sid) else h.inventory s := by
  unfold Hung.equip
  split_ifs with hsome heq heq
  · subst heq
    obtain ⟨i, hi⟩ := Option.isSome_iff_exists.mp hsome
    rw [hi]
    rfl
  · rfl
  · subst heq
    simp only [Option.not_isSome_iff_eq_none] at hsome
    simp [hsome]
  · simp [heq]

theorem equip_itemlist (h : Hung) (slot sid : ℕ) : (h.equip slot sid).itemlist = h.itemlist := by
  unfold Hung.equip
  split_ifs <;> rfl

theorem attached (m : ItemMap) (l : ItemMap) :
    let h := l.foldr (fun e h => attach sv m h e) {}
    (∀ id, h.itemlist id = if isHolder sv m id then under l id else []) ∧
      ∀ slot, h.inventory slot = if IsSlot slot then (under l slot).getLast? else none := by
  induction l with
  | nil => exact ⟨fun id => by simp [under], fun slot => by simp [under]⟩
  | cons e l ih =>
    obtain ⟨hlist, hinventory⟩ := ih
    dsimp only at hlist hinventory ⊢
    rw [List.foldr_cons]
    by_cases hslot : IsSlot e.2.2
    · rw [attach_slot hslot]
      refine ⟨fun id => ?_, fun slot => ?_⟩
      · rw [equip_itemlist, hlist, under_cons]
        by_cases hid : e.2.2 = id
        · have hno : isHolder sv m id = false := by simp [isHolder, ← hid, hslot]
          simp [hno]
        · simp [hid]
      · rw [equip_inventory, hinventory, under_cons]
        by_cases hid : slot = e.2.2
        · subst hid
          simp only [if_true, if_pos hslot, List.getLast?_cons]
          cases (under l e.2.2).getLast? <;> rfl
        · simp [hid, Ne.symm hid]
    · rw [attach_holder hslot]
      refine ⟨fun id => ?_, fun slot => ?_⟩
      · rw [under_cons]
        by_cases hholder : isHolder sv m e.2.2 = true
        · rw [if_pos hholder]
          simp only [Hung.push]
          by_cases hid : id = e.2.2
          · subst hid
            simp [hlist, hholder]
          · simp [hlist, hid, Ne.symm hid]
        · rw [if_neg hholder, hlist]
          by_cases hid : e.2.2 = id
          · subst hid
            simp [hholder]
          · simp [hid]
      · have hsame : (if isHolder sv m e.2.2 then
            (l.foldr (fun e h => attach sv m h e) {}).push e.2.2 e.1
            else l.foldr (fun e h => attach sv m h e) {}).inventory =
              (l.foldr (fun e h => attach sv m h e) {}).inventory := by
          split_ifs <;> rfl
        rw [hsame, hinventory, under_cons]
        by_cases hs : IsSlot slot
        · have hne : e.2.2 ≠ slot := fun heq => hslot (heq ▸ hs)
          simp [hne]
        · simp [hs]

/-! ## What comes back -/

/-- `y` is what the row of `x` is loaded as. It is `x` as far as its class writes it, when
its type creates it as it is. -/
structure Back (sv : Server) (x y : Item) : Prop where
  loaded : loadRow sv (row sv 0 0 x) = some y
  kept : x.InClassRange → Decay.Item.createId (fun id => (sv.items id).toItemType) x.id = x.id →
    (x.classOf sv ≠ .door → x.classOf sv ≠ .bed → Item.Regular sv x) → KeptItem sv x y

theorem createId_of_class {id : ℕ} (h : (sv.items id).classOf ≠ .item) :
    Decay.Item.createId (fun id => (sv.items id).toItemType) id = id := by
  unfold Decay.Item.createId
  refine if_pos ?_
  unfold ItemType.classOf at h
  simp only [List.mem_cons, List.not_mem_nil, or_false]
  split_ifs at h <;> tauto

theorem createItem_known {id : ℕ} (h : (sv.items id).group ≠ .deprecated ∧ (sv.items id).id ≠ 0) (count : ℕ) :
    ∃ n, Item.createItem sv id count =
      some (Item.new sv (Decay.Item.createId (fun id => (sv.items id).toItemType) id) n) := by
  unfold Item.createItem
  dsimp only
  rw [if_neg (by tauto)]
  by_cases hclass : (sv.items id).classOf = .item
  · rw [if_neg (by simpa using hclass)]
    exact ⟨_, rfl⟩
  · rw [if_pos hclass, createId_of_class hclass]
    exact ⟨0, rfl⟩

theorem row_back {x : Item} (h : (sv.items x.id).group ≠ .deprecated ∧ (sv.items x.id).id ≠ 0) :
    ∃ y, Back sv x y ∧ ((x.classOf sv).isContainer = true → y.classOf sv = x.classOf sv) := by
  obtain ⟨n, hcreate⟩ := createItem_known h (x.getSubType sv % 2 ^ 16).toNat
  have hload : loadRow sv (row sv 0 0 x) = some
      ((Item.new sv (Decay.Item.createId (fun id => (sv.items id).toItemType) x.id) n).unserialize sv
        (x.writeAttr sv)).2.1 := by
    simp only [loadRow, row, hcreate, Option.map_some]
  refine ⟨_, ⟨hload, fun hrange hid hregular => ?_⟩, fun hc => Item.classOf_of_id ?_⟩
  · have hnew : (Item.new sv x.id n).classOf sv = x.classOf sv :=
      Item.classOf_of_id (Item.new_sameTexts sv x.id n).id
    rw [hid, Item.unserialize, hnew, (Item.writeAttr_reads hrange).unserialize_stop]
    exact copyClass_kept hrange hregular n
  · rw [Item.unserialize_id, (Item.new_sameTexts sv _ n).id]
    refine createId_of_class fun hitem => ?_
    rw [Item.classOf, Item.type, hitem] at hc
    cases hc

theorem loadRow_row (pid sid : ℕ) (x : Item) : loadRow sv (row sv pid sid x) = loadRow sv (row sv 0 0 x) := rfl

theorem entry_row {pid sid : ℕ} {x y : Item} (h : Back sv x y) : entry sv (row sv pid sid x) = some (sid, y, pid) := by
  rw [entry, loadRow_row, h.loaded]
  rfl

theorem find_entry {rows : List Row} (hnodup : (rows.map Row.sid).Nodup) {r : Row} (hr : r ∈ rows) {e : ℕ × Item × ℕ}
    (he : entry sv r = some e) : ItemMap.find (rows.filterMap (entry sv)) r.sid = some e.2 := by
  induction rows with
  | nil => cases hr
  | cons r' rows ih =>
    rw [List.map_cons, List.nodup_cons] at hnodup
    obtain ⟨hfirst, hrest⟩ := hnodup
    rcases List.mem_cons.mp hr with rfl | hr
    · simp only [ItemMap.find, List.filterMap_cons, he, List.find?_cons, entry_sid he, decide_true, Option.map_some]
    · have hne : r'.sid ≠ r.sid := fun heq => hfirst (heq ▸ List.mem_map_of_mem hr)
      have hih := ih hrest hr
      cases he' : entry sv r' with
      | none => simp only [List.filterMap_cons, he', hih]
      | some e' =>
        simp only [ItemMap.find, List.filterMap_cons, he', List.find?_cons, entry_sid he', hne, decide_false] at hih ⊢
        exact hih

theorem under_entries {rows : List Row} (h : ∀ r ∈ rows, (entry sv r).isSome) (id : ℕ) :
    under (rows.filterMap (entry sv)) id = children rows id := by
  induction rows with
  | nil => rfl
  | cons r rows ih =>
    obtain ⟨e, he⟩ := Option.isSome_iff_exists.mp (h r (by simp))
    have hpid : e.2.2 = r.pid := by
      rw [entry, Option.map_eq_some_iff] at he
      obtain ⟨x, -, rfl⟩ := he
      rfl
    have hih := ih fun r' hr' => h r' (List.mem_cons_of_mem r hr')
    rw [List.filterMap_cons_some he, under_cons, hpid, hih, entry_sid he, children, children]
    by_cases hid : r.pid = id
    · rw [if_pos hid, List.filter_cons_of_pos (by simp [hid]), List.map_cons]
    · rw [if_neg hid, List.filter_cons_of_neg (by simp [hid])]

/-- The tree of saved items hangs under an id, in its order. -/
inductive Hangs (sv : Server) (m : ItemMap) (h : Hung) : ℕ → Tree → Prop
  | node {id pid : ℕ} {x y : Item} {l : List Tree} (item : m.find id = some (y, pid)) (back : Back sv x y)
    (children : List.Forall₂ (Hangs sv m h) (h.itemlist id) l) : Hangs sv m h id (.node x l)

section Loaded
variable {blocks : List (ℕ × Tree)} {rows : List Row} (hsaves : Saves sv blocks rows)

/-- The map that the rows are loaded into. -/
def mapOf (sv : Server) (rows : List Row) : ItemMap := rows.filterMap (entry sv)

include hsaves

theorem Saves.sorted : (rows.map Row.sid).Pairwise (· < ·) := by
  obtain ⟨k, hsids⟩ := hsaves.sids
  rw [hsids]
  exact List.pairwise_lt_range'

theorem Saves.nodup : (rows.map Row.sid).Nodup := hsaves.sorted.imp fun h => h.ne

theorem Saves.sid_gt {r : Row} (hr : r ∈ rows) : 100 < r.sid := by
  obtain ⟨k, hsids⟩ := hsaves.sids
  have hmem : r.sid ∈ rows.map Row.sid := List.mem_map_of_mem hr
  rw [hsids, List.mem_range'_1] at hmem
  omega

theorem Saves.row_unique {r r' : Row} (hr : r ∈ rows) (hr' : r' ∈ rows) (h : r.sid = r'.sid) : r = r' :=
  List.inj_on_of_nodup_map hsaves.nodup hr hr' h

theorem Saves.entries (r : Row) (hr : r ∈ rows) : (entry sv r).isSome := by
  obtain ⟨x, hrow, hknown⟩ := hsaves.items r hr
  obtain ⟨y, hback, -⟩ := row_back hknown
  rw [hrow, entry_row hback]
  rfl

theorem Saves.holder {pid id : ℕ} {x : Item} (hrow : row sv pid id x ∈ rows) (hc : (x.classOf sv).isContainer = true) :
    isHolder sv (mapOf sv rows) id = true := by
  have hgt : 100 < id := hsaves.sid_gt hrow
  have hslot : ¬ IsSlot id := fun h => by
    have := h.2
    omega
  obtain ⟨x', heq, hknown⟩ := hsaves.items _ hrow
  have hid : x.id = x'.id := congrArg Row.itemtype heq
  rw [← hid] at hknown
  obtain ⟨y, hback, hclass⟩ := row_back hknown
  have hfind : ItemMap.find (mapOf sv rows) id = some (y, pid) :=
    find_entry hsaves.nodup hrow (entry_row hback)
  rw [isHolder, decide_eq_false hslot, hfind]
  simpa [hclass hc] using hc

theorem Saves.itemlist (id : ℕ) : (attachAll sv (mapOf sv rows)).itemlist id =
    if isHolder sv (mapOf sv rows) id then children rows id else [] := by
  rw [attachAll, List.foldl_reverse, (attached _ _).1, mapOf, under_entries hsaves.entries]

theorem Saves.inventory (slot : ℕ) : (attachAll sv (mapOf sv rows)).inventory slot =
    if IsSlot slot then (children rows slot).getLast? else none := by
  rw [attachAll, List.foldl_reverse, (attached _ _).2, mapOf, under_entries hsaves.entries]

theorem Saves.itemlist_row (hslots : ∀ e ∈ blocks, e.1 ≤ 100) {r : Row} (hr : r ∈ rows) :
    (attachAll sv (mapOf sv rows)).itemlist r.sid = children rows r.sid := by
  rw [hsaves.itemlist]
  by_cases hholder : isHolder sv (mapOf sv rows) r.sid = true
  · rw [if_pos hholder]
  · rw [if_neg hholder]
    refine (children_eq_nil fun r' hr' hpid => ?_).symm
    rcases hsaves.parents r' hr' with hroot | ⟨pid, x, hrow, hc⟩
    · obtain ⟨e, he, hslot⟩ := List.mem_map.mp hroot
      have := hslots e he
      have := hsaves.sid_gt hr
      omega
    · rw [hpid] at hrow
      exact hholder (hsaves.holder hrow hc)

/-- Every saved item hangs in exactly one place. -/
theorem Saves.once (hslots : ∀ e ∈ blocks, IsSlot e.1) :
    (slots.flatMap (children rows) ++ rows.flatMap fun r => children rows r.sid).Perm (rows.map Row.sid) := by
  have hkeys : (slots.flatMap (children rows) ++ rows.flatMap fun r => children rows r.sid) =
      (slots ++ rows.map Row.sid).flatMap (children rows) := by
    rw [List.flatMap_append, List.flatMap_map]
  have hmem : ∀ {i k : ℕ}, i ∈ children rows k ↔ ∃ r ∈ rows, r.pid = k ∧ r.sid = i := by
    intro i k
    simp [children, and_assoc]
  have hnodup : (slots ++ rows.map Row.sid).Nodup := by
    refine List.nodup_append.mpr ⟨List.nodup_range' .., hsaves.nodup, fun a ha b hb => ?_⟩
    obtain ⟨r, hr, rfl⟩ := List.mem_map.mp hb
    have := hsaves.sid_gt hr
    rw [slots, List.mem_range'_1] at ha
    omega
  rw [hkeys]
  refine (List.perm_ext_iff_of_nodup ?_ hsaves.nodup).mpr fun i => ?_
  · refine List.nodup_flatMap.mpr ⟨fun k _ => hsaves.nodup.sublist (List.filter_sublist.map _), ?_⟩
    refine hnodup.imp_of_mem fun {a b} _ _ hne i ha hb => ?_
    obtain ⟨r, hr, hpid, hsid⟩ := hmem.mp ha
    obtain ⟨r', hr', hpid', hsid'⟩ := hmem.mp hb
    have hsame : r = r' := hsaves.row_unique hr hr' (hsid.trans hsid'.symm)
    exact hne (hpid.symm.trans (hsame ▸ hpid'))
  · rw [List.mem_flatMap, List.mem_map]
    constructor
    · rintro ⟨k, -, hi⟩
      obtain ⟨r, hr, -, hsid⟩ := hmem.mp hi
      exact ⟨r, hr, hsid⟩
    · rintro ⟨r, hr, hsid⟩
      refine ⟨r.pid, List.mem_append.mpr ?_, hmem.mpr ⟨r, hr, rfl, hsid⟩⟩
      rcases hsaves.parents r hr with hroot | ⟨pid, x, hrow, -⟩
      · obtain ⟨e, he, hslot⟩ := List.mem_map.mp hroot
        have := hslots e he
        rw [← hslot, slots, List.mem_range'_1]
        exact .inl ⟨this.1, by have := this.2; omega⟩
      · exact .inr (List.mem_map.mpr ⟨_, hrow, rfl⟩)

end Loaded

mutual

theorem Saves.hangs {blocks : List (ℕ × Tree)} {rows : List Row} (hsaves : Saves sv blocks rows)
    (hslots : ∀ e ∈ blocks, e.1 ≤ 100) : ∀ (t : Tree) (id : ℕ), Written sv rows id t →
    Hangs sv (mapOf sv rows) (attachAll sv (mapOf sv rows)) id t
  | .node x l, id, h => by
    cases h with
    | @node pid _ _ _ hrow hchildren =>
      obtain ⟨x', heq, hknown⟩ := hsaves.items _ hrow
      have hid : x.id = x'.id := congrArg Row.itemtype heq
      rw [← hid] at hknown
      obtain ⟨y, hback, -⟩ := row_back hknown
      have hlist := hsaves.itemlist_row hslots hrow
      refine .node (find_entry hsaves.nodup hrow (entry_row hback)) hback ?_
      rw [show (attachAll sv (mapOf sv rows)).itemlist id = children rows id from hlist]
      exact hsaves.hangAll hslots l _ hchildren

theorem Saves.hangAll {blocks : List (ℕ × Tree)} {rows : List Row} (hsaves : Saves sv blocks rows)
    (hslots : ∀ e ∈ blocks, e.1 ≤ 100) : ∀ (l : List Tree) (ids : List ℕ),
    List.Forall₂ (Written sv rows) ids l → List.Forall₂ (Hangs sv (mapOf sv rows) (attachAll sv (mapOf sv rows))) ids l
  | [], _, h => by
    cases h
    exact .nil
  | t :: l, _, h => by
    cases h with
    | cons hhead htail =>
      exact .cons (hsaves.hangs hslots t _ hhead) (hsaves.hangAll hslots l _ htail)

end

theorem mem_itemBlocks {inventory : ℕ → Option Tree} {e : ℕ × Tree} :
    e ∈ itemBlocks inventory ↔ e.1 ∈ slots ∧ inventory e.1 = some e.2 := by
  obtain ⟨slot, t⟩ := e
  rw [itemBlocks, List.mem_filterMap]
  constructor
  · rintro ⟨s, hs, heq⟩
    rw [Option.map_eq_some_iff] at heq
    obtain ⟨u, hu, heq⟩ := heq
    cases heq
    exact ⟨hs, hu⟩
  · rintro ⟨hs, ht⟩
    exact ⟨slot, hs, by rw [show inventory slot = some t from ht]; rfl⟩

theorem itemBlocks_fst (inventory : ℕ → Option Tree) :
    (itemBlocks inventory).map Prod.fst = slots.filter fun slot => (inventory slot).isSome := by
  rw [itemBlocks, List.map_filterMap, ← List.filterMap_eq_filter]
  refine List.filterMap_congr fun slot _ => ?_
  cases h : inventory slot <;> simp [Option.guard, h]

theorem mem_slots {slot : ℕ} : slot ∈ slots ↔ IsSlot slot := by
  rw [slots, List.mem_range'_1, IsSlot]
  omega

theorem itemBlocks_isSlot {inventory : ℕ → Option Tree} (e : ℕ × Tree) (he : e ∈ itemBlocks inventory) : IsSlot e.1 :=
  mem_slots.mp (mem_itemBlocks.mp he).1

theorem itemBlocks_le {inventory : ℕ → Option Tree} (e : ℕ × Tree) (he : e ∈ itemBlocks inventory) : e.1 ≤ 100 := by
  have := (itemBlocks_isSlot e he).2
  omega

theorem Saves.children_empty {inventory : ℕ → Option Tree} {rows : List Row}
    (hsaves : Saves sv (itemBlocks inventory) rows) {slot : ℕ} (hslot : slot ∈ slots) (h : inventory slot = none) :
    children rows slot = [] := by
  refine hsaves.others slot ?_ ?_
  · have := (mem_slots.mp hslot).2
    omega
  · rw [itemBlocks_fst, List.mem_filter, h]
    simp

theorem Saves.slot_back {inventory : ℕ → Option Tree} {rows : List Row} (hsaves : Saves sv (itemBlocks inventory) rows)
    {slot : ℕ} (hslot : slot ∈ slots) : match inventory slot with
      | none => (attachAll sv (mapOf sv rows)).inventory slot = none
      | some t => ∃ id, (attachAll sv (mapOf sv rows)).inventory slot = some id ∧
          Hangs sv (mapOf sv rows) (attachAll sv (mapOf sv rows)) id t := by
  have hinventory : (attachAll sv (mapOf sv rows)).inventory slot = (children rows slot).getLast? := by
    rw [hsaves.inventory, if_pos (mem_slots.mp hslot)]
  cases ht : inventory slot with
  | none =>
    simp only
    rw [hinventory, hsaves.children_empty hslot ht]
    rfl
  | some t =>
    obtain ⟨id, hchildren, hwritten⟩ := hsaves.roots (slot, t) (mem_itemBlocks.mpr ⟨hslot, ht⟩)
    refine ⟨id, ?_, hsaves.hangs itemBlocks_le t id hwritten⟩
    rw [hinventory, show children rows slot = [id] from hchildren]
    rfl

theorem Saves.inventory_toList {inventory : ℕ → Option Tree} {rows : List Row}
    (hsaves : Saves sv (itemBlocks inventory) rows) {slot : ℕ} (hslot : slot ∈ slots) :
    ((attachAll sv (mapOf sv rows)).inventory slot).toList = children rows slot := by
  rw [hsaves.inventory, if_pos (mem_slots.mp hslot)]
  cases ht : inventory slot with
  | none =>
    rw [hsaves.children_empty hslot ht]
    rfl
  | some t =>
    obtain ⟨id, hchildren, -⟩ := hsaves.roots (slot, t) (mem_itemBlocks.mpr ⟨hslot, ht⟩)
    rw [show children rows slot = [id] from hchildren]
    rfl

/-- The items of a player that are saved and loaded. The ids are distinct, every parent has a
smaller one than its items, and in whatever order the rows are read each slot has its item
again, with the same items in every container, in their order. Every row hangs in one place. -/
theorem loadPlayer_saveItems {inventory : ℕ → Option Tree}
    (hsound : ∀ slot ∈ slots, ∀ t, inventory slot = some t → Sound sv t) {result : List Row}
    (hresult : result.Perm (saveItems sv (itemBlocks inventory))) :
    let rows := saveItems sv (itemBlocks inventory)
    let m := loadItems sv result
    let player := attachAll sv m
    (rows.map Row.sid).Nodup ∧ (∀ r ∈ rows, r.pid < r.sid) ∧ (∀ slot ∈ slots, match inventory slot with
        | none => player.inventory slot = none
        | some t => ∃ id, player.inventory slot = some id ∧ Hangs sv m player id t) ∧
      (slots.filterMap player.inventory ++ rows.flatMap fun r => player.itemlist r.sid).Perm (rows.map Row.sid) := by
  have hnodup : ((itemBlocks inventory).map Prod.fst).Nodup := by
    rw [itemBlocks_fst]
    exact (List.nodup_range' ..).filter _
  have hsaves : Saves sv (itemBlocks inventory) (saveItems sv (itemBlocks inventory)) :=
    saveItems_saves hnodup itemBlocks_le fun e he =>
      hsound e.1 (mem_itemBlocks.mp he).1 e.2 (mem_itemBlocks.mp he).2
  have hmap : loadItems sv result = mapOf sv (saveItems sv (itemBlocks inventory)) :=
    loadItems_eq hsaves.sorted hresult
  dsimp only
  rw [hmap]
  refine ⟨hsaves.nodup, hsaves.pids, fun slot hslot => hsaves.slot_back hslot, ?_⟩
  rw [List.filterMap_eq_flatMap_toList, List.flatMap_congr fun slot hslot => hsaves.inventory_toList hslot,
    List.flatMap_congr fun r hr => hsaves.itemlist_row itemBlocks_le hr]
  exact hsaves.once itemBlocks_isSlot

def packed (slot : ℕ) : Option Tree := if slot = 3 then some bagWithSword else none

theorem bagWithSword_sound : Sound furniture bagWithSword := by
  have hsword : Sound furniture (.node { id := 2400 } []) :=
    .node (by decide) (fun _ => rfl) (by simp)
  refine .node (by decide) (by decide) fun t ht => ?_
  obtain rfl := List.mem_singleton.mp ht
  exact hsword

theorem loadPlayer_saveItems_packed :
    let rows := saveItems furniture (itemBlocks packed)
    let m := loadItems furniture rows.reverse
    let player := attachAll furniture m
    (rows.map Row.sid).Nodup ∧ (∀ r ∈ rows, r.pid < r.sid) ∧ (∀ slot ∈ slots, match packed slot with
        | none => player.inventory slot = none
        | some t => ∃ id, player.inventory slot = some id ∧ Hangs furniture m player id t) ∧
      (slots.filterMap player.inventory ++ rows.flatMap fun r => player.itemlist r.sid).Perm (rows.map Row.sid) := by
  refine loadPlayer_saveItems (fun slot _ t ht => ?_) (List.reverse_perm _)
  unfold packed at ht
  split_ifs at ht
  cases ht
  exact bagWithSword_sound

end Player
end ForgottenServer.Save
