import ForgottenServer.Lib.Run
import ForgottenServer.Spawns.Spawn
import Mathlib.Data.List.Nodup

/-! # When a spawn refills

The check compares the sizes of two maps. A monster under the key 0 counts as one of
a slot there, so that the spawn may look full. -/
namespace ForgottenServer.Spawns
open ForgottenServer.Lib.Run
namespace Spawn

/-! ## Slots and entries -/

/-- The slots without a monster. -/
def emptySlots (s : Spawn) : List ℕ := s.ids.filter fun spawnId => !s.occupied spawnId

/-- The number of monsters under the key 0. -/
def strays (s : Spawn) : ℕ := s.spawnedMap.countP fun e => e.1 = 0

/-- Keys are slots, and no slot has two monsters. -/
structure WellFormed (s : Spawn) : Prop where
  slot : ∀ e ∈ s.spawnedMap, e.1 ≤ s.size
  single : ((s.spawnedMap.map (·.1)).filter (· ≠ 0)).Nodup

/-- A check has left an event where it has left a slot empty. -/
def Refills (s : Spawn) : Prop := s.emptySlots ≠ [] → s.checkSpawnEvent = true

variable {s : Spawn} {c : Check} {spawnId : ℕ} {entry : ℕ × Monster}

theorem mem_ids : spawnId ∈ s.ids ↔ 0 < spawnId ∧ spawnId ≤ s.size := by
  rw [ids, List.mem_range'_1]
  omega

theorem ids_nodup (s : Spawn) : s.ids.Nodup := List.nodup_range'

theorem occupied_iff : s.occupied spawnId = true ↔ ∃ m, (spawnId, m) ∈ s.spawnedMap := by
  rw [occupied, List.any_eq_true]
  constructor
  · rintro ⟨⟨key, m⟩, he, hkey⟩
    obtain rfl : key = spawnId := by simpa using hkey
    exact ⟨m, he⟩
  · rintro ⟨m, he⟩
    exact ⟨_, he, by simp⟩

theorem WellFormed.size_add_empty (h : s.WellFormed) :
    s.spawnedMap.length + s.emptySlots.length = s.size + s.strays := by
  have hperm : ((s.spawnedMap.map (·.1)).filter (· ≠ 0)).Perm (s.ids.filter s.occupied) := by
    refine (List.perm_ext_iff_of_nodup h.single (s.ids_nodup.filter _)).mpr fun spawnId => ?_
    rw [List.mem_filter, List.mem_filter, List.mem_map, mem_ids, occupied_iff]
    constructor
    · rintro ⟨⟨e, he, rfl⟩, hzero⟩
      have hne : e.1 ≠ 0 := by simpa using hzero
      exact ⟨⟨Nat.pos_of_ne_zero hne, h.slot e he⟩, e.2, he⟩
    · rintro ⟨⟨hpos, -⟩, m, he⟩
      exact ⟨⟨_, he, rfl⟩, by simpa using hpos.ne'⟩
  have hkeys : s.spawnedMap.length = ((s.spawnedMap.map (·.1)).filter (· ≠ 0)).length +
      s.strays := by
    rw [strays, List.filter_map, List.length_map, ← List.countP_eq_length_filter,
      List.length_eq_countP_add_countP (fun e => decide (e.1 ≠ 0))]
    congr 1
    refine List.countP_congr fun e _ => ?_
    simp
  have hids : s.size = (s.ids.filter s.occupied).length + s.emptySlots.length := by
    have hlength : s.ids.length = s.size := List.length_range'
    rw [← hlength, emptySlots]
    exact List.length_eq_length_filter_add s.occupied
  have hlength := hperm.length_eq
  omega

/-! ## The cleanup -/

/-- What becomes of an entry. -/
def kept (s : Spawn) (entry : ℕ × Monster) : Option (ℕ × Monster) :=
  if entry.2.isRemoved then none
  else if !s.isInSpawnZone entry.2.position && entry.1 ≠ 0 then some (0, entry.2)
  else some entry

/-- The monster of the slot was removed. -/
def lost (s : Spawn) (spawnId : ℕ) : Bool :=
  s.spawnedMap.any fun e => e.1 = spawnId && e.2.isRemoved

/-- What `cleanup` makes of the entries `l`, added to what it has kept before. -/
structure Cleaned (now : ℤ) (l : List (ℕ × Monster)) (s s' : Spawn) : Prop where
  spawnedMap : s'.spawnedMap = s.spawnedMap ++ l.filterMap s.kept
  size : s'.size = s.size
  event : s'.checkSpawnEvent = s.checkSpawnEvent
  kept : s'.kept = s.kept
  interval : ∀ spawnId, (s'.spawnMap spawnId).interval = (s.spawnMap spawnId).interval
  lastSpawn : ∀ spawnId, spawnId ≠ 0 → (s'.spawnMap spawnId).lastSpawn =
    if l.any fun e => e.1 = spawnId && e.2.isRemoved then now else (s.spawnMap spawnId).lastSpawn

theorem setLastSpawn_interval (s : Spawn) (now : ℤ) (key spawnId : ℕ) :
    ((s.setLastSpawn key now).spawnMap spawnId).interval = (s.spawnMap spawnId).interval := by
  by_cases heq : spawnId = key
  · simp [setLastSpawn, heq]
  · simp [setLastSpawn, Function.update_of_ne heq]

theorem setLastSpawn_lastSpawn (s : Spawn) (now : ℤ) (key spawnId : ℕ) :
    ((s.setLastSpawn key now).spawnMap spawnId).lastSpawn =
      if key = spawnId then now else (s.spawnMap spawnId).lastSpawn := by
  by_cases heq : key = spawnId
  · simp [setLastSpawn, heq]
  · simp [setLastSpawn, heq, Function.update_of_ne (Ne.symm heq)]

theorem cleanupEntry_cleaned (now : ℤ) (s : Spawn) (entry : ℕ × Monster) :
    Cleaned now [entry] s (cleanupEntry now s entry) := by
  obtain ⟨key, m⟩ := entry
  unfold cleanupEntry
  split
  · rename_i hremoved
    have hgone : [(key, m)].filterMap s.kept = [] := by
      rw [List.filterMap_cons_none (by rw [Spawn.kept, if_pos hremoved]), List.filterMap_nil]
    have hany : ∀ spawnId, ([(key, m)].any fun e => e.1 = spawnId && e.2.isRemoved) =
        decide (key = spawnId) :=
      fun spawnId => by simpa using fun _ => hremoved
    split
    · refine ⟨by rw [hgone, List.append_nil]; rfl, rfl, rfl, rfl, setLastSpawn_interval s now key,
        fun spawnId _ => ?_⟩
      rw [setLastSpawn_lastSpawn, hany]
      simp only [decide_eq_true_eq]
    · rename_i hkey
      refine ⟨by rw [hgone, List.append_nil], rfl, rfl, rfl, fun _ => rfl, fun spawnId hpos => ?_⟩
      have hne : key ≠ spawnId := by
        rintro rfl
        exact hkey hpos
      rw [hany, decide_eq_false hne]
      rfl
  · rename_i hremoved
    have hany : ∀ spawnId, ([(key, m)].any fun e => e.1 = spawnId && e.2.isRemoved) = false := by
      simpa using hremoved
    split
    · rename_i hout
      refine ⟨?_, rfl, rfl, rfl, fun _ => rfl, fun spawnId _ => by rw [hany]; rfl⟩
      rw [List.filterMap_cons_some (by rw [Spawn.kept, if_neg hremoved, if_pos hout]),
        List.filterMap_nil]
      rfl
    · rename_i hin
      refine ⟨?_, rfl, rfl, rfl, fun _ => rfl, fun spawnId _ => by rw [hany]; rfl⟩
      rw [List.filterMap_cons_some (by rw [Spawn.kept, if_neg hremoved, if_neg hin]),
        List.filterMap_nil]
      rfl

theorem foldl_cleanupEntry (now : ℤ) (l : List (ℕ × Monster)) (s : Spawn) :
    Cleaned now l s (l.foldl (cleanupEntry now) s) := by
  induction l generalizing s with
  | nil => exact ⟨by simp, rfl, rfl, rfl, fun _ => rfl, fun _ _ => by simp⟩
  | cons entry l ih =>
    have hfirst := cleanupEntry_cleaned now s entry
    have hrest := ih (cleanupEntry now s entry)
    refine ⟨?_, hrest.size.trans hfirst.size, hrest.event.trans hfirst.event, hrest.kept.trans hfirst.kept,
      fun spawnId => (hrest.interval spawnId).trans (hfirst.interval spawnId), fun spawnId hpos => ?_⟩
    · rw [List.foldl_cons, hrest.spawnedMap, hfirst.spawnedMap, hfirst.kept, List.append_assoc,
        ← List.filterMap_append]
      rfl
    · rw [List.foldl_cons, hrest.lastSpawn spawnId hpos, hfirst.lastSpawn spawnId hpos]
      rw [List.any_cons, List.any_cons, List.any_nil, Bool.or_false]
      split
      · rename_i hlater
        rw [hlater, Bool.or_true, if_pos rfl]
      · rename_i hlater
        rw [Bool.eq_false_of_not_eq_true hlater, Bool.or_false]

theorem cleanup_cleaned (s : Spawn) (now : ℤ) : Cleaned now s.spawnedMap { s with spawnedMap := [] } (s.cleanup now) :=
  foldl_cleanupEntry now s.spawnedMap { s with spawnedMap := [] }

theorem cleanup_spawnedMap (s : Spawn) (now : ℤ) : (s.cleanup now).spawnedMap = s.spawnedMap.filterMap s.kept :=
  (cleanup_cleaned s now).spawnedMap

theorem cleanup_size (s : Spawn) (now : ℤ) : (s.cleanup now).size = s.size :=
  (cleanup_cleaned s now).size

theorem kept_key {e : ℕ × Monster} (h : s.kept entry = some e) : e.1 = 0 ∨ e.1 = entry.1 := by
  unfold kept at h
  split at h
  · exact absurd h (by simp)
  split at h
  · exact .inl (by rw [← Option.some.inj h])
  · exact .inr (by rw [← Option.some.inj h])

theorem keys_sublist (s : Spawn) (l : List (ℕ × Monster)) :
    (((l.filterMap s.kept).map (·.1)).filter (· ≠ 0)).Sublist ((l.map (·.1)).filter (· ≠ 0)) := by
  induction l with
  | nil => exact List.Sublist.refl _
  | cons entry l ih =>
    have hrest : ((l.map (·.1)).filter (· ≠ 0)).Sublist (((entry :: l).map (·.1)).filter (· ≠ 0)) :=
      (List.sublist_cons_self ..).filter _
    cases hkept : s.kept entry with
    | none =>
      rw [List.filterMap_cons_none hkept]
      exact ih.trans hrest
    | some e =>
      rw [List.filterMap_cons_some hkept]
      obtain hzero | hsame := kept_key hkept
      · rw [List.map_cons, List.filter_cons_of_neg (by simp [hzero])]
        exact ih.trans hrest
      · rw [List.map_cons, List.map_cons, hsame, List.filter_cons, List.filter_cons]
        split
        · exact ih.cons_cons _
        · exact ih

theorem WellFormed.cleanup (h : s.WellFormed) (now : ℤ) : (s.cleanup now).WellFormed where
  slot e he := by
    rw [cleanup_spawnedMap, List.mem_filterMap] at he
    obtain ⟨entry, hentry, hkept⟩ := he
    rw [cleanup_size]
    have hslot := h.slot entry hentry
    obtain hzero | hsame := kept_key hkept <;> omega
  single := by
    rw [cleanup_spawnedMap]
    exact h.single.sublist (s.keys_sublist _)

/-! ## The loop over the slots -/

/-- The interval of the slot is over at its turn. -/
def due (s : Spawn) (c : Check) (spawnId : ℕ) : Bool :=
  (s.spawnMap spawnId).lastSpawn + (s.spawnMap spawnId).interval ≤ c.clock spawnId

/-- The loop tries to fill the slot, unless it ends before. -/
def tried (s : Spawn) (c : Check) (spawnId : ℕ) : Bool :=
  !s.occupied spawnId && s.due c spawnId && !c.findPlayer spawnId

end Spawn

/-- The entry that a slot gets. -/
def Check.entry (c : Check) (spawnId : ℕ) : Option (ℕ × Monster) :=
  (c.placed spawnId).map fun p => (spawnId, { id := p.1, position := p.2 })

/-- The loop ends after so many tries, and tries once at least. -/
def Check.limit (c : Check) : ℕ := max c.rateSpawn 1

namespace Spawn
variable {s : Spawn} {c : Check} {spawnId : ℕ} {entry : ℕ × Monster}

theorem spawnMonster_spawnedMap (s : Spawn) (c : Check) (spawnId : ℕ) :
    (s.spawnMonster c spawnId).spawnedMap = s.spawnedMap ++ (c.entry spawnId).toList := by
  unfold spawnMonster Check.entry
  cases c.placed spawnId with
  | none => simp
  | some p => rfl

theorem spawnMonster_size (s : Spawn) (c : Check) (spawnId : ℕ) : (s.spawnMonster c spawnId).size = s.size := by
  unfold spawnMonster
  cases c.placed spawnId <;> rfl

theorem spawnMonster_event (s : Spawn) (c : Check) (spawnId : ℕ) :
    (s.spawnMonster c spawnId).checkSpawnEvent = s.checkSpawnEvent := by
  unfold spawnMonster
  cases c.placed spawnId <;> rfl

theorem occupied_spawnMonster_of_ne {key : ℕ} (hne : spawnId ≠ key) :
    (s.spawnMonster c key).occupied spawnId = s.occupied spawnId := by
  rw [occupied, occupied, spawnMonster_spawnedMap, List.any_append, Check.entry]
  cases c.placed key <;> simp [hne.symm]

theorem due_setLastSpawn_of_ne {key : ℕ} {now : ℤ} (hne : spawnId ≠ key) :
    (s.setLastSpawn key now).due c spawnId = s.due c spawnId := by
  simp [due, setLastSpawn, Function.update_of_ne hne]

theorem due_spawnMonster_of_ne {key : ℕ} (hne : spawnId ≠ key) :
    (s.spawnMonster c key).due c spawnId = s.due c spawnId := by
  unfold spawnMonster
  cases c.placed key with
  | none => rfl
  | some p => exact due_setLastSpawn_of_ne hne

theorem tried_setLastSpawn_of_ne {key : ℕ} {now : ℤ} (hne : spawnId ≠ key) :
    (s.setLastSpawn key now).tried c spawnId = s.tried c spawnId := by
  rw [tried, tried, due_setLastSpawn_of_ne hne]
  rfl

theorem tried_spawnMonster_of_ne {key : ℕ} (hne : spawnId ≠ key) :
    (s.spawnMonster c key).tried c spawnId = s.tried c spawnId := by
  rw [tried, tried, due_spawnMonster_of_ne hne, occupied_spawnMonster_of_ne hne]

theorem filter_tried_congr {s' : Spawn} {key : ℕ} {rest : List ℕ} (hfresh : key ∉ rest)
    (h : ∀ spawnId, spawnId ≠ key → s'.tried c spawnId = s.tried c spawnId) :
    rest.filter (s'.tried c) = rest.filter (s.tried c) :=
  List.filter_congr fun _ hmem => h _ fun heq => hfresh (heq ▸ hmem)

/-- By induction on the slots: a turn changes nothing that a later turn reads. -/
theorem checkSlots_spawnedMap {slots : List ℕ} (hnodup : slots.Nodup) {spawnCount : ℕ}
    (hcount : spawnCount < c.limit) (s : Spawn) :
    (checkSlots c slots spawnCount s).spawnedMap =
      s.spawnedMap ++ ((slots.filter (s.tried c)).take (c.limit - spawnCount)).filterMap
        c.entry := by
  induction slots generalizing spawnCount s with
  | nil => simp [checkSlots]
  | cons spawnId rest ih =>
    obtain ⟨hfresh, hnodup⟩ := List.nodup_cons.mp hnodup
    rw [checkSlots]
    split
    · rename_i hoccupied
      rw [ih hnodup hcount, List.filter_cons_of_neg (by simp [tried, hoccupied])]
    rename_i hempty
    split
    swap
    · rename_i hearly
      have hdue : s.due c spawnId = false := decide_eq_false hearly
      rw [ih hnodup hcount, List.filter_cons_of_neg (by simp [tried, hdue])]
    rename_i hlate
    have hdue : s.due c spawnId = true := decide_eq_true hlate
    split
    · rename_i hplayer
      rw [ih hnodup hcount, List.filter_cons_of_neg (by simp [tried, hplayer]),
        filter_tried_congr hfresh fun _ hne => tried_setLastSpawn_of_ne hne]
      rfl
    rename_i hplayer
    have htried : s.tried c spawnId = true := by simp [tried, hempty, hdue, hplayer]
    have hentry : ∀ l : List ℕ, (spawnId :: l).filterMap c.entry = (c.entry spawnId).toList ++ l.filterMap c.entry :=
      fun l => by cases hentry : c.entry spawnId <;> simp [hentry]
    obtain ⟨left, hleft⟩ : ∃ left, c.limit - spawnCount = left + 1 :=
      ⟨c.limit - spawnCount - 1, by omega⟩
    rw [List.filter_cons_of_pos htried, hleft, List.take_succ_cons, hentry]
    split
    · -- the last try
      rename_i hlast
      have hnone : left = 0 := by
        rw [Check.limit] at hleft
        omega
      rw [spawnMonster_spawnedMap, hnone, List.take_zero, List.filterMap_nil, List.append_nil]
    · rename_i hmore
      have hroom : spawnCount + 1 < c.limit := by
        rw [Check.limit]
        omega
      rw [ih hnodup hroom, spawnMonster_spawnedMap, List.append_assoc,
        filter_tried_congr hfresh fun _ hne => tried_spawnMonster_of_ne hne]
      have hleft' : c.limit - (spawnCount + 1) = left := by omega
      rw [hleft']

theorem checkSlots_size (c : Check) (slots : List ℕ) (spawnCount : ℕ) (s : Spawn) :
    (checkSlots c slots spawnCount s).size = s.size := by
  induction slots generalizing spawnCount s with
  | nil => rfl
  | cons spawnId rest ih =>
    rw [checkSlots]
    split
    · exact ih ..
    split
    · split
      · exact ih ..
      split
      · exact spawnMonster_size ..
      · rw [ih, spawnMonster_size]
    · exact ih ..

theorem checkSlots_event (c : Check) (slots : List ℕ) (spawnCount : ℕ) (s : Spawn) :
    (checkSlots c slots spawnCount s).checkSpawnEvent = s.checkSpawnEvent := by
  induction slots generalizing spawnCount s with
  | nil => rfl
  | cons spawnId rest ih =>
    rw [checkSlots]
    split
    · exact ih ..
    split
    · split
      · exact ih ..
      split
      · exact spawnMonster_event ..
      · rw [ih, spawnMonster_event]
    · exact ih ..

/-- The slots that a check fills. -/
def refilled (s : Spawn) (c : Check) : List (ℕ × Monster) :=
  ((s.ids.filter (s.tried c)).take c.limit).filterMap c.entry

theorem checkSlots_ids (s : Spawn) (c : Check) :
    (checkSlots c s.ids 0 s).spawnedMap = s.spawnedMap ++ s.refilled c := by
  have hlimit : 0 < c.limit := by
    rw [Check.limit]
    omega
  exact checkSlots_spawnedMap s.ids_nodup hlimit s

theorem mem_refilled {e : ℕ × Monster} (h : e ∈ s.refilled c) : e.1 ∈ s.ids ∧ s.occupied e.1 = false := by
  obtain ⟨spawnId, hmem, hentry⟩ := List.mem_filterMap.mp h
  obtain ⟨hids, htried⟩ := List.mem_filter.mp (List.mem_of_mem_take hmem)
  obtain ⟨p, -, rfl⟩ := Option.map_eq_some_iff.mp hentry
  refine ⟨hids, ?_⟩
  simp only [tried, Bool.and_eq_true, Bool.not_eq_true'] at htried
  exact htried.1.1

theorem refilled_keys_nodup (s : Spawn) (c : Check) : ((s.refilled c).map (·.1)).Nodup := by
  have hkeys : ∀ l : List ℕ, ((l.filterMap c.entry).map (·.1)).Sublist l := fun l => by
    induction l with
    | nil => exact List.Sublist.refl _
    | cons spawnId l ih =>
      cases hentry : c.entry spawnId with
      | none =>
        rw [List.filterMap_cons_none hentry]
        exact ih.trans (List.sublist_cons_self ..)
      | some e =>
        obtain ⟨p, -, rfl⟩ := Option.map_eq_some_iff.mp hentry
        rw [List.filterMap_cons_some hentry]
        exact ih.cons_cons _
  exact ((s.ids_nodup.filter _).sublist (List.take_sublist ..)).sublist (hkeys _)

theorem WellFormed.checkSlots (h : s.WellFormed) (c : Check) : (checkSlots c s.ids 0 s).WellFormed where
  slot e he := by
    rw [checkSlots_size]
    rw [checkSlots_ids] at he
    obtain he | he := List.mem_append.mp he
    · exact h.slot e he
    · exact (mem_ids.mp (mem_refilled he).1).2
  single := by
    rw [checkSlots_ids, List.map_append, List.filter_append]
    refine List.nodup_append.mpr ⟨h.single, (s.refilled_keys_nodup c).filter _, fun key hkey key' hkey' heq => ?_⟩
    obtain ⟨e, he, rfl⟩ := List.mem_map.mp (List.mem_filter.mp hkey).1
    obtain ⟨e', he', rfl⟩ := List.mem_map.mp (List.mem_filter.mp hkey').1
    have hoccupied : s.occupied e.1 = true := occupied_iff.mpr ⟨e.2, he⟩
    rw [heq, (mem_refilled he').2] at hoccupied
    exact absurd hoccupied (by decide)

/-! ## One check -/

theorem WellFormed.empty_checkSlots (h : s.WellFormed) (c : Check) :
    (Spawn.checkSlots c s.ids 0 s).emptySlots.length + (s.refilled c).length = s.emptySlots.length ∧
      (Spawn.checkSlots c s.ids 0 s).strays = s.strays := by
  have hbefore := h.size_add_empty
  have hafter := (h.checkSlots c).size_add_empty
  have hstrays : (Spawn.checkSlots c s.ids 0 s).strays = s.strays := by
    have hnone : (s.refilled c).countP (fun e => e.1 = 0) = 0 := by
      refine List.countP_eq_zero.mpr fun e he => ?_
      have hpos := (mem_ids.mp (mem_refilled he).1).1
      simpa using hpos.ne'
    rw [strays, checkSlots_ids, List.countP_append, hnone, add_zero, strays]
  rw [checkSlots_size, hstrays, checkSlots_ids, List.length_append] at hafter
  exact ⟨by omega, hstrays⟩

/-- The monster of the slot is there and in the zone. -/
def home (s : Spawn) (spawnId : ℕ) : Bool :=
  s.spawnedMap.any fun e => e.1 = spawnId && (!e.2.isRemoved && s.isInSpawnZone e.2.position)

/-- The slots that a check has to fill. -/
def vacant (s : Spawn) : List ℕ := s.ids.filter fun spawnId => !s.home spawnId

/-- The number of monsters that are out of the zone, or have been so in a check. -/
def wandered (s : Spawn) : ℕ :=
  s.spawnedMap.countP fun e => !e.2.isRemoved && (e.1 = 0 || !s.isInSpawnZone e.2.position)

/-- The interval of a vacant slot is over at its turn; for a monster that was removed it
begins with the check. -/
def ready (s : Spawn) (c : Check) (spawnId : ℕ) : Bool :=
  (if s.lost spawnId then c.clock 0 else (s.spawnMap spawnId).lastSpawn) + (s.spawnMap spawnId).interval ≤
    c.clock spawnId

/-- No monster has wandered off, or nothing is vacant, or those that have and the slots
that the check can fill are fewer than the vacant ones. -/
def CanRefill (s : Spawn) (c : Check) : Prop :=
  s.wandered = 0 ∨ s.vacant = [] ∨ s.wandered + min c.limit (s.vacant.filter (s.ready c)).length < s.vacant.length

theorem cleanup_ids (s : Spawn) (now : ℤ) : (s.cleanup now).ids = s.ids := by
  rw [ids, ids, cleanup_size]

theorem occupied_cleanup (hpos : 0 < spawnId) (now : ℤ) : (s.cleanup now).occupied spawnId = s.home spawnId := by
  rw [occupied, cleanup_spawnedMap, home, Bool.eq_iff_iff, List.any_eq_true, List.any_eq_true]
  constructor
  · rintro ⟨e, he, hkey⟩
    obtain ⟨entry, hentry, hkept⟩ := List.mem_filterMap.mp he
    obtain rfl : e.1 = spawnId := by simpa using hkey
    unfold kept at hkept
    split at hkept
    · exact absurd hkept (by simp)
    rename_i hremoved
    split at hkept
    · rw [← Option.some.inj hkept] at hpos
      exact absurd hpos (by simp)
    rename_i hzone
    obtain rfl := Option.some.inj hkept
    refine ⟨entry, hentry, ?_⟩
    simp only [Bool.and_eq_true, Bool.not_eq_true', decide_eq_true_eq, not_and, not_not] at hzone ⊢
    refine ⟨trivial, by simpa using hremoved, ?_⟩
    by_contra hout
    exact hpos.ne' (hzone (by simpa using hout))
  · rintro ⟨e, he, hhome⟩
    simp only [Bool.and_eq_true, Bool.not_eq_true', decide_eq_true_eq] at hhome
    obtain ⟨hkey, hremoved, hzone⟩ := hhome
    refine ⟨e, List.mem_filterMap.mpr ⟨e, he, ?_⟩, by simpa using hkey⟩
    simp [kept, hremoved, hzone]

theorem emptySlots_cleanup (s : Spawn) (now : ℤ) : (s.cleanup now).emptySlots = s.vacant := by
  rw [emptySlots, vacant, cleanup_ids]
  refine List.filter_congr fun spawnId hmem => ?_
  rw [occupied_cleanup (mem_ids.mp hmem).1]

theorem strays_cleanup (s : Spawn) (now : ℤ) : (s.cleanup now).strays = s.wandered := by
  rw [strays, cleanup_spawnedMap, wandered, List.countP_filterMap]
  refine List.countP_congr fun e _ => ?_
  unfold kept
  by_cases hremoved : e.2.isRemoved <;> by_cases hzone : s.isInSpawnZone e.2.position <;>
    by_cases hkey : e.1 = 0 <;> simp [hremoved, hzone, hkey]

theorem due_cleanup (hpos : 0 < spawnId) (c : Check) : (s.cleanup (c.clock 0)).due c spawnId = s.ready c spawnId := by
  have hcleaned := cleanup_cleaned s (c.clock 0)
  rw [due, ready, hcleaned.lastSpawn spawnId hpos.ne', hcleaned.interval, lost]

theorem due_emptySlots (s : Spawn) (c : Check) :
    (s.cleanup (c.clock 0)).emptySlots.filter ((s.cleanup (c.clock 0)).due c) = s.vacant.filter (s.ready c) := by
  rw [emptySlots_cleanup]
  refine List.filter_congr fun spawnId hmem => ?_
  exact due_cleanup (mem_ids.mp (List.mem_filter.mp hmem).1).1 c

/-- The check is asked for again exactly if there are fewer stray monsters than empty slots. -/
theorem WellFormed.refills_iff (h : s.WellFormed) (hidle : s.checkSpawnEvent = false) (c : Check) :
    (s.checkSpawn c).Refills ↔ s.vacant.length = ((s.cleanup (c.clock 0)).refilled c).length ∨
        s.wandered + ((s.cleanup (c.clock 0)).refilled c).length < s.vacant.length := by
  have hwell := h.cleanup (c.clock 0)
  obtain ⟨hempty, hstrays⟩ := hwell.empty_checkSlots c
  have hsize := (hwell.checkSlots c).size_add_empty
  have hevent : (Spawn.checkSlots c (s.cleanup (c.clock 0)).ids 0 (s.cleanup (c.clock 0))).checkSpawnEvent = false :=
    (checkSlots_event ..).trans ((cleanup_cleaned s (c.clock 0)).event.trans hidle)
  have hsame : ({ s with checkSpawnEvent := false } : Spawn) = s := by
    cases s
    simp_all
  rw [hstrays, strays_cleanup] at hsize
  rw [emptySlots_cleanup] at hempty
  rw [checkSpawn, hsame, Refills]
  generalize Spawn.checkSlots c (s.cleanup (c.clock 0)).ids 0 (s.cleanup (c.clock 0)) = t at *
  have hslots : t.emptySlots ≠ [] ↔ 0 < t.emptySlots.length := List.length_pos_iff.symm
  split
  · rename_i hlt
    have hsmall : s.wandered < t.emptySlots.length := by omega
    exact ⟨fun _ => .inr (by omega), fun _ _ => rfl⟩
  · rename_i hfull
    rw [hslots, hevent]
    constructor
    · intro hrefills
      have hzero : t.emptySlots.length = 0 := by
        by_contra hpos
        exact absurd (hrefills (Nat.pos_of_ne_zero hpos)) (by decide)
      exact .inl (by omega)
    · rintro hless hpos
      omega

theorem filter_tried (s : Spawn) (c : Check) : (s.cleanup (c.clock 0)).ids.filter ((s.cleanup (c.clock 0)).tried c) =
      (s.vacant.filter (s.ready c)).filter fun spawnId => !c.findPlayer spawnId := by
  rw [← due_emptySlots, emptySlots, List.filter_filter, List.filter_filter]
  refine List.filter_congr fun spawnId _ => ?_
  rw [tried, Bool.and_comm, Bool.and_comm (!Spawn.occupied ..), Bool.and_assoc]

theorem refilled_length_le (s : Spawn) (c : Check) :
    ((s.cleanup (c.clock 0)).refilled c).length ≤ min c.limit (s.vacant.filter (s.ready c)).length := by
  rw [refilled, filter_tried]
  refine (List.length_filterMap_le ..).trans ?_
  rw [List.length_take]
  have hle := List.length_filter_le (fun spawnId => !c.findPlayer spawnId) (s.vacant.filter (s.ready c))
  omega

/-- A player is near each slot but the chosen ones, and these get a monster. -/
def chosen (c : Check) (l : List ℕ) : Check :=
  { c with findPlayer := fun spawnId => spawnId ∉ l, placed := fun _ => some (0, {}) }

theorem filter_mem_take {l : List ℕ} (hnodup : l.Nodup) (count : ℕ) :
    l.filter (fun spawnId => !decide (spawnId ∉ l.take count)) = l.take count := by
  have hsplit := List.take_append_drop count l
  have hdisjoint := List.disjoint_of_nodup_append (hsplit.symm ▸ hnodup)
  calc l.filter (fun spawnId => !decide (spawnId ∉ l.take count))
    _ = (l.take count ++ l.drop count).filter (fun spawnId => !decide (spawnId ∉ l.take count)) := by rw [hsplit]
    _ = l.take count ++ [] := by
      rw [List.filter_append, List.filter_eq_self.mpr fun spawnId hmem => by simpa using hmem,
        List.filter_eq_nil_iff.mpr fun spawnId hmem => by
          simpa using fun htake => hdisjoint htake hmem]
    _ = l.take count := List.append_nil _

theorem refilled_chosen (s : Spawn) (c : Check) {count : ℕ}
    (hcount : count ≤ min c.limit (s.vacant.filter (s.ready c)).length) :
    ((s.cleanup (c.clock 0)).refilled (chosen c ((s.vacant.filter (s.ready c)).take count))).length = count := by
  have hnodup : (s.vacant.filter (s.ready c)).Nodup := (s.ids_nodup.filter _).filter _
  have htried := filter_tried s (chosen c ((s.vacant.filter (s.ready c)).take count))
  have hfilter : (s.cleanup (c.clock 0)).ids.filter
      ((s.cleanup (c.clock 0)).tried (chosen c ((s.vacant.filter (s.ready c)).take count))) =
        (s.vacant.filter (s.ready c)).take count := htried.trans (filter_mem_take hnodup count)
  have hplaced : ∀ l l' : List ℕ, l.filterMap (chosen c l').entry =
      l.map fun spawnId => (spawnId, ({ id := 0 } : Monster)) :=
        fun l _ => congrFun List.filterMap_eq_map' l
  have hlimit : (chosen c ((s.vacant.filter (s.ready c)).take count)).limit = c.limit := rfl
  rw [refilled, hfilter, hlimit, List.take_take,
    min_eq_right (hcount.trans (min_le_left ..)), hplaced, List.length_map, List.length_take,
    min_eq_left (hcount.trans (min_le_right ..))]

/-- Whatever the check meets, it keeps its promise, exactly if it can refill the spawn. -/
theorem WellFormed.refills_iff_canRefill (h : s.WellFormed) (c : Check) :
    (∀ findPlayer placed, (s.checkSpawn { c with findPlayer, placed }).Refills) ↔ s.CanRefill c := by
  -- the event that is pending before the check is of no account
  suffices hidle : ∀ s : Spawn, s.WellFormed → s.checkSpawnEvent = false →
      ((∀ findPlayer placed, (s.checkSpawn { c with findPlayer, placed }).Refills) ↔
        s.CanRefill c) from
    hidle { s with checkSpawnEvent := false } ⟨h.slot, h.single⟩ rfl
  intro s h hidle
  constructor
  · intro hall
    by_contra hnot
    simp only [CanRefill, not_or, not_lt] at hnot
    obtain ⟨hwandered, hvacant, hmany⟩ := hnot
    have hpos : 0 < s.vacant.length := List.length_pos_iff.mpr hvacant
    -- fill as many slots as leave no more than the stray monsters
    have hcount : s.vacant.length - s.wandered ≤ min c.limit (s.vacant.filter (s.ready c)).length := by omega
    have hrefilled := refilled_chosen s c hcount
    let l := (s.vacant.filter (s.ready c)).take (s.vacant.length - s.wandered)
    have hrefills := (h.refills_iff hidle (chosen c l)).mp (hall (fun spawnId => spawnId ∉ l) fun _ => some (0, {}))
    change s.vacant.length = ((s.cleanup (c.clock 0)).refilled _).length ∨
      s.wandered + ((s.cleanup (c.clock 0)).refilled _).length < _ at hrefills
    rw [hrefilled] at hrefills
    omega
  · intro hcan findPlayer placed
    rw [h.refills_iff hidle]
    change s.vacant.length = ((s.cleanup (c.clock 0)).refilled _).length ∨
      s.wandered + ((s.cleanup (c.clock 0)).refilled _).length < _
    have hle := refilled_length_le s { c with findPlayer, placed }
    have hempty := (h.cleanup (c.clock 0)).empty_checkSlots { c with findPlayer, placed }
    rw [emptySlots_cleanup] at hempty
    change ((s.cleanup (c.clock 0)).refilled _).length ≤ min c.limit (s.vacant.filter (s.ready c)).length at hle
    change _ + ((s.cleanup (c.clock 0)).refilled _).length = _ ∧ _ at hempty
    obtain hnone | hnone | hmany := hcan
    · omega
    · rw [hnone] at hempty ⊢
      exact .inl (by simp only [List.length_nil] at hempty ⊢; omega)
    · exact .inr (by omega)

/-! ## Runs -/

theorem WellFormed.checkSpawn (h : s.WellFormed) (c : Check) : (s.checkSpawn c).WellFormed := by
  have hidle : ({ s with checkSpawnEvent := false } : Spawn).WellFormed := ⟨h.slot, h.single⟩
  have hafter := (hidle.cleanup (c.clock 0)).checkSlots c
  unfold Spawn.checkSpawn
  dsimp only
  split
  · exact ⟨hafter.slot, hafter.single⟩
  · exact hafter

theorem WellFormed.modifyMonster (h : s.WellFormed) (monster : ℕ) (f : Monster → Monster) :
    (s.modifyMonster monster f).WellFormed := by
  have hkeys : (s.modifyMonster monster f).spawnedMap.map (·.1) = s.spawnedMap.map (·.1) := by
    rw [Spawn.modifyMonster, List.map_map]
    refine List.map_congr_left fun e _ => ?_
    rw [Function.comp_apply]
    split <;> rfl
  refine ⟨fun e he => ?_, by rw [hkeys]; exact h.single⟩
  have hmem : e.1 ∈ s.spawnedMap.map (·.1) := hkeys ▸ List.mem_map_of_mem he
  obtain ⟨e', he', heq⟩ := List.mem_map.mp hmem
  exact heq ▸ h.slot e' he'

theorem WellFormed.step (s : Spawn) (event : Event) (h : s.WellFormed) : (s.step event).WellFormed := by
  cases event with
  | death monster =>
    have hdead := h.modifyMonster monster fun m => { m with isRemoved := true }
    rw [Spawn.step, startSpawnCheck]
    split
    · exact hdead
    · exact ⟨hdead.slot, hdead.single⟩
  | walk monster position => exact h.modifyMonster monster fun m => { m with position }
  | removeMonster monster =>
    have hsub : (s.removeMonster monster).spawnedMap.Sublist s.spawnedMap := List.eraseP_sublist
    exact ⟨fun e he => h.slot e (hsub.subset he), h.single.sublist ((hsub.map _).filter _)⟩
  | checkSpawn c => exact h.checkSpawn c

theorem filled_wellFormed (centerPos : Maps.Position) (radius : ℤ) (size : ℕ) (spawnMap : ℕ → SpawnBlock)
    (placed : ℕ → ℕ × Maps.Position) : (filled centerPos radius size spawnMap placed).WellFormed where
  slot e he := by
    obtain ⟨spawnId, hmem, rfl⟩ := List.mem_map.mp he
    have hslot := List.mem_range'_1.mp hmem
    change spawnId ≤ size
    omega
  single := by
    have hids : (List.range' 1 size).Nodup := List.nodup_range'
    rw [filled, List.map_map]
    exact (hids.map_on fun _ _ _ _ heq => heq).filter _

end Spawn

/-- Each check of the run is taken in a state that it can refill. -/
def Event.CanRefill (s : Spawn) : Event → Prop
  | .checkSpawn c => s.CanRefill c
  | _ => True

theorem spawns_refill_iff (centerPos : Maps.Position) (radius : ℤ) (size : ℕ)
    (spawnMap : ℕ → SpawnBlock) (placed : ℕ → ℕ × Maps.Position) (events : List Event) :
    let start := Spawn.filled centerPos radius size spawnMap placed
    let s := run Spawn.step start events
    (∀ spawnId, spawnId ≠ 0 → s.spawnedMap.countP (fun e => e.1 = spawnId) ≤ 1) ∧
      (∀ c, (∀ findPlayer placed, (s.checkSpawn { c with findPlayer, placed }).Refills) ↔
        s.CanRefill c) ∧
      (Along Spawn.step Event.CanRefill start events → ∀ before c, before ++ [.checkSpawn c] <+: events →
        (run Spawn.step start (before ++ [.checkSpawn c])).Refills) := by
  intro start s
  have hwell : ∀ es, (run Spawn.step start es).WellFormed := fun es => by
    have hall : Along Spawn.step (fun _ _ => True) start es := Along.of_forall fun _ _ => trivial
    exact inv_run (fun s e h _ => Spawn.WellFormed.step s e h) (Spawn.filled_wellFormed ..) hall
  refine ⟨fun spawnId hpos => ?_, (hwell events).refills_iff_canRefill, ?_⟩
  · have hcount := List.nodup_iff_count_le_one.mp (hwell events).single spawnId
    rw [List.count_filter (by simpa using hpos), List.count, List.countP_map] at hcount
    refine le_of_eq_of_le (List.countP_congr fun e _ => ?_) hcount
    simp
  · rintro hcan before c ⟨after, rfl⟩
    have hlast : (run Spawn.step start before).CanRefill c := hcan.left.last
    rw [run_append]
    exact ((hwell before).refills_iff_canRefill c).mpr hlast c.findPlayer c.placed

/-- The first of two monsters walks off, the second dies, and the check fills only the
first slot: no check follows, and the second slot stays empty. -/
theorem a_stray_fills_the_count :
    let s := run Spawn.step (Spawn.filled ⟨100, 100, 7⟩ 1 2 (fun _ => {}) fun spawnId => (spawnId, ⟨100, 100, 7⟩))
      [.walk 1 ⟨110, 100, 7⟩, .death 2]
    let c : Check := ⟨fun _ => 1000000, 1, fun _ => false, fun _ => some (3, ⟨100, 100, 7⟩)⟩
    s.checkSpawnEvent = true ∧ (s.checkSpawn c).emptySlots = [2] ∧ ¬ (s.checkSpawn c).Refills := by
  intro s c
  have hempty : (s.checkSpawn c).emptySlots = [2] := by decide
  refine ⟨by decide, hempty, fun hrefills => ?_⟩
  have hevent := hrefills (by rw [hempty]; decide)
  exact absurd hevent (by decide)

end ForgottenServer.Spawns
