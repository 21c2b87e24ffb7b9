import ForgottenServer.Lib.Run
import Mathlib.Data.List.AList

/-! # Outfits in the storage

The outfits of a player are saved in a reserved range of the storage keys. The storage map of
a player in the game keeps those keys from one save to the next. -/
namespace ForgottenServer.Save
open ForgottenServer.Lib.Run

def PSTRG_RESERVED_RANGE_START : ℕ := 10000000

def PSTRG_RESERVED_RANGE_SIZE : ℕ := 10000000

def PSTRG_OUTFITS_RANGE_START : ℕ := PSTRG_RESERVED_RANGE_START + 1000

def PSTRG_OUTFITS_RANGE_SIZE : ℕ := 500

def PSTRG_MOUNTS_RANGE_START : ℕ := PSTRG_RESERVED_RANGE_START + 2001

def PSTRG_MOUNTS_RANGE_SIZE : ℕ := 10

/-- `IS_IN_KEYRANGE` -/
def inKeyRange (key start size : ℕ) : Bool := start ≤ key && key - start ≤ size

def isOutfitKey (key : ℕ) : Bool := inKeyRange key PSTRG_OUTFITS_RANGE_START PSTRG_OUTFITS_RANGE_SIZE

structure OutfitEntry where
  lookType : BitVec 16
  addons : BitVec 8
  deriving DecidableEq, Repr

namespace OutfitEntry

def pack (entry : OutfitEntry) : BitVec 32 :=
  entry.lookType.setWidth 32 <<< 16 ||| entry.addons.setWidth 32

def unpack (value : BitVec 32) : OutfitEntry :=
  ⟨(value.sshiftRight 16).setWidth 16, (value &&& 0xFF).setWidth 8⟩

end OutfitEntry

abbrev StorageMap := AList fun _ : ℕ => BitVec 32

/-- A row of `player_storage`. -/
abbrev StorageRow := (_ : ℕ) × BitVec 32

/-- What a player's outfits are kept in. -/
structure Wardrobe where
  outfits : List OutfitEntry := []
  storageMap : StorageMap := ∅

namespace Wardrobe
variable (player : Wardrobe)

/-- `addStorageValue` at login, where it tells no quest. -/
def addStorageValue (key : ℕ) (value : BitVec 32) : Wardrobe :=
  let store : Wardrobe :=
    if value ≠ -1 then { player with storageMap := player.storageMap.insert key value }
    else { player with storageMap := player.storageMap.erase key }
  if inKeyRange key PSTRG_RESERVED_RANGE_START PSTRG_RESERVED_RANGE_SIZE then
    if isOutfitKey key then { player with outfits := player.outfits ++ [.unpack value] }
    else if inKeyRange key PSTRG_MOUNTS_RANGE_START PSTRG_MOUNTS_RANGE_SIZE then store
    else player
  else store

/-- The loop of `genReservedStorageRange` behind the key `base`. -/
def writeOutfits : ℕ → List OutfitEntry → StorageMap → StorageMap
  | _, [], map => map
  | base, entry :: entries, map => writeOutfits (base + 1) entries (map.insert (base + 1) entry.pack)

def genReservedStorageRange : Wardrobe :=
  { player with storageMap := writeOutfits PSTRG_OUTFITS_RANGE_START player.outfits player.storageMap }

def modifyFirst (lookType : BitVec 16) (f : OutfitEntry → OutfitEntry) : List OutfitEntry → Option (List OutfitEntry)
  | [] => none
  | entry :: entries =>
    if entry.lookType = lookType then some (f entry :: entries)
    else (modifyFirst lookType f entries).map (entry :: ·)

def addOutfit (lookType : BitVec 16) (addons : BitVec 8) : Wardrobe :=
  let merged := modifyFirst lookType (fun entry => { entry with addons := entry.addons ||| addons })
    player.outfits
  { player with outfits := merged.getD (player.outfits ++ [⟨lookType, addons⟩]) }

/-- The answer is whether there was one. -/
def removeOutfit (lookType : BitVec 16) : Bool × Wardrobe :=
  (player.outfits.any (·.lookType = lookType),
    { player with outfits := player.outfits.eraseP (·.lookType = lookType) })

def removeOutfitAddon (lookType : BitVec 16) (addons : BitVec 8) : Bool × Wardrobe :=
  let removed := modifyFirst lookType (fun entry => { entry with addons := entry.addons &&& ~~~addons })
    player.outfits
  (removed.isSome, { player with outfits := removed.getD player.outfits })

/-- The storage in `savePlayer`, with all that is written to the table. -/
def savePlayer : List StorageRow × Wardrobe :=
  let player := player.genReservedStorageRange
  (player.storageMap.entries, player)

/-- The storage in `loadPlayer`, from the rows in the order that they come in. -/
def loadPlayer (rows : List StorageRow) : Wardrobe :=
  rows.foldl (fun player row => player.addStorageValue row.1 row.2) {}

end Wardrobe

inductive WardrobeCall
  | addOutfit (lookType : BitVec 16) (addons : BitVec 8)
  | removeOutfit (lookType : BitVec 16)
  | removeOutfitAddon (lookType : BitVec 16) (addons : BitVec 8)
  | savePlayer

def WardrobeCall.apply (player : Wardrobe) : WardrobeCall → Wardrobe
  | .addOutfit lookType addons => player.addOutfit lookType addons
  | .removeOutfit lookType => (player.removeOutfit lookType).2
  | .removeOutfitAddon lookType addons => (player.removeOutfitAddon lookType addons).2
  | .savePlayer => player.savePlayer.2

/-! ## What should come back -/

def addonsOf (outfits : List OutfitEntry) (lookType : BitVec 16) : Option (BitVec 8) :=
  (outfits.find? (·.lookType = lookType)).map OutfitEntry.addons

/-- What is loaded after a save is what there was, in whatever order the rows come. -/
def Survives (player : Wardrobe) : Prop :=
  ∀ rows, rows.Perm player.savePlayer.1 → addonsOf (Wardrobe.loadPlayer rows).outfits = addonsOf player.outfits

/-- A player in the game, and the outfits that the saves have written so far: each one goes
over the front of what there was. -/
structure Session where
  player : Wardrobe
  written : List OutfitEntry := []

namespace Session

def step (s : Session) (call : WardrobeCall) : Session where
  player := call.apply s.player
  written :=
    match call with
    | .savePlayer => s.player.outfits ++ s.written.drop s.player.outfits.length
    | _ => s.written

/-- The outfits of earlier saves behind the end of the list. -/
def leftOver (s : Session) : List OutfitEntry := s.written.drop s.player.outfits.length

def login (rows : List StorageRow) : Session := { player := Wardrobe.loadPlayer rows }

end Session

/-! ## Packing -/

theorem OutfitEntry.unpack_pack (entry : OutfitEntry) : unpack entry.pack = entry := by
  have hlook : (entry.pack.sshiftRight 16).setWidth 16 = entry.lookType := by
    refine BitVec.eq_of_getLsbD_eq fun i hi => ?_
    have hfront : 16 + i < 32 := by omega
    have hlow : ¬ 16 + i < 16 := by omega
    have hhigh : ¬ 32 ≤ i := by omega
    have hback := BitVec.getLsbD_of_ge entry.addons (16 + i) (by omega)
    simp [pack, BitVec.getLsbD_sshiftRight, hi, hfront, hlow, hhigh, hback]
  have haddons : (entry.pack &&& 0xFF).setWidth 8 = entry.addons := by
    refine BitVec.eq_of_getLsbD_eq fun i hi => ?_
    have hmask : ∀ i < 8, (0xFF : BitVec 32).getLsbD i = true := by decide
    have hlow : i < 16 := by omega
    have hword : i < 32 := by omega
    rw [BitVec.getLsbD_setWidth, BitVec.getLsbD_and, hmask i hi]
    simp [pack, hi, hlow, hword]
  rw [unpack, hlook, haddons]

/-! ## Loading -/

def outfitOf (row : StorageRow) : Option OutfitEntry :=
  if isOutfitKey row.1 then some (.unpack row.2) else none

theorem isOutfitKey_iff {key : ℕ} : isOutfitKey key = true ↔
    PSTRG_OUTFITS_RANGE_START ≤ key ∧ key ≤ PSTRG_OUTFITS_RANGE_START + PSTRG_OUTFITS_RANGE_SIZE := by
  rw [isOutfitKey, inKeyRange, Bool.and_eq_true, decide_eq_true_iff, decide_eq_true_iff, Nat.sub_le_iff_le_add']

theorem reserved_of_isOutfitKey {key : ℕ} (h : isOutfitKey key = true) :
    inKeyRange key PSTRG_RESERVED_RANGE_START PSTRG_RESERVED_RANGE_SIZE = true := by
  obtain ⟨hlow, hhigh⟩ := isOutfitKey_iff.mp h
  have hsize : 1000 + PSTRG_OUTFITS_RANGE_SIZE ≤ PSTRG_RESERVED_RANGE_SIZE := by decide
  have hstart : PSTRG_OUTFITS_RANGE_START = PSTRG_RESERVED_RANGE_START + 1000 := rfl
  rw [inKeyRange, Bool.and_eq_true, decide_eq_true_iff, decide_eq_true_iff, Nat.sub_le_iff_le_add']
  rw [hstart] at hlow hhigh
  rw [Nat.add_assoc] at hhigh
  exact ⟨Nat.le_of_add_right_le hlow, hhigh.trans (Nat.add_le_add_left hsize _)⟩

namespace Wardrobe
variable (player : Wardrobe)

theorem addStorageValue_outfit {row : StorageRow} (h : isOutfitKey row.1 = true) :
    player.addStorageValue row.1 row.2 = { player with outfits := player.outfits ++ [.unpack row.2] } := by
  rw [addStorageValue, if_pos (reserved_of_isOutfitKey h), if_pos h]

theorem addStorageValue_other {row : StorageRow} (h : isOutfitKey row.1 = false) :
    (player.addStorageValue row.1 row.2).outfits = player.outfits ∧
    ∀ key, isOutfitKey key = true →
      (player.addStorageValue row.1 row.2).storageMap.lookup key = player.storageMap.lookup key := by
  have hne : ∀ key, isOutfitKey key = true → key ≠ row.1 := by
    rintro key hkey rfl
    rw [h] at hkey
    cases hkey
  have hstore : ∀ store : Wardrobe, (store = if row.2 ≠ -1 then
        { player with storageMap := player.storageMap.insert row.1 row.2 }
      else { player with storageMap := player.storageMap.erase row.1 }) →
      store.outfits = player.outfits ∧
      ∀ key, isOutfitKey key = true → store.storageMap.lookup key = player.storageMap.lookup key := by
    rintro store rfl
    split
    · exact ⟨rfl, fun key hkey => AList.lookup_insert_ne (hne key hkey)⟩
    · exact ⟨rfl, fun key hkey => AList.lookup_erase_ne (hne key hkey)⟩
  rw [addStorageValue]
  split
  · rw [if_neg (by rw [h]; exact Bool.false_ne_true)]
    split
    · exact hstore _ rfl
    · exact ⟨rfl, fun _ _ => rfl⟩
  · exact hstore _ rfl

theorem outfits_loadFrom (rows : List StorageRow) :
    (rows.foldl (fun player row => player.addStorageValue row.1 row.2) player).outfits =
      player.outfits ++ rows.filterMap outfitOf := by
  induction rows generalizing player with
  | nil => rw [List.foldl_nil, List.filterMap_nil, List.append_nil]
  | cons row rows ih =>
    rw [List.foldl_cons, ih]
    cases hkey : isOutfitKey row.1 with
    | true =>
      rw [player.addStorageValue_outfit hkey, List.filterMap_cons, outfitOf, if_pos hkey]
      simp
    | false =>
      rw [(player.addStorageValue_other hkey).1, List.filterMap_cons, outfitOf,
        if_neg (by rw [hkey]; exact Bool.false_ne_true)]

theorem outfits_loadPlayer (rows : List StorageRow) : (loadPlayer rows).outfits = rows.filterMap outfitOf := by
  rw [loadPlayer, outfits_loadFrom]
  rfl

theorem lookup_loadFrom (rows : List StorageRow) {key : ℕ} (hkey : isOutfitKey key = true) :
    (rows.foldl (fun player row => player.addStorageValue row.1 row.2) player).storageMap.lookup key =
      player.storageMap.lookup key := by
  induction rows generalizing player with
  | nil => rfl
  | cons row rows ih =>
    rw [List.foldl_cons, ih]
    cases hrow : isOutfitKey row.1 with
    | true => rw [player.addStorageValue_outfit hrow]
    | false => exact (player.addStorageValue_other hrow).2 key hkey

/-! ## Saving -/

theorem lookup_writeOutfits (base : ℕ) (entries : List OutfitEntry) (map : StorageMap) (key : ℕ) :
    (writeOutfits base entries map).lookup key =
      if base < key ∧ key ≤ base + entries.length then (entries[key - base - 1]?).map OutfitEntry.pack
      else map.lookup key := by
  induction entries generalizing base map with
  | nil =>
    rw [writeOutfits, if_neg]
    rw [List.length_nil]
    omega
  | cons entry entries ih =>
    rw [writeOutfits, ih, List.length_cons]
    rcases Nat.lt_trichotomy key (base + 1) with hbefore | rfl | hafter
    · rw [if_neg (by omega), if_neg (by omega), AList.lookup_insert_ne (by omega)]
    · have hfirst : base + 1 - base - 1 = 0 := by omega
      rw [if_neg (by omega), if_pos (by omega), AList.lookup_insert, hfirst]
      rfl
    · by_cases hkey : key ≤ base + (entries.length + 1)
      · have hindex : key - base - 1 = key - (base + 1) - 1 + 1 := by omega
        rw [if_pos (by omega), if_pos (by omega), hindex, List.getElem?_cons_succ]
      · rw [if_neg (by omega), if_neg (by omega), AList.lookup_insert_ne (by omega)]

/-- The outfit keys of a map hold some outfits, one after the other. -/
def Stored (map : StorageMap) (written : List OutfitEntry) : Prop :=
  ∀ key, isOutfitKey key = true → map.lookup key =
    if PSTRG_OUTFITS_RANGE_START < key then
      (written[key - PSTRG_OUTFITS_RANGE_START - 1]?).map OutfitEntry.pack
    else none

theorem Stored.save {written : List OutfitEntry} (h : Stored player.storageMap written) :
    Stored player.savePlayer.2.storageMap (player.outfits ++ written.drop player.outfits.length) := by
  intro key hkey
  have hold := h key hkey
  change (writeOutfits _ player.outfits player.storageMap).lookup key = _
  rw [lookup_writeOutfits, hold]
  generalize PSTRG_OUTFITS_RANGE_START = start
  by_cases hstart : start < key
  · rw [if_pos hstart, if_pos hstart, List.getElem?_append]
    by_cases hfront : key ≤ start + player.outfits.length
    · rw [if_pos ⟨hstart, hfront⟩, if_pos (by omega)]
    · have hindex : player.outfits.length + (key - start - 1 - player.outfits.length) = key - start - 1 := by omega
      rw [if_neg (fun hboth => hfront hboth.2), if_neg (by omega), List.getElem?_drop, hindex]
  · rw [if_neg hstart, if_neg (fun hboth => hstart hboth.1), if_neg hstart]

theorem mem_filterMap_entries {map : StorageMap} {written : List OutfitEntry}
    (h : Stored map written) (hshort : written.length ≤ PSTRG_OUTFITS_RANGE_SIZE)
    (entry : OutfitEntry) : entry ∈ map.entries.filterMap outfitOf ↔ entry ∈ written := by
  rw [List.mem_filterMap, List.mem_iff_getElem?]
  constructor
  · rintro ⟨row, hrow, hentry⟩
    unfold outfitOf at hentry
    split at hentry
    · rename_i hkey
      have hlookup := h row.1 hkey
      rw [AList.mem_lookup_iff.mpr hrow] at hlookup
      split at hlookup
      · obtain ⟨stored, hstored, hvalue⟩ := Option.map_eq_some_iff.mp hlookup.symm
        rw [← hvalue, OutfitEntry.unpack_pack] at hentry
        exact ⟨_, hstored.trans hentry⟩
      · cases hlookup
    · cases hentry
  · rintro ⟨n, hn⟩
    have hlength : n < written.length := (List.getElem?_eq_some_iff.mp hn).1
    have hkey : isOutfitKey (PSTRG_OUTFITS_RANGE_START + 1 + n) = true := by
      rw [isOutfitKey_iff]
      generalize PSTRG_OUTFITS_RANGE_START = start
      omega
    have hlookup := h _ hkey
    have hindex : PSTRG_OUTFITS_RANGE_START + 1 + n - PSTRG_OUTFITS_RANGE_START - 1 = n := by
      generalize PSTRG_OUTFITS_RANGE_START = start
      omega
    rw [if_pos (by generalize PSTRG_OUTFITS_RANGE_START = start; omega), hindex, hn] at hlookup
    refine ⟨⟨_, entry.pack⟩, AList.mem_lookup_iff.mp hlookup, ?_⟩
    rw [outfitOf, if_pos hkey, OutfitEntry.unpack_pack]

end Wardrobe

/-! ## Maps from look types to addons -/

section Maps
variable {outfits : List OutfitEntry} {lookType : BitVec 16}

theorem exists_of_addonsOf {addons : BitVec 8} (h : addonsOf outfits lookType = some addons) :
    ∃ entry ∈ outfits, entry.lookType = lookType ∧ entry.addons = addons := by
  obtain ⟨entry, hfind, haddons⟩ := Option.map_eq_some_iff.mp h
  exact ⟨entry, List.mem_of_find?_eq_some hfind, by simpa using List.find?_some hfind, haddons⟩

theorem addonsOf_of_mem {entry : OutfitEntry} (h : entry ∈ outfits) :
    ∃ addons, addonsOf outfits entry.lookType = some addons := by
  have hsome : (outfits.find? (·.lookType = entry.lookType)).isSome = true :=
    List.find?_isSome.mpr ⟨entry, h, decide_eq_true rfl⟩
  obtain ⟨first, hfirst⟩ := Option.isSome_iff_exists.mp hsome
  exact ⟨first.addons, by rw [addonsOf, hfirst]; rfl⟩

/-- Rows in any order give the map of some outfits exactly if every outfit in them is in it. -/
theorem forall_perm_iff {rows : List StorageRow} (hall : ∀ entry ∈ outfits, entry ∈ rows.filterMap outfitOf) :
    (∀ rows' : List StorageRow, rows'.Perm rows → addonsOf (rows'.filterMap outfitOf) = addonsOf outfits) ↔
      ∀ entry ∈ rows.filterMap outfitOf, addonsOf outfits entry.lookType = some entry.addons := by
  constructor
  · intro hsame entry hentry
    obtain ⟨row, hrow, houtfit⟩ := List.mem_filterMap.mp hentry
    obtain ⟨front, back, rfl⟩ := List.append_of_mem hrow
    rw [← hsame (row :: (front ++ back)) List.perm_middle.symm, List.filterMap_cons, houtfit]
    simp [addonsOf]
  · intro hentries rows' hperm
    funext lookType
    cases hfound : addonsOf (rows'.filterMap outfitOf) lookType with
    | some addons =>
      obtain ⟨entry, hentry, rfl, rfl⟩ := exists_of_addonsOf hfound
      exact (hentries entry ((hperm.filterMap outfitOf).mem_iff.mp hentry)).symm
    | none =>
      cases hkept : addonsOf outfits lookType with
      | none => rfl
      | some addons =>
        obtain ⟨entry, hentry, rfl, -⟩ := exists_of_addonsOf hkept
        obtain ⟨addons', hloaded⟩ :=
          addonsOf_of_mem ((hperm.filterMap outfitOf).mem_iff.mpr (hall entry hentry))
        rw [hfound] at hloaded
        cases hloaded

end Maps

/-! ## Sessions -/

/-- The saves were short enough, and the map holds what they wrote. -/
structure Session.Holds (s : Session) : Prop where
  stored : Wardrobe.Stored s.player.storageMap s.written
  short : s.written.length ≤ PSTRG_OUTFITS_RANGE_SIZE

def Session.Fits (s : Session) : WardrobeCall → Prop
  | .savePlayer => s.player.outfits.length ≤ PSTRG_OUTFITS_RANGE_SIZE
  | _ => True

theorem Session.login_holds (rows : List StorageRow) : (login rows).Holds where
  stored key hkey := by
    have hlookup := Wardrobe.lookup_loadFrom {} rows hkey
    change (Wardrobe.loadPlayer rows).storageMap.lookup key = _
    rw [Wardrobe.loadPlayer, hlookup]
    split <;> rfl
  short := Nat.zero_le _

theorem Session.Holds.save {s : Session} (h : s.Holds)
    (hfits : s.player.outfits.length ≤ PSTRG_OUTFITS_RANGE_SIZE) : (s.step .savePlayer).Holds where
  stored := Wardrobe.Stored.save s.player h.stored
  short := by
    have hshort := h.short
    simp only [step, List.length_append, List.length_drop]
    omega

theorem Session.Holds.step {s : Session} (h : s.Holds) {call : WardrobeCall} (hfits : s.Fits call) :
    (s.step call).Holds := by
  cases call with
  | addOutfit lookType addons => exact ⟨h.stored, h.short⟩
  | removeOutfit lookType => exact ⟨h.stored, h.short⟩
  | removeOutfitAddon lookType addons => exact ⟨h.stored, h.short⟩
  | savePlayer => exact h.save hfits

/-- A save is loaded as it was exactly if the list and what earlier saves left behind its end
agree on the addons of every look type. -/
theorem Session.Holds.survives_iff {s : Session} (h : s.Holds)
    (hfits : s.player.outfits.length ≤ PSTRG_OUTFITS_RANGE_SIZE) :
    Survives s.player ↔ ∀ entry ∈ s.player.outfits ++ s.leftOver,
      addonsOf s.player.outfits entry.lookType = some entry.addons := by
  have hsaved := h.save hfits
  have hmem := Wardrobe.mem_filterMap_entries hsaved.stored hsaved.short
  have hperm := @forall_perm_iff s.player.outfits s.player.savePlayer.1
    fun entry hentry => (hmem entry).mpr (List.mem_append_left _ hentry)
  unfold Survives
  simp only [Wardrobe.outfits_loadPlayer]
  rw [hperm]
  exact forall_congr' fun entry => imp_congr_left (hmem entry)

/-- After any calls of a session, from any rows that the player was loaded from. -/
theorem outfits_survive_iff (rows : List StorageRow) (calls : List WardrobeCall)
    (hfits : Along Session.step Session.Fits (.login rows) (calls ++ [.savePlayer])) :
    let s := run Session.step (.login rows) calls
    Survives s.player ↔ ∀ entry ∈ s.player.outfits ++ s.leftOver,
      addonsOf s.player.outfits entry.lookType = some entry.addons := by
  have hholds : (run Session.step (.login rows) calls).Holds :=
    inv_run (fun s call hs hcall => hs.step hcall) (Session.login_holds rows) hfits.left
  exact hholds.survives_iff hfits.last

/-- An outfit that is added between two saves. -/
theorem second_outfit_survives :
    Survives (run Session.step (.login []) [.addOutfit 128 0, .savePlayer, .addOutfit 129 3]).player :=
  (outfits_survive_iff [] [.addOutfit 128 0, .savePlayer, .addOutfit 129 3]
    ⟨trivial, Nat.le_of_ble_eq_true rfl, trivial, Nat.le_of_ble_eq_true rfl, trivial⟩).mpr (by decide)

/-- An outfit that is removed between two saves comes back. -/
theorem removed_outfit_returns :
    ¬ Survives (run Session.step (.login []) [.addOutfit 128 3, .savePlayer, .removeOutfit 128]).player := by
  intro hsurvives
  have hlook := congrFun (hsurvives _ (List.Perm.refl _)) 128
  revert hlook
  decide

end ForgottenServer.Save
