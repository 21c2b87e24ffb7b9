import ForgottenServer.Net.MapDescription
import ForgottenServer.Net.Sight

/-! # What a client gets of the map

Without a write that is refused a client gets all of a viewport, and the viewport of
the player is what he can see. -/
namespace ForgottenServer.Net
open ForgottenServer.Lib ForgottenServer.Lib.Buffer ForgottenServer.Lib.Run ForgottenServer.Lib.Wire
open ForgottenServer.Conditions (Outfit)

/-! ## The viewport of the player -/

theorem mem_floors {z nz : ℤ} :
    nz ∈ floors z ↔ if 7 < z then z - 2 ≤ nz ∧ nz ≤ min 15 (z + 2) else 0 ≤ nz ∧ nz ≤ 7 := by
  unfold floors
  rw [show MAP_MAX_LAYERS - 1 = 15 from rfl]
  split
  · simp only [List.mem_map, List.mem_range]
    constructor
    · rintro ⟨i, hi, rfl⟩
      omega
    · rintro ⟨hlow, hhigh⟩
      exact ⟨(nz - (z - 2)).toNat, by omega, by omega⟩
  · simp only [List.mem_map, List.mem_range]
    constructor
    · rintro ⟨i, hi, rfl⟩
      omega
    · rintro ⟨hlow, hhigh⟩
      exact ⟨(7 - nz).toNat, by omega, by omega⟩

theorem mem_squares {x y z width height : ℤ} {sq : Square} : sq ∈ squares x y z width height ↔
    sq.z ∈ floors z ∧ x + (z - sq.z) ≤ sq.x ∧ sq.x < x + (z - sq.z) + width ∧
      y + (z - sq.z) ≤ sq.y ∧ sq.y < y + (z - sq.z) + height := by
  simp only [squares, List.mem_flatMap, List.mem_map, List.mem_range]
  constructor
  · rintro ⟨nz, hnz, nx, hnx, ny, hny, rfl⟩
    dsimp only
    exact ⟨hnz, by omega, by omega, by omega, by omega⟩
  · rintro ⟨hnz, hx, hx', hy, hy'⟩
    obtain ⟨sx, sy, sz⟩ := sq
    dsimp only at hnz hx hx' hy hy'
    refine ⟨sz, hnz, (sx - x - (z - sz)).toNat, by omega, (sy - y - (z - sz)).toNat, by omega, ?_⟩
    simp only [Square.mk.injEq, and_true]
    constructor <;> omega

/-- The viewport that a player is sent is what he can see of the floors there are. -/
theorem mem_viewport_iff (player : Player) (hz : player.position.z.toNat < 16) {x y z : ℤ}
    (hlow : 0 ≤ z) (hhigh : z ≤ 15) :
    ⟨x, y, z⟩ ∈ squares (player.position.x.toNat - 8) (player.position.y.toNat - 6) player.position.z.toNat 18 14 ↔
      canSee (some player) x y z = true := by
  have hdistance : 2 < |(player.position.z.toNat : ℤ) - z| ↔
      player.position.z.toNat + 2 < z ∨ z + 2 < player.position.z.toNat := by
    rw [lt_abs]
    omega
  rw [mem_squares, mem_floors, canSee]
  simp only [hdistance]
  by_cases hunder : (7 : ℤ) < player.position.z.toNat
  · rw [if_pos hunder, if_neg (by omega)]
    split
    · simp only [Bool.false_eq_true, iff_false]
      omega
    · simp only [Bool.and_eq_true, decide_eq_true_eq]
      omega
  · rw [if_neg hunder]
    split
    · simp only [Bool.false_eq_true, iff_false]
      omega
    · rw [if_neg (by omega)]
      simp only [Bool.and_eq_true, decide_eq_true_eq]
      omega

/-! ## A client -/

/-- What is behind the first `n` bytes. -/
def skipBytes (n : ℕ) (s : Bytes) : Option Bytes := if s.length < n then none else some (s.drop n)

/-- A creature from its health on, with one byte for each mark. -/
def readLooks (marks : ℕ) (s : Bytes) : Option Bytes := do
  let s ← skipBytes 2 s
  let (lookType, s) ← read 2 s
  let s ← skipBytes (if lookType = 0 then 2 else 5) s
  skipBytes (4 + marks) s

/-- A client that knows by their ids which items come with a byte. -/
def readThing (hasByte : ℕ → Bool) (s : Bytes) : Option Bytes := do
  let (id, s) ← read 2 s
  if id = 0x61 then
    let s ← skipBytes 9 s
    let (nameLength, s) ← read 2 s
    let s ← skipBytes nameLength s
    readLooks 3 s
  else if id = 0x62 then
    let s ← skipBytes 4 s
    readLooks 2 s
  else skipBytes (if hasByte id then 1 else 0) s

theorem skipBytes_append {n : ℕ} {a : Bytes} (h : a.length = n) (r : Bytes) : skipBytes n (a ++ r) = some r := by
  have hroom : ¬ (a ++ r).length < n := by
    rw [List.length_append]
    omega
  rw [skipBytes, if_neg hroom, List.drop_left' h]

theorem outfit_bytes (v : View) (outfit : Outfit) : ∃ rest : Bytes,
    (addOutfit v outfit).flatMap Write.bytes = write16 outfit.lookType ++ rest ∧
      rest.length = if outfit.lookType.toNat = 0 then 2 else 5 := by
  have hzero : outfit.lookType = 0 ↔ outfit.lookType.toNat = 0 := by
    rw [← UInt16.toNat_inj]
    rfl
  rw [addOutfit]
  by_cases hlook : outfit.lookType = 0
  · rw [if_neg (not_not.mpr hlook), if_pos (hzero.mp hlook)]
    exact ⟨_, rfl, rfl⟩
  · rw [if_pos hlook, if_neg (mt hzero.mpr hlook)]
    exact ⟨_, rfl, rfl⟩

theorem readLooks_bytes (v : View) (outfit : Outfit) {marks : ℕ} {first last : Bytes} (hfirst : first.length = 2)
    (hlast : last.length = 4 + marks) (r : Bytes) :
    readLooks marks (first ++ ((addOutfit v outfit).flatMap Write.bytes ++ (last ++ r))) = some r := by
  obtain ⟨rest, hbytes, hrest⟩ := outfit_bytes v outfit
  rw [readLooks, skipBytes_append hfirst, hbytes, List.append_assoc]
  simp only [Option.bind_eq_bind, Option.bind_some, read_write16]
  rw [skipBytes_append hrest, Option.bind_some, skipBytes_append hlast]

theorem creature_bytes (v : View) (c : Creature) (known : Bool) (remove : ℕ) :
    ∃ (outfit : Outfit) (first last : Bytes),
    (Thing.creature c known remove).bytes v = (creatureHeader v c known remove).flatMap Write.bytes ++
      (first ++ ((addOutfit v outfit).flatMap Write.bytes ++ last)) ∧
      first.length = 2 ∧ last.length = 4 + if known then 2 else 3 := by
  rw [Thing.bytes, Thing.writes, addCreature]
  simp only [List.flatMap_append, List.append_assoc]
  refine ⟨_, _, _, rfl, rfl, ?_⟩
  cases known <;> rfl

/-- Such a client reads all things, if the ids of items are not those of creatures. -/
theorem readsThings_readThing {v : View} {hasByte : ℕ → Bool}
    (hids : ∀ id, (v.items id).clientId ≠ 0x61 ∧ (v.items id).clientId ≠ 0x62)
    (hbytes : ∀ id, hasByte (v.items id).clientId.toNat =
      ((v.items id).stackable || (v.items id).isSplash || (v.items id).isFluidContainer)) :
    ReadsThings v (readThing hasByte) := by
  intro t hshort r
  cases t with
  | item i =>
    obtain ⟨hunknown, hknown⟩ := hids i.id
    have hunknown : (v.items i.id).clientId.toNat ≠ 0x61 :=
      fun h => hunknown (UInt16.toNat_inj.mp h)
    have hknown : (v.items i.id).clientId.toNat ≠ 0x62 := fun h => hknown (UInt16.toNat_inj.mp h)
    obtain ⟨byte, hitem, hbyte⟩ : ∃ byte : Bytes, (Thing.item i).bytes v = write16 (v.items i.id).clientId ++ byte ∧
        byte.length = if hasByte (v.items i.id).clientId.toNat then 1 else 0 := by
      rw [hbytes, Bool.or_assoc, Thing.bytes, Thing.writes, addItem]
      generalize (v.items i.id).stackable = stackable
      generalize ((v.items i.id).isSplash || (v.items i.id).isFluidContainer) = fluid
      cases stackable <;> cases fluid <;> exact ⟨_, rfl, rfl⟩
    rw [hitem, readThing, List.append_assoc]
    simp only [Option.bind_eq_bind, Option.bind_some, read_write16, if_neg hunknown, if_neg hknown]
    exact skipBytes_append hbyte r
  | creature c known remove =>
    obtain ⟨outfit, first, last, hcreature, hfirst, hlast⟩ := creature_bytes v c known remove
    rw [hcreature]
    cases known with
    | true =>
      have hheader : (creatureHeader v c true remove).flatMap Write.bytes = write16 0x62 ++ encode 4 c.id := by
        exact congrArg (write16 0x62 ++ ·) (List.append_nil _)
      rw [hheader, readThing]
      simp only [List.append_assoc, Option.bind_eq_bind, Option.bind_some, read_write16]
      rw [if_neg (by decide), if_pos (by decide), skipBytes_append (length_encode 4 c.id),
        Option.bind_some]
      exact readLooks_bytes v outfit hfirst hlast r
    | false =>
      have hname : (v.looks c.id).name.length ≤ 8192 := by
        apply hshort
        rw [Thing.writes, addCreature]
        simp only [List.mem_append]
        exact .inl (.inl (.inl (.inl (by simp [creatureHeader]))))
      have hheader : (creatureHeader v c false remove).flatMap Write.bytes = write16 0x61 ++
          ((encode 4 remove ++ encode 4 c.id ++ [(v.looks c.id).creatureType]) ++
            (encode 2 (v.looks c.id).name.length ++ (v.looks c.id).name)) := by
        rw [creatureHeader]
        simp [Write.bytes]
      have hids : (encode 4 remove ++ encode 4 c.id ++ [(v.looks c.id).creatureType]).length =
          9 := by
        rw [List.length_append, List.length_append, length_encode, length_encode]
        rfl
      rw [hheader, readThing]
      generalize encode 4 remove ++ encode 4 c.id ++ [(v.looks c.id).creatureType] = ids at hids ⊢
      simp only [List.append_assoc, Option.bind_eq_bind, Option.bind_some, read_write16]
      rw [if_pos (by decide), skipBytes_append hids, Option.bind_some, read_encode,
        Option.bind_some]
      dsimp only
      rw [Nat.mod_eq_of_lt (by omega), skipBytes_append rfl, Option.bind_some]
      exact readLooks_bytes v outfit hfirst hlast r

/-! ## All of a viewport -/

/-- For every client that reads things, map, player and viewport: where no write is
refused, the client gets from the bytes of the map description, and with nothing left of
them, the squares with a tile and the bytes of their descriptions; and the viewport that
is sent of the player's surroundings is what he can see of the floors there are. -/
theorem map_description_decodes (v : View) (readThing : Bytes → Option Bytes)
    (hclient : ReadsThings v readThing) (hids : ∀ id, (v.items id).clientId < 0xFF00)
    (hz : v.player.position.z.toNat < 16) (memory : Memory) (before : List Write) (known : Finset ℕ)
    (x y width height : ℤ)
    (haccepts : Along NetworkMessage.write NetworkMessage.Accepts (.build memory before)
      (getMapDescription v known x y v.player.position.z.toNat width height).1) :
    let viewport := squares x y v.player.position.z.toNat width height
    let msg := NetworkMessage.build memory before
    (∃ stream, (run NetworkMessage.write msg
        (getMapDescription v known x y v.player.position.z.toNat width height).1).body = msg.body ++ stream ∧
      readMapDescription readThing viewport stream = some (bytesOf (described v known viewport), [])) ∧
    (bytesOf (described v known viewport)).map Prod.fst = viewport.filter (fun sq => (v.tileAt sq).isSome) ∧
    ∀ x y z : ℤ, 0 ≤ z → z ≤ 15 → (⟨x, y, z⟩ ∈ squares (v.player.position.x.toNat - 8) (v.player.position.y.toNat - 6)
        v.player.position.z.toNat 18 14 ↔ canSee (some v.player) x y z = true) := by
  intro viewport msg
  refine ⟨⟨_, NetworkMessage.body_writes (NetworkMessage.fine_build memory before) haccepts, ?_⟩, ?_, ?_⟩
  · exact readMapDescription_writes hclient hids fun value hvalue =>
      NetworkMessage.short_of_accepts haccepts hvalue
  · exact described_squares v known viewport
  · intro x y z hlow hhigh
    exact mem_viewport_iff v.player hz hlow hhigh

def aView : View where
  player := { id := 1, position := ⟨100, 100, 7⟩, isPlayer := true }
  order := .ascending
  items := fun _ => { clientId := 102 }
  getTile := fun x y z =>
    if x = 100 ∧ y = 100 ∧ z = 7 then
      some { position := ⟨100, 100, 7⟩, ground := some { id := 1 }, creatures := [{ id := 1, isPlayer := true }] }
    else none

theorem map_description_decodes_meadow :
    let viewport := squares 99 100 7 2 1
    let msg := NetworkMessage.build (fun _ => 0) [.addByte 0x64]
    ∃ stream, (run NetworkMessage.write msg (getMapDescription aView ∅ 99 100 7 2 1).1).body = msg.body ++ stream ∧
      readMapDescription (readThing fun _ => false) viewport stream =
        some (bytesOf (described aView ∅ viewport), []) :=
  have hgrass : (102 : UInt16) ≠ 0x61 ∧ (102 : UInt16) ≠ 0x62 ∧ (102 : UInt16) < 0xFF00 := by decide
  have hclient : ReadsThings aView (readThing fun _ => false) :=
    readsThings_readThing (fun _ => ⟨hgrass.1, hgrass.2.1⟩) fun _ => rfl
  (map_description_decodes aView _ hclient (fun _ => hgrass.2.2) (by decide) (fun _ => 0)
    [.addByte 0x64] ∅ 99 100 2 1
    (by decide)).1

/-! ## More than a message holds -/

theorem length_readThings {readThing : Bytes → Option Bytes} {s things r : Bytes} {count : ℕ}
    (h : readThings readThing s = some (things, count, r)) : things.length + r.length ≤ s.length := by
  fun_induction readThings readThing s generalizing things count r with
  | case1 s hread => cases h
  | case2 s n rest hread hmarker =>
    cases h
    have := read_rest hread
    rw [List.length_nil]
    omega
  | case3 s n rest hread hitem hthing => cases h
  | case4 s n r' hread hitem rest hthing hshorter ih =>
    obtain ⟨⟨things', count', r''⟩, hrest, hpair⟩ := Option.map_eq_some_iff.mp h
    cases hpair
    have := ih hrest
    rw [List.length_append, List.length_take]
    omega
  | case5 s n r' hread hitem rest hthing hlonger => cases h

theorem length_readRecord {readThing : Bytes → Option Bytes} (s : Bytes) (d : Option Bytes) (count : ℕ) (r : Bytes)
    (h : readRecord readThing s = some (d, count, r)) : (d.getD []).length + r.length ≤ s.length := by
  unfold readRecord at h
  cases hread : read 2 s with
  | none =>
    rw [hread] at h
    cases h
  | some found =>
    obtain ⟨n, rest⟩ := found
    have hrest := read_rest hread
    rw [hread] at h
    dsimp only at h
    split at h
    · cases h
      rw [Option.getD_none, List.length_nil]
      omega
    · obtain ⟨⟨things, count', r'⟩, hthings, hpair⟩ := Option.map_eq_some_iff.mp h
      cases hpair
      have hlength := length_readThings hthings
      rw [Option.getD_some, List.length_append, List.length_take]
      dsimp only
      omega

def pile : Tile where
  position := ⟨0, 0, 0⟩
  ground := some { id := 1 }
  downItems := List.replicate 9 { id := 1 }

/-- Piles everywhere. -/
def crowdedView : View where
  player := { id := 1, position := ⟨100, 100, 7⟩, isPlayer := true }
  order := .ascending
  items := fun _ => { clientId := 102 }
  getTile := fun _ _ _ => some pile

theorem length_described_crowded (known : Finset ℕ) (l : List Square) :
    ((bytesOf (described crowdedView known l)).map fun x => x.2.length).sum = 22 * l.length := by
  have htile : ∀ known, ((getTileDescription crowdedView pile known).1.flatMap Write.bytes).length =
      22 := fun _ => rfl
  induction l generalizing known with
  | nil => rfl
  | cons sq l ih =>
    have hhere : crowdedView.tileAt sq = some pile := rfl
    rw [described, hhere]
    dsimp only
    rw [bytesOf, List.map_cons, List.map_cons, List.sum_cons, List.length_cons, htile]
    have hrest := ih (getTileDescription crowdedView pile known).2
    rw [bytesOf] at hrest
    rw [hrest]
    omega

theorem length_squares (x y z width height : ℤ) :
    (squares x y z width height).length = (floors z).length * (width.toNat * height.toNat) := by
  simp [squares, List.length_flatMap]

/-- The surroundings of a player with piles everywhere do not fit into a message. -/
theorem crowd_is_not_described :
    let viewport := squares 92 94 7 18 14
    let msg := NetworkMessage.build (fun _ => 0) []
    ¬ ∃ stream, (run NetworkMessage.write msg (getMapDescription crowdedView ∅ 92 94 7 18 14).1).body =
        msg.body ++ stream ∧
      readMapDescription (readThing fun _ => false) viewport stream =
        some (bytesOf (described crowdedView ∅ viewport), []) := by
  rintro viewport msg ⟨stream, hbody, hread⟩
  have hfine : (run NetworkMessage.write msg (getMapDescription crowdedView ∅ 92 94 7 18 14).1).Fine :=
    NetworkMessage.fine_run (NetworkMessage.fine_build (fun _ => 0) []) _
  have hroom := hfine.bound
  have hlength := congrArg List.length hbody
  rw [NetworkMessage.body, length_slice, List.length_append] at hlength
  have hsquares : viewport.length = 2016 := length_squares 92 94 7 18 14
  have hstream := Skips.length_decode length_readRecord hread
  rw [length_described_crowded, hsquares] at hstream
  rw [hfine.position] at hroom
  change INITIAL_BUFFER_POSITION + _ < 24576 at hroom
  omega

end ForgottenServer.Net
