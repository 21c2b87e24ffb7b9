import ForgottenServer.Lib.Skips
import ForgottenServer.Net.TileDescription

/-! # Map descriptions

Floor by floor and column by column, the squares of a viewport with a tile are
described and those without are counted. -/
namespace ForgottenServer.Net
open ForgottenServer.Lib ForgottenServer.Lib.Buffer ForgottenServer.Lib.Run ForgottenServer.Lib.Wire

structure Square where
  x : ℤ
  y : ℤ
  z : ℤ
  deriving DecidableEq

/-- `Map::getTile`, with the coordinates that it gets. -/
def View.tileAt (v : View) (sq : Square) : Option Tile :=
  v.getTile (UInt16.ofInt sq.x) (UInt16.ofInt sq.y) (UInt8.ofInt sq.z)

/-- The message, the creatures that are known and the skipped squares. -/
structure Description where
  writes : List Write := []
  knownCreatureSet : Finset ℕ
  skip : ℤ := -1

def addSkip (skip : ℤ) : List Write := [.addByte (UInt8.ofInt skip), .addByte 0xFF]

/-- One square of `GetFloorDescription`. -/
def describeSquare (v : View) (d : Description) (sq : Square) : Description :=
  match v.tileAt sq with
  | some tile =>
    { writes := d.writes ++ (if 0 ≤ d.skip then addSkip d.skip else []) ++
        (getTileDescription v tile d.knownCreatureSet).1
      knownCreatureSet := (getTileDescription v tile d.knownCreatureSet).2
      skip := 0 }
  | none =>
    if d.skip = 0xFE then { d with writes := d.writes ++ addSkip 0xFF, skip := -1 }
      else { d with skip := d.skip + 1 }

def getFloorDescription (v : View) (d : Description) (x y z width height offset : ℤ) : Description :=
  (List.range width.toNat).foldl (fun d (nx : ℕ) =>
    (List.range height.toNat).foldl (fun d (ny : ℕ) =>
    describeSquare v d ⟨x + nx + offset, y + ny + offset, z⟩) d) d

def MAP_MAX_LAYERS : ℤ := 16

/-- The floors that `nz` goes through. -/
def floors (z : ℤ) : List ℤ :=
  if 7 < z then (List.range (min (MAP_MAX_LAYERS - 1) (z + 2) + 1 - (z - 2)).toNat).map fun (i : ℕ) => z - 2 + i
  else (List.range 8).map fun (i : ℕ) => 7 - i

def getMapDescription (v : View) (known : Finset ℕ) (x y z width height : ℤ) : List Write × Finset ℕ :=
  let d := (floors z).foldl (fun d nz => getFloorDescription v d x y nz width height (z - nz))
    { knownCreatureSet := known }
  (d.writes ++ if 0 ≤ d.skip then addSkip d.skip else [], d.knownCreatureSet)

/-! ## The squares and what is written for them -/

/-- The squares of a viewport in the order in which they are described. -/
def squares (x y z width height : ℤ) : List Square :=
  (floors z).flatMap fun nz => (List.range width.toNat).flatMap fun (nx : ℕ) =>
    (List.range height.toNat).map fun (ny : ℕ) => ⟨x + nx + (z - nz), y + ny + (z - nz), nz⟩

/-- The squares, and the descriptions of those with a tile. -/
def contents (v : View) : Finset ℕ → List Square → List (Square × Option (List Write))
  | _, [] => []
  | known, sq :: l =>
    match v.tileAt sq with
    | some tile =>
      (sq, some (getTileDescription v tile known).1) :: contents v (getTileDescription v tile known).2 l
    | none => (sq, none) :: contents v known l

def skipMarker (count : ℕ) : List Write := addSkip count

variable {v : View} {known : Finset ℕ} {x y z width height : ℤ}

theorem closing_eq (skip : ℤ) : (if 0 ≤ skip then addSkip skip else []) = Skips.close skipMarker skip := by
  unfold Skips.close
  split
  · rename_i hskip
    rw [skipMarker, Int.toNat_of_nonneg hskip]
  · rfl

theorem foldl_describeSquare (v : View) (d : Description) (l : List Square) : (l.foldl (describeSquare v) d).writes ++
      Skips.close skipMarker (l.foldl (describeSquare v) d).skip =
      d.writes ++ Skips.encode skipMarker d.skip (contents v d.knownCreatureSet l) := by
  induction l generalizing d with
  | nil => rfl
  | cons sq l ih =>
    rw [List.foldl_cons, ih, describeSquare, contents]
    cases htile : v.tileAt sq with
    | some tile =>
      dsimp only
      rw [Skips.encode, closing_eq, List.append_assoc, List.append_assoc]
    | none =>
      dsimp only
      rw [Skips.encode]
      split
      · rw [List.append_assoc]
        rfl
      · rfl

theorem getMapDescription_writes (v : View) (known : Finset ℕ) (x y z width height : ℤ) :
    (getMapDescription v known x y z width height).1 =
      Skips.encode skipMarker (-1) (contents v known (squares x y z width height)) := by
  have hloops : (floors z).foldl (fun d nz => getFloorDescription v d x y nz width height (z - nz))
      { knownCreatureSet := known } =
      (squares x y z width height).foldl (describeSquare v) { knownCreatureSet := known } := by
    rw [squares, List.foldl_flatMap]
    congr 1
    funext d nz
    rw [getFloorDescription, List.foldl_flatMap]
    congr 1
    funext d nx
    rw [List.foldl_map]
  have hfold := foldl_describeSquare v { knownCreatureSet := known } (squares x y z width height)
  rw [getMapDescription, hloops]
  dsimp only
  rw [closing_eq, hfold]
  rfl

/-! ## Reading -/

def Thing.bytes (v : View) (t : Thing) : Bytes := (t.writes v).flatMap Write.bytes

/-- A client reads the things of a tile up to a marker: their bytes, the count of the
marker and the rest. `readThing` gives what is behind the first thing. -/
def readThings (readThing : Bytes → Option Bytes) (s : Bytes) : Option (Bytes × ℕ × Bytes) :=
  match read 2 s with
  | none => none
  | some (n, r) =>
    if 0xFF00 ≤ n then some ([], n % 256, r)
    else
      match readThing s with
      | none => none
      | some rest =>
        if rest.length < s.length then
          (readThings readThing rest).map fun (things, count, r) =>
            (s.take (s.length - rest.length) ++ things, count, r)
        else none
termination_by s.length

/-- A client reads a tile description, if there is one, and the marker behind it. -/
def readRecord (readThing : Bytes → Option Bytes) (s : Bytes) : Option (Option Bytes × ℕ × Bytes) :=
  match read 2 s with
  | none => none
  | some (n, r) =>
    if 0xFF00 ≤ n then some (none, n % 256, r)
    else (readThings readThing r).map fun (things, count, r) =>
      (some (s.take 2 ++ things), count, r)

/-- The squares that a client gets from a map description. -/
def readMapDescription (readThing : Bytes → Option Bytes) (l : List Square) (s : Bytes) :
    Option (List (Square × Bytes) × Bytes) := Skips.decode (readRecord readThing) l 0 s

def Thing.Short (v : View) (t : Thing) : Prop :=
  ∀ value, Write.addString value ∈ t.writes v → value.length ≤ 8192

/-- The client reads every thing as one, whatever follows it. -/
def ReadsThings (v : View) (readThing : Bytes → Option Bytes) : Prop :=
  ∀ t : Thing, t.Short v → ∀ r, readThing (t.bytes v ++ r) = some r

variable {readThing : Bytes → Option Bytes}

theorem marker_bytes {k : ℕ} (hk : k ≤ 0xFF) (r : Bytes) :
    ∃ n, read 2 ((skipMarker k).flatMap Write.bytes ++ r) = some (n, r) ∧ 0xFF00 ≤ n ∧ n % 256 = k := by
  have hmarker : (skipMarker k).flatMap Write.bytes = encode 2 (k + 256 * 0xFF) := by
    have hlow : UInt8.ofInt (k : ℤ) = UInt8.ofNat (k + 256 * 0xFF) := by
      apply UInt8.toNat_inj.mp
      rw [UInt8.ofInt, UInt8.toNat_ofNat', UInt8.toNat_ofNat']
      omega
    have hhigh : (k + 256 * 0xFF) / 256 = 0xFF := by omega
    change [UInt8.ofInt (k : ℤ), 0xFF] = [UInt8.ofNat (k + 256 * 0xFF), UInt8.ofNat ((k + 256 * 0xFF) / 256)]
    rw [hlow, hhigh]
    rfl
  have hword : (k + 256 * 0xFF) % 256 ^ 2 = k + 256 * 0xFF := Nat.mod_eq_of_lt (by omega)
  refine ⟨k + 256 * 0xFF, ?_, by omega, by omega⟩
  rw [hmarker, read_encode, hword]

theorem read_write16 (n : UInt16) (r : Bytes) : read 2 (write16 n ++ r) = some (n.toNat, r) := by
  have hword : n.toNat % 256 ^ 2 = n.toNat := Nat.mod_eq_of_lt n.toNat_lt
  rw [write16, read_encode, hword]

theorem thing_head (hids : ∀ id, (v.items id).clientId < 0xFF00) (t : Thing) :
    ∃ (n : UInt16) (tail : Bytes), t.bytes v = write16 n ++ tail ∧ n < 0xFF00 := by
  cases t with
  | item i => exact ⟨_, _, rfl, hids i.id⟩
  | creature c known remove =>
    cases known with
    | true => exact ⟨0x62, _, rfl, by decide⟩
    | false => exact ⟨0x61, _, rfl, by decide⟩

theorem readThings_things (hclient : ReadsThings v readThing) (hids : ∀ id, (v.items id).clientId < 0xFF00)
    {things : List Thing} (hshort : ∀ t ∈ things, t.Short v) {k : ℕ} (hk : k ≤ 0xFF) (r : Bytes) :
    readThings readThing (things.flatMap (Thing.bytes v) ++ ((skipMarker k).flatMap Write.bytes ++ r)) =
      some (things.flatMap (Thing.bytes v), k, r) := by
  induction things with
  | nil =>
    obtain ⟨n, hread, hmarker, hcount⟩ := marker_bytes hk r
    rw [List.flatMap_nil, List.nil_append, readThings, hread]
    dsimp only
    rw [if_pos hmarker, hcount]
  | cons t things ih =>
    have hrest := ih fun t' ht' => hshort t' (List.mem_cons_of_mem t ht')
    rw [List.flatMap_cons, List.append_assoc]
    generalize hs : things.flatMap (Thing.bytes v) ++ ((skipMarker k).flatMap Write.bytes ++ r) = s at hrest ⊢
    obtain ⟨n, tail, hhead, hitem⟩ := thing_head hids t
    have hread : read 2 (t.bytes v ++ s) = some (n.toNat, tail ++ s) := by
      rw [hhead, List.append_assoc, read_write16]
    have hitem : n.toNat < 0xFF00 := hitem
    have hthing := hclient t (hshort t List.mem_cons_self) s
    have hsome : 0 < (t.bytes v).length := by
      rw [hhead, List.length_append, write16, length_encode]
      omega
    rw [readThings, hread]
    dsimp only
    rw [if_neg (by omega), hthing]
    dsimp only
    rw [if_pos (by rw [List.length_append]; omega), hrest, Option.map_some, List.length_append,
      Nat.add_sub_cancel, List.take_left]

theorem tileDescription_bytes (v : View) (tile : Tile) (known : Finset ℕ) :
    (getTileDescription v tile known).1.flatMap Write.bytes =
      write16 0 ++ (tileThings v tile known).1.flatMap (Thing.bytes v) := by
  rw [getTileDescription, List.flatMap_cons, List.flatMap_assoc]
  rfl

theorem readRecord_tile (hclient : ReadsThings v readThing) (hids : ∀ id, (v.items id).clientId < 0xFF00) {tile : Tile}
    (hshort : ∀ t ∈ (tileThings v tile known).1, t.Short v) {k : ℕ} (hk : k ≤ 0xFF) (r : Bytes) :
    readRecord readThing ((getTileDescription v tile known).1.flatMap Write.bytes ++
      ((skipMarker k).flatMap Write.bytes ++ r)) =
      some (some ((getTileDescription v tile known).1.flatMap Write.bytes), k, r) := by
  have hthings := readThings_things hclient hids hshort hk r
  rw [tileDescription_bytes, List.append_assoc, readRecord, read_write16]
  dsimp only
  rw [if_neg (by decide), hthings]
  rfl

theorem mem_contents {l : List Square} {sq : Square} {writes : List Write}
    (h : (sq, some writes) ∈ contents v known l) : ∃ tile known', writes = (getTileDescription v tile known').1 := by
  induction l generalizing known with
  | nil => cases h
  | cons sq' l ih =>
    rw [contents] at h
    cases htile : v.tileAt sq' with
    | some tile =>
      rw [htile] at h
      obtain hhere | htail := List.mem_cons.mp h
      · cases hhere
        exact ⟨tile, known, rfl⟩
      · exact ih htail
    | none =>
      rw [htile] at h
      obtain hhere | htail := List.mem_cons.mp h
      · cases hhere
      · exact ih htail

theorem contents_squares (v : View) (known : Finset ℕ) (l : List Square) : (contents v known l).map Prod.fst = l := by
  induction l generalizing known with
  | nil => rfl
  | cons sq l ih =>
    rw [contents]
    split
    · rw [List.map_cons, ih]
    · rw [List.map_cons, ih]

/-- The squares with a tile, in their order, and the description of each one. -/
def described (v : View) : Finset ℕ → List Square → List (Square × List Write)
  | _, [] => []
  | known, sq :: l =>
    match v.tileAt sq with
    | some tile =>
      (sq, (getTileDescription v tile known).1) :: described v (getTileDescription v tile known).2 l
    | none => described v known l

def bytesOf (l : List (Square × List Write)) : List (Square × Bytes) :=
  l.map fun d => (d.1, d.2.flatMap Write.bytes)

theorem held_contents (v : View) (known : Finset ℕ) (l : List Square) :
    Skips.held ((contents v known l).map fun c => (c.1, c.2.map (List.flatMap Write.bytes))) =
      bytesOf (described v known l) := by
  induction l generalizing known with
  | nil => rfl
  | cons sq l ih =>
    rw [contents, described]
    cases htile : v.tileAt sq with
    | some tile => exact congrArg (List.cons _) (ih _)
    | none => exact ih known

theorem described_squares (v : View) (known : Finset ℕ) (l : List Square) :
    (bytesOf (described v known l)).map Prod.fst = l.filter fun sq => (v.tileAt sq).isSome := by
  induction l generalizing known with
  | nil => rfl
  | cons sq l ih =>
    rw [described, List.filter_cons]
    cases htile : v.tileAt sq with
    | some tile => exact congrArg (List.cons sq) (ih _)
    | none => exact ih known

/-- Where nothing is refused, a client gets from the description every square with a tile
and the bytes of its description. -/
theorem readMapDescription_writes (hclient : ReadsThings v readThing) (hids : ∀ id, (v.items id).clientId < 0xFF00)
    (hshort : ∀ value, Write.addString value ∈ (getMapDescription v known x y z width height).1 →
      value.length ≤ 8192) :
    readMapDescription readThing (squares x y z width height)
        ((getMapDescription v known x y z width height).1.flatMap Write.bytes) =
      some (bytesOf (described v known (squares x y z width height)), []) := by
  rw [getMapDescription_writes] at hshort ⊢
  have hreads : Skips.Reads (fun k => (skipMarker k).flatMap Write.bytes) (readRecord readThing)
      ((contents v known (squares x y z width height)).map fun c => (c.1, c.2.map (List.flatMap Write.bytes))) := by
    refine ⟨fun k hk s => ?_, fun sq d hmem k hk s => ?_⟩
    · obtain ⟨n, hread, hmarker, hcount⟩ := marker_bytes hk s
      rw [readRecord, hread]
      dsimp only
      rw [if_pos hmarker, hcount]
    · obtain ⟨⟨sq', here⟩, hcontent, hpair⟩ := List.mem_map.mp hmem
      cases here with
      | none => cases hpair
      | some writes =>
        cases hpair
        obtain ⟨tile, known', rfl⟩ := mem_contents hcontent
        refine readRecord_tile hclient hids (fun t ht value hvalue => hshort value ?_) hk s
        refine Skips.mem_encode hcontent (List.mem_cons_of_mem _ ?_)
        exact List.mem_flatMap.mpr ⟨t, ht, hvalue⟩
  have hdecode := Skips.decode_encode hreads
  rw [held_contents, List.map_map] at hdecode
  rw [Skips.flatMap_encode, readMapDescription]
  have hsquares := contents_squares v known (squares x y z width height)
  rw [← hdecode]
  congr 1
  exact hsquares.symm

end ForgottenServer.Net
