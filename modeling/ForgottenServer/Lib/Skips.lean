import Mathlib.Algebra.Ring.Nat
import Mathlib.Data.Int.Notation
import Mathlib.Data.List.Basic
import Mathlib.Data.Nat.Notation

/-! # Skips

A stream of what some of many places hold. Places without anything are counted, up to
255, in a marker that closes the record before them. A negative count says that no
record is open. -/
namespace ForgottenServer.Lib.Skips

variable {σ β : Type*} (marker : ℕ → List β)

/-- The marker that closes an open record. -/
def close (skip : ℤ) : List β := if 0 ≤ skip then marker skip.toNat else []

/-- The stream of places from an open record on, or from none. -/
def encode (skip : ℤ) : List (σ × Option (List β)) → List β
  | [] => close marker skip
  | (_, some held) :: l => close marker skip ++ (held ++ encode 0 l)
  | (_, none) :: l => if skip = 0xFE then marker 0xFF ++ encode (-1) l else encode (skip + 1) l

/-- What the places hold that do hold something. -/
def held (l : List (σ × Option (List β))) : List (σ × List β) :=
  l.filterMap fun x => x.2.map fun d => (x.1, d)

/-- The places with what they hold, read with a reader of one record: what it holds, if
anything, the count behind it and the rest of the stream. -/
def decode (record : List β → Option (Option (List β) × ℕ × List β)) :
    List σ → ℕ → List β → Option (List (σ × List β) × List β)
  | [], _, s => some ([], s)
  | _ :: l, skips + 1, s => decode record l skips s
  | x :: l, 0, s =>
    match record s with
    | none => none
    | some (none, count, s) => decode record l count s
    | some (some d, count, s) => (decode record l count s).map fun (r, s) => ((x, d) :: r, s)

/-- A reader that reads what the places of a list hold, and markers. -/
structure Reads (record : List β → Option (Option (List β) × ℕ × List β))
    (l : List (σ × Option (List β))) :
    Prop where
  nothing : ∀ k ≤ 0xFF, ∀ s, record (marker k ++ s) = some (none, k, s)
  something : ∀ x d, (x, some d) ∈ l → ∀ k ≤ 0xFF, ∀ s, record (d ++ (marker k ++ s)) = some (some d, k, s)

variable {marker} {record : List β → Option (Option (List β) × ℕ × List β)}

theorem Reads.tail {y : σ × Option (List β)} {l : List (σ × Option (List β))} (h : Reads marker record (y :: l)) :
    Reads marker record l :=
  ⟨h.nothing, fun x d hmem => h.something x d (List.mem_cons_of_mem y hmem)⟩

/-- A place with something: its record is open from there on. -/
theorem decode_held {x : σ} {d : List β} {l : List (σ × Option (List β))} (h : Reads marker record ((x, some d) :: l))
    (hopen : ∃ j s, j ≤ 0xFF ∧ encode marker 0 l = marker j ++ s ∧
      decode record (l.map Prod.fst) j s = some (held l, [])) :
    decode record (x :: l.map Prod.fst) 0 (d ++ encode marker 0 l) = some ((x, d) :: held l, []) := by
  obtain ⟨j, s, hj, hstream, hrest⟩ := hopen
  rw [hstream, decode, h.something x d List.mem_cons_self j hj]
  dsimp only
  rw [hrest, Option.map_some]

/-- An open record is closed with its count and those of the places it skips; what is
behind it is read from the place after them. -/
theorem decode_open {l : List (σ × Option (List β))} (h : Reads marker record l) :
    (∀ k : ℕ, k ≤ 0xFE → ∃ j s, k + j ≤ 0xFF ∧ encode marker k l = marker (k + j) ++ s ∧
      decode record (l.map Prod.fst) j s = some (held l, [])) ∧
    decode record (l.map Prod.fst) 0 (encode marker (-1) l) = some (held l, []) := by
  induction l with
  | nil =>
    refine ⟨fun k hk => ⟨0, [], by omega, ?_, rfl⟩, rfl⟩
    rw [encode, close, if_pos (by omega), Int.toNat_natCast, List.append_nil, Nat.add_zero]
  | cons y l ih =>
    obtain ⟨hopen, hclosed⟩ := ih h.tail
    have hfirst : ∃ j s, j ≤ 0xFF ∧ encode marker 0 l = marker j ++ s ∧
        decode record (l.map Prod.fst) j s = some (held l, []) := by
      obtain ⟨j, s, hj, hstream, hrest⟩ := hopen 0 (by omega)
      rw [Nat.zero_add] at hj hstream
      exact ⟨j, s, hj, hstream, hrest⟩
    obtain ⟨x, here⟩ := y
    cases here with
    | none =>
      constructor
      · intro k hk
        by_cases hlast : k = 0xFE
        · refine ⟨1, encode marker (-1) l, by omega, ?_, hclosed⟩
          rw [encode, if_pos (by omega), hlast]
        · obtain ⟨j, s, hj, hstream, hrest⟩ := hopen (k + 1) (by omega)
          refine ⟨j + 1, s, by omega, ?_, hrest⟩
          rw [encode, if_neg (by omega), ← Nat.add_assoc, Nat.add_right_comm, ← hstream]
          rfl
      · obtain ⟨j, s, hj, hstream, hrest⟩ := hfirst
        rw [encode, if_neg (by decide)]
        change decode record (x :: l.map Prod.fst) 0 (encode marker 0 l) = _
        rw [hstream, decode, h.nothing j hj]
        exact hrest
    | some d =>
      have hheld := decode_held h hfirst
      refine ⟨fun k hk => ⟨0, d ++ encode marker 0 l, by omega, ?_, hheld⟩, hheld⟩
      rw [encode, close, if_pos (by omega), Int.toNat_natCast, Nat.add_zero]

theorem decode_encode {l : List (σ × Option (List β))} (h : Reads marker record l) :
    decode record (l.map Prod.fst) 0 (encode marker (-1) l) = some (held l, []) := (decode_open h).2

/-- No more is read than there is. -/
theorem length_decode (hrecord : ∀ s d k r, record s = some (d, k, r) → (d.getD []).length + r.length ≤ s.length)
    {l : List σ} {skips : ℕ} {s rest : List β} {read : List (σ × List β)}
    (h : decode record l skips s = some (read, rest)) :
    (read.map fun x => x.2.length).sum + rest.length ≤ s.length := by
  induction l generalizing skips s read with
  | nil =>
    cases h
    simp
  | cons x l ih =>
    cases skips with
    | succ skips => exact ih h
    | zero =>
      rw [decode] at h
      cases hread : record s with
      | none =>
        rw [hread] at h
        cases h
      | some found =>
        obtain ⟨d, count, r⟩ := found
        have hlength := hrecord s d count r hread
        rw [hread] at h
        cases d with
        | none =>
          have hrest := ih h
          rw [Option.getD_none, List.length_nil] at hlength
          omega
        | some d =>
          obtain ⟨⟨read', rest'⟩, hdecode, hpair⟩ := Option.map_eq_some_iff.mp h
          cases hpair
          have hrest := ih hdecode
          rw [Option.getD_some] at hlength
          rw [List.map_cons, List.sum_cons]
          dsimp only
          omega

/-- Streams of pieces that are streams themselves. -/
theorem flatMap_encode {γ : Type*} (f : β → List γ) (skip : ℤ) (l : List (σ × Option (List β))) :
    (encode marker skip l).flatMap f = encode (fun k => (marker k).flatMap f) skip
        (l.map fun x => (x.1, x.2.map (List.flatMap f))) := by
  have hclose : ∀ skip, (close marker skip).flatMap f = close (fun k => (marker k).flatMap f) skip := fun skip => by
    unfold close
    split <;> rfl
  induction l generalizing skip with
  | nil => exact hclose skip
  | cons x l ih =>
    obtain ⟨x, here⟩ := x
    cases here with
    | none =>
      rw [encode, List.map_cons, Option.map_none, encode]
      split
      · rw [List.flatMap_append, ih]
      · exact ih _
    | some d =>
      rw [encode, List.map_cons, Option.map_some, encode, List.flatMap_append, List.flatMap_append, hclose, ih]

theorem mem_encode {x : σ} {d : List β} {b : β} {skip : ℤ} {l : List (σ × Option (List β))}
    (h : (x, some d) ∈ l) (hb : b ∈ d) : b ∈ encode marker skip l := by
  induction l generalizing skip with
  | nil => cases h
  | cons y l ih =>
    obtain ⟨y, here⟩ := y
    cases here with
    | none =>
      have htail : (x, some d) ∈ l := by simpa using h
      rw [encode]
      split
      · exact List.mem_append_right _ (ih htail)
      · exact ih htail
    | some e =>
      rw [encode]
      apply List.mem_append_right
      obtain hhere | htail := List.mem_cons.mp h
      · cases hhere
        exact List.mem_append_left _ hb
      · exact List.mem_append_right _ (ih htail)

end ForgottenServer.Lib.Skips
