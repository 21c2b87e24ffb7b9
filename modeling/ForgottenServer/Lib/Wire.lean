import Mathlib.Algebra.Order.Ring.Int
import Mathlib.Algebra.Order.Group.Unbundled.Int
import Mathlib.Tactic.Positivity
import Mathlib.Tactic.Ring
import Mathlib.Tactic.Zify

/-! # Byte streams

Numbers in little endian and strings with their length in front. A number that
cannot be read leaves the stream as it is; a string whose length can be read and
whose bytes cannot leaves it behind the length. -/
namespace ForgottenServer.Lib.Wire

abbrev Bytes := List UInt8

/-- The low `k` bytes of a number. -/
def encode : ℕ → ℕ → Bytes
  | 0, _ => []
  | k + 1, n => UInt8.ofNat n :: encode k (n / 256)

def decode : Bytes → ℕ
  | [] => 0
  | b :: l => b.toNat + 256 * decode l

@[simp] theorem length_encode (k n : ℕ) : (encode k n).length = k := by
  induction k generalizing n with
  | zero => rfl
  | succ k ih => simp [encode, ih]

theorem decode_encode (k n : ℕ) : decode (encode k n) = n % 256 ^ k := by
  induction k generalizing n with
  | zero => simp [encode, decode, Nat.mod_one]
  | succ k ih =>
    have hhead : (UInt8.ofNat n).toNat = n % 256 := by simp
    rw [encode, decode, ih, hhead, pow_succ', Nat.mod_mul]

/-- The number in the first `k` bytes and what follows them. -/
def read (k : ℕ) (s : Bytes) : Option (ℕ × Bytes) :=
  if s.length < k then none else some (decode (s.take k), s.drop k)

theorem read_encode (k n : ℕ) (r : Bytes) : read k (encode k n ++ r) = some (n % 256 ^ k, r) := by
  have hlen : ¬ (encode k n ++ r).length < k := by simp
  have htake : (encode k n ++ r).take k = encode k n := List.take_left' (length_encode k n)
  have hdrop : (encode k n ++ r).drop k = r := List.drop_left' (length_encode k n)
  rw [read, if_neg hlen, htake, hdrop, decode_encode]

theorem read_rest {k n : ℕ} {s r : Bytes} (h : read k s = some (n, r)) : r.length + k = s.length := by
  unfold read at h
  split at h
  · cases h
  · cases h
    rw [List.length_drop]
    omega

/-- A signed or unsigned number, in two's complement. -/
def write (k : ℕ) (x : ℤ) : Bytes := encode k (x % 256 ^ k).toNat

theorem read_write (k : ℕ) (x : ℤ) (r : Bytes) : read k (write k x ++ r) = some ((x % 256 ^ k).toNat, r) := by
  have hpos : (0 : ℤ) < 256 ^ k := by positivity
  have hlt : (x % 256 ^ k).toNat < 256 ^ k := by
    have := Int.emod_lt_of_pos x hpos
    have hnn := Int.emod_nonneg x hpos.ne'
    zify
    rwa [Int.toNat_of_nonneg hnn]
  rw [write, read_encode, Nat.mod_eq_of_lt hlt]

/-- The number that the bits of an unsigned one stand for. -/
def toSigned (k n : ℕ) : ℤ := Int.bmod n (256 ^ k)

theorem unsigned_of_range {k : ℕ} {x : ℤ} (h₀ : 0 ≤ x) (h₁ : x < 256 ^ k) : ((x % 256 ^ k).toNat : ℤ) = x := by
  rw [Int.emod_eq_of_lt h₀ h₁, Int.toNat_of_nonneg h₀]

theorem signed_of_range {k : ℕ} {x : ℤ} (h₀ : -256 ^ k ≤ 2 * x) (h₁ : 2 * x < 256 ^ k) :
    toSigned k (x % 256 ^ k).toNat = x := by
  have hpos : (0 : ℤ) < 256 ^ k := by positivity
  have hcast : ((256 ^ k : ℕ) : ℤ) = 256 ^ k := by push_cast; rfl
  rw [toSigned, Int.toNat_of_nonneg (Int.emod_nonneg x hpos.ne'), ← hcast, Int.emod_bmod]
  exact Int.bmod_eq_of_le_mul_two (by omega) (by omega)

/-! ## Strings -/

/-- `writeString`: a string that is too long is written as the empty one. -/
def writeString (str : Bytes) : Bytes :=
  if 2 ^ 16 ≤ str.length then encode 2 0 else encode 2 str.length ++ str

def readString (s : Bytes) : Option Bytes × Bytes :=
  match read 2 s with
  | none => (none, s)
  | some (n, s) => if s.length < n then (none, s) else (some (s.take n), s.drop n)

theorem readString_writeString {str : Bytes} (h : str.length < 2 ^ 16) (r : Bytes) :
    readString (writeString str ++ r) = (some str, r) := by
  have hlen : ¬ 2 ^ 16 ≤ str.length := not_le.mpr h
  rw [writeString, if_neg hlen, List.append_assoc, readString, read_encode]
  have hmod : str.length % 256 ^ 2 = str.length := Nat.mod_eq_of_lt h
  have hroom : ¬ (str ++ r).length < str.length := by simp
  simp only [hmod, if_neg hroom, List.take_left, List.drop_left]

/-! ## Machine integers -/

def write8 (x : UInt8) : Bytes := [x]

def read8 : Bytes → Option (UInt8 × Bytes)
  | [] => none
  | x :: s => some (x, s)

def write16 (x : UInt16) : Bytes := encode 2 x.toNat

def read16 (s : Bytes) : Option (UInt16 × Bytes) := (read 2 s).map fun (n, s) => (UInt16.ofNat n, s)

def write32 (x : UInt32) : Bytes := encode 4 x.toNat

def read32 (s : Bytes) : Option (UInt32 × Bytes) := (read 4 s).map fun (n, s) => (UInt32.ofNat n, s)

@[simp] theorem read8_write8 (x : UInt8) (r : Bytes) : read8 (write8 x ++ r) = some (x, r) := rfl

@[simp] theorem read16_write16 (x : UInt16) (r : Bytes) : read16 (write16 x ++ r) = some (x, r) := by
  have hmod : x.toNat % 256 ^ 2 = x.toNat := Nat.mod_eq_of_lt x.toNat_lt
  rw [read16, write16, read_encode, hmod]
  simp only [Option.map_some, UInt16.ofNat_toNat]

@[simp] theorem read32_write32 (x : UInt32) (r : Bytes) : read32 (write32 x ++ r) = some (x, r) := by
  have hmod : x.toNat % 256 ^ 4 = x.toNat := Nat.mod_eq_of_lt x.toNat_lt
  rw [read32, write32, read_encode, hmod]
  simp only [Option.map_some, UInt32.ofNat_toNat]

end ForgottenServer.Lib.Wire
