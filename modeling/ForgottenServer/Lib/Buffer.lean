import Mathlib.Data.List.GetD

/-! # Buffers

Memory as a function of the index. `put` writes bytes and `slice` reads them. -/
namespace ForgottenServer.Lib.Buffer

abbrev Memory := ℕ → UInt8

def put (b : Memory) (start : ℕ) (bytes : List UInt8) : Memory := fun i =>
  if start ≤ i then bytes.getD (i - start) (b i) else b i

def slice (b : Memory) (start : ℕ) : ℕ → List UInt8
  | 0 => []
  | n + 1 => b start :: slice b (start + 1) n

variable {b : Memory} {start n m : ℕ} {bytes : List UInt8}

@[simp] theorem length_slice (b : Memory) (start n : ℕ) : (slice b start n).length = n := by
  induction n generalizing start with
  | zero => rfl
  | succ n ih => rw [slice, List.length_cons, ih]

theorem slice_add (b : Memory) (start m n : ℕ) : slice b start (m + n) = slice b start m ++ slice b (start + m) n := by
  induction m generalizing start with
  | zero => simp [slice]
  | succ m ih =>
    rw [Nat.succ_add, slice, slice, ih, List.cons_append]
    congr 3
    omega

theorem slice_congr {b' : Memory} (h : ∀ i, start ≤ i → i < start + n → b i = b' i) :
    slice b start n = slice b' start n := by
  induction n generalizing start with
  | zero => rfl
  | succ n ih =>
    rw [slice, slice, h start (Nat.le_refl _) (by omega),
      ih fun i hi hi' => h i (by omega) (by omega)]

theorem put_before (b : Memory) (bytes : List UInt8) {i : ℕ} (h : i < start) : put b start bytes i = b i := by
  rw [put, if_neg (by omega)]

theorem put_after (b : Memory) {i : ℕ} (h : start + bytes.length ≤ i) : put b start bytes i = b i := by
  unfold put
  split
  · rw [List.getD_eq_default _ _ (by omega)]
  · rfl

theorem put_cons_self (b : Memory) (start : ℕ) (x : UInt8) (bytes : List UInt8) :
    put b start (x :: bytes) start = x := by
  simp [put]

theorem put_cons_of_lt (b : Memory) (x : UInt8) (bytes : List UInt8) {i : ℕ} (h : start < i) :
    put b start (x :: bytes) i = put b (start + 1) bytes i := by
  obtain ⟨k, rfl⟩ : ∃ k, i = start + 1 + k := ⟨i - (start + 1), by omega⟩
  have hk : start + 1 + k - start = k + 1 := by omega
  have hk' : start + 1 + k - (start + 1) = k := by omega
  rw [put, put, if_pos (by omega), if_pos (by omega), hk, hk', List.getD_cons_succ]

theorem slice_put (b : Memory) (start : ℕ) (bytes : List UInt8) :
    slice (put b start bytes) start bytes.length = bytes := by
  induction bytes generalizing start with
  | nil => rfl
  | cons x bytes ih =>
    have htail : slice (put b start (x :: bytes)) (start + 1) bytes.length =
        slice (put b (start + 1) bytes) (start + 1) bytes.length :=
      slice_congr fun i hi _ => put_cons_of_lt b x bytes (by omega)
    rw [List.length_cons, slice, put_cons_self, htail, ih]

theorem slice_put_before (b : Memory) (bytes : List UInt8) (h : m + n ≤ start) :
    slice (put b start bytes) m n = slice b m n :=
      slice_congr fun _ _ hi' => put_before b bytes (by omega)

theorem slice_put_after (b : Memory) (h : start + bytes.length ≤ m) :
    slice (put b start bytes) m n = slice b m n := slice_congr fun _ hi _ => put_after b (by omega)

theorem slice_put_append (b : Memory) (start n : ℕ) (bytes : List UInt8) :
    slice (put b (start + n) bytes) start (n + bytes.length) = slice b start n ++ bytes := by
  rw [slice_add, slice_put_before b bytes (Nat.le_refl _), slice_put]

theorem slice_put_prepend (b : Memory) (start n : ℕ) (bytes : List UInt8) :
    slice (put b start bytes) start (bytes.length + n) = bytes ++ slice b (start + bytes.length) n := by
  rw [slice_add, slice_put, slice_put_after b (Nat.le_refl _)]

end ForgottenServer.Lib.Buffer
