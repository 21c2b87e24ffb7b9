import ForgottenServer.Net.Xtea

/-! # XTEA over whole buffers

`apply_rounds` goes over the blocks with an index of 32 bits, while the length has
64: below four gibibytes the index reaches the end, from there on it never does. A
message has 16 bits for its length, so no buffer of the program is that long. -/
namespace ForgottenServer.Net.Xtea

abbrev Round := UInt32 × UInt32 → UInt32 × UInt32

/-- The block at `j` is read, changed and written back. -/
def roundAt (round : Round) (j : ℕ) (data : List UInt8) : List UInt8 :=
  data.take j ++ (applyRounds round ((data.drop j).take 8) ++ data.drop (j + 8))

/-- The loop of `apply_rounds` from `j` on, when it ends in `fuel` turns. -/
def blockLoop (round : Round) : ℕ → UInt32 → List UInt8 → Option (List UInt8)
  | 0, _, _ => none
  | fuel + 1, j, data =>
    if j.toNat < data.length then blockLoop round fuel (j + 8) (roundAt round j.toNat data)
    else some data

/-- The loop over the rounds that `encrypt` and `decrypt` share: `n` of them are left. -/
def roundLoop (round : UInt32 → UInt32 → Round) (next : UInt32 → UInt32) (fuel : ℕ) :
    ℕ → UInt32 → List UInt8 → Option (List UInt8)
  | 0, _, data => some data
  | n + 1, sum, data =>
    (blockLoop (round sum (next sum)) fuel 0 data).bind (roundLoop round next fuel n (next sum))

def encryptLoop (k : Key) (fuel : ℕ) (data : List UInt8) : Option (List UInt8) :=
  roundLoop (encryptRound k) (· + delta) fuel 32 0 data

def decryptLoop (k : Key) (fuel : ℕ) (data : List UInt8) : Option (List UInt8) :=
  roundLoop (decryptRound k) (· - delta) fuel 32 (delta <<< 5) data

/-- `encrypt` returns, and leaves `out` in the buffer. -/
def Encrypts (k : Key) (data out : List UInt8) : Prop := ∃ fuel, encryptLoop k fuel data = some out

def Decrypts (k : Key) (data out : List UInt8) : Prop := ∃ fuel, decryptLoop k fuel data = some out

def block (data : List UInt8) (i : ℕ) : List UInt8 := (data.drop (8 * i)).take 8

/-! ## Blocks -/

theorem eq_nil_of_short : ∀ {a : List UInt8}, 8 ∣ a.length → (∀ (d₀ d₁ d₂ d₃ d₄ d₅ d₆ d₇ : UInt8) (rest : List UInt8),
      a = d₀ :: d₁ :: d₂ :: d₃ :: d₄ :: d₅ :: d₆ :: d₇ :: rest → False) → a = []
  | [], _, _ => rfl
  | [_], h, _ | [_, _], h, _ | [_, _, _], h, _ | [_, _, _, _], h, _ | [_, _, _, _, _], h, _
  | [_, _, _, _, _, _], h, _ | [_, _, _, _, _, _, _], h, _ => by simp at h
  | _ :: _ :: _ :: _ :: _ :: _ :: _ :: _ :: _, _, hshort => absurd rfl (hshort _ _ _ _ _ _ _ _ _)

theorem applyRounds_append (round : Round) {a : List UInt8} (h : 8 ∣ a.length) (b : List UInt8) :
    applyRounds round (a ++ b) = applyRounds round a ++ applyRounds round b := by
  fun_induction applyRounds round a with
  | case1 d₀ d₁ d₂ d₃ d₄ d₅ d₆ d₇ a left right hround ih =>
    have ha : 8 ∣ a.length := by simpa using (Nat.dvd_add_left (Nat.dvd_refl 8)).mp h
    simp only [List.cons_append, applyRounds, hround, ih ha, List.append_assoc]
  | case2 a hshort =>
    rw [eq_nil_of_short h hshort, List.nil_append, List.nil_append]

theorem length_roundAt (round : Round) (j : ℕ) (data : List UInt8) : (roundAt round j data).length = data.length := by
  simp only [roundAt, List.length_append, length_applyRounds, List.length_take, List.length_drop]
  omega

theorem roundAt_append (round : Round) {done b rest : List UInt8} (hb : b.length = 8) :
    roundAt round done.length (done ++ (b ++ rest)) = done ++ applyRounds round b ++ rest := by
  have hblock : (b ++ rest).take 8 = b := List.take_left' hb
  have hrest : (done ++ (b ++ rest)).drop (done.length + 8) = rest := by
    rw [← List.drop_drop, List.drop_left, List.drop_left' hb]
  rw [roundAt, List.take_left, List.drop_left, hblock, hrest, List.append_assoc]

section Loop
variable {round : Round} {data : List UInt8}

/-- With `n` blocks to go, the loop ends within `n + 1` turns and has changed all of them. -/
theorem blockLoop_eq {n fuel : ℕ} {done rest : List UInt8} (hn : rest.length = 8 * n)
    (hfuel : n < fuel) (hlen : done.length + rest.length < 2 ^ 32) :
    blockLoop round fuel (UInt32.ofNat done.length) (done ++ rest) = some (done ++ applyRounds round rest) := by
  induction n generalizing fuel done rest with
  | zero =>
    obtain ⟨fuel, rfl⟩ := Nat.exists_eq_add_of_lt hfuel
    obtain rfl : rest = [] := List.length_eq_zero_iff.mp hn
    have hj : (UInt32.ofNat done.length).toNat = done.length := by
      rw [UInt32.toNat_ofNat', Nat.mod_eq_of_lt (by omega)]
    rw [blockLoop, if_neg (by simp [hj])]
    rfl
  | succ n ih =>
    obtain ⟨fuel, rfl⟩ := Nat.exists_eq_add_of_lt hfuel
    have hj : (UInt32.ofNat done.length).toNat = done.length := by
      rw [UInt32.toNat_ofNat', Nat.mod_eq_of_lt (by omega)]
    obtain ⟨b, rest, hb, rfl⟩ : ∃ b r, b.length = 8 ∧ rest = b ++ r :=
      ⟨rest.take 8, rest.drop 8, by simp; omega, (List.take_append_drop 8 rest).symm⟩
    have hlength : (done ++ applyRounds round b).length = done.length + 8 := by
      rw [List.length_append, length_applyRounds, hb]
    have hnext : UInt32.ofNat done.length + 8 = UInt32.ofNat (done ++ applyRounds round b).length := by
      rw [hlength, UInt32.ofNat_add]
      rfl
    rw [List.length_append, hb] at hn hlen
    rw [blockLoop, if_pos (by simp only [hj, List.length_append, hb]; omega), hj,
      roundAt_append round hb, hnext, ih (by omega) (by omega) (by omega),
      applyRounds_append round (hb ▸ Nat.dvd_refl 8), List.append_assoc]

theorem blockLoop_endless (hlen : 2 ^ 32 ≤ data.length) (fuel : ℕ) (j : UInt32) :
    blockLoop round fuel j data = none := by
  induction fuel generalizing j data with
  | zero => rfl
  | succ fuel ih =>
    have hj := j.toNat_lt
    rw [blockLoop, if_pos (by omega), ih (by rwa [length_roundAt])]

theorem blockLoop_mono {fuel more : ℕ} (hmore : fuel ≤ more) {j : UInt32} {out : List UInt8}
    (h : blockLoop round fuel j data = some out) : blockLoop round more j data = some out := by
  induction fuel generalizing more j data with
  | zero => cases h
  | succ fuel ih =>
    obtain ⟨more, rfl⟩ := Nat.exists_eq_add_of_lt hmore
    rw [blockLoop] at h ⊢
    split at h
    · rw [if_pos ‹_›, ih (by omega) h]
    · rw [if_neg ‹_›, h]

end Loop

/-! ## Rounds over whole buffers -/

/-- The rounds of `encryptRounds` and `decryptRounds`. -/
def allRounds (round : UInt32 → UInt32 → Round) (next : UInt32 → UInt32) : ℕ → UInt32 → List UInt8 → List UInt8
  | 0, _, data => data
  | n + 1, sum, data =>
    allRounds round next n (next sum) (applyRounds (round sum (next sum)) data)

theorem allRounds_encrypt (k : Key) (n : ℕ) (sum : UInt32) (data : List UInt8) :
    allRounds (encryptRound k) (· + delta) n sum data = encryptRounds k delta n sum data := by
  induction n generalizing sum data with
  | zero => rfl
  | succ n ih => exact ih (sum + delta) _

theorem allRounds_decrypt (k : Key) (n : ℕ) (sum : UInt32) (data : List UInt8) :
    allRounds (decryptRound k) (· - delta) n sum data = decryptRounds k delta n sum data := by
  induction n generalizing sum data with
  | zero => rfl
  | succ n ih => exact ih (sum - delta) _

section Rounds
variable {round : UInt32 → UInt32 → Round} {next : UInt32 → UInt32} {data : List UInt8}

theorem length_allRounds (n : ℕ) (sum : UInt32) (data : List UInt8) :
    (allRounds round next n sum data).length = data.length := by
  induction n generalizing sum data with
  | zero => rfl
  | succ n ih => rw [allRounds, ih, length_applyRounds]

theorem allRounds_append (n : ℕ) (sum : UInt32) {a : List UInt8} (h : 8 ∣ a.length) (b : List UInt8) :
    allRounds round next n sum (a ++ b) = allRounds round next n sum a ++ allRounds round next n sum b := by
  induction n generalizing sum a b with
  | zero => rfl
  | succ n ih =>
    rw [allRounds, applyRounds_append _ h, ih _ (by rwa [length_applyRounds])]
    rfl

theorem block_allRounds (n : ℕ) (sum : UInt32) {i : ℕ} (hi : 8 * (i + 1) ≤ data.length) :
    block (allRounds round next n sum data) i = allRounds round next n sum (block data i) := by
  have hsplit : data = data.take (8 * i) ++ (block data i ++ data.drop (8 * (i + 1))) := by
    rw [block, Nat.mul_succ, ← List.drop_drop, List.take_append_drop, List.take_append_drop]
  have hfront : (data.take (8 * i)).length = 8 * i := by
    rw [List.length_take]
    omega
  have hblock : (block data i).length = 8 := by
    rw [block, List.length_take, List.length_drop]
    omega
  have hall : allRounds round next n sum data = allRounds round next n sum (data.take (8 * i)) ++
      (allRounds round next n sum (block data i) ++ allRounds round next n sum (data.drop (8 * (i + 1)))) := by
    rw [← allRounds_append n sum (hblock ▸ Nat.dvd_refl 8),
      ← allRounds_append n sum (by rw [hfront]; exact Nat.dvd_mul_right 8 i), ← hsplit]
  rw [hall, block, List.drop_left' (by rw [length_allRounds, hfront]),
    List.take_left' (by rw [length_allRounds, hblock])]

theorem roundLoop_eq (h : 8 ∣ data.length) (hlen : data.length < 2 ^ 32) {fuel : ℕ} (hfuel : data.length / 8 < fuel)
    (n : ℕ) (sum : UInt32) : roundLoop round next fuel n sum data = some (allRounds round next n sum data) := by
  induction n generalizing sum data with
  | zero => rfl
  | succ n ih =>
    have hblocks : blockLoop (round sum (next sum)) fuel 0 data = some (applyRounds (round sum (next sum)) data) :=
      @blockLoop_eq _ (data.length / 8) fuel [] data (by omega) hfuel (by simpa using hlen)
    have hl := length_applyRounds (round sum (next sum)) data
    rw [roundLoop, hblocks, Option.bind_some, ih (by rwa [hl]) (by rwa [hl]) (by rwa [hl])]
    rfl

theorem roundLoop_mono {fuel more : ℕ} (hmore : fuel ≤ more) {n : ℕ} {sum : UInt32} {out : List UInt8}
    (h : roundLoop round next fuel n sum data = some out) : roundLoop round next more n sum data = some out := by
  induction n generalizing sum data with
  | zero => exact h
  | succ n ih =>
    obtain ⟨changed, hblocks, hrest⟩ := Option.bind_eq_some_iff.mp h
    rw [roundLoop, blockLoop_mono hmore hblocks, Option.bind_some, ih hrest]

theorem roundLoop_endless (hlen : 2 ^ 32 ≤ data.length) (fuel n : ℕ) (sum : UInt32) :
    roundLoop round next fuel (n + 1) sum data = none := by
  rw [roundLoop, blockLoop_endless hlen, Option.bind_none]

theorem exists_roundLoop_iff (h : 8 ∣ data.length) (n : ℕ) (sum : UInt32) (out : List UInt8) :
    (∃ fuel, roundLoop round next fuel (n + 1) sum data = some out) ↔
      data.length < 2 ^ 32 ∧ out = allRounds round next (n + 1) sum data := by
  constructor
  · rintro ⟨fuel, hout⟩
    rcases Nat.lt_or_ge data.length (2 ^ 32) with hlen | hlen
    · have hlong := roundLoop_mono (Nat.le_max_left fuel (data.length / 8 + 1)) hout
      rw [roundLoop_eq h hlen (Nat.le_max_right _ _)] at hlong
      exact ⟨hlen, (Option.some.inj hlong).symm⟩
    · rw [roundLoop_endless hlen] at hout
      cases hout
  · rintro ⟨hlen, rfl⟩
    exact ⟨data.length / 8 + 1, roundLoop_eq h hlen (Nat.lt_succ_self _) _ _⟩

end Rounds

/-! ## Encrypting and decrypting -/

theorem encrypts_iff (k : Key) {data : List UInt8} (h : 8 ∣ data.length) (out : List UInt8) :
    Encrypts k data out ↔ data.length < 2 ^ 32 ∧ out = encrypt k data := by
  rw [encrypt, ← allRounds_encrypt]
  exact exists_roundLoop_iff h 31 0 out

theorem decrypts_iff (k : Key) {data : List UInt8} (h : 8 ∣ data.length) (out : List UInt8) :
    Decrypts k data out ↔ data.length < 2 ^ 32 ∧ out = decrypt k data := by
  rw [decrypt, ← allRounds_decrypt]
  exact exists_roundLoop_iff h 31 (delta <<< 5) out

theorem block_encrypt (k : Key) {data : List UInt8} {i : ℕ} (hi : 8 * (i + 1) ≤ data.length) :
    block (encrypt k data) i = encrypt k (block data i) := by
  simp only [encrypt, ← allRounds_encrypt]
  exact block_allRounds 32 0 hi

theorem block_decrypt (k : Key) {data : List UInt8} {i : ℕ} (hi : 8 * (i + 1) ≤ data.length) :
    block (decrypt k data) i = decrypt k (block data i) := by
  simp only [decrypt, ← allRounds_decrypt]
  exact block_allRounds 32 (delta <<< 5) hi

/-- Each direction returns, is undone by the other one, keeps the length and does to every
block what it does to a buffer of that block alone. -/
structure Invertible (k : Key) (data : List UInt8) : Prop where
  decrypts : ∃ out, Encrypts k data out ∧ out.length = data.length ∧ Decrypts k out data ∧
    ∀ i < data.length / 8, Encrypts k (block data i) (block out i)
  encrypts : ∃ out, Decrypts k data out ∧ out.length = data.length ∧ Encrypts k out data ∧
    ∀ i < data.length / 8, Decrypts k (block data i) (block out i)

theorem length_block {data : List UInt8} {i : ℕ} (hi : i < data.length / 8) : (block data i).length = 8 := by
  rw [block, List.length_take, List.length_drop]
  omega

/-- The cipher can be undone on the buffers that the index reaches the end of. -/
theorem invertible_iff (k : Key) (data : List UInt8) (h : 8 ∣ data.length) :
    Invertible k data ↔ data.length < 2 ^ 32 := by
  constructor
  · rintro ⟨⟨out, hout, -⟩, -⟩
    exact ((encrypts_iff k h out).mp hout).1
  · intro hlen
    have hwhole : ∀ i < data.length / 8, 8 ∣ (block data i).length ∧ (block data i).length < 2 ^ 32 := by
      intro i hi
      rw [length_block hi]
      exact ⟨Nat.dvd_refl 8, by omega⟩
    refine ⟨⟨encrypt k data, (encrypts_iff k h _).mpr ⟨hlen, rfl⟩, length_encrypt k data, ?_, ?_⟩,
      ⟨decrypt k data, (decrypts_iff k h _).mpr ⟨hlen, rfl⟩, length_decrypt k data, ?_, ?_⟩⟩
    · refine (decrypts_iff k ?_ _).mpr ⟨?_, (decrypt_encrypt k data).symm⟩
      · rwa [length_encrypt]
      · rwa [length_encrypt]
    · intro i hi
      obtain ⟨hdvd, hshort⟩ := hwhole i hi
      exact (encrypts_iff k hdvd _).mpr ⟨hshort, block_encrypt k (by omega)⟩
    · refine (encrypts_iff k ?_ _).mpr ⟨?_, (encrypt_decrypt k data).symm⟩
      · rwa [length_decrypt]
      · rwa [length_decrypt]
    · intro i hi
      obtain ⟨hdvd, hshort⟩ := hwhole i hi
      exact (decrypts_iff k hdvd _).mpr ⟨hshort, block_decrypt k (by omega)⟩

theorem invertible_two_blocks : Invertible (fun _ => 7) (List.replicate 16 1) :=
  (invertible_iff _ _ (by simp)).mpr (by simp)

end ForgottenServer.Net.Xtea
