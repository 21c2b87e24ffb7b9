import ForgottenServer.Lib.Wire

/-! # XTEA

The cipher goes over all blocks of eight bytes in each of its 32 rounds, and
decrypting undoes the rounds from the last to the first. -/
namespace ForgottenServer.Net.Xtea
open ForgottenServer.Lib.Wire

abbrev Key := Fin 4 → UInt32

def delta : UInt32 := 0x9E3779B9

local instance keyLength : NeZero 4 := ⟨by decide⟩

/-- `k[x & 3]` -/
def Key.at (k : Key) (x : UInt32) : UInt32 := k (Fin.ofNat 4 (x &&& 3).toNat)

def word (d₀ d₁ d₂ d₃ : UInt8) : UInt32 := UInt32.ofNat (decode [d₀, d₁, d₂, d₃])

/-- `apply_rounds`: what is left of a block that is not whole stays. -/
def applyRounds (round : UInt32 × UInt32 → UInt32 × UInt32) : List UInt8 → List UInt8
  | d₀ :: d₁ :: d₂ :: d₃ :: d₄ :: d₅ :: d₆ :: d₇ :: data =>
    let (left, right) := round (word d₀ d₁ d₂ d₃, word d₄ d₅ d₆ d₇)
    encode 4 left.toNat ++ (encode 4 right.toNat ++ applyRounds round data)
  | data => data

def encryptRound (k : Key) (sum nextSum : UInt32) (b : UInt32 × UInt32) : UInt32 × UInt32 :=
  let (left, right) := b
  let left := left + ((((right <<< 4) ^^^ (right >>> 5)) + right) ^^^ (sum + k.at sum))
  let right := right + ((((left <<< 4) ^^^ (left >>> 5)) + left) ^^^ (nextSum + k.at (nextSum >>> 11)))
  (left, right)

def decryptRound (k : Key) (sum nextSum : UInt32) (b : UInt32 × UInt32) : UInt32 × UInt32 :=
  let (left, right) := b
  let right := right - ((((left <<< 4) ^^^ (left >>> 5)) + left) ^^^ (sum + k.at (sum >>> 11)))
  let left := left - ((((right <<< 4) ^^^ (right >>> 5)) + right) ^^^ (nextSum + k.at nextSum))
  (left, right)

/-- The loop of `encrypt`, with the rounds that are left, for any `delta`. -/
def encryptRounds (k : Key) (d : UInt32) : ℕ → UInt32 → List UInt8 → List UInt8
  | 0, _, data => data
  | n + 1, sum, data =>
    encryptRounds k d n (sum + d) (applyRounds (encryptRound k sum (sum + d)) data)

/-- The loop of `decrypt`. -/
def decryptRounds (k : Key) (d : UInt32) : ℕ → UInt32 → List UInt8 → List UInt8
  | 0, _, data => data
  | n + 1, sum, data =>
    decryptRounds k d n (sum - d) (applyRounds (decryptRound k sum (sum - d)) data)

def encrypt (k : Key) (data : List UInt8) : List UInt8 := encryptRounds k delta 32 0 data

def decrypt (k : Key) (data : List UInt8) : List UInt8 :=
  decryptRounds k delta 32 (delta <<< 5) data

/-! ## Rounds -/

theorem word_encode {x : UInt32} {d₀ d₁ d₂ d₃ : UInt8} (h : encode 4 x.toNat = [d₀, d₁, d₂, d₃]) :
    word d₀ d₁ d₂ d₃ = x := by
  have hmod : x.toNat % 256 ^ 4 = x.toNat := Nat.mod_eq_of_lt x.toNat_lt
  rw [word, ← h, decode_encode, hmod, UInt32.ofNat_toNat]

theorem encode_word (d₀ d₁ d₂ d₃ : UInt8) : encode 4 (word d₀ d₁ d₂ d₃).toNat = [d₀, d₁, d₂, d₃] := by
  have h₀ := d₀.toNat_lt
  have h₁ := d₁.toNat_lt
  have h₂ := d₂.toNat_lt
  have h₃ := d₃.toNat_lt
  have hsmall : decode [d₀, d₁, d₂, d₃] < 2 ^ 32 := by
    simp only [decode]
    omega
  have hword : (word d₀ d₁ d₂ d₃).toNat = decode [d₀, d₁, d₂, d₃] := by
    rw [word, UInt32.toNat_ofNat', Nat.mod_eq_of_lt hsmall]
  have hbyte : ∀ (d : UInt8) (n : ℕ), UInt8.ofNat (d.toNat + 256 * n) = d := fun d n => by
    apply UInt8.toNat_inj.mp
    rw [UInt8.toNat_ofNat']
    have := d.toNat_lt
    omega
  have hrest : ∀ (d : UInt8) (n : ℕ), (d.toNat + 256 * n) / 256 = n := fun d n => by
    have := d.toNat_lt
    omega
  rw [hword]
  simp only [encode, decode, hbyte, hrest]

theorem length_applyRounds (round : UInt32 × UInt32 → UInt32 × UInt32) (data : List UInt8) :
    (applyRounds round data).length = data.length := by
  fun_induction applyRounds round data with
  | case1 d₀ d₁ d₂ d₃ d₄ d₅ d₆ d₇ data left right hround ih =>
    simp only [List.length_append, length_encode, ih, List.length_cons]
    omega
  | case2 data => rfl

theorem applyRounds_encode (round : UInt32 × UInt32 → UInt32 × UInt32) (left right : UInt32) (data : List UInt8) :
    applyRounds round (encode 4 left.toNat ++ (encode 4 right.toNat ++ data)) =
      encode 4 (round (left, right)).1.toNat ++
        (encode 4 (round (left, right)).2.toNat ++ applyRounds round data) := by
  have hbytes : ∀ x : UInt32, ∃ d₀ d₁ d₂ d₃, encode 4 x.toNat = [d₀, d₁, d₂, d₃] :=
    fun x => ⟨_, _, _, _, rfl⟩
  obtain ⟨d₀, d₁, d₂, d₃, hleft⟩ := hbytes left
  obtain ⟨d₄, d₅, d₆, d₇, hright⟩ := hbytes right
  rw [hleft, hright]
  change applyRounds round (d₀ :: d₁ :: d₂ :: d₃ :: d₄ :: d₅ :: d₆ :: d₇ :: data) = _
  rw [applyRounds, word_encode hleft, word_encode hright]

theorem applyRounds_applyRounds {f g : UInt32 × UInt32 → UInt32 × UInt32} (h : ∀ b, g (f b) = b)
    (data : List UInt8) : applyRounds g (applyRounds f data) = data := by
  fun_induction applyRounds f data with
  | case1 d₀ d₁ d₂ d₃ d₄ d₅ d₆ d₇ data left right hround ih =>
    rw [applyRounds_encode, ih, ← hround, h, encode_word, encode_word]
    rfl
  | case2 data hshort =>
    unfold applyRounds
    split
    · exact absurd rfl (hshort _ _ _ _ _ _ _ _ _)
    · rfl

theorem decryptRound_encryptRound (k : Key) (sum nextSum : UInt32) (b : UInt32 × UInt32) :
    decryptRound k nextSum sum (encryptRound k sum nextSum b) = b := by
  obtain ⟨left, right⟩ := b
  simp only [decryptRound, encryptRound, UInt32.add_sub_cancel]

theorem encryptRound_decryptRound (k : Key) (sum nextSum : UInt32) (b : UInt32 × UInt32) :
    encryptRound k sum nextSum (decryptRound k nextSum sum b) = b := by
  obtain ⟨left, right⟩ := b
  simp only [decryptRound, encryptRound, UInt32.sub_add_cancel]

/-! ## The cipher -/

theorem length_encryptRounds (k : Key) (d : UInt32) (n : ℕ) (sum : UInt32) (data : List UInt8) :
    (encryptRounds k d n sum data).length = data.length := by
  induction n generalizing sum data with
  | zero => rw [encryptRounds]
  | succ n ih => rw [encryptRounds, ih, length_applyRounds]

@[simp] theorem length_encrypt (k : Key) (data : List UInt8) : (encrypt k data).length = data.length :=
  length_encryptRounds k delta 32 0 data

theorem length_decryptRounds (k : Key) (d : UInt32) (n : ℕ) (sum : UInt32) (data : List UInt8) :
    (decryptRounds k d n sum data).length = data.length := by
  induction n generalizing sum data with
  | zero => rw [decryptRounds]
  | succ n ih => rw [decryptRounds, ih, length_applyRounds]

@[simp] theorem length_decrypt (k : Key) (data : List UInt8) : (decrypt k data).length = data.length :=
  length_decryptRounds k delta 32 (delta <<< 5) data

/-- The sum after `n` rounds. -/
def sumAfter (d : UInt32) : ℕ → UInt32 → UInt32
  | 0, sum => sum
  | n + 1, sum => sumAfter d n (sum + d)

theorem sumAfter_succ (d : UInt32) (n : ℕ) (sum : UInt32) : sumAfter d (n + 1) sum = sumAfter d n sum + d := by
  induction n generalizing sum with
  | zero => simp only [sumAfter]
  | succ n ih => rw [sumAfter, ih, ← sumAfter]

theorem decryptRounds_succ (k : Key) (d : UInt32) (n : ℕ) (sum : UInt32) (data : List UInt8) :
    decryptRounds k d (n + 1) (sumAfter d (n + 1) sum) data = applyRounds (decryptRound k (sum + d) sum)
        (decryptRounds k d n (sumAfter d n (sum + d)) data) := by
  induction n generalizing data with
  | zero => simp only [decryptRounds, sumAfter, UInt32.add_sub_cancel]
  | succ n ih =>
    have hfirst : sumAfter d (n + 1 + 1) sum - d = sumAfter d (n + 1) sum := by
      rw [sumAfter_succ d (n + 1), UInt32.add_sub_cancel]
    have hshift : ∀ n, sumAfter d n (sum + d) = sumAfter d (n + 1) sum := fun n => by rw [sumAfter]
    have hunfold : ∀ n s data, decryptRounds k d (n + 1) s data =
        decryptRounds k d n (s - d) (applyRounds (decryptRound k s (s - d)) data) :=
          fun n s data => by
      rw [decryptRounds]
    rw [hunfold (n + 1), hfirst, ih, hshift (n + 1), hunfold n, hfirst, hshift n]

theorem decryptRounds_encryptRounds (k : Key) (d : UInt32) (n : ℕ) (sum : UInt32) (data : List UInt8) :
    decryptRounds k d n (sumAfter d n sum) (encryptRounds k d n sum data) = data := by
  induction n generalizing sum data with
  | zero => rw [decryptRounds, encryptRounds]
  | succ n ih =>
    rw [decryptRounds_succ, encryptRounds, ih]
    exact applyRounds_applyRounds (decryptRound_encryptRound k sum (sum + d)) data

theorem encryptRounds_decryptRounds (k : Key) (d : UInt32) (n : ℕ) (sum : UInt32) (data : List UInt8) :
    encryptRounds k d n sum (decryptRounds k d n (sumAfter d n sum) data) = data := by
  induction n generalizing sum data with
  | zero => rw [decryptRounds, encryptRounds]
  | succ n ih =>
    have hround : ∀ data, applyRounds (encryptRound k sum (sum + d))
        (applyRounds (decryptRound k (sum + d) sum) data) = data := fun data =>
      applyRounds_applyRounds (encryptRound_decryptRound k sum (sum + d)) data
    rw [decryptRounds_succ, encryptRounds, hround, ih]

theorem sumAfter_eq (d : UInt32) (n : ℕ) (sum : UInt32) : sumAfter d n sum = sum + UInt32.ofNat n * d := by
  induction n generalizing sum with
  | zero => simp [sumAfter]
  | succ n ih =>
    rw [sumAfter, ih, UInt32.ofNat_add, UInt32.add_mul, UInt32.add_assoc, UInt32.add_comm (UInt32.ofNat n * d)]
    simp

theorem delta_shift : delta <<< 5 = sumAfter delta 32 0 := by
  rw [sumAfter_eq]
  decide

theorem decrypt_encrypt (k : Key) (data : List UInt8) : decrypt k (encrypt k data) = data := by
  rw [decrypt, encrypt, delta_shift]
  exact decryptRounds_encryptRounds k delta 32 0 data

theorem encrypt_decrypt (k : Key) (data : List UInt8) : encrypt k (decrypt k data) = data := by
  rw [decrypt, encrypt, delta_shift]
  exact encryptRounds_decryptRounds k delta 32 0 data

end ForgottenServer.Net.Xtea
