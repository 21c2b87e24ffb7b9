import ForgottenServer.Lib.Numerals
import ForgottenServer.Lib.Wire

/-! # Tokens

The codes of an authenticator: some digits out of the HMAC of a counter. What the
HMAC of a message is, is left to OpenSSL. -/
namespace ForgottenServer.Login
open ForgottenServer.Lib.Numerals ForgottenServer.Lib.Wire

/-- The result of an HMAC with SHA-1. -/
abbrev Digest := Vector UInt8 20

def authenticatorDigits : ℕ := 6

/-- The loop that writes a counter: the bytes at `i` and before it, but for the first one. -/
def writeCounter : ℕ → UInt64 → Bytes → Bytes
  | 0, _, mac => mac
  | i + 1, counter, mac => writeCounter i (counter >>> 8) (mac.set (i + 1) (counter % 256).toUInt8)

/-- The message that a counter is made into. -/
def counterBytes (counter : UInt64) : Bytes := writeCounter 7 counter (List.replicate 8 0)

/-- The truncated hash `p`. -/
def truncatedHash (mac : Digest) : UInt32 :=
  let offset := mac.back.toNat % 16
  have hoffset : offset < 16 := Nat.mod_lt _ (by decide)
  (mac[offset].toUInt32 <<< 24) ||| (mac[offset + 1].toUInt32 <<< 16) |||
    (mac[offset + 2].toUInt32 <<< 8) ||| mac[offset + 3].toUInt32

/-- `std::string::substr`: there is none if it begins behind the end, where it throws. -/
def substr (s : List Char) (pos : ℕ) : Option (List Char) :=
  if s.length < pos then none else some (s.drop pos)

/-- `generateToken`. The place where the token begins is a `size_t`. -/
def generateToken (hmac : Bytes → Bytes → Digest) (key : Bytes) (counter : UInt64)
    (length : ℕ := authenticatorDigits) : Option (List Char) :=
  let mac := hmac key (counterBytes counter)
  let p := truncatedHash mac
  let token := Nat.toDigits 10 (p &&& 0x7fffffff).toNat
  substr token ((token.length + 2 ^ 64 - length) % 2 ^ 64)

/-! ## One-time passwords

What a token is for, as RFC 4226 has it. -/

/-- Four bytes from an offset on, in big endian and without the sign. -/
def dynamicTruncation (mac : Digest) : ℕ :=
  decode ((mac.toList.drop (mac.back.toNat % 16)).take 4).reverse % 2 ^ 31

/-- The number that a counter stands for. -/
def hotpValue (hmac : Bytes → Bytes → Digest) (key : Bytes) (counter : UInt64) : ℕ :=
  dynamicTruncation (hmac key (encode 8 counter.toNat).reverse)

/-- The one-time password, with zeros in front. -/
def hotp (hmac : Bytes → Bytes → Digest) (key : Bytes) (counter : UInt64) (digits : ℕ) : List Char :=
  (Nat.toDigits 10 (hotpValue hmac key counter % 10 ^ digits)).leftpad digits '0'

/-! ## Messages -/

section Messages

theorem encode_succ_mod (k n : ℕ) : encode (k + 1) (n % 256 ^ k) = encode k n ++ [0] := by
  induction k generalizing n with
  | zero => simp [encode, Nat.mod_one]
  | succ k ih =>
    have hhead : UInt8.ofNat (n % 256 ^ (k + 1)) = UInt8.ofNat n := by
      rw [← UInt8.toNat_inj, UInt8.toNat_ofNat', UInt8.toNat_ofNat',
        Nat.mod_mod_of_dvd n (dvd_pow_self 256 (Nat.succ_ne_zero k))]
    have hrest : n % 256 ^ (k + 1) / 256 = n / 256 % 256 ^ k := by
      rw [pow_succ', Nat.mod_mul_right_div_self]
    rw [encode, hhead, hrest, ih, encode, List.cons_append]

theorem writeCounter_eq {i : ℕ} (counter : UInt64) {mac : Bytes} (h : i < mac.length) :
    writeCounter i counter mac = mac.take 1 ++ (encode i counter.toNat).reverse ++ mac.drop (i + 1) := by
  induction i generalizing counter mac with
  | zero => rw [writeCounter, encode, List.reverse_nil, List.append_nil, List.take_append_drop]
  | succ i ih =>
    have hbyte : (counter % 256).toUInt8 = UInt8.ofNat counter.toNat := by
      rw [← UInt8.toNat_inj]
      simp
    have hshift : (counter >>> 8).toNat = counter.toNat / 256 := by
      rw [UInt64.toNat_shiftRight, Nat.shiftRight_eq_div_pow]
      rfl
    have htake : (mac.set (i + 1) (counter % 256).toUInt8).take 1 = mac.take 1 := by
      rw [List.take_set_of_le (by omega)]
    have hdrop : (mac.set (i + 1) (counter % 256).toUInt8).drop (i + 1) =
        UInt8.ofNat counter.toNat :: mac.drop (i + 2) := by
      rw [List.drop_set, if_neg (lt_irrefl _), Nat.sub_self, List.drop_eq_getElem_cons h, List.set_cons_zero, hbyte]
    rw [writeCounter, ih _ (by rw [List.length_set]; omega), htake, hdrop, hshift, encode,
      List.reverse_cons, List.append_assoc, List.append_assoc, List.append_assoc,
      List.singleton_append]

theorem counterBytes_eq (counter : UInt64) : counterBytes counter = (encode 8 (counter.toNat % 2 ^ 56)).reverse := by
  have hpow : (2 : ℕ) ^ 56 = 256 ^ 7 := by norm_num
  rw [counterBytes, writeCounter_eq counter (by simp), hpow, encode_succ_mod, List.reverse_append]
  simp

end Messages

/-! ## Truncation -/

section Truncation

theorem toNat_or_of_lt {a b : UInt32} {m i : ℕ} (ha : a.toNat = m * 2 ^ i) (hb : b.toNat < 2 ^ i) :
    (a ||| b).toNat = m * 2 ^ i + b.toNat := by
  rw [UInt32.toNat_or, ha, Nat.mul_comm, Nat.two_pow_add_eq_or_of_lt hb]

theorem toNat_shiftLeft_byte (b : UInt8) {s : UInt32} {i : ℕ} (hs : s.toNat = i) (hi : i ≤ 24) :
    (b.toUInt32 <<< s).toNat = b.toNat * 2 ^ i := by
  have hlt : b.toNat * 2 ^ i < 2 ^ 32 := calc
    b.toNat * 2 ^ i < 2 ^ 8 * 2 ^ i := Nat.mul_lt_mul_of_pos_right b.toNat_lt (Nat.two_pow_pos i)
    _ = 2 ^ (8 + i) := (Nat.pow_add 2 8 i).symm
    _ ≤ 2 ^ 32 := Nat.pow_le_pow_right (by decide) (by omega)
  rw [UInt32.toNat_shiftLeft, hs, Nat.mod_eq_of_lt (show i < 32 by omega), Nat.shiftLeft_eq,
    UInt8.toNat_toUInt32, Nat.mod_eq_of_lt hlt]

theorem toNat_or_bytes (b0 b1 b2 b3 : UInt8) :
    (((b0.toUInt32 <<< 24 ||| b1.toUInt32 <<< 16 ||| b2.toUInt32 <<< 8 ||| b3.toUInt32) &&&
      0x7fffffff).toNat) = decode [b3, b2, b1, b0] % 2 ^ 31 := by
  have h0 := toNat_shiftLeft_byte b0 (s := 24) (i := 24) rfl (le_refl 24)
  have h1 := toNat_shiftLeft_byte b1 (s := 16) (i := 16) rfl (by decide)
  have h2 := toNat_shiftLeft_byte b2 (s := 8) (i := 8) rfl (by decide)
  have hb1 := b1.toNat_lt
  have hb2 := b2.toNat_lt
  have hb3 := b3.toNat_lt
  have h01 := toNat_or_of_lt h0 (b := b1.toUInt32 <<< 16) (by omega)
  have h012 := toNat_or_of_lt (m := b0.toNat * 256 + b1.toNat) (i := 16) (by rw [h01, h1]; omega)
    (b := b2.toUInt32 <<< 8) (by omega)
  have h0123 := toNat_or_of_lt (m := (b0.toNat * 256 + b1.toNat) * 256 + b2.toNat) (i := 8)
    (by rw [h012, h2]; omega) (b := b3.toUInt32) (by rw [UInt8.toNat_toUInt32]; omega)
  have hmask : (0x7fffffff : UInt32).toNat = 2 ^ 31 - 1 := rfl
  rw [UInt32.toNat_and, h0123, hmask, Nat.and_two_pow_sub_one_eq_mod, UInt8.toNat_toUInt32]
  simp only [decode]
  omega

theorem truncatedHash_and (mac : Digest) : (truncatedHash mac &&& 0x7fffffff).toNat = dynamicTruncation mac := by
  have hoffset : mac.back.toNat % 16 < 16 := Nat.mod_lt _ (by decide)
  have hbytes : (mac.toList.drop (mac.back.toNat % 16)).take 4 =
      [mac[mac.back.toNat % 16], mac[mac.back.toNat % 16 + 1], mac[mac.back.toNat % 16 + 2],
        mac[mac.back.toNat % 16 + 3]] := by
    refine List.ext_getElem (by simp; omega) fun j hj _ => ?_
    have hj : j < 4 := by simp at hj; omega
    rw [List.getElem_take, List.getElem_drop, Vector.getElem_toList]
    match j, hj with
    | 0, _ | 1, _ | 2, _ | 3, _ => rfl
  rw [truncatedHash, dynamicTruncation, hbytes]
  exact toNat_or_bytes _ _ _ _

end Truncation

/-! ## Tokens -/

section Tokens
variable (hmac : Bytes → Bytes → Digest) (key : Bytes) (counter : UInt64)

theorem tokenValue : (truncatedHash (hmac key (counterBytes counter)) &&& 0x7fffffff).toNat =
    hotpValue hmac key (UInt64.ofNat (counter.toNat % 2 ^ 56)) := by
  have hlt : counter.toNat % 2 ^ 56 < 2 ^ 64 := by omega
  rw [truncatedHash_and, counterBytes_eq, hotpValue, UInt64.toNat_ofNat_of_lt' hlt]

theorem hotp_eq {digits : ℕ} (h : 0 < digits) :
    hotp hmac key counter digits = lastDigits digits (hotpValue hmac key counter) := by
  rw [hotp, leftpad_toDigits h (Nat.mod_lt _ (Nat.pow_pos (by decide))), lastDigits_eq_iff,
    Nat.mod_mod]

/-- The token is there if its number has enough digits, and then it is the last ones. -/
theorem generateToken_eq {length : ℕ} (hlength : length < 2 ^ 63) : generateToken hmac key counter length =
      if length ≤ (Nat.toDigits 10 (hotpValue hmac key (UInt64.ofNat (counter.toNat % 2 ^ 56)))).length then
        some (lastDigits length (hotpValue hmac key (UInt64.ofNat (counter.toNat % 2 ^ 56))))
      else none := by
  have hfew : (Nat.toDigits 10 (hotpValue hmac key (UInt64.ofNat (counter.toNat % 2 ^ 56)))).length ≤ 10 := by
    rw [Nat.length_toDigits_le_iff (by decide) (by decide)]
    have hlt : hotpValue hmac key (UInt64.ofNat (counter.toNat % 2 ^ 56)) < 2 ^ 31 :=
      Nat.mod_lt _ (by decide)
    omega
  rw [generateToken, tokenValue]
  generalize hotpValue hmac key (UInt64.ofNat (counter.toNat % 2 ^ 56)) = value at hfew ⊢
  split
  · rename_i hle
    have hpos : ((Nat.toDigits 10 value).length + 2 ^ 64 - length) % 2 ^ 64 =
        (Nat.toDigits 10 value).length - length := by omega
    rw [hpos, substr, if_neg (by omega), drop_toDigits hle]
  · rename_i hshort
    rw [substr, if_pos (by omega)]

/-- A token is the one-time password of its counter exactly if the number that is generated has
all the digits, and ends in those of the counter, whose first byte is left out. -/
theorem generateToken_is_hotp_iff : generateToken hmac key counter = some (hotp hmac key counter authenticatorDigits) ↔
      10 ^ 5 ≤ hotpValue hmac key (UInt64.ofNat (counter.toNat % 2 ^ 56)) ∧
        hotpValue hmac key (UInt64.ofNat (counter.toNat % 2 ^ 56)) % 10 ^ 6 = hotpValue hmac key counter % 10 ^ 6 := by
  rw [generateToken_eq _ _ _ (by decide), hotp_eq _ _ _ (by decide), authenticatorDigits]
  generalize hotpValue hmac key (UInt64.ofNat (counter.toNat % 2 ^ 56)) = value
  have hdigits : 6 ≤ (Nat.toDigits 10 value).length ↔ 10 ^ 5 ≤ value := by
    have hfive := Nat.length_toDigits_le_iff (b := 10) (n := value) (k := 5) (by decide) (by decide)
    omega
  split
  · rename_i hle
    rw [hdigits] at hle
    rw [Option.some.injEq, lastDigits_eq_iff]
    exact ⟨fun h => ⟨hle, h⟩, And.right⟩
  · rename_i hlt
    constructor
    · intro h
      cases h
    · exact fun h => absurd (hdigits.mpr h.1) hlt

/-- The HMAC of the counter 10281 under the key `12345678901234567890`. -/
def shortDigest : Digest :=
  #v[8, 99, 141, 128, 1, 105, 139, 66, 88, 225, 21, 233, 102, 184, 179, 121, 173, 58, 64, 83]

/-- The number of this token is 92555, and so there is none. -/
theorem no_token_of_five_digits :
    generateToken (fun _ _ => shortDigest) ((List.range 20).map fun i => 0x30 + .ofNat ((i + 1) % 10)) 10281 = none ∧
      hotp (fun _ _ => shortDigest) ((List.range 20).map fun i => 0x30 + .ofNat ((i + 1) % 10))
        10281 authenticatorDigits = ['0', '9', '2', '5', '5', '5'] := by
  decide

end Tokens
end ForgottenServer.Login
