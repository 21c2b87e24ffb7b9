import ForgottenServer.Lib.Positional
import ForgottenServer.Login.Authentication

/-! # Secrets

The key of an authenticator is kept as base32 text. -/
namespace ForgottenServer.Login
open ForgottenServer.Lib.Positional ForgottenServer.Lib.Wire

/-! ## Base32

What the text is for, as RFC 4648 has it. -/

def alphabet : Text :=
  ['A', 'B', 'C', 'D', 'E', 'F', 'G', 'H', 'I', 'J', 'K', 'L', 'M', 'N', 'O', 'P', 'Q', 'R', 'S',
    'T', 'U', 'V', 'W', 'X', 'Y', 'Z', '2', '3', '4', '5', '6', '7']

def letter (d : ℕ) : Char := alphabet.getD d 'A'

/-- Groups of five bits: all that have a bit of the bytes. -/
def groups (b : Bytes) : ℕ := (8 * b.length + 4) / 5

/-- The bits of all bytes, one behind the other, filled up with zeros to whole groups. -/
def base32 (b : Bytes) : Text :=
  (digits 5 (groups b) (value 8 (b.map UInt8.toNat) * 2 ^ (5 * groups b - 8 * b.length))).map letter

example : base32 ("foobar".toList.map Char.toUInt8) = "MZXW6YTBOI".toList := by decide

theorem letter_cases {d : ℕ} (h : d < 32) :
    (('A' ≤ letter d ∧ letter d ≤ 'Z') ∧ ((letter d).val &&& 0x1F) - 1 = UInt32.ofNat d) ∨
      ¬('A' ≤ letter d ∧ letter d ≤ 'Z') ∧ ('2' ≤ letter d ∧ letter d ≤ '7') ∧
        (letter d).val - 24 = UInt32.ofNat d := by
  have hall : ∀ d < 32, (('A' ≤ letter d ∧ letter d ≤ 'Z') ∧ ((letter d).val &&& 0x1F) - 1 = UInt32.ofNat d) ∨
        ¬('A' ≤ letter d ∧ letter d ≤ 'Z') ∧ ('2' ≤ letter d ∧ letter d ≤ '7') ∧
          (letter d).val - 24 = UInt32.ofNat d := by decide
  exact hall d h

theorem decodeLoop_letter {d : ℕ} (h : d < 32) (buffer left : UInt32) (key : Bytes) (secret : Text) :
    decodeLoop buffer left key (letter d :: secret) =
      let buffer := buffer <<< 5 ||| UInt32.ofNat d
      if 8 ≤ left + 5 then
        decodeLoop buffer (left - 3) (key ++ [(buffer >>> (left - 3)).toUInt8]) secret
      else decodeLoop buffer (left + 5) key secret := by
  rw [decodeLoop]
  rcases letter_cases h with ⟨hrange, hdigit⟩ | ⟨hout, hrange, hdigit⟩
  · rw [if_pos hrange, hdigit]
  · rw [if_neg hout, if_pos hrange, hdigit]

theorem exists_letter {ch : Char} (h : ch ∈ alphabet) : ∃ d < 32, letter d = ch := by
  obtain ⟨d, hd, rfl⟩ := List.mem_iff_getElem.mp h
  exact ⟨d, hd, (List.getElem_eq_getD _).symm⟩

theorem mem_alphabet {ch : Char} {first last : ℕ} (hall : ∀ k < last + 1 - first, Char.ofNat (first + k) ∈ alphabet)
    (hlo : first ≤ ch.toNat) (hhi : ch.toNat ≤ last) : ch ∈ alphabet := by
  have hmem := hall (ch.toNat - first) (by omega)
  rwa [Nat.add_sub_cancel' hlo, Char.ofNat_toNat] at hmem

theorem decodeLoop_broken {ch : Char} (h : ch ∉ alphabet) (buffer left : UInt32) (key : Bytes)
    (secret : Text) : decodeLoop buffer left key (ch :: secret) = [] := by
  rw [decodeLoop, if_neg, if_neg]
  · rintro ⟨hlo, hhi⟩
    exact h (@mem_alphabet ch 50 55 (by decide) (UInt32.le_iff_toNat_le.mp hlo)
      (UInt32.le_iff_toNat_le.mp hhi))
  · rintro ⟨hlo, hhi⟩
    exact h (@mem_alphabet ch 65 90 (by decide) (UInt32.le_iff_toNat_le.mp hlo)
      (UInt32.le_iff_toNat_le.mp hhi))

/-! ## The register -/

/-- What the variables of the loop have to do with the groups that were read. The register
keeps old bits on its left: it is the number of all groups, as far as 32 bits show it. -/
structure Follows (ds : List ℕ) (buffer left : UInt32) (key : Bytes) : Prop where
  buffer_eq : buffer.toNat = value 5 ds % 2 ^ 32
  left_eq : left.toNat = 5 * ds.length % 8
  length_key : key.length = 5 * ds.length / 8
  value_key : value 8 (key.map UInt8.toNat) = value 5 ds / 2 ^ left.toNat

theorem follows_nil : Follows [] 0 0 [] := ⟨rfl, rfl, rfl, rfl⟩

variable {ds : List ℕ} {buffer left digit : UInt32} {key : Bytes}

theorem Follows.shift (h : Follows ds buffer left key) (hdigit : digit.toNat < 32) :
    (buffer <<< 5 ||| digit).toNat = value 5 (ds ++ [digit.toNat]) % 2 ^ 32 := by
  have hfree : buffer.toNat <<< 5 % 2 ^ 32 = 2 ^ 5 * (buffer.toNat % 2 ^ 27) := by
    rw [Nat.shiftLeft_eq]
    omega
  have hor := Nat.two_pow_add_eq_or_of_lt (i := 5) hdigit (buffer.toNat % 2 ^ 27)
  have hbuffer := h.buffer_eq
  rw [UInt32.toNat_or, UInt32.toNat_shiftLeft, value_concat]
  change buffer.toNat <<< 5 % 2 ^ 32 ||| digit.toNat = _
  rw [hfree, ← hor]
  omega

theorem low_byte {shift : UInt32} {n : ℕ} (hbuffer : buffer.toNat = n % 2 ^ 32)
    (hshift : shift.toNat < 8) : (buffer >>> shift).toUInt8.toNat = n / 2 ^ shift.toNat % 2 ^ 8 := by
  have hdvd : 2 ^ shift.toNat * 2 ^ 8 ∣ 2 ^ 32 := by
    rw [← Nat.pow_add]
    exact Nat.pow_dvd_pow 2 (by omega)
  rw [UInt32.toNat_toUInt8, UInt32.toNat_shiftRight, Nat.mod_eq_of_lt (by omega : shift.toNat < 32),
    Nat.shiftRight_eq_div_pow, hbuffer, ← Nat.mod_mul_right_div_self, Nat.mod_mod_of_dvd _ hdvd,
    Nat.mod_mul_right_div_self]

theorem value_div (ds : List ℕ) {d : ℕ} (hd : d < 32) (k : ℕ) :
    value 5 (ds ++ [d]) / 2 ^ (k + 5) = value 5 ds / 2 ^ k := by
  have hgroup : (value 5 ds * 2 ^ 5 + d) / 2 ^ 5 = value 5 ds := by omega
  rw [value_concat, Nat.add_comm k, Nat.pow_add, ← Nat.div_div_eq_div_mul, hgroup]

theorem Follows.toNat_left (h : Follows ds buffer left key) : (left + 5).toNat = left.toNat + 5 := by
  have hleft := h.left_eq
  rw [UInt32.toNat_add]
  change (left.toNat + 5) % 2 ^ 32 = _
  omega

theorem Follows.wait (h : Follows ds buffer left key) (hdigit : digit.toNat < 32) (hleft : ¬ 8 ≤ left + 5) :
    Follows (ds ++ [digit.toNat]) (buffer <<< 5 ||| digit) (left + 5) key := by
  have hlt : ¬ 8 ≤ (left + 5).toNat := fun hle => hleft (UInt32.le_iff_toNat_le.mpr hle)
  have hsum := h.toNat_left
  have hold := h.left_eq
  have hkey := h.length_key
  refine ⟨h.shift hdigit, ?_, ?_, ?_⟩
  · rw [List.length_append, List.length_singleton]
    omega
  · rw [List.length_append, List.length_singleton]
    omega
  · rw [hsum, value_div ds hdigit, h.value_key]

theorem Follows.push (h : Follows ds buffer left key) (hdigit : digit.toNat < 32) (hleft : 8 ≤ left + 5) :
    Follows (ds ++ [digit.toNat]) (buffer <<< 5 ||| digit) (left - 3)
      (key ++ [((buffer <<< 5 ||| digit) >>> (left - 3)).toUInt8]) := by
  have hle : 8 ≤ (left + 5).toNat := UInt32.le_iff_toNat_le.mp hleft
  have hsum := h.toNat_left
  have hrest : (left - 3).toNat = left.toNat - 3 :=
    UInt32.toNat_sub_of_le _ _ (UInt32.le_iff_toNat_le.mpr (by change 3 ≤ left.toNat; omega))
  have hold := h.left_eq
  have hkey := h.length_key
  refine ⟨h.shift hdigit, ?_, ?_, ?_⟩
  · rw [List.length_append, List.length_singleton]
    omega
  · rw [List.length_append, List.length_append, List.length_singleton, List.length_singleton]
    omega
  · have hbyte := low_byte (h.shift hdigit) (by omega : (left - 3).toNat < 8)
    have hfront : value 5 (ds ++ [digit.toNat]) / 2 ^ (left - 3).toNat / 2 ^ 8 = value 5 ds / 2 ^ left.toNat := by
      rw [Nat.div_div_eq_div_mul, ← Nat.pow_add, ← value_div ds hdigit]
      congr 2
      omega
    rw [List.map_append, List.map_singleton, value_concat, h.value_key, hbyte, ← hfront]
    omega

theorem loop_follows {es : List ℕ} (hes : ∀ d ∈ es, d < 32) (h : Follows ds buffer left key) :
    ∃ buffer' left', Follows (ds ++ es) buffer' left' (decodeLoop buffer left key (es.map letter)) := by
  induction es generalizing ds buffer left key with
  | nil => exact ⟨buffer, left, by rwa [List.append_nil]⟩
  | cons d es ih =>
    have hd : d < 32 := hes d List.mem_cons_self
    have htail : ∀ d ∈ es, d < 32 := fun d hd => hes d (List.mem_cons_of_mem _ hd)
    have hdigit : (UInt32.ofNat d).toNat = d := by
      rw [UInt32.toNat_ofNat', Nat.mod_eq_of_lt (by omega)]
    have hsplit : ds ++ d :: es = ds ++ [(UInt32.ofNat d).toNat] ++ es := by
      rw [hdigit, List.append_assoc, List.singleton_append]
    rw [List.map_cons, decodeLoop_letter hd, hsplit]
    dsimp only
    split
    · exact ih htail (h.push (by rwa [hdigit]) ‹_›)
    · exact ih htail (h.wait (by rwa [hdigit]) ‹_›)

theorem loop_broken {secret : Text} {ch : Char} (hch : ch ∈ secret) (hout : ch ∉ alphabet) :
    decodeLoop buffer left key secret = [] := by
  induction secret generalizing buffer left key with
  | nil => cases hch
  | cons first secret ih =>
    by_cases hfirst : first ∈ alphabet
    · have hrest : ch ∈ secret := (List.mem_cons.mp hch).resolve_left fun heq =>
        hout (heq ▸ hfirst)
      obtain ⟨d, hd, rfl⟩ := exists_letter hfirst
      rw [decodeLoop_letter hd]
      dsimp only
      split
      · exact ih hrest
      · exact ih hrest
    · exact decodeLoop_broken hfirst ..

theorem toNat_lt_of_mem {b : Bytes} {d : ℕ} (h : d ∈ b.map UInt8.toNat) : d < 2 ^ 8 := by
  obtain ⟨byte, -, rfl⟩ := List.mem_map.mp h
  exact byte.toNat_lt

theorem bytes_eq {a b : Bytes} (hlen : a.length = b.length)
    (h : value 8 (a.map UInt8.toNat) = value 8 (b.map UInt8.toNat)) : a = b := by
  have hmap := value_inj (by omega) (by rwa [List.length_map, List.length_map])
    (fun _ => toNat_lt_of_mem) (fun _ => toNat_lt_of_mem) h
  exact List.map_injective_iff.mpr (fun _ _ => UInt8.toNat_inj.mp) hmap

/-- The bits that are left over at the end are the zeros of the last group. -/
theorem decodeSecret_base32 (b : Bytes) : decodeSecret (base32 b) = b := by
  obtain ⟨pad, hpad, hshort⟩ : ∃ pad, 5 * groups b = 8 * b.length + pad ∧ pad < 5 :=
    ⟨5 * groups b - 8 * b.length, by rw [groups]; omega⟩
  have hvalue : value 8 (b.map UInt8.toNat) < 2 ^ (8 * b.length) := by
    have hlt := value_lt (by omega) fun d => toNat_lt_of_mem (b := b)
    rwa [List.length_map] at hlt
  obtain ⟨buffer, left, h⟩ : ∃ buffer left, Follows (digits 5 (groups b)
      (value 8 (b.map UInt8.toNat) * 2 ^ (5 * groups b - 8 * b.length))) buffer left
      (decodeSecret (base32 b)) :=
    loop_follows (fun _ => digits_lt) follows_nil
  have hleft := h.left_eq
  have hkey := h.length_key
  have hnumber := h.value_key
  rw [length_digits, hpad] at hleft hkey
  have hpad' : left.toNat = pad := by omega
  have hexact : value 8 (b.map UInt8.toNat) * 2 ^ pad < 2 ^ (8 * b.length + pad) := by
    rw [Nat.pow_add]
    exact Nat.mul_lt_mul_of_pos_right hvalue (Nat.two_pow_pos pad)
  rw [value_digits, hpad, hpad', Nat.add_sub_cancel_left, Nat.mod_eq_of_lt hexact,
    Nat.mul_div_cancel _ (Nat.two_pow_pos pad)] at hnumber
  exact bytes_eq (by omega) hnumber

/-- Base32 text gives back what it stands for, and anything else gives the empty key. -/
theorem secret_decodes : (∀ b, decodeSecret (base32 b) = b) ∧
      ∀ (text : Text) (ch : Char), ch ∈ text → ch ∉ alphabet → decodeSecret text = [] :=
  ⟨decodeSecret_base32, fun _ _ => loop_broken⟩

end ForgottenServer.Login
