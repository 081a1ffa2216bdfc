import Millennium.Lib.Base64

/-!
# Encrypted settings

`Crypto::encrypt` packs a random nonce, the tag and the ciphertext of AES-256-GCM, writes them in
Base64 and puts a mark in front. The cipher is taken as given; the packing and the two Base64 loops
are those of the source.
-/

namespace Millennium.System.Crypto

open Bytes Base64 List Nat

/-- `base64_encode`: three octets are 24 bits, and each six of them a character. -/
def base64Encode : Octets → Octets
  | [] => []
  | [a] =>
    let n := a.toNat <<< 16
    [charOf (n >>> 18 &&& 0x3F), charOf (n >>> 12 &&& 0x3F), pad, pad]
  | [a, b] =>
    let n := a.toNat <<< 16 ||| b.toNat <<< 8
    [charOf (n >>> 18 &&& 0x3F), charOf (n >>> 12 &&& 0x3F), charOf (n >>> 6 &&& 0x3F), pad]
  | a :: b :: c :: rest =>
    let n := a.toNat <<< 16 ||| b.toNat <<< 8 ||| c.toNat
    charOf (n >>> 18 &&& 0x3F) :: charOf (n >>> 12 &&& 0x3F) :: charOf (n >>> 6 &&& 0x3F) ::
      charOf (n &&& 0x3F) :: base64Encode rest

structure BitReader where
  out : Octets
  bits : Nat
  bitCount : Nat
  deriving Repr, DecidableEq

/-- Six more bits; where there are eight, they are an octet. -/
def BitReader.push (r : BitReader) (v : Nat) : BitReader :=
  let bits := r.bits <<< 6 % 2 ^ 32 ||| v
  let bitCount := r.bitCount + 6
  if 8 ≤ bitCount then ⟨r.out ++ [UInt8.ofNat (bits >>> (bitCount - 8))], bits, bitCount - 8⟩
  else ⟨r.out, bits, bitCount⟩

/-- The loop of `base64_decode`. It ends at `=`, and skips what is not in the alphabet. -/
def base64DecodeFrom : Octets → BitReader → Octets
  | [], r => r.out
  | c :: rest, r =>
    if c = pad then r.out
    else
      match bitsOf c with
      | none => base64DecodeFrom rest r
      | some v => base64DecodeFrom rest (r.push v)

def base64Decode (s : Octets) : Octets := base64DecodeFrom s ⟨[], 0, 0⟩

abbrev Nonce := { iv : Octets // iv.length = 12 }

/-- AES-256-GCM with the machine's key, for texts whose length an `int` holds. -/
structure Gcm where
  encrypt : Octets → Octets → Octets × Octets
  decrypt : Octets → Octets → Octets → Option Octets
  length_ciphertext : ∀ iv text, text.length < 2 ^ 31 → (encrypt iv text).1.length = text.length
  length_tag : ∀ iv text, (encrypt iv text).2.length = 16
  decrypt_encrypt : ∀ iv text, text.length < 2 ^ 31 →
    decrypt iv (encrypt iv text).2 (encrypt iv text).1 = some text

section
variable (cipher : Gcm)

def blobPrefix : Octets := ascii "MGCRYPT:v1:"

def isEncrypted (value : Octets) : Bool :=
  blobPrefix.length < value.length ∧ blobPrefix <+: value

/-- `Crypto::encrypt`. There is no nonce without the random generator or the cipher's context. -/
def encrypt (nonce : Option Nonce) (plaintext : Octets) : Octets :=
  if plaintext = [] then []
  else
    match nonce with
    | none => []
    | some iv =>
      let (ciphertext, tag) := cipher.encrypt iv.val plaintext
      blobPrefix ++ base64Encode (iv.val ++ tag ++ ciphertext)

def decrypt (ciphertext : Octets) : Octets :=
  if isEncrypted ciphertext = false then []
  else
    let decoded := base64Decode (ciphertext.drop blobPrefix.length)
    if decoded.length < 29 then []
    else (cipher.decrypt (decoded.take 12) (slice decoded 12 16) (decoded.drop 28)).getD []

end

section

lemma or_group (a b c : Nat) (hb : b < 256) (hc : c < 256) :
    a <<< 16 ||| b <<< 8 ||| c = a * 65536 + b * 256 + c := by
  have hlow : b * 2 ^ 8 < 2 ^ 16 := by omega
  have hab : a <<< 16 ||| b <<< 8 = (a * 256 + b) * 2 ^ 8 := by
    rw [shiftLeft_eq, shiftLeft_eq, Nat.or_comm, or_field a hlow]
    omega
  rw [hab, Nat.or_comm, or_field _ hc]
  omega

lemma group_digits (a b c : Nat) (ha : a < 256) (hb : b < 256) (hc : c < 256) :
    (a * 65536 + b * 256 + c) >>> 18 &&& 0x3F = a / 4 ∧
    (a * 65536 + b * 256 + c) >>> 12 &&& 0x3F = a % 4 * 16 + b / 16 ∧
    (a * 65536 + b * 256 + c) >>> 6 &&& 0x3F = b % 16 * 4 + c / 64 ∧
    a * 65536 + b * 256 + c &&& 0x3F = c % 64 := by
  have hand (n : Nat) : n &&& 0x3F = n % 64 := and_two_pow_sub_one_eq_mod n 6
  simp only [hand]
  omega

end

lemma base64Encode_eq (data : Octets) : base64Encode data = Base64.encode data := by
  induction data using base64Encode.induct with
  | case1 => rfl
  | case2 a =>
    have hgroup := or_group a.toNat 0 0 (by decide) (by decide)
    obtain ⟨h₁, h₂, -⟩ := group_digits a.toNat 0 0 a.toNat_lt (by decide) (by decide)
    rw [zero_shiftLeft, or_zero, or_zero] at hgroup
    rw [base64Encode, hgroup, h₁, h₂]
    rfl
  | case3 a b =>
    have hgroup := or_group a.toNat b.toNat 0 b.toNat_lt (by decide)
    obtain ⟨h₁, h₂, h₃, -⟩ := group_digits a.toNat b.toNat 0 a.toNat_lt b.toNat_lt (by decide)
    rw [or_zero] at hgroup
    rw [base64Encode, hgroup, h₁, h₂, h₃]
    rfl
  | case4 a b c rest ih =>
    have hgroup := or_group a.toNat b.toNat c.toNat b.toNat_lt c.toNat_lt
    obtain ⟨h₁, h₂, h₃, h₄⟩ :=
      group_digits a.toNat b.toNat c.toNat a.toNat_lt b.toNat_lt c.toNat_lt
    rw [base64Encode, hgroup, h₁, h₂, h₃, h₄, ih]
    rfl

/-- What a reader has written, and the bits that it still holds. -/
structure BitReader.Holds (r : BitReader) (out : Octets) (count held : Nat) : Prop where
  out_eq : r.out = out
  count_eq : r.bitCount = count
  held_eq : r.bits % 2 ^ count = held

section
variable {r : BitReader} {out : Octets} {held v : Nat}

lemma ofNat_eq {n : Nat} {a : UInt8} (h : n % 256 = a.toNat) : UInt8.ofNat n = a := by
  apply UInt8.toNat_inj.mp
  exact h

lemma push_bits {bits : Nat} (hv : v < 64) :
    bits <<< 6 % 2 ^ 32 ||| v = bits * 64 % 2 ^ 32 + v := by
  have hhigh : bits <<< 6 % 2 ^ 32 = bits * 64 % 2 ^ 32 / 64 * 2 ^ 6 := by
    omega
  rw [hhigh, Nat.or_comm, or_field _ hv]
  omega

lemma BitReader.Holds.push_empty (h : r.Holds out 0 held) (hv : v < 64) :
    (r.push v).Holds out 6 v := by
  unfold BitReader.push
  rw [h.count_eq, push_bits hv, if_neg (by decide)]
  refine ⟨h.out_eq, rfl, ?_⟩
  dsimp only
  omega

lemma BitReader.Holds.push {count : Nat} (h : r.Holds out (count + 2) held) (hv : v < 64)
    (hcount : count = 0 ∨ count = 2 ∨ count = 4) :
    (r.push v).Holds (out ++ [UInt8.ofNat ((held * 64 + v) / 2 ^ count)]) count
      (v % 2 ^ count) := by
  obtain ⟨rfl, hcount', hheld⟩ := h
  unfold BitReader.push
  rw [hcount', push_bits hv, if_pos (by omega)]
  refine ⟨?_, by simp, ?_⟩
  · dsimp only
    rw [ofNat_eq]
    rw [UInt8.toNat_ofNat', shiftRight_eq_div_pow]
    rcases hcount with rfl | rfl | rfl
    all_goals omega
  · dsimp only
    rcases hcount with rfl | rfl | rfl
    all_goals omega

lemma base64DecodeFrom_charOf {rest : Octets} (hv : v < 64) :
    base64DecodeFrom (charOf v :: rest) r = base64DecodeFrom rest (r.push v) := by
  rw [base64DecodeFrom, if_neg (charOf_ne_pad hv), bitsOf_charOf hv]

lemma base64DecodeFrom_pad {rest : Octets} : base64DecodeFrom (pad :: rest) r = r.out := by
  rw [base64DecodeFrom, if_pos rfl]

end

lemma base64DecodeFrom_encode (data : Octets) {r : BitReader} {out : Octets} {held : Nat}
    (h : r.Holds out 0 held) : base64DecodeFrom (Base64.encode data) r = out ++ data := by
  induction data using base64Encode.induct generalizing r out held with
  | case1 =>
    rw [Base64.encode, base64DecodeFrom, h.out_eq, append_nil]
  | case2 a =>
    have ha := a.toNat_lt
    have h₂ := (h.push_empty (v := a.toNat / 4) (by omega)).push (v := a.toNat % 4 * 16)
      (by omega) (.inr (.inr rfl))
    rw [Base64.encode, base64DecodeFrom_charOf (by omega), base64DecodeFrom_charOf (by omega),
      base64DecodeFrom_pad, h₂.out_eq, ofNat_eq]
    omega
  | case3 a b =>
    have ha := a.toNat_lt
    have hb := b.toNat_lt
    have h₂ := (h.push_empty (v := a.toNat / 4) (by omega)).push
      (v := a.toNat % 4 * 16 + b.toNat / 16) (by omega) (.inr (.inr rfl))
    have h₃ := h₂.push (v := b.toNat % 16 * 4) (by omega) (.inr (.inl rfl))
    rw [Base64.encode, base64DecodeFrom_charOf (by omega), base64DecodeFrom_charOf (by omega),
      base64DecodeFrom_charOf (by omega), base64DecodeFrom_pad, h₃.out_eq,
      ofNat_eq (a := a) (by omega), ofNat_eq (a := b) (by omega), append_assoc]
    rfl
  | case4 a b c rest ih =>
    have ha := a.toNat_lt
    have hb := b.toNat_lt
    have hc := c.toNat_lt
    have h₂ := (h.push_empty (v := a.toNat / 4) (by omega)).push
      (v := a.toNat % 4 * 16 + b.toNat / 16) (by omega) (.inr (.inr rfl))
    have h₃ := h₂.push (v := b.toNat % 16 * 4 + c.toNat / 64) (by omega) (.inr (.inl rfl))
    have h₄ := h₃.push (v := c.toNat % 64) (by omega) (.inl rfl)
    rw [Base64.encode, base64DecodeFrom_charOf (by omega), base64DecodeFrom_charOf (by omega),
      base64DecodeFrom_charOf (by omega), base64DecodeFrom_charOf (by omega), ih h₄,
      ofNat_eq (a := a) (by omega), ofNat_eq (a := b) (by omega), ofNat_eq (a := c) (by omega)]
    simp

lemma base64Decode_encode (data : Octets) : base64Decode (base64Encode data) = data := by
  rw [base64Encode_eq, base64Decode, base64DecodeFrom_encode data ⟨rfl, rfl, rfl⟩, nil_append]

lemma length_le_base64Encode (data : Octets) : data.length ≤ (base64Encode data).length := by
  induction data using base64Encode.induct with
  | case1 => exact Nat.le_refl _
  | case2 | case3 => simp [base64Encode]
  | case4 =>
    simp only [base64Encode, length_cons]
    omega

section
variable {cipher : Gcm} {iv : Nonce} {text : Octets}

lemma encrypt_some (h : text ≠ []) : encrypt cipher (some iv) text = blobPrefix ++
    base64Encode (iv.val ++ (cipher.encrypt iv.val text).2 ++ (cipher.encrypt iv.val text).1) := by
  rw [encrypt, if_neg h]

lemma isEncrypted_encrypt (h : text ≠ []) : isEncrypted (encrypt cipher (some iv) text) = true := by
  have hlen := length_le_base64Encode
    (iv.val ++ (cipher.encrypt iv.val text).2 ++ (cipher.encrypt iv.val text).1)
  rw [length_append, length_append] at hlen
  rw [encrypt_some h, isEncrypted, decide_eq_true_iff, length_append]
  exact ⟨by omega, prefix_append _ _⟩

lemma packed_parts {iv tag cipher : Octets} (hiv : iv.length = 12) (htag : tag.length = 16) :
    (iv ++ tag ++ cipher).take 12 = iv ∧ slice (iv ++ tag ++ cipher) 12 16 = tag ∧
    (iv ++ tag ++ cipher).drop 28 = cipher := by
  have hfront : (iv ++ tag).length = 28 := by
    rw [length_append, hiv, htag]
  have hslice := slice_middle iv tag cipher
  rw [hiv, htag] at hslice
  refine ⟨?_, hslice, ?_⟩
  · rw [append_assoc, ← hiv, take_left]
  · rw [← hfront, drop_left]

lemma decrypt_encrypt (h : text ≠ []) (hlen : text.length < 2 ^ 31) :
    decrypt cipher (encrypt cipher (some iv) text) = text := by
  have htag := cipher.length_tag iv.val text
  have hct := cipher.length_ciphertext iv.val text hlen
  have hpos : 0 < text.length := length_pos_iff.mpr h
  have hdecoded : base64Decode ((encrypt cipher (some iv) text).drop blobPrefix.length) =
      iv.val ++ (cipher.encrypt iv.val text).2 ++ (cipher.encrypt iv.val text).1 := by
    rw [encrypt_some h, drop_left, base64Decode_encode]
  have hlong : ¬ (iv.val ++ (cipher.encrypt iv.val text).2 ++
      (cipher.encrypt iv.val text).1).length < 29 := by
    rw [length_append, length_append]
    omega
  obtain ⟨hfirst, hmiddle, hlast⟩ := @packed_parts _ _ (cipher.encrypt iv.val text).1
    iv.property htag
  rw [decrypt, isEncrypted_encrypt h, if_neg (by decide), hdecoded]
  rw [if_neg hlong, hfirst, hmiddle, hlast, cipher.decrypt_encrypt iv.val text hlen,
    Option.getD_some]

end

end Millennium.System.Crypto
