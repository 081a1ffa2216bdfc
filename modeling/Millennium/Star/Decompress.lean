import Millennium.Lib.Lz4
import Millennium.Lib.Outcome
import Millennium.Star.Format

/-!
# `star_decompress`

The loader's LZ4 decoder, one sequence per step. The output is the list of octets written so far, so
`op` is its length and `op_end` is `origSize`. An access outside a buffer is a `Fault.outOfBounds`
of the model's own.
-/

namespace Millennium.Star

open Bytes Lz4 Outcome List UInt8 Except

def starDecompressMax : Nat := 64 * 1024 * 1024

def readRange (data : Octets) (start length : Nat) : Except Fault Octets :=
  if start + length ≤ data.length then .ok (slice data start length)
  else .error (.outOfBounds start length)

def readByte (src : Octets) (ip : Nat) : Except Fault UInt8 :=
  if ip < src.length then .ok (byteAt src ip) else .error (.outOfBounds ip 1)

def appendOut (origSize : Nat) (out bytes : Octets) : Except Fault Octets :=
  if out.length + bytes.length ≤ origSize then .ok (out ++ bytes)
  else .error (.outOfBounds out.length bytes.length)

/-- The loop `op[i] = match_src[i]`: each octet read has been written before. -/
def copyBytes (origSize offset : Nat) : Nat → Octets → Except Fault Octets
  | 0, out => .ok out
  | n + 1, out =>
    if out.length < origSize ∧ 0 < offset ∧ offset ≤ out.length then
      copyBytes origSize offset n (out ++ [byteAt out (out.length - offset)])
    else .error (.outOfBounds out.length 1)

/-- The extension loop of a length, for the room left in the output. The end of the input stops it.
-/
def extendLength (src : Octets) (limit : Nat) (message : String) (ip len : Nat) :
    Except Fault (Nat × Nat) :=
  if ip < src.length then
    let b := byteAt src ip
    let len := len + b.toNat
    if limit < len then .error (.runtimeError message)
    else if b ≠ 255 then .ok (ip + 1, len)
    else extendLength src limit message (ip + 1) len
  else .ok (ip, len)
termination_by src.length - ip

/-- A length whose nibble is full goes on in the input, from `base` on. -/
def readLength (src : Octets) (limit : Nat) (message : String) (nibble base ip : Nat) :
    Except Fault (Nat × Nat) :=
  if nibble = 15 then extendLength src limit message ip base else .ok (ip, base)

def copyLiterals (src : Octets) (origSize : Nat) (token : UInt8) (ip : Nat) (out : Octets) :
    Except Fault (Nat × Octets) := do
  let nibble := (token >>> 4).toNat
  let (ip, litLen) ← readLength src (origSize - out.length) "star_decompress: literal overflow"
    nibble nibble ip
  if origSize < out.length + litLen ∨ src.length < ip + litLen then
    .error (.runtimeError "star_decompress: literal overflow")
  else
    let bytes ← readRange src ip litLen
    let out ← appendOut origSize out bytes
    .ok (ip + litLen, out)

def applyMatch (src : Octets) (origSize : Nat) (token : UInt8) (ip : Nat) (out : Octets) :
    Except Fault (Nat × Octets) := do
  if src.length < ip + 2 then
    .error (.runtimeError "star_decompress: truncated match offset")
  else
    let b₀ ← readByte src ip
    let b₁ ← readByte src (ip + 1)
    let offset := b₀.toNat ||| b₁.toNat <<< 8
    if offset = 0 then .error (.runtimeError "star_decompress: zero match offset")
    else
      let nibble := (token &&& 0xF).toNat
      let (ip, matchLen) ← readLength src (origSize - out.length)
        "star_decompress: match overflow" nibble (nibble + 4) (ip + 2)
      if origSize < out.length + matchLen then
        .error (.runtimeError "star_decompress: match overflow")
      else if out.length < offset then
        .error (.runtimeError "star_decompress: invalid match offset")
      else
        let out ← copyBytes origSize offset matchLen out
        .ok (ip, out)

inductive Turn where
  | done (out : Octets)
  | next (ip : Nat) (out : Octets)
  deriving Repr, DecidableEq

/-- One turn of the loop: a token, its literals and, unless the input ends, its match. -/
def decodeSequence (src : Octets) (origSize ip : Nat) (out : Octets) : Except Fault Turn := do
  let token ← readByte src ip
  let (ip, out) ← copyLiterals src origSize token (ip + 1) out
  if src.length ≤ ip then .ok (.done out)
  else
    let (ip, out) ← applyMatch src origSize token ip out
    .ok (.next ip out)

variable {src out out' rest : Octets} {limit ip len ip' origSize offset : Nat} {message : String}

lemma extendLength_le {len' : Nat} (h : extendLength src limit message ip len = .ok (ip', len')) :
    ip ≤ ip' := by
  fun_induction extendLength src limit message ip len with
  | case1 => cases h
  | case2 | case4 =>
    simp only [ok.injEq, Prod.mk.injEq] at h
    omega
  | case3 ip len hlt b l hlim hb ih =>
    have := ih h
    omega

lemma readLength_le {nibble base : Nat}
    (h : readLength src limit message nibble base ip = .ok (ip', len)) : ip ≤ ip' := by
  unfold readLength at h
  split at h
  · exact extendLength_le h
  · simp only [ok.injEq, Prod.mk.injEq] at h
    omega

lemma copyLiterals_le {token : UInt8}
    (h : copyLiterals src origSize token ip out = .ok (ip', out')) :
    ip ≤ ip' := by
  obtain ⟨⟨ip₁, len⟩, hlen, h⟩ := bind_eq_ok_iff.mp h
  obtain ⟨-, h⟩ := guard_eq_ok h
  obtain ⟨bytes, -, h⟩ := bind_eq_ok_iff.mp h
  obtain ⟨out₁, -, h⟩ := bind_eq_ok_iff.mp h
  have hip := readLength_le hlen
  simp only [ok.injEq, Prod.mk.injEq] at h
  omega

lemma applyMatch_lt {token : UInt8} (h : applyMatch src origSize token ip out = .ok (ip', out')) :
    ip < ip' := by
  obtain ⟨-, h⟩ := guard_eq_ok h
  obtain ⟨b₀, -, h⟩ := bind_eq_ok_iff.mp h
  obtain ⟨b₁, -, h⟩ := bind_eq_ok_iff.mp h
  obtain ⟨-, h⟩ := guard_eq_ok h
  obtain ⟨⟨ip₁, len⟩, hlen, h⟩ := bind_eq_ok_iff.mp h
  obtain ⟨-, h⟩ := guard_eq_ok h
  obtain ⟨-, h⟩ := guard_eq_ok h
  obtain ⟨out₁, -, h⟩ := bind_eq_ok_iff.mp h
  have hip := readLength_le hlen
  simp only [ok.injEq, Prod.mk.injEq] at h
  omega

lemma decodeSequence_advances (h : decodeSequence src origSize ip out = .ok (.next ip' out')) :
    ip < ip' := by
  obtain ⟨token, -, h⟩ := bind_eq_ok_iff.mp h
  obtain ⟨⟨ip₁, out₁⟩, hlit, h⟩ := bind_eq_ok_iff.mp h
  have h₁ := copyLiterals_le hlit
  by_cases hend : src.length ≤ ip₁
  · simp [hend] at h
  · simp only [hend] at h
    obtain ⟨⟨ip₂, out₂⟩, hmat, h⟩ := bind_eq_ok_iff.mp h
    have h₂ := applyMatch_lt hmat
    simp only [ok.injEq, Turn.next.injEq] at h
    omega

def decodeFrom (src : Octets) (origSize ip : Nat) (out : Octets) : Except Fault Octets :=
  if ip < src.length then
    match _h : decodeSequence src origSize ip out with
    | .error e => .error e
    | .ok (.done out) => .ok out
    | .ok (.next ip' out) => decodeFrom src origSize ip' out
  else .ok out
termination_by src.length - ip
decreasing_by
  have := decodeSequence_advances _h
  omega

def starDecompress (src : Octets) : Except Fault Octets :=
  if src.length < 4 then .error (.runtimeError "star_decompress: input too short")
  else
    let origSize := (readU32Le src).toNat
    if starDecompressMax < origSize then
      .error (.runtimeError "star_decompress: decompressed size exceeds 64 MB limit")
    else decodeFrom src origSize 4 []

def Cursor (src : Octets) (ip : Nat) (rest : Octets) : Prop :=
  ip + rest.length = src.length ∧ src.drop ip = rest

lemma Cursor.advance (a : Octets) (h : Cursor src ip (a ++ rest)) :
    Cursor src (ip + a.length) rest := by
  obtain ⟨hlen, hdrop⟩ := h
  constructor
  · rw [length_append] at hlen
    omega
  · rw [← drop_drop, hdrop, drop_left]

lemma Cursor.tail {b : UInt8} (h : Cursor src ip (b :: rest)) : Cursor src (ip + 1) rest :=
  Cursor.advance [b] h

lemma Cursor.byteAt (h : Cursor src ip rest) (i : Nat) : byteAt src (ip + i) = byteAt rest i := by
  rw [← h.2, byteAt_drop]

lemma Cursor.readByte {b : UInt8} (h : Cursor src ip (b :: rest)) : readByte src ip = .ok b := by
  have hb := h.byteAt 0
  have hlen := h.1
  rw [length_cons] at hlen
  rw [Star.readByte, if_pos (by omega)]
  exact congrArg _ hb

lemma Cursor.readRange {a : Octets} (h : Cursor src ip (a ++ rest)) :
    readRange src ip a.length = .ok a := by
  have hlen := h.1
  rw [length_append] at hlen
  rw [Star.readRange, if_pos (by omega), slice, h.2, take_left]

lemma extendLength_extension (n : Nat) (h : Cursor src ip (extension n ++ rest))
    (hroom : len + n ≤ limit) :
    extendLength src limit message ip len = .ok (ip + (extension n).length, len + n) := by
  induction n using Nat.strong_induction_on generalizing ip len with
  | _ n ih =>
    rw [extension] at h ⊢
    by_cases hn : n < 255
    · rw [if_pos hn] at h ⊢
      have hb : byteAt src ip = ofNat n := h.byteAt 0
      have hv : (ofNat n).toNat = n := by
        rw [toNat_ofNat']
        omega
      have hne : ofNat n ≠ 255 := by
        intro heq
        rw [heq] at hv
        exact absurd hv (by simp; omega)
      have hlen := h.1
      simp only [length_append, length_singleton] at hlen
      rw [extendLength, if_pos (by omega)]
      simp only [hb, hv, length_singleton]
      rw [if_neg (by omega), if_pos hne]
    · rw [if_neg hn] at h ⊢
      have hb : byteAt src ip = 255 := h.byteAt 0
      have hlen := h.1
      simp only [length_append, length_cons] at hlen
      have hrec := @ih (n - 255) (by omega) _ (len + 255) h.tail (by omega)
      rw [extendLength, if_pos (by omega)]
      simp only [hb, show (255 : UInt8).toNat = 255 from rfl, ne_eq, not_true_eq_false, if_false,
        length_cons]
      have hip : ip + 1 + (extension (n - 255)).length =
          ip + ((extension (n - 255)).length + 1) := by omega
      have hsum : len + 255 + (n - 255) = len + n := by omega
      rw [if_neg (by omega), hrec, hip, hsum]

lemma readLength_lengthExt (n extra : Nat) (h : Cursor src ip (lengthExt n ++ rest))
    (hroom : n + extra ≤ limit) :
    readLength src limit message (min n 15) (min n 15 + extra) ip =
    .ok (ip + (lengthExt n).length, n + extra) := by
  unfold readLength
  rw [lengthExt] at h ⊢
  by_cases hn : n < 15
  · rw [if_pos hn]
    rw [if_neg (by omega), Nat.min_eq_left (by omega)]
    rfl
  · rw [if_neg hn] at h ⊢
    rw [if_pos (by omega), extendLength_extension (n - 15) h (by omega)]
    congr 2
    omega

lemma copyLiterals_encoded {lits : Octets} {mat : Nat}
    (h : Cursor src ip (lengthExt lits.length ++ (lits ++ rest)))
    (hroom : out.length + lits.length ≤ origSize) :
    copyLiterals src origSize (token lits.length mat) ip out =
    .ok (ip + (lengthExt lits.length).length + lits.length, out ++ lits) := by
  have hlits := h.advance
  have hlen := hlits.1
  rw [length_append] at hlen
  have hread := @readLength_lengthExt _ _ (origSize - out.length) _
    "star_decompress: literal overflow" lits.length 0 h (by omega)
  unfold copyLiterals
  simp only [token_lit, Nat.add_zero] at hread ⊢
  rw [hread]
  simp only [ok_bind]
  rw [if_neg (by omega), hlits.readRange]
  simp only [ok_bind, appendOut]
  rw [if_pos hroom]
  rfl

lemma copyBytes_eq (n : Nat) (hpos : 0 < offset) (hoff : offset ≤ out.length)
    (hroom : out.length + n ≤ origSize) :
    copyBytes origSize offset n out = .ok (copyMatch offset n out) := by
  induction n generalizing out with
  | zero => rfl
  | succ n ih =>
    rw [copyBytes, if_pos ⟨by omega, hpos, hoff⟩]
    apply ih
    · rw [length_append]
      omega
    · rw [length_append, length_singleton]
      omega

lemma offset_octets (h : offset ≤ 65535) :
    (ofNat offset).toNat ||| (ofNat (offset / 256)).toNat <<< 8 = offset := by
  rw [toNat_ofNat', toNat_ofNat', Nat.shiftLeft_eq, or_field (k := 8) _ (by omega)]
  omega

lemma applyMatch_encoded {lit matchLen : Nat}
    (h : Cursor src ip (leBytes 2 offset ++ (lengthExt (matchLen - 4) ++ rest))) (hpos : 1 ≤ offset)
    (hmax : offset ≤ 65535) (hoff : offset ≤ out.length) (hmatch : 4 ≤ matchLen)
    (hroom : out.length + matchLen ≤ origSize) :
    applyMatch src origSize (token lit (matchLen - 4)) ip out =
    .ok (ip + 2 + (lengthExt (matchLen - 4)).length, copyMatch offset matchLen out) := by
  have hlen := h.1
  simp only [length_append, leBytes_length] at hlen
  have h₀ : Star.readByte src ip = .ok (ofNat offset) := h.readByte
  have h₁ : Star.readByte src (ip + 1) = .ok (ofNat (offset / 256)) :=
    h.tail.readByte
  have hext := h.advance
  rw [leBytes_length] at hext
  have hread := @readLength_lengthExt _ _ (origSize - out.length) _
    "star_decompress: match overflow" (matchLen - 4) 4 hext (by omega)
  have hcopy := copyBytes_eq matchLen (by omega : 0 < offset) hoff hroom
  rw [Nat.sub_add_cancel hmatch] at hread
  unfold applyMatch
  rw [if_neg (by omega), h₀, h₁]
  simp only [ok_bind, offset_octets hmax, token_mat]
  rw [if_neg (by omega), hread]
  simp only [ok_bind]
  rw [if_neg (by omega), if_neg (by omega), hcopy]
  rfl

lemma decodeSequence_encode {s : Seq} (h : Cursor src ip (s.encode ++ rest))
    (hoff : 1 ≤ s.offset ∧ s.offset ≤ 65535 ∧ s.offset ≤ out.length + s.literals.length)
    (hmatch : 4 ≤ s.matchLen) (hroom : out.length + s.literals.length + s.matchLen ≤ origSize) :
    decodeSequence src origSize ip out =
    .ok (.next (ip + s.encode.length) (copyMatch s.offset s.matchLen (out ++ s.literals))) := by
  obtain ⟨hpos, hmax, hback⟩ := hoff
  simp only [Seq.encode, cons_append, append_assoc] at h
  have htok := h.readByte
  have hcopy := @copyLiterals_encoded _ out _ _ origSize _ (s.matchLen - 4) h.tail (by omega)
  have hmat := h.tail.advance.advance
  have hlen := hmat.1
  simp only [length_append, leBytes_length] at hlen
  have happly := @applyMatch_encoded _ (out ++ s.literals) _ _ origSize _ s.literals.length _
    hmat hpos hmax (by rw [length_append]; exact hback) hmatch
    (by rw [length_append]; exact hroom)
  unfold decodeSequence
  rw [htok]
  simp only [ok_bind]
  rw [hcopy]
  simp only [ok_bind]
  rw [if_neg (by omega), happly]
  simp only [ok_bind, Seq.encode, length_cons, length_append, leBytes_length]
  congr 2
  omega

lemma decodeSequence_encodeLast {last : Octets} (h : Cursor src ip (encodeLast last))
    (hroom : out.length + last.length ≤ origSize) :
    decodeSequence src origSize ip out = .ok (.done (out ++ last)) := by
  have htok := h.readByte
  have hlit : Cursor src (ip + 1) (lengthExt last.length ++ (last ++ [])) := by
    simpa using h.tail
  have hcopy := @copyLiterals_encoded _ _ _ _ _ _ 0 hlit hroom
  have hlen := hlit.advance.advance.1
  unfold decodeSequence
  rw [htok]
  simp only [ok_bind, length_nil] at hlen ⊢
  rw [hcopy]
  simp only [ok_bind]
  rw [if_pos (by omega)]

lemma decodeFrom_next (hlt : ip < src.length)
    (h : decodeSequence src origSize ip out = .ok (.next ip' out')) :
    decodeFrom src origSize ip out = decodeFrom src origSize ip' out' := by
  rw [decodeFrom, if_pos hlt]
  split
  · simp_all
  · simp_all
  · rename_i heq
    rw [h] at heq
    simp only [ok.injEq, Turn.next.injEq] at heq
    rw [heq.1, heq.2]

lemma decodeFrom_done (hlt : ip < src.length)
    (h : decodeSequence src origSize ip out = .ok (.done out')) :
    decodeFrom src origSize ip out = .ok out' := by
  rw [decodeFrom, if_pos hlt]
  split
  · simp_all
  · simp_all
  · simp_all

/-- The loop decodes the sequences in order; the output is the expansion of those already read. -/
lemma decodeFrom_encode {last : Octets} (seqs : List Seq)
    (h : Cursor src ip (seqs.flatMap Seq.encode ++ encodeLast last))
    (hvalid : ValidFrom seqs out.length) (hroom : (expandSeqs seqs out ++ last).length ≤ origSize) :
    decodeFrom src origSize ip out = .ok (expandSeqs seqs out ++ last) := by
  induction seqs generalizing ip out with
  | nil =>
    have hlen := h.1
    simp only [flatMap_nil, nil_append, encodeLast, length_cons] at hlen
    simp only [length_append] at hroom
    exact decodeFrom_done (by omega) (decodeSequence_encodeLast h hroom)
  | cons s rest ih =>
    obtain ⟨hoff, hmatch, hrest⟩ := hvalid
    rw [flatMap_cons, append_assoc] at h
    have hgrow := length_le_expandSeqs rest (copyMatch s.offset s.matchLen (out ++ s.literals))
    rw [copyMatch_length, length_append] at hgrow
    rw [expandSeqs] at hroom ⊢
    have hlen := h.1
    have henc : 0 < s.encode.length := by simp [Seq.encode]
    rw [length_append] at hlen
    have hstep := @decodeSequence_encode _ _ _ _ origSize _ h hoff hmatch
      (by rw [length_append] at hroom; omega)
    rw [decodeFrom_next (by omega) hstep]
    apply ih h.advance _ hroom
    rw [copyMatch_length, length_append]
    exact hrest

lemma starDecompress_prependSize (b : Block) (hvalid : b.Valid)
    (hmax : b.expand.length ≤ starDecompressMax) :
    starDecompress (leBytes 4 b.expand.length ++ b.encode) = .ok b.expand := by
  have hsize : (readU32Le (leBytes 4 b.expand.length ++ b.encode)).toNat = b.expand.length := by
    have hlt : b.expand.length < 2 ^ 32 := lt_of_le_of_lt hmax (by decide)
    have hn : (UInt32.ofNat b.expand.length).toNat = b.expand.length := by
      rw [UInt32.toNat_ofNat']
      omega
    have hread := readU32Le_leBytes (UInt32.ofNat b.expand.length) b.encode
    rw [hn] at hread
    rw [hread, hn]
  have hcursor : Cursor (leBytes 4 b.expand.length ++ b.encode) 4 b.encode := by
    constructor
    · simp
    · exact drop_left' (leBytes_length _ _)
  unfold starDecompress
  rw [if_neg (by simp), hsize]
  rw [if_neg (by omega)]
  exact decodeFrom_encode b.seqs hcursor hvalid le_rfl

end Millennium.Star
