import Millennium.Lib.JsonObject

/-!
# MessagePack on the wire

A value is a head, and what the head announces. The encoder takes the shortest head; the decoder
reads every head there is. A double is a float of 32 bits where nothing is lost.
-/

namespace Millennium

open Bytes List UInt8

def beBytes (width n : Nat) : Octets := (leBytes width n).reverse

def beValue (bytes : Octets) : Nat := leValue bytes.reverse

lemma leValue_leBytes {width n : Nat} (h : n < 256 ^ width) : leValue (leBytes width n) = n := by
  induction width generalizing n with
  | zero =>
    rw [Nat.pow_zero, Nat.lt_one_iff] at h
    rw [h]
    rfl
  | succ width ih =>
    have hquot : n / 256 < 256 ^ width := by
      apply Nat.div_lt_of_lt_mul
      rwa [Nat.pow_succ, Nat.mul_comm] at h
    have hlow : (ofNat n).toNat = n % 256 := by simp
    rw [leBytes, leValue, ih hquot]
    omega

@[simp] lemma beBytes_length (width n : Nat) : (beBytes width n).length = width := by
  rw [beBytes, length_reverse, leBytes_length]

lemma beValue_beBytes {width n : Nat} (h : n < 256 ^ width) : beValue (beBytes width n) = n := by
  rw [beValue, beBytes, reverse_reverse, leValue_leBytes h]

/-- The double that a float of 32 bits is, both as their bits. -/
def widen (bits : Nat) : UInt64 :=
  let sign := bits / 2 ^ 31 % 2
  let e := bits / 2 ^ 23 % 256
  let m := bits % 2 ^ 23
  let magnitude :=
    if e = 255 then 2047 * 2 ^ 52 + m * 2 ^ 29
    else if e = 0 then
      if m = 0 then 0 else (m.log2 + 874) * 2 ^ 52 + (m - 2 ^ m.log2) * 2 ^ (52 - m.log2)
    else (e + 896) * 2 ^ 52 + m * 2 ^ 29
  UInt64.ofNat (sign * 2 ^ 63 + magnitude)

/-- The float of 32 bits that a double is, if it is one. -/
def floatBits (bits : UInt64) : Nat :=
  let sign := bits.toNat / 2 ^ 63
  let e := bits.toNat / 2 ^ 52 % 2048
  let m := bits.toNat % 2 ^ 52
  let magnitude :=
    if 897 ≤ e then (e - 896) * 2 ^ 23 + m / 2 ^ 29
    else if 874 ≤ e then (2 ^ 52 + m) / 2 ^ (926 - e)
    else 0
  sign * 2 ^ 31 + magnitude

def narrow (bits : UInt64) : Option Nat :=
  if bits.toNat / 2 ^ 52 % 2048 < 2047 ∧ floatBits bits < 2 ^ 32 ∧ widen (floatBits bits) = bits
  then some (floatBits bits)
  else none

lemma widen_of_narrow {bits : UInt64} {float : Nat} (h : narrow bits = some float) :
    float < 2 ^ 32 ∧ widen float = bits := by
  rw [narrow] at h
  split_ifs at h with hfloat
  cases h
  exact hfloat.2

example : narrow 0x3FF8000000000000 = some 0x3FC00000 := by decide
example : narrow 0x3FB999999999999A = none := by decide

inductive Head where
  | nil
  | boolean (b : Bool)
  | uint (n : Nat)
  | int (n : Int)
  | float (bits : UInt64)
  | text (length : Nat)
  | blob (length : Nat)
  | ext (kind : UInt8) (length : Nat)
  | items (count : Nat)
  | pairs (count : Nat)
  deriving Repr, DecidableEq

/-- A length after the octet for its width. Nothing is written for more than 32 bits. -/
def writeLength (widths : List (UInt8 × Nat)) (n : Nat) : Octets :=
  match widths with
  | [] => []
  | (b, width) :: rest => if n < 256 ^ width then b :: beBytes width n else writeLength rest n

def writeHead : Head → Octets
  | .nil => [0xC0]
  | .boolean false => [0xC2]
  | .boolean true => [0xC3]
  | .uint n =>
    if n < 128 then [ofNat n]
    else writeLength [(0xCC, 1), (0xCD, 2), (0xCE, 4), (0xCF, 8)] n
  | .int n =>
    if -32 ≤ n then [ofNat (n + 256).toNat]
    else if -2 ^ 7 ≤ n then 0xD0 :: beBytes 1 (n + 256 ^ 1).toNat
    else if -2 ^ 15 ≤ n then 0xD1 :: beBytes 2 (n + 256 ^ 2).toNat
    else if -2 ^ 31 ≤ n then 0xD2 :: beBytes 4 (n + 256 ^ 4).toNat
    else 0xD3 :: beBytes 8 (n + 256 ^ 8).toNat
  | .float bits =>
    match narrow bits with
    | some float => 0xCA :: beBytes 4 float
    | none => 0xCB :: beBytes 8 bits.toNat
  | .text n =>
    if n < 32 then [ofNat (0xA0 + n)]
    else writeLength [(0xD9, 1), (0xDA, 2), (0xDB, 4)] n
  | .blob n => writeLength [(0xC4, 1), (0xC5, 2), (0xC6, 4)] n
  | .ext _ _ => []
  | .items n =>
    if n < 16 then [ofNat (0x90 + n)] else writeLength [(0xDC, 2), (0xDD, 4)] n
  | .pairs n =>
    if n < 16 then [ofNat (0x80 + n)] else writeLength [(0xDE, 2), (0xDF, 4)] n

def readWord (width : Nat) (bytes : Octets) : Option (Nat × Octets) :=
  if bytes.length < width then none
  else some (beValue (bytes.take width), bytes.drop width)

def signed (width n : Nat) : Int :=
  if n < 256 ^ width / 2 then n else (n : Int) - 256 ^ width

def readHead : Octets → Option (Head × Octets)
  | [] => none
  | b :: rest =>
    let word (width : Nat) (f : Nat → Head) : Option (Head × Octets) :=
      (readWord width rest).map fun (n, rest) => (f n, rest)
    let kind (n : Nat) : Octets → Option (Head × Octets)
      | [] => none
      | kind :: rest => some (.ext kind n, rest)
    if b.toNat < 0x80 then some (.uint b.toNat, rest)
    else if b.toNat < 0x90 then some (.pairs (b.toNat - 0x80), rest)
    else if b.toNat < 0xA0 then some (.items (b.toNat - 0x90), rest)
    else if b.toNat < 0xC0 then some (.text (b.toNat - 0xA0), rest)
    else if 0xE0 ≤ b.toNat then some (.int ((b.toNat : Int) - 256), rest)
    else
      match b with
      | 0xC0 => some (.nil, rest)
      | 0xC2 => some (.boolean false, rest)
      | 0xC3 => some (.boolean true, rest)
      | 0xC4 => word 1 .blob
      | 0xC5 => word 2 .blob
      | 0xC6 => word 4 .blob
      | 0xC7 => (readWord 1 rest).bind fun (n, rest) => kind n rest
      | 0xC8 => (readWord 2 rest).bind fun (n, rest) => kind n rest
      | 0xC9 => (readWord 4 rest).bind fun (n, rest) => kind n rest
      | 0xCA => word 4 fun n => .float (widen n)
      | 0xCB => word 8 fun n => .float (UInt64.ofNat n)
      | 0xCC => word 1 .uint
      | 0xCD => word 2 .uint
      | 0xCE => word 4 .uint
      | 0xCF => word 8 .uint
      | 0xD0 => word 1 fun n => .int (signed 1 n)
      | 0xD1 => word 2 fun n => .int (signed 2 n)
      | 0xD2 => word 4 fun n => .int (signed 4 n)
      | 0xD3 => word 8 fun n => .int (signed 8 n)
      | 0xD4 => kind 1 rest
      | 0xD5 => kind 2 rest
      | 0xD6 => kind 4 rest
      | 0xD7 => kind 8 rest
      | 0xD8 => kind 16 rest
      | 0xD9 => word 1 .text
      | 0xDA => word 2 .text
      | 0xDB => word 4 .text
      | 0xDC => word 2 .items
      | 0xDD => word 4 .items
      | 0xDE => word 2 .pairs
      | 0xDF => word 4 .pairs
      | _ => none

/-- A head that the encoder writes: a number in its range, a length of at most 32 bits. -/
def Head.Valid : Head → Prop
  | .uint n => n < 2 ^ 64
  | .int n => -2 ^ 63 ≤ n ∧ n < 0
  | .text n | .blob n | .items n | .pairs n => n < 2 ^ 32
  | .ext _ _ => False
  | _ => True

section
variable {rest : Octets}

variable {width n : Nat} {b : UInt8} {f : Nat → Head}

lemma readWord_beBytes (h : n < 256 ^ width) :
    readWord width (beBytes width n ++ rest) = some (n, rest) := by
  have htake : (beBytes width n ++ rest).take width = beBytes width n :=
    take_left' (beBytes_length width n)
  have hdrop : (beBytes width n ++ rest).drop width = rest :=
    drop_left' (beBytes_length width n)
  rw [readWord, htake, hdrop, beValue_beBytes h, if_neg (by simp)]

lemma exists_writeLength {widths : List (UInt8 × Nat)} (h : ∃ w ∈ widths, n < 256 ^ w.2) :
    ∃ w ∈ widths, n < 256 ^ w.2 ∧ writeLength widths n = w.1 :: beBytes w.2 n := by
  induction widths with
  | nil =>
    obtain ⟨w, hw, _⟩ := h
    cases hw
  | cons w widths ih =>
    by_cases hfits : n < 256 ^ w.2
    · exact ⟨w, mem_cons_self, hfits, by rw [writeLength, if_pos hfits]⟩
    · obtain ⟨w', hw', hn⟩ := h
      rcases mem_cons.mp hw' with rfl | hw'
      · exact absurd hn hfits
      · obtain ⟨u, hu, hlt, heq⟩ := ih ⟨w', hw', hn⟩
        exact ⟨u, mem_cons_of_mem w hu, hlt, by rw [writeLength, if_neg hfits, heq]⟩

lemma readHead_word
    (hb : ∀ bytes, readHead (b :: bytes) = (readWord width bytes).map fun (n, rest) => (f n, rest))
    (hn : n < 256 ^ width) :
    readHead (b :: beBytes width n ++ rest) = some (f n, rest) := by
  rw [cons_append, hb, readWord_beBytes hn]
  rfl

lemma readHead_writeLength {widths : List (UInt8 × Nat)}
    (hwidths : ∀ w ∈ widths, ∀ bytes, readHead (w.1 :: bytes) =
    (readWord w.2 bytes).map fun (n, rest) => (f n, rest))
    (h : ∃ w ∈ widths, n < 256 ^ w.2) :
    readHead (writeLength widths n ++ rest) = some (f n, rest) := by
  obtain ⟨w, hw, hn, heq⟩ := exists_writeLength h
  rw [heq]
  exact readHead_word (hwidths w hw) hn

lemma readHead_signed {m : Nat} {n : Int}
    (hb : ∀ bytes, readHead (b :: bytes) =
    (readWord width bytes).map fun (n, rest) => (.int (signed width n), rest))
    (hm : 256 ^ width = 2 * m) (h : -(m : Int) ≤ n) (hneg : n < 0) :
    readHead (b :: beBytes width (n + 256 ^ width).toNat ++ rest) = some (.int n, rest) := by
  have hcast : (256 : Int) ^ width = 2 * m := by exact_mod_cast hm
  have hn : signed width (n + 256 ^ width).toNat = n := by
    rw [signed]
    split_ifs <;> omega
  rw [readHead_word (f := fun n => .int (signed width n)) hb (by omega), hn]

lemma readHead_uint (h : b.toNat < 0x80) : readHead (b :: rest) = some (.uint b.toNat, rest) := by
  exact if_pos h

lemma readHead_pairs (h : 0x80 ≤ b.toNat) (h' : b.toNat < 0x90) :
    readHead (b :: rest) = some (.pairs (b.toNat - 0x80), rest) := by
  exact (if_neg (Nat.not_lt.mpr h)).trans (if_pos h')

lemma readHead_items (h : 0x90 ≤ b.toNat) (h' : b.toNat < 0xA0) :
    readHead (b :: rest) = some (.items (b.toNat - 0x90), rest) := by
  have h₁ : ¬ b.toNat < 0x80 := by omega
  exact (if_neg h₁).trans ((if_neg (Nat.not_lt.mpr h)).trans (if_pos h'))

lemma readHead_text (h : 0xA0 ≤ b.toNat) (h' : b.toNat < 0xC0) :
    readHead (b :: rest) = some (.text (b.toNat - 0xA0), rest) := by
  have h₁ : ¬ b.toNat < 0x80 := by omega
  have h₂ : ¬ b.toNat < 0x90 := by omega
  exact (if_neg h₁).trans ((if_neg h₂).trans ((if_neg (Nat.not_lt.mpr h)).trans (if_pos h')))

lemma readHead_int (h : 0xE0 ≤ b.toNat) :
    readHead (b :: rest) = some (.int ((b.toNat : Int) - 256), rest) := by
  have h₁ : ¬ b.toNat < 0x80 := by omega
  have h₂ : ¬ b.toNat < 0x90 := by omega
  have h₃ : ¬ b.toNat < 0xA0 := by omega
  have h₄ : ¬ b.toNat < 0xC0 := by omega
  exact (if_neg h₁).trans ((if_neg h₂).trans ((if_neg h₃).trans ((if_neg h₄).trans (if_pos h))))

lemma toNat_ofNat_of_lt (h : n < 256) : (ofNat n).toNat = n := by
  rw [toNat_ofNat', Nat.mod_eq_of_lt h]

lemma readHead_short {base bound : Nat} {long : Octets} (hbound : base + bound ≤ 256)
    (hshort : ∀ b : UInt8, base ≤ b.toNat → b.toNat < base + bound →
      readHead (b :: rest) = some (f (b.toNat - base), rest))
    (hlong : readHead (long ++ rest) = some (f n, rest)) :
    readHead ((if n < bound then [ofNat (base + n)] else long) ++ rest) =
      some (f n, rest) := by
  split_ifs with hn
  · have hb := toNat_ofNat_of_lt (n := base + n) (by omega)
    rw [singleton_append, hshort _ (by omega) (by omega), hb, Nat.add_sub_cancel_left]
  · exact hlong

lemma readHead_writeHead_int {n : Int} (h : (Head.int n).Valid) :
    readHead (writeHead (.int n) ++ rest) = some (.int n, rest) := by
  obtain ⟨hlow, hneg⟩ := h
  rw [writeHead]
  split_ifs with h₁ h₂ h₃ h₄
  · have hb := toNat_ofNat_of_lt (n := (n + 256).toNat) (by omega)
    rw [singleton_append, readHead_int (by omega)]
    congr 3
    omega
  · exact readHead_signed (m := 2 ^ 7) (fun _ => rfl) (by norm_num) h₂ hneg
  · exact readHead_signed (m := 2 ^ 15) (fun _ => rfl) (by norm_num) h₃ hneg
  · exact readHead_signed (m := 2 ^ 31) (fun _ => rfl) (by norm_num) h₄ hneg
  · exact readHead_signed (m := 2 ^ 63) (fun _ => rfl) (by norm_num) hlow hneg

lemma readHead_writeHead_float (bits : UInt64) :
    readHead (writeHead (.float bits) ++ rest) = some (.float bits, rest) := by
  rw [writeHead]
  cases hnarrow : narrow bits with
  | some =>
    obtain ⟨hlt, hwiden⟩ := widen_of_narrow hnarrow
    rw [← hwiden]
    exact readHead_word (f := fun n => .float (widen n)) (fun _ => rfl) hlt
  | none =>
    have hbits : UInt64.ofNat bits.toNat = bits := UInt64.ofNat_toNat
    have hlt : bits.toNat < 256 ^ 8 := bits.toNat_lt
    have hread : readHead (0xCB :: beBytes 8 bits.toNat ++ rest) =
        some (.float (UInt64.ofNat bits.toNat), rest) :=
      readHead_word (f := fun n => .float (UInt64.ofNat n)) (fun _ => rfl) hlt
    rw [hread, hbits]

lemma readHead_writeHead (head : Head) (h : head.Valid) :
    readHead (writeHead head ++ rest) = some (head, rest) := by
  cases head with
  | nil => rfl
  | boolean b => cases b <;> rfl
  | ext => exact h.elim
  | int => exact readHead_writeHead_int h
  | float bits => exact readHead_writeHead_float bits
  | uint n =>
    rw [writeHead]
    split_ifs with hn
    · have hb := toNat_ofNat_of_lt (n := n) (by omega)
      rw [singleton_append, readHead_uint (by omega), hb]
    · apply readHead_writeLength
      · simp only [forall_mem_cons]
        exact ⟨fun _ => rfl, fun _ => rfl, fun _ => rfl, fun _ => rfl, by simp⟩
      · exact ⟨(0xCF, 8), by simp, h⟩
  | text =>
    refine readHead_short (by decide) (fun b hb hb' => readHead_text hb hb') ?_
    apply readHead_writeLength
    · simp only [forall_mem_cons]
      exact ⟨fun _ => rfl, fun _ => rfl, fun _ => rfl, by simp⟩
    · exact ⟨(0xDB, 4), by simp, h⟩
  | blob =>
    apply readHead_writeLength
    · simp only [forall_mem_cons]
      exact ⟨fun _ => rfl, fun _ => rfl, fun _ => rfl, by simp⟩
    · exact ⟨(0xC6, 4), by simp, h⟩
  | items =>
    refine readHead_short (by decide) (fun b hb hb' => readHead_items hb hb') ?_
    apply readHead_writeLength
    · simp only [forall_mem_cons]
      exact ⟨fun _ => rfl, fun _ => rfl, by simp⟩
    · exact ⟨(0xDD, 4), by simp, h⟩
  | pairs =>
    refine readHead_short (by decide) (fun b hb hb' => readHead_pairs hb hb') ?_
    apply readHead_writeLength
    · simp only [forall_mem_cons]
      exact ⟨fun _ => rfl, fun _ => rfl, by simp⟩
    · exact ⟨(0xDF, 4), by simp, h⟩

end

def readMany {α : Type} (read : Octets → Option (α × Octets)) :
    Nat → Octets → Option (List α × Octets)
  | 0, bytes => some ([], bytes)
  | n + 1, bytes => do
      let (a, bytes) ← read bytes
      let (rest, bytes) ← readMany read n bytes
      return (a :: rest, bytes)

def readOctets (n : Nat) (bytes : Octets) : Option (Octets × Octets) :=
  if bytes.length < n then none else some (bytes.take n, bytes.drop n)

def readPair (read : Octets → Option (MsgPack × Octets)) (bytes : Octets) :
    Option ((MsgPack × MsgPack) × Octets) := do
  let (key, bytes) ← read bytes
  let (v, bytes) ← read bytes
  return ((key, v), bytes)

/-- A value at the beginning of a stream, up to a depth of nesting. -/
def readValue : Nat → Octets → Option (MsgPack × Octets)
  | 0, _ => none
  | depth + 1, bytes => do
      let (head, bytes) ← readHead bytes
      match head with
      | .nil => return (.nil, bytes)
      | .boolean b => return (.boolean b, bytes)
      | .uint n => return (.uint n, bytes)
      | .int n => return (.int n, bytes)
      | .float bits => return (.float bits, bytes)
      | .text n =>
        let (s, bytes) ← readOctets n bytes
        return (.str s, bytes)
      | .blob n =>
        let (data, bytes) ← readOctets n bytes
        return (.bin data, bytes)
      | .ext kind n =>
        let (data, bytes) ← readOctets n bytes
        return (.ext kind data, bytes)
      | .items n =>
        let (items, bytes) ← readMany (readValue depth) n bytes
        return (.array items, bytes)
      | .pairs n =>
        let (fields, bytes) ← readMany (readPair (readValue depth)) n bytes
        return (.map fields, bytes)

def readAll (bytes : Octets) : Option MsgPack :=
  match readValue bytes.length bytes with
  | some (v, []) => some v
  | _ => none

namespace Json

mutual

def encode : Json → Octets
  | .null => writeHead .nil
  | .boolean b => writeHead (.boolean b)
  | .integer n => writeHead (if 0 ≤ n then .uint n.toNat else .int n)
  | .unsigned n => writeHead (.uint n)
  | .float bits => writeHead (.float bits)
  | .string s => writeHead (.text s.length) ++ s
  | .binary data => writeHead (.blob data.length) ++ data
  | .array items => writeHead (.items items.length) ++ encodeItems items
  | .object fields => writeHead (.pairs fields.length) ++ encodeFields fields

def encodeItems : List Json → Octets
  | [] => []
  | item :: rest => encode item ++ encodeItems rest

def encodeFields : List (Octets × Json) → Octets
  | [] => []
  | (key, v) :: rest => writeHead (.text key.length) ++ key ++ encode v ++ encodeFields rest

end

mutual

/-- The value that is read back: numbers that are not negative are unsigned. -/
def canonical : Json → Json
  | .integer n => if 0 ≤ n then .unsigned n.toNat else .integer n
  | .array items => .array (canonicalItems items)
  | .object fields => .object (canonicalFields fields)
  | j => j

def canonicalItems : List Json → List Json
  | [] => []
  | item :: rest => canonical item :: canonicalItems rest

def canonicalFields : List (Octets × Json) → List (Octets × Json)
  | [] => []
  | (key, v) :: rest => (key, canonical v) :: canonicalFields rest

end

mutual

/-- A value as the library holds it: numbers of 64 bits, and no key twice. -/
def Valid : Json → Prop
  | .integer n => -2 ^ 63 ≤ n ∧ n < 2 ^ 63
  | .unsigned n => n < 2 ^ 64
  | .array items => ValidItems items
  | .object fields => (fields.map Prod.fst).Nodup ∧ ValidFields fields
  | _ => True

def ValidItems : List Json → Prop
  | [] => True
  | item :: rest => Valid item ∧ ValidItems rest

def ValidFields : List (Octets × Json) → Prop
  | [] => True
  | (_, v) :: rest => Valid v ∧ ValidFields rest

end

end Json

section
variable {rest : Octets}

lemma readOctets_append (s rest : Octets) : readOctets s.length (s ++ rest) = some (s, rest) := by
  rw [readOctets, if_neg (by simp), take_left, drop_left]

lemma writeHead_pos (head : Head) (h : head.Valid) : 0 < (writeHead head).length := by
  rw [length_pos_iff]
  intro hnil
  have hread : readHead (writeHead head ++ []) = some (head, []) := readHead_writeHead head h
  rw [hnil] at hread
  cases hread

lemma valid_uint {n : Int} (h : n < 2 ^ 63) : (Head.uint n.toNat).Valid := by
  simp only [Head.Valid]
  omega

namespace Json

mutual

theorem encode_pos : ∀ {j : Json}, Valid j → 0 < (encode j).length
  | .null, _ => writeHead_pos .nil trivial
  | .boolean b, _ => writeHead_pos (.boolean b) trivial
  | .integer n, h => by
    simp only [encode]
    split_ifs with hn
    · exact writeHead_pos _ (valid_uint h.2)
    · exact writeHead_pos (.int n) ⟨h.1, by omega⟩
  | .unsigned n, h => writeHead_pos (.uint n) h
  | .float bits, _ => writeHead_pos (.float bits) trivial
  | .string s, _ => by
    simp only [encode, length_append]
    by_cases hs : s.length < 2 ^ 32
    · exact Nat.add_pos_left (writeHead_pos (.text s.length) hs) _
    · omega
  | .binary data, _ => by
    simp only [encode, length_append]
    by_cases hdata : data.length < 2 ^ 32
    · exact Nat.add_pos_left (writeHead_pos (.blob data.length) hdata) _
    · omega
  | .array items, h => by
    have hle := length_le_encodeItems h
    simp only [encode, length_append]
    by_cases hitems : items.length < 2 ^ 32
    · exact Nat.add_pos_left (writeHead_pos (.items items.length) hitems) _
    · omega
  | .object fields, h => by
    have hle := length_le_encodeFields h.2
    simp only [encode, length_append]
    by_cases hfields : fields.length < 2 ^ 32
    · exact Nat.add_pos_left (writeHead_pos (.pairs fields.length) hfields) _
    · omega

theorem length_le_encodeItems :
    ∀ {items : List Json}, ValidItems items → items.length ≤ (encodeItems items).length
  | [], _ => Nat.zero_le _
  | _ :: _, h => by
    have hitem := encode_pos h.1
    have hrest := length_le_encodeItems h.2
    simp only [encodeItems, length_append, length_cons]
    omega

theorem length_le_encodeFields : ∀ {fields : List (Octets × Json)}, ValidFields fields →
      fields.length ≤ (encodeFields fields).length
  | [], _ => Nat.zero_le _
  | _ :: _, h => by
    have hvalue := encode_pos h.1
    have hrest := length_le_encodeFields h.2
    simp only [encodeFields, length_append, length_cons]
    omega

end

lemma keys_canonicalFields :
    ∀ fields : List (Octets × Json), (canonicalFields fields).map Prod.fst = fields.map Prod.fst
  | [] => rfl
  | (key, _) :: rest => congrArg (key :: ·) (keys_canonicalFields rest)

end Json

/-- Octets that are read as a value, in front of anything. -/
def Reads (depth : Nat) (bytes : Octets) (j : Json) : Prop :=
  ∃ v, (∀ rest, readValue depth (bytes ++ rest) = some (v, rest)) ∧ fromMsgpack v = some j

def ReadsItems (depth : Nat) (bytes : Octets) (n : Nat) (items : List Json) : Prop :=
  ∃ vs, (∀ rest, readMany (readValue depth) n (bytes ++ rest) = some (vs, rest)) ∧
    fromItems vs = some items

def ReadsFields (depth : Nat) (bytes : Octets) (n : Nat) (fields : List (Octets × Json)) : Prop :=
  ∃ vs, (∀ rest, readMany (readPair (readValue depth)) n (bytes ++ rest) = some (vs, rest)) ∧
    ∀ read, fromFields vs read = some (Json.overlay read fields)

section
variable {depth : Nat} {bytes : Octets}

lemma reads_text {s : Octets} (h : s.length < 2 ^ 32) (rest : Octets) :
    readValue (depth + 1) (writeHead (.text s.length) ++ s ++ rest) = some (.str s, rest) := by
  rw [append_assoc, readValue, readHead_writeHead (.text s.length) h]
  simp [readOctets_append]

lemma reads_array {items items' : List Json} (h : items.length < 2 ^ 32)
    (hitems : ReadsItems depth bytes items.length items') :
    Reads (depth + 1) (writeHead (.items items.length) ++ bytes) (.array items') := by
  obtain ⟨vs, hread, hfrom⟩ := hitems
  refine ⟨.array vs, ?_, by rw [fromMsgpack, hfrom]; rfl⟩
  intro rest
  rw [append_assoc, readValue, readHead_writeHead (.items items.length) h]
  simp [hread]

lemma reads_object {fields fields' : List (Octets × Json)} (h : fields.length < 2 ^ 32)
    (hnodup : (fields'.map Prod.fst).Nodup)
    (hfields : ReadsFields depth bytes fields.length fields') :
    Reads (depth + 1) (writeHead (.pairs fields.length) ++ bytes) (.object fields') := by
  obtain ⟨vs, hread, hfrom⟩ := hfields
  have hoverlay : Json.overlay [] fields' = fields' := Json.overlay_eq_append hnodup
  refine ⟨.map vs, ?_, by rw [fromMsgpack, hfrom, hoverlay]; rfl⟩
  intro rest
  rw [append_assoc, readValue, readHead_writeHead (.pairs fields.length) h]
  simp [hread]

lemma readsItems_cons {j : Json} {bytes' : Octets} {n : Nat} {items : List Json}
    (hfirst : Reads depth bytes j) (hrest : ReadsItems depth bytes' n items) :
    ReadsItems depth (bytes ++ bytes') (n + 1) (j :: items) := by
  obtain ⟨v, hread, hfrom⟩ := hfirst
  obtain ⟨vs, hreads, hfroms⟩ := hrest
  refine ⟨v :: vs, ?_, by simp only [fromItems, hfrom, hfroms]⟩
  simp [readMany, hread, hreads]

lemma readsFields_cons {key : Octets} {j : Json} {bytes' : Octets} {n : Nat}
    {fields : List (Octets × Json)} (hkey : key.length < 2 ^ 32)
    (hfirst : Reads (depth + 1) bytes j) (hrest : ReadsFields (depth + 1) bytes' n fields) :
    ReadsFields (depth + 1) (writeHead (.text key.length) ++ key ++ bytes ++ bytes') (n + 1)
      ((key, j) :: fields) := by
  obtain ⟨v, hread, hfrom⟩ := hfirst
  obtain ⟨vs, hreads, hfroms⟩ := hrest
  refine ⟨(.str key, v) :: vs, ?_, ?_⟩
  · intro rest
    have hpair : readPair (readValue (depth + 1))
        (writeHead (.text key.length) ++ key ++ bytes ++ bytes' ++ rest) =
          some ((.str key, v), bytes' ++ rest) := by
      rw [readPair, append_assoc, append_assoc, reads_text hkey]
      simp [hread]
    rw [readMany, hpair]
    simp [hreads]
  · intro read
    rw [fromFields, hfrom]
    exact hfroms _

end

namespace Json

mutual

theorem reads_encode : ∀ {j : Json} {depth : Nat}, Valid j → (encode j).length < 2 ^ 32 →
    (encode j).length ≤ depth → Reads depth (encode j) (canonical j)
  | j, 0, h, _, hdepth => absurd hdepth (Nat.not_le.mpr (encode_pos h))
  | .null, depth + 1, _, _, _ => ⟨.nil, fun _ => rfl, rfl⟩
  | .boolean b, depth + 1, _, _, _ => ⟨.boolean b, fun _ => by cases b <;> rfl, rfl⟩
  | .integer n, depth + 1, h, _, _ => by
    simp only [encode, canonical]
    split_ifs with hn
    · refine ⟨.uint n.toNat, ?_, rfl⟩
      intro rest
      rw [readValue, readHead_writeHead _ (valid_uint h.2)]
      rfl
    · refine ⟨.int n, ?_, rfl⟩
      intro rest
      rw [readValue, readHead_writeHead (.int n) ⟨h.1, by omega⟩]
      rfl
  | .unsigned n, depth + 1, h, _, _ => by
    refine ⟨.uint n, ?_, rfl⟩
    intro rest
    rw [encode, readValue, readHead_writeHead (.uint n) h]
    rfl
  | .float bits, depth + 1, _, _, _ => by
    refine ⟨.float bits, ?_, rfl⟩
    intro rest
    rw [encode, readValue, readHead_writeHead (.float bits) trivial]
    rfl
  | .string s, depth + 1, _, hlength, _ => by
    simp only [encode, length_append] at hlength
    refine ⟨.str s, ?_, rfl⟩
    intro rest
    rw [encode]
    exact reads_text (by omega) rest
  | .binary data, depth + 1, _, hlength, _ => by
    simp only [encode, length_append] at hlength
    refine ⟨.bin data, ?_, rfl⟩
    intro rest
    have hdata : data.length < 2 ^ 32 := by omega
    rw [encode, append_assoc, readValue, readHead_writeHead (.blob data.length) hdata]
    simp [readOctets_append]
  | .array items, depth + 1, h, hlength, hdepth => by
    have hcount := length_le_encodeItems h
    simp only [encode, length_append] at hlength hdepth
    have hitems : items.length < 2 ^ 32 := by omega
    have hhead := writeHead_pos (.items items.length) hitems
    rw [encode, canonical]
    exact reads_array hitems (readsItems_encode h (by omega) (by omega))
  | .object fields, depth + 1, h, hlength, hdepth => by
    have hcount := length_le_encodeFields h.2
    simp only [encode, length_append] at hlength hdepth
    have hfields : fields.length < 2 ^ 32 := by omega
    have hhead := writeHead_pos (.pairs fields.length) hfields
    rw [encode, canonical]
    apply reads_object hfields
    · rw [keys_canonicalFields]
      exact h.1
    · exact readsFields_encode h.2 (by omega) (by omega)

theorem readsItems_encode : ∀ {items : List Json} {depth : Nat}, ValidItems items →
    (encodeItems items).length < 2 ^ 32 → (encodeItems items).length ≤ depth →
    ReadsItems depth (encodeItems items) items.length (canonicalItems items)
  | [], _, _, _, _ => ⟨[], fun _ => rfl, rfl⟩
  | item :: rest, depth, h, hlength, hdepth => by
    simp only [encodeItems, length_append] at hlength hdepth
    rw [encodeItems, canonicalItems]
    exact readsItems_cons (reads_encode h.1 (by omega) (by omega))
      (readsItems_encode h.2 (by omega) (by omega))

theorem readsFields_encode : ∀ {fields : List (Octets × Json)} {depth : Nat},
    ValidFields fields → (encodeFields fields).length < 2 ^ 32 →
    (encodeFields fields).length ≤ depth →
    ReadsFields depth (encodeFields fields) fields.length (canonicalFields fields)
  | [], _, _, _, _ => ⟨[], fun _ => rfl, fun _ => rfl⟩
  | (key, v) :: rest, 0, h, _, hdepth => by
    have hvalue := encode_pos h.1
    simp only [encodeFields, length_append] at hdepth
    omega
  | (key, v) :: rest, depth + 1, h, hlen, hdepth => by
    simp only [encodeFields, length_append] at hlen hdepth
    rw [encodeFields, canonicalFields]
    exact readsFields_cons (by omega) (reads_encode h.1 (by omega) (by omega))
      (readsFields_encode h.2 (by omega) (by omega))

end

lemma readAll_encode {j : Json} (h : Valid j) (hlen : (encode j).length < 2 ^ 32) :
    (readAll (encode j)).bind fromMsgpack = some (canonical j) := by
  obtain ⟨v, hread, hfrom⟩ := reads_encode h hlen le_rfl
  have hall := hread []
  rw [append_nil] at hall
  rw [readAll, hall]
  exact hfrom

end Json

end

end Millennium
