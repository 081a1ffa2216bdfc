import Millennium.Lib.Records
import Millennium.Lib.Utf8
import Millennium.Star.LuaShim
import Millennium.Star.Pack

/-!
# Tables of sub-entries

A section is a table of files: their number, and for each the lengths of its name and data, the name
and the data. The readers of the packer, the loader and the shim are compared with the places at
which the entries stand.
-/

namespace Millennium.Star

open Bytes Outcome Utf8 Records List SubEntry Nat LuaShim

section
variable (utf8Error : Octets → String)

/-- The loop of `parse_sub_entries`: entries left, the number of the next and its place. -/
def parseFrom (blob : Octets) : ℕ → ℕ → ℕ → Except String (List SubEntry)
  | 0, _, _ => .ok []
  | n + 1, i, pos =>
    if blob.length < pos + 6 then .error s!"sub-entry {i} header truncated"
    else
      let nameLen := (readU16Le (blob.drop pos)).toNat
      let dataLen := (readU32Le (blob.drop (pos + 2))).toNat
      let pos := pos + 6
      if blob.length < pos + nameLen + dataLen then .error s!"sub-entry {i} data truncated"
      else
        let name := slice blob pos nameLen
        if name.toByteArray.validateUTF8 then do
          let data := slice blob (pos + nameLen) dataLen
          let rest ← parseFrom blob n (i + 1) (pos + nameLen + dataLen)
          .ok (⟨name, data⟩ :: rest)
        else .error s!"sub-entry {i} name not UTF-8: {utf8Error name}"

def parseSubEntries (blob : Octets) : Except String (List SubEntry) :=
  if blob.length < 4 then .error "sub-entry table too short"
  else parseFrom utf8Error blob (readU32Le blob).toNat 0 4

end

/-- The loop of `star_parse_sub_entries`. The lengths are added as 32-bit words. -/
def starParseFrom (data : Octets) : ℕ → ℕ → ℕ → Except Fault (List SubEntry)
  | 0, _, _ => .ok []
  | n + 1, i, pos =>
    if data.length < pos + 6 then .error (.runtimeError s!"sub-entry {i} header truncated")
    else
      let nameLen := readU16Le (data.drop pos)
      let dataLen := readU32Le (data.drop (pos + 2))
      let pos := pos + 6
      if data.length - pos < nameLen.toNat then
        .error (.runtimeError s!"sub-entry {i} data truncated")
      else
        let afterName := pos + nameLen.toNat
        if data.length - afterName < dataLen.toNat then
          .error (.runtimeError s!"sub-entry {i} data truncated")
        else do
          let name := slice data pos nameLen.toNat
          let entryData := slice data afterName dataLen.toNat
          let rest ← starParseFrom data n (i + 1) (pos + (nameLen.toUInt32 + dataLen).toNat)
          .ok (⟨name, entryData⟩ :: rest)

def starParseSubEntries (data : Octets) : Except Fault (List SubEntry) :=
  if data.length < 4 then .error (.runtimeError "sub-entry table too short")
  else starParseFrom data (readU32Le data).toNat 0 4

namespace LuaShim

open Doubles Lua

section
variable (r : Rounding)

def u16Le (s : Octets) (i : ℚ) : Except LuaFault ℚ := do
  let b₀ ← operand (byte s i)
  let b₁ ← operand (byte s (r.add i 1))
  .ok (r.add b₀ (r.mul b₁ 256))

/-- The loop of the shim's `parse_sub_entries`, without a look at the end of the string. -/
def entriesFrom (data : Octets) : ℕ → ℚ → Except LuaFault (List SubEntry)
  | 0, _ => .ok []
  | n + 1, pos => do
      let nl ← u16Le r data pos
      let dl ← u32Le r data (r.add pos 2)
      let pos := r.add pos 6
      let name := sub data pos (r.sub (r.add pos nl) 1)
      let entryData := sub data (r.add pos nl) (r.sub (r.add (r.add pos nl) dl) 1)
      let rest ← entriesFrom data n (r.add (r.add pos nl) dl)
      .ok (⟨name, entryData⟩ :: rest)

def parseSubEntries (data : Octets) : Except LuaFault (List SubEntry) :=
  if data.length < 4 then .ok []
  else do
    let count ← u32Le r data 1
    entriesFrom r data ⌊count⌋.toNat 5

end

end LuaShim

namespace SubEntry

def encode (e : SubEntry) : Octets :=
  leBytes 2 e.name.length ++ leBytes 4 e.data.length ++ e.name ++ e.data

def Sized (e : SubEntry) : Prop := e.name.length < 2 ^ 16 ∧ e.data.length < 2 ^ 32

def size (e : SubEntry) : ℕ := 6 + (e.name.length + e.data.length)

def stride (e : SubEntry) : ℕ := 6 + (e.name.length + e.data.length) % 2 ^ 32

lemma encode_length (e : SubEntry) : e.encode.length = e.size := by
  simp only [encode, size, length_append, leBytes_length]
  omega

lemma add_size (pos : ℕ) (e : SubEntry) :
    pos + e.size = pos + 6 + e.name.length + e.data.length := by
  simp only [size, Nat.add_assoc]

end SubEntry

lemma serializeSubEntries_eq (entries : List SubEntry) :
    serializeSubEntries entries = leBytes 4 entries.length ++ entries.flatMap SubEntry.encode := rfl

section

lemma readU16Le_toNat (p : Octets) :
    (readU16Le p).toNat = (byteAt p 0).toNat + (byteAt p 1).toNat * 2 ^ 8 := by
  have h₀ := (byteAt p 0).toNat_lt
  simp only [readU16Le, UInt16.toNat_or, UInt16.toNat_shiftLeft, UInt8.toNat_toUInt16,
    UInt16.reduceToNat]
  rw [octet_shift_mod _ (by decide), @or_field _ 8 _ (by omega)]

lemma readU16Le_leBytes {n : ℕ} (h : n < 2 ^ 16) (rest : Octets) :
    (readU16Le (leBytes 2 n ++ rest)).toNat = n := by
  rw [readU16Le_toNat]
  simp only [leBytes, byteAt, cons_append, getD_cons_zero, getD_cons_succ, UInt8.toNat_ofNat']
  omega

lemma readU32Le_leBytes_nat {n : ℕ} (h : n < 2 ^ 32) (rest : Octets) :
    (readU32Le (leBytes 4 n ++ rest)).toNat = n := by
  have hread := readU32Le_leBytes (UInt32.ofNat n) rest
  rw [UInt32.toNat_ofNat', mod_eq_of_lt h] at hread
  rw [hread, UInt32.toNat_ofNat', mod_eq_of_lt h]

lemma leBytes_readU16Le {p : Octets} (h : 2 ≤ p.length) :
    leBytes 2 (readU16Le p).toNat = p.take 2 := by
  obtain ⟨a, b, rest, rfl⟩ : ∃ a b rest, p = a :: b :: rest := by
    cases p with
    | nil => simp at h
    | cons a p =>
      cases p with
      | nil => simp at h
      | cons b rest => exact ⟨a, b, rest, rfl⟩
  have ha := a.toNat_lt
  have hb := b.toNat_lt
  rw [readU16Le_toNat]
  simp only [byteAt, getD_cons_zero, getD_cons_succ, leBytes, take_succ_cons,
    take_zero, List.cons.injEq, and_true]
  constructor
  · apply UInt8.toNat_inj.mp
    rw [UInt8.toNat_ofNat']
    omega
  · apply UInt8.toNat_inj.mp
    rw [UInt8.toNat_ofNat']
    omega

/-- What a reader finds at the place of an entry. -/
structure Stands (e : SubEntry) (data : Octets) (pos : ℕ) : Prop where
  inside : pos + 6 + e.name.length + e.data.length ≤ data.length
  nameLen : (readU16Le (data.drop pos)).toNat = e.name.length
  dataLen : (readU32Le (data.drop (pos + 2))).toNat = e.data.length
  name : slice data (pos + 6) e.name.length = e.name
  data : slice data (pos + 6 + e.name.length) e.data.length = e.data

variable {e : SubEntry} {data : Octets} {pos : ℕ}

/-- There are as many octets as the header announces. -/
def Announced (data : Octets) (pos : ℕ) : Prop :=
  pos + 6 + (readU16Le (data.drop pos)).toNat + (readU32Le (data.drop (pos + 2))).toNat ≤
    data.length

lemma exists_stands (h : Announced data pos) : ∃ e, Stands e data pos := by
  have hname := slice_length_of_le
    (show pos + 6 + (readU16Le (data.drop pos)).toNat ≤ data.length by rw [Announced] at h; omega)
  have hdata := slice_length_of_le h
  refine ⟨⟨slice data (pos + 6) (readU16Le (data.drop pos)).toNat,
    slice data (pos + 6 + (readU16Le (data.drop pos)).toNat)
      (readU32Le (data.drop (pos + 2))).toNat⟩, ?_, hname.symm, hdata.symm, ?_, ?_⟩
  · rw [hname, hdata]
    exact h
  · rw [hname]
  · rw [hname, hdata]

lemma drop_eq_slice_append (data : Octets) (k n : ℕ) :
    data.drop k = slice data k n ++ data.drop (k + n) := by
  rw [slice, ← drop_drop, take_append_drop]

lemma Stands.begins (h : Stands e data pos) : e.encode <+: data.drop pos := by
  have hin := h.inside
  have hnl : leBytes 2 e.name.length = slice data pos 2 := by
    rw [← h.nameLen, leBytes_readU16Le (by rw [length_drop]; omega), slice]
  have hdl : leBytes 4 e.data.length = slice data (pos + 2) 4 := by
    rw [← h.dataLen, leBytes_readU32Le (by rw [length_drop]; omega), slice]
  refine ⟨data.drop (pos + 6 + e.name.length + e.data.length), ?_⟩
  rw [drop_eq_slice_append data pos 2, drop_eq_slice_append data (pos + 2) 4,
    drop_eq_slice_append data (pos + 2 + 4) e.name.length,
    drop_eq_slice_append data (pos + 2 + 4 + e.name.length) e.data.length, h.name, h.data,
    SubEntry.encode, hnl, hdl]
  simp

lemma stands_of_begins (hsized : e.Sized) (h : e.encode <+: data.drop pos) :
    Stands e data pos := by
  obtain ⟨tail, htail⟩ := h
  have hlen := congrArg List.length htail
  rw [length_append, e.encode_length, SubEntry.size, length_drop] at hlen
  simp only [SubEntry.encode, append_assoc] at htail
  have htwo : data.drop (pos + 2) =
      leBytes 4 e.data.length ++ (e.name ++ (e.data ++ tail)) := by
    rw [← drop_drop, ← htail, drop_left' (leBytes_length _ _)]
  have hsix : data.drop (pos + 6) = e.name ++ (e.data ++ tail) := by
    rw [show pos + 6 = pos + 2 + 4 by rfl, ← drop_drop, htwo,
      drop_left' (leBytes_length _ _)]
  have hlast : data.drop (pos + 6 + e.name.length) = e.data ++ tail := by
    rw [← drop_drop, hsix, drop_left]
  constructor
  · omega
  · rw [← htail, readU16Le_leBytes hsized.1]
  · rw [htwo, readU32Le_leBytes_nat hsized.2]
  · rw [slice, hsix, take_left]
  · rw [slice, hlast, take_left]

end

section
variable {data : Octets} {pos : ℕ} {e : SubEntry} (n i : ℕ)

lemma starParseFrom_stands (h : Stands e data pos) : starParseFrom data (n + 1) i pos =
    (starParseFrom data n (i + 1) (pos + e.stride)).map (e :: ·) := by
  have hin := h.inside
  have hstride : pos + 6 + ((readU16Le (data.drop pos)).toUInt32 +
      readU32Le (data.drop (pos + 2))).toNat = pos + e.stride := by
    rw [UInt32.toNat_add, UInt16.toNat_toUInt32, h.nameLen, h.dataLen, stride, Nat.add_assoc]
  rw [starParseFrom, if_neg (by omega)]
  simp only [hstride, h.nameLen, h.dataLen, h.name, h.data]
  rw [if_neg (by omega), if_neg (by omega)]
  exact bind_ok _ _

lemma starParseFrom_not_announced (h : ¬ Announced data pos) :
    ∃ message, starParseFrom data (n + 1) i pos = .error (.runtimeError message) := by
  rw [Announced] at h
  rw [starParseFrom]
  dsimp only
  split_ifs
  · exact ⟨_, rfl⟩
  · exact ⟨_, rfl⟩
  · exact ⟨_, rfl⟩
  · omega

lemma parseFrom_stands (utf8Error : Octets → String) (h : Stands e data pos)
    (hname : IsUtf8 e.name) :
    parseFrom utf8Error data (n + 1) i pos =
    (parseFrom utf8Error data n (i + 1) (pos + e.size)).map (e :: ·) := by
  have hin := h.inside
  rw [parseFrom, if_neg (by omega)]
  simp only [h.nameLen, h.dataLen, h.name, h.data, e.add_size]
  rw [if_neg (by omega), if_pos ((validateUTF8_iff _).mpr hname)]
  exact bind_ok _ _

end

namespace LuaShim

open Doubles Lua

section
variable (r : Rounding) {s : Octets} {k : ℕ}

lemma add_place {d : ℕ} (h : k + d + 1 < 2 ^ 53) :
    r.add ((k + 1 : ℕ) : ℚ) (d : ℚ) = ((k + d + 1 : ℕ) : ℚ) := by
  rw [r.add_nat (by omega), Nat.add_right_comm]

lemma u16Le_eq (h : k + 2 ≤ s.length) (hk : k + 2 < 2 ^ 53) :
    u16Le r s ((k + 1 : ℕ) : ℚ) = .ok ((readU16Le (s.drop k)).toNat : ℚ) := by
  have h₀ := (byteAt s k).toNat_lt
  have h₁ := (byteAt s (k + 1)).toNat_lt
  have hone := add_place r (show k + 1 + 1 < 2 ^ 53 by omega)
  rw [cast_one] at hone
  rw [u16Le, hone, byte_of_lt (by omega), byte_of_lt (by omega)]
  simp only [ok_bind, b8_eq]
  rw [r.mul_nat (by omega), r.add_nat (by omega), readU16Le_toNat]
  simp only [byteAt_drop]
  rfl

lemma raises_operand (h : s.length ≤ k) : Raises (operand (byte s ((k + 1 : ℕ) : ℚ))) := by
  rw [byte_succ, if_neg (by omega)]
  exact raises_operand_none

lemma u16Le_raises (h : s.length < k + 2) (hk : k + 2 < 2 ^ 53) :
    Raises (u16Le r s ((k + 1 : ℕ) : ℚ)) := by
  have hone := add_place r (show k + 1 + 1 < 2 ^ 53 by omega)
  rw [cast_one] at hone
  rw [u16Le, hone]
  refine raises_operand_bind _ fun b₀ => ?_
  exact (raises_operand (by omega)).bind _

lemma u32Le_raises (h : s.length < k + 4) (hk : k + 4 < 2 ^ 53) :
    Raises (u32Le r s ((k + 1 : ℕ) : ℚ)) := by
  have hthree := add_place r (show k + 3 + 1 < 2 ^ 53 by omega)
  rw [cast_ofNat] at hthree
  rw [u32Le, hthree]
  refine raises_operand_bind _ fun b₀ => raises_operand_bind _ fun b₁ =>
    raises_operand_bind _ fun b₂ => ?_
  exact (raises_operand (by omega)).bind _

variable {data : Octets} {pos : ℕ} (n : ℕ)

lemma entriesFrom_raises (h : data.length < pos + 6) (hpos : pos < 2 ^ 34) :
    Raises (entriesFrom r data (n + 1) ((pos + 1 : ℕ) : ℚ)) := by
  have htwo := add_place r (show pos + 2 + 1 < 2 ^ 53 by omega)
  rw [cast_ofNat] at htwo
  rw [entriesFrom]
  by_cases hname : pos + 2 ≤ data.length
  · rw [u16Le_eq r hname (by omega), htwo]
    exact (u32Le_raises r (by omega) (by omega)).bind _
  · exact (u16Le_raises r (by omega) (by omega)).bind _

/-- The name and the data that the shim cuts out, as far as there are any. -/
def clipped (data : Octets) (pos : ℕ) : SubEntry :=
  let nl := (readU16Le (data.drop pos)).toNat
  let dl := (readU32Le (data.drop (pos + 2))).toNat
  ⟨sub data ((pos + 6 + 1 : ℕ) : ℚ) ((pos + 6 + nl : ℕ) : ℚ),
    sub data ((pos + 6 + nl + 1 : ℕ) : ℚ) ((pos + 6 + nl + dl : ℕ) : ℚ)⟩

lemma entriesFrom_header (h : pos + 6 ≤ data.length) (hlen : data.length ≤ maxString) :
    entriesFrom r data (n + 1) ((pos + 1 : ℕ) : ℚ) =
    (entriesFrom r data n ((pos + 6 + (readU16Le (data.drop pos)).toNat +
    (readU32Le (data.drop (pos + 2))).toNat + 1 : ℕ) : ℚ)).map (clipped data pos :: ·) := by
  have hmax : data.length < 2 ^ 32 := hlen.trans_lt (by decide)
  have hnl := (readU16Le (data.drop pos)).toNat_lt
  have hdl := (readU32Le (data.drop (pos + 2))).toNat_lt
  have htwo := add_place r (show pos + 2 + 1 < 2 ^ 53 by omega)
  have hsix := add_place r (show pos + 6 + 1 < 2 ^ 53 by omega)
  rw [cast_ofNat] at htwo hsix
  rw [entriesFrom, u16Le_eq r (by omega) (by omega), ok_bind, htwo,
    u32Le_eq r (by omega) (by omega), ok_bind, hsix]
  dsimp only [clipped]
  have hlast : ∀ m : ℕ, m < 2 ^ 52 → r.sub ((m + 1 : ℕ) : ℚ) 1 = (m : ℚ) := by
    intro m hm
    have hsub := r.sub_nat (show 1 ≤ m + 1 by omega) (show m + 1 < 2 ^ 53 by omega)
    exact_mod_cast hsub
  rw [add_place r (by omega), add_place r (by omega), hlast _ (by omega), hlast _ (by omega)]
  exact bind_ok _ _

lemma clipped_eq {e : SubEntry} (h : Stands e data pos) : clipped data pos = e := by
  have hin := h.inside
  have hname := sub_succ data (show pos + 6 + e.name.length ≤ data.length by omega) (a := pos + 6)
  have hdata := sub_succ data hin (a := pos + 6 + e.name.length)
  rw [Nat.add_sub_cancel_left, h.name] at hname
  rw [Nat.add_sub_cancel_left, h.data] at hdata
  simp only [clipped, h.nameLen, h.dataLen, hname, hdata]

end

end LuaShim

/-- The entries stand in the octets, each as far behind the one before it as `size` says. -/
def Placed (size : SubEntry → ℕ) : List SubEntry → Octets → Prop
  | [], _ => True
  | e :: rest, s => e.encode <+: s ∧ Placed size rest (s.drop (size e))

section
variable {entries : List SubEntry} {data : Octets} {pos : ℕ}

lemma placed_flatMap (entries : List SubEntry) :
    Placed size entries (entries.flatMap SubEntry.encode) := by
  induction entries with
  | nil => trivial
  | cons e rest ih =>
    rw [flatMap_cons]
    refine ⟨prefix_append _ _, ?_⟩
    rw [drop_left' e.encode_length]
    exact ih

lemma parseFrom_eq_ok (utf8Error : Octets → String) (hsized : ∀ e ∈ entries, e.Sized)
    (hnames : ∀ e ∈ entries, IsUtf8 e.name)
    (h : Placed size entries (data.drop pos)) (i : ℕ) :
    parseFrom utf8Error data entries.length i pos = .ok entries := by
  induction entries generalizing pos i with
  | nil => rfl
  | cons e rest ih =>
    obtain ⟨hfirst, hrest⟩ := h
    rw [drop_drop] at hrest
    obtain ⟨hsize, hsizes⟩ := forall_mem_cons.mp hsized
    obtain ⟨hname, hothers⟩ := forall_mem_cons.mp hnames
    rw [length_cons, parseFrom_stands _ _ _ (stands_of_begins hsize hfirst) hname,
      ih hsizes hothers hrest]
    rfl

lemma starParseFrom_eq_ok_iff (hsized : ∀ e ∈ entries, e.Sized) (i : ℕ) :
    starParseFrom data entries.length i pos = .ok entries ↔
    Placed stride entries (data.drop pos) := by
  induction entries generalizing pos i with
  | nil => exact iff_of_true rfl trivial
  | cons e rest ih =>
    obtain ⟨hsize, hsizes⟩ := forall_mem_cons.mp hsized
    constructor
    · intro h
      by_cases hannounced : Announced data pos
      · obtain ⟨first, hstands⟩ := exists_stands hannounced
        rw [length_cons, starParseFrom_stands _ _ hstands, map_eq_ok_iff] at h
        obtain ⟨others, hothers, heq⟩ := h
        obtain ⟨rfl, rfl⟩ := List.cons.inj heq
        refine ⟨hstands.begins, ?_⟩
        rw [drop_drop]
        exact (ih hsizes _).mp hothers
      · obtain ⟨message, herror⟩ := starParseFrom_not_announced rest.length i hannounced
        rw [length_cons, herror] at h
        cases h
    · rintro ⟨hfirst, hrest⟩
      rw [drop_drop] at hrest
      rw [length_cons, starParseFrom_stands _ _ (stands_of_begins hsize hfirst),
        (ih hsizes _).mpr hrest]
      rfl

lemma LuaShim.entriesFrom_eq_ok (r : Doubles.Rounding) (hsized : ∀ e ∈ entries, e.Sized)
    (hlen : data.length ≤ Lua.maxString)
    (h : Placed size entries (data.drop pos)) :
    entriesFrom r data entries.length ((pos + 1 : ℕ) : ℚ) = .ok entries := by
  induction entries generalizing pos with
  | nil => rfl
  | cons e rest ih =>
    obtain ⟨hfirst, hrest⟩ := h
    rw [drop_drop, e.add_size] at hrest
    obtain ⟨hsize, hsizes⟩ := forall_mem_cons.mp hsized
    have hstands := stands_of_begins hsize hfirst
    have hin := hstands.inside
    rw [length_cons, entriesFrom_header r _ (by omega) hlen,
      clipped_eq hstands, hstands.nameLen, hstands.dataLen, ih hsizes hrest]
    rfl

end

structure EntryList where
  entries : List SubEntry
  utf8 : ∀ e ∈ entries, IsUtf8 e.name
  sized : ∀ e ∈ entries, e.Sized
  count_lt : entries.length < 2 ^ 32

/-- A name and data of 4 GiB or more are the last, or the entries behind them also stand where the
loader falls back to, in these very octets. -/
def Unmoved : List SubEntry → Prop
  | [] => True
  | e :: rest =>
    if e.name.length + e.data.length < 2 ^ 32 then Unmoved rest
    else Placed stride rest (((e :: rest).flatMap SubEntry.encode).drop e.stride)

lemma placed_stride_iff (entries : List SubEntry) :
    Placed stride entries (entries.flatMap SubEntry.encode) ↔ Unmoved entries := by
  induction entries with
  | nil => exact Iff.rfl
  | cons e rest ih =>
    have hfirst : e.encode <+: (e :: rest).flatMap SubEntry.encode := by
      exact prefix_append _ _
    rw [Placed, Unmoved, and_iff_right hfirst]
    by_cases hshort : e.name.length + e.data.length < 2 ^ 32
    · have hstride : e.stride = e.encode.length := by
        rw [stride, mod_eq_of_lt hshort, e.encode_length, SubEntry.size]
      rw [if_pos hshort, hstride, flatMap_cons, drop_left]
      exact ih
    · rw [if_neg hshort]

namespace EntryList
variable (utf8Error : Octets → String) (r : Doubles.Rounding) (l : EntryList)

def table : Octets := serializeSubEntries l.entries

/-- All readers give the entries back; the shim's is given a string. -/
def ReadBack : Prop :=
  parseSubEntries utf8Error l.table = .ok l.entries ∧
    starParseSubEntries l.table = .ok l.entries ∧
    (l.table.length ≤ Lua.maxString → LuaShim.parseSubEntries r l.table = .ok l.entries)

lemma four_le_length : 4 ≤ l.table.length := by
  rw [table, serializeSubEntries_eq, length_append]
  exact Nat.le_add_right _ _

lemma count_eq : (readU32Le l.table).toNat = l.entries.length :=
  readU32Le_leBytes_nat l.count_lt _

lemma drop_four : l.table.drop 4 = l.entries.flatMap SubEntry.encode := by
  rw [table, serializeSubEntries_eq, drop_left' (leBytes_length _ _)]

lemma parseSubEntries_table : parseSubEntries utf8Error l.table = .ok l.entries := by
  rw [parseSubEntries, l.count_eq]
  apply parseFrom_eq_ok utf8Error l.sized l.utf8
  exact placed_flatMap _

lemma starParseSubEntries_table_iff :
    starParseSubEntries l.table = .ok l.entries ↔ Unmoved l.entries := by
  rw [starParseSubEntries, if_neg (not_lt.mpr l.four_le_length), l.count_eq,
    starParseFrom_eq_ok_iff l.sized, l.drop_four, placed_stride_iff]

lemma shim_parseSubEntries_table (hlen : l.table.length ≤ Lua.maxString) :
    LuaShim.parseSubEntries r l.table = .ok l.entries := by
  have hcount := u32Le_eq r (s := l.table) (k := 0) l.four_le_length (by decide)
  have hents : entriesFrom r l.table l.entries.length ((4 + 1 : ℕ) : ℚ) =
      .ok l.entries := by
    apply entriesFrom_eq_ok r l.sized hlen
    exact placed_flatMap _
  rw [drop_zero, cast_one, l.count_eq] at hcount
  rw [LuaShim.parseSubEntries, hcount, ok_bind, Int.floor_natCast]
  exact_mod_cast hents

variable {utf8Error r l} in
lemma ReadBack.unmoved (h : l.ReadBack utf8Error r) : Unmoved l.entries :=
  l.starParseSubEntries_table_iff.mp h.2.1

/-- The tables of the packer are read back by all readers, but for the entries behind one of 4 GiB
in the loader. -/
theorem readBack_iff : l.ReadBack utf8Error r ↔ Unmoved l.entries := by
  rw [ReadBack, and_iff_right (l.parseSubEntries_table utf8Error), l.starParseSubEntries_table_iff,
    and_iff_left (l.shim_parseSubEntries_table r)]

/-- A name of one octet and data that fill 4 GiB, and an entry behind them. -/
def longPair (n : ℕ) (hn : n < 2 ^ 32) : EntryList where
  entries := [⟨[0], List.replicate n 0⟩, ⟨[0x61], []⟩]
  utf8 := by
    simp only [forall_mem_cons, not_mem_nil, false_implies, implies_true, and_true]
    exact ⟨isUtf8_of_ascii (by simp), isUtf8_of_ascii (by simp)⟩
  sized := by
    simp only [forall_mem_cons, not_mem_nil, false_implies, implies_true, and_true,
      SubEntry.Sized, length_replicate]
    exact ⟨⟨by decide, hn⟩, by decide, by decide⟩
  count_lt := by
    simp only [length_cons, length_nil]
    decide

/-- The loader goes back to the name of the first entry, which is no header of the second. -/
lemma longPair_moved {n : ℕ} (hn : n < 2 ^ 32) (hfull : 2 ^ 32 = 1 + n) :
    ¬ Unmoved (longPair n hn).entries := by
  have hlong : ¬ [(0 : UInt8)].length + (List.replicate n (0 : UInt8)).length < 2 ^ 32 := by
    rw [length_replicate, length_singleton]
    omega
  have hstride : stride ⟨[0], List.replicate n 0⟩ = 6 := by
    rw [stride, length_replicate, length_singleton, ← hfull]
    rfl
  have hdrop : ∀ rest : Octets,
      (SubEntry.encode ⟨[0], List.replicate n 0⟩ ++ rest).drop 6 =
        0 :: (List.replicate n 0 ++ rest) := by
    intro rest
    rw [SubEntry.encode, append_assoc, append_assoc]
    exact drop_left' (by rw [length_append, leBytes_length, leBytes_length])
  intro h
  rw [longPair, Unmoved, if_neg hlong, hstride, flatMap_cons] at h
  obtain ⟨rest, hrest⟩ := h.1
  have hhead := congrArg List.head? hrest
  revert hhead
  simp [SubEntry.encode, leBytes]

theorem longPair_not_readBack :
    ¬ (longPair (2 ^ 32 - 1) (by decide)).ReadBack (fun _ => "") .none :=
  mt ReadBack.unmoved (longPair_moved (by decide) (by norm_num))

end EntryList

def entryFraming : Framing where
  header := 6
  body s := (readU16Le s).toNat + (readU32Le (s.drop 2)).toNat

section
variable {data : Octets} {pos : ℕ}

lemma entryFraming_next (data : Octets) (pos : ℕ) : entryFraming.next data pos =
    pos + 6 + (readU16Le (data.drop pos)).toNat + (readU32Le (data.drop (pos + 2))).toNat := by
  rw [Nat.add_assoc _ (readU16Le _).toNat, ← drop_drop]
  rfl

lemma announced_iff : Announced data pos ↔ entryFraming.next data pos ≤ data.length := by
  rw [entryFraming_next, Announced]

lemma Stands.next_eq {e : SubEntry} (h : Stands e data pos) :
    entryFraming.next data pos = pos + e.size := by
  rw [entryFraming_next, h.nameLen, h.dataLen, e.add_size]

lemma starParseFrom_ok_iff (hlen : data.length < 2 ^ 32) (n i : ℕ) :
    (∃ entries, starParseFrom data n i pos = .ok entries) ↔
    ∀ j < n, entryFraming.start data pos (j + 1) ≤ data.length := by
  induction n generalizing pos i with
  | zero => exact iff_of_true ⟨[], rfl⟩ fun j hj => absurd hj (Nat.not_lt_zero j)
  | succ n ih =>
    have hplaces : (∀ j < n + 1, entryFraming.start data pos (j + 1) ≤ data.length) ↔
        entryFraming.next data pos ≤ data.length ∧
          ∀ j < n, entryFraming.start data (entryFraming.next data pos) (j + 1) ≤ data.length := by
      exact forall_lt_succ_left
    rw [hplaces, ← announced_iff]
    by_cases hannounced : Announced data pos
    · obtain ⟨e, hstands⟩ := exists_stands hannounced
      have hin := hstands.inside
      have hstride : e.stride = e.size := by
        rw [stride, mod_eq_of_lt (by omega), SubEntry.size]
      rw [starParseFrom_stands _ _ hstands, hstride, ← hstands.next_eq, and_iff_right hannounced,
        ← ih (i + 1)]
      constructor
      · rintro ⟨entries, h⟩
        obtain ⟨rest, hrest, -⟩ := map_eq_ok_iff.mp h
        exact ⟨rest, hrest⟩
      · rintro ⟨rest, hrest⟩
        exact ⟨_, map_eq_ok_iff.mpr ⟨rest, hrest, rfl⟩⟩
    · obtain ⟨message, herror⟩ := starParseFrom_not_announced n i hannounced
      rw [herror]
      constructor
      · rintro ⟨entries, h⟩
        cases h
      · rintro ⟨h, -⟩
        exact absurd h hannounced

def Headed (data : Octets) (pos n : ℕ) : Prop :=
  ∀ j < n, entryFraming.start data pos j + 6 ≤ data.length

lemma headed_succ (n : ℕ) : Headed data pos (n + 1) ↔
    pos + 6 ≤ data.length ∧ Headed data (entryFraming.next data pos) n := by
  exact forall_lt_succ_left

lemma LuaShim.entriesFrom_cases (r : Doubles.Rounding) (hlen : data.length ≤ Lua.maxString)
    (hpos : pos < 2 ^ 34) (n : ℕ) :
    Headed data pos n ∧ (∃ entries, entriesFrom r data n ((pos + 1 : ℕ) : ℚ) = .ok entries) ∨
    ¬ Headed data pos n ∧ Lua.Raises (entriesFrom r data n ((pos + 1 : ℕ) : ℚ)) := by
  induction n generalizing pos with
  | zero => exact .inl ⟨fun j hj => absurd hj (Nat.not_lt_zero j), [], rfl⟩
  | succ n ih =>
    rw [headed_succ]
    by_cases hhead : pos + 6 ≤ data.length
    · have hmax : data.length < 2 ^ 32 := hlen.trans_lt (by decide)
      have hnl := (readU16Le (data.drop pos)).toNat_lt
      have hdl := (readU32Le (data.drop (pos + 2))).toNat_lt
      have hnext : entryFraming.next data pos < 2 ^ 34 := by
        rw [entryFraming_next]
        omega
      rw [entriesFrom_header r n hhead hlen, ← entryFraming_next]
      obtain ⟨hheaded, rest, hrest⟩ | ⟨hheaded, hraises⟩ := ih hnext
      · exact .inl ⟨⟨hhead, hheaded⟩, _, map_eq_ok_iff.mpr ⟨rest, hrest, rfl⟩⟩
      · exact .inr ⟨fun h => hheaded h.2, hraises.bind _⟩
    · exact .inr ⟨fun h => hhead h.1, entriesFrom_raises r n (by omega) hpos⟩

end

namespace LuaShim

open Doubles Lua

structure TableString where
  octets : Octets
  long : 4 ≤ octets.length
  short : octets.length ≤ maxString

namespace TableString
variable (r : Rounding) (t : TableString)

def count : ℕ := (readU32Le t.octets).toNat

def place (i : ℕ) : ℕ := entryFraming.start t.octets 4 i

/-- The string ends behind the header of the last entry and before the end of its data. -/
def CutShort : Prop :=
  ∃ last, t.count = last + 1 ∧ t.place last + 6 ≤ t.octets.length ∧
    t.octets.length < t.place (last + 1)

/-- Where the loader throws, the shim raises an error. -/
def Detected : Prop :=
  ∀ fault, starParseSubEntries t.octets = .error fault → Raises (parseSubEntries r t.octets)

lemma starParseSubEntries_eq :
    starParseSubEntries t.octets = starParseFrom t.octets t.count 0 4 := by
  rw [starParseSubEntries, if_neg (not_lt.mpr t.long), count]

lemma parseSubEntries_eq :
    parseSubEntries r t.octets = entriesFrom r t.octets t.count ((4 + 1 : ℕ) : ℚ) := by
  have hcount := u32Le_eq r (s := t.octets) (k := 0) t.long (by decide)
  rw [cast_one] at hcount
  rw [parseSubEntries, if_neg (not_lt.mpr t.long), hcount, ok_bind, Int.floor_natCast, count]
  norm_num

lemma starParseSubEntries_ok_iff : (∃ entries, starParseSubEntries t.octets = .ok entries) ↔
    t.place t.count ≤ t.octets.length := by
  rw [t.starParseSubEntries_eq, starParseFrom_ok_iff (t.short.trans_lt (by decide)),
    Framing.forall_start_le_iff _ _ t.long, place]

lemma headed_iff {last : ℕ} (h : t.count = last + 1) :
    Headed t.octets 4 t.count ↔ t.place last + 6 ≤ t.octets.length := by
  rw [h]
  exact Framing.forall_header_le_iff entryFraming t.octets

lemma parseSubEntries_cases :
    Headed t.octets 4 t.count ∧ (∃ entries, parseSubEntries r t.octets = .ok entries) ∨
    ¬ Headed t.octets 4 t.count ∧ Raises (parseSubEntries r t.octets) := by
  rw [t.parseSubEntries_eq]
  exact entriesFrom_cases r t.short (by decide) t.count

lemma not_detected (h : t.CutShort) : ¬ t.Detected r := by
  obtain ⟨last, hcount, hhead, hend⟩ := h
  intro hdetected
  cases hloader : starParseSubEntries t.octets with
  | ok entries =>
    have hle := t.starParseSubEntries_ok_iff.mp ⟨entries, hloader⟩
    rw [hcount] at hle
    omega
  | error fault =>
    obtain ⟨message, hraised⟩ := hdetected fault hloader
    obtain ⟨-, entries, hok⟩ | ⟨hheaded, -⟩ := t.parseSubEntries_cases r
    · rw [hok] at hraised
      cases hraised
    · exact hheaded ((t.headed_iff hcount).mpr hhead)

/-- The shim does not see that the last entry is cut off, and nothing else escapes it. -/
theorem detected_iff : t.Detected r ↔ ¬ t.CutShort := by
  refine ⟨fun h hcut => t.not_detected r hcut h, ?_⟩
  intro hcut fault hfault
  obtain ⟨hheaded, -⟩ | ⟨-, hraises⟩ := t.parseSubEntries_cases r
  · have hend : t.octets.length < t.place t.count := by
      by_contra hle
      obtain ⟨entries, hok⟩ := t.starParseSubEntries_ok_iff.mpr (not_lt.mp hle)
      rw [hfault] at hok
      cases hok
    cases hcount : t.count with
    | zero =>
      rw [hcount] at hend
      exact absurd t.long (not_le.mpr hend)
    | succ last =>
      rw [hcount] at hend
      exact absurd ⟨last, hcount, (t.headed_iff hcount).mp hheaded, hend⟩ hcut
  · exact hraises

def missingName : TableString where
  octets := [1, 0, 0, 0, 1, 0, 0, 0, 0, 0]
  long := by decide
  short := by decide

theorem missingName_not_detected : ¬ missingName.Detected .none :=
  missingName.not_detected .none ⟨0, by decide, by decide, by decide⟩

end TableString

end LuaShim

end Millennium.Star
