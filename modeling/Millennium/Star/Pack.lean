import Millennium.Star.Bounds

/-!
# The packer and the loader

A container is first described by its parts, for which loading and decoding are computed once;
`pack` of the build tool is then shown to write such parts.
-/

namespace Millennium.Star

open Bytes Outcome List UInt64

structure SubEntry where
  name : Octets
  data : Octets
  deriving Repr, DecidableEq

/-- `serialize_sub_entries`; the lengths are truncated to their fields. -/
def serializeSubEntries (entries : List SubEntry) : Octets :=
  leBytes 4 entries.length ++ entries.flatMap fun entry =>
    leBytes 2 entry.name.length ++ leBytes 4 entry.data.length ++ entry.name ++ entry.data

/-- What `pack` has collected when it starts to lay the container out. -/
structure PackInput where
  metadata : Octets
  backend : Option Octets
  frontend : Option Octets
  webkit : Option Octets
  assets : List SubEntry
  shim : Octets

def PackInput.rawSections (p : PackInput) : List (UInt8 × Octets) :=
  (secMetadata, p.metadata) :: (p.backend.toList.map (secBackend, ·) ++
    (p.frontend.toList.map (secFrontend, ·) ++ p.webkit.toList.map (secWebkit, ·)))

structure EncodedSection where
  id : UInt8
  encodeFlags : UInt8
  bytes : Octets

section
variable (compressPrependSize : Octets → Octets) (crc32 : Octets → UInt32)

def encodeSection (blob : Octets) : Octets × UInt8 :=
  (xorObfuscate (weaveParity (compressPrependSize blob)), flagObfuscated ||| flagCompressed)

def encodeSections (raw : List (UInt8 × Octets)) : List EncodedSection :=
  raw.map fun (id, blob) =>
    let (bytes, encodeFlags) := encodeSection compressPrependSize blob
    ⟨id, encodeFlags, bytes⟩

def entryAt (offset : UInt64) (s : EncodedSection) : StarSection where
  id := s.id
  encodeFlags := s.encodeFlags
  metaFlags := 0
  offset := offset
  length := ofNat s.bytes.length
  crc32 := crc32 s.bytes

/-- The loop that hands out offsets: the entries, and the offset behind the last. -/
def placeSections : UInt64 → List EncodedSection → List StarSection × UInt64
  | offset, [] => ([], offset)
  | offset, s :: rest =>
    let (entries, last) := placeSections (offset + ofNat s.bytes.length) rest
    (entryAt crc32 offset s :: entries, last)

/-- `section_entries`, with the deferred entry of the assets behind the signature. -/
def sectionEntries (willSign : Bool) (encoded : List EncodedSection) (assets : List SubEntry) :
    List StarSection :=
  let sectionCount := encoded.length + if assets ≠ [] then 1 else 0
  let headerRegion := starHeaderSize + sectionCount * starEntrySize
  let (entries, offset) := placeSections crc32 (ofNat headerRegion) encoded
  let sigGap : UInt64 := if willSign then 64 else 0
  if assets ≠ [] then
    let assetBlob := serializeSubEntries assets
    entries ++ [⟨secAssets, 0, metaFlagDeferred, offset + sigGap,
      ofNat assetBlob.length, crc32 assetBlob⟩]
  else entries

/-- `pack`; `try_sign_star` signs what has been laid out so far, if there is a key. -/
def pack (trySignStar : Option (Octets → Octets)) (p : PackInput) : Octets :=
  let encoded := encodeSections compressPrependSize p.rawSections
  let sectionCount := encoded.length + if p.assets ≠ [] then 1 else 0
  let entries := sectionEntries crc32 trySignStar.isSome encoded p.assets
  let out := leBytes 4 p.shim.length ++ (p.shim ++
    ((StarHeader.new (UInt8.ofNat sectionCount) p.shim).toBytes ++
      (entries.flatMap StarSection.toBytes ++ encoded.flatMap EncodedSection.bytes)))
  let out := match trySignStar with
    | some sign => out ++ sign out
    | none =>
      let flagsOffset := 4 + p.shim.length + 7
      out.set flagsOffset (byteAt out flagsOffset &&& ~~~starFlagSigned)
  if p.assets ≠ [] then out ++ serializeSubEntries p.assets else out

end

open EncodedSection

/-- A container as the loader sees it: what follows the sections is not described. -/
structure Container where
  shim : Octets
  header : StarHeader
  entries : List StarSection
  body : Octets
  tail : Octets

namespace Container

def toBytes (c : Container) : Octets :=
  leBytes 4 c.shim.length ++ (c.shim ++ (c.header.toBytes ++
    (c.entries.flatMap StarSection.toBytes ++ (c.body ++ c.tail))))

def bodyOffset (c : Container) : Nat := starHeaderSize + c.entries.length * starEntrySize

/-- What the loader checks, and that the sections lie in the body. -/
structure WellFormed (c : Container) : Prop where
  shim_le : c.shim.length ≤ maxShimSize
  version : c.header.versionMajor = formatVersion
  count : c.header.sectionCount.toNat = c.entries.length
  count_le : c.entries.length ≤ maxSections
  admissible : ∀ s ∈ c.entries, s.Admissible
  inside : ∀ s ∈ c.entries, ¬ s.deferred →
    s.offset.toNat + s.length.toNat ≤ c.bodyOffset + c.body.length
  body_lt : c.body.length < 2 ^ 32

lemma toBytes_drop_shim (c : Container) : c.toBytes.drop (4 + c.shim.length) = c.header.toBytes ++
    (c.entries.flatMap StarSection.toBytes ++ (c.body ++ c.tail)) := by
  rw [toBytes, ← append_assoc]
  exact drop_left' (by rw [length_append, leBytes_length])

lemma toBytes_drop_header (c : Container) : c.toBytes.drop (4 + c.shim.length + starHeaderSize) =
    c.entries.flatMap StarSection.toBytes ++ (c.body ++ c.tail) := by
  rw [← drop_drop, toBytes_drop_shim]
  exact drop_left' (StarHeader.toBytes_length _)

lemma table_length (l : List StarSection) :
    (l.flatMap StarSection.toBytes).length = l.length * starEntrySize := by
  induction l with
  | nil => rfl
  | cons s rest ih =>
    rw [flatMap_cons, length_append, StarSection.toBytes_length, ih,
      length_cons, Nat.add_mul, Nat.one_mul, Nat.add_comm]

lemma toBytes_drop_body (c : Container) :
    c.toBytes.drop (4 + c.shim.length + c.bodyOffset) = c.body ++ c.tail := by
  rw [bodyOffset, ← Nat.add_assoc, ← drop_drop, toBytes_drop_header]
  exact drop_left' (table_length _)

lemma toBytes_length (c : Container) :
    c.toBytes.length = 4 + c.shim.length + c.bodyOffset + (c.body.length + c.tail.length) := by
  simp only [toBytes, bodyOffset, length_append, leBytes_length, StarHeader.toBytes_length,
    table_length]
  omega

lemma readSection_table (l : List StarSection) (rest : Octets) {i : Nat} (hi : i < l.length) :
    readSection ((l.flatMap StarSection.toBytes ++ rest).drop (i * starEntrySize)) = l[i] := by
  induction l generalizing i with
  | nil => cases hi
  | cons s more ih =>
    rw [flatMap_cons, append_assoc]
    cases i with
    | zero =>
      calc
        readSection (s.toBytes ++ (more.flatMap StarSection.toBytes ++ rest)) =
            readSection s.toBytes := by
              apply readSection_congr
              intro j hj
              apply byteAt_append_left
              rw [StarSection.toBytes_length]
              exact Nat.lt_of_lt_of_le hj (by decide)
        _ = s := readSection_toBytes s
    | succ =>
      rw [Nat.add_mul, Nat.one_mul, Nat.add_comm, ← drop_drop,
        drop_left' (StarSection.toBytes_length s)]
      exact ih (Nat.lt_of_succ_lt_succ hi)

lemma tableEntries_toBytes (c : Container) :
    tableEntries c.toBytes (4 + c.shim.length) c.entries.length = c.entries := by
  apply ext_getElem (tableEntries_length _ _ _)
  intro i _ hi
  simp only [tableEntries, getElem_map, getElem_range]
  rw [← drop_drop, toBytes_drop_header]
  exact readSection_table c.entries _ hi

lemma readU32Le_shimLength {n : Nat} (h : n ≤ maxShimSize) :
    (readU32Le (leBytes 4 n)).toNat = n := by
  have hmax : maxShimSize = 4194304 := rfl
  have hfit : (UInt32.ofNat n).toNat = n :=
    UInt32.toNat_ofNat_of_lt' (by change _ < 4294967296; omega)
  have hread := readU32Le_leBytes (UInt32.ofNat n) []
  rw [append_nil, hfit] at hread
  rw [hread, hfit]

lemma shimLength_ne_magic {n : Nat} (h : n ≤ maxShimSize) : leBytes 4 n ≠ starMagic := by
  intro hmagic
  have hlen := readU32Le_shimLength h
  rw [hmagic] at hlen
  have hbig : (readU32Le starMagic).toNat = 1380013139 := by decide
  have hmax : maxShimSize = 4194304 := rfl
  omega

lemma toBytes_take_four (c : Container) : c.toBytes.take 4 = leBytes 4 c.shim.length :=
  take_left' (leBytes_length _ _)

lemma starStartOf_toBytes (c : Container) (h : c.shim.length ≤ maxShimSize) :
    starStartOf c.toBytes = some (4 + c.shim.length) := by
  have hpre : slice c.toBytes 0 4 = leBytes 4 c.shim.length := c.toBytes_take_four
  have hsize := c.toBytes_length
  have hbody : 12 ≤ c.bodyOffset := Nat.le_add_right _ _
  rw [starStartOf_eq_some_iff, hpre, readU32Le_shimLength h]
  exact ⟨by omega, .inr ⟨shimLength_ne_magic h, rfl, by omega, by omega⟩⟩

lemma byteAt_toBytes_header (c : Container) (i : Nat) :
    byteAt c.toBytes (4 + c.shim.length + i) = byteAt (c.header.toBytes ++
    (c.entries.flatMap StarSection.toBytes ++ (c.body ++ c.tail))) i := by
  rw [← byteAt_drop, toBytes_drop_shim]

lemma starSectionCount_toBytes {c : Container} (hversion : c.header.versionMajor = formatVersion)
    (hcount : c.header.sectionCount.toNat = c.entries.length)
    (hmax : c.entries.length ≤ maxSections) :
    starSectionCount c.toBytes (4 + c.shim.length) = some c.entries.length := by
  refine (starSectionCount_eq_some_iff _ _ _).mpr ⟨?_, ?_, ?_, hmax, ?_⟩
  · rw [slice, toBytes_drop_shim]
    rfl
  · rw [byteAt_toBytes_header]
    exact hversion
  · rw [byteAt_toBytes_header]
    exact hcount.symm
  · have hsize := c.toBytes_length
    rw [bodyOffset] at hsize
    omega

lemma load_toBytes {c : Container} (hw : c.WellFormed) :
    starLoadBounded c.toBytes = some ⟨4 + c.shim.length, c.entries, c.toBytes.take
      (readLimit c.toBytes.length (4 + c.shim.length) (maxEagerEnd c.entries))⟩ :=
  (loaded_iff _ _).mpr ⟨c.entries.length, starStartOf_toBytes c hw.shim_le,
    starSectionCount_toBytes hw.version hw.count hw.count_le, (tableEntries_toBytes c).symm,
    hw.admissible, rfl⟩

lemma WellFormed.bodyEnd_lt {c : Container} (hw : c.WellFormed) :
    c.bodyOffset + c.body.length < 2 ^ 33 := by
  have hcount : c.entries.length * starEntrySize ≤ maxSections * starEntrySize :=
    Nat.mul_le_mul_right _ hw.count_le
  have hbody := hw.body_lt
  simp only [bodyOffset, maxSections, starEntrySize, starHeaderSize] at *
  omega

lemma WellFormed.maxEagerEnd_le_bodyEnd {c : Container} (hw : c.WellFormed) :
    (maxEagerEnd c.entries).toNat ≤ c.bodyOffset + c.body.length := by
  have hlt := hw.bodyEnd_lt
  have hfit : (ofNat (c.bodyOffset + c.body.length)).toNat =
      c.bodyOffset + c.body.length :=
    toNat_ofNat_of_lt' (by change _ < 2 ^ 64; omega)
  have hle : maxEagerEnd c.entries ≤ ofNat (c.bodyOffset + c.body.length) := by
    apply maxEagerEnd_le
    intro s hs hdef
    have hin := hw.inside s hs hdef
    rw [le_iff_toNat_le, UInt64.toNat_add]
    omega
  rw [le_iff_toNat_le, hfit] at hle
  exact hle

lemma decode_toBytes {c : Container} (hw : c.WellFormed) {s : StarSection}
    (hs : s ∈ c.entries) (hdef : ¬ s.deferred) (hoff : c.bodyOffset ≤ s.offset.toNat) :
    starDecodeSection (c.toBytes.take
        (readLimit c.toBytes.length (4 + c.shim.length) (maxEagerEnd c.entries)))
        (4 + c.shim.length) s =
    starDecodeBlob s.encodeFlags
        (slice c.body (s.offset.toNat - c.bodyOffset) s.length.toNat) := by
  have hshim : c.shim.length ≤ 4194304 := hw.shim_le
  have hlt := hw.bodyEnd_lt
  have hmax := hw.maxEagerEnd_le_bodyEnd
  have hin := hw.inside s hs hdef
  have hsize := c.toBytes_length
  have hend : s.offset.toNat + s.length.toNat ≤ (maxEagerEnd c.entries).toNat := by
    have hle := le_iff_toNat_le.mp (end_le_maxEagerEnd hs hdef)
    rw [UInt64.toNat_add] at hle
    omega
  -- the read limit does not wrap and lies behind the section
  have hlimit : readLimit c.toBytes.length (4 + c.shim.length) (maxEagerEnd c.entries) =
      min c.toBytes.length (4 + c.shim.length + (maxEagerEnd c.entries).toNat + sigLen) := by
    rw [readLimit, addU64_addU64, Nat.mod_eq_of_lt]
    simp only [sigLen]
    omega
  have hlen := length_take_of_le (l := c.toBytes) (Nat.min_le_left c.toBytes.length
    (4 + c.shim.length + (maxEagerEnd c.entries).toNat + sigLen))
  have hrange : starSectionRange (c.toBytes.take
      (readLimit c.toBytes.length (4 + c.shim.length) (maxEagerEnd c.entries))).length
      (4 + c.shim.length) s = .ok (4 + c.shim.length + s.offset.toNat, s.length.toNat) := by
    rw [hlimit, hlen, starSectionRange_ok_iff (by omega) (by simp only [sigLen]; omega)]
    exact ⟨rfl, rfl, by omega⟩
  have hslice : slice c.toBytes (4 + c.shim.length + s.offset.toNat) s.length.toNat =
      slice c.body (s.offset.toNat - c.bodyOffset) s.length.toNat := by
    calc
      slice c.toBytes (4 + c.shim.length + s.offset.toNat) s.length.toNat =
          slice (c.toBytes.drop (4 + c.shim.length + c.bodyOffset))
            (s.offset.toNat - c.bodyOffset) s.length.toNat := by
              rw [slice, slice, drop_drop]
              congr 2
              omega
      _ = slice c.body (s.offset.toNat - c.bodyOffset) s.length.toNat := by
              rw [toBytes_drop_body, slice_append_left (by omega)]
  have hread := (readRange_eq_ok_iff (c.toBytes.take
    (readLimit c.toBytes.length (4 + c.shim.length) (maxEagerEnd c.entries)))
    (4 + c.shim.length + s.offset.toNat) s.length.toNat _).mpr ⟨by rw [hlimit]; omega, rfl⟩
  rw [starDecodeSection, hrange]
  simp only [hread, ok_bind]
  rw [slice_take (by rw [hlimit]; omega), hslice]

end Container

section
variable {compress : Octets → Octets} {crc32 : Octets → UInt32}

lemma placeSections_append (pre post : List EncodedSection) (n : Nat) :
    (placeSections crc32 (ofNat n) (pre ++ post)).1 =
    (placeSections crc32 (ofNat n) pre).1 ++
    (placeSections crc32 (ofNat (n + (pre.flatMap bytes).length)) post).1 := by
  induction pre generalizing n with
  | nil => rfl
  | cons s rest ih =>
    simp [placeSections, ← ofNat_add, ih, Nat.add_assoc]

lemma placeSections_ids (l : List EncodedSection) (offset : UInt64) :
    (placeSections crc32 offset l).1.map StarSection.id = l.map EncodedSection.id := by
  induction l generalizing offset with
  | nil => rfl
  | cons s rest ih => simp [placeSections, ih, entryAt]

lemma placeSections_length (l : List EncodedSection) (offset : UInt64) :
    (placeSections crc32 offset l).1.length = l.length := by
  have hids : (placeSections crc32 offset l).1.map StarSection.id = l.map EncodedSection.id :=
    placeSections_ids l offset
  simpa using congrArg List.length hids

lemma mem_placeSections {l : List EncodedSection} {n : Nat} {s : StarSection}
    (h : s ∈ (placeSections crc32 (ofNat n) l).1) :
    ∃ pre x post, l = pre ++ x :: post ∧
    s = entryAt crc32 (ofNat (n + (pre.flatMap bytes).length)) x := by
  induction l generalizing n with
  | nil => cases h
  | cons x rest ih =>
    simp only [placeSections, ← ofNat_add] at h
    rcases mem_cons.mp h with rfl | h
    · exact ⟨[], x, rest, rfl, rfl⟩
    · obtain ⟨pre, y, post, rfl, rfl⟩ := ih h
      refine ⟨x :: pre, y, post, rfl, ?_⟩
      rw [flatMap_cons, length_append, Nat.add_assoc]

lemma starDecodeBlob_encodeSection {blob : Octets}
    (hlz4 : ∃ block : Lz4.Block, block.Valid ∧ block.expand = blob ∧
    compress blob = leBytes 4 blob.length ++ block.encode)
    (hmax : blob.length ≤ starDecompressMax) :
    starDecodeBlob (encodeSection compress blob).2
      (encodeSection compress blob).1 = .ok blob := by
  obtain ⟨block, hvalid, rfl, hcompress⟩ := hlz4
  have hflags : flagObfuscated ||| flagCompressed ≠ 0 := by decide
  have hobf : (flagObfuscated ||| flagCompressed) &&& flagObfuscated ≠ 0 := by decide
  have hcomp : (flagObfuscated ||| flagCompressed) &&& flagCompressed ≠ 0 := by decide
  simp only [starDecodeBlob, encodeSection, if_pos hobf, starXorDecode_xorObfuscate,
    starStripParity_weaveParity, hcompress]
  exact starDecompress_prependSize block hvalid hmax

def packed (compressPrependSize : Octets → Octets) (crc32 : Octets → UInt32)
    (trySignStar : Option (Octets → Octets)) (p : PackInput) : Container :=
  let encoded := encodeSections compressPrependSize p.rawSections
  let entries := sectionEntries crc32 trySignStar.isSome encoded p.assets
  let header := StarHeader.new
    (UInt8.ofNat (encoded.length + if p.assets ≠ [] then 1 else 0)) p.shim
  let body := encoded.flatMap bytes
  let assetBlob := if p.assets ≠ [] then serializeSubEntries p.assets else []
  match trySignStar with
  | some sign => ⟨p.shim, header, entries, body,
      sign (leBytes 4 p.shim.length ++ (p.shim ++ (header.toBytes ++
        (entries.flatMap StarSection.toBytes ++ body)))) ++ assetBlob⟩
  | none => ⟨p.shim, { header with starFlags := header.starFlags &&& ~~~starFlagSigned },
      entries, body, assetBlob⟩

lemma modify_starFlags (f : UInt8 → UInt8) (pre : Octets) (h : StarHeader) (rest : Octets) :
    (pre ++ (h.toBytes ++ rest)).set (pre.length + 7)
        (f (byteAt (pre ++ (h.toBytes ++ rest)) (pre.length + 7))) =
    pre ++ ({ h with starFlags := f h.starFlags }.toBytes ++ rest) := by
  have hat : byteAt (pre ++ (h.toBytes ++ rest)) (pre.length + 7) = h.starFlags := by
    rw [byteAt_append_right]
    rfl
  rw [hat, set_append_right _ _ (Nat.le_add_right _ _), Nat.add_sub_cancel_left]
  rfl

lemma pack_eq_toBytes (trySign : Option (Octets → Octets)) (p : PackInput) :
    pack compress crc32 trySign p =
    (packed compress crc32 trySign p).toBytes := by
  cases trySign with
  | some =>
    simp only [pack, packed, Container.toBytes]
    split_ifs <;> simp
  | none =>
    have hpre : 4 + p.shim.length + 7 = (leBytes 4 p.shim.length ++ p.shim).length + 7 := by
      simp
    simp only [pack, packed, Container.toBytes, hpre, ← append_assoc (leBytes 4 _) p.shim,
      modify_starFlags (· &&& ~~~starFlagSigned)]
    split_ifs <;> simp

lemma sectionEntries_eq (willSign : Bool) (encoded : List EncodedSection) (assets : List SubEntry) :
    ∃ rest, sectionEntries crc32 willSign encoded assets =
        (placeSections crc32 (ofNat (starHeaderSize +
          (encoded.length + if assets ≠ [] then 1 else 0) * starEntrySize)) encoded).1 ++ rest ∧
      rest.length = (if assets ≠ [] then 1 else 0) ∧ ∀ s ∈ rest, s.deferred ∧ s.known := by
  unfold sectionEntries
  by_cases h : assets ≠ []
  · simp only [if_pos h]
    refine ⟨_, rfl, rfl, ?_⟩
    intro s hs
    rw [mem_singleton.mp hs]
    exact ⟨by simp [StarSection.deferred, metaFlagDeferred], by simp [StarSection.known]⟩
  · simp only [if_neg h]
    exact ⟨[], by simp, rfl, by simp⟩

section
variable (trySign : Option (Octets → Octets)) (p : PackInput)

@[simp] lemma packed_shim :
    (packed compress crc32 trySign p).shim = p.shim := by
  cases trySign <;> rfl

@[simp] lemma packed_entries :
    (packed compress crc32 trySign p).entries = sectionEntries crc32
      trySign.isSome (encodeSections compress p.rawSections) p.assets := by
  cases trySign <;> rfl

@[simp] lemma packed_body :
    (packed compress crc32 trySign p).body =
    (encodeSections compress p.rawSections).flatMap bytes := by
  cases trySign <;> rfl

@[simp] lemma packed_version :
    (packed compress crc32 trySign p).header.versionMajor = formatVersion := by
  cases trySign <;> rfl

@[simp] lemma packed_count :
    (packed compress crc32 trySign p).header.sectionCount =
      UInt8.ofNat ((encodeSections compress p.rawSections).length +
        if p.assets ≠ [] then 1 else 0) := by
  cases trySign <;> rfl

end

lemma PackInput.rawSections_length_le (p : PackInput) : p.rawSections.length ≤ 4 := by
  have hopt (o : Option Octets) : o.toList.length ≤ 1 := by cases o <;> simp
  have h₁ := hopt p.backend
  have h₂ := hopt p.frontend
  have h₃ := hopt p.webkit
  simp only [rawSections, length_cons, length_append, length_map]
  omega

lemma PackInput.rawSections_ids_sublist (p : PackInput) :
    (p.rawSections.map Prod.fst).Sublist [secMetadata, secBackend, secFrontend, secWebkit] := by
  have hopt (id : UInt8) (o : Option Octets) :
      ((o.toList.map (id, ·)).map Prod.fst).Sublist [id] := by
    cases o with
    | none => exact nil_sublist _
    | some => exact List.Sublist.refl _
  rw [rawSections, map_cons, map_append, map_append]
  exact ((hopt secBackend p.backend).append
    ((hopt secFrontend p.frontend).append (hopt secWebkit p.webkit))).cons_cons _

lemma PackInput.rawSections_nodup (p : PackInput) : (p.rawSections.map Prod.fst).Nodup :=
  p.rawSections_ids_sublist.nodup (by decide)

lemma body_length_le {l : List EncodedSection} {bound : Nat} (h : ∀ s ∈ l, s.bytes.length ≤ bound) :
    (l.flatMap bytes).length ≤ l.length * bound := by
  induction l with
  | nil => exact Nat.zero_le _
  | cons s rest ih =>
    have hs := h s mem_cons_self
    have hrest := ih (fun x hx => h x (mem_cons_of_mem _ hx))
    calc
      ((s :: rest).flatMap bytes).length =
          s.bytes.length + (rest.flatMap bytes).length := by
            rw [flatMap_cons, length_append]
      _ ≤ bound + rest.length * bound := Nat.add_le_add hs hrest
      _ = (s :: rest).length * bound := by
            rw [length_cons, Nat.add_mul, Nat.one_mul, Nat.add_comm]

lemma section_end_le {pre post : List EncodedSection} {x : EncodedSection} :
    (pre.flatMap bytes).length + x.bytes.length ≤
    ((pre ++ x :: post).flatMap bytes).length := by
  rw [flatMap_append, flatMap_cons, length_append, length_append]
  omega

lemma entryAt_eager (offset : UInt64) (s : EncodedSection) :
    ¬ (entryAt crc32 offset s).deferred ∧ ¬ (entryAt crc32 offset s).required := by
  simp [entryAt, StarSection.deferred, StarSection.required]

lemma entryAt_toNat {n : Nat} {s : EncodedSection} (h : n + s.bytes.length < 2 ^ 64) :
    (entryAt crc32 (ofNat n) s).offset.toNat = n ∧
    (entryAt crc32 (ofNat n) s).length.toNat = s.bytes.length :=
  ⟨toNat_ofNat_of_lt' (by change _ < 2 ^ 64; omega),
    toNat_ofNat_of_lt' (by change _ < 2 ^ 64; omega)⟩

section
variable {trySign : Option (Octets → Octets)} {p : PackInput}

lemma packed_length : (packed compress crc32 trySign p).entries.length =
      (encodeSections compress p.rawSections).length +
        if p.assets ≠ [] then 1 else 0 := by
  obtain ⟨rest, hents, hrest, -⟩ := @sectionEntries_eq crc32
    trySign.isSome (encodeSections compress p.rawSections) p.assets
  rw [packed_entries, hents, length_append, placeSections_length, hrest]

lemma packed_bodyOffset : (packed compress crc32 trySign p).bodyOffset =
      starHeaderSize + ((encodeSections compress p.rawSections).length +
        if p.assets ≠ [] then 1 else 0) * starEntrySize := by
  rw [Container.bodyOffset, packed_length]

lemma packed_entry_cases {s : StarSection}
    (hs : s ∈ (packed compress crc32 trySign p).entries) :
    (s.deferred ∧ s.known) ∨
    ∃ pre x post, encodeSections compress p.rawSections = pre ++ x :: post ∧
    s = entryAt crc32 (ofNat ((packed compress crc32 trySign p).bodyOffset +
    (pre.flatMap bytes).length)) x := by
  obtain ⟨rest, hents, -, hassets⟩ := @sectionEntries_eq crc32
    trySign.isSome (encodeSections compress p.rawSections) p.assets
  rw [packed_entries, hents] at hs
  rcases mem_append.mp hs with hs | hs
  · rw [packed_bodyOffset]
    exact .inr (mem_placeSections hs)
  · exact .inl (hassets s hs)

lemma packed_length_le : (packed compress crc32 trySign p).entries.length ≤ 5 := by
  have hcount := p.rawSections_length_le
  rw [packed_length, encodeSections, length_map]
  split_ifs <;> omega

lemma packed_sectionCount :
    (packed compress crc32 trySign p).header.sectionCount.toNat =
    (packed compress crc32 trySign p).entries.length := by
  have hle := @packed_length_le compress crc32 trySign p
  rw [packed_length] at hle
  rw [packed_count, packed_length]
  exact UInt8.toNat_ofNat_of_lt' (by change _ < 256; omega)

lemma packed_wellFormed (hshim : p.shim.length ≤ maxShimSize) (hsize : ∀ s ∈ p.rawSections,
    (encodeSection compress s.2).1.length ≤ maxSectionSize) :
    (packed compress crc32 trySign p).WellFormed := by
  have hcount : (encodeSections compress p.rawSections).length ≤ 4 := by
    rw [encodeSections, length_map]
    exact p.rawSections_length_le
  have hbytes : ∀ s ∈ encodeSections compress p.rawSections,
      s.bytes.length ≤ maxSectionSize := by
    intro s hs
    obtain ⟨raw, hraw, rfl⟩ := mem_map.mp hs
    exact hsize raw hraw
  have hbody : ((encodeSections compress p.rawSections).flatMap
      bytes).length ≤ 4 * maxSectionSize :=
    le_trans (body_length_le hbytes) (Nat.mul_le_mul_right _ hcount)
  have hmax : maxSectionSize = 268435456 := rfl
  have hoffset : (packed compress crc32 trySign p).bodyOffset ≤
      starHeaderSize + 5 * starEntrySize := by
    rw [packed_bodyOffset]
    refine Nat.add_le_add_left (Nat.mul_le_mul_right _ ?_) _
    split_ifs <;> omega
  have hregion : starHeaderSize + 5 * starEntrySize = 1292 := rfl
  refine
    { shim_le := by rwa [packed_shim]
      version := packed_version _ _
      count := packed_sectionCount
      count_le := packed_length_le.trans (by decide)
      admissible := ?_
      inside := ?_
      body_lt := by rw [packed_body]; omega }
  · intro s hs
    rcases packed_entry_cases hs with ⟨hdef, hknown⟩ | ⟨pre, x, post, hsplit, rfl⟩
    · exact ⟨fun h => h.2 hknown, fun h => h.1 hdef⟩
    · have hx := hbytes x (by simp [hsplit])
      have hfit : (ofNat x.bytes.length).toNat = x.bytes.length :=
        toNat_ofNat_of_lt' (by change _ < 2 ^ 64; omega)
      refine ⟨fun h => (entryAt_eager _ x).2 h.1, fun h => ?_⟩
      have hlong : maxSectionSize < (ofNat x.bytes.length).toNat := h.2
      omega
  · intro s hs hdef
    rcases packed_entry_cases hs with ⟨hdef', -⟩ | ⟨pre, x, post, hsplit, rfl⟩
    · exact absurd hdef' hdef
    · have hlen : (pre.flatMap bytes).length + x.bytes.length ≤
          ((encodeSections compress p.rawSections).flatMap bytes).length := by
        rw [hsplit]
        exact section_end_le
      obtain ⟨ho, hl⟩ := @entryAt_toNat crc32
        ((packed compress crc32 trySign p).bodyOffset +
          (pre.flatMap bytes).length) x (by omega)
      rw [packed_body]
      omega

lemma packed_findSection {pre post : List (UInt8 × Octets)} {id : UInt8} {blob : Octets}
    (hsplit : p.rawSections = pre ++ (id, blob) :: post) :
    findSection (packed compress crc32 trySign p).entries id =
    some (entryAt crc32 (ofNat ((packed compress crc32 trySign p).bodyOffset +
    ((encodeSections compress pre).flatMap bytes).length))
        ⟨id, (encodeSection compress blob).2,
    (encodeSection compress blob).1⟩) := by
  obtain ⟨rest, hents, -, -⟩ := @sectionEntries_eq crc32
    trySign.isSome (encodeSections compress p.rawSections) p.assets
  have henc : encodeSections compress p.rawSections =
      encodeSections compress pre ++ ⟨id, (encodeSection compress blob).2,
        (encodeSection compress blob).1⟩ :: encodeSections compress post := by
    rw [hsplit]
    exact map_append
  have hfresh : id ∉ pre.map Prod.fst := by
    have hnodup := p.rawSections_nodup
    rw [hsplit, map_append] at hnodup
    intro hmem
    exact (nodup_append.mp hnodup).2.2 id hmem id (by simp) rfl
  have hnone (offset : UInt64) : (placeSections crc32 offset
      (encodeSections compress pre)).1.find? (fun s => decide (s.id = id)) = none := by
    refine find?_eq_none.mpr fun s hs => ?_
    have hid := mem_map_of_mem (f := StarSection.id) hs
    rw [placeSections_ids, encodeSections, map_map] at hid
    simp only [decide_eq_true_eq]
    rintro rfl
    exact hfresh hid
  rw [packed_bodyOffset, packed_entries, hents, findSection, find?_append]
  nth_rewrite 2 [henc]
  rw [placeSections_append, find?_append, hnone]
  simp [placeSections, entryAt]

/-- Whatever the packer writes, the loader reads back. -/
theorem pack_loads_back (compressPrependSize : Octets → Octets) (crc32 : Octets → UInt32)
    (hlz4 : ∀ blob, ∃ block : Lz4.Block, block.Valid ∧ block.expand = blob ∧
      compressPrependSize blob = leBytes 4 blob.length ++ block.encode)
    (trySignStar : Option (Octets → Octets)) (p : PackInput)
    (hshim : p.shim.length ≤ maxShimSize)
    (hblob : ∀ s ∈ p.rawSections, s.2.length ≤ starDecompressMax)
    (hsize : ∀ s ∈ p.rawSections,
      (encodeSection compressPrependSize s.2).1.length ≤ maxSectionSize) :
    ∃ b, starLoadBounded (pack compressPrependSize crc32 trySignStar p) = some b ∧
      ∀ id blob, (id, blob) ∈ p.rawSections → ∃ s, findSection b.sections id = some s ∧
        starDecodeSection b.fileData b.starStart s = .ok blob := by
  have hw : (packed compressPrependSize crc32 trySignStar p).WellFormed :=
    packed_wellFormed hshim hsize
  refine ⟨_, by rw [pack_eq_toBytes]; exact Container.load_toBytes hw, ?_⟩
  intro id blob hmem
  obtain ⟨pre, post, hsplit⟩ := append_of_mem hmem
  have hfind := @packed_findSection compressPrependSize crc32 trySignStar p pre post id blob hsplit
  have hbody : (packed compressPrependSize crc32 trySignStar p).body =
      (encodeSections compressPrependSize pre).flatMap bytes ++
        (encodeSection compressPrependSize blob).1 ++
        (encodeSections compressPrependSize post).flatMap bytes := by
    rw [packed_body, hsplit]
    simp [encodeSections]
  have hlt := hw.bodyEnd_lt
  rw [hbody, length_append, length_append] at hlt
  refine ⟨_, hfind, ?_⟩
  obtain ⟨ho, hl⟩ := @entryAt_toNat crc32 ((packed compressPrependSize crc32 trySignStar p).bodyOffset +
    ((encodeSections compressPrependSize pre).flatMap bytes).length)
    ⟨id, (encodeSection compressPrependSize blob).2, (encodeSection compressPrependSize blob).1⟩
    (by simp only; omega)
  have hdecode := Container.decode_toBytes hw (findSection_mem hfind).1 (entryAt_eager _ _).1
    (by rw [ho]; exact Nat.le_add_right _ _)
  rw [ho, hl, Nat.add_sub_cancel_left, hbody, slice_middle] at hdecode
  exact hdecode.trans (starDecodeBlob_encodeSection (hlz4 blob) (hblob _ hmem))

def storeOnly (blob : Octets) : Octets :=
  leBytes 4 blob.length ++ (Lz4.literalBlock blob).encode

def smallProject : PackInput :=
  ⟨[0x80], none, some [1, 2, 3], none, [⟨[97], [5]⟩], [0x2d, 0x2d]⟩

theorem smallProject_loads_back :
    ∃ b, starLoadBounded (pack storeOnly (fun _ => 0) (some fun _ => List.replicate 64 7)
        smallProject) = some b ∧
      ∀ id blob, (id, blob) ∈ smallProject.rawSections →
        ∃ s, findSection b.sections id = some s ∧
          starDecodeSection b.fileData b.starStart s = .ok blob :=
  pack_loads_back storeOnly (fun _ => 0)
    (fun blob => ⟨Lz4.literalBlock blob, Lz4.literalBlock_valid blob,
      Lz4.literalBlock_expand blob, rfl⟩)
    (some fun _ => List.replicate 64 7) smallProject (by decide) (by decide)
    (by decide +kernel)

end

end

end Millennium.Star
