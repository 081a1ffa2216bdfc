import Millennium.Star.Pack

/-!
# Signing a container afterwards

`starlight sign` finds the place by the section table, moves the entry of the assets, sets the flag
of the header and puts the signature in between. For what `pack` writes, the result is what `pack`
writes with the key.
-/

namespace Millennium.Star

open Bytes Outcome List EncodedSection UInt64 Container

inductive ToolFault where
  | error (message : String)
  | panic
  deriving Repr, DecidableEq

def hex8 (w : UInt32) : String :=
  String.ofList ((List.range 8).reverse.map fun i => Nat.digitChar (w.toNat / 16 ^ i % 16))

def plgStartOf (data : Octets) : Except ToolFault Nat :=
  if data.length < 4 then .error (.error "file too short")
  else if data.take 4 = starMagic then .ok 0
  else
    let shimLen := (readU32Le (data.take 4)).toNat
    if data.length < 4 + shimLen then .error (.error "shim prefix extends beyond file")
    else .ok (4 + shimLen)

def StarHeader.fromBytes (bytes : Octets) : Except ToolFault StarHeader :=
  if bytes.take 4 ≠ starMagic then .error (.error "invalid magic (not a .star file)")
  else .ok
    { versionMajor := byteAt bytes 4
      versionMinor := byteAt bytes 5
      sectionCount := byteAt bytes 6
      starFlags := byteAt bytes 7
      shimIntegrity := readU32Le (bytes.drop 8) }

def readTable (data : Octets) (count : Nat) : List StarSection :=
  (List.range count).map fun i => readSection (slice data (i * starEntrySize) starEntrySize)

section
variable (verifyStar : Octets → Octets → Bool)

/-- The part of `parse_header` for signed files. The sums wrap as `usize` does. -/
def checkSignature (data : Octets) (plgStart : Nat) (header : StarHeader)
    (entries : List StarSection) : Except ToolFault Unit :=
  if header.starFlags &&& starFlagSigned = 0 then .ok ()
  else
    let sigStart := sigStart plgStart entries
    if data.length < addU64 sigStart sigLen then
      .error (.error "STAR_FLAG_SIGNED is set but file is too short to contain a signature")
    else if data.length < sigStart then .error .panic
    else if verifyStar (data.take sigStart) (slice data sigStart sigLen) then .ok ()
    else .error (.error ("Ed25519 signature verification failed — file has been tampered with " ++
      "or signed with a different key"))

def checkShim (data : Octets) (plgStart : Nat) (header : StarHeader) : Except ToolFault Unit :=
  if plgStart = 0 then .ok ()
  else
    let computed := fnv1a (slice data 4 (plgStart - 4))
    if computed = header.shimIntegrity then .ok ()
    else .error (.error ("shim integrity check failed: stored " ++ hex8 header.shimIntegrity ++
      ", computed " ++ hex8 computed ++ " — shim may have been tampered with"))

def parseHeader (data : Octets) : Except ToolFault (StarHeader × List StarSection × Nat) := do
  let plgStart ← plgStartOf data
  let plg := data.drop plgStart
  if plg.length < starHeaderSize then .error (.error "file too short to contain a header")
  else
    let header ← StarHeader.fromBytes (plg.take starHeaderSize)
    let tableEnd := starHeaderSize + header.sectionCount.toNat * starEntrySize
    if plg.length < tableEnd then .error (.error "file too short to contain section table")
    else
      let entries := readTable ((plg.take tableEnd).drop starHeaderSize) header.sectionCount.toNat
      checkSignature verifyStar data plgStart header entries
      checkShim data plgStart header
      .ok (header, entries, plgStart)

def readSectionBlob (data : Octets) (plgStart : Nat) (entry : StarSection) :
    Except ToolFault Octets :=
  let start := addU64 plgStart entry.offset.toNat
  let stop := addU64 start entry.length.toNat
  if data.length < stop then
    .error (.error ("section " ++ hex2 entry.id ++ " extends beyond file (" ++ toString stop ++
      " > " ++ toString data.length ++ ")"))
  else if stop < start then .error .panic
  else .ok (slice data start (stop - start))

def StarSection.moved (entry : StarSection) : StarSection :=
  { entry with offset := entry.offset + ofNat sigLen }

/-- Writes the entry of the first assets, from the entry at an offset on. -/
def patchAssets (data : Octets) (entryStart : Nat) : List StarSection → Octets
  | [] => data
  | entry :: rest =>
    if entry.id = secAssets then overwrite data entryStart entry.moved.toBytes
    else patchAssets data (entryStart + starEntrySize) rest

/-- `sign`, from the file that is read to the file that is written. -/
def sign (signBytes : Octets → Except ToolFault Octets) (path : String) (data : Octets) :
    Except ToolFault Octets := do
  let (header, entries, plgStart) ← parseHeader verifyStar data
  if header.starFlags &&& starFlagSigned ≠ 0 then .error (.error (path ++ " is already signed"))
  else
    let data := patchAssets data (plgStart + starHeaderSize) entries
    let sigStart := sigStart plgStart entries
    let flagsOffset := plgStart + 7
    let data := data.set flagsOffset (byteAt data flagsOffset ||| starFlagSigned)
    if data.length < sigStart then .error .panic
    else
      let signature ← signBytes (data.take sigStart)
      .ok (data.take sigStart ++ signature ++ data.drop sigStart)

end

def headerAt (data : Octets) (plgStart : Nat) : StarHeader where
  versionMajor := byteAt data (plgStart + 4)
  versionMinor := byteAt data (plgStart + 5)
  sectionCount := byteAt data (plgStart + 6)
  starFlags := byteAt data (plgStart + 7)
  shimIntegrity := readU32Le (data.drop (plgStart + 8))

lemma plgStartOf_eq_ok_iff {data : Octets} {plg : Nat} : plgStartOf data = .ok plg ↔
    4 ≤ data.length ∧ (data.take 4 = starMagic ∧ plg = 0 ∨
    data.take 4 ≠ starMagic ∧ plg = 4 + (readU32Le (data.take 4)).toNat ∧
    plg ≤ data.length) := by
  simp only [plgStartOf]
  split_ifs with hshort hmagic hlong
  · simp only [false_iff]
    omega
  · simp only [Except.ok.injEq, hmagic, ne_eq, not_true_eq_false, false_and, or_false, true_and]
    exact ⟨fun h => ⟨by omega, h.symm⟩, fun h => h.2.symm⟩
  · simp only [false_iff, not_and]
    rintro - (⟨h, -⟩ | ⟨-, rfl, hle⟩)
    · exact hmagic h
    · omega
  · rw [Except.ok.injEq]
    constructor
    · rintro rfl
      exact ⟨by omega, .inr ⟨hmagic, rfl, by omega⟩⟩
    · rintro ⟨-, ⟨h, -⟩ | ⟨-, rfl, -⟩⟩
      · exact absurd h hmagic
      · rfl

lemma fromBytes_eq_ok_iff {data : Octets} {plg : Nat} {header : StarHeader} :
    StarHeader.fromBytes ((data.drop plg).take starHeaderSize) = .ok header ↔
    slice data plg 4 = starMagic ∧ header = headerAt data plg := by
  have hmagic : ((data.drop plg).take starHeaderSize).take 4 = slice data plg 4 := by
    rw [take_take]
    rfl
  have hbyte : ∀ i < starHeaderSize,
      byteAt ((data.drop plg).take starHeaderSize) i = byteAt data (plg + i) := by
    intro i hi
    rw [byteAt_take hi, byteAt_drop]
  have hword : readU32Le (((data.drop plg).take starHeaderSize).drop 8) =
      readU32Le (data.drop (plg + 8)) := by
    apply readU32Le_congr
    intro i hi
    rw [byteAt_drop, byteAt_drop, hbyte _ (by simp only [starHeaderSize]; omega), Nat.add_assoc]
  rw [StarHeader.fromBytes, hmagic, hword, hbyte 4 (by decide), hbyte 5 (by decide),
    hbyte 6 (by decide), hbyte 7 (by decide)]
  split_ifs with h
  · simp [h]
  · simp only [Except.ok.injEq, not_not.mp h, true_and]
    exact eq_comm

lemma readTable_eq {data : Octets} {plg count : Nat} :
    readTable (((data.drop plg).take (starHeaderSize + count * starEntrySize)).drop
      starHeaderSize) count = tableEntries data plg count := by
  apply map_congr_left
  intro i hi
  have hle : (i + 1) * starEntrySize ≤ count * starEntrySize :=
    Nat.mul_le_mul_right _ (mem_range.mp hi)
  apply readSection_congr
  intro j hj
  simp only [starEntrySize, entryUsed] at *
  rw [byteAt_slice (by omega), byteAt_drop, byteAt_take (by omega), byteAt_drop, byteAt_drop]
  congr 1
  omega

lemma parseHeader_eq_ok_iff {verify : Octets → Octets → Bool} {data : Octets}
    {header : StarHeader} {entries : List StarSection} {plg : Nat} :
    parseHeader verify data = .ok (header, entries, plg) ↔
    plgStartOf data = .ok plg ∧ slice data plg 4 = starMagic ∧
    header = headerAt data plg ∧
    plg + starHeaderSize + header.sectionCount.toNat * starEntrySize ≤ data.length ∧
    entries = tableEntries data plg header.sectionCount.toNat ∧
    checkSignature verify data plg header entries = .ok () ∧
    checkShim data plg header = .ok () := by
  have hpos : 0 < starHeaderSize := by decide
  rw [parseHeader, bind_eq_ok_iff]
  constructor
  · rintro ⟨start, hstart, h⟩
    obtain ⟨hlong, h⟩ := guard_eq_ok h
    obtain ⟨found, hfound, h⟩ := bind_eq_ok_iff.mp h
    obtain ⟨htable, h⟩ := guard_eq_ok h
    obtain ⟨⟨⟩, hsig, h⟩ := bind_eq_ok_iff.mp h
    obtain ⟨⟨⟩, hshim, h⟩ := bind_eq_ok_iff.mp h
    rw [readTable_eq] at h hsig
    obtain ⟨rfl, hrest⟩ := Prod.mk.inj (Except.ok.inj h)
    obtain ⟨rfl, rfl⟩ := Prod.mk.inj hrest
    obtain ⟨hmagic, hhead⟩ := fromBytes_eq_ok_iff.mp hfound
    rw [length_drop] at htable
    exact ⟨hstart, hmagic, hhead, by omega, rfl, hsig, hshim⟩
  · rintro ⟨hstart, hmagic, hhead, htable, rfl, hsig, hshim⟩
    refine ⟨plg, hstart, ?_⟩
    have hlen : (data.drop plg).length = data.length - plg := length_drop
    rw [if_neg (by omega), bind_eq_ok_iff]
    refine ⟨header, fromBytes_eq_ok_iff.mpr ⟨hmagic, hhead⟩, ?_⟩
    rw [if_neg (by omega), readTable_eq]
    simp [hsig, hshim]

def moveAssets : List StarSection → List StarSection
  | [] => []
  | entry :: rest =>
    if entry.id = secAssets then entry.moved :: rest else entry :: moveAssets rest

@[simp] lemma length_moveAssets (entries : List StarSection) :
    (moveAssets entries).length = entries.length := by
  induction entries with
  | nil => rfl
  | cons entry rest ih =>
    rw [moveAssets]
    split_ifs
    · rfl
    · rw [length_cons, ih, length_cons]

lemma moveAssets_append_of_forall {pre : List StarSection} (h : ∀ s ∈ pre, s.id ≠ secAssets)
    (rest : List StarSection) : moveAssets (pre ++ rest) = pre ++ moveAssets rest := by
  induction pre with
  | nil => rfl
  | cons entry pre ih =>
    obtain ⟨hentry, hpre⟩ := forall_mem_cons.mp h
    rw [cons_append, moveAssets, if_neg hentry, ih hpre, cons_append]

lemma moveAssets_of_forall {entries : List StarSection} (h : ∀ s ∈ entries, s.id ≠ secAssets) :
    moveAssets entries = entries := by
  simpa [moveAssets] using moveAssets_append_of_forall h []

lemma overwrite_middle (pre : Octets) {old new : Octets} (h : old.length = new.length)
    (rest : Octets) : overwrite (pre ++ (old ++ rest)) pre.length new = pre ++ (new ++ rest) := by
  have hdrop : (pre ++ (old ++ rest)).drop (pre.length + new.length) = rest := by
    rw [← append_assoc]
    exact drop_left' (by rw [length_append, h])
  rw [overwrite, take_left, hdrop]

lemma patchAssets_table (pre : Octets) (entries : List StarSection) (rest : Octets) :
    patchAssets (pre ++ (entries.flatMap StarSection.toBytes ++ rest)) pre.length entries =
    pre ++ ((moveAssets entries).flatMap StarSection.toBytes ++ rest) := by
  induction entries generalizing pre with
  | nil => rfl
  | cons entry more ih =>
    rw [patchAssets, moveAssets]
    split_ifs with hid
    · rw [flatMap_cons, append_assoc, overwrite_middle pre (by simp),
        flatMap_cons, append_assoc]
    · have hlen : pre.length + starEntrySize = (pre ++ entry.toBytes).length := by
        rw [length_append, StarSection.toBytes_length]
      rw [flatMap_cons, append_assoc, ← append_assoc pre, hlen, ih,
        flatMap_cons, append_assoc, append_assoc]

namespace Container

def signedPart (c : Container) : Octets :=
  leBytes 4 c.shim.length ++ (c.shim ++ (c.header.toBytes ++
    (c.entries.flatMap StarSection.toBytes ++ c.body)))

lemma toBytes_eq (c : Container) : c.toBytes = c.signedPart ++ c.tail := by
  simp [toBytes, signedPart]

lemma length_signedPart (c : Container) :
    c.signedPart.length = 4 + c.shim.length + (c.bodyOffset + c.body.length) := by
  simp only [signedPart, bodyOffset, length_append, leBytes_length, StarHeader.toBytes_length,
    table_length]
  omega

/-- The container with its flag set and the entry of the assets moved. -/
def flagged (c : Container) : Container :=
  { c with
    header := { c.header with starFlags := c.header.starFlags ||| starFlagSigned }
    entries := moveAssets c.entries }

def signed (c : Container) (key : Octets → Octets) : Container :=
  { c.flagged with tail := key c.flagged.signedPart ++ c.tail }

/-- What `sign` asks: the header counts the sections and has the shim's hash, and the body ends with
the last section that is not deferred. -/
structure Unsigned (c : Container) : Prop where
  shim_le : c.shim.length ≤ maxShimSize
  count : c.header.sectionCount.toNat = c.entries.length
  flag : c.header.starFlags &&& starFlagSigned = 0
  integrity : c.header.shimIntegrity = fnv1a c.shim
  eager : (maxEagerEnd c.entries).toNat = c.bodyOffset + c.body.length
  length_lt : c.signedPart.length < 2 ^ 64

section
variable {c : Container}

lemma plgStartOf_toBytes (h : c.shim.length ≤ maxShimSize) :
    plgStartOf c.toBytes = .ok (4 + c.shim.length) := by
  have hsize := c.toBytes_length
  rw [plgStartOf_eq_ok_iff, c.toBytes_take_four, readU32Le_shimLength h]
  exact ⟨by omega, .inr ⟨shimLength_ne_magic h, rfl, by omega⟩⟩

lemma headerAt_toBytes (c : Container) : headerAt c.toBytes (4 + c.shim.length) = c.header := by
  have hword : readU32Le (c.toBytes.drop (4 + c.shim.length + 8)) = c.header.shimIntegrity := by
    rw [← drop_drop, toBytes_drop_shim]
    exact readU32Le_leBytes _ _
  rw [headerAt, hword]
  simp only [byteAt_toBytes_header]
  rfl

lemma parseHeader_toBytes (verify : Octets → Octets → Bool) (h : c.Unsigned) :
    parseHeader verify c.toBytes = .ok (c.header, c.entries, 4 + c.shim.length) := by
  have hsize := c.toBytes_length
  have hshim : slice c.toBytes 4 (4 + c.shim.length - 4) = c.shim := by
    have hparts : c.toBytes = leBytes 4 c.shim.length ++ c.shim ++ (c.header.toBytes ++
        (c.entries.flatMap StarSection.toBytes ++ (c.body ++ c.tail))) := by
      rw [toBytes, append_assoc]
    rw [Nat.add_sub_cancel_left]
    exact slice_middle (leBytes 4 c.shim.length) c.shim _
  rw [parseHeader_eq_ok_iff, headerAt_toBytes, h.count]
  refine ⟨plgStartOf_toBytes h.shim_le, ?_, rfl, ?_, ?_, ?_, ?_⟩
  · rw [slice, toBytes_drop_shim]
    rfl
  · rw [bodyOffset] at hsize
    omega
  · exact c.tableEntries_toBytes.symm
  · rw [checkSignature, if_pos h.flag]
  · simp only [checkShim, hshim, h.integrity, if_true, ite_self]

lemma patch_toBytes (c : Container) :
    patchAssets c.toBytes (4 + c.shim.length + starHeaderSize) c.entries =
    { c with entries := moveAssets c.entries }.toBytes := by
  have hlen : 4 + c.shim.length + starHeaderSize =
      (leBytes 4 c.shim.length ++ (c.shim ++ c.header.toBytes)).length := by
    simp only [length_append, leBytes_length, StarHeader.toBytes_length]
    omega
  have hparts : ∀ entries, { c with entries := entries }.toBytes =
      leBytes 4 c.shim.length ++ (c.shim ++ c.header.toBytes) ++
        (entries.flatMap StarSection.toBytes ++ (c.body ++ c.tail)) := by
    intro entries
    simp [toBytes]
  rw [hlen, hparts, patchAssets_table, hparts]

lemma flag_toBytes (c : Container) : c.toBytes.set (4 + c.shim.length + 7)
        (byteAt c.toBytes (4 + c.shim.length + 7) ||| starFlagSigned) =
    { c with header :=
        { c.header with starFlags := c.header.starFlags ||| starFlagSigned } }.toBytes := by
  have hlen : 4 + c.shim.length + 7 = (leBytes 4 c.shim.length ++ c.shim).length + 7 := by
    simp
  simp only [toBytes, hlen, ← append_assoc (leBytes 4 _) c.shim,
    modify_starFlags (· ||| starFlagSigned)]

lemma length_signedPart_flagged (c : Container) :
    c.flagged.signedPart.length = c.signedPart.length := by
  simp [length_signedPart, flagged, bodyOffset]

lemma sign_toBytes (verify : Octets → Octets → Bool) (key : Octets → Octets) (path : String)
    (h : c.Unsigned) :
    sign verify (fun message => .ok (key message)) path c.toBytes =
    .ok (c.signed key).toBytes := by
  have hstart : sigStart (4 + c.shim.length) c.entries = c.flagged.signedPart.length := by
    have hlt := h.length_lt
    rw [length_signedPart] at hlt
    rw [length_signedPart_flagged, length_signedPart, sigStart, h.eager, addU64_of_lt hlt]
  have hdata : (patchAssets c.toBytes (4 + c.shim.length + starHeaderSize) c.entries).set
      (4 + c.shim.length + 7) (byteAt (patchAssets c.toBytes
        (4 + c.shim.length + starHeaderSize) c.entries) (4 + c.shim.length + 7) |||
          starFlagSigned) = c.flagged.signedPart ++ c.tail := by
    rw [patch_toBytes]
    exact (flag_toBytes { c with entries := moveAssets c.entries }).trans c.flagged.toBytes_eq
  rw [sign, parseHeader_toBytes verify h]
  simp only [h.flag, ne_eq, not_true_eq_false, if_false, hdata, hstart, take_left,
    drop_left, ok_bind]
  rw [if_neg (by rw [length_append]; omega), toBytes_eq]
  rw [append_assoc]
  rfl

end

end Container

section
variable {compress : Octets → Octets} {crc32 : Octets → UInt32} {p : PackInput}

lemma id_ne_assets {s : StarSection} {offset : UInt64}
    (h : s ∈ (placeSections crc32 offset (encodeSections compress p.rawSections)).1) :
    s.id ≠ secAssets := by
  have hid : s.id ∈ (encodeSections compress p.rawSections).map EncodedSection.id := by
    rw [← placeSections_ids]
    exact mem_map_of_mem h
  have hsub := p.rawSections_ids_sublist
  have hmem : s.id ∈ [secMetadata, secBackend, secFrontend, secWebkit] := by
    apply hsub.mem
    simpa [encodeSections] using hid
  rintro heq
  rw [heq] at hmem
  exact absurd hmem (by decide)

lemma moveAssets_sectionEntries (assets : List SubEntry) :
    moveAssets (sectionEntries crc32 false (encodeSections compress p.rawSections)
        assets) =
    sectionEntries crc32 true (encodeSections compress p.rawSections) assets := by
  by_cases hassets : assets ≠ []
  · simp only [sectionEntries, if_pos hassets, Bool.false_eq_true, if_false]
    rw [moveAssets_append_of_forall fun s hs => id_ne_assets hs]
    simp only [UInt64.add_zero]
    rfl
  · simp only [sectionEntries, if_neg hassets]
    exact moveAssets_of_forall fun s hs => id_ne_assets hs

lemma maxEagerEnd_placeSections {encoded : List EncodedSection} (hne : encoded ≠ []) {n : Nat}
    (hlt : n + (encoded.flatMap bytes).length < 2 ^ 64) {rest : List StarSection}
    (hrest : ∀ s ∈ rest, s.deferred) :
    (maxEagerEnd ((placeSections crc32 (ofNat n) encoded).1 ++ rest)).toNat =
    n + (encoded.flatMap bytes).length := by
  have hfit : (ofNat (n + (encoded.flatMap bytes).length)).toNat =
      n + (encoded.flatMap bytes).length := toNat_ofNat_of_lt' hlt
  have hend : ∀ pre x, (ofNat (n + pre) + ofNat x) = ofNat (n + pre + x) :=
    fun pre x => (ofNat_add _ _).symm
  apply Nat.le_antisymm
  · rw [← hfit]
    apply maxEagerEnd_le
    intro s hs hdef
    rcases mem_append.mp hs with hs | hs
    · obtain ⟨pre, x, post, rfl, rfl⟩ := mem_placeSections hs
      have hle := @section_end_le pre post x
      simp only [entryAt, hend]
      rw [le_iff_toNat_le, toNat_ofNat_of_lt' (by change _ < 2 ^ 64; omega)]
      omega
    · exact absurd (hrest s hs) hdef
  · obtain ⟨init, x, rfl⟩ : ∃ init x, encoded = init ++ [x] :=
      ⟨_, _, (dropLast_append_getLast hne).symm⟩
    have hmem : entryAt crc32 (ofNat (n + (init.flatMap bytes).length)) x ∈
        (placeSections crc32 (ofNat n) (init ++ [x])).1 ++ rest := by
      rw [placeSections_append]
      simp [placeSections]
    have hle := end_le_maxEagerEnd hmem (entryAt_eager _ x).1
    have hlast : (init ++ [x]).flatMap bytes =
        init.flatMap bytes ++ x.bytes := by
      simp
    rw [hlast, length_append, ← Nat.add_assoc] at hfit ⊢
    simp only [entryAt, hend] at hle
    rwa [le_iff_toNat_le, hfit] at hle

lemma packed_unsigned (hshim : p.shim.length ≤ maxShimSize)
    (hlen : (packed compress crc32 none p).signedPart.length < 2 ^ 64) :
    (packed compress crc32 none p).Unsigned := by
  have hflag : (starFlagSigned &&& ~~~starFlagSigned) &&& starFlagSigned = 0 := by decide
  refine
    { shim_le := by rwa [packed_shim]
      count := packed_sectionCount
      flag := hflag
      integrity := rfl
      eager := ?_
      length_lt := hlen }
  · rw [length_signedPart, packed_bodyOffset, packed_body] at hlen
    obtain ⟨rest, hents, -, hrest⟩ := @sectionEntries_eq crc32
      false (encodeSections compress p.rawSections) p.assets
    have hne : encodeSections compress p.rawSections ≠ [] := by
      simp [encodeSections, PackInput.rawSections]
    rw [packed_bodyOffset, packed_entries, Option.isSome_none, hents]
    exact maxEagerEnd_placeSections hne (by omega) fun s hs => (hrest s hs).1

lemma packed_signed (key : Octets → Octets) : (packed compress crc32 none p).signed key =
    packed compress crc32 (some key) p := by
  simp [Container.signed, Container.flagged, Container.signedPart, packed,
    moveAssets_sectionEntries, StarHeader.new]

lemma sign_packed (verify : Octets → Octets → Bool) (key : Octets → Octets) (path : String)
    (hshim : p.shim.length ≤ maxShimSize)
    (hmemory : (packed compress crc32 none p).toBytes.length < 2 ^ 63) :
    sign verify (fun message => .ok (key message)) path
        (packed compress crc32 none p).toBytes =
    .ok (packed compress crc32 (some key) p).toBytes := by
  have hlen : (packed compress crc32 none p).signedPart.length < 2 ^ 64 := by
    rw [toBytes_eq, length_append] at hmemory
    omega
  rw [← packed_signed]
  exact sign_toBytes verify key path (packed_unsigned hshim hlen)

/-- Signing a file that was packed without a key gives the file that is packed with the key. The
shim is the tool's own text, and what is packed is in memory. -/
theorem sign_pack (compressPrependSize : Octets → Octets) (crc32 : Octets → UInt32)
    (verifyStar : Octets → Octets → Bool) (key : Octets → Octets) (path : String) (p : PackInput)
    (hshim : p.shim.length ≤ maxShimSize)
    (hmemory : (pack compressPrependSize crc32 none p).length < 2 ^ 63) :
    sign verifyStar (fun message => .ok (key message)) path (pack compressPrependSize crc32 none p) =
      .ok (pack compressPrependSize crc32 (some key) p) := by
  rw [pack_eq_toBytes] at hmemory
  rw [pack_eq_toBytes, pack_eq_toBytes]
  exact sign_packed verifyStar key path hshim hmemory

theorem smallProject_signed_later :
    sign (fun _ _ => false) (fun _ => .ok (List.replicate 64 7)) "small.star"
        (pack storeOnly (fun _ => 0) none smallProject) =
      .ok (pack storeOnly (fun _ => 0) (some fun _ => List.replicate 64 7) smallProject) :=
  sign_pack storeOnly (fun _ => 0) (fun _ _ => false) (fun _ => List.replicate 64 7) "small.star"
    smallProject (by decide) (by decide +kernel)

end

end Millennium.Star
