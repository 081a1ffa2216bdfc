import Millennium.Lib.Lz4Stream
import Millennium.Star.DecompressTrace
import Millennium.Star.Verify

/-!
# What `star_decompress` takes and what it gives

The decoder reads any block, and gives what it stands for. It also takes blocks that end early,
without a complaint, even if they give less than the announced size.
-/

namespace Millennium.Star

open Bytes Lz4 Outcome Traced List Except UInt8 Seq Nat

/-- A block is decoded to what it stands for. -/
theorem starDecompress_block (seqs : List Seq) (last : Octets)
    (hseqs : ∀ pre s rest, seqs = pre ++ s :: rest →
      (1 ≤ s.offset ∧ s.offset ≤ min 65535 ((expandSeqs pre []).length + s.literals.length)) ∧
        4 ≤ s.matchLen)
    (hmax : (expandSeqs seqs [] ++ last).length ≤ 64 * 1024 * 1024) :
    starDecompress (leBytes 4 (expandSeqs seqs [] ++ last).length ++
      (seqs.flatMap encode ++ encodeLast last)) = .ok (expandSeqs seqs [] ++ last) :=
  starDecompress_prependSize ⟨seqs, last⟩ (validFrom_of_forall hseqs) hmax

/-- Three literals, six octets copied from two octets back, and one more literal. -/
theorem starDecompress_overlapping :
    starDecompress (leBytes 4 10 ++ [0x32, 1, 2, 3, 2, 0, 0x10, 9]) =
      .ok [1, 2, 3, 2, 3, 2, 3, 2, 3, 9] := by
  refine starDecompress_block [⟨[1, 2, 3], 2, 6⟩] [9] ?_ (by decide)
  intro pre s rest hsplit
  cases pre with
  | nil =>
    obtain ⟨rfl, -⟩ := List.cons.inj hsplit
    decide
  | cons =>
    have hnil := (List.cons.inj hsplit).2
    exact absurd hnil.symm (by simp)

section
variable {src rest : Octets} {ip : Nat}

lemma cursor_cons (hlt : ip < src.length) : Cursor src ip (byteAt src ip :: src.drop (ip + 1)) := by
  constructor
  · rw [length_cons, length_drop]
    omega
  · simp [byteAt, hlt]

lemma Cursor.prepend {a : Octets} (h : Cursor src ip (a ++ src.drop (ip + a.length)))
    (hrest : Cursor src (ip + a.length) rest) : Cursor src ip (a ++ rest) := by
  rwa [hrest.2] at h

lemma cursor_append {length : Nat} (h : ip + length ≤ src.length) :
    Cursor src ip (slice src ip length ++ src.drop (ip + length)) := by
  constructor
  · rw [length_append, slice_length_of_le h, length_drop]
    omega
  · rw [slice, ← drop_drop, take_append_drop]

lemma cursor_drop (h : ip ≤ src.length) : Cursor src ip (src.drop ip) := by
  constructor
  · rw [length_drop]
    omega
  · rfl

end

section
variable {α β : Type}

lemma ranOut_bind {x : Run α} {f : α → Run β} {a : α} (hx : x.result = .ok a)
    (hno : .ranOut ∉ x.events) : .ranOut ∈ (x >>= f).events ↔ .ranOut ∈ (f a).events := by
  rw [mem_events_bind]
  constructor
  · rintro (h | ⟨b, hb, h⟩)
    · exact absurd h hno
    · rw [hx] at hb
      rwa [ok.inj hb]
  · exact fun h => .inr ⟨a, hx, h⟩

lemma ranOut_load_bind {src : Octets} {i : Nat} {f : UInt8 → Run β} :
    .ranOut ∈ (load src i >>= f).events ↔ .ranOut ∈ (f (byteAt src i)).events :=
  ranOut_bind rfl (by simp [load])

lemma ranOut_next {src out out' : Octets} {size ip ip' : Nat}
    (hno : .ranOut ∉ (decodeSequenceT src size ip out).events) :
    .ranOut ∈ (record (decodeSequenceT src size ip out).events () >>= fun _ =>
      decodeFromT src size ip' out').events ↔
    .ranOut ∈ (decodeFromT src size ip' out').events :=
  @ranOut_bind _ _ (record (decodeSequenceT src size ip out).events ())
    (fun _ => decodeFromT src size ip' out') () rfl hno

lemma ranOut_bind_pure {x : Run α} {f : α → β} :
    .ranOut ∈ (x >>= fun a => pure (f a)).events ↔ .ranOut ∈ x.events := by
  rw [mem_events_bind]
  simp

end

section
variable {src : Octets} {limit ip ip' len len' : Nat} {message : String}

lemma extendLengthT_step (hlt : ip < src.length)
    (h : (extendLengthT src limit message ip len).result = .ok (ip', len')) :
    byteAt src ip ≠ 255 ∧ ip' = ip + 1 ∧ len' = len + (byteAt src ip).toNat ∧
    .ranOut ∉ (extendLengthT src limit message ip len).events ∨
    byteAt src ip = 255 ∧
    (extendLengthT src limit message (ip + 1) (len + 255)).result = .ok (ip', len') ∧
    (.ranOut ∈ (extendLengthT src limit message ip len).events ↔
    .ranOut ∈ (extendLengthT src limit message (ip + 1) (len + 255)).events) := by
  rw [extendLengthT, if_pos hlt] at h ⊢
  rw [ranOut_load_bind]
  change (if limit < len + (byteAt src ip).toNat then _ else _ : Run (Nat × Nat)).result = _ at h
  by_cases hlim : limit < len + (byteAt src ip).toNat
  · rw [if_pos hlim] at h
    cases h
  rw [if_neg hlim] at h ⊢
  by_cases hb : byteAt src ip = 255
  · right
    rw [hb] at h ⊢
    exact ⟨rfl, h, Iff.rfl⟩
  · left
    rw [if_pos hb] at h ⊢
    obtain ⟨hip, hlen⟩ := Prod.mk.inj (ok.inj h)
    exact ⟨hb, hip.symm, hlen.symm, by simp⟩

lemma extendLengthT_ok (hle : ip ≤ src.length)
    (h : (extendLengthT src limit message ip len).result = .ok (ip', len')) :
    (∃ n, Cursor src ip (extension n ++ src.drop ip') ∧ ip' ≤ src.length ∧ len' = len + n ∧
    .ranOut ∉ (extendLengthT src limit message ip len).events) ∨
    ∃ run, Cursor src ip (List.replicate run 255) ∧ ip' = src.length ∧
    len' = len + 255 * run ∧ .ranOut ∈ (extendLengthT src limit message ip len).events := by
  induction hn : src.length - ip using Nat.strong_induction_on generalizing ip len with
  | _ n ih =>
    by_cases hlt : ip < src.length
    · have hcons := cursor_cons hlt
      obtain ⟨hb, rfl, rfl, hno⟩ | ⟨hb, hrec, hiff⟩ := extendLengthT_step hlt h
      · -- the last octet of the extension
        refine .inl ⟨(byteAt src ip).toNat, ?_, hlt, rfl, hno⟩
        have hsmall : (byteAt src ip).toNat < 255 := by
          have hlt := (byteAt src ip).toNat_lt
          have hne : (byteAt src ip).toNat ≠ 255 := fun heq => hb (UInt8.toNat_inj.mp heq)
          omega
        rw [extension_of_lt hsmall, UInt8.ofNat_toNat]
        exact hcons
      · rw [hb] at hcons
        rw [hiff]
        obtain ⟨k, hcur, hin, rfl, hno⟩ | ⟨run, hcur, rfl, rfl, hout⟩ :=
          ih _ (by omega) (by omega) hrec rfl
        · refine .inl ⟨k + 255, ?_, hin, by omega, hno⟩
          rw [extension_add]
          exact @Cursor.prepend _ _ _ [255] hcons hcur
        · refine .inr ⟨run + 1, ?_, rfl, by omega, hout⟩
          exact @Cursor.prepend _ _ _ [255] hcons hcur
    · right
      have hend : ip = src.length := by omega
      rw [extendLengthT, if_neg hlt] at h ⊢
      obtain ⟨rfl, rfl⟩ := Prod.mk.inj (ok.inj h)
      exact ⟨0, ⟨by simpa using hend, by simp [hend]⟩, hend, by omega, by simp⟩

lemma readLengthT_ok {nibble extra : Nat} (hnibble : nibble ≤ 15) (hle : ip ≤ src.length)
    (h : (readLengthT src limit message nibble (nibble + extra) ip).result = .ok (ip', len')) :
    (∃ n, nibble = min n 15 ∧ Cursor src ip (lengthExt n ++ src.drop ip') ∧ ip' ≤ src.length ∧
    len' = n + extra ∧
    .ranOut ∉ (readLengthT src limit message nibble (nibble + extra) ip).events) ∨
    ∃ run, nibble = 15 ∧ Cursor src ip (List.replicate run 255) ∧ ip' = src.length ∧
    len' = 15 + extra + 255 * run ∧
    .ranOut ∈ (readLengthT src limit message nibble (nibble + extra) ip).events := by
  rw [readLengthT] at h ⊢
  by_cases hfull : nibble = 15
  · rw [if_pos hfull] at h ⊢
    obtain ⟨n, hcur, hin, rfl, hno⟩ | ⟨run, hcur, hin, rfl, hout⟩ := extendLengthT_ok hle h
    · refine .inl ⟨n + 15, by omega, ?_, hin, by omega, hno⟩
      exact hcur
    · exact .inr ⟨run, hfull, hcur, hin, by omega, hout⟩
  · rw [if_neg hfull] at h ⊢
    obtain ⟨rfl, rfl⟩ := Prod.mk.inj (ok.inj h)
    refine .inl ⟨nibble, by omega, ?_, hle, rfl, by simp⟩
    rw [lengthExt, if_pos (by omega)]
    exact cursor_drop hle

end

section
variable {src out out' : Octets} {size ip ip' : Nat} {token : UInt8}

lemma shiftRight_four_le (token : UInt8) : (token >>> 4).toNat ≤ 15 := by
  have hlt := token.toNat_lt
  rw [UInt8.toNat_shiftRight, show (4 : UInt8).toNat % 8 = 4 from rfl]
  omega

lemma and_fifteen_le (token : UInt8) : (token &&& 0xF).toNat ≤ 15 := by
  exact Nat.and_le_right

lemma copyLiteralsT_ok (hle : ip ≤ src.length)
    (h : (copyLiteralsT src size token ip out).result = .ok (ip', out')) :
    ∃ lits : Octets, (token >>> 4).toNat = min lits.length 15 ∧
    Cursor src ip (lengthExt lits.length ++ (lits ++ src.drop ip')) ∧
    ip' ≤ src.length ∧ out' = out ++ lits ∧ out'.length ≤ size ∧
    .ranOut ∉ (copyLiteralsT src size token ip out).events := by
  rw [copyLiteralsT] at h ⊢
  dsimp only at h ⊢
  rw [result_bind] at h
  obtain ⟨⟨ip₁, litLen⟩, hread, h⟩ := bind_eq_ok_iff.mp h
  by_cases hover : size < out.length + litLen ∨ src.length < ip₁ + litLen
  · rw [if_pos hover] at h
    cases h
  rw [if_neg hover, result_bind, copyIn, result_record, ok_bind] at h
  obtain ⟨rfl, rfl⟩ := Prod.mk.inj (ok.inj h)
  obtain ⟨n, hnibble, hcur, hin, hlen, hno⟩ | ⟨run, -, -, rfl, rfl, -⟩ :=
    @readLengthT_ok src _ ip ip₁ litLen _ _ 0 (shiftRight_four_le token) hle hread
  · obtain rfl : n = litLen := hlen.symm
    have hinside : ip₁ + n ≤ src.length := by omega
    have hslice := slice_length_of_le hinside
    refine ⟨slice src ip₁ n, by rw [hslice]; exact hnibble, ?_, hinside, rfl, ?_, ?_⟩
    · rw [hslice, ← (cursor_append hinside).2]
      exact hcur
    · rw [length_append, hslice]
      omega
    · rw [ranOut_bind hread hno, if_neg hover, ranOut_bind_pure]
      simp [copyIn]
  · omega

lemma ranOut_not_mem_copyBack (offset n : Nat) (out : Octets) :
    .ranOut ∉ (copyBack offset n out).events := by
  induction n generalizing out with
  | zero => simp [copyBack]
  | succ n ih =>
    rw [copyBack, ranOut_bind rfl (by simp)]
    exact ih _

lemma leBytes_offset (b₀ b₁ : UInt8) : leBytes 2 (b₀.toNat ||| b₁.toNat <<< 8) = [b₀, b₁] ∧
    (b₀.toNat ||| b₁.toNat <<< 8) ≤ 65535 := by
  have h₀ := b₀.toNat_lt
  have h₁ := b₁.toNat_lt
  rw [shiftLeft_eq, or_field (k := 8) _ h₀]
  constructor
  · simp only [leBytes, List.cons.injEq, and_true]
    constructor <;>
    · apply UInt8.toNat_inj.mp
      rw [toNat_ofNat']
      omega
  · omega

lemma applyMatchT_ok (h : (applyMatchT src size token ip out).result = .ok (ip', out')) :
    ∃ offset, (1 ≤ offset ∧ offset ≤ 65535 ∧ offset ≤ out.length) ∧ out'.length ≤ size ∧
    ((∃ m, (token &&& 0xF).toNat = min m 15 ∧
    Cursor src ip (leBytes 2 offset ++ (lengthExt m ++ src.drop ip')) ∧ ip' ≤ src.length ∧
    out' = copyMatch offset (m + 4) out ∧
    .ranOut ∉ (applyMatchT src size token ip out).events) ∨
    ∃ run, (token &&& 0xF).toNat = 15 ∧
    Cursor src ip (leBytes 2 offset ++ List.replicate run 255) ∧ ip' = src.length ∧
    out' = copyMatch offset (Ending.cutLength run) out ∧
    .ranOut ∈ (applyMatchT src size token ip out).events) := by
  rw [applyMatchT] at h ⊢
  by_cases hshort : src.length < ip + 2
  · rw [if_pos hshort] at h
    cases h
  rw [if_neg hshort] at h ⊢
  rw [ranOut_load_bind, ranOut_load_bind]
  simp only [result_bind, load, result_record, ok_bind] at h
  have hoffset := leBytes_offset (byteAt src ip) (byteAt src (ip + 1))
  have hcursor : Cursor src ip ([byteAt src ip, byteAt src (ip + 1)] ++ src.drop (ip + 2)) :=
    @Cursor.prepend _ _ _ [byteAt src ip] (cursor_cons (by omega))
      (cursor_cons (show ip + 1 < src.length by omega))
  generalize (byteAt src ip).toNat ||| (byteAt src (ip + 1)).toNat <<< 8 = offset at h hoffset ⊢
  rw [← hoffset.1] at hcursor
  by_cases hzero : offset = 0
  · rw [if_pos hzero] at h
    cases h
  rw [if_neg hzero] at h ⊢
  rw [result_bind] at h
  obtain ⟨⟨ip₁, matchLen⟩, hread, h⟩ := bind_eq_ok_iff.mp h
  by_cases hover : size < out.length + matchLen
  · rw [if_pos hover] at h
    cases h
  by_cases hback : out.length < offset
  · rw [if_neg hover, if_pos hback] at h
    cases h
  have hcopy : (copyBack offset matchLen out).result = .ok (copyMatch offset matchLen out) := by
    apply thrown_eq_ok_iff.mp
    rw [thrown_copyBack matchLen (by omega) (by omega) (not_lt.mp hover)]
    exact copyBytes_eq matchLen (by omega) (by omega) (not_lt.mp hover)
  rw [if_neg hover, if_neg hback, result_bind, hcopy, ok_bind] at h
  obtain ⟨rfl, rfl⟩ := Prod.mk.inj (ok.inj h)
  refine ⟨offset, ⟨by omega, hoffset.2, by omega⟩, by rw [copyMatch_length]; omega, ?_⟩
  obtain ⟨n, hnibble, hcur, hin, rfl, hno⟩ | ⟨run, hnibble, hcur, rfl, rfl, hran⟩ :=
    readLengthT_ok (and_fifteen_le token) (by omega) hread
  · refine .inl ⟨n, hnibble, hcursor.prepend hcur, hin, rfl, ?_⟩
    rw [ranOut_bind hread hno]
    dsimp only
    rw [if_neg hover, if_neg hback, ranOut_bind_pure]
    exact ranOut_not_mem_copyBack _ _ _
  · refine .inr ⟨run, hnibble, hcursor.prepend hcur, rfl, rfl, ?_⟩
    exact mem_events_bind.mpr (.inl hran)

lemma decodeSequenceT_literals {turn : Turn} (hlt : ip < src.length)
    (h : (decodeSequenceT src size ip out).result = .ok turn) :
    ∃ (lits : Octets) (ip₁ : Nat),
    (byteAt src ip >>> 4).toNat = min lits.length 15 ∧
    Cursor src ip (byteAt src ip :: (lengthExt lits.length ++ (lits ++ src.drop ip₁))) ∧
    ip₁ ≤ src.length ∧ (out ++ lits).length ≤ size ∧
    (src.length ≤ ip₁ ∧ turn = .done (out ++ lits) ∧
    .ranOut ∉ (decodeSequenceT src size ip out).events ∨
    ∃ ip' out', turn = .next ip' out' ∧
    (applyMatchT src size (byteAt src ip) ip₁ (out ++ lits)).result =
    .ok (ip', out') ∧
    (.ranOut ∈ (decodeSequenceT src size ip out).events ↔ .ranOut ∈
              (applyMatchT src size (byteAt src ip) ip₁ (out ++ lits)).events)) := by
  rw [decodeSequenceT] at h ⊢
  rw [ranOut_load_bind]
  simp only [result_bind, load, result_record, ok_bind] at h
  obtain ⟨⟨ip₁, out₁⟩, hlit, h⟩ := bind_eq_ok_iff.mp h
  obtain ⟨lits, hnibble, hcur, hin, rfl, hroom, hno⟩ := copyLiteralsT_ok hlt hlit
  refine ⟨lits, ip₁, hnibble,
    @Cursor.prepend _ _ _ [byteAt src ip] (cursor_cons hlt) hcur, hin, hroom, ?_⟩
  rw [ranOut_bind hlit hno]
  dsimp only at h ⊢
  by_cases hend : src.length ≤ ip₁
  · rw [if_pos hend] at h ⊢
    exact .inl ⟨hend, (ok.inj h).symm, by simp⟩
  · rw [if_neg hend, result_bind] at h
    obtain ⟨⟨ip', out'⟩, hmatch, h⟩ := bind_eq_ok_iff.mp h
    refine .inr ⟨ip', out', (ok.inj h).symm, hmatch, ?_⟩
    rw [if_neg hend]
    exact ranOut_bind_pure

lemma decodeSequenceT_done (hlt : ip < src.length)
    (h : (decodeSequenceT src size ip out).result = .ok (.done out')) :
    ∃ nibble last, nibble ≤ 15 ∧ Cursor src ip (Ending.literals nibble last).encode ∧
    out' = out ++ last ∧ out'.length ≤ size ∧
    .ranOut ∉ (decodeSequenceT src size ip out).events := by
  obtain ⟨lits, ip₁, hlit, hcur, hin, hroom, ⟨hend, hturn, hno⟩ | ⟨_, _, hturn, -⟩⟩ :=
    decodeSequenceT_literals hlt h
  · obtain rfl := Turn.done.inj hturn
    have hnibble := and_fifteen_le (byteAt src ip)
    refine ⟨(byteAt src ip &&& 0xF).toNat, lits, hnibble, ?_, rfl, hroom, hno⟩
    rw [Ending.encode, ← eq_token hlit (min_eq_left hnibble).symm]
    rwa [drop_eq_nil_of_le hend, append_nil] at hcur
  · cases hturn

lemma decodeSequenceT_next (hlt : ip < src.length)
    (h : (decodeSequenceT src size ip out).result = .ok (.next ip' out')) :
    out'.length ≤ size ∧
    ((∃ s : Seq, (1 ≤ s.offset ∧ s.offset ≤ 65535 ∧
    s.offset ≤ out.length + s.literals.length) ∧ 4 ≤ s.matchLen ∧
    Cursor src ip (s.encode ++ src.drop ip') ∧ ip' ≤ src.length ∧
    out' = copyMatch s.offset s.matchLen (out ++ s.literals) ∧
    .ranOut ∉ (decodeSequenceT src size ip out).events) ∨
    ∃ lits offset run, (Ending.cutMatch lits offset run).Valid out.length ∧
    Cursor src ip (Ending.cutMatch lits offset run).encode ∧ ip' = src.length ∧
    out' = (Ending.cutMatch lits offset run).expand out ∧
    .ranOut ∈ (decodeSequenceT src size ip out).events) := by
  obtain ⟨lits, ip₁, hlit, hcur, hin, hroom, ⟨_, hturn, _⟩ | ⟨_, _, hturn, happly, hiff⟩⟩ :=
    decodeSequenceT_literals hlt h
  · cases hturn
  obtain ⟨rfl, rfl⟩ := Turn.next.inj hturn
  rw [hiff]
  obtain ⟨offset, hoff, hsize, hmatch⟩ := applyMatchT_ok happly
  rw [length_append] at hoff
  refine ⟨hsize, ?_⟩
  obtain ⟨m, hmat, hrest, hin', rfl, hno⟩ | ⟨run, hmat, hrest, rfl, rfl, hran⟩ := hmatch
  · refine .inl ⟨⟨lits, offset, m + 4⟩, hoff, le_add_left _ _, ?_, hin', rfl, hno⟩
    rw [hrest.2, eq_token hlit hmat] at hcur
    simpa [encode] using hcur
  · refine .inr ⟨lits, offset, run, hoff, ?_, rfl, rfl, hran⟩
    rw [hrest.2, @eq_token _ _ 15 hlit hmat] at hcur
    exact hcur

end

lemma decodeFromT_ok {src out res : Octets} {size ip : Nat} (hle : ip ≤ src.length)
    (hout : out.length ≤ size)
    (h : (decodeFromT src size ip out).result = .ok res) :
    ∃ seqs ending, Stream seqs ending out ∧
    Cursor src ip (seqs.flatMap encode ++ ending.encode) ∧
    res = ending.expand (expandSeqs seqs out) ∧ res.length ≤ size ∧
    (.ranOut ∈ (decodeFromT src size ip out).events ↔ ending.IsCut) := by
  induction hn : src.length - ip using Nat.strong_induction_on generalizing ip out with
  | _ n ih =>
    by_cases hlt : ip < src.length
    · cases hturn : (decodeSequenceT src size ip out).result with
      | error =>
        rw [decodeFromT_error hlt hturn] at h
        cases h
      | ok turn =>
        cases turn with
        | done =>
          obtain ⟨nibble, last, hnibble, hcur, rfl, hsize, hno⟩ := decodeSequenceT_done hlt hturn
          rw [decodeFromT_done hlt hturn] at h ⊢
          obtain rfl := ok.inj h
          exact ⟨[], .literals nibble last, ⟨trivial, hnibble⟩, hcur, rfl, hsize,
            iff_of_false hno id⟩
        | next ip' out' =>
          have hadvance := decodeSequenceT_advances hlt hturn
          obtain ⟨hsize, hread⟩ := decodeSequenceT_next hlt hturn
          rw [decodeFromT_next hlt hturn] at h ⊢
          have hrest : (decodeFromT src size ip' out').result = .ok res := h
          obtain ⟨s, hoff, hmatch, hcur, hin, rfl, hno⟩ |
            ⟨lits, offset, run, hvalid, hcur, rfl, rfl, hran⟩ := hread
          · obtain ⟨seqs, ending, hstream, hcur', hres, hres', hiff⟩ :=
              ih _ (by omega) hin hsize hrest rfl
            refine ⟨s :: seqs, ending, hstream.cons hoff hmatch, ?_, hres, hres', ?_⟩
            · rw [flatMap_cons, append_assoc, ← hcur'.2]
              exact hcur
            · exact (ranOut_next hno).trans hiff
          · rw [decodeFromT, dif_neg (Nat.lt_irrefl _)] at hrest
            obtain rfl := ok.inj hrest
            refine ⟨[], .cutMatch lits offset run, ⟨trivial, hvalid⟩, hcur, rfl, hsize, ?_⟩
            exact iff_of_true (mem_events_bind.mpr (.inl hran)) trivial
    · have hend : ip = src.length := by omega
      rw [decodeFromT, dif_neg hlt] at h ⊢
      obtain rfl := ok.inj h
      refine ⟨[], .nothing, ⟨trivial, trivial⟩, ?_, rfl, hout, iff_of_false (by simp) id⟩
      exact ⟨by simpa [Ending.encode] using hend, by simp [Ending.encode, hend]⟩

lemma extension_append_ne_replicate (n run : Nat) (rest : Octets) :
    extension n ++ rest ≠ List.replicate run 255 := by
  induction n using Nat.strong_induction_on generalizing run with
  | _ n ih =>
    rw [extension]
    by_cases hn : n < 255
    · rw [if_pos hn]
      intro h
      have hmem : ofNat n ∈ List.replicate run (255 : UInt8) := by
        rw [← h]
        exact mem_cons_self
      have heq := congrArg UInt8.toNat (eq_of_mem_replicate hmem)
      rw [toNat_ofNat', Nat.mod_eq_of_lt (by omega)] at heq
      exact absurd heq (Nat.ne_of_lt hn)
    · rw [if_neg hn]
      cases run with
      | zero => simp
      | succ run =>
        exact fun h => ih (n - 255) (by omega) run (List.cons.inj h).2

section
variable {src out out' rest : Octets} {size ip ip' offset m run : Nat} {token : UInt8}

lemma cursor_offset_inj {offset' : Nat} {a b : Octets} (h : Cursor src ip (leBytes 2 offset ++ a))
    (h' : Cursor src ip (leBytes 2 offset' ++ b)) : a = b := by
  have heq := h.2.symm.trans h'.2
  exact (append_inj heq (by rw [leBytes_length, leBytes_length])).2

lemma applyMatchT_whole (h : Cursor src ip (leBytes 2 offset ++ (lengthExt m ++ rest)))
    (htoken : (token &&& 0xF).toNat = min m 15)
    (hok : (applyMatchT src size token ip out).result = .ok (ip', out')) :
    .ranOut ∉ (applyMatchT src size token ip out).events := by
  obtain ⟨_, -, -, ⟨_, -, -, -, -, hno⟩ | ⟨run, hfull, hcut, -⟩⟩ := applyMatchT_ok hok
  · exact hno
  · have hrest := cursor_offset_inj h hcut
    rw [lengthExt, if_neg (by omega)] at hrest
    exact absurd hrest (extension_append_ne_replicate _ _ _)

lemma extendLength_run {limit len : Nat} {message : String}
    (h : Cursor src ip (List.replicate run 255)) (hroom : len + 255 * run ≤ limit) :
    extendLength src limit message ip len = .ok (src.length, len + 255 * run) := by
  induction run generalizing ip len with
  | zero =>
    have hend : ip = src.length := by simpa using h.1
    rw [extendLength, if_neg (by omega), hend, Nat.add_zero]
  | succ run ih =>
    rw [replicate_succ] at h
    have hlen := h.1
    have hb : byteAt src ip = 255 := h.byteAt 0
    rw [length_cons] at hlen
    rw [extendLength, if_pos (by omega)]
    simp only [hb, show (255 : UInt8).toNat = 255 from rfl, ne_eq, not_true_eq_false, if_false]
    rw [if_neg (by omega), ih h.tail (by omega)]
    congr 2
    omega

lemma applyMatchT_cut (h : Cursor src ip (leBytes 2 offset ++ List.replicate run 255))
    (htoken : (token &&& 0xF).toNat = 15) (hpos : 1 ≤ offset) (hmax : offset ≤ 65535)
    (hoff : offset ≤ out.length) (hroom : out.length + Ending.cutLength run ≤ size) :
    (applyMatchT src size token ip out).result =
    .ok (src.length, copyMatch offset (Ending.cutLength run) out) ∧
    .ranOut ∈ (applyMatchT src size token ip out).events := by
  have hresult : (applyMatchT src size token ip out).result =
      .ok (src.length, copyMatch offset (Ending.cutLength run) out) := by
    apply thrown_eq_ok_iff.mp
    have hlen := h.1
    simp only [length_append, leBytes_length] at hlen
    have h₀ : readByte src ip = .ok (ofNat offset) := h.readByte
    have h₁ : readByte src (ip + 1) = .ok (ofNat (offset / 256)) := h.tail.readByte
    have hrun := h.advance
    rw [leBytes_length] at hrun
    rw [Ending.cutLength] at hroom ⊢
    have hread := @extendLength_run _ _ _ (size - out.length) 19
      "star_decompress: match overflow" hrun (by omega)
    have hcopy := copyBytes_eq (19 + 255 * run) (by omega : 0 < offset) hoff hroom
    rw [thrown_applyMatchT, applyMatch, if_neg (by omega), h₀, h₁]
    simp only [ok_bind, offset_octets hmax, htoken, readLength]
    rw [if_neg (by omega), if_pos trivial, hread]
    simp only [ok_bind]
    rw [if_neg (by omega), if_neg (by omega), hcopy]
    rfl
  refine ⟨hresult, ?_⟩
  obtain ⟨_, -, -, ⟨m, hnibble, hwhole, -⟩ | ⟨_, -, -, -, -, hran⟩⟩ := applyMatchT_ok hresult
  · have hrest := cursor_offset_inj hwhole h
    rw [lengthExt, if_neg (by omega)] at hrest
    exact absurd hrest (extension_append_ne_replicate _ _ _)
  · exact hran

lemma ranOut_turn {ip₁ : Nat} {out₁ : Octets} (hlt : ip < src.length)
    (hlit : (copyLiteralsT src size (byteAt src ip) (ip + 1) out).result = .ok (ip₁, out₁)) :
    .ranOut ∈ (decodeSequenceT src size ip out).events ↔ ¬ src.length ≤ ip₁ ∧
    .ranOut ∈ (applyMatchT src size (byteAt src ip) ip₁ out₁).events := by
  obtain ⟨_, -, -, -, -, -, hno⟩ := copyLiteralsT_ok hlt hlit
  rw [decodeSequenceT, ranOut_load_bind, ranOut_bind hlit hno]
  dsimp only
  by_cases hend : src.length ≤ ip₁
  · simp [hend]
  · simp only [hend, not_false_eq_true, true_and]
    exact ranOut_bind_pure

lemma result_turn {ip₁ : Nat} {out₁ : Octets}
    (hlit : (copyLiteralsT src size (byteAt src ip) (ip + 1) out).result = .ok (ip₁, out₁)) :
    (decodeSequenceT src size ip out).result =
      if src.length ≤ ip₁ then .ok (.done out₁)
      else (applyMatchT src size (byteAt src ip) ip₁ out₁).result >>= fun p =>
        .ok (.next p.1 p.2) := by
  rw [decodeSequenceT]
  simp only [result_bind, load, result_record, ok_bind, hlit]
  split_ifs with hend
  · rfl
  · rw [result_bind]
    rfl

lemma copyLiteralsT_encoded {lits : Octets} {mat : Nat}
    (h : Cursor src ip (Lz4.token lits.length mat ::
    (lengthExt lits.length ++ (lits ++ rest))))
    (hroom : out.length + lits.length ≤ size) :
    byteAt src ip = Lz4.token lits.length mat ∧
    Cursor src (ip + 1 + (lengthExt lits.length).length + lits.length) rest ∧
    (copyLiteralsT src size (byteAt src ip) (ip + 1) out).result =
    .ok (ip + 1 + (lengthExt lits.length).length + lits.length, out ++ lits) := by
  have htoken : byteAt src ip = Lz4.token lits.length mat := h.byteAt 0
  refine ⟨htoken, h.tail.advance.advance, ?_⟩
  rw [htoken]
  exact thrown_eq_ok_iff.mp (thrown_copyLiteralsT.trans (copyLiterals_encoded h.tail hroom))

lemma decodeSequenceT_encode {s : Seq} (h : Cursor src ip (s.encode ++ rest))
    (hoff : 1 ≤ s.offset ∧ s.offset ≤ 65535 ∧ s.offset ≤ out.length + s.literals.length)
    (hmatch : 4 ≤ s.matchLen) (hroom : out.length + s.literals.length + s.matchLen ≤ size) :
    (decodeSequenceT src size ip out).result = .ok (.next (ip + s.encode.length)
        (copyMatch s.offset s.matchLen (out ++ s.literals))) ∧
    .ranOut ∉ (decodeSequenceT src size ip out).events := by
  have hlt : ip < src.length := by
    have hlen := h.1
    rw [length_append, encode, length_cons] at hlen
    omega
  have hresult := thrown_eq_ok_iff.mp
    ((thrown_decodeSequenceT hlt).trans (decodeSequence_encode h hoff hmatch hroom))
  refine ⟨hresult, ?_⟩
  simp only [encode, cons_append, append_assoc] at h
  obtain ⟨htoken, hmat, hlit⟩ := copyLiteralsT_encoded h
    (show out.length + s.literals.length ≤ size by omega)
  have happly := thrown_eq_ok_iff.mp (thrown_applyMatchT.trans
    (@applyMatch_encoded _ (out ++ s.literals) _ _ size _ s.literals.length _ hmat hoff.1
      hoff.2.1 (by rw [length_append]; exact hoff.2.2) hmatch
      (by rw [length_append]; exact hroom)))
  rw [ranOut_turn hlt hlit, htoken]
  exact fun hran => applyMatchT_whole hmat (token_mat _ _) happly hran.2

lemma decodeFromT_ending {ending : Ending} (h : Cursor src ip ending.encode)
    (hvalid : ending.Valid out.length) (hroom : (ending.expand out).length ≤ size) :
    (decodeFromT src size ip out).result = .ok (ending.expand out) ∧
    (.ranOut ∈ (decodeFromT src size ip out).events ↔ ending.IsCut) := by
  cases ending with
  | nothing =>
    have hend : ip = src.length := by simpa [Ending.encode] using h.1
    rw [decodeFromT, dif_neg (by omega)]
    exact ⟨rfl, iff_of_false (by simp) id⟩
  | literals nibble last =>
    have hcursor : Cursor src ip (Lz4.token last.length nibble ::
        (lengthExt last.length ++ (last ++ []))) := by
      rw [append_nil]
      exact h
    rw [Ending.expand, length_append] at hroom
    obtain ⟨-, hrest, hlit⟩ := copyLiteralsT_encoded hcursor hroom
    have hend := hrest.1
    rw [length_nil] at hend
    have hlt : ip < src.length := by omega
    have hturn : (decodeSequenceT src size ip out).result = .ok (.done (out ++ last)) := by
      rw [result_turn hlit, if_pos (by omega)]
    rw [decodeFromT_done hlt hturn]
    refine ⟨rfl, iff_of_false (fun hran => ?_) id⟩
    exact ((ranOut_turn hlt hlit).mp hran).1 (by omega)
  | cutMatch lits offset run =>
    obtain ⟨hpos, hmax, hoff⟩ := hvalid
    rw [Ending.expand, copyMatch_length, length_append] at hroom
    obtain ⟨htoken, hrest, hlit⟩ := copyLiteralsT_encoded h
      (show out.length + lits.length ≤ size by omega)
    have hlen := hrest.1
    rw [length_append, leBytes_length] at hlen
    have hlt : ip < src.length := by omega
    rw [← length_append] at hoff hroom
    obtain ⟨happly, hran⟩ := applyMatchT_cut hrest (token_mat lits.length 15) hpos hmax hoff hroom
    rw [← htoken] at happly hran
    have hturn : (decodeSequenceT src size ip out).result =
        .ok (.next src.length (copyMatch offset (Ending.cutLength run) (out ++ lits))) := by
      rw [result_turn hlit, if_neg (by omega), happly, ok_bind]
    rw [decodeFromT_next hlt hturn, decodeFromT, dif_neg (lt_irrefl _)]
    refine ⟨rfl, iff_of_true ?_ trivial⟩
    exact mem_events_bind.mpr (.inl ((ranOut_turn hlt hlit).mpr ⟨by omega, hran⟩))

lemma decodeFromT_encode (seqs : List Seq) {ending : Ending}
    (h : Cursor src ip (seqs.flatMap encode ++ ending.encode))
    (hstream : Stream seqs ending out)
    (hroom : (ending.expand (expandSeqs seqs out)).length ≤ size) :
    (decodeFromT src size ip out).result = .ok (ending.expand (expandSeqs seqs out)) ∧
    (.ranOut ∈ (decodeFromT src size ip out).events ↔ ending.IsCut) := by
  induction seqs generalizing ip out with
  | nil => exact decodeFromT_ending h hstream.ended hroom
  | cons s seqs ih =>
    obtain ⟨hoff, hmatch, hrest⟩ := hstream.valid
    rw [flatMap_cons, append_assoc] at h
    have hgrow := length_le_expandSeqs seqs (copyMatch s.offset s.matchLen (out ++ s.literals))
    have hexpand := Ending.length_le_expand ending
      (expandSeqs seqs (copyMatch s.offset s.matchLen (out ++ s.literals)))
    rw [copyMatch_length, length_append] at hgrow
    rw [expandSeqs] at hroom ⊢
    have hlen := h.1
    have henc : 0 < s.encode.length := by simp [encode]
    rw [length_append] at hlen
    obtain ⟨hturn, hno⟩ := decodeSequenceT_encode h hoff hmatch
      (show out.length + s.literals.length + s.matchLen ≤ size by omega)
    have hlt : ip < src.length := by omega
    have hstream' : Stream seqs ending (copyMatch s.offset s.matchLen (out ++ s.literals)) := by
      refine ⟨?_, hstream.ended⟩
      rw [copyMatch_length, length_append]
      exact hrest
    obtain ⟨hresult, hiff⟩ := ih h.advance hstream' hroom
    rw [decodeFromT_next hlt hturn]
    exact ⟨hresult, (ranOut_next hno).trans hiff⟩

end

/-- What `star_decompress` returns is as long as announced, and no length was cut off. -/
def ReturnsWhole (src : Octets) : Prop :=
  ∀ out, starDecompress src = .ok out →
    out.length = (readU32Le src).toNat ∧ .ranOut ∉ (starDecompressT src).events

/-- Behind the size are sequences that stand for less, or whose last match is cut off. -/
def SlipsThrough (src : Octets) : Prop :=
  ∃ size seqs ending, size ≤ starDecompressMax ∧ Stream seqs ending [] ∧
    src = leBytes 4 size ++ (seqs.flatMap encode ++ ending.encode) ∧
    (ending.expand (expandSeqs seqs [])).length ≤ size ∧
    ((ending.expand (expandSeqs seqs [])).length < size ∨ ending.IsCut)

section
variable {src : Octets}

lemma starDecompressT_loop (hlong : 4 ≤ src.length)
    (hmax : (readU32Le src).toNat ≤ starDecompressMax) :
    (starDecompressT src).result = (decodeFromT src (readU32Le src).toNat 4 []).result ∧
    (.ranOut ∈ (starDecompressT src).events ↔
    .ranOut ∈ (decodeFromT src (readU32Le src).toNat 4 []).events) := by
  rw [starDecompressT, if_neg (not_lt.mpr hlong)]
  constructor
  · rw [result_bind, result_record, ok_bind, if_neg (not_lt.mpr hmax)]
  · rw [ranOut_bind rfl (by simp), if_neg (not_lt.mpr hmax)]

lemma size_of_returns {out : Octets} (h : starDecompress src = .ok out) :
    4 ≤ src.length ∧ (readU32Le src).toNat ≤ starDecompressMax := by
  obtain ⟨hshort, h⟩ := guard_eq_ok h
  obtain ⟨hlarge, -⟩ := guard_eq_ok h
  exact ⟨by omega, by omega⟩

lemma result_starDecompressT {out : Octets} :
    starDecompress src = .ok out ↔ (starDecompressT src).result = .ok out := by
  rw [← thrown_starDecompressT, thrown_eq_ok_iff]

lemma cursor_size {size : Nat} (hmax : size ≤ starDecompressMax) (stream : Octets) :
    (readU32Le (leBytes 4 size ++ stream)).toNat = size ∧
    Cursor (leBytes 4 size ++ stream) 4 stream := by
  have hlt : size < 2 ^ 32 := lt_of_le_of_lt hmax (by decide)
  have hsize : (UInt32.ofNat size).toNat = size := by
    rw [UInt32.toNat_ofNat']
    omega
  have hread := readU32Le_leBytes (UInt32.ofNat size) stream
  rw [hsize] at hread
  refine ⟨by rw [hread, hsize], ?_, drop_left' (leBytes_length _ _)⟩
  rw [length_append, leBytes_length]

end

theorem returnsWhole_iff (src : Octets) : ReturnsWhole src ↔ ¬ SlipsThrough src := by
  constructor
  · rintro hwhole ⟨size, seqs, ending, hmax, hstream, rfl, hroom, hslip⟩
    obtain ⟨hsize, hcursor⟩ := cursor_size hmax (seqs.flatMap encode ++ ending.encode)
    obtain ⟨hresult, hiff⟩ := decodeFromT_encode seqs hcursor hstream hroom
    rw [← hsize] at hmax
    have hlong : 4 ≤ (leBytes 4 size ++ (seqs.flatMap encode ++ ending.encode)).length := by
      rw [length_append, leBytes_length]
      omega
    obtain ⟨hloop, hran⟩ := starDecompressT_loop hlong hmax
    rw [hsize] at hloop hran
    obtain ⟨hlength, hno⟩ := hwhole _ (result_starDecompressT.mpr (hloop.trans hresult))
    rw [hran, hiff] at hno
    obtain hshort | hcut := hslip
    · omega
    · exact hno hcut
  · intro hslip out hout
    obtain ⟨hlong, hmax⟩ := size_of_returns hout
    obtain ⟨hloop, hran⟩ := starDecompressT_loop hlong hmax
    have hresult := hloop.symm.trans (result_starDecompressT.mp hout)
    obtain ⟨seqs, ending, hstream, hcursor, rfl, hroom, hiff⟩ :=
      decodeFromT_ok hlong (zero_le _) hresult
    have hsrc : src = leBytes 4 (readU32Le src).toNat ++
        (seqs.flatMap encode ++ ending.encode) := by
      rw [leBytes_readU32Le hlong, ← hcursor.2, take_append_drop]
    rw [hran, hiff]
    constructor
    · by_contra hne
      exact hslip ⟨_, seqs, ending, hmax, hstream, hsrc, hroom, .inl (by omega)⟩
    · exact fun hcut => hslip ⟨_, seqs, ending, hmax, hstream, hsrc, hroom, .inr hcut⟩

/-- A size and nothing else: one octet is announced, and none is returned. -/
theorem nothing_returned : ¬ ReturnsWhole [1, 0, 0, 0] := by
  intro hwhole
  have hreturns : starDecompress [1, 0, 0, 0] = .ok [] := by decide +kernel
  exact absurd (hwhole [] hreturns).1 (by decide)

end Millennium.Star
