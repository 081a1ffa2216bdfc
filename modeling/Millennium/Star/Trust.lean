import Millennium.Star.Bounds
import Mathlib.Data.Finset.Card

/-!
# What a signature covers

The signed message ends where the last non-deferred section ends, by the section table itself, and
may stop short of that table. Exactly if it reaches far enough into the last entry, the signed bytes
determine the trusted content.
-/

namespace Millennium.Star

open Bytes Outcome List StarSection Nat

def TrustedLoad (verify : Octets → Octets → Bool) (b : StarBounded) : Prop :=
  starIsTrusted verify b.starStart b.sections b.fileData = .ok true

def signedPayload (b : StarBounded) : Octets :=
  b.fileData.take (sigStart b.starStart b.sections)

/-- Two files have the same first entry for every content section, and decode it alike. -/
def SameContent (b b' : StarBounded) : Prop :=
  ∀ id, id ≠ secAssets →
    findSection b.sections id = findSection b'.sections id ∧
      ∀ s, findSection b.sections id = some s →
        starDecodeSection b.fileData b.starStart s = starDecodeSection b'.fileData b'.starStart s

/-- Every other trusted file with the same signed bytes has the same content. -/
def ContentDetermined (file : Octets) : Prop :=
  ∀ verify other b b', starLoadBounded file = some b → starLoadBounded other = some b' →
    TrustedLoad verify b → TrustedLoad verify b' → signedPayload b = signedPayload b' →
      SameContent b b'

/-- The signed bytes reach to the id of the last entry, and past its fields unless the id is that of
the assets or an earlier one. -/
def TableSigned (b : StarBounded) : Prop :=
  ∃ init last, b.sections = init ++ [last] ∧
    b.starStart + starHeaderSize + init.length * starEntrySize < sigStart b.starStart b.sections ∧
    (last.id = secAssets ∨ (∃ s ∈ init, s.id = last.id) ∨
      b.starStart + starHeaderSize + init.length * starEntrySize + entryUsed ≤
        sigStart b.starStart b.sections)

lemma trustedLoad_iff (verify : Octets → Octets → Bool) (b : StarBounded) : TrustedLoad verify b ↔
    byteAt b.fileData (b.starStart + 7) &&& starFlagSigned ≠ 0 ∧
    (∀ s ∈ b.sections, s.id ≠ secAssets → ¬ s.deferred) ∧
    sigStart b.starStart b.sections + sigLen ≤ b.fileData.length ∧
    addU64 (sigStart b.starStart b.sections) sigLen ≤ b.fileData.length ∧
    verify (signedPayload b)
          (slice b.fileData (sigStart b.starStart b.sections) sigLen) = true := by
  have hpay (n : Nat) : slice b.fileData 0 n = b.fileData.take n := rfl
  unfold TrustedLoad starIsTrusted signedPayload
  constructor
  · intro htrust
    cases hcall : starVerifyCall b.starStart b.sections b.fileData with
    | none =>
      rw [hcall] at htrust
      simp at htrust
    | some n =>
      rw [hcall] at htrust
      obtain ⟨hflag, hdef, rfl, hle⟩ := (starVerifyCall_eq_some_iff _ _ _ _).mp hcall
      obtain ⟨message, hm, htrust⟩ := bind_eq_ok_iff.mp htrust
      obtain ⟨signature, hs, htrust⟩ := bind_eq_ok_iff.mp htrust
      obtain ⟨-, rfl⟩ := (readRange_eq_ok_iff _ _ _ _).mp hm
      obtain ⟨hroom, rfl⟩ := (readRange_eq_ok_iff _ _ _ _).mp hs
      rw [hpay] at htrust
      exact ⟨hflag, hdef, hroom, hle, by simpa using htrust⟩
  · rintro ⟨hflag, hdef, hroom, hle, hverify⟩
    rw [(starVerifyCall_eq_some_iff _ _ _ _).mpr ⟨hflag, hdef, rfl, hle⟩]
    refine bind_eq_ok_iff.mpr ⟨_, (readRange_eq_ok_iff _ _ _ _).mpr ⟨by omega, rfl⟩, ?_⟩
    refine bind_eq_ok_iff.mpr ⟨_, (readRange_eq_ok_iff _ _ _ _).mpr ⟨hroom, rfl⟩, ?_⟩
    rw [hpay, hverify]

variable {file other : Octets} {b : StarBounded} {starStart : Nat}

section
variable (hload : starLoadBounded file = some b)
include hload

lemma trusted_data_length (hroom : sigStart b.starStart b.sections + sigLen ≤ b.fileData.length) :
    b.fileData.length = sigStart b.starStart b.sections + sigLen := by
  obtain ⟨-, -, -, -, -, hdata⟩ := (loaded_iff file b).mp hload
  have hle : b.fileData.length ≤ addU64 (sigStart b.starStart b.sections) sigLen := by
    rw [hdata, length_take]
    exact le_trans (min_le_left _ _) (min_le_right _ _)
  unfold addU64 at hle
  omega

lemma loaded_data_lt : b.fileData.length < 2 ^ 64 := by
  obtain ⟨-, -, -, -, -, hdata⟩ := (loaded_iff file b).mp hload
  rw [hdata, length_take]
  exact lt_of_le_of_lt (min_le_left _ _) (readLimit_lt _ _ _)

lemma loaded_byteAt
    {i : Nat} (hi : i < b.fileData.length) : byteAt b.fileData i = byteAt file i := by
  obtain ⟨-, -, -, -, -, hdata⟩ := (loaded_iff file b).mp hload
  rw [hdata, length_take] at hi
  rw [hdata, byteAt_take (by omega)]

lemma signedPayload_byteAt
    (hroom : sigStart b.starStart b.sections + sigLen ≤ b.fileData.length) {i : Nat}
    (hi : i < sigStart b.starStart b.sections) :
    byteAt (signedPayload b) i = byteAt file i := by
  rw [signedPayload, byteAt_take hi, loaded_byteAt hload (by omega)]

end

lemma signedPayload_length (hroom : sigStart b.starStart b.sections + sigLen ≤ b.fileData.length) :
    (signedPayload b).length = sigStart b.starStart b.sections :=
  length_take_of_le (by omega)

lemma sigStart_no_wrap {sections : List StarSection} (hstart : starStart < 2 ^ 64)
    (h : starStart < sigStart starStart sections) :
    sigStart starStart sections = starStart + (maxEagerEnd sections).toNat := by
  have hm := (maxEagerEnd sections).toNat_lt
  unfold sigStart addU64 at *
  omega

lemma starStart_congr {starStart' : Nat} (h : starStartOf file = some starStart)
    (h' : starStartOf other = some starStart') (hagree : ∀ i < 4, byteAt file i = byteAt other i) :
    starStart = starStart' := by
  obtain ⟨hlen, hcase⟩ := (starStartOf_eq_some_iff file starStart).mp h
  obtain ⟨hlen', hcase'⟩ := (starStartOf_eq_some_iff other starStart').mp h'
  have hpre : slice file 0 4 = slice other 0 4 :=
    slice_congr (by omega) (by omega) (fun i _ hi => hagree i (by omega))
  rw [← hpre] at hcase'
  rcases hcase with ⟨hmagic, rfl⟩ | ⟨hmagic, rfl, -⟩ <;>
    rcases hcase' with ⟨hmagic', rfl⟩ | ⟨hmagic', rfl, -⟩
  · rfl
  · exact absurd hmagic hmagic'
  · exact absurd hmagic' hmagic
  · rfl

lemma tableEntry_congr {e : Nat}
    (h : ∀ i, e ≤ i → i < e + entryUsed → byteAt file i = byteAt other i) :
    readSection (file.drop e) = readSection (other.drop e) := by
  apply readSection_congr
  intro i hi
  rw [byteAt_drop, byteAt_drop, h (e + i) (by omega) (by omega)]

lemma tableEntries_congr {n : Nat}
    (h : ∀ i < start + starHeaderSize + n * starEntrySize, byteAt file i = byteAt other i) :
    tableEntries file start n = tableEntries other start n := by
  apply map_congr_left
  intro i hi
  have hle : (i + 1) * starEntrySize ≤ n * starEntrySize :=
    mul_le_mul_right _ (mem_range.mp hi)
  apply tableEntry_congr
  intro j _ hj
  apply h
  simp only [starEntrySize, entryUsed] at *
  omega

/-- Changing the last entry behind its id, if that is of the assets or an earlier one, changes no
first entry of a content section. -/
lemma findSection_append_congr {init : List StarSection} {last last' : StarSection} {id : UInt8}
    (hid : id ≠ secAssets) (hlast : last.id = last'.id)
    (h : last.id = secAssets ∨ (∃ s ∈ init, s.id = last.id) ∨ last = last') :
    findSection (init ++ [last]) id = findSection (init ++ [last']) id := by
  unfold findSection
  rw [find?_append, find?_append]
  rcases h with h | ⟨s, hs, h⟩ | h
  · have hne : last.id ≠ id := fun heq => hid (heq ▸ h)
    simp [hne, hlast ▸ hne]
  · by_cases heq : last.id = id
    · cases hfind : init.find? (·.id = id) with
      | some s' => rfl
      | none =>
        have := find?_eq_none.mp hfind s hs
        simp [h, heq] at this
    · simp [heq, hlast ▸ heq]
  · rw [h]

lemma decode_congr {data data' : Octets} {m : Nat} {s : StarSection}
    (hlen : data.length = data'.length) (hsize : data.length < 2 ^ 64)
    (hstart : starStart ≤ data.length) (hend : (s.offset + s.length).toNat ≤ m)
    (hagree : ∀ i < starStart + m, byteAt data i = byteAt data' i) :
    starDecodeSection data starStart s = starDecodeSection data' starStart s := by
  unfold starDecodeSection
  rw [← hlen]
  cases hr : starSectionRange data.length starStart s with
  | error e => rfl
  | ok r =>
    obtain ⟨start, length⟩ := r
    obtain ⟨rfl, rfl, hle⟩ := (starSectionRange_ok_iff hstart hsize s start length).mp hr
    have hsum : (s.offset + s.length).toNat = s.offset.toNat + s.length.toNat := by
      rw [UInt64.toNat_add]
      omega
    have hread : readRange data (starStart + s.offset.toNat) s.length.toNat =
        readRange data' (starStart + s.offset.toNat) s.length.toNat := by
      rw [(readRange_eq_ok_iff _ _ _ _).mpr ⟨hle, rfl⟩,
        (readRange_eq_ok_iff _ _ _ _).mpr ⟨hlen ▸ hle, rfl⟩]
      congr 1
      exact slice_congr hle (hlen ▸ hle) (fun i _ hi => hagree i (by omega))
    simp [hread]

/-- Files that agree up to the id of the last entry have the same start and table, but for what
follows that id. -/
lemma table_congr {b' : StarBounded} {n : Nat} (hload : starLoadBounded file = some b)
    (hload' : starLoadBounded other = some b') {init : List StarSection} {last : StarSection}
    (hsec : b.sections = init ++ [last])
    (hreach : b.starStart + starHeaderSize + init.length * starEntrySize < n)
    (hagree : ∀ i < n, byteAt file i = byteAt other i) :
    b.starStart = b'.starStart ∧ ∃ last', b'.sections = init ++ [last'] ∧ last.id = last'.id ∧
    (b.starStart + starHeaderSize + init.length * starEntrySize + entryUsed ≤ n →
    last = last') := by
  obtain ⟨count, hstart, hcount, htbl, -, -⟩ := (loaded_iff file b).mp hload
  obtain ⟨count', hstart', hcount', htbl', -, -⟩ := (loaded_iff other b').mp hload'
  have hhead : starHeaderSize = 12 := rfl
  have hT : b.starStart = b'.starStart :=
    starStart_congr hstart hstart' (fun i hi => hagree i (by omega))
  obtain ⟨-, -, hc, -, -⟩ := (starSectionCount_eq_some_iff _ _ _).mp hcount
  obtain ⟨-, -, hc', -, -⟩ := (starSectionCount_eq_some_iff _ _ _).mp hcount'
  have hcc : count' = count := by
    rw [hc', hc, ← hT, hagree (b.starStart + 6) (by omega)]
  have hinit : count = init.length + 1 := by
    rw [← tableEntries_length file b.starStart count, ← htbl, hsec]
    simp
  rw [hinit, tableEntries_succ, hsec] at htbl
  rw [hcc, hinit, ← hT, tableEntries_succ,
    ← tableEntries_congr (fun i hi => hagree i (by omega))] at htbl'
  obtain ⟨hinit', hlast⟩ := append_inj' htbl rfl
  rw [← hinit'] at htbl'
  refine ⟨hT, _, htbl', ?_, ?_⟩
  · rw [singleton_inj.mp hlast]
    change byteAt (file.drop _) 0 = byteAt (other.drop _) 0
    rw [byteAt_drop, byteAt_drop, hagree _ (by omega)]
  · intro hfull
    rw [singleton_inj.mp hlast]
    exact tableEntry_congr (fun i _ hi => hagree i (by omega))

/-- If the signed bytes reach far enough into the last entry, they settle the
content. -/
lemma sameContent_of_tableSigned {verify : Octets → Octets → Bool} {b' : StarBounded}
    (hload : starLoadBounded file = some b) (hload' : starLoadBounded other = some b')
    (htrust : TrustedLoad verify b) (htrust' : TrustedLoad verify b')
    (hpay : signedPayload b = signedPayload b') (hsigned : TableSigned b) : SameContent b b' := by
  obtain ⟨-, hdef, hroom, -, -⟩ := (trustedLoad_iff verify b).mp htrust
  obtain ⟨-, -, hroom', -, -⟩ := (trustedLoad_iff verify b').mp htrust'
  obtain ⟨init, last, hsec, hreach, hlast⟩ := hsigned
  -- the two messages have one length, and the files agree below it
  have hsig : sigStart b.starStart b.sections = sigStart b'.starStart b'.sections := by
    rw [← signedPayload_length hroom, ← signedPayload_length hroom', hpay]
  have hagree : ∀ i < sigStart b.starStart b.sections, byteAt file i = byteAt other i := by
    intro i hi
    rw [← signedPayload_byteAt hload hroom hi, ← signedPayload_byteAt hload' hroom' (hsig ▸ hi),
      hpay]
  have hdata : ∀ i < sigStart b.starStart b.sections,
      byteAt b.fileData i = byteAt b'.fileData i := by
    intro i hi
    have hi' := congrArg (byteAt · i) hpay
    simpa only [signedPayload, byteAt_take hi, byteAt_take (hsig ▸ hi)] using hi'
  obtain ⟨hT, last', hsec', hid, hfull⟩ := table_congr hload hload' hsec hreach hagree
  have hfind (id : UInt8) (hne : id ≠ secAssets) :
      findSection b.sections id = findSection b'.sections id := by
    rw [hsec, hsec']
    exact findSection_append_congr hne hid (hlast.imp_right (Or.imp_right hfull))
  have hlen := trusted_data_length hload hroom
  have hlen' := trusted_data_length hload' hroom'
  have hsize := loaded_data_lt hload
  have hend : sigStart b.starStart b.sections =
      b.starStart + (maxEagerEnd b.sections).toNat := sigStart_no_wrap (by omega) (by omega)
  intro id hne
  refine ⟨hfind id hne, fun s hs => ?_⟩
  obtain ⟨hmem, rfl⟩ := findSection_mem hs
  rw [← hT]
  exact decode_congr (by omega) hsize (by omega)
    (UInt64.le_iff_toNat_le.mp (end_le_maxEagerEnd hmem (hdef s hmem hne)))
    (fun i hi => hdata i (by omega))

lemma readSection_set_crc (e : Octets) (x : UInt8) (hlen : entryUsed ≤ e.length)
    (hx : x ≠ byteAt e 27) :
    ∃ crc, readSection (e.set 27 x) = { readSection e with crc32 := crc } ∧
      crc ≠ (readSection e).crc32 := by
  have hused : entryUsed = 28 := rfl
  have hsame (k i : Nat) (h : k + i < 27) : byteAt ((e.set 27 x).drop k) i = byteAt (e.drop k) i := by
    rw [byteAt_drop, byteAt_drop, byteAt_set_ne (by omega)]
  have h₄ : readU32Le ((e.set 27 x).drop 4) = readU32Le (e.drop 4) :=
    readU32Le_congr (fun i hi => hsame 4 i (by omega))
  have h₈ : readU64Le ((e.set 27 x).drop 8) = readU64Le (e.drop 8) :=
    readU64Le_congr (fun i hi => hsame 8 i (by omega))
  have h₁₆ : readU64Le ((e.set 27 x).drop 16) = readU64Le (e.drop 16) :=
    readU64Le_congr (fun i hi => hsame 16 i (by omega))
  refine ⟨readU32Le ((e.set 27 x).drop 24), ?_, ?_⟩
  · rw [readSection, byteAt_set_ne (by decide), byteAt_set_ne (by decide), h₄, h₈, h₁₆]
    rfl
  · intro hcrc
    have hnat := congrArg UInt32.toNat hcrc
    change (readU32Le _).toNat = (readU32Le (e.drop 24)).toNat at hnat
    rw [readU32Le_toNat, readU32Le_toNat, hsame 24 0 (by decide), hsame 24 1 (by decide),
      hsame 24 2 (by decide), byteAt_drop _ 24 3, byteAt_set_self (by omega)] at hnat
    refine hx (UInt8.toNat_inj.mp ?_)
    rw [byteAt_drop _ 24 3] at hnat
    simp only [reduceAdd] at hnat
    omega

def acceptAll : Octets → Octets → Bool := fun _ _ => true

lemma trustedLoad_acceptAll_iff (b : StarBounded) : TrustedLoad acceptAll b ↔
    byteAt b.fileData (b.starStart + 7) &&& starFlagSigned ≠ 0 ∧
    (∀ s ∈ b.sections, s.id ≠ secAssets → ¬ s.deferred) ∧
    sigStart b.starStart b.sections + sigLen ≤ b.fileData.length ∧
    addU64 (sigStart b.starStart b.sections) sigLen ≤ b.fileData.length := by
  simp [trustedLoad_iff, acceptAll]

section
variable {file : Octets} {b : StarBounded} {init : List StarSection} {last : StarSection}
  {entry : Octets}

private theorem lastEntry_fits (hload : starLoadBounded file = some b)
    (hsec : b.sections = init ++ [last]) :
    b.starStart + starHeaderSize + init.length * starEntrySize + starEntrySize ≤ file.length ∧
    last = readSection
        (file.drop (b.starStart + starHeaderSize + init.length * starEntrySize)) ∧
    init = tableEntries file b.starStart init.length ∧ init.length + 1 ≤ maxSections := by
  obtain ⟨count, -, hcount, htbl, -, -⟩ := (loaded_iff file b).mp hload
  obtain ⟨-, -, -, hmax, hfits⟩ := (starSectionCount_eq_some_iff _ _ _).mp hcount
  have hinit : count = init.length + 1 := by
    rw [← tableEntries_length file b.starStart count, ← htbl, hsec]
    simp
  rw [hinit, tableEntries_succ, hsec] at htbl
  obtain ⟨h₁, h₂⟩ := append_inj' htbl rfl
  rw [hinit] at hmax hfits
  refine ⟨?_, singleton_inj.mp h₂, h₁, hmax⟩
  rw [add_mul] at hfits
  omega

lemma overwrite_loads (hload : starLoadBounded file = some b)
    (hsec : b.sections = init ++ [last]) (hentry : entry.length = starEntrySize)
    (hadm : (readSection entry).Admissible)
    (hmax : maxEagerEnd (init ++ [readSection entry]) = maxEagerEnd b.sections) :
    starLoadBounded
        (overwrite file (b.starStart + starHeaderSize + init.length * starEntrySize) entry) =
    some ⟨b.starStart, init ++ [readSection entry],
    (overwrite file (b.starStart + starHeaderSize + init.length * starEntrySize) entry).take
          (readLimit file.length b.starStart (maxEagerEnd b.sections))⟩ := by
  obtain ⟨hfits, -, hinit, -⟩ := lastEntry_fits hload hsec
  obtain ⟨count, hstart, hcount, htbl, hall, -⟩ := (loaded_iff file b).mp hload
  generalize he : b.starStart + starHeaderSize + init.length * starEntrySize = e at *
  have hhead : starHeaderSize = 12 := rfl
  have hroom : e + entry.length ≤ file.length := by omega
  have hlen := overwrite_length hroom
  have hbefore : ∀ i < e, byteAt file i = byteAt (overwrite file e entry) i :=
    fun i hi => (byteAt_overwrite_before hroom hi).symm
  have hslice (off len : Nat) (h : off + len ≤ e) :
      slice (overwrite file e entry) off len = slice file off len :=
    slice_congr (by omega) (by omega) (fun i _ hi => (hbefore i (by omega)).symm)
  have hnew : readSection ((overwrite file e entry).drop e) = readSection entry := by
    apply readSection_congr
    intro i hi
    have hused : entryUsed = 28 := rfl
    have hsize : starEntrySize = 256 := rfl
    rw [byteAt_drop, byteAt_overwrite_inside hroom (by omega)]
  have hlength : count = init.length + 1 := by
    rw [← tableEntries_length file b.starStart count, ← htbl, hsec]
    simp
  have hstart' : starStartOf (overwrite file e entry) = some b.starStart := by
    rw [starStartOf_eq_some_iff] at hstart ⊢
    rwa [hlen, hslice 0 4 (by omega)]
  have hcount' : starSectionCount (overwrite file e entry) b.starStart = some count := by
    rw [starSectionCount_eq_some_iff] at hcount ⊢
    rwa [hlen, hslice _ 4 (by omega), ← hbefore _ (by omega), ← hbefore _ (by omega)]
  have htbl' : init ++ [readSection entry] =
      tableEntries (overwrite file e entry) b.starStart count := by
    rw [hlength, tableEntries_succ, he, hnew,
      ← tableEntries_congr (fun i hi => hbefore i (by omega)), ← hinit]
  have hall' : ∀ s ∈ init ++ [readSection entry], s.Admissible := by
    intro s hs
    rcases mem_append.mp hs with hs | hs
    · exact hall s (by rw [hsec]; exact mem_append_left _ hs)
    · rw [mem_singleton.mp hs]
      exact hadm
  exact (loaded_iff _ _).mpr ⟨count, hstart', hcount', htbl', hall', by simp only [hlen, hmax]⟩

/-- A forged last entry that leaves the signed octets alone must not show. -/
lemma overwrite_sameFirst (hdet : ContentDetermined file)
    (hload : starLoadBounded file = some b) (htrust : TrustedLoad acceptAll b)
    (hsec : b.sections = init ++ [last]) (hentry : entry.length = starEntrySize)
    (hadm : (readSection entry).Admissible) (heager : ¬ (readSection entry).deferred)
    (hmax : maxEagerEnd (init ++ [readSection entry]) = maxEagerEnd b.sections)
    (hagree : ∀ i < entry.length, b.starStart + starHeaderSize + init.length * starEntrySize + i <
    sigStart b.starStart b.sections →
    byteAt entry i =
    byteAt file (b.starStart + starHeaderSize + init.length * starEntrySize + i))
    {id : UInt8} (hid : id ≠ secAssets) :
    findSection b.sections id = findSection (init ++ [readSection entry]) id := by
  obtain ⟨hfits, -, -, -⟩ := lastEntry_fits hload hsec
  obtain ⟨-, -, -, -, -, hdata⟩ := (loaded_iff file b).mp hload
  obtain ⟨hflag, hdef, hroom, hle⟩ := (trustedLoad_acceptAll_iff b).mp htrust
  have hload' := overwrite_loads hload hsec hentry hadm hmax
  have hflagAt : b.starStart + 7 <
      b.starStart + starHeaderSize + init.length * starEntrySize := by
    simp only [starHeaderSize]
    omega
  generalize b.starStart + starHeaderSize + init.length * starEntrySize = e at *
  have hover : e + entry.length ≤ file.length := by omega
  have hsig : sigStart b.starStart (init ++ [readSection entry]) =
      sigStart b.starStart b.sections := by
    rw [sigStart, sigStart, hmax]
  have hlen : ((overwrite file e entry).take
      (readLimit file.length b.starStart (maxEagerEnd b.sections))).length = b.fileData.length := by
    rw [hdata, length_take, length_take, overwrite_length hover]
  have htrust' : TrustedLoad acceptAll ⟨b.starStart, init ++ [readSection entry],
      (overwrite file e entry).take
        (readLimit file.length b.starStart (maxEagerEnd b.sections))⟩ := by
    refine (trustedLoad_acceptAll_iff _).mpr ⟨?_, ?_, ?_, ?_⟩
    · rw [hdata] at hflag
      rwa [byteAt_take_congr _ (byteAt_overwrite_before hover hflagAt)]
    · intro s hs hne
      rcases mem_append.mp hs with hs | hs
      · exact hdef s (by rw [hsec]; exact mem_append_left _ hs) hne
      · rw [mem_singleton.mp hs]
        exact heager
    · simpa only [hsig, hlen] using hroom
    · simpa only [hsig, hlen] using hle
  refine (hdet acceptAll _ b _ hload hload' htrust htrust' ?_ id hid).1
  refine ext_byteAt ?_ fun i hi => ?_
  · simp [signedPayload, hsig, hlen]
  · rw [signedPayload_length hroom] at hi
    simp only [signedPayload, hsig]
    rw [byteAt_take hi, byteAt_take hi, hdata]
    exact (byteAt_take_congr _ (byteAt_overwrite_of_agree hover hagree hi)).symm

lemma exists_fresh_id (l : List StarSection) (h : l.length ≤ maxSections) :
    ∃ id : UInt8, id ≠ secAssets ∧ ∀ s ∈ l, s.id ≠ id := by
  have hcard : (insert 5 (l.map fun s => s.id.toNat).toFinset).card < (Finset.range 256).card := by
    calc
      (insert 5 (l.map fun s => s.id.toNat).toFinset).card ≤
          (l.map fun s => s.id.toNat).toFinset.card + 1 := Finset.card_insert_le _ _
      _ ≤ l.length + 1 := by
          have := toFinset_card_le (l.map fun s => s.id.toNat)
          rw [length_map] at this
          omega
      _ < (Finset.range 256).card := by
          rw [Finset.card_range]
          simp only [maxSections] at h
          omega
  obtain ⟨n, hn, hfresh⟩ := Finset.exists_mem_notMem_of_card_lt_card hcard
  have hn := Finset.mem_range.mp hn
  have hnat : (UInt8.ofNat n).toNat = n := by
    simp
    omega
  rw [Finset.mem_insert, not_or, mem_toFinset] at hfresh
  refine ⟨UInt8.ofNat n, ?_, ?_⟩
  · intro heq
    exact hfresh.1 (by rw [← hnat, heq]; rfl)
  · intro s hs heq
    exact hfresh.2 (mem_map.mpr ⟨s, hs, by rw [heq, hnat]⟩)

section
variable (hdet : ContentDetermined file) (hload : starLoadBounded file = some b)
  (htrust : TrustedLoad acceptAll b) (hsec : b.sections = init ++ [last])
include hdet hload htrust hsec

/-- If the id of the last entry is not signed, an entry with a new id can replace it. -/
lemma lastId_signed : b.starStart + starHeaderSize + init.length * starEntrySize <
    sigStart b.starStart b.sections := by
  by_contra hnot
  obtain ⟨-, -, -, hcount⟩ := lastEntry_fits hload hsec
  obtain ⟨id, hid, hfresh⟩ := exists_fresh_id (init ++ [last]) (by simpa using hcount)
  -- the new entry is empty and ends where the signed message is to end
  obtain ⟨new, hnew⟩ : ∃ new : StarSection, new = ⟨id, 0, 0, maxEagerEnd b.sections, 0, 0⟩ :=
    ⟨_, rfl⟩
  have heager : ¬ new.deferred := by
    rw [hnew]
    simp [deferred]
  have hadm : new.Admissible := by
    rw [hnew]
    simp [StarSection.Admissible, required]
  have hmax : maxEagerEnd (init ++ [new]) = maxEagerEnd b.sections := by
    have hle : maxEagerEnd init ≤ maxEagerEnd b.sections := by
      rw [hsec, maxEagerEnd_append]
      exact le_eagerEnd _ _
    have hend : new.offset + new.length = maxEagerEnd b.sections := by
      rw [hnew]
      exact UInt64.add_zero _
    rw [maxEagerEnd_append, eagerEnd, hend]
    split_ifs with hlt
    · rfl
    · exact UInt64.le_antisymm hle (UInt64.not_lt.mp hlt)
  rw [← readSection_toBytes new] at hadm heager hmax
  have hsame := overwrite_sameFirst hdet hload htrust hsec new.toBytes_length hadm heager hmax
    (fun i _ hi => absurd hi (by omega)) hid
  rw [readSection_toBytes, hsec] at hsame
  have hnone : findSection (init ++ [last]) id = none :=
    find?_eq_none.mpr (fun s hs => by simpa using hfresh s hs)
  have hsome : findSection (init ++ [new]) id ≠ none := by
    rw [findSection, ne_eq, find?_eq_none]
    intro hall
    exact hall new (by simp) (by simp [hnew])
  exact hsome (hsame ▸ hnone)

/-- If the id of the last entry is signed and its other fields are not, its checksum can be changed.
-/
lemma lastEntry_signed
    (hid : last.id ≠ secAssets) (hfresh : ∀ s ∈ init, s.id ≠ last.id) :
    b.starStart + starHeaderSize + init.length * starEntrySize + entryUsed ≤
    sigStart b.starStart b.sections := by
  by_contra hnot
  obtain ⟨hfits, hlast, -, -⟩ := lastEntry_fits hload hsec
  obtain ⟨-, -, -, -, hall, -⟩ := (loaded_iff file b).mp hload
  obtain ⟨-, hdef, -, -⟩ := (trustedLoad_acceptAll_iff b).mp htrust
  have hmem : last ∈ b.sections := by simp [hsec]
  generalize he : b.starStart + starHeaderSize + init.length * starEntrySize = e at *
  have hused : entryUsed = 28 := rfl
  have hsize : starEntrySize = 256 := rfl
  have hlen : (slice file e starEntrySize).length = starEntrySize := slice_length_of_le hfits
  have hold : readSection (slice file e starEntrySize) = last := by
    rw [hlast]
    apply readSection_congr
    intro i hi
    rw [byteAt_drop, byteAt_slice (by omega)]
  obtain ⟨new, hnew, hne⟩ := readSection_set_crc (slice file e starEntrySize)
    (byteAt (slice file e starEntrySize) 27 + 1) (by omega) (by simp)
  rw [hold] at hnew
  have hmax : maxEagerEnd (init ++ [{ last with crc32 := new }]) = maxEagerEnd b.sections := by
    rw [hsec, maxEagerEnd_append, maxEagerEnd_append]
    rfl
  rw [← hnew] at hmax
  have hsame := overwrite_sameFirst hdet hload htrust hsec (by rw [length_set, hlen])
    (hnew ▸ hall last hmem) (hnew ▸ hdef last hmem hid) hmax ?_ hid
  · have hnone : init.find? (fun s => decide (s.id = last.id)) = none :=
      find?_eq_none.mpr (fun s hs => by simpa using hfresh s hs)
    rw [hnew, hsec, findSection, findSection, find?_append, find?_append, hnone] at hsame
    have hcrc : last.crc32 = new := by simpa using congrArg (Option.map (·.crc32)) hsame
    exact hne (by rw [hold, hcrc])
  · rw [he]
    intro i hi hsig
    rw [length_set, hlen] at hi
    rw [byteAt_set_ne (by omega), byteAt_slice hi]

end

end

def emptyMetadata : StarSection := ⟨secMetadata, 0, 0, 0, 0, 0⟩

/-- A file with an empty table, cut behind its header and given one entry. -/
def addEntry (file : Octets) (starStart : Nat) : Octets :=
  (file.set (starStart + 6) 1).take (starStart + starHeaderSize) ++ emptyMetadata.toBytes

section
variable {file : Octets} {starStart : Nat}

section
variable (h : starStart + starHeaderSize ≤ file.length)
include h

private theorem addEntry_head_length :
    ((file.set (starStart + 6) 1).take (starStart + starHeaderSize)).length =
    starStart + starHeaderSize :=
  length_take_of_le (by rwa [length_set])

lemma addEntry_length :
    (addEntry file starStart).length = starStart + starHeaderSize + starEntrySize := by
  rw [addEntry, length_append, toBytes_length, addEntry_head_length h]

lemma byteAt_addEntry {i : Nat} (hi : i < starStart + starHeaderSize) :
    byteAt (addEntry file starStart) i = byteAt (file.set (starStart + 6) 1) i := by
  rw [addEntry, byteAt_append_left (by rwa [addEntry_head_length h]), byteAt_take hi]

lemma tableEntries_addEntry :
    tableEntries (addEntry file starStart) starStart 1 = [emptyMetadata] := by
  have hdrop : (addEntry file starStart).drop (starStart + starHeaderSize) =
      emptyMetadata.toBytes := drop_left' (addEntry_head_length h)
  rw [tableEntries_succ, zero_mul, add_zero, hdrop]
  rfl

end

lemma addEntry_loads (hstart : starStartOf file = some starStart)
    (hcount : starSectionCount file starStart = some 0) :
    starLoadBounded (addEntry file starStart) =
    some ⟨starStart, [emptyMetadata], (addEntry file starStart).take (starStart + sigLen)⟩ := by
  rw [starStartOf_eq_some_iff] at hstart
  rw [starSectionCount_eq_some_iff] at hcount
  obtain ⟨hmagic, hversion, -, -, hroom⟩ := hcount
  have hlen := addEntry_length hroom
  have hhead : starHeaderSize = 12 := rfl
  have hentry : starEntrySize = 256 := rfl
  have hsame (i : Nat) (hi : i < starStart + starHeaderSize) (hne : i ≠ starStart + 6) :
      byteAt (addEntry file starStart) i = byteAt file i := by
    rw [byteAt_addEntry hroom hi, byteAt_set_ne (Ne.symm hne)]
  have hpre : slice (addEntry file starStart) 0 4 = slice file 0 4 :=
    slice_congr (by omega) (by omega) (fun i _ hi => hsame i (by omega) (by omega))
  have hpre' : slice (addEntry file starStart) starStart 4 = slice file starStart 4 :=
    slice_congr (by omega) (by omega) (fun i _ hi => hsame i (by omega) (by omega))
  have hstart' : starStartOf (addEntry file starStart) = some starStart := by
    rw [starStartOf_eq_some_iff, hpre]
    refine ⟨by omega, hstart.2.imp_right ?_⟩
    rintro ⟨hne, hshim, hle, -⟩
    exact ⟨hne, hshim, hle, by omega⟩
  have hcount' : starSectionCount (addEntry file starStart) starStart = some 1 := by
    rw [starSectionCount_eq_some_iff, hpre', hsame _ (by omega) (by omega),
      byteAt_addEntry hroom (by omega), byteAt_set_self (by omega)]
    exact ⟨hmagic, hversion, rfl, by decide, by omega⟩
  have hlimit : readLimit (addEntry file starStart).length starStart
      (maxEagerEnd [emptyMetadata]) = starStart + sigLen := by
    change min _ (addU64 (addU64 starStart 0) sigLen) = _
    simp only [addU64, sigLen, maxShimSize] at *
    omega
  refine (loaded_iff _ _).mpr
    ⟨1, hstart', hcount', (tableEntries_addEntry hroom).symm, ?_, by simp only [hlimit]⟩
  intro s hs
  rw [mem_singleton.mp hs]
  simp [StarSection.Admissible, required, emptyMetadata]

end

lemma sections_ne_nil (hdet : ContentDetermined file) (hload : starLoadBounded file = some b)
    (htrust : TrustedLoad acceptAll b) :
    b.sections ≠ [] := by
  intro hnil
  obtain ⟨count, hstart, hcount, htbl, -, hdata⟩ := (loaded_iff file b).mp hload
  obtain ⟨hflag, -, hroom, -⟩ := (trustedLoad_acceptAll_iff b).mp htrust
  obtain rfl : count = 0 := by
    rw [← tableEntries_length file b.starStart count, ← htbl, hnil]
    rfl
  obtain ⟨-, -, -, -, hfits⟩ := (starSectionCount_eq_some_iff _ _ _).mp hcount
  have hhead : starHeaderSize = 12 := rfl
  have hload' := addEntry_loads hstart hcount
  have hlt : b.starStart < 2 ^ 64 := by
    have hle := starStartOf_le hstart
    simp only [maxShimSize] at hle
    omega
  have hsig : sigStart b.starStart b.sections = b.starStart := by
    rw [hnil]
    exact addU64_of_lt hlt
  have hsig' : sigStart b.starStart [emptyMetadata] = b.starStart := addU64_of_lt hlt
  have hsame (i : Nat) (hi : i < b.starStart + starHeaderSize) (hne : i ≠ b.starStart + 6) :
      byteAt ((addEntry file b.starStart).take (b.starStart + sigLen)) i = byteAt file i := by
    rw [byteAt_take (by simp only [sigLen]; omega), byteAt_addEntry hfits hi,
      byteAt_set_ne (Ne.symm hne)]
  have hlen : ((addEntry file b.starStart).take (b.starStart + sigLen)).length =
      b.starStart + sigLen :=
    length_take_of_le (by
      rw [addEntry_length hfits]
      simp only [sigLen, starEntrySize]
      omega)
  have hflag' : byteAt ((addEntry file b.starStart).take (b.starStart + sigLen))
      (b.starStart + 7) = byteAt b.fileData (b.starStart + 7) := by
    have hslot : sigLen = 64 := rfl
    rw [hsame _ (by omega) (by omega), loaded_byteAt hload (by omega)]
  have htrust' : TrustedLoad acceptAll ⟨b.starStart, [emptyMetadata],
      (addEntry file b.starStart).take (b.starStart + sigLen)⟩ := by
    refine (trustedLoad_acceptAll_iff _).mpr ⟨?_, ?_, ?_, ?_⟩
    · simp only [hflag']
      exact hflag
    · intro s hs _
      rw [mem_singleton.mp hs]
      simp [deferred, emptyMetadata]
    · simp [hsig', hlen]
    · simp only [hsig', hlen]
      exact mod_le _ _
  have hfind := (hdet acceptAll _ b _ hload hload' htrust htrust' ?_ secMetadata (by decide)).1
  · rw [hnil] at hfind
    cases hfind
  · refine ext_byteAt ?_ fun i hi => ?_
    · simp only [signedPayload, length_take, hlen]
      omega
    · rw [signedPayload_length hroom, hsig] at hi
      rw [signedPayload_byteAt hload hroom (by omega)]
      simp only [signedPayload, hsig']
      rw [byteAt_take hi, hsame i (by omega) (by omega)]

/-- The content of a trusted file is determined by its signed bytes exactly when
these reach far enough into the section table. -/
theorem content_determined_iff (file : Octets) : ContentDetermined file ↔
      ∀ b, starLoadBounded file = some b → TrustedLoad acceptAll b → TableSigned b := by
  constructor
  · intro hdet b hload htrust
    have hne := sections_ne_nil hdet hload htrust
    have hsec := (dropLast_append_getLast hne).symm
    refine ⟨_, _, hsec, lastId_signed hdet hload htrust hsec, ?_⟩
    by_cases hid : (b.sections.getLast hne).id = secAssets
    · exact .inl hid
    · by_cases hearlier : ∃ s ∈ b.sections.dropLast, s.id = (b.sections.getLast hne).id
      · exact .inr (.inl hearlier)
      · push Not at hearlier
        exact .inr (.inr (lastEntry_signed hdet hload htrust hsec hid hearlier))
  · intro hsigned verify other b b' hload hload' htrust htrust' hpay
    have haccept : TrustedLoad acceptAll b := by
      obtain ⟨hflag, hdef, hroom, hle, -⟩ := (trustedLoad_iff verify b).mp htrust
      exact (trustedLoad_acceptAll_iff b).mpr ⟨hflag, hdef, hroom, hle⟩
    exact sameContent_of_tableSigned hload hload' htrust htrust' hpay (hsigned b hload haccept)

/-- A signed container with two empty entries: an empty message, and the signature over the header
and the first entry. -/
def unsignedTable (id : UInt8) : Octets :=
  starMagic ++ [formatVersion, 0, 2, starFlagSigned, 0, 0, 0, 0] ++
    (emptyMetadata.toBytes ++ (mk id 0 0 0 0 0).toBytes)

def verifyEmpty (message signature : Octets) : Bool :=
  message = [] ∧ signature = (unsignedTable secBackend).take sigLen

theorem unsignedTable_not_determined : ¬ ContentDetermined (unsignedTable secBackend) := by
  intro hdet
  obtain ⟨hfind, -⟩ := hdet verifyEmpty (unsignedTable secFrontend)
    ⟨0, [emptyMetadata, ⟨secBackend, 0, 0, 0, 0, 0⟩], (unsignedTable secBackend).take sigLen⟩
    ⟨0, [emptyMetadata, ⟨secFrontend, 0, 0, 0, 0, 0⟩], (unsignedTable secFrontend).take sigLen⟩
    (by decide +kernel) (by decide +kernel) (by unfold TrustedLoad; decide +kernel)
    (by unfold TrustedLoad; decide +kernel) (by decide +kernel) secFrontend (by decide)
  revert hfind
  decide

end Millennium.Star
