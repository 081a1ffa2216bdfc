import Millennium.Lib.Traced
import Millennium.Star.Decompress

/-!
# The accesses of `star_decompress`

The decoder with every octet that it reads or writes, and without any check that the source does not
make. It gives what the decoder with checked accesses gives.
-/

namespace Millennium.Star

open Bytes Lz4 Outcome Traced List

inductive Event where
  | load (i : Nat)
  | store (i : Nat)
  /-- The octet of the output at an index is read, when `op` octets have been written. -/
  | loadOut (i : Int) (op : Nat)
  | ranOut
  deriving Repr, DecidableEq

abbrev Run := Traced String Event

def load (src : Octets) (i : Nat) : Run UInt8 := record [.load i] (byteAt src i)

def copyIn (src : Octets) (ip length : Nat) (out : Octets) : Run Octets :=
  record ((List.range length).map (fun i => .load (ip + i)) ++
    (List.range length).map (fun i => .store (out.length + i))) (out ++ slice src ip length)

def copyBack (offset : Nat) : Nat → Octets → Run Octets
  | 0, out => pure out
  | n + 1, out => do
      let b ← record [.loadOut ((out.length : Int) - offset) out.length, .store out.length]
        (byteAt out (out.length - offset))
      copyBack offset n (out ++ [b])

def extendLengthT (src : Octets) (limit : Nat) (message : String) (ip len : Nat) :
    Run (Nat × Nat) :=
  if ip < src.length then do
    let b ← load src ip
    let len := len + b.toNat
    if limit < len then fail message
    else if b ≠ 255 then pure (ip + 1, len)
    else extendLengthT src limit message (ip + 1) len
  else record [.ranOut] (ip, len)
termination_by src.length - ip

def readLengthT (src : Octets) (limit : Nat) (message : String) (nibble base ip : Nat) :
    Run (Nat × Nat) :=
  if nibble = 15 then extendLengthT src limit message ip base else pure (ip, base)

def copyLiteralsT (src : Octets) (origSize : Nat) (token : UInt8) (ip : Nat) (out : Octets) :
    Run (Nat × Octets) := do
  let nibble := (token >>> 4).toNat
  let (ip, litLen) ← readLengthT src (origSize - out.length) "star_decompress: literal overflow"
    nibble nibble ip
  if origSize < out.length + litLen ∨ src.length < ip + litLen then
    fail "star_decompress: literal overflow"
  else
    let out ← copyIn src ip litLen out
    pure (ip + litLen, out)

def applyMatchT (src : Octets) (origSize : Nat) (token : UInt8) (ip : Nat) (out : Octets) :
    Run (Nat × Octets) := do
  if src.length < ip + 2 then fail "star_decompress: truncated match offset"
  else
    let b₀ ← load src ip
    let b₁ ← load src (ip + 1)
    let offset := b₀.toNat ||| b₁.toNat <<< 8
    if offset = 0 then fail "star_decompress: zero match offset"
    else
      let nibble := (token &&& 0xF).toNat
      let (ip, matchLen) ← readLengthT src (origSize - out.length)
        "star_decompress: match overflow" nibble (nibble + 4) (ip + 2)
      if origSize < out.length + matchLen then fail "star_decompress: match overflow"
      else if out.length < offset then fail "star_decompress: invalid match offset"
      else
        let out ← copyBack offset matchLen out
        pure (ip, out)

def decodeSequenceT (src : Octets) (origSize ip : Nat) (out : Octets) : Run Turn := do
  let token ← load src ip
  let (ip, out) ← copyLiteralsT src origSize token (ip + 1) out
  if src.length ≤ ip then pure (.done out)
  else
    let (ip, out) ← applyMatchT src origSize token ip out
    pure (.next ip out)

def thrown {α : Type} (x : Run α) : Except Fault α := x.result.mapError .runtimeError

section
variable {α β : Type}

@[simp] lemma thrown_pure (a : α) : thrown (pure a) = .ok a := rfl

@[simp] lemma thrown_record (events : List Event) (a : α) :
    thrown (record events a) = .ok a := rfl

@[simp] lemma thrown_fail (msg : String) :
    thrown (fail msg : Run α) = .error (.runtimeError msg) := rfl

@[simp] lemma thrown_bind (x : Run α) (f : α → Run β) :
    thrown (x >>= f) = thrown x >>= fun a => thrown (f a) := by
  rw [thrown, result_bind, thrown]
  cases x.result <;> rfl

lemma thrown_ite {c : Prop} [Decidable c] (x y : Run α) :
    thrown (if c then x else y) = if c then thrown x else thrown y := by
  split_ifs <;> rfl

lemma thrown_eq_ok_iff {x : Run α} {a : α} : thrown x = .ok a ↔ x.result = .ok a :=
  mapError_eq_ok_iff

end

section
variable {src out : Octets} {size ip : Nat} {token : UInt8}

lemma thrown_extendLengthT (src : Octets) (limit : Nat) (msg : String) (ip len : Nat) :
    thrown (extendLengthT src limit msg ip len) = extendLength src limit msg ip len := by
  fun_induction extendLength src limit msg ip len with
  | case1 ip len hlt b l hlim =>
    rw [extendLengthT, if_pos hlt, thrown_bind, load, thrown_record, ok_bind, if_pos hlim,
      thrown_fail]
  | case2 ip len hlt b l hlim hb =>
    rw [extendLengthT, if_pos hlt, thrown_bind, load, thrown_record, ok_bind, if_neg hlim,
      if_pos hb, thrown_pure]
  | case3 ip len hlt b l hlim hb ih =>
    rw [extendLengthT, if_pos hlt, thrown_bind, load, thrown_record, ok_bind, if_neg hlim,
      if_neg hb, ih]
  | case4 ip len hlt => rw [extendLengthT, if_neg hlt, thrown_record]

lemma thrown_readLengthT (src : Octets) (limit : Nat) (msg : String) (nibble base ip : Nat) :
    thrown (readLengthT src limit msg nibble base ip) =
    readLength src limit msg nibble base ip := by
  rw [readLengthT, thrown_ite, thrown_extendLengthT, thrown_pure, readLength]

lemma thrown_copyLiteralsT : thrown (copyLiteralsT src size token ip out) =
    copyLiterals src size token ip out := by
  rw [copyLiteralsT, thrown_bind, thrown_readLengthT]
  congr 1
  funext ⟨ip, litLen⟩
  dsimp only
  split_ifs with hover
  · rfl
  · have hslice : (slice src ip litLen).length = litLen := slice_length_of_le (by omega)
    rw [thrown_bind, copyIn, thrown_record, ok_bind, readRange, if_pos (by omega), ok_bind,
      appendOut, if_pos (by omega), ok_bind, thrown_pure]

lemma thrown_copyBack {offset : Nat} (n : Nat) {out : Octets} (hpos : 0 < offset)
    (hoff : offset ≤ out.length) (hroom : out.length + n ≤ size) :
    thrown (copyBack offset n out) = copyBytes size offset n out := by
  induction n generalizing out with
  | zero => rfl
  | succ n ih =>
    rw [copyBack, copyBytes, if_pos ⟨by omega, hpos, hoff⟩, thrown_bind, thrown_record]
    apply ih
    · rw [length_append]
      omega
    · rw [length_append, length_singleton]
      omega

lemma thrown_applyMatchT :
    thrown (applyMatchT src size token ip out) = applyMatch src size token ip out := by
  rw [applyMatchT, applyMatch]
  split_ifs with hshort
  · rfl
  have h₀ : readByte src ip = .ok (byteAt src ip) := if_pos (by omega)
  have h₁ : readByte src (ip + 1) = .ok (byteAt src (ip + 1)) := if_pos (by omega)
  simp only [thrown_bind, load, thrown_record, ok_bind, h₀, h₁]
  generalize (byteAt src ip).toNat ||| (byteAt src (ip + 1)).toNat <<< 8 = offset
  by_cases hzero : offset = 0
  · rw [if_pos hzero, if_pos hzero, thrown_fail]
  rw [if_neg hzero, if_neg hzero, thrown_bind, thrown_readLengthT]
  congr 1
  funext ⟨ip, matchLen⟩
  split_ifs with hover hback
  · rfl
  · rfl
  · rw [thrown_bind, thrown_copyBack matchLen (by omega) (by omega) (Nat.not_lt.mp hover)]
    rfl

lemma thrown_decodeSequenceT (hlt : ip < src.length) :
    thrown (decodeSequenceT src size ip out) = decodeSequence src size ip out := by
  rw [decodeSequenceT, decodeSequence, thrown_bind, load, thrown_record, readByte, if_pos hlt,
    ok_bind, thrown_bind, thrown_copyLiteralsT]
  congr 1
  funext copied
  rw [thrown_ite, thrown_bind, thrown_applyMatchT]
  rfl

end

lemma decodeSequenceT_advances {src out out' : Octets} {size ip ip' : Nat}
    (hlt : ip < src.length)
    (h : (decodeSequenceT src size ip out).result = .ok (.next ip' out')) : ip < ip' := by
  apply decodeSequence_advances
  rw [← thrown_decodeSequenceT hlt]
  exact thrown_eq_ok_iff.mpr h

def decodeFromT (src : Octets) (origSize ip : Nat) (out : Octets) : Run Octets :=
  if _hlt : ip < src.length then
    match _h : (decodeSequenceT src origSize ip out).result with
    | .error e => ⟨(decodeSequenceT src origSize ip out).events, .error e⟩
    | .ok (.done out') => record (decodeSequenceT src origSize ip out).events out'
    | .ok (.next ip' out') => do
        record (decodeSequenceT src origSize ip out).events ()
        decodeFromT src origSize ip' out'
  else pure out
termination_by src.length - ip
decreasing_by
  have := decodeSequenceT_advances _hlt _h
  omega

def starDecompressT (src : Octets) : Run Octets :=
  if src.length < 4 then fail "star_decompress: input too short"
  else do
    let origSize ← record [.load 0, .load 1, .load 2, .load 3] (readU32Le src).toNat
    if starDecompressMax < origSize then
      fail "star_decompress: decompressed size exceeds 64 MB limit"
    else decodeFromT src origSize 4 []

section
variable {src out : Octets} {size ip : Nat}

lemma decodeFrom_error {e : Fault} (hlt : ip < src.length)
    (h : decodeSequence src size ip out = .error e) :
    decodeFrom src size ip out = .error e := by
  rw [decodeFrom, if_pos hlt]
  split <;> simp_all

lemma decodeFromT_error {e : String} (hlt : ip < src.length)
    (h : (decodeSequenceT src size ip out).result = .error e) :
    decodeFromT src size ip out =
    ⟨(decodeSequenceT src size ip out).events, .error e⟩ := by
  rw [decodeFromT, dif_pos hlt]
  split <;> simp_all

lemma decodeFromT_done {out' : Octets} (hlt : ip < src.length)
    (h : (decodeSequenceT src size ip out).result = .ok (.done out')) :
    decodeFromT src size ip out =
    record (decodeSequenceT src size ip out).events out' := by
  rw [decodeFromT, dif_pos hlt]
  split <;> simp_all

lemma decodeFromT_next {ip' : Nat} {out' : Octets} (hlt : ip < src.length)
    (h : (decodeSequenceT src size ip out).result = .ok (.next ip' out')) :
    decodeFromT src size ip out =
    (record (decodeSequenceT src size ip out).events () >>= fun _ =>
        decodeFromT src size ip' out') := by
  rw [decodeFromT, dif_pos hlt]
  split
  · simp_all
  · simp_all
  · rename_i heq
    rw [h] at heq
    obtain ⟨rfl, rfl⟩ := Turn.next.inj (Except.ok.inj heq)
    rfl

lemma thrown_decodeFromT (src : Octets) (size ip : Nat) (out : Octets) :
    thrown (decodeFromT src size ip out) = decodeFrom src size ip out := by
  induction hn : src.length - ip using Nat.strong_induction_on generalizing ip out with
  | _ n ih =>
    by_cases hlt : ip < src.length
    · have hturn := @thrown_decodeSequenceT src out size ip hlt
      rw [thrown] at hturn
      cases h : (decodeSequenceT src size ip out).result with
      | error =>
        rw [h] at hturn
        rw [decodeFromT_error hlt h, decodeFrom_error hlt hturn.symm]
        rfl
      | ok turn =>
        rw [h] at hturn
        cases turn with
        | done => rw [decodeFromT_done hlt h, decodeFrom_done hlt hturn.symm, thrown_record]
        | next =>
          have hadvance := decodeSequenceT_advances hlt h
          rw [decodeFromT_next hlt h, decodeFrom_next hlt hturn.symm, thrown_bind, thrown_record,
            ok_bind, ih _ (by omega) _ _ rfl]
    · rw [decodeFromT, dif_neg hlt, decodeFrom, if_neg hlt, thrown_pure]

lemma thrown_starDecompressT (src : Octets) :
    thrown (starDecompressT src) = starDecompress src := by
  rw [starDecompressT, thrown_ite]
  rw [thrown_bind, thrown_record, ok_bind, thrown_ite, thrown_decodeFromT]
  rfl

end

/-- An access of a decoder for an input and an output of these lengths. -/
def Event.InBounds (srcLen origSize : Nat) : Event → Prop
  | .load i => i < srcLen
  | .store i => i < origSize ∧ origSize ≤ starDecompressMax
  | .loadOut i op => 0 ≤ i ∧ i < op
  | .ranOut => True

section
variable {src out : Octets} {size ip : Nat} {token : UInt8}

lemma load_inBounds (hlt : ip < src.length) :
    (load src ip).Only (Event.InBounds src.length size) := by
  intro e he
  obtain rfl := mem_singleton.mp he
  exact hlt

lemma extendLengthT_inBounds (limit : Nat) (msg : String) (ip len : Nat) :
    (extendLengthT src limit msg ip len).Only (Event.InBounds src.length size) := by
  fun_induction extendLengthT src limit msg ip len with
  | case1 ip len hlt ih =>
    refine only_bind (load_inBounds hlt) fun b _ => ?_
    refine only_ite (fun _ => only_fail _) fun _ => ?_
    exact only_ite (fun _ => only_pure _) fun _ => ih b
  | case2 =>
    intro e he
    obtain rfl := mem_singleton.mp he
    trivial

lemma readLengthT_inBounds (limit : Nat) (msg : String) (nibble base ip : Nat) :
    (readLengthT src limit msg nibble base ip).Only
      (Event.InBounds src.length size) :=
  only_ite (fun _ => extendLengthT_inBounds limit msg ip base) fun _ => only_pure _

lemma copyIn_inBounds {length : Nat} (hin : ip + length ≤ src.length)
    (hout : out.length + length ≤ size) (hmax : size ≤ starDecompressMax) :
    (copyIn src ip length out).Only (Event.InBounds src.length size) := by
  intro e he
  obtain he | he := mem_append.mp he
  · obtain ⟨i, hi, rfl⟩ := mem_map.mp he
    have := mem_range.mp hi
    show ip + i < src.length
    omega
  · obtain ⟨i, hi, rfl⟩ := mem_map.mp he
    have := mem_range.mp hi
    exact ⟨by omega, hmax⟩

lemma copyLiteralsT_inBounds (hmax : size ≤ starDecompressMax) :
    (copyLiteralsT src size token ip out).Only (Event.InBounds src.length size) := by
  refine only_bind (readLengthT_inBounds _ _ _ _ _) fun ⟨ip, litLen⟩ _ => ?_
  refine only_ite (fun _ => only_fail _) fun hover => ?_
  exact only_bind (copyIn_inBounds (by omega) (by omega) hmax) fun _ _ => only_pure _

/-- The octet that is read has been written, as each is written before the next is read. -/
lemma copyBack_inBounds {offset : Nat} (n : Nat) {out : Octets} (hpos : 0 < offset)
    (hoff : offset ≤ out.length) (hroom : out.length + n ≤ size)
    (hmax : size ≤ starDecompressMax) :
    (copyBack offset n out).Only (Event.InBounds src.length size) := by
  induction n generalizing out with
  | zero => exact only_pure _
  | succ n ih =>
    refine only_bind ?_ fun b _ => ih ?_ ?_
    · intro e he
      obtain rfl | he := mem_cons.mp he
      · exact ⟨by omega, by omega⟩
      · obtain rfl := mem_singleton.mp he
        exact ⟨by omega, hmax⟩
    · rw [length_append]
      omega
    · rw [length_append, length_singleton]
      omega

lemma applyMatchT_inBounds (hmax : size ≤ starDecompressMax) :
    (applyMatchT src size token ip out).Only (Event.InBounds src.length size) := by
  refine only_ite (fun _ => only_fail _) fun hshort => ?_
  refine only_bind (load_inBounds (by omega)) fun b₀ _ => ?_
  refine only_bind (load_inBounds (by omega)) fun b₁ _ => ?_
  refine only_ite (fun _ => only_fail _) fun hzero => ?_
  refine only_bind (readLengthT_inBounds _ _ _ _ _) fun ⟨ip, matchLen⟩ _ => ?_
  refine only_ite (fun _ => only_fail _) fun hover => ?_
  refine only_ite (fun _ => only_fail _) fun hback => ?_
  exact only_bind (copyBack_inBounds _ (by omega) (by omega) (by omega) hmax) fun _ _ => only_pure _

lemma decodeSequenceT_inBounds (hlt : ip < src.length) (hmax : size ≤ starDecompressMax) :
    (decodeSequenceT src size ip out).Only (Event.InBounds src.length size) := by
  refine only_bind (load_inBounds hlt) fun token _ => ?_
  refine only_bind (copyLiteralsT_inBounds hmax) fun ⟨ip, out⟩ _ => ?_
  refine only_ite (fun _ => only_pure _) fun _ => ?_
  exact only_bind (applyMatchT_inBounds hmax) fun _ _ => only_pure _

lemma decodeFromT_inBounds (hmax : size ≤ starDecompressMax) :
    (decodeFromT src size ip out).Only (Event.InBounds src.length size) := by
  induction hn : src.length - ip using Nat.strong_induction_on generalizing ip out with
  | _ n ih =>
    by_cases hlt : ip < src.length
    · have hturn := @decodeSequenceT_inBounds src out size ip hlt hmax
      cases h : (decodeSequenceT src size ip out).result with
      | error =>
        rw [decodeFromT_error hlt h]
        exact hturn
      | ok turn =>
        cases turn with
        | done =>
          rw [decodeFromT_done hlt h]
          exact hturn
        | next =>
          have hadvance := decodeSequenceT_advances hlt h
          rw [decodeFromT_next hlt h]
          exact only_bind hturn fun _ _ => ih _ (by omega) rfl
    · rw [decodeFromT, dif_neg hlt]
      exact only_pure _

lemma starDecompressT_inBounds (src : Octets) :
    (starDecompressT src).Only (Event.InBounds src.length (readU32Le src).toNat) := by
  refine only_ite (fun _ => only_fail _) fun hshort => ?_
  refine only_bind ?_ fun size horig => ?_
  · intro e he
    simp only [events_record, mem_cons, not_mem_nil, or_false] at he
    obtain rfl | rfl | rfl | rfl := he <;> show _ < src.length <;> omega
  · obtain rfl := Except.ok.inj horig
    exact only_ite (fun _ => only_fail _) fun hmax => decodeFromT_inBounds (Nat.not_lt.mp hmax)

end

/-- `star_decompress` throws or returns, and all its accesses are in bounds. -/
theorem starDecompress_accesses (src : Octets) :
    ((∃ message, starDecompress src = .error (.runtimeError message)) ∨
        ∃ out, starDecompress src = .ok out) ∧
      starDecompress src = (starDecompressT src).result.mapError .runtimeError ∧
      ∀ e ∈ (starDecompressT src).events, e.InBounds src.length (readU32Le src).toNat := by
  have hresult := thrown_starDecompressT src
  refine ⟨?_, hresult.symm, starDecompressT_inBounds src⟩
  rw [← hresult, thrown]
  cases (starDecompressT src).result with
  | error message => exact .inl ⟨message, rfl⟩
  | ok out => exact .inr ⟨out, rfl⟩

end Millennium.Star
