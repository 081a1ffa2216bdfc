import Mathlib.Data.List.Forall2
import Millennium.Lib.MsgPack

/-!
# Frames of the MEP socket

`write_frame` sends the length in four octets and the payload, without a lock, and the client reads
them under a timeout that can expire at every octet.
-/

namespace Millennium.Mep

open Bytes List Prod

/-- The octets of `write_frame`, for a payload whose length has 32 bits. -/
def frame (payload : Octets) : Octets := leBytes 4 payload.length ++ payload

def WholeFrames (stream : Octets) : Prop :=
  ∃ payloads : List Octets, (∀ p ∈ payloads, p.length < 2 ^ 32) ∧ stream = payloads.flatMap frame

/-- The stream of a client is whole frames, whatever the order of the threads' octets. -/
def KeepsFrames (threads : Nat) : Prop :=
  ∀ (writes : Nat → List Octets) (sent : List (Nat × UInt8)),
    (∀ i, ∀ p ∈ writes i, p.length < 2 ^ 32) → (∀ e ∈ sent, e.1 < threads) →
      (∀ i < threads, (sent.filter (·.1 == i)).map snd = (writes i).flatMap frame) →
        WholeFrames (sent.map snd)

lemma frame_append_inj {p rest header more : Octets} (hp : p.length < 2 ^ 32)
    (hlen : header.length = 4) (h : header ++ more = frame p ++ rest) :
    p.length = leValue header ∧ more = p ++ rest := by
  rw [frame, append_assoc] at h
  obtain ⟨rfl, rfl⟩ := append_inj h (by rw [leBytes_length, hlen])
  exact ⟨(leValue_leBytes hp).symm, rfl⟩

lemma two_headers_not_whole : ¬ WholeFrames [1, 0, 0, 0, 1, 0, 0, 0, 1, 1] := by
  rintro ⟨payloads, hsmall, h⟩
  cases payloads with
  | nil => cases h
  | cons p rest =>
    obtain ⟨hp, hmore⟩ := @frame_append_inj p _ [1, 0, 0, 0] _ (hsmall p mem_cons_self) rfl h
    obtain ⟨rfl, hrest⟩ := @append_inj _ [1] p _ _ hmore hp.symm
    cases rest with
    | nil => cases hrest
    | cons q rest =>
      obtain ⟨hq, hmore⟩ := @frame_append_inj q _ [0, 0, 0, 1] _ (hsmall q (by simp)) rfl hrest
      have hlen := congrArg length hmore
      rw [length_append, hq] at hlen
      simp [leValue] at hlen
      omega

/-- Both threads have sent the header before one sends its payload. -/
lemma not_keepsFrames {threads : Nat} (h : 2 ≤ threads) : ¬ KeepsFrames threads := by
  intro hkeeps
  refine two_headers_not_whole (hkeeps (fun i => if i < 2 then [[1]] else [])
    [(0, 1), (0, 0), (0, 0), (0, 0), (1, 1), (1, 0), (1, 0), (1, 0), (0, 1), (1, 1)] ?_ ?_ ?_)
  · intro i p hp
    split_ifs at hp <;> simp_all
  · simp
    omega
  · intro i _
    rcases i with _ | _ | i
    · rfl
    · rfl
    · simp

/-- What comes from the socket: octets, and timeouts that expire. -/
abbrev Arrivals := List (Option UInt8)

inductive ReadError where
  | timedOut
  | failed

/-- `read_exact`. The octets that it has taken are lost when it fails. -/
def readExact : Nat → Arrivals → Except ReadError Octets × Arrivals
  | 0, rest => (.ok [], rest)
  | _ + 1, [] => (.error .failed, [])
  | _ + 1, none :: rest => (.error .timedOut, rest)
  | n + 1, some c :: rest => ((readExact n rest).1.map (c :: ·), (readExact n rest).2)

def maxFrame : Nat := 64 * 1024 * 1024

/-- `read_frame`: a frame, nothing yet, or an error. -/
def readFrame (arrivals : Arrivals) : Except ReadError (Option Octets) × Arrivals :=
  match readExact 4 arrivals with
  | (.error .timedOut, rest) => (.ok none, rest)
  | (.error .failed, rest) => (.error .failed, rest)
  | (.ok header, rest) =>
    if leValue header ≤ maxFrame then
      ((readExact (leValue header) rest).1.map some, (readExact (leValue header) rest).2)
    else (.error .failed, rest)

/-- The frames that successive calls return before an error. -/
def readFrames : Nat → Arrivals → List Octets
  | 0, _ => []
  | calls + 1, arrivals =>
    match readFrame arrivals with
    | (.ok (some body), rest) => body :: readFrames calls rest
    | (.ok none, rest) => readFrames calls rest
    | (.error _, _) => []

/-- The octets of a frame, from an offset on, arrive with timeouts at some offsets. -/
inductive Timed (may : Nat → Prop) : Nat → Octets → Arrivals → Prop where
  | done {k : Nat} : Timed may k [] []
  | octet {k : Nat} {c : UInt8} {octets : Octets} {rest : Arrivals} :
    Timed may (k + 1) octets rest → Timed may k (c :: octets) (some c :: rest)
  | timeout {k : Nat} {c : UInt8} {octets : Octets} {rest : Arrivals} :
    may k → Timed may k (c :: octets) rest → Timed may k (c :: octets) (none :: rest)

/-- Where timeouts come only at some offsets, the first of the frames sent are returned. -/
def Reassembles (may : Nat → Prop) : Prop :=
  ∀ (sent : List Octets) (arrivals : List Arrivals) calls, (∀ p ∈ sent, p.length ≤ maxFrame) →
    Forall₂ (Timed may 0) (sent.map frame) arrivals → readFrames calls arrivals.flatten <+: sent

section
variable {may : Nat → Prop} {k : Nat} {octets header : Octets} {arrivals rest : Arrivals}

lemma readExact_octets (header : Octets) (rest : Arrivals) :
    readExact header.length (header.map some ++ rest) = (.ok header, rest) := by
  induction header with
  | nil => rfl
  | cons c header ih => simp [readExact, ih, Except.map]

lemma Timed.of_append (hmay : ∀ j, k ≤ j → j < k + header.length → ¬ may j)
    (h : Timed may k (header ++ octets) arrivals) :
    ∃ rest, arrivals = header.map some ++ rest ∧ Timed may (k + header.length) octets rest := by
  induction header generalizing k arrivals with
  | nil => exact ⟨arrivals, rfl, h⟩
  | cons c header ih =>
    rw [cons_append] at h
    cases h with
    | octet h =>
      obtain ⟨rest, rfl, hrest⟩ := ih (fun j hj hlt => hmay j (by omega) (by simp; omega)) h
      exact ⟨rest, rfl, by rwa [length_cons, ← Nat.add_assoc, Nat.add_right_comm]⟩
    | timeout hk => exact absurd hk (hmay k (Nat.le_refl k) (by simp))

lemma Timed.readExact (h : Timed may k octets arrivals) (rest : Arrivals) :
    Mep.readExact octets.length (arrivals ++ rest) = (.ok octets, rest) ∨
    ∃ more, Mep.readExact octets.length (arrivals ++ rest) = (.error .timedOut, more) := by
  induction h with
  | done => exact .inl rfl
  | octet _ ih =>
    rcases ih with ih | ⟨more, ih⟩
    · exact .inl (by simp [Mep.readExact, ih, Except.map])
    · exact .inr ⟨more, by simp [Mep.readExact, ih, Except.map]⟩
  | timeout => exact .inr ⟨_, rfl⟩

lemma reassembles_of_not (hmay : ∀ k, may k → k = 0 ∨ 4 ≤ k) : Reassembles may := by
  intro sent arrivals calls hsmall h
  induction calls generalizing sent arrivals with
  | zero => exact nil_prefix
  | succ calls ih =>
    cases sent with
    | nil =>
      cases h
      exact nil_prefix
    | cons p sent =>
      obtain ⟨first, rest, hfirst, hrest, rfl⟩ := forall₂_cons_left_iff.mp h
      have hp := hsmall p mem_cons_self
      rw [frame, leBytes, cons_append] at hfirst
      rw [flatten_cons]
      cases hfirst with
      | timeout _ hfirst => exact ih (p :: sent) (_ :: rest) hsmall (.cons hfirst hrest)
      | octet hfirst =>
        obtain ⟨body, rfl, hbody⟩ := hfirst.of_append fun j hj hlt hm => by
          have := hmay j hm
          rw [leBytes_length] at hlt
          omega
        have hhead := readExact_octets (leBytes 4 p.length) (body ++ rest.flatten)
        have hvalue : leValue (leBytes 4 p.length) = p.length :=
          leValue_leBytes (Nat.lt_of_le_of_lt hp (by decide))
        rw [leBytes_length, leBytes, map_cons, cons_append, ← append_assoc] at hhead
        rw [cons_append, readFrames, readFrame, hhead]
        rw [leBytes] at hvalue
        rcases hbody.readExact rest.flatten with hread | ⟨more, hread⟩
        · simp [hvalue, hp, hread, Except.map,
            ih sent rest (fun q hq => hsmall q (mem_cons_of_mem _ hq)) hrest]
        · simp [hvalue, hp, hread, Except.map]

/-- A timeout inside a header: the next call takes zeros of the payload for the length. -/
lemma not_reassembles (hk : may k) (hcut : 0 < k ∧ k < 4) : ¬ Reassembles may := by
  intro h
  have hsent : ∀ p ∈ [([0, 0, 0, 0] : Octets)], p.length ≤ maxFrame := by decide
  have hlost := fun first htimed => h [[0, 0, 0, 0]] [first] 2 hsent (.cons htimed .nil)
  obtain rfl | rfl | rfl : k = 1 ∨ k = 2 ∨ k = 3 := by omega
  · have := hlost _ (.octet (.timeout hk (.octet (.octet (.octet (.octet (.octet (.octet (.octet
      .done)))))))))
    revert this
    decide
  · have := hlost _ (.octet (.octet (.timeout hk (.octet (.octet (.octet (.octet (.octet (.octet
      .done)))))))))
    revert this
    decide
  · have := hlost _ (.octet (.octet (.octet (.timeout hk (.octet (.octet (.octet (.octet (.octet
      .done)))))))))
    revert this
    decide

end

theorem timeout_inside_header_loses : ¬ Reassembles fun k => k = 2 :=
  not_reassembles rfl (by decide)

/-- The frames are put together again exactly if no timeout comes after one, two or three
octets of a frame. -/
theorem reassembles_iff (may : Nat → Prop) : Reassembles may ↔ ∀ k, may k → k = 0 ∨ 4 ≤ k := by
  refine ⟨fun h k hk => ?_, reassembles_of_not⟩
  by_contra hcut
  exact not_reassembles hk (by omega) h

end Millennium.Mep
