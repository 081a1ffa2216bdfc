import Millennium.Lib.Bytes

/-!
# Reading a file as a stream

A stream has a position in the file. A read of more octets than are left fails, and then every
further operation does. To seek past the end is no failure; the next read is.
-/

namespace Millennium.FileStream

open Bytes

structure Stream where
  pos : ℕ
  failed : Bool
  deriving Repr, DecidableEq

namespace Stream

def read (file : Octets) (n : ℕ) (f : Stream) : Option Octets × Stream :=
  if f.failed then (none, f)
  else if n ≤ file.length - f.pos then (some (slice file f.pos n), ⟨f.pos + n, false⟩)
  else (none, ⟨max f.pos file.length, true⟩)

def seekOn (n : ℕ) (f : Stream) : Stream := if f.failed then f else ⟨f.pos + n, false⟩

/-- The position as an unsigned number; it is −1 after a failure. -/
def tell (f : Stream) : ℕ := if f.failed then 2 ^ 64 - 1 else f.pos

variable {file : Octets} {n pos : ℕ}

lemma read_of_le (h : n ≤ file.length - pos) :
    read file n ⟨pos, false⟩ = (some (slice file pos n), ⟨pos + n, false⟩) := by
  rw [read, if_neg Bool.false_ne_true, if_pos h]

lemma read_of_lt (h : file.length - pos < n) :
    read file n ⟨pos, false⟩ = (none, ⟨max pos file.length, true⟩) := by
  rw [read, if_neg Bool.false_ne_true, if_neg (not_le.mpr h)]

lemma read_of_failed {f : Stream} (h : f.failed = true) : read file n f = (none, f) := by
  rw [read, if_pos h]

end Stream

end Millennium.FileStream
