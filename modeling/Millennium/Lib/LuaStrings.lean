import Millennium.Lib.Bytes
import Millennium.Lib.Doubles
import Millennium.Lib.Outcome

/-!
# Strings and numbers of Lua

Indices count from one, and from the end if they are negative. `string.byte` gives nothing outside
of the string, and `string.sub` gives what there is. Numbers are doubles.
-/

namespace Millennium.Lua

open Bytes Doubles Outcome Int

inductive LuaFault where
  | raised (message : String)
  | endless
  deriving Repr, DecidableEq

def maxString : ℕ := 0x7FFFFF00

def fromStart (length : ℕ) (i : ℤ) : ℤ := if i < 0 then i + length + 1 else i

def byte (s : Octets) (x : ℚ) : Option ℚ :=
  let i := fromStart s.length ⌊x⌋
  if 1 ≤ i ∧ i ≤ s.length then some ((byteAt s (i - 1).toNat).toNat : ℚ) else none

def sub (s : Octets) (x y : ℚ) : Octets :=
  let start := max (fromStart s.length ⌊x⌋) 1
  let stop := min (fromStart s.length ⌊y⌋) s.length
  slice s (start - 1).toNat (stop - start + 1).toNat

def operand : Option ℚ → Except LuaFault ℚ :=
  orError (.raised "attempt to perform arithmetic on a nil value")

def Raises {α : Type} (x : Except LuaFault α) : Prop := ∃ message, x = .error (.raised message)

lemma Raises.bind {α β : Type} {x : Except LuaFault α} (h : Raises x)
    (f : α → Except LuaFault β) : Raises (x >>= f) := by
  obtain ⟨message, rfl⟩ := h
  exact ⟨message, rfl⟩

lemma raises_operand_none : Raises (operand none) := ⟨_, rfl⟩

lemma raises_operand_bind {β : Type} (o : Option ℚ) {f : ℚ → Except LuaFault β}
    (h : ∀ b, Raises (f b)) : Raises (operand o >>= f) := by
  cases o with
  | none => exact raises_operand_none.bind f
  | some b => exact h b

def char (x : ℚ) : Except LuaFault UInt8 :=
  if 0 ≤ ⌊x⌋ ∧ ⌊x⌋ ≤ 255 then .ok (UInt8.ofNat ⌊x⌋.toNat)
  else .error (.raised "bad argument #1 to 'char' (invalid value)")

/-- A number in a text, for integers of at most 14 digits. -/
def numberText (x : ℚ) : String := toString ⌊x⌋

/-- `bit.bxor`: on the low 32 bits, with a sign. -/
def bxor (a b : ℚ) : ℚ := (BitVec.ofInt 32 ⌊a⌋ ^^^ BitVec.ofInt 32 ⌊b⌋).toInt

section
variable {s : Octets}

lemma fromStart_nat (length n : ℕ) : fromStart length n = n := by
  rw [fromStart, if_neg (by omega)]

lemma byte_succ (s : Octets) (k : ℕ) : byte s ((k + 1 : ℕ) : ℚ) =
      if k < s.length then some ((byteAt s k).toNat : ℚ) else none := by
  have hindex : ((k + 1 : ℕ) : ℤ) - 1 = k := by omega
  rw [byte, floor_natCast]
  simp only [fromStart_nat, hindex, toNat_natCast]
  by_cases hk : k < s.length
  · rw [if_pos hk, if_pos ⟨by omega, by omega⟩]
  · rw [if_neg hk, if_neg (by omega)]

lemma sub_succ (s : Octets) {a b : ℕ} (h : b ≤ s.length) :
    sub s ((a + 1 : ℕ) : ℚ) (b : ℚ) = slice s a (b - a) := by
  have hstart : max ((a + 1 : ℕ) : ℤ) 1 = a + 1 := by omega
  have hstop : min (b : ℤ) s.length = b := by omega
  rw [sub, floor_natCast, floor_natCast]
  simp only [fromStart_nat, hstart, add_sub_cancel_right]
  congr 1
  omega

lemma char_natCast {n : ℕ} (h : n < 256) : char n = .ok (UInt8.ofNat n) := by
  rw [char, floor_natCast, if_pos ⟨by omega, by omega⟩, toNat_natCast]

lemma bxor_natCast {a b : ℕ} (ha : a < 2 ^ 32) (hb : b < 2 ^ 32) :
    bxor a b = ((if a ^^^ b < 2 ^ 31 then ((a ^^^ b : ℕ) : ℤ)
      else ((a ^^^ b : ℕ) : ℤ) - 2 ^ 32 : ℤ) : ℚ) := by
  have hxor : (BitVec.ofInt 32 ⌊(a : ℚ)⌋ ^^^ BitVec.ofInt 32 ⌊(b : ℚ)⌋).toNat = a ^^^ b := by
    rw [floor_natCast, floor_natCast, BitVec.ofInt_natCast, BitVec.ofInt_natCast,
      BitVec.toNat_xor, BitVec.toNat_ofNat, BitVec.toNat_ofNat, Nat.mod_eq_of_lt ha,
      Nat.mod_eq_of_lt hb]
  rw [bxor, BitVec.toInt_eq_toNat_cond]
  congr 1
  split_ifs <;> omega

end

end Millennium.Lua
