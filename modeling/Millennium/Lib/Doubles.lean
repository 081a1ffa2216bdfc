import Mathlib.Data.Rat.Floor

/-!
# Arithmetic with doubles

A number is a rational, and every operation ends with a rounding, of which it is known only that it
leaves alone what a double holds. What is computed alike for every such rounding was not rounded.
-/

namespace Millennium.Doubles

/-- The finite numbers of a double: 53 bits with an exponent. -/
def Representable (x : ℚ) : Prop :=
  ∃ m e : ℤ, |m| < 2 ^ 53 ∧ -1074 ≤ e ∧ e ≤ 971 ∧ x = m * 2 ^ e

/-- A way to round the exact result of an operation. -/
structure Rounding where
  round : ℚ → ℚ
  round_of_representable : ∀ x, Representable x → round x = x

def Rounding.none : Rounding where
  round x := x
  round_of_representable _ _ := rfl

lemma representable_intCast {z : ℤ} (h : |z| < 2 ^ 53) : Representable z :=
  ⟨z, 0, h, by norm_num, by norm_num, by simp⟩

lemma representable_natCast {n : ℕ} (h : n < 2 ^ 53) : Representable n := by
  have hz : |(n : ℤ)| < 2 ^ 53 := by
    exact_mod_cast h
  exact_mod_cast representable_intCast hz

lemma representable_div {n k : ℕ} (h : n < 2 ^ 53) (hk : k ≤ 1074) :
    Representable ((n : ℚ) / (2 ^ k : ℕ)) := by
  refine ⟨n, -k, ?_, by omega, by omega, ?_⟩
  · exact_mod_cast h
  · rw [zpow_neg]
    push_cast
    rfl

namespace Rounding
variable (r : Rounding)

def add (a b : ℚ) : ℚ := r.round (a + b)
def sub (a b : ℚ) : ℚ := r.round (a - b)
def mul (a b : ℚ) : ℚ := r.round (a * b)
def div (a b : ℚ) : ℚ := r.round (a / b)

def floor (x : ℚ) : ℚ := ⌊x⌋

/-- `a % b`, which is computed as `a - floor(a / b) * b`. -/
def mod (a b : ℚ) : ℚ := r.sub a (r.mul (floor (r.div a b)) b)

section
variable {a b : ℕ}

lemma add_int {x y : ℤ} (h : |x + y| < 2 ^ 53) : r.add x y = ((x + y : ℤ) : ℚ) := by
  rw [add, ← Int.cast_add]
  exact r.round_of_representable _ (representable_intCast h)

lemma add_nat (h : a + b < 2 ^ 53) : r.add a b = ((a + b : ℕ) : ℚ) := by
  rw [add, ← Nat.cast_add]
  exact r.round_of_representable _ (representable_natCast h)

lemma sub_nat (hle : b ≤ a) (h : a < 2 ^ 53) : r.sub a b = ((a - b : ℕ) : ℚ) := by
  rw [sub, ← Nat.cast_sub hle]
  exact r.round_of_representable _ (representable_natCast (by omega))

lemma mul_nat (h : a * b < 2 ^ 53) : r.mul a b = ((a * b : ℕ) : ℚ) := by
  rw [mul, ← Nat.cast_mul]
  exact r.round_of_representable _ (representable_natCast h)

lemma floor_div_nat {k : ℕ} (h : a < 2 ^ 53) (hk : k ≤ 1074) :
    floor (r.div a (2 ^ k : ℕ)) = ((a / 2 ^ k : ℕ) : ℚ) := by
  rw [div, r.round_of_representable _ (representable_div h hk), floor]
  exact_mod_cast rfl

lemma mod_nat {k : ℕ} (h : a < 2 ^ 53) (hk : k ≤ 1074) :
    r.mod a (2 ^ k : ℕ) = ((a % 2 ^ k : ℕ) : ℚ) := by
  have hle : a / 2 ^ k * 2 ^ k ≤ a := Nat.div_mul_le_self a (2 ^ k)
  have hrest : a - a / 2 ^ k * 2 ^ k = a % 2 ^ k := by
    have hsplit := Nat.div_add_mod a (2 ^ k)
    rw [Nat.mul_comm] at hsplit
    omega
  rw [mod, floor_div_nat r h hk, mul_nat r (by omega), sub_nat r hle h, hrest]

end

end Rounding

end Millennium.Doubles
