import Mathlib.Data.List.Basic

/-!
# Types of calls between Lua and TypeScript

`compatible_with` compares the types that a plugin declares on both sides, unions by their parts.
-/

namespace Millennium.Starlight

inductive FfiType where
  | number
  | string
  | boolean
  | nil
  | unknown
  | void
  | array (element : FfiType)
  | union (parts : List FfiType)
  | object
  | named (name : String)

namespace FfiType

mutual

def beq : FfiType → FfiType → Bool
  | number, number | string, string | boolean, boolean | nil, nil | unknown, unknown
  | void, void | object, object => true
  | array a, array b => a.beq b
  | union a, union b => beqParts a b
  | named a, named b => a = b
  | _, _ => false

def beqParts : List FfiType → List FfiType → Bool
  | [], [] => true
  | a :: as, b :: bs => a.beq b && beqParts as bs
  | _, _ => false

end

mutual

theorem beq_iff : ∀ a b : FfiType, a.beq b = true ↔ a = b
  | array a, b => by cases b <;> simp [beq, beq_iff a]
  | union a, b => by cases b <;> simp [beq, beqParts_iff a]
  | named _, b => by cases b <;> simp [beq]
  | number, b | string, b | boolean, b | nil, b | unknown, b | void, b | object, b => by
    cases b <;> simp [beq]

theorem beqParts_iff : ∀ a b : List FfiType, beqParts a b = true ↔ a = b
  | [], b => by cases b <;> simp [beqParts]
  | a :: as, b => by cases b <;> simp [beqParts, beq_iff a, beqParts_iff as]

end

instance : DecidableEq FfiType := fun a b => decidable_of_iff _ (beq_iff a b)

def compatibleWith (self other : FfiType) : Bool :=
  if self = unknown ∨ other = unknown then true
  else if self = void ∧ other = nil ∨ self = nil ∧ other = void then true
  else if self = other then true
  else match self, other with
    | array a, array b => a.compatibleWith b
    | union parts, other => parts.attach.any fun ⟨t, _⟩ => t.compatibleWith other
    | self, union parts => parts.attach.any fun ⟨t, _⟩ => self.compatibleWith t
    | named a, named b => a = b
    | _, _ => false
termination_by sizeOf self + sizeOf other

/-- Every union has a part. -/
inductive Proper : FfiType → Prop
  | array {element} (h : Proper element) : Proper (array element)
  | union {parts} (hne : parts ≠ []) (h : ∀ t ∈ parts, Proper t) : Proper (union parts)
  | other {t} (harray : ∀ a, t ≠ .array a) (hunion : ∀ parts, t ≠ .union parts) : Proper t

/-- A type that is not a union, among the parts of a type and their parts. -/
inductive Alternative (x : FfiType) : FfiType → Prop
  | self (h : ∀ parts, x ≠ union parts) : Alternative x x
  | part {t parts} (ht : t ∈ parts) (h : Alternative x t) : Alternative x (union parts)

/-- Two types that are not unions are compatible, arrays when their elements are. -/
def Atoms (x y : FfiType) : Prop :=
  x = unknown ∨ y = unknown ∨ x = void ∧ y = nil ∨ x = nil ∧ y = void ∨ x = y ∨
    ∃ a b, x = array a ∧ y = array b ∧ a.compatibleWith b = true

variable {a b x y : FfiType} {parts : List FfiType}

lemma alternative_iff (h : ∀ parts, a ≠ union parts) : Alternative x a ↔ x = a := by
  constructor
  · rintro (- | ⟨ht, -⟩)
    · rfl
    · exact absurd rfl (h _)
  · rintro rfl
    exact .self h

lemma alternative_union : Alternative x (union parts) ↔ ∃ t ∈ parts, Alternative x t := by
  constructor
  · rintro (h | ⟨ht, h⟩)
    · exact absurd rfl (h parts)
    · exact ⟨_, ht, h⟩
  · rintro ⟨t, ht, h⟩
    exact .part ht h

lemma Proper.exists_alternative (h : Proper a) : ∃ x, Alternative x a := by
  induction h with
  | array => exact ⟨_, .self (by simp)⟩
  | other _ hunion => exact ⟨_, .self hunion⟩
  | @union parts hne _ ih =>
    obtain ⟨t, ht⟩ := List.exists_mem_of_ne_nil parts hne
    obtain ⟨x, hx⟩ := ih t ht
    exact ⟨x, .part ht hx⟩

lemma Proper.part (h : Proper (.union parts)) : ∀ t ∈ parts, Proper t := by
  cases h with
  | union _ h => exact h
  | other _ hunion => exact absurd rfl (hunion parts)

lemma Proper.element (h : Proper (.array a)) : Proper a := by
  cases h with
  | array h => exact h
  | other harray _ => exact absurd rfl (harray a)

lemma compatibleWith_iff (ha : Proper a) (hb : Proper b) : a.compatibleWith b = true ↔
    ∃ x y, Alternative x a ∧ Alternative y b ∧ Atoms x y := by
  fun_induction compatibleWith a b with
  | case1 a b h =>
    obtain ⟨x, hx⟩ := ha.exists_alternative
    obtain ⟨y, hy⟩ := hb.exists_alternative
    refine iff_of_true rfl ⟨x, y, hx, hy, ?_⟩
    rcases h with rfl | rfl
    · exact .inl ((alternative_iff (by simp)).mp hx)
    · exact .inr (.inl ((alternative_iff (by simp)).mp hy))
  | case2 a b _ h => rcases h with ⟨rfl, rfl⟩ | ⟨rfl, rfl⟩ <;> simp [alternative_iff, Atoms]
  | case3 a =>
    obtain ⟨x, hx⟩ := ha.exists_alternative
    exact iff_of_true rfl ⟨x, x, hx, hx, by simp [Atoms]⟩
  | case4 a b _ _ hne => simp_all [alternative_iff, Atoms]
  | case5 parts b _ _ _ ih =>
    simp only [List.any_eq_true, List.mem_attach, true_and, Subtype.exists]
    constructor
    · rintro ⟨t, ht, h⟩
      obtain ⟨x, y, hx, hy, hxy⟩ := (ih t ht (ha.part t ht) hb).mp h
      exact ⟨x, y, .part ht hx, hy, hxy⟩
    · rintro ⟨x, y, hx, hy, hxy⟩
      obtain ⟨t, ht, hx⟩ := alternative_union.mp hx
      exact ⟨t, ht, (ih t ht (ha.part t ht) hb).mpr ⟨x, y, hx, hy, hxy⟩⟩
  | case6 a parts _ _ _ _ ih =>
    simp only [List.any_eq_true, List.mem_attach, true_and, Subtype.exists]
    constructor
    · rintro ⟨t, ht, h⟩
      obtain ⟨x, y, hx, hy, hxy⟩ := (ih t ht ha (hb.part t ht)).mp h
      exact ⟨x, y, hx, .part ht hy, hxy⟩
    · rintro ⟨x, y, hx, hy, hxy⟩
      obtain ⟨t, ht, hy⟩ := alternative_union.mp hy
      exact ⟨t, ht, (ih t ht ha (hb.part t ht)).mpr ⟨x, y, hx, hy, hxy⟩⟩
  | case7 => simp_all [alternative_iff, Atoms]
  | case8 a b _ _ _ ha' hb' => simp_all [alternative_iff ha', alternative_iff hb', Atoms]

lemma compatibleWith_comm (ha : Proper a) (hb : Proper b) (h : a.compatibleWith b = true) :
    b.compatibleWith a = true := by
  fun_induction compatibleWith a b with
  | case1 a b hunknown => rw [compatibleWith.eq_def, if_pos hunknown.symm]
  | case2 a b _ hnil =>
    rcases hnil with ⟨rfl, rfl⟩ | ⟨rfl, rfl⟩ <;>
      simp [compatibleWith.eq_def nil, compatibleWith.eq_def void]
  | case3 a => simp [compatibleWith.eq_def a a]
  | case4 a b _ _ hne ih => simp [compatibleWith.eq_def b.array, ih ha.element hb.element h]
  | case5 parts b _ _ _ ih =>
    simp only [List.any_eq_true, List.mem_attach, true_and, Subtype.exists] at h
    obtain ⟨t, ht, h⟩ := h
    obtain ⟨x, y, hx, hy, hxy⟩ :=
      (compatibleWith_iff hb (ha.part t ht)).mp (ih t ht (ha.part t ht) hb h)
    exact (compatibleWith_iff hb ha).mpr ⟨x, y, hx, .part ht hy, hxy⟩
  | case6 a parts _ _ _ _ ih =>
    simp only [List.any_eq_true, List.mem_attach, true_and, Subtype.exists] at h
    obtain ⟨t, ht, h⟩ := h
    obtain ⟨x, y, hx, hy, hxy⟩ :=
      (compatibleWith_iff (hb.part t ht) ha).mp (ih t ht ha (hb.part t ht) h)
    exact (compatibleWith_iff hb ha).mpr ⟨x, y, .part ht hx, hy, hxy⟩
  | case7 => simp_all
  | case8 => cases h

/-- Compatibility is symmetric, and it is that of some alternatives. -/
theorem compatibleWith_unionwise (a b : {t : FfiType // t.Proper}) :
    a.1.compatibleWith b.1 = b.1.compatibleWith a.1 ∧
      (a.1.compatibleWith b.1 = true ↔
        ∃ x y, Alternative x a.1 ∧ Alternative y b.1 ∧ Atoms x y) :=
  ⟨Bool.eq_iff_iff.mpr ⟨compatibleWith_comm a.2 b.2, compatibleWith_comm b.2 a.2⟩,
    compatibleWith_iff a.2 b.2⟩

end FfiType

end Millennium.Starlight
