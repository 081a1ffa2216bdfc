import Millennium.Lib.Base64
import Millennium.Lib.JsonObject

/-!
# The expression that calls the front end

`compile_javascript_expression` writes a text as `atob("…")` with its Base64, which makes one code
unit of each octet, and truth values and numbers as literals. The arguments are read back here as
JavaScript reads them.
-/

namespace Millennium.Engine

open Bytes List Base64 Json

/-- The variables of `Base64Encode`. `val` is an `int`. -/
structure Encoder where
  out : Octets
  val : Int
  valb : Int

def Encoder.drain (s : Encoder) : Encoder :=
  if 0 ≤ s.valb then
    drain { s with
      out := s.out ++ [charOf (s.val / 2 ^ s.valb.toNat % 64).toNat]
      valb := s.valb - 6 }
  else s
termination_by (s.valb + 6).toNat

def Encoder.step (s : Encoder) (c : UInt8) : Encoder :=
  Encoder.drain { s with val := toInt32 (s.val * 256) + c.toNat, valb := s.valb + 8 }

/-- What follows the loop: the bits that are left, and the filling. -/
def Encoder.finish (s : Encoder) : Octets :=
  let out :=
    if -6 < s.valb then
      s.out ++ [charOf (toInt32 (s.val * 256) / 2 ^ (s.valb + 8).toNat % 64).toNat]
    else s.out
  out ++ List.replicate ((4 - out.length % 4) % 4) pad

def base64Encode (input : Octets) : Octets := (input.foldl Encoder.step ⟨[], 0, -6⟩).finish

inductive JavascriptParameter where
  | boolean (b : Bool)
  | unsigned (n : Nat)
  | integer (n : Int)
  | double (bits : UInt64)
  | string (s : Octets)

/-- How `std::format` prints a double, and the number that a literal is in JavaScript. -/
structure NumberText where
  format : UInt64 → Octets
  literal : Octets → Option UInt64

section
variable (numbers : NumberText)

def parameterText : JavascriptParameter → Octets
  | .boolean b => if b then ascii "true" else ascii "false"
  | .unsigned n => ascii (toString n)
  | .integer n => ascii (toString n)
  | .double bits => numbers.format bits
  | .string s => ascii "atob(\"" ++ base64Encode s ++ ascii "\")"

def errorHandler (plugin : Octets) : Octets :=
  ascii "\n        if (typeof window !== 'undefined' && typeof window.MillenniumFrontEndError === 'undefined') \x7b" ++
  ascii "\n            window.MillenniumFrontEndError = class MillenniumFrontEndError extends Error \x7b" ++
  ascii "\n                constructor(message) \x7b" ++
  ascii "\n                    super(message);" ++
  ascii "\n                    this.name = 'MillenniumFrontEndError';" ++
  ascii "\n                \x7d\n            \x7d\n        \x7d" ++
  ascii "\n        if (typeof PLUGIN_LIST === 'undefined' || !PLUGIN_LIST?.['" ++ plugin ++
  ascii "']) \x7b" ++
  ascii "\n            throw new window.MillenniumFrontEndError('frontend not loaded yet!');" ++
  ascii "\n        \x7d\n    "

def callStart (plugin methodName : Octets) : Octets :=
  errorHandler plugin ++ ascii "window.PLUGIN_LIST['" ++ plugin ++ ascii "']." ++ methodName ++
    ascii "("

/-- The loop over the parameters: all but the first are preceded by a comma. -/
def argumentsText : List JavascriptParameter → Octets
  | [] => []
  | p :: rest => parameterText numbers p ++ rest.flatMap fun q => ascii ", " ++ parameterText numbers q

def compileJavascriptExpression (plugin methodName : Octets) (fnParams : List JavascriptParameter) :
    Octets :=
  callStart plugin methodName ++ argumentsText numbers fnParams ++ ascii ");"

end

/-- The parameter for an argument. `is_number_integer` is true for unsigned numbers too. -/
def parameterOf : Json → Option JavascriptParameter
  | .string s => some (.string s)
  | .boolean b => some (.boolean b)
  | .float bits => some (.double bits)
  | .integer n => some (.integer n)
  | .unsigned n => some (.integer (Int.bmod n (2 ^ 64)))
  | _ => none

/-- The values of arguments. A text is its code units. -/
inductive JsValue where
  | boolean (b : Bool)
  | number (bits : UInt64)
  | string (units : List Nat)
  deriving Repr, DecidableEq

def after (token text : Octets) : Option Octets :=
  if token <+: text then some (text.drop token.length) else none

def atob (text : Octets) : Option JsValue :=
  (decode text).map fun octets => .string (octets.map UInt8.toNat)

section
variable (numbers : NumberText)

def readArgument (text : Octets) : Option (JsValue × Octets) :=
  match after (ascii "true") text, after (ascii "false") text, after (ascii "atob(\"") text with
  | some rest, _, _ => some (.boolean true, rest)
  | none, some rest, _ => some (.boolean false, rest)
  | none, none, some rest => do
      let code := rest.takeWhile (· ≠ 0x22)
      let value ← atob code
      let rest ← after (ascii "\")") (rest.drop code.length)
      return (value, rest)
  | none, none, none => do
      let literal := text.takeWhile fun c => c ≠ 0x2C ∧ c ≠ 0x29
      let bits ← numbers.literal literal
      return (.number bits, text.drop literal.length)

/-- Arguments with a comma after each but the last, and the end of the call. -/
def readMore : Nat → Octets → Option (List JsValue)
  | 0, _ => none
  | fuel + 1, text =>
    match readArgument numbers text with
    | none => none
    | some (value, rest) =>
      if rest = ascii ");" then some [value]
      else
        match after (ascii ", ") rest with
        | none => none
        | some rest => (readMore fuel rest).map (value :: ·)

def readArguments (text : Octets) : Option (List JsValue) :=
  if text = ascii ");" then some [] else readMore numbers text.length text

def callArguments (plugin methodName expression : Octets) : Option (List JsValue) :=
  (after (callStart plugin methodName) expression).bind (readArguments numbers)

end

lemma exists_toInt32_eq (n : Int) : ∃ k, toInt32 n = n + 2 ^ 32 * k :=
  ⟨-n.bdiv (2 ^ 32), by rw [toInt32, Int.bmod_eq_self_sub_mul_bdiv]; ring⟩

namespace Encoder
variable (out : Octets) (val : Int) (c : UInt8)

lemma drain_of_nonneg {valb : Int} (h : 0 ≤ valb) : drain ⟨out, val, valb⟩ =
    drain ⟨out ++ [charOf (val / 2 ^ valb.toNat % 64).toNat], val, valb - 6⟩ := by
  rw [drain, if_pos h]

lemma drain_of_neg {valb : Int} (h : valb < 0) : drain ⟨out, val, valb⟩ = ⟨out, val, valb⟩ := by
  rw [drain, if_neg (Int.not_le.mpr h)]

lemma step_first : step ⟨out, val, -6⟩ c =
    ⟨out ++ [charOf (c.toNat / 4)], toInt32 (val * 256) + c.toNat, -4⟩ := by
  obtain ⟨k, hk⟩ := exists_toInt32_eq (val * 256)
  have hc := c.toNat_lt
  have hbits : ((toInt32 (val * 256) + c.toNat) / 2 ^ Int.toNat 2 % 64).toNat = c.toNat / 4 := by
    show ((toInt32 (val * 256) + c.toNat) / 4 % 64).toNat = c.toNat / 4
    omega
  show drain ⟨out, toInt32 (val * 256) + c.toNat, 2⟩ = _
  rw [drain_of_nonneg _ _ (by decide), drain_of_neg _ _ (by decide), hbits]
  rfl

lemma step_second : step ⟨out, val, -4⟩ c = ⟨out ++ [charOf ((val % 4).toNat * 16 + c.toNat / 16)],
    toInt32 (val * 256) + c.toNat, -2⟩ := by
  obtain ⟨k, hk⟩ := exists_toInt32_eq (val * 256)
  have hc := c.toNat_lt
  have hbits : ((toInt32 (val * 256) + c.toNat) / 2 ^ Int.toNat 4 % 64).toNat =
      (val % 4).toNat * 16 + c.toNat / 16 := by
    show ((toInt32 (val * 256) + c.toNat) / 16 % 64).toNat = _
    omega
  show drain ⟨out, toInt32 (val * 256) + c.toNat, 4⟩ = _
  rw [drain_of_nonneg _ _ (by decide), drain_of_neg _ _ (by decide), hbits]
  rfl

lemma step_third : step ⟨out, val, -2⟩ c = ⟨out ++ [charOf ((val % 16).toNat * 4 + c.toNat / 64)] ++
    [charOf (c.toNat % 64)], toInt32 (val * 256) + c.toNat, -6⟩ := by
  obtain ⟨k, hk⟩ := exists_toInt32_eq (val * 256)
  have hc := c.toNat_lt
  have hbits : ((toInt32 (val * 256) + c.toNat) / 2 ^ Int.toNat 6 % 64).toNat =
      (val % 16).toNat * 4 + c.toNat / 64 := by
    show ((toInt32 (val * 256) + c.toNat) / 64 % 64).toNat = _
    omega
  have hlast : ((toInt32 (val * 256) + c.toNat) / 2 ^ Int.toNat (6 - 6) % 64).toNat =
      c.toNat % 64 := by
    show ((toInt32 (val * 256) + c.toNat) / 1 % 64).toNat = _
    omega
  show drain ⟨out, toInt32 (val * 256) + c.toNat, 6⟩ = _
  rw [drain_of_nonneg _ _ (by decide), drain_of_nonneg _ _ (by decide),
    drain_of_neg _ _ (by decide), hbits, hlast]
  rfl

lemma emod_four : (toInt32 (val * 256) + c.toNat) % 4 = (c.toNat % 4 : Nat) := by
  obtain ⟨k, hk⟩ := exists_toInt32_eq (val * 256)
  omega

lemma emod_sixteen : (toInt32 (val * 256) + c.toNat) % 16 = (c.toNat % 16 : Nat) := by
  obtain ⟨k, hk⟩ := exists_toInt32_eq (val * 256)
  omega

lemma finish_none (h : out.length % 4 = 0) : finish ⟨out, val, -6⟩ = out := by
  show out ++ List.replicate ((4 - out.length % 4) % 4) pad = out
  rw [h]
  exact append_nil out

lemma finish_left {valb : Int} {bits : Nat} (h : -6 < valb)
    (hbits : (toInt32 (val * 256) / 2 ^ (valb + 8).toNat % 64).toNat = bits) :
    finish ⟨out, val, valb⟩ = out ++ charOf bits ::
    List.replicate ((4 - (out.length + 1) % 4) % 4) pad := by
  rw [finish]
  simp only [if_pos h, hbits]
  rw [length_append, append_assoc]
  rfl

lemma finish_first (h : out.length % 4 = 1) : finish ⟨out, val, -4⟩ =
    out ++ [charOf ((val % 4).toNat * 16), pad, pad] := by
  obtain ⟨k, hk⟩ := exists_toInt32_eq (val * 256)
  have hbits : (toInt32 (val * 256) / 2 ^ Int.toNat 4 % 64).toNat = (val % 4).toNat * 16 := by
    show (toInt32 (val * 256) / 16 % 64).toNat = _
    omega
  have hmissing : (4 - (out.length + 1) % 4) % 4 = 2 := by omega
  rw [finish_left out val (by decide) hbits, hmissing]
  rfl

lemma finish_second (h : out.length % 4 = 2) :
    finish ⟨out, val, -2⟩ = out ++ [charOf ((val % 16).toNat * 4), pad] := by
  obtain ⟨k, hk⟩ := exists_toInt32_eq (val * 256)
  have hbits : (toInt32 (val * 256) / 2 ^ Int.toNat 6 % 64).toNat = (val % 16).toNat * 4 := by
    show (toInt32 (val * 256) / 64 % 64).toNat = _
    omega
  have hmissing : (4 - (out.length + 1) % 4) % 4 = 1 := by omega
  rw [finish_left out val (by decide) hbits, hmissing]
  rfl

lemma finish_foldl (input : Octets) (h : out.length % 4 = 0) :
    (input.foldl step ⟨out, val, -6⟩).finish = out ++ encode input := by
  fun_induction encode input generalizing out val with
  | case1 => rw [foldl_nil, finish_none out val h, append_nil]
  | case2 =>
    rw [foldl_cons, foldl_nil, step_first, finish_first _ _ (by simp; omega),
      emod_four, append_assoc]
    rfl
  | case3 =>
    rw [foldl_cons, foldl_cons, foldl_nil, step_first, step_second,
      finish_second _ _ (by simp; omega), emod_four, emod_sixteen, append_assoc, append_assoc]
    rfl
  | case4 a b c rest ih =>
    rw [foldl_cons, foldl_cons, foldl_cons, step_first, step_second, step_third,
      ih _ _ (by simp; omega), emod_four, emod_sixteen]
    simp only [append_assoc]
    rfl

end Encoder

lemma base64Encode_eq (input : Octets) : base64Encode input = encode input :=
  Encoder.finish_foldl [] 0 input rfl

lemma after_append (token rest : Octets) : after token (token ++ rest) = some rest := by
  rw [after, if_pos (prefix_append token rest), drop_left]

lemma after_of_head_ne {a b : UInt8} {token rest : Octets} (h : a ≠ b) :
    after (a :: token) (b :: rest) = none :=
  if_neg fun htoken => h (cons_prefix_cons.mp htoken).1

section
variable (numbers : NumberText) {p : JavascriptParameter} {v : JsValue}

/-- The text of a parameter is read as a value, whatever follows it. -/
structure ReadsAs (p : JavascriptParameter) (v : JsValue) : Prop where
  nonempty : parameterText numbers p ≠ []
  read : ∀ rest, readArgument numbers (parameterText numbers p ++ rest) = some (v, rest)

lemma reads_boolean (b : Bool) : ReadsAs numbers (.boolean b) (.boolean b) := by
  cases b with
  | true =>
    refine ⟨cons_ne_nil _ _, fun rest => ?_⟩
    show readArgument numbers (ascii "true" ++ rest) = _
    rw [readArgument, after_append]
  | false =>
    refine ⟨cons_ne_nil _ _, fun rest => ?_⟩
    show readArgument numbers (ascii "false" ++ rest) = _
    have htrue : after (ascii "true") (ascii "false" ++ rest) = none :=
      after_of_head_ne (by decide)
    rw [readArgument, htrue, after_append]

lemma ne_quote_of_mem_base64Encode {s : Octets} {x : UInt8} (h : x ∈ base64Encode s) :
    x ≠ 0x22 := by
  rw [base64Encode_eq] at h
  rintro rfl
  have hnot : ¬ ((0x22 : UInt8) ∈ alphabet ∨ (0x22 : UInt8) = pad) := by
    decide +kernel
  exact hnot (forall_mem_encode s _ h)

lemma reads_string (s : Octets) : ReadsAs numbers (.string s) (.string (s.map UInt8.toNat)) := by
  refine ⟨by exact cons_ne_nil _ _, fun rest => ?_⟩
  rw [parameterText, append_assoc, append_assoc]
  have htrue : after (ascii "true")
      (ascii "atob(\"" ++ (base64Encode s ++ (ascii "\")" ++ rest))) = none :=
    after_of_head_ne (by decide)
  have hfalse : after (ascii "false")
      (ascii "atob(\"" ++ (base64Encode s ++ (ascii "\")" ++ rest))) = none :=
    after_of_head_ne (by decide)
  have hcode : (base64Encode s ++ (ascii "\")" ++ rest)).takeWhile (· ≠ 0x22) = base64Encode s := by
    rw [takeWhile_append_of_pos fun x hx => decide_eq_true (ne_quote_of_mem_base64Encode hx)]
    exact append_nil _
  have hvalue : atob (base64Encode s) = some (.string (s.map UInt8.toNat)) := by
    rw [atob, base64Encode_eq, decode_encode]
    rfl
  rw [readArgument, htrue, hfalse, after_append]
  dsimp only
  rw [hcode, hvalue, drop_left]
  rfl

lemma argumentsText_cons_cons (q : JavascriptParameter) (ps : List JavascriptParameter) :
    argumentsText numbers (p :: q :: ps) =
    parameterText numbers p ++ (ascii ", " ++ argumentsText numbers (q :: ps)) := by
  rw [argumentsText, argumentsText, flatMap_cons, append_assoc]

lemma readMore_eq {ps : List JavascriptParameter} {vs : List JsValue} {fuel : Nat}
    (h : ReadsAs numbers p v) (hrest : List.Forall₂ (ReadsAs numbers) ps vs)
    (hfuel : ps.length ≤ fuel) :
    readMore numbers (fuel + 1) (argumentsText numbers (p :: ps) ++ ascii ");") =
    some (v :: vs) := by
  induction hrest generalizing p v fuel with
  | nil =>
    rw [argumentsText, flatMap_nil, append_nil, readMore, h.read]
    exact if_pos rfl
  | @cons q w ps vs hq hrest ih =>
    obtain ⟨fuel, rfl⟩ : ∃ n, fuel = n + 1 := Nat.exists_eq_succ_of_ne_zero fun h0 => by
      rw [h0] at hfuel
      cases hfuel
    rw [argumentsText_cons_cons, append_assoc, append_assoc, readMore, h.read]
    dsimp only
    -- a comma follows, not the end of the call
    have hcomma : ascii ", " ++ (argumentsText numbers (q :: ps) ++ ascii ");") ≠ ascii ");" :=
      fun heq => absurd (List.cons.inj heq).1 (by decide)
    rw [after_append]
    dsimp only
    rw [ih hq (Nat.le_of_succ_le_succ hfuel)]
    rfl

lemma length_le_argumentsText (h : ReadsAs numbers p v) (ps : List JavascriptParameter) :
    ps.length + 1 ≤ (argumentsText numbers (p :: ps)).length := by
  have hpos : 1 ≤ (parameterText numbers p).length := length_pos_iff.mpr h.nonempty
  have hrest : ps.length ≤
      (ps.flatMap fun q => ascii ", " ++ parameterText numbers q).length := by
    induction ps with
    | nil => exact Nat.le_refl _
    | cons =>
      have hcomma : (ascii ", ").length = 2 := rfl
      rw [flatMap_cons, length_append, length_append, length_cons]
      omega
  rw [argumentsText, length_append]
  omega

lemma callArguments_compile {ps : List JavascriptParameter} {vs : List JsValue}
    (h : List.Forall₂ (ReadsAs numbers) ps vs) (plugin methodName : Octets) :
    callArguments numbers plugin methodName
      (compileJavascriptExpression numbers plugin methodName ps) = some vs := by
  rw [callArguments, compileJavascriptExpression, append_assoc, after_append, Option.bind_some]
  cases h with
  | nil => exact if_pos rfl
  | @cons p v ps vs hp hrest =>
    have hlen := length_le_argumentsText numbers hp ps
    have hne : argumentsText numbers (p :: ps) ++ ascii ");" ≠ ascii ");" := by
      intro heq
      have := congrArg List.length heq
      rw [length_append] at this
      omega
    obtain ⟨fuel, hfuel⟩ : ∃ fuel,
        (argumentsText numbers (p :: ps) ++ ascii ");").length = fuel + 1 :=
      Nat.exists_eq_succ_of_ne_zero (by rw [length_append]; omega)
    rw [readArguments, if_neg hne, hfuel]
    rw [length_append] at hfuel
    exact readMore_eq numbers hp hrest (by omega)

end

end Millennium.Engine
