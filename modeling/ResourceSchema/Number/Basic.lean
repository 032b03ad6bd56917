import ResourceSchema.Number.Decimal

/-!
# Numbers of documents

A number is an integer of 64 bits, signed or not, or a finite floating-point number. The two forms
never equal each other. A literal is taken as an integer when it has no fraction and no exponent
and fits; all others become floating-point numbers.
-/

namespace ResourceSchema

inductive Number where
  | integer (value : Int) (fits : -0x8000000000000000 ≤ value ∧ value < 0x10000000000000000)
  | float (value : Binary64)
deriving DecidableEq

namespace Number

/-- Equality within a form; the two floating-point zeros are equal. -/
def same : Number → Number → Bool
  | .integer i _, .integer j _ => i == j
  | .float x, .float y => x.same y
  | _, _ => false

@[simp] theorem same_refl (n : Number) : n.same n = true := by
  cases n <;> simp [same]

theorem same_comm (m n : Number) : m.same n = n.same m := by
  cases m <;> cases n <;> simp [same, Binary64.same_comm, BEq.comm]

theorem same_trans {l m n : Number} (hlm : l.same m = true) (hmn : m.same n = true) :
    l.same n = true := by
  cases l <;> cases m <;> simp only [same, Bool.false_eq_true] at hlm <;> cases n <;>
    simp only [same, Bool.false_eq_true, beq_iff_eq] at *
  · exact hlm.trans hmn
  · exact Binary64.same_trans hlm hmn

/-- The number of an integer that fits 64 bits, signed or not. -/
def ofInt? (i : Int) : Option Number :=
  if h : -0x8000000000000000 ≤ i ∧ i < 0x10000000000000000 then some (.integer i h) else none

def ofUInt64 (n : UInt64) : Number :=
  .integer n.toNat (by have := n.toNat_lt; omega)

def ofInt64 (i : Int64) : Number :=
  .integer i.toInt (by have := i.le_toInt; have := i.toInt_lt; omega)

/-- The nearest floating-point number. An integer of 64 bits always has a finite one. -/
def toBinary64 : Number → Binary64
  | .integer i _ => (Binary64.ofInt? i).getD (.zero false)
  | .float x => x

/-- The integer, when the number has that form. -/
def toInt? : Number → Option Int
  | .integer i _ => some i
  | .float _ => none

/-- A number literal: sign, digits before and after the point, exponent part. -/
structure Literal where
  negative : Bool
  whole : List Nat
  fraction : List Nat
  exponent : Option Int

namespace Literal

/-- Reads the longest literal a text starts with: an optional minus sign, digits without a
leading zero, then optionally a point with digits and an exponent part. -/
def read? (cs : List Char) : Option (Literal × List Char) := do
  let (negative, body) := match cs with
    | '-' :: body => (true, body)
    | body => (false, body)
  let (whole, rest) := match body with
    | '0' :: rest => ([0], rest)
    | body => takeDigits body
  guard !whole.isEmpty
  let (fraction, rest) ← match rest with
    | '.' :: rest =>
      match takeDigits rest with
      | ([], _) => none
      | (ds, rest) => some (ds, rest)
    | rest => some ([], rest)
  let (exponent, rest) ← takeExponent? rest
  some (⟨negative, whole, fraction, exponent⟩, rest)

/-- Appends digits to a significand for as long as it stays below 2^64; also counts the digits
left over. -/
def absorb (significand : Nat) : List Nat → Nat × Nat
  | [] => (significand, 0)
  | d :: ds =>
    if significand * 10 + d < 0x10000000000000000 then absorb (significand * 10 + d) ds
    else (significand, ds.length + 1)

/-- The floating-point number nearest to `10 ^ n`, for `n` up to 308. -/
def powerOfTen (n : Nat) : Binary64 := (Binary64.ofNat? (Nat.pow 10 n)).getD (.zero false)

/-- Scales a non-negative number by a power of ten, rounding once for exponents down to -308 and
twice below; `none` when the result is not finite. -/
def scale? (x : Binary64) (exponent : Int) : Option Binary64 :=
  if x.isZero ∨ exponent < -616 then some (.zero false)
  else if 308 < exponent then none
  else if 0 ≤ exponent then x.mul? (powerOfTen exponent.toNat)
  else if -308 ≤ exponent then x.div? (powerOfTen exponent.natAbs)
  else do (← x.div? (powerOfTen 308)).div? (powerOfTen (exponent + 308).natAbs)

/-- The number a literal stands for. An integer that fits keeps its value; a literal with a
fraction or an exponent, an integer out of range and `-0` are rounded twice: the significand,
kept to 64 bits, to a floating-point number, and that number scaled by its power of ten. `none`
when the result is not finite. -/
def toNumber? (l : Literal) : Option Number := do
  let (significand, dropped) := absorb 0 l.whole
  let value : Int := if l.negative then -(significand : Int) else significand
  let plain := l.fraction.isEmpty && l.exponent.isNone && dropped == 0
  if plain && !(l.negative && significand == 0) then
    if let some n := ofInt? value then return n
  let (significand, ignored) := absorb significand l.fraction
  let exponent := dropped - (l.fraction.length - ignored : Nat) + l.exponent.getD 0
  let magnitude ← scale? (← Binary64.ofNat? significand) exponent
  return .float (if l.negative then magnitude.neg else magnitude)

end Literal

/-- Reads a whole text as one number literal. -/
def ofText? (text : String) : Option Number := do
  let (literal, rest) ← Literal.read? text.toList
  guard rest.isEmpty
  literal.toNumber?

end Number
end ResourceSchema
