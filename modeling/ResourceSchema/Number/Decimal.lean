import ResourceSchema.Number.Binary64

/-!
# Decimal numbers

Exact decimals `± significand × 10 ^ exponent`, the runs of digits they are written with, and the
floating-point number nearest to one.
-/

namespace ResourceSchema

/-- The value of an ASCII digit. -/
def digitValue? (c : Char) : Option Nat :=
  if '0' ≤ c ∧ c ≤ '9' then some (c.toNat - '0'.toNat) else none

/-- The digits a text starts with, and the text after them. -/
def takeDigits : List Char → List Nat × List Char
  | [] => ([], [])
  | c :: cs =>
    match digitValue? c with
    | some d => let (ds, rest) := takeDigits cs; (d :: ds, rest)
    | none => ([], c :: cs)

/-- The number a run of digits writes, most significant first. -/
def ofDigits (ds : List Nat) : Nat := ds.foldl (fun n d => n * 10 + d) 0

/-- Count of decimal digits, one for zero. -/
def digitCount (n : Nat) : Nat := (Nat.toDigits 10 n).length

/-- Splits off a sign; the flag tells a minus sign from a plus sign or none. -/
def takeSign : List Char → Bool × List Char
  | '+' :: cs => (false, cs)
  | '-' :: cs => (true, cs)
  | cs => (false, cs)

/-- An exponent part `e5`, `E+5`, `e-5`; a text without one is returned as it is. The part is
malformed, and the answer `none`, when no digit follows the mark. -/
def takeExponent? : List Char → Option (Option Int × List Char)
  | [] => some (none, [])
  | c :: cs =>
    if c == 'e' || c == 'E' then
      let (negative, body) := takeSign cs
      match takeDigits body with
      | ([], _) => none
      | (ds, rest) => some (some (if negative then -(ofDigits ds : Int) else ofDigits ds), rest)
    else some (none, c :: cs)

/-- The exact number `± significand × 10 ^ exponent`. -/
structure Decimal where
  negative : Bool
  significand : Nat
  exponent : Int

namespace Decimal

/-- The number nearest to a decimal; `none` when it is not finite. Decimals beyond the range on
either side are settled by their order of magnitude alone. -/
def toBinary64? (d : Decimal) : Option Binary64 :=
  let magnitude : Int := digitCount d.significand + d.exponent
  if d.significand = 0 ∨ magnitude < -330 then some (.zero d.negative)
  else if 310 < magnitude then none
  else match d.exponent with
    | .ofNat e => Binary64.ofUnits? d.negative 
        (d.significand * Nat.pow 10 e * Binary64.unitsPerOne) 1
    | .negSucc e => Binary64.ofUnits? d.negative 
        (d.significand * Binary64.unitsPerOne) (Nat.pow 10 (e + 1))

end Decimal

/-- The number line with both infinities, and the value that compares with nothing. -/
inductive Extended where
  | finite (x : Binary64)
  | infinite (negative : Bool)
  | nan
deriving DecidableEq

namespace Extended

/-- Strict order; false whenever a side is `nan`. -/
def lt : Extended → Extended → Bool
  | .finite x, .finite y => decide (x.signedUnits < y.signedUnits)
  | .finite _, .infinite negative => !negative
  | .infinite negative, .finite _ => negative
  | .infinite negative, .infinite negative' => negative && !negative'
  | .nan, _ | _, .nan => false

def finite? : Extended → Option Binary64
  | .finite x => some x
  | _ => none

/-- Reads an unsigned decimal `12`, `1.5`, `.5`, `5.`, each with an optional exponent part. -/
def readMagnitude? (negative : Bool) (cs : List Char) : Option Extended := do
  let (whole, rest) := takeDigits cs
  let (fraction, rest) := match rest with
    | '.' :: rest => takeDigits rest
    | rest => ([], rest)
  guard !(whole.isEmpty && fraction.isEmpty)
  let (exponent, rest) ← takeExponent? rest
  guard rest.isEmpty
  let decimal : Decimal :=
    ⟨negative, ofDigits (whole ++ fraction), exponent.getD 0 - fraction.length⟩
  some ((decimal.toBinary64?.map finite).getD (.infinite negative))

/-- Reads a decimal text, rounded to the nearest number, or `inf`, `infinity` or `nan` in any
case; each may have a sign. -/
def ofText? (text : String) : Option Extended :=
  let (negative, body) := takeSign text.toList
  let word := String.ofList (body.map Char.toLower)
  if word == "inf" || word == "infinity" then some (.infinite negative)
  else if word == "nan" then some .nan
  else readMagnitude? negative body

end Extended
end ResourceSchema
