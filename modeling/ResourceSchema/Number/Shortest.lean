import ResourceSchema.Number.Basic

/-!
# Shortest decimal texts

A floating-point number is written with the fewest significant digits that read back as the same
number, and of those with the ones nearest to its value. The reals that read back as a number lie
between the midpoints to its two neighbours; the midpoints belong to them when the rank is even.
For each count of digits only the two decimals next to the value need a look, since an interval
around a value that holds any decimal of a grid holds one of these two.
-/

namespace ResourceSchema

/-- Significant digits and the exponent of the first: `d₁.d₂… × 10 ^ exponent`. -/
structure Digits where
  digits : List Char
  exponent : Int

namespace Binary64

/-- The exponent `e` with `10 ^ e ≤ num / den < 10 ^ (e + 1)`, for a positive quotient. -/
def decimalOrder (num den : Nat) : Int :=
  if den ≤ num then (digitCount (num / den) : Int) - 1
  else -(if (den + num - 1) / num ≤ 1 then 0 else digitCount ((den + num - 1) / num - 1) : Int)

/-- `num / den` in steps of `10 ^ exponent`, as a quotient again. -/
def inSteps (num den : Nat) (exponent : Int) : Nat × Nat :=
  match exponent with
  | .ofNat e => (num, den * Nat.pow 10 e)
  | .negSucc e => (num * Nat.pow 10 (e + 1), den)

/-- The multiple of a power of ten that is next to the magnitude and reads back as it: the lower
or the upper neighbour on that grid, whichever is nearer when both do. -/
def onGrid? (x : Binary64) (exponent : Int) : Option Nat :=
  let below := unitsOfRank (x.rank - 1) + x.units
  let above := x.units + unitsOfRank (x.rank + 1)
  let (num, den) := inSteps (2 * x.units) (2 * unitsPerOne) exponent
  let (low, _) := inSteps below (2 * unitsPerOne) exponent
  let (high, _) := inSteps above (2 * unitsPerOne) exponent
  let readsBack (n : Nat) : Bool :=
    if x.rank % 2 = 0 then low ≤ n * den ∧ n * den ≤ high else low < n * den ∧ n * den < high
  let floor := num / den
  match readsBack floor, readsBack (floor + 1) with
  | true, true => some (if 2 * (num % den) ≤ den then floor else floor + 1)
  | true, false => some floor
  | false, true => some (floor + 1)
  | false, false => none

/-- Significant digits of `n × 10 ^ exponent` without zeros at the end. -/
def significant (n : Nat) (exponent : Int) : Digits :=
  let ds := Nat.toDigits 10 n
  let kept := (ds.reverse.dropWhile (· == '0')).reverse
  ⟨kept, exponent + ds.length - 1⟩

/-- The shortest digits of the magnitude; a zero has the single digit zero. Seventeen digits
always read back, so the search ends there. -/
def shortest (x : Binary64) : Digits :=
  if x.isZero then ⟨['0'], 0⟩
  else
    let order := decimalOrder x.units unitsPerOne
    let grids := (List.range 17).map fun (count : Nat) => order - count
    ((grids.firstM fun e => (x.onGrid? e).map (significant · e)).getD ⟨['0'], 0⟩)

end Binary64

namespace Digits

/-- Digits before and after the decimal point in positional notation; the part before it is never
empty, the part after it may be. -/
def positional (d : Digits) : List Char × List Char :=
  match d.exponent with
  | .ofNat e =>
    let whole := d.digits.take (e + 1)
    (whole ++ List.replicate (e + 1 - whole.length) '0', d.digits.drop (e + 1))
  | .negSucc e => (['0'], List.replicate e '0' ++ d.digits)

/-- `1.25e-7`, `1e+16`: one digit before the point, and an exponent with its sign. -/
def scientific (d : Digits) : List Char :=
  let mantissa := match d.digits with
    | first :: second :: rest => first :: '.' :: second :: rest
    | ds => ds
  let sign := if d.exponent < 0 then '-' else '+'
  mantissa ++ 'e' :: sign :: Nat.toDigits 10 d.exponent.natAbs

end Digits

namespace Binary64

def signed (x : Binary64) (magnitude : List Char) : String :=
  String.ofList (if x.negative then '-' :: magnitude else magnitude)

/-- The text of a number in a document: positional from `10 ^ -5` to below `10 ^ 16`, with at least
one digit after the point, and scientific outside that range. -/
def documentText (x : Binary64) : String :=
  let d := x.shortest
  if -5 ≤ d.exponent ∧ d.exponent ≤ 15 then
    let (whole, fraction) := d.positional
    x.signed (whole ++ '.' :: (if fraction.isEmpty then ['0'] else fraction))
  else x.signed d.scientific

/-- The text of a number in prose: always positional, and without a point when it is whole. -/
def plainText (x : Binary64) : String :=
  let (whole, fraction) := x.shortest.positional
  x.signed (whole ++ (if fraction.isEmpty then [] else '.' :: fraction))

end Binary64

/-- The text of a bound in prose. -/
def Extended.plainText : Extended → String
  | .finite x => x.plainText
  | .infinite negative => if negative then "-inf" else "inf"
  | .nan => "NaN"

/-- The text of a number in a document. -/
def Number.text : Number → String
  | .integer i _ => toString i
  | .float x => x.documentText

end ResourceSchema
