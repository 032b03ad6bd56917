/-!
# Finite 64-bit floating-point numbers

A number is a sign and the rank of its magnitude among all finite magnitudes, which is the bit
pattern without the sign bit. Magnitudes are whole multiples of one unit, 2^-1074, so comparison,
rounding, products and quotients are exact arithmetic on natural numbers.
-/

namespace ResourceSchema

/-- A finite binary64 number; the rank orders magnitudes from zero upwards without gaps. -/
structure Binary64 where
  negative : Bool
  rank : Nat
  finite : rank < 0x7FF0000000000000
deriving DecidableEq

/-- The quotient `num / den` rounded to the nearest natural number, a half to the even one. -/
def divHalfEven (num den : Nat) : Nat :=
  let q := num / den
  let r := num % den
  if 2 * r < den then q else if den < 2 * r then q + 1 else q + q % 2

namespace Binary64

/-- Count of the magnitudes that share an exponent, 2^52. -/
def stepsPerExponent : Nat := 0x10000000000000

/-- Number of units of 2^-1074 in the number one. -/
def unitsPerOne : Nat := Nat.pow 2 1074

/-- Number of units of 2^-1074 in the magnitude of the given rank. -/
def unitsOfRank (rank : Nat) : Nat :=
  let exponent := rank / stepsPerExponent
  if exponent = 0 then rank
  else (stepsPerExponent + rank % stepsPerExponent) * Nat.pow 2 (exponent - 1)

/-- Rank of the magnitude nearest to `num / den` units, a tie to the even rank. -/
def nearestRank (num den : Nat) : Nat :=
  let shift := (num / den).log2 - 52
  shift * stepsPerExponent + divHalfEven num (den * Nat.pow 2 shift)

/-- The number nearest to plus or minus `num / den` units; `none` when it is not finite. -/
def ofUnits? (negative : Bool) (num den : Nat) : Option Binary64 :=
  if h : nearestRank num den < 0x7FF0000000000000 then some ⟨negative, _, h⟩ else none

/-- The magnitude in units of 2^-1074. -/
def units (x : Binary64) : Nat := unitsOfRank x.rank

/-- The signed value in units of 2^-1074. -/
def signedUnits (x : Binary64) : Int := if x.negative then -(x.units : Int) else x.units

def zero (negative : Bool) : Binary64 := ⟨negative, 0, by decide⟩

def isZero (x : Binary64) : Bool := x.rank == 0

/-- Numeric equality: the two zeros are equal, all other numbers equal only themselves. -/
def same (x y : Binary64) : Bool := x == y || (x.isZero && y.isZero)

@[simp] theorem same_refl (x : Binary64) : x.same x = true := by simp [same]

theorem same_comm (x y : Binary64) : x.same y = y.same x := by
  simp only [same, Bool.and_comm y.isZero, BEq.comm (a := x)]

theorem same_trans {x y z : Binary64} (hxy : x.same y = true) (hyz : y.same z = true) :
    x.same z = true := by
  simp only [same, Bool.or_eq_true, Bool.and_eq_true, beq_iff_eq] at *
  rcases hxy with rfl | ⟨hx, hy⟩
  · exact hyz
  · rcases hyz with rfl | ⟨_, hz⟩
    · exact .inr ⟨hx, hy⟩
    · exact .inr ⟨hx, hz⟩

def neg (x : Binary64) : Binary64 := { x with negative := !x.negative }

/-- The product rounded to nearest; `none` when it is not finite. -/
def mul? (x y : Binary64) : Option Binary64 :=
  ofUnits? (x.negative != y.negative) (x.units * y.units) unitsPerOne

/-- The quotient rounded to nearest; `none` when it is not finite or the divisor is zero. -/
def div? (x y : Binary64) : Option Binary64 :=
  if y.isZero then none else ofUnits? (x.negative != y.negative) (x.units * unitsPerOne) y.units

/-- The number nearest to a natural number. -/
def ofNat? (n : Nat) : Option Binary64 := ofUnits? false (n * unitsPerOne) 1

/-- The number nearest to an integer. -/
def ofInt? (i : Int) : Option Binary64 := ofUnits? (i < 0) (i.natAbs * unitsPerOne) 1

end Binary64
end ResourceSchema
