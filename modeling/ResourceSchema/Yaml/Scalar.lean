import ResourceSchema.Definition.Document
import ResourceSchema.Text.Basic

/-!
# Scalars of YAML documents

A plain scalar may be taken for its text, and for a flag, an integer or nothing where its text is a
word for one. A quoted scalar is a text and nothing else.
-/

namespace ResourceSchema.Yaml

/-- Words for nothing. -/
def isNullWord (text : String) : Bool := ["null", "Null", "NULL", "~"].contains text

/-- Words for a flag. -/
def flagOfWord? (text : String) : Option Bool :=
  if ["true", "True", "TRUE"].contains text then some true
  else if ["false", "False", "FALSE"].contains text then some false
  else none

/-- An integer without a minus sign: decimal, hexadecimal, octal or binary digits. A decimal
integer of several digits does not start with zero. -/
def natural? : List Char → Option Nat
  | '+' :: cs => unsigned? cs
  | cs => unsigned? cs
where
  unsigned? : List Char → Option Nat
    | '0' :: 'x' :: cs => Text.ofDigits? 16 cs
    | '0' :: 'o' :: cs => Text.ofDigits? 8 cs
    | '0' :: 'b' :: cs => Text.ofDigits? 2 cs
    | '0' :: _ :: _ => none
    | cs => Text.ofDigits? 10 cs

/-- An integer with a sign or without one. -/
def integer? : List Char → Option Int
  | '-' :: cs => (natural?.unsigned? cs).map fun n => -(n : Int)
  | cs => (natural? cs).map Int.ofNat

/-- Words for the numbers that are not finite. -/
def isNonFiniteWord (text : String) : Bool :=
  [".inf", ".Inf", ".INF", "+.inf", "+.Inf", "+.INF", "-.inf", "-.Inf", "-.INF", ".nan", ".NaN",
    ".NAN"].contains text

/-- Digits that start with zero, which are no number. -/
def isPaddedDigits (text : String) : Bool :=
  match (takeSign text.toList).2 with
  | '0' :: c :: cs => (c :: cs).all Char.isDigit
  | _ => false

/-- Integers of 128 bits, with a sign or without one. -/
def fitsWideWord (i : Int) : Bool :=
  -0x80000000000000000000000000000000 ≤ i && i < 0x100000000000000000000000000000000

/-- Texts that stand for something else when they are written without quotes, or look like it. -/
def isAmbiguous (text : String) : Bool :=
  text.isEmpty || isNullWord text || (flagOfWord? text).isSome || isPaddedDigits text ||
    (integer? text.toList).any fitsWideWord ||
    ((Extended.ofText? text).bind Extended.finite?).isSome || isNonFiniteWord text

/-- The readings of a scalar without quotes. -/
def plain (text : String) : Scalar where
  text := some text
  flag := flagOfWord? text
  integer := integer? text.toList
  natural := natural? text.toList
  absent := text.isEmpty || isNullWord text
  blank := text.isEmpty

/-- The reading of a scalar in quotes or of a block. -/
def quoted (text : String) : Scalar := { text := some text }

end ResourceSchema.Yaml
