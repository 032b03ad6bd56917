import ResourceSchema.Host.Shape
import ResourceSchema.Path.Error

/-!
# Errors of values
-/

namespace ResourceSchema

/-- Why a value cannot be made or converted. -/
inductive ValueError where
  | elementType (expected found : Ty)
  | duplicateSetElement (element : Value)
  | notAnObjectType (ty : Ty)
  | unexpectedAttribute (name : String) (ty : Ty)
  | documentMismatch (expected : Ty) (found : Json)
  | unknownValue
  | conversion (mismatch : Host.Mismatch)

def ValueError.message : ValueError → String
  | .elementType expected found =>
    "expected value of type " ++ expected.text ++ ", found " ++ found.text
  | .duplicateSetElement v => "duplicate set element " ++ v.text
  | .notAnObjectType t => t.text ++ " is not an object type"
  | .unexpectedAttribute name t =>
    "unexpected attribute " ++ Text.quoted name ++ " for " ++ t.text
  | .documentMismatch expected found =>
    "cannot convert JSON " ++ found.kind ++ " into " ++ expected.text
  | .unknownValue => "unknown value cannot be converted"
  | .conversion mismatch => "conversion failed: " ++ mismatch.message

/-- Why a value cannot be written at a path. -/
inductive SetError where
  | step (source : StepError)
  | typeMismatch (expected found : Ty)
  | indexOutOfRange (index : Int) (length : Nat)

def SetError.message : SetError → String
  | .step source => source.message
  | .typeMismatch expected found =>
    "cannot set value of type " ++ found.text ++ " where " ++ expected.text ++ " is expected"
  | .indexOutOfRange index length =>
    "list index " ++ toString index ++ " out of range for list of length " ++ toString length

/-- Equality, by equality of step errors. -/
def SetError.same : SetError → SetError → Bool
  | .step e, .step e' => e.same e'
  | .typeMismatch expected found, .typeMismatch expected' found' =>
    expected == expected' && found == found'
  | .indexOutOfRange i n, .indexOutOfRange i' n' => i == i' && n == n'
  | _, _ => false

end ResourceSchema
