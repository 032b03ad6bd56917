import ResourceSchema.Path.Basic

/-!
# Errors of paths and steps
-/

namespace ResourceSchema

/-- Why a text is no path, or a path not below another. -/
inductive PathError where
  | emptySegment
  | invalidSegment (segment : String)
  | unterminatedKey
  | invalidIndex (text : String)
  /-- `position` counts the bytes of the text before the character. -/
  | unexpectedCharacter (position : Nat) (found : Char)
  | notDescendant (path ancestor : Path)

namespace PathError

def message : PathError → String
  | .emptySegment => "path contains empty segment"
  | .invalidSegment s => "invalid segment: " ++ s ++ " (must be alphanumeric or underscore)"
  | .unterminatedKey => "unterminated element key"
  | .invalidIndex s => "invalid list index: " ++ Text.quoted s
  | .unexpectedCharacter position c =>
    "unexpected character " ++ Text.quotedChar c ++ " at position " ++ toString position
  | .notDescendant path ancestor =>
    "path '" ++ path.text ++ "' is not a descendant of '" ++ ancestor.text ++ "'"

end PathError

/-- The steps of `path` below `ancestor`. -/
def Path.relativeTo (path ancestor : Path) : Except PathError Path :=
  if ancestor.isInitialOf path then .ok (path.drop ancestor.length)
  else .error (.notDescendant path ancestor)

/-- Why a step does not apply to a type, a value or a schema node; `target` is the type of it. -/
inductive StepError where
  | unexpectedStep (step : PathStep) (target : Ty) (expected : StepKind)
  | notComposite (step : PathStep) (target : Ty)
  | noSuchAttribute (name : String) (target : Ty)
  | negativeIndex (index : Int)
  | elementNotFound (step : PathStep)
  | nullValue (step : PathStep)
  | unknownValue (step : PathStep)

namespace StepError

def message : StepError → String
  | .unexpectedStep step target expected =>
    "cannot apply step " ++ step.text ++ " to " ++ target.text ++ ": expected " ++ expected.text
  | .notComposite step target =>
    "cannot apply step " ++ step.text ++ " to " ++ target.text ++ ": it has no nested elements"
  | .noSuchAttribute name target =>
    "attribute " ++ Text.quoted name ++ " not found in " ++ target.text
  | .negativeIndex index => "invalid list index " ++ toString index
  | .elementNotFound step => "no element at step " ++ step.text
  | .nullValue step => "cannot apply step " ++ step.text ++ " to a null value"
  | .unknownValue step => "cannot apply step " ++ step.text ++ " to an unknown value"

/-- Equality, by equality of steps and by the text of the target. -/
def same : StepError → StepError → Bool
  | .unexpectedStep s t expected, .unexpectedStep s' t' expected' =>
    s.same s' && t.text == t'.text && expected == expected'
  | .notComposite s t, .notComposite s' t' => s.same s' && t.text == t'.text
  | .noSuchAttribute n t, .noSuchAttribute n' t' => n == n' && t.text == t'.text
  | .negativeIndex i, .negativeIndex i' => i == i'
  | .elementNotFound s, .elementNotFound s' => s.same s'
  | .nullValue s, .nullValue s' => s.same s'
  | .unknownValue s, .unknownValue s' => s.same s'
  | _, _ => false

/-- The data has nothing at the step, though its type allows the step. -/
def isMissingValue : StepError → Bool
  | .elementNotFound _ | .nullValue _ | .unknownValue _ => true
  | _ => false

end StepError
end ResourceSchema
