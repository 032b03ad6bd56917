import ResourceSchema.Path.Error

/-!
# Errors of schemas
-/

namespace ResourceSchema

/-- Why a schema cannot be built; the path is that of the offending node. -/
inductive SchemaError where
  | typeXorNested (path : Path)
  | requiredAndOptional (path : Path)
  | missingConstraint (path : Path)
  | duplicateName (path : Path) (name : String)
  | invalidName (path : Path) (name : String)
  | invalidItemBounds (path : Path) (min max : UInt64)
  /-- The document of the schema is not accepted. -/
  | definition (reason : String)

namespace SchemaError

def message : SchemaError → String
  | .typeXorNested path =>
    "attribute " ++ path.text ++
      ": exactly one of a value type or nested attributes must be set"
  | .requiredAndOptional path =>
    "attribute " ++ path.text ++ ": required and optional are mutually exclusive"
  | .missingConstraint path =>
    "attribute " ++ path.text ++ ": one of required, optional or computed must be set"
  | .duplicateName path name =>
    Text.quoted name ++ " is defined more than once under " ++ path.text
  | .invalidName path name =>
    "invalid name " ++ Text.quoted name ++ " under " ++ path.text ++
      ": names must contain only lowercase alphanumeric characters or underscores"
  | .invalidItemBounds path min max =>
    "block " ++ path.text ++ ": min_items (" ++ toString min ++ ") exceeds max_items (" ++
      toString max ++ ")"
  | .definition reason => "invalid schema definition: " ++ reason

/-- The error as it is seen from further up, with `parent` before its path. -/
def under (parent : Path) : SchemaError → SchemaError
  | .typeXorNested path => .typeXorNested (parent ++ path)
  | .requiredAndOptional path => .requiredAndOptional (parent ++ path)
  | .missingConstraint path => .missingConstraint (parent ++ path)
  | .duplicateName path name => .duplicateName (parent ++ path) name
  | .invalidName path name => .invalidName (parent ++ path) name
  | .invalidItemBounds path min max => .invalidItemBounds (parent ++ path) min max
  | .definition reason => .definition reason

end SchemaError

/-- Why a path does not resolve against a schema. -/
inductive ResolveError where
  /-- A step does not apply: the steps before it, the step and those after it. -/
  | step (consumed : Path) (failed : PathStep) (after : Path) (source : StepError)
  | insideAtomicAttribute (path : Path)
  | isBlock (path : Path)
  /-- The path leads to a node without a name of its own. -/
  | isNotAttribute (path : Path) (node : String)
  | isNotBlock (path : Path)

namespace ResolveError

/-- The whole path that does not resolve. -/
def path : ResolveError → Path
  | .step consumed failed after _ => consumed ++ failed :: after
  | .insideAtomicAttribute path | .isBlock path | .isNotAttribute path _ | .isNotBlock path => path

/-- The steps from the one that does not apply. -/
def remaining : ResolveError → Path
  | .step _ failed after _ => failed :: after
  | _ => []

def message : ResolveError → String
  | .step consumed failed after source =>
    "cannot resolve " ++ Path.text (consumed ++ failed :: after) ++ ": " ++
      toString (after.length + 1) ++ " step(s) remain unconsumed starting at " ++ failed.text ++
      ": " ++ source.message
  | .insideAtomicAttribute path =>
    "path " ++ path.text ++ " leads inside an atomic attribute and has no attribute of its own"
  | .isBlock path => "path " ++ path.text ++ " leads to a block, not an attribute"
  | .isNotAttribute path node =>
    "path " ++ path.text ++ " leads to a " ++ node ++ ", not an attribute"
  | .isNotBlock path => "path " ++ path.text ++ " does not lead to a block"

end ResolveError
end ResourceSchema
