import ResourceSchema.Schema.Node
import ResourceSchema.Value.Access
import ResourceSchema.Value.Document

/-!
# Data of a resource

Data is a value of the type of a schema, in one of three roles: what the user configured, what is
planned, what has been applied. A null value stands for a resource that does not exist. Reads go by
the schema, so that a path which does not resolve is an error even where there is no data; only a
plan can be written to.
-/

namespace ResourceSchema

inductive Role where
  | config
  | plan
  | state
deriving DecidableEq

def Role.text : Role → String
  | .config => "config"
  | .plan => "plan"
  | .state => "state"

/-- Why data cannot be made, read or written. -/
inductive DataError where
  | resolve (source : ResolveError)
  | typeMismatch (role : Role) (path : Path) (expected found : Ty)
  | unknownInState
  | nullValue (path : Path)
  | unknownValue (path : Path)
  | conversion (path : Path) (source : ValueError)
  | set (path : Path) (source : SetError)
  | step (path : Path) (source : StepError)
  | readOnly (role : Role)
  | invalidExpression (expression : PathExpr) (source : ResolveError)

def DataError.message : DataError → String
  | .resolve source => source.message
  | .typeMismatch role path expected found =>
    role.text ++ " value at " ++ path.text ++ " has type " ++ found.text ++ ", expected " ++
      expected.text
  | .unknownInState => "state must be fully known"
  | .nullValue path => "no value present at " ++ path.text
  | .unknownValue path => "value at " ++ path.text ++ " is not yet known"
  | .conversion path source => "cannot convert value at " ++ path.text ++ ": " ++ source.message
  | .set path source => "cannot set value at " ++ path.text ++ ": " ++ source.message
  | .step path source => "cannot read value at " ++ path.text ++ ": " ++ source.message
  | .readOnly role => role.text ++ " data is read-only"
  | .invalidExpression expression source =>
    "path expression " ++ expression.text ++ " does not resolve: " ++ source.message

/-- The value a path leads to, as a value of type `t`: null below a null and where an element is
missing, unknown below an unknown. -/
def Value.lookup (v : Value) (t : Ty) : Path → Except StepError Value
  | [] => .ok v
  | s :: rest =>
    match v with
    | .null _ => .ok (.null t)
    | .unknown _ => .ok (.unknown t)
    | v =>
      match v.step s with
      | .ok child => child.lookup t rest
      | .error (.elementNotFound _) => .ok (.null t)
      | .error e => .error e

structure Data where
  role : Role
  schema : Schema
  raw : Value

namespace Data

/-- Data of a value that has the type of the schema; a state has no unknowns. -/
def ofValue (role : Role) (schema : Schema) (raw : Value) : Except DataError Data :=
  if raw.ty ≠ schema.ty then .error (.typeMismatch role [] schema.ty raw.ty)
  else if role = .state ∧ raw.isFullyKnown = false then .error .unknownInState
  else .ok ⟨role, schema, raw⟩

/-- Data of a resource that does not exist. -/
def absent (role : Role) (schema : Schema) : Data := ⟨role, schema, .null schema.ty⟩

/-- Data from a document. -/
def ofJson (role : Role) (schema : Schema) (j : Json) : Except DataError Data := do
  ofValue role schema (← (Value.ofJson schema.ty j).mapError (.conversion []))

/-- The value at a path of the schema; null or unknown where there is no data. -/
def get (d : Data) (p : Path) : Except DataError Value := do
  let t ← (d.schema.typeAt p).mapError .resolve
  (d.raw.lookup t p).mapError (.step p)

/-- The value at a path in a shape of the host, as a document. A null is read only in a shape that
takes null. -/
def getShape (d : Data) (p : Path) (shape : Host.Shape) : Except DataError Json := do
  let v ← d.get p
  if v.isNull then (shape.read .null).mapError fun _ => .nullValue p
  else
    (v.toShape shape).mapError fun e =>
      match e with
      | .unknownValue => .unknownValue p
      | e => .conversion p e

/-- The plan with a value at a path. -/
def set (d : Data) (p : Path) (v : Value) : Except DataError Data := do
  if d.role ≠ .plan then .error (.readOnly d.role)
  else
    let expected ← (d.schema.typeAt p).mapError .resolve
    if v.ty ≠ expected then .error (.typeMismatch d.role p expected v.ty)
    else return { d with raw := ← (d.raw.setAt p v).mapError (.set p) }

/-- The plan with a host value at a path. -/
def setDatum (d : Data) (p : Path) (datum : Host.Datum) : Except DataError Data := do
  if d.role ≠ .plan then .error (.readOnly d.role)
  else
    let t ← (d.schema.typeAt p).mapError .resolve
    d.set p (← (Value.ofDatum t datum).mapError (.conversion p))

/-- A node where the search for the paths of an expression ends with success: the expression
accepts its path, or passes through it and there is no data to follow. -/
def isHit (e : PathExpr) (p : Path) (v : Value) : Bool :=
  e.accepts p || (e.passesThrough p && (v.isNull || v.isUnknown))

/-- The paths in the data that an expression accepts, in pre-order; where it passes through a null
or an unknown, the path of that. -/
def pathMatches (d : Data) (e : PathExpr) : Except DataError (List Path) := do
  let e := (e.merge []).resolve
  let _ ← (d.schema.typeAtExpr e).mapError (.invalidExpression e)
  let nodes := d.raw.walk fun p v => !isHit e p v && e.passesThrough p
  return (nodes.filter fun (p, v) => isHit e p v).map (·.1)

end Data
end ResourceSchema
