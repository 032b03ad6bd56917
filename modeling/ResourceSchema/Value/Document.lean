import ResourceSchema.Value.Build

/-!
# Values and documents

A document is read at a type: null fits every type, a missing attribute is null, an attribute that
the type does not declare is refused. A value without unknowns has a document. Values and host
values are converted by way of their documents.
-/

namespace ResourceSchema.Value

/-- The first name, in order, that the attributes do not declare. -/
def undeclared? (attributes : List (String × Ty)) (members : List (String × Json)) :
    Option String :=
  (members.find? fun (name, _) => (attributes.lookup name).isNone).map (·.1)

mutual

/-- Reads a canonical document at a type. -/
def ofCanonical (t : Ty) (j : Json) : Except ValueError Value :=
  match t, j with
  | t, .null => .ok (.null t)
  | .string, .string s => .ok (.string s)
  | .number, .number n => .ok (.number n)
  | .bool, .bool b => .ok (.bool b)
  | .list t, .array items => do listOf t (← items.mapM fun j => ofCanonical t j)
  | .set t, .array items => do setOf t (← items.mapM fun j => ofCanonical t j)
  | .map t, .object members => do
    mapOf t (← members.mapM fun (name, j) => do return (name, ← ofCanonical t j))
  | .object attributes, .object members =>
    match undeclared? attributes members with
    | some name => .error (.unexpectedAttribute name (.object attributes))
    | none => do objectOfType (.object attributes) (← fieldsOfMembers members attributes)
  | t, j => .error (.documentMismatch t j)

/-- Reads each attribute from the member of its name, a missing one from null. -/
def fieldsOfMembers (members : List (String × Json)) :
    List (String × Ty) → Except ValueError (List (String × Value))
  | [] => .ok []
  | (name, t) :: rest => do
    let v ← ofCanonical t ((members.lookup name).getD .null)
    return (name, v) :: (← fieldsOfMembers members rest)

end

/-- Reads a document at a type. -/
def ofJson (t : Ty) (j : Json) : Except ValueError Value := ofCanonical t j.canonical

mutual

/-- The document of a value. Lists and sets become arrays, maps and objects become objects. -/
def toJson : Value → Except ValueError Json
  | .null _ => .ok .null
  | .unknown _ => .error .unknownValue
  | .string s => .ok (.string s)
  | .number n => .ok (.number n)
  | .bool b => .ok (.bool b)
  | .list _ items | .set _ items => do return .array (← itemsJson items)
  | .map _ entries | .object entries => do return .object (← entriesJson entries)

def itemsJson : List Value → Except ValueError (List Json)
  | [] => .ok []
  | v :: vs => do return (← v.toJson) :: (← itemsJson vs)

def entriesJson : List (String × Value) → Except ValueError (List (String × Json))
  | [] => .ok []
  | (name, v) :: rest => do return (name, ← v.toJson) :: (← entriesJson rest)

end

/-- The value in a shape of the host, as a document. -/
def toShape (v : Value) (shape : Host.Shape) : Except ValueError Json := do
  (shape.read (← v.toJson)).mapError .conversion

/-- The value of a type that a host value makes. -/
def ofDatum (t : Ty) (d : Host.Datum) : Except ValueError Value := do
  ofJson t (← d.toJson.mapError .conversion)

end ResourceSchema.Value
