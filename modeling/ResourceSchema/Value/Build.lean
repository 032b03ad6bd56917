import ResourceSchema.Value.Error

/-!
# Making values

Collections are made from a declared element type and checked elements, objects from their fields
or from an object type, whose remaining attributes are null.
-/

namespace ResourceSchema.Value

/-- The number nearest to a float; there is none for the infinities and for no number at all. -/
def ofExtended? (x : Extended) : Option Value := x.finite?.map fun x => .number (.float x)

def checkType (expected : Ty) (v : Value) : Except ValueError Unit :=
  if v.ty = expected then .ok () else .error (.elementType expected v.ty)

/-- A list whose elements all have the declared type. -/
def listOf (element : Ty) (items : List Value) : Except ValueError Value := do
  items.forM (checkType element)
  return .list element items

/-- The first fully known element that equals one after it. -/
def firstDuplicate? : List Value → Option Value
  | [] => none
  | v :: vs => if v.isFullyKnown && vs.any (fun w => w.same v) then some v else firstDuplicate? vs

/-- A set whose elements all have the declared type; fully known ones are distinct. -/
def setOf (element : Ty) (items : List Value) : Except ValueError Value := do
  items.forM (checkType element)
  match firstDuplicate? items with
  | some v => .error (.duplicateSetElement v)
  | none => .ok (.set element items)

/-- A map whose values all have the declared type; of several with one key the last counts. -/
def mapOf (element : Ty) (entries : List (String × Value)) : Except ValueError Value := do
  entries.forM fun (_, v) => checkType element v
  return .map element (Keyed.sorted entries)

/-- An object of the type its fields make; of several with one name the last counts. -/
def objectOf (fields : List (String × Value)) : Value := .object (Keyed.sorted fields)

/-- An object of a given object type. -/
def objectOfType (t : Ty) (fields : List (String × Value)) : Except ValueError Value :=
  match t.attributes? with
  | none => .error (.notAnObjectType t)
  | some attributes => do
    let filled ← fields.foldlM (fun acc (name, v) =>
      match attributes.lookup name with
      | none => .error (.unexpectedAttribute name t)
      | some expected => do
        checkType expected v
        return Keyed.assign name v acc) (nullFields attributes)
    return .object filled

end ResourceSchema.Value
