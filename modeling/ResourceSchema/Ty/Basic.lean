import ResourceSchema.Json.Basic

/-!
# Types of values

A type is a primitive, a collection of elements of one type, or an object with a type for each of
its attribute names. Attributes are kept sorted by name.
-/

namespace ResourceSchema

inductive Ty where
  | string
  | number
  | bool
  | list (element : Ty)
  | set (element : Ty)
  | map (element : Ty)
  | object (attributes : List (String × Ty))

namespace Ty

mutual

def same : Ty → Ty → Bool
  | .string, .string => true
  | .number, .number => true
  | .bool, .bool => true
  | .list t, .list u => t.same u
  | .set t, .set u => t.same u
  | .map t, .map u => t.same u
  | .object as, .object bs => sameAttributes as bs
  | _, _ => false

def sameAttributes : List (String × Ty) → List (String × Ty) → Bool
  | [], [] => true
  | (n, t) :: as, (m, u) :: bs => n == m && t.same u && sameAttributes as bs
  | _, _ => false

end

mutual

theorem same_eq_true_iff : ∀ {t u : Ty}, t.same u = true ↔ t = u
  | .list t, .list u | .set t, .set u | .map t, .map u => by
    simp [same, same_eq_true_iff (t := t)]
  | .object as, .object bs => by simp [same, sameAttributes_eq_true_iff (a := as)]
  | .string, u | .number, u | .bool, u => by cases u <;> simp [same]
  | .list _, .string | .list _, .number | .list _, .bool | .list _, .set _ | .list _, .map _
  | .list _, .object _ | .set _, .string | .set _, .number | .set _, .bool | .set _, .list _
  | .set _, .map _ | .set _, .object _ | .map _, .string | .map _, .number | .map _, .bool
  | .map _, .list _ | .map _, .set _ | .map _, .object _ | .object _, .string | .object _, .number
  | .object _, .bool | .object _, .list _ | .object _, .set _ | .object _, .map _ => by simp [same]

theorem sameAttributes_eq_true_iff :
    ∀ {a b : List (String × Ty)}, sameAttributes a b = true ↔ a = b
  | [], bs => by cases bs <;> simp [sameAttributes]
  | _ :: _, [] => by simp [sameAttributes]
  | (n, t) :: as, (m, u) :: bs => by
    simp [sameAttributes, same_eq_true_iff (t := t), sameAttributes_eq_true_iff (a := as)]

end

instance : DecidableEq Ty := fun _ _ => decidable_of_iff _ same_eq_true_iff

/-- The object type of some attributes; of several with one name the last counts. -/
def ofAttributes (attributes : List (String × Ty)) : Ty := .object (Keyed.sorted attributes)

/-- A type without children. -/
def isPrimitive : Ty → Bool
  | .string | .number | .bool => true
  | _ => false

/-- Element type of a collection. -/
def element? : Ty → Option Ty
  | .list t | .set t | .map t => some t
  | _ => none

/-- Attribute types of an object. -/
def attributes? : Ty → Option (List (String × Ty))
  | .object as => some as
  | _ => none

mutual

/-- The type in prose: `list(object({host: string, size: number}))`. -/
def text : Ty → String
  | .string => "string"
  | .number => "number"
  | .bool => "bool"
  | .list t => "list(" ++ t.text ++ ")"
  | .set t => "set(" ++ t.text ++ ")"
  | .map t => "map(" ++ t.text ++ ")"
  | .object as => "object(\x7b" ++ String.intercalate ", " (attributeTexts as) ++ "\x7d)"

def attributeTexts : List (String × Ty) → List String
  | [] => []
  | (name, t) :: as => (name ++ ": " ++ t.text) :: attributeTexts as

end

mutual

/-- The document form: a word for a primitive, an object with one member for the others. -/
def toJson : Ty → Json
  | .string => .string "string"
  | .number => .string "number"
  | .bool => .string "bool"
  | .list t => .object [("list", t.toJson)]
  | .set t => .object [("set", t.toJson)]
  | .map t => .object [("map", t.toJson)]
  | .object as => .object [("object", .object (attributesJson as))]

def attributesJson : List (String × Ty) → List (String × Json)
  | [] => []
  | (name, t) :: as => (name, t.toJson) :: attributesJson as

end

mutual

/-- Attribute names are strictly increasing at every depth. -/
def WellFormed : Ty → Prop
  | .string | .number | .bool => True
  | .list t | .set t | .map t => t.WellFormed
  | .object as => Keyed.Increasing as ∧ WellFormedAttributes as

def WellFormedAttributes : List (String × Ty) → Prop
  | [] => True
  | (_, t) :: as => t.WellFormed ∧ WellFormedAttributes as

end

end Ty
end ResourceSchema
