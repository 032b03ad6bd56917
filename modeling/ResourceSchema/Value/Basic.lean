import ResourceSchema.Text.Quoted
import ResourceSchema.Ty.Basic

/-!
# Typed values

A value is null, unknown (not determined yet) or known. It carries as many types as it takes to
recover its own: a null, an unknown and a collection say theirs, the type of an object is that of
its fields. Fields and map entries are sorted by name, set elements keep their stored order, which
equality ignores.
-/

namespace ResourceSchema

inductive Value where
  | null (ty : Ty)
  | unknown (ty : Ty)
  | string (s : String)
  | number (n : Number)
  | bool (b : Bool)
  | list (element : Ty) (items : List Value)
  | set (element : Ty) (items : List Value)
  | map (element : Ty) (entries : List (String × Value))
  | object (fields : List (String × Value))

namespace Value

mutual

/-- Type of a value. -/
def ty : Value → Ty
  | .null t | .unknown t => t
  | .string _ => .string
  | .number _ => .number
  | .bool _ => .bool
  | .list t _ => .list t
  | .set t _ => .set t
  | .map t _ => .map t
  | .object fields => .object (fieldTypes fields)

def fieldTypes : List (String × Value) → List (String × Ty)
  | [] => []
  | (name, v) :: rest => (name, v.ty) :: fieldTypes rest

end

/-- A null for each attribute. -/
def nullFields (attributes : List (String × Ty)) : List (String × Value) :=
  attributes.map fun (name, t) => (name, .null t)

def isNull : Value → Bool
  | .null _ => true
  | _ => false

def isUnknown : Value → Bool
  | .unknown _ => true
  | _ => false

/-- Neither null nor unknown; parts of the value may still be either. -/
def isKnown (v : Value) : Bool := !v.isNull && !v.isUnknown

mutual

/-- No unknown occurs anywhere in the value. -/
def isFullyKnown : Value → Bool
  | .unknown _ => false
  | .list _ items | .set _ items => allFullyKnown items
  | .map _ entries | .object entries => entriesFullyKnown entries
  | .null _ | .string _ | .number _ | .bool _ => true

def allFullyKnown : List Value → Bool
  | [] => true
  | v :: vs => v.isFullyKnown && allFullyKnown vs

def entriesFullyKnown : List (String × Value) → Bool
  | [] => true
  | (_, v) :: rest => v.isFullyKnown && entriesFullyKnown rest

end

/-- The list without its first element that satisfies `p`; `none` when there is no such. -/
def removeFirst? {α : Type} (p : α → Bool) : List α → Option (List α)
  | [] => none
  | x :: xs => if p x then some xs else (removeFirst? p xs).map (x :: ·)

mutual

/-- Equality. Numbers are equal within their form, sets when their elements match one to one. -/
def same : Value → Value → Bool
  | .null t, .null u => t == u
  | .unknown t, .unknown u => t == u
  | .string s, .string s' => s == s'
  | .number n, .number n' => n.same n'
  | .bool b, .bool b' => b == b'
  | .list t items, .list u items' => t == u && sameItems items items'
  | .set t items, .set u items' => t == u && pairUp items items'
  | .map t entries, .map u entries' => t == u && sameEntries entries entries'
  | .object fields, .object fields' => sameEntries fields fields'
  | _, _ => false

def sameItems : List Value → List Value → Bool
  | [], [] => true
  | v :: vs, w :: ws => v.same w && sameItems vs ws
  | _, _ => false

/-- Each element in turn takes the first one that it equals among those not taken yet, and none is
left over. -/
def pairUp : List Value → List Value → Bool
  | [], ws => ws.isEmpty
  | v :: vs, ws =>
    match removeFirst? (fun w => v.same w) ws with
    | some rest => pairUp vs rest
    | none => false

def sameEntries : List (String × Value) → List (String × Value) → Bool
  | [], [] => true
  | (k, v) :: rest, (k', v') :: rest' => k == k' && v.same v' && sameEntries rest rest'
  | _, _ => false

end

/-- Count of elements of a known list, set or map. -/
def elementCount? : Value → Option Nat
  | .list _ items | .set _ items => some items.length
  | .map _ entries => some entries.length
  | _ => none

mutual

/-- Every collection element has the declared type, names are strictly increasing, and no fully
known element of a set equals another one, at every depth. -/
def WellFormed : Value → Prop
  | .null t | .unknown t => t.WellFormed
  | .string _ | .number _ | .bool _ => True
  | .list t items => t.WellFormed ∧ ItemsWellFormed t items
  | .set t items => t.WellFormed ∧ ItemsWellFormed t items ∧
      items.Pairwise fun v w => v.isFullyKnown = true → v.same w = false
  | .map t entries => t.WellFormed ∧ Keyed.Increasing entries ∧ EntriesWellFormed t entries
  | .object fields => Keyed.Increasing fields ∧ FieldsWellFormed fields

def ItemsWellFormed (t : Ty) : List Value → Prop
  | [] => True
  | v :: vs => v.ty = t ∧ v.WellFormed ∧ ItemsWellFormed t vs

def EntriesWellFormed (t : Ty) : List (String × Value) → Prop
  | [] => True
  | (_, v) :: rest => v.ty = t ∧ v.WellFormed ∧ EntriesWellFormed t rest

def FieldsWellFormed : List (String × Value) → Prop
  | [] => True
  | (_, v) :: rest => v.WellFormed ∧ FieldsWellFormed rest

end

mutual

/-- The value in prose: strings and keys in quotes, lists and sets in brackets, maps and objects in
braces, and words for null and unknown. -/
def text : Value → String
  | .null _ => "null"
  | .unknown _ => "<unknown>"
  | .string s => Text.quoted s
  | .number n => n.text
  | .bool b => if b then "true" else "false"
  | .list _ items | .set _ items => "[" ++ String.intercalate ", " (itemTexts items) ++ "]"
  | .map _ entries | .object entries =>
    "\x7b" ++ String.intercalate ", " (entryTexts entries) ++ "\x7d"

def itemTexts : List Value → List String
  | [] => []
  | v :: vs => v.text :: itemTexts vs

def entryTexts : List (String × Value) → List String
  | [] => []
  | (name, v) :: rest => (Text.quoted name ++ ": " ++ v.text) :: entryTexts rest

end

end Value
end ResourceSchema
