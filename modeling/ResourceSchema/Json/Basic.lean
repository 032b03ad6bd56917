import ResourceSchema.Keyed
import ResourceSchema.Number.Shortest

/-!
# JSON documents

A document keeps the members of an object in the order of its text, repeated names included. Its
canonical form is what matters where order does not: members sorted by name, and of several members
with one name the last.
-/

namespace ResourceSchema

inductive Json where
  | null
  | bool (value : Bool)
  | number (value : Number)
  | string (value : String)
  | array (items : List Json)
  | object (members : List (String × Json))

namespace Json

/-- The word for a kind of document in messages. -/
def kind : Json → String
  | .null => "null"
  | .bool _ => "bool"
  | .number _ => "number"
  | .string _ => "string"
  | .array _ => "array"
  | .object _ => "object"

mutual

/-- Sorts the members of every object; of several with one name the last stays. -/
def canonical : Json → Json
  | .null => .null
  | .bool b => .bool b
  | .number n => .number n
  | .string s => .string s
  | .array items => .array (canonicalItems items)
  | .object members => .object (Keyed.sorted (canonicalMembers members))

def canonicalItems : List Json → List Json
  | [] => []
  | j :: js => j.canonical :: canonicalItems js

def canonicalMembers : List (String × Json) → List (String × Json)
  | [] => []
  | (name, j) :: rest => (name, j.canonical) :: canonicalMembers rest

end

/-- The first member of an object with the given name. -/
def member? (name : String) : Json → Option Json
  | .object members => members.lookup name
  | _ => none

/-- The number of an integer that fits 64 bits; other integers become null. -/
def ofInt (i : Int) : Json := (Number.ofInt? i).elim .null .number

end Json
end ResourceSchema
