import ResourceSchema.Json.Basic

/-!
# Documents of schema definitions

The tree that definitions are read from, whatever notation it was written in. A notation says of
each scalar what it may be taken for.
-/

namespace ResourceSchema

/-- What a scalar may be taken for. -/
structure Scalar where
  text : Option String := none
  flag : Option Bool := none
  integer : Option Int := none
  /-- An integer written without a minus sign. -/
  natural : Option Nat := none
  /-- Nothing, where a value is optional. -/
  absent : Bool := false
  /-- A mapping without entries. -/
  blank : Bool := false

inductive Document where
  | scalar (s : Scalar)
  /-- A record may be written as the sequence of its fields. -/
  | sequence (items : List Document)
  | mapping (entries : List (String × Document))

namespace Document

mutual

/-- The tree of a JSON document: each scalar is taken for its own kind alone. -/
def ofJson : Json → Document
  | .null => .scalar { absent := true }
  | .bool b => .scalar { flag := some b }
  | .number n => .scalar { integer := n.toInt?, natural := n.toInt?.bind Int.toNat? }
  | .string s => .scalar { text := some s }
  | .array items => .sequence (ofItems items)
  | .object members => .mapping (ofMembers members)

def ofItems : List Json → List Document
  | [] => []
  | j :: js => ofJson j :: ofItems js

def ofMembers : List (String × Json) → List (String × Document)
  | [] => []
  | (name, j) :: rest => (name, ofJson j) :: ofMembers rest

end

def text? : Document → Option String
  | .scalar s => s.text
  | _ => none

def flag? : Document → Option Bool
  | .scalar s => s.flag
  | _ => none

/-- An integer of 64 bits with a sign. -/
def int64? : Document → Option Int64
  | .scalar s => s.integer.bind fun i =>
    if -0x8000000000000000 ≤ i ∧ i < 0x8000000000000000 then some (.ofInt i) else none
  | _ => none

/-- An integer of 64 bits without a sign. -/
def uint64? : Document → Option UInt64
  | .scalar s => s.natural.bind fun n => if n < 0x10000000000000000 then some (.ofNat n) else none
  | _ => none

def isAbsent : Document → Bool
  | .scalar s => s.absent
  | _ => false

def isBlank : Document → Bool
  | .scalar s => s.blank
  | _ => false

/-- A text, or nothing. -/
def optionalText? (d : Document) : Option (Option String) :=
  if d.isAbsent then some none else d.text?.map some

end Document
end ResourceSchema
