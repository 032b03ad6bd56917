import ResourceSchema.Value.Basic

/-!
# Paths

A path is a list of steps from the root of a schema or a value. The empty path is the root itself.
-/

namespace ResourceSchema

/-- What a step addresses its target by. -/
inductive StepKind where
  | name
  | index
  | key
  | element
deriving DecidableEq

/-- The kind in messages. -/
def StepKind.text : StepKind → String
  | .name => "an attribute name"
  | .index => "a list index"
  | .key => "a map key"
  | .element => "a set element value"

/-- One step: to an attribute by name, a list element by index, a map element by key, or a set
element by its whole value. -/
inductive PathStep where
  | name (name : String)
  | index (index : Int)
  | key (key : String)
  | element (value : Value)

namespace PathStep

def kind : PathStep → StepKind
  | .name _ => .name
  | .index _ => .index
  | .key _ => .key
  | .element _ => .element

/-- Equality, by equality of values for set elements. -/
def same : PathStep → PathStep → Bool
  | .name n, .name m => n == m
  | .index i, .index j => i == j
  | .key k, .key l => k == l
  | .element v, .element w => v.same w
  | _, _ => false

def name? : PathStep → Option String
  | .name n => some n
  | _ => none

/-- A character of a map key: the quote and the backslash take a backslash before them. -/
def escapeKey (c : Char) : List Char :=
  if c == '"' || c == '\\' then ['\\', c] else [c]

def text : PathStep → String
  | .name n => n
  | .index i => "[" ++ toString i ++ "]"
  | .key k => String.ofList ("[\"".toList ++ k.toList.flatMap escapeKey ++ "\"]".toList)
  | .element v => "[Value(" ++ v.text ++ ")]"

end PathStep

abbrev Path := List PathStep

namespace Path

def ofName (name : String) : Path := [.name name]

/-- A name has a point before it except at the start of a path. -/
def stepText (first : Bool) : PathStep → String
  | .name n => if first then n else "." ++ n
  | step => step.text

/-- The text of a path: `tags["env"].value`. -/
def text : Path → String
  | [] => ""
  | step :: rest => stepText true step ++ String.join (rest.map (stepText false))

/-- Equality, step by step. -/
def same (p q : Path) : Bool := p.isEqv q PathStep.same

/-- The path without its last step. -/
def parent? (p : Path) : Option Path := if p.isEmpty then none else some p.dropLast

/-- `q` starts with the steps of `p`. -/
def isInitialOf (p q : Path) : Bool := p.length ≤ q.length && same p (q.take p.length)

/-- `q` leads further than `p`, starting with its steps. -/
def isAncestorOf (p q : Path) : Bool := p.length < q.length && isInitialOf p q

/-- The steps that two paths share from the root. -/
def common : Path → Path → Path
  | a :: p, b :: q => if a.same b then a :: common p q else []
  | _, _ => []

end Path
end ResourceSchema
