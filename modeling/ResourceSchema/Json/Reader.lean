import ResourceSchema.Json.Basic
import ResourceSchema.Json.Lexeme

/-!
# Reading JSON texts

The reader takes one lexeme at a time. Its state says what may come next, over the stack of arrays
and objects that are still open. Brackets nest at most 127 deep.
-/

namespace ResourceSchema.Json

/-- An open array or object with what it holds so far, newest first. -/
inductive Frame where
  | array (items : List Json)
  /-- An object that waits for the value of `name`. -/
  | object (members : List (String × Json)) (name : String)

/-- What may come next. -/
inductive Pending where
  /-- A value. -/
  | value
  /-- The first item of an array, or its end. -/
  | item
  /-- The name of a member; the end of the object too when it is `empty`. -/
  | name (members : List (String × Json)) (empty : Bool)
  /-- The colon after a name. -/
  | colon (members : List (String × Json)) (name : String)
  /-- A separator or an end, after a complete value. -/
  | after (value : Json)

structure Reader where
  stack : List Frame
  pending : Pending

namespace Reader

/-- Greatest number of open brackets. -/
def depthLimit : Nat := 127

/-- The value of a bare word. -/
def word? (w : String) : Option Json :=
  if w == "null" then some .null
  else if w == "true" then some (.bool true)
  else if w == "false" then some (.bool false)
  else (Number.ofText? w).map .number

/-- Takes the first lexeme of a value. -/
def start? (stack : List Frame) : Lexeme → Option Reader
  | .quoted s => some ⟨stack, .after (.string s)⟩
  | .word w => (word? w).map fun j => ⟨stack, .after j⟩
  | .mark '[' => if stack.length < depthLimit then some ⟨stack, .item⟩ else none
  | .mark '\x7b' => if stack.length < depthLimit then some ⟨stack, .name [] true⟩ else none
  | .mark _ => none

/-- Takes one lexeme. -/
def step? (r : Reader) (lexeme : Lexeme) : Option Reader :=
  match r.pending, lexeme with
  | .value, lexeme => start? r.stack lexeme
  | .item, .mark ']' => some ⟨r.stack, .after (.array [])⟩
  | .item, lexeme => start? (.array [] :: r.stack) lexeme
  | .name members _, .quoted name => some ⟨r.stack, .colon members name⟩
  | .name _ true, .mark '\x7d' => some ⟨r.stack, .after (.object [])⟩
  | .colon members name, .mark ':' => some ⟨.object members name :: r.stack, .value⟩
  | .after value, .mark c =>
    match r.stack, c with
    | .array items :: rest, ',' => some ⟨.array (value :: items) :: rest, .value⟩
    | .array items :: rest, ']' => some ⟨rest, .after (.array (value :: items).reverse)⟩
    | .object members name :: rest, ',' => some ⟨rest, .name ((name, value) :: members) false⟩
    | .object members name :: rest, '\x7d' =>
      some ⟨rest, .after (.object ((name, value) :: members).reverse)⟩
    | _, _ => none
  | _, _ => none

/-- The document, once it is complete. -/
def result? : Reader → Option Json
  | ⟨[], .after value⟩ => some value
  | _ => none

end Reader

/-- The document a text holds; `none` when the text is malformed. -/
def ofText? (text : String) : Option Json := do
  let lexemes ← Lexeme.ofText? text
  (← lexemes.foldlM Reader.step? ⟨[], .value⟩).result?

end ResourceSchema.Json
