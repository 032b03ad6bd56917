import ResourceSchema.Json.Basic
import ResourceSchema.Text.Quoted

/-!
# Host shapes

A host program takes values in shapes of its own: texts, flags, integers of a width, records. A
document is read exactly as its shape says: no number is cut, and only a whole number is an integer.
-/

namespace ResourceSchema.Host

/-- Why a document does not fit a shape of the host, or a host value has no document. -/
inductive Mismatch where
  | invalidType (found : Json) (wanted : String)
  | integerOutOfRange (value : Int) (wanted : String)
  | missingField (name : String)
  | invalidLength (length : Nat) (wanted : String)
  | numberOutOfRange
  | keyNotText

/-- A document in the words of a mismatch. -/
def described : Json → String
  | .null => "null"
  | .bool b => "boolean \x60" ++ (if b then "true" else "false") ++ "\x60"
  | .number (.integer i h) => "integer \x60" ++ (Number.integer i h).text ++ "\x60"
  | .number (.float x) => "floating point \x60" ++ x.documentText ++ "\x60"
  | .string s => "string " ++ Text.quoted s
  | .array _ => "sequence"
  | .object _ => "map"

def Mismatch.message : Mismatch → String
  | .invalidType found wanted => "invalid type: " ++ described found ++ ", expected " ++ wanted
  | .integerOutOfRange i wanted =>
    "invalid value: integer \x60" ++ toString i ++ "\x60, expected " ++ wanted
  | .missingField name => "missing field \x60" ++ name ++ "\x60"
  | .invalidLength length wanted =>
    "invalid length " ++ toString length ++ ", expected " ++ wanted
  | .numberOutOfRange => "number out of range"
  | .keyNotText => "key must be a string"

inductive Shape where
  | text
  | flag
  | unsigned (bits : Nat)
  | signed (bits : Nat)
  | real
  | optional (shape : Shape)
  | sequence (shape : Shape)
  | mapping (shape : Shape)
  /-- Fields in order of their names. -/
  | record (name : String) (fields : List (String × Shape))
  | document

namespace Shape

/-- The shape in messages. -/
def wanted : Shape → String
  | .text => "a string"
  | .flag => "a boolean"
  | .unsigned bits => "u" ++ toString bits
  | .signed bits => "i" ++ toString bits
  | .real => "f64"
  | .optional shape => shape.wanted
  | .sequence _ => "a sequence"
  | .mapping _ => "a map"
  | .record name _ => "struct " ++ name
  | .document => "any document"

/-- Reads an integer between two limits, the upper one excluded. -/
def readInteger (wanted : String) (low high : Int) (j : Json) : Except Mismatch Json :=
  match j with
  | .number (.integer i h) =>
    if low ≤ i ∧ i < high then .ok (.number (.integer i h))
    else .error (.integerOutOfRange i wanted)
  | j => .error (.invalidType j wanted)

/-- The fields of a record, each of which has to be there. -/
def requireFields : List (String × Option Json) → Except Mismatch (List (String × Json))
  | [] => .ok []
  | (name, none) :: _ => .error (.missingField name)
  | (name, some j) :: rest => do return (name, j) :: (← requireFields rest)

mutual

/-- Reads a canonical document in a shape; the answer is the document of the host value. -/
def read (shape : Shape) (j : Json) : Except Mismatch Json :=
  match shape with
  | .text =>
    match j with
    | .string s => .ok (.string s)
    | j => .error (.invalidType j (wanted .text))
  | .flag =>
    match j with
    | .bool b => .ok (.bool b)
    | j => .error (.invalidType j (wanted .flag))
  | .unsigned bits => readInteger (wanted (.unsigned bits)) 0 (Nat.pow 2 bits) j
  | .signed bits => readInteger (wanted (.signed bits))
    (-(Nat.pow 2 (bits - 1) : Int)) (Nat.pow 2 (bits - 1)) j
  | .real =>
    match j with
    | .number n => .ok (.number (.float n.toBinary64))
    | j => .error (.invalidType j (wanted .real))
  | .optional shape =>
    match j with
    | .null => .ok .null
    | j => shape.read j
  | .sequence shape =>
    match j with
    | .array items => do return .array (← items.mapM fun j => shape.read j)
    | j => .error (.invalidType j (wanted (.sequence shape)))
  | .mapping shape =>
    match j with
    | .object members => do
      return .object (← members.mapM fun (name, j) => do return (name, ← shape.read j))
    | j => .error (.invalidType j (wanted (.mapping shape)))
  | .record name fields =>
    match j with
    | .object members => do return .object (← requireFields (← readMembers members fields))
    | .array items => do
      let (read, rest) ← readItems name fields.length 0 items fields
      if rest.isEmpty then return .object read
      else .error (.invalidLength items.length "fewer elements in array")
    | j => .error (.invalidType j (wanted (.record name fields)))
  | .document => .ok j

/-- Reads the members of the fields' names; members of other names are passed over. -/
def readMembers (members : List (String × Json)) :
    List (String × Shape) → Except Mismatch (List (String × Option Json))
  | [] => .ok []
  | (name, shape) :: rest => do
    let field ← match members.lookup name with
      | some j => do pure (some (← shape.read j))
      | none => pure none
    return (name, field) :: (← readMembers members rest)

/-- Reads one item for each field, and returns the items left over too. -/
def readItems (record : String) (count done : Nat) (items : List Json) :
    List (String × Shape) → Except Mismatch (List (String × Json) × List Json)
  | [] => .ok ([], items)
  | (name, shape) :: rest =>
    match items with
    | [] =>
      .error (.invalidLength done
        ("struct " ++ record ++ " with " ++ toString count ++ " elements"))
    | j :: items => do
      let field ← shape.read j
      let (fields, left) ← readItems record count (done + 1) items rest
      return ((name, field) :: fields, left)

end
end Shape

/-- A value of the host on its way to a document. -/
inductive Datum where
  | real (x : Extended)
  | integer (i : Int)
  | text (s : String)
  | flag (b : Bool)
  | document (j : Json)
  | sequence (items : List Datum)
  | record (fields : List (String × Datum))
  | mapping (entries : List (Datum × Datum))

namespace Datum

/-- The text of a map key. -/
def keyText? : Datum → Option String
  | .text s => some s
  | .flag b => some (if b then "true" else "false")
  | .integer i => some (toString i)
  | _ => none

mutual

/-- The document of a host value. Numbers that are not finite become null. -/
def toJson : Datum → Except Mismatch Json
  | .real x => .ok (x.finite?.elim .null fun x => .number (.float x))
  | .integer i => (Number.ofInt? i).elim (.error .numberOutOfRange) fun n => .ok (.number n)
  | .text s => .ok (.string s)
  | .flag b => .ok (.bool b)
  | .document j => .ok j
  | .sequence items => do return .array (← itemsJson items)
  | .record fields => do return .object (← fieldsJson fields)
  | .mapping entries => do return .object (← entriesJson entries)

def itemsJson : List Datum → Except Mismatch (List Json)
  | [] => .ok []
  | d :: ds => do return (← d.toJson) :: (← itemsJson ds)

def fieldsJson : List (String × Datum) → Except Mismatch (List (String × Json))
  | [] => .ok []
  | (name, d) :: rest => do return (name, ← d.toJson) :: (← fieldsJson rest)

def entriesJson : List (Datum × Datum) → Except Mismatch (List (String × Json))
  | [] => .ok []
  | (key, d) :: rest =>
    match key.keyText? with
    | none => .error .keyNotText
    | some name => do return (name, ← d.toJson) :: (← entriesJson rest)

end
end Datum
end ResourceSchema.Host
