import ResourceSchema.Definition.Basic
import ResourceSchema.Definition.Document
import ResourceSchema.Json.Reader

/-!
# Reading definitions

A record is a mapping from its field names, each at most once and none unknown, or the sequence of
its fields in their order, of which the last ones may be missing. Of several members with one name
the last counts, at the place of the first. A malformed document has no definition.
-/

namespace ResourceSchema

/-- Names are pairwise distinct. -/
def distinctNames {α : Type} : List (String × α) → Bool
  | [] => true
  | (name, _) :: rest => (rest.lookup name).isNone && distinctNames rest

/-- The primitive type of a word. -/
def Ty.ofWord? : String → Option Ty
  | "string" => some .string
  | "number" => some .number
  | "bool" => some .bool
  | _ => none

mutual

/-- A primitive is a word, any other type a mapping with the word of the type alone. -/
def Ty.ofDocument? : Document → Option Ty
  | .scalar s => s.text.bind Ty.ofWord?
  | .mapping [(name, d)] =>
    match name with
    | "list" => (Ty.ofDocument? d).map .list
    | "set" => (Ty.ofDocument? d).map .set
    | "map" => (Ty.ofDocument? d).map .map
    | "object" =>
      match d with
      | .mapping entries => (Ty.attributesOfEntries? entries).map .ofAttributes
      | d => if d.isBlank then some (.object []) else none
    | name => if d.isAbsent then Ty.ofWord? name else none
  | _ => none

def Ty.attributesOfEntries? : List (String × Document) → Option (List (String × Ty))
  | [] => some []
  | (name, d) :: rest => do
    let t ← Ty.ofDocument? d
    return (name, t) :: (← Ty.attributesOfEntries? rest)

end

def NestingMode.ofWord? : String → Option NestingMode
  | "list" => some .list
  | "set" => some .set
  | "map" => some .map
  | "single" => some .single
  | _ => none

/-- A mode is a word, or a mapping from the word to nothing. -/
def NestingMode.ofDocument? : Document → Option NestingMode
  | .scalar s => s.text.bind ofWord?
  | .mapping [(name, d)] => if d.isAbsent then ofWord? name else none
  | _ => none

def BlockNesting.ofMode? : NestingMode → Option BlockNesting
  | .list => some .list
  | .set => some .set
  | .single => some .single
  | .map => none

/-- Sets the text field of a name. -/
def Documentation.setField? (name : String) (d : Document) (docs : Documentation) :
    Option Documentation := do
  let text ← d.optionalText?
  match name with
  | "description" => some { docs with description := text }
  | "markdown_description" => some { docs with markdownDescription := text }
  | "deprecation_message" => some { docs with deprecationMessage := text }
  | _ => none

/-- Sets the flag of a name. -/
def Flags.setField? (name : String) (d : Document) (flags : Flags) : Option Flags := do
  let flag ← d.flag?
  match name with
  | "required" => some { flags with required := flag }
  | "optional" => some { flags with optional := flag }
  | "computed" => some { flags with computed := flag }
  | "sensitive" => some { flags with sensitive := flag }
  | _ => none

def isDocumentationField (name : String) : Bool :=
  name == "description" || name == "markdown_description" || name == "deprecation_message"

namespace AttributeDef

/-- A nested group of which the mode may not have been read yet. -/
abbrev Group := Option NestingMode × List (String × AttributeDef)

def fieldNames : List String :=
  ["type", "nested", "required", "optional", "computed", "sensitive", "description",
    "markdown_description", "deprecation_message"]

def groupFieldNames : List String := ["nesting", "attributes"]

/-- A complete group. -/
def Group.close? : Group → Option (NestingMode × List (String × AttributeDef))
  | (some mode, members) => some (mode, members)
  | (none, _) => none

mutual

def ofDocument? : Document → Option AttributeDef
  | .mapping entries =>
    if distinctNames entries then setFields? entries .empty else none
  | .sequence items => setItems? fieldNames items .empty
  | .scalar s => if s.blank then some .empty else none

def setFields? : List (String × Document) → AttributeDef → Option AttributeDef
  | [], a => some a
  | (name, d) :: rest, a => do setFields? rest (← setField? name d a)

def setItems? : List String → List Document → AttributeDef → Option AttributeDef
  | _, [], a => some a
  | [], _ :: _, _ => none
  | name :: names, d :: ds, a => do setItems? names ds (← setField? name d a)

def setField? (name : String) (d : Document) (a : AttributeDef) : Option AttributeDef :=
  match name with
  | "type" =>
    if d.isAbsent then some { a with ty := none }
    else (Ty.ofDocument? d).map fun t => { a with ty := some t }
  | "nested" =>
    match d with
    | .mapping entries =>
      if distinctNames entries then
        ((setGroupFields? entries (none, [])).bind Group.close?).map
          fun group => { a with nested := some group }
      else none
    | .sequence items =>
      ((setGroupItems? groupFieldNames items (none, [])).bind Group.close?).map
        fun group => { a with nested := some group }
    | .scalar s => if s.absent then some { a with nested := none } else none
  | name =>
    if isDocumentationField name then
      (a.docs.setField? name d).map fun docs => { a with docs }
    else (a.flags.setField? name d).map fun flags => { a with flags }

def setGroupFields? : List (String × Document) → Group → Option Group
  | [], g => some g
  | (name, d) :: rest, g => do setGroupFields? rest (← setGroupField? name d g)

def setGroupItems? : List String → List Document → Group → Option Group
  | _, [], g => some g
  | [], _ :: _, _ => none
  | name :: names, d :: ds, g => do setGroupItems? names ds (← setGroupField? name d g)

def setGroupField? (name : String) (d : Document) (g : Group) : Option Group :=
  match name with
  | "nesting" => (NestingMode.ofDocument? d).map fun mode => (some mode, g.2)
  | "attributes" =>
    match d with
    | .mapping entries => (ofEntries? entries).map fun members => (g.1, Keyed.assigned members)
    | d => if d.isBlank then some (g.1, []) else none
  | _ => none

def ofEntries? : List (String × Document) → Option (List (String × AttributeDef))
  | [] => some []
  | (name, d) :: rest => do
    let a ← ofDocument? d
    return (name, a) :: (← ofEntries? rest)

end

/-- The attributes of a mapping. -/
def members? : Document → Option (List (String × AttributeDef))
  | .mapping entries => (ofEntries? entries).map Keyed.assigned
  | d => if d.isBlank then some [] else none

end AttributeDef

namespace BlockDef

/-- A block of which the nesting may not have been read yet; `rest` holds the other fields. -/
structure Partial where
  nesting : Option BlockNesting
  rest : BlockDef

namespace Partial

def empty : Partial := ⟨none, ⟨.list, 0, 0, .empty, [], []⟩⟩

/-- The block, once its nesting is known. -/
def close? (p : Partial) : Option BlockDef := p.nesting.map fun nesting => { p.rest with nesting }

end Partial

def fieldNames : List String :=
  ["nesting", "min_items", "max_items", "description", "markdown_description",
    "deprecation_message", "attributes", "blocks"]

mutual

def ofDocument? : Document → Option BlockDef
  | .mapping entries =>
    if distinctNames entries then (setFields? entries .empty).bind Partial.close? else none
  | .sequence items => (setItems? fieldNames items .empty).bind Partial.close?
  | .scalar _ => none

def setFields? : List (String × Document) → Partial → Option Partial
  | [], p => some p
  | (name, d) :: rest, p => do setFields? rest (← setField? name d p)

def setItems? : List String → List Document → Partial → Option Partial
  | _, [], p => some p
  | [], _ :: _, _ => none
  | name :: names, d :: ds, p => do setItems? names ds (← setField? name d p)

def setField? (name : String) (d : Document) (p : Partial) : Option Partial :=
  match name with
  | "nesting" =>
    ((NestingMode.ofDocument? d).bind BlockNesting.ofMode?).map
      fun nesting => { p with nesting := some nesting }
  | "min_items" => d.uint64?.map fun n => { p with rest := { p.rest with minItems := n } }
  | "max_items" => d.uint64?.map fun n => { p with rest := { p.rest with maxItems := n } }
  | "attributes" =>
    (AttributeDef.members? d).map fun members =>
      { p with rest := { p.rest with attributes := members } }
  | "blocks" =>
    match d with
    | .mapping entries =>
      (ofEntries? entries).map fun members =>
        { p with rest := { p.rest with blocks := Keyed.assigned members } }
    | d => if d.isBlank then some { p with rest := { p.rest with blocks := [] } } else none
  | name => (p.rest.docs.setField? name d).map fun docs => { p with rest := { p.rest with docs } }

def ofEntries? : List (String × Document) → Option (List (String × BlockDef))
  | [] => some []
  | (name, d) :: rest => do
    let b ← ofDocument? d
    return (name, b) :: (← ofEntries? rest)

end

/-- The blocks of a mapping. -/
def members? : Document → Option (List (String × BlockDef))
  | .mapping entries => (ofEntries? entries).map Keyed.assigned
  | d => if d.isBlank then some [] else none

end BlockDef

namespace SchemaDef

def fieldNames : List String :=
  ["version", "description", "markdown_description", "deprecation_message", "attributes", "blocks"]

def setField? (name : String) (d : Document) (s : SchemaDef) : Option SchemaDef :=
  match name with
  | "version" => d.int64?.map fun version => { s with version }
  | "attributes" => (AttributeDef.members? d).map fun attributes => { s with attributes }
  | "blocks" => (BlockDef.members? d).map fun blocks => { s with blocks }
  | name => (s.docs.setField? name d).map fun docs => { s with docs }

/-- The definition a document holds; `none` when the document is not accepted. -/
def ofDocument? : Document → Option SchemaDef
  | .mapping entries =>
    if distinctNames entries then
      entries.foldlM (fun s (name, d) => setField? name d s) .empty
    else none
  | .sequence items =>
    if items.length ≤ fieldNames.length then
      (fieldNames.zip items).foldlM (fun s (name, d) => setField? name d s) .empty
    else none
  | .scalar s => if s.blank then some .empty else none

/-- The definition that a JSON text holds; `none` when it is no document of one. -/
def ofText? (text : String) : Option SchemaDef :=
  ((Json.ofText? text).map Document.ofJson).bind ofDocument?

end SchemaDef
end ResourceSchema
