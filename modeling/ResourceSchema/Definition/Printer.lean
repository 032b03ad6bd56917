import ResourceSchema.Definition.Basic
import ResourceSchema.Json.Printer

/-!
# Documents of definitions

Fields appear in a fixed order, and only when they say something; a nested group always lists its
attributes.
-/

namespace ResourceSchema

/-- A member for a text that may be absent. -/
def textMember (name : String) : Option String → List (String × Json)
  | some s => [(name, .string s)]
  | none => []

/-- A member for a flag that is set. -/
def flagMember (name : String) (flag : Bool) : List (String × Json) :=
  if flag then [(name, .bool true)] else []

/-- A member for a count other than zero. -/
def countMember (name : String) (n : UInt64) : List (String × Json) :=
  if n = 0 then [] else [(name, .number (.ofUInt64 n))]

/-- A member for an object with members. -/
def objectMember (name : String) (members : List (String × Json)) : List (String × Json) :=
  if members.isEmpty then [] else [(name, .object members)]

def Documentation.members (d : Documentation) : List (String × Json) :=
  textMember "description" d.description ++
    textMember "markdown_description" d.markdownDescription ++
    textMember "deprecation_message" d.deprecationMessage

def Flags.members (f : Flags) : List (String × Json) :=
  flagMember "required" f.required ++ flagMember "optional" f.optional ++
    flagMember "computed" f.computed ++ flagMember "sensitive" f.sensitive

mutual

def AttributeDef.toJson : AttributeDef → Json
  | ⟨ty, nested, flags, docs⟩ =>
    let tyMember := match ty with
      | some t => [("type", t.toJson)]
      | none => []
    let nestedMember := match nested with
      | some (mode, defs) =>
        [("nested", .object
          [("nesting", .string mode.text), ("attributes", .object (attributeMembers defs))])]
      | none => []
    .object (tyMember ++ nestedMember ++ flags.members ++ docs.members)

def attributeMembers : List (String × AttributeDef) → List (String × Json)
  | [] => []
  | (name, d) :: rest => (name, d.toJson) :: attributeMembers rest

end

mutual

def BlockDef.toJson : BlockDef → Json
  | ⟨nesting, minItems, maxItems, docs, attributes, blocks⟩ =>
    .object ([("nesting", .string nesting.mode.text)] ++ countMember "min_items" minItems ++
      countMember "max_items" maxItems ++ docs.members ++
      objectMember "attributes" (attributeMembers attributes) ++
      objectMember "blocks" (blockMembers blocks))

def blockMembers : List (String × BlockDef) → List (String × Json)
  | [] => []
  | (name, d) :: rest => (name, d.toJson) :: blockMembers rest

end

def SchemaDef.toJson (d : SchemaDef) : Json :=
  .object ([("version", .number (.ofInt64 d.version))] ++ d.docs.members ++
    objectMember "attributes" (attributeMembers d.attributes) ++
    objectMember "blocks" (blockMembers d.blocks))

/-- The JSON text of a definition. -/
def SchemaDef.text (d : SchemaDef) : String := d.toJson.pretty

end ResourceSchema
