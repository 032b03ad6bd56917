import ResourceSchema.Schema.Draft

/-!
# Schema definitions

A definition is the file form of a schema: the same tree, not checked yet and without behaviour. It
is built through drafts, so a file meets the checks of any other schema; errors carry the full path
of the offending node.
-/

namespace ResourceSchema

structure AttributeDef where
  ty : Option Ty
  nested : Option (NestingMode × List (String × AttributeDef))
  flags : Flags
  docs : Documentation

def AttributeDef.empty : AttributeDef := ⟨none, none, .none, .empty⟩

structure BlockDef where
  nesting : BlockNesting
  minItems : UInt64
  maxItems : UInt64
  docs : Documentation
  attributes : List (String × AttributeDef)
  blocks : List (String × BlockDef)

structure SchemaDef where
  version : Int64
  docs : Documentation
  attributes : List (String × AttributeDef)
  blocks : List (String × BlockDef)

def SchemaDef.empty : SchemaDef := ⟨0, .empty, [], []⟩

/-- Members that have all been built. -/
def Members.ofBuilt {α : Type} (members : List (String × α)) : Members α :=
  members.map fun (name, a) => (name, .ok a)

namespace AttributeDef

mutual

/-- Builds the attribute that stands at `path`. -/
def build (path : Path) : AttributeDef → Except SchemaError Attribute
  | ⟨ty, nested, flags, docs⟩ => do
    let members ← match nested with
      | some (mode, defs) => do pure (some (mode, Members.ofBuilt (← buildMembers path defs)))
      | none => pure none
    (AttributeDraft.build ⟨ty, members, ⟨flags, docs, .none⟩⟩).mapError (·.under path)

def buildMembers (path : Path) :
    List (String × AttributeDef) → Except SchemaError (List (String × Attribute))
  | [] => .ok []
  | (name, d) :: rest => do
    let a ← d.build (path ++ [.name name])
    return (name, a) :: (← buildMembers path rest)

end

mutual

/-- The definition of an attribute. -/
def ofAttribute : Attribute → AttributeDef
  | .leaf ty traits => ⟨some ty, none, traits.flags, traits.docs⟩
  | .group mode members traits =>
    ⟨none, some (mode, ofMembers members), traits.flags, traits.docs⟩

def ofMembers : List (String × Attribute) → List (String × AttributeDef)
  | [] => []
  | (name, a) :: rest => (name, ofAttribute a) :: ofMembers rest

end
end AttributeDef

namespace BlockDef

mutual

/-- Builds the block that stands at `path`. -/
def build (path : Path) : BlockDef → Except SchemaError Block
  | ⟨nesting, minItems, maxItems, docs, attributes, blocks⟩ => do
    let attributes ← AttributeDef.buildMembers path attributes
    let blocks ← buildMembers path blocks
    (BlockDraft.build ⟨nesting, .ofBuilt attributes, .ofBuilt blocks,
      ⟨minItems, maxItems, docs, .none⟩⟩).mapError (·.under path)

def buildMembers (path : Path) :
    List (String × BlockDef) → Except SchemaError (List (String × Block))
  | [] => .ok []
  | (name, d) :: rest => do
    let b ← d.build (path ++ [.name name])
    return (name, b) :: (← buildMembers path rest)

end

mutual

/-- The definition of a block. -/
def ofBlock : Block → BlockDef
  | ⟨nesting, attributes, blocks, traits⟩ =>
    ⟨nesting, traits.minItems, traits.maxItems, traits.docs, AttributeDef.ofMembers attributes,
      ofMembers blocks⟩

def ofMembers : List (String × Block) → List (String × BlockDef)
  | [] => []
  | (name, b) :: rest => (name, ofBlock b) :: ofMembers rest

end
end BlockDef

namespace SchemaDef

/-- A draft with all members built, to which behaviour can be attached. -/
def toDraft (d : SchemaDef) : Except SchemaError SchemaDraft := do
  let attributes ← AttributeDef.buildMembers [] d.attributes
  let blocks ← BlockDef.buildMembers [] d.blocks
  return ⟨d.version, .ofBuilt attributes, .ofBuilt blocks, d.docs⟩

/-- The schema a definition describes. -/
def build (d : SchemaDef) : Except SchemaError Schema := do (← d.toDraft).build

/-- The definition of a schema. -/
def ofSchema (s : Schema) : SchemaDef :=
  ⟨s.version, s.docs, AttributeDef.ofMembers s.attributes, BlockDef.ofMembers s.blocks⟩

end SchemaDef
end ResourceSchema
