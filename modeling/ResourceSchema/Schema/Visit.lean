import ResourceSchema.Schema.Basic
import ResourceSchema.Value.Access

/-!
# Visiting data along a schema

The attributes and blocks of a schema that are present in a value, with their paths and their
values: depth first, in order of declaration, attributes before blocks, and once for each element
of a collection.
-/

namespace ResourceSchema

structure Visit where
  path : Path
  member : Member
  value : Value

/-- The objects collected in the value of a group or a block: the value itself or its children. -/
def collectedObjects (path : Path) : Value → List (Path × Value)
  | .object fields => [(path, .object fields)]
  | v => v.children.map fun (s, child) => (path ++ [s], child)

/-- The fields of an object; none when the value is not a known object. -/
def objectFields : Value → List (String × Value)
  | .object fields => fields
  | _ => []

namespace Attribute

mutual

/-- Visits of an attribute and of what is nested in it. -/
def visits (path : Path) (v : Value) : Attribute → List Visit
  | .leaf t traits => [⟨path, .attr (.leaf t traits), v⟩]
  | .group mode members traits =>
    ⟨path, .attr (.group mode members traits), v⟩ ::
      (collectedObjects path v).flatMap fun (p, object) =>
        memberVisits p (objectFields object) members

/-- Visits of the attributes of one object. -/
def memberVisits (path : Path) (fields : List (String × Value)) :
    List (String × Attribute) → List Visit
  | [] => []
  | (name, a) :: rest =>
    (match fields.lookup name with
      | some v => visits (path ++ [.name name]) v a
      | none => []) ++ memberVisits path fields rest

end
end Attribute

namespace Block

mutual

/-- Visits of a block and of what is nested in it. -/
def visits (path : Path) (v : Value) : Block → List Visit
  | ⟨nesting, attributes, blocks, traits⟩ =>
    ⟨path, .block ⟨nesting, attributes, blocks, traits⟩, v⟩ ::
      (collectedObjects path v).flatMap fun (p, object) =>
        Attribute.memberVisits p (objectFields object) attributes ++
          memberVisits p (objectFields object) blocks

/-- Visits of the blocks of one object. -/
def memberVisits (path : Path) (fields : List (String × Value)) :
    List (String × Block) → List Visit
  | [] => []
  | (name, b) :: rest =>
    (match fields.lookup name with
      | some v => visits (path ++ [.name name]) v b
      | none => []) ++ memberVisits path fields rest

end
end Block

/-- Visits of all attributes and blocks in a value of a whole resource. -/
def Schema.visits (schema : Schema) (v : Value) : List Visit :=
  Attribute.memberVisits [] (objectFields v) schema.attributes ++
    Block.memberVisits [] (objectFields v) schema.blocks

end ResourceSchema
