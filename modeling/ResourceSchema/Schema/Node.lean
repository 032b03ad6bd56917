import ResourceSchema.Path.Expr
import ResourceSchema.Schema.Basic
import ResourceSchema.Schema.Error
import ResourceSchema.Ty.Step

/-!
# Resolving paths

A path is resolved one step at a time from the root of a schema, each step leading from a node to a
node below it. Inside the type of a leaf attribute the types themselves take the steps.
-/

namespace ResourceSchema

/-- What a path may lead to. -/
inductive SchemaNode where
  | root (schema : Schema)
  | attr (a : Attribute)
  /-- One element of a group of attributes. -/
  | groupElement (members : List (String × Attribute))
  | block (b : Block)
  /-- One element of a block. -/
  | blockElement (b : Block)
  /-- A type inside the value of a leaf attribute. -/
  | type (t : Ty)

namespace SchemaNode

/-- Type of the values at a node. -/
def ty : SchemaNode → Ty
  | .root s => s.ty
  | .attr a => a.ty
  | .groupElement members => Attribute.objectTy members
  | .block b => b.ty
  | .blockElement b => b.objectTy
  | .type t => t

/-- Kind of step that a node takes; primitives take none. -/
def stepKind? : SchemaNode → Option StepKind
  | .root _ | .groupElement _ | .blockElement _ => some .name
  | .attr (.leaf t _) => t.childStep?
  | .attr (.group mode _ _) => some mode.stepKind
  | .block b => some b.nesting.mode.stepKind
  | .type t => t.childStep?

/-- The word for a node in messages. -/
def description : SchemaNode → String
  | .root _ => "schema root"
  | .attr _ => "attribute"
  | .groupElement _ => "nested attribute object"
  | .block _ => "block"
  | .blockElement _ => "block element"
  | .type _ => "value type"

/-- A step by name among attributes and blocks, attributes first. -/
def member (attributes : List (String × Attribute)) (blocks : List (String × Block))
    (step : PathStep) : Except StepError SchemaNode :=
  let target := Block.objectTyOf attributes blocks
  match step with
  | .name name =>
    match attributes.lookup name, blocks.lookup name with
    | some a, _ => .ok (.attr a)
    | none, some b => .ok (.block b)
    | none, none => .error (.noSuchAttribute name target)
  | step => .error (.unexpectedStep step target .name)

/-- A step into a collection, whose elements are `element`; a single object takes the step to a
member itself. -/
def collected (mode : NestingMode) (target : Ty) (element : SchemaNode)
    (single : Except StepError SchemaNode) (step : PathStep) : Except StepError SchemaNode :=
  match mode, step with
  | .list, .index i => if i < 0 then .error (.negativeIndex i) else .ok element
  | .set, .element _ | .map, .key _ => .ok element
  | .single, .name _ => single
  | mode, step => .error (.unexpectedStep step target mode.stepKind)

/-- The node a step leads to. -/
def step (node : SchemaNode) (s : PathStep) : Except StepError SchemaNode :=
  match node with
  | .root schema => member schema.attributes schema.blocks s
  | .attr (.leaf t _) => (t.step s).map .type
  | .attr (.group mode members traits) =>
    collected mode (Attribute.group mode members traits).ty (.groupElement members)
      (member members [] s) s
  | .groupElement members => member members [] s
  | .block b => collected b.nesting.mode b.ty (.blockElement b) (member b.attributes b.blocks s) s
  | .blockElement b => member b.attributes b.blocks s
  | .type t => (t.step s).map .type

/-- The node a path leads to from `node`, which stands at the path `consumed`. -/
def resolveFrom (consumed : Path) (node : SchemaNode) : Path → Except ResolveError SchemaNode
  | [] => .ok node
  | s :: rest =>
    match node.step s with
    | .ok next => resolveFrom (consumed ++ [s]) next rest
    | .error source => .error (.step consumed s rest source)

end SchemaNode

namespace Schema

/-- The node a path leads to. -/
def nodeAt (schema : Schema) (p : Path) : Except ResolveError SchemaNode :=
  SchemaNode.resolveFrom [] (.root schema) p

/-- Type of the values at a path. -/
def typeAt (schema : Schema) (p : Path) : Except ResolveError Ty := do
  return (← schema.nodeAt p).ty

/-- The attribute a path leads to. -/
def attributeAt (schema : Schema) (p : Path) : Except ResolveError Attribute := do
  match ← schema.nodeAt p with
  | .attr a => return a
  | .type _ => .error (.insideAtomicAttribute p)
  | .block _ => .error (.isBlock p)
  | node => .error (.isNotAttribute p node.description)

/-- The block a path leads to. -/
def blockAt (schema : Schema) (p : Path) : Except ResolveError Block := do
  match ← schema.nodeAt p with
  | .block b => return b
  | _ => .error (.isNotBlock p)

/-- A step of the given kind that stands for all of them at a node: the first index, the empty key,
a null element. No step stands for all names; an index is refused wherever a name is due. -/
def representative (node : SchemaNode) : StepKind → PathStep
  | .key => .key ""
  | .element => .element (.null (node.ty.element?.getD .string))
  | .index | .name => .index 0

/-- The step that stands for a step of an expression at a node. -/
def concrete (node : SchemaNode) : ExprStep → PathStep
  | .exact s => s
  | .anyIndex => representative node .index
  | .anyKey => representative node .key
  | .anyElement => representative node .element
  | .anyChild | .parent => representative node (node.stepKind?.getD .index)

/-- The type that the steps of an expression lead to from a node at the path `consumed`. -/
def typeAtSteps (consumed : Path) (node : SchemaNode) : List ExprStep → Except ResolveError Ty
  | [] => .ok node.ty
  | e :: rest =>
    let s := concrete node e
    match node.step s with
    | .ok next => typeAtSteps (consumed ++ [s]) next rest
    | .error source => .error (.step consumed s [] source)

/-- Type of the values at the paths of an expression, a relative one starting from the root. -/
def typeAtExpr (schema : Schema) (e : PathExpr) : Except ResolveError Ty :=
  typeAtSteps [] (.root schema) (e.merge []).resolve.allSteps

end Schema
end ResourceSchema
