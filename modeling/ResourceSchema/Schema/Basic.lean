import ResourceSchema.Schema.Behaviour

/-!
# Schemas

A schema describes a resource: attributes and blocks by name, in order of declaration. An attribute
holds values of one type or a group of further attributes; a block groups attributes and blocks and
has bounds on its count. Equality compares the shape alone: names in any order, without behaviour.
-/

namespace ResourceSchema

/-- How instances of a group of attributes are collected. -/
inductive NestingMode where
  | list
  | set
  | map
  | single
deriving DecidableEq

namespace NestingMode

def text : NestingMode → String
  | .list => "list"
  | .set => "set"
  | .map => "map"
  | .single => "single"

/-- Kind of step from a collection to its element, or from a single object to its member. -/
def stepKind : NestingMode → StepKind
  | .list => .index
  | .set => .element
  | .map => .key
  | .single => .name

/-- Type of the collected objects. -/
def wrap (mode : NestingMode) (object : Ty) : Ty :=
  match mode with
  | .list => .list object
  | .set => .set object
  | .map => .map object
  | .single => object

end NestingMode

/-- How instances of a block are collected. -/
inductive BlockNesting where
  | list
  | set
  | single
deriving DecidableEq

def BlockNesting.mode : BlockNesting → NestingMode
  | .list => .list
  | .set => .set
  | .single => .single

/-- Texts about a node. -/
structure Documentation where
  description : Option String
  markdownDescription : Option String
  deprecationMessage : Option String
deriving DecidableEq

def Documentation.empty : Documentation := ⟨none, none, none⟩

/-- Who may or must set an attribute, and whether its value is shown. -/
structure Flags where
  required : Bool
  optional : Bool
  computed : Bool
  sensitive : Bool
deriving DecidableEq

def Flags.none : Flags := ⟨false, false, false, false⟩

/-- What an attribute has besides its kind. -/
structure AttributeTraits where
  flags : Flags
  docs : Documentation
  behaviour : Behaviour

inductive Attribute where
  | leaf (ty : Ty) (traits : AttributeTraits)
  | group (mode : NestingMode) (members : List (String × Attribute)) (traits : AttributeTraits)

/-- What a block has besides its members; a maximum of zero is no bound. -/
structure BlockTraits where
  minItems : UInt64
  maxItems : UInt64
  docs : Documentation
  behaviour : Behaviour

structure Block where
  nesting : BlockNesting
  attributes : List (String × Attribute)
  blocks : List (String × Block)
  traits : BlockTraits

/-- An attribute or a block. -/
inductive Member where
  | attr (a : Attribute)
  | block (b : Block)

structure Schema where
  version : Int64
  attributes : List (String × Attribute)
  blocks : List (String × Block)
  docs : Documentation

namespace Attribute

def traits : Attribute → AttributeTraits
  | .leaf _ traits | .group _ _ traits => traits

def flags (a : Attribute) : Flags := a.traits.flags

def docs (a : Attribute) : Documentation := a.traits.docs

def withTraits : Attribute → AttributeTraits → Attribute
  | .leaf ty _, traits => .leaf ty traits
  | .group mode members _, traits => .group mode members traits

mutual

/-- Type of the values of an attribute. -/
def ty : Attribute → Ty
  | .leaf t _ => t
  | .group mode members _ => mode.wrap (.ofAttributes (memberTypes members))

def memberTypes : List (String × Attribute) → List (String × Ty)
  | [] => []
  | (name, a) :: rest => (name, a.ty) :: memberTypes rest

end

/-- Type of an object with the given attributes. -/
def objectTy (members : List (String × Attribute)) : Ty := .ofAttributes (memberTypes members)

mutual

/-- Equality of shape. -/
def same : Attribute → Attribute → Bool
  | .leaf t traits, .leaf u traits' =>
    t == u && traits.flags == traits'.flags && traits.docs == traits'.docs
  | .group mode members traits, .group mode' members' traits' =>
    mode == mode' && members.length == members'.length && sameMembers members members' &&
      traits.flags == traits'.flags && traits.docs == traits'.docs
  | _, _ => false

/-- Each member equals the one of its name among the others. -/
def sameMembers : List (String × Attribute) → List (String × Attribute) → Bool
  | [], _ => true
  | (name, a) :: rest, others =>
    (match others.lookup name with
      | some b => a.same b
      | none => false) && sameMembers rest others

end
end Attribute

def Member.behaviour : Member → Behaviour
  | .attr a => a.traits.behaviour
  | .block b => b.traits.behaviour

namespace Block

mutual

/-- Type of the values of a block. -/
def ty : Block → Ty
  | ⟨nesting, attributes, blocks, _⟩ =>
    nesting.mode.wrap (.ofAttributes (Attribute.memberTypes attributes ++ memberTypes blocks))

def memberTypes : List (String × Block) → List (String × Ty)
  | [] => []
  | (name, b) :: rest => (name, b.ty) :: memberTypes rest

end

/-- Type of an object with the given attributes and blocks. -/
def objectTyOf (attributes : List (String × Attribute)) (blocks : List (String × Block)) : Ty :=
  .ofAttributes (Attribute.memberTypes attributes ++ memberTypes blocks)

/-- Type of one element. -/
def objectTy (b : Block) : Ty := objectTyOf b.attributes b.blocks

mutual

/-- Equality of shape. -/
def same : Block → Block → Bool
  | ⟨nesting, attributes, blocks, traits⟩, ⟨nesting', attributes', blocks', traits'⟩ =>
    nesting == nesting' && attributes.length == attributes'.length &&
      Attribute.sameMembers attributes attributes' && blocks.length == blocks'.length &&
      sameMembers blocks blocks' && traits.minItems == traits'.minItems &&
      traits.maxItems == traits'.maxItems && traits.docs == traits'.docs

/-- Each block equals the one of its name among the others. -/
def sameMembers : List (String × Block) → List (String × Block) → Bool
  | [], _ => true
  | (name, b) :: rest, others =>
    (match others.lookup name with
      | some c => b.same c
      | none => false) && sameMembers rest others

end
end Block

namespace Schema

/-- Type of a whole resource. -/
def ty (s : Schema) : Ty := Block.objectTyOf s.attributes s.blocks

/-- Equality of shape. -/
def same (s t : Schema) : Bool :=
  s.version == t.version && s.attributes.length == t.attributes.length &&
    Attribute.sameMembers s.attributes t.attributes && s.blocks.length == t.blocks.length &&
    Block.sameMembers s.blocks t.blocks && s.docs == t.docs

end Schema
end ResourceSchema
