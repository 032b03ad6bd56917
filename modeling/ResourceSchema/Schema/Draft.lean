import ResourceSchema.Schema.Basic
import ResourceSchema.Schema.Error

/-!
# Building schemas

A draft collects the parts of an attribute, a block or a schema in any combination, its members each
built or failed. Building checks the rules of names, constraints and bounds, and reports the first
violation; the error of a failed member appears under the name of that member.
-/

namespace ResourceSchema

/-- Members collected by a draft, by name in order of declaration. -/
abbrev Members (α : Type) := List (String × Except SchemaError α)

/-- A lowercase identifier: not empty, of lowercase ASCII letters, digits and underscores. -/
def isMemberName (name : String) : Bool :=
  !name.isEmpty && name.toList.all fun c => c.isLower || c.isDigit || c == '_'

namespace Members

variable {α : Type}

/-- Takes the members one by one: the name is valid, the member was built, the name is new. -/
def check (seen : List (String × α)) : Members α → Except SchemaError (List (String × α))
  | [] => .ok seen
  | (name, member) :: rest =>
    if !isMemberName name then .error (.invalidName [] name)
    else
      match member with
      | .error e => .error (e.under (.ofName name))
      | .ok a =>
        if (seen.lookup name).isSome then .error (.duplicateName [] name)
        else check (seen ++ [(name, a)]) rest

/-- All members, provided that names are valid and distinct and none has failed. -/
def build (members : Members α) : Except SchemaError (List (String × α)) := members.check []

/-- The member added last under a name, if it was built. -/
def last? (name : String) (members : Members α) : Option α :=
  (members.reverse.lookup name).bind Except.toOption

/-- Changes the member added last under a name; `none` when there is none, it has failed, or `f`
gives nothing for it. -/
def updateLast? (name : String) (f : α → Option α) (members : Members α) : Option (Members α) :=
  go members.reverse |>.map List.reverse
where
  go : Members α → Option (Members α)
    | [] => none
    | (n, member) :: rest =>
      if n = name then
        (member.toOption.bind f).map fun a => (n, .ok a) :: rest
      else (go rest).map ((n, member) :: ·)

end Members

/-- Changes the first member of a name; `none` when there is none or `f` gives nothing for it. -/
def updateMember? {α : Type} (name : String) (f : α → Option α) :
    List (String × α) → Option (List (String × α))
  | [] => none
  | (n, a) :: rest =>
    if n = name then (f a).map fun a => (n, a) :: rest
    else (updateMember? name f rest).map ((n, a) :: ·)

/-- No block has the name of an attribute. -/
def checkDisjoint (attributes : List (String × Attribute)) (blocks : List (String × Block)) :
    Except SchemaError Unit :=
  match blocks.find? fun (name, _) => (attributes.lookup name).isSome with
  | some (name, _) => .error (.duplicateName [] name)
  | none => .ok ()

structure AttributeDraft where
  ty : Option Ty
  nested : Option (NestingMode × Members Attribute)
  traits : AttributeTraits

/-- Exactly one of a type and a group, not both required and optional, and someone to set it. -/
def AttributeDraft.build (d : AttributeDraft) : Except SchemaError Attribute := do
  let built ← match d.ty, d.nested with
    | some ty, none => pure (.leaf ty d.traits)
    | none, some (mode, members) => do pure (.group mode (← members.build) d.traits)
    | _, _ => .error (.typeXorNested [])
  let flags := d.traits.flags
  if flags.required && flags.optional then .error (.requiredAndOptional [])
  else if !(flags.required || flags.optional || flags.computed) then .error (.missingConstraint [])
  else .ok built

structure BlockDraft where
  nesting : BlockNesting
  attributes : Members Attribute
  blocks : Members Block
  traits : BlockTraits

/-- Names valid, distinct and not shared by attributes and blocks, the minimum within the
maximum. -/
def BlockDraft.build (d : BlockDraft) : Except SchemaError Block := do
  let attributes ← d.attributes.build
  let blocks ← d.blocks.build
  checkDisjoint attributes blocks
  if 0 < d.traits.maxItems && d.traits.maxItems < d.traits.minItems then
    .error (.invalidItemBounds [] d.traits.minItems d.traits.maxItems)
  else .ok ⟨d.nesting, attributes, blocks, d.traits⟩

structure SchemaDraft where
  version : Int64
  attributes : Members Attribute
  blocks : Members Block
  docs : Documentation

/-- Names valid, distinct and not shared by attributes and blocks. -/
def SchemaDraft.build (d : SchemaDraft) : Except SchemaError Schema := do
  let attributes ← d.attributes.build
  let blocks ← d.blocks.build
  checkDisjoint attributes blocks
  return ⟨d.version, attributes, blocks, d.docs⟩

/-! ## Attaching behaviour

A node is addressed by the names on the way to it. Among attributes and blocks of one level an
attribute goes first. -/

namespace Attribute

def attach (behaviour : Behaviour) (a : Attribute) : Attribute :=
  a.withTraits { a.traits with behaviour := a.traits.behaviour.append behaviour }

/-- The attribute that some names lead to. -/
def descend? : List String → Attribute → Option Attribute
  | [], a => some a
  | name :: rest, .group _ members _ => (members.lookup name).bind (descend? rest)
  | _ :: _, .leaf .. => none

def attachAt? (behaviour : Behaviour) : List String → Attribute → Option Attribute
  | [], a => some (a.attach behaviour)
  | name :: rest, .group mode members traits =>
    (updateMember? name (attachAt? behaviour rest) members).map (.group mode · traits)
  | _ :: _, .leaf .. => none

end Attribute

namespace Block

def attach (behaviour : Behaviour) (b : Block) : Block :=
  { b with traits := { b.traits with behaviour := b.traits.behaviour.append behaviour } }

/-- The attribute or block that some names lead to. -/
def descend? : List String → Block → Option Member
  | [], b => some (.block b)
  | name :: rest, b =>
    match b.attributes.lookup name with
    | some a => (a.descend? rest).map .attr
    | none => (b.blocks.lookup name).bind (descend? rest)

def attachAt? (behaviour : Behaviour) : List String → Block → Option Block
  | [], b => some (b.attach behaviour)
  | name :: rest, b =>
    if (b.attributes.lookup name).isSome then
      (updateMember? name (Attribute.attachAt? behaviour rest) b.attributes).map
        fun attributes => { b with attributes }
    else
      (updateMember? name (attachAt? behaviour rest) b.blocks).map fun blocks => { b with blocks }

end Block

namespace SchemaDraft

/-- The attribute or block that some names lead to. -/
def descend? (d : SchemaDraft) : List String → Option Member
  | [] => none
  | name :: rest =>
    match d.attributes.last? name with
    | some a => (a.descend? rest).map .attr
    | none => (d.blocks.last? name).bind (Block.descend? rest)

/-- Adds behaviour to the node that some names lead to. -/
def attachAt? (behaviour : Behaviour) (d : SchemaDraft) : List String → Option SchemaDraft
  | [] => none
  | name :: rest =>
    match d.attributes.last? name with
    | some _ =>
      (d.attributes.updateLast? name (Attribute.attachAt? behaviour rest)).map
        fun attributes => { d with attributes }
    | none =>
      (d.blocks.updateLast? name (Block.attachAt? behaviour rest)).map
        fun blocks => { d with blocks }

end SchemaDraft
end ResourceSchema
