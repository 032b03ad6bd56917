import ResourceSchema.Schema.Basic

/-!
# Differences of schemas

The differences of shape from one schema to another, by path: depth first in the order of the old
schema, with additions in the order of the new one after the rest of their level. A difference is
breaking when configurations or states of the old schema may not fit the new one.
-/

namespace ResourceSchema

inductive ChangeKind where
  | attributeAdded (required : Bool)
  | attributeRemoved
  | blockAdded (minItems : UInt64)
  | blockRemoved
  | typeChanged (old new : Ty)
  | nestingChanged (old new : NestingMode)
  | requiredChanged (required : Bool)
  | optionalChanged (optional : Bool)
  | computedChanged (computed : Bool)
  | sensitiveChanged (sensitive : Bool)
  | deprecationChanged (message : Option String)
  | descriptionChanged
  | itemBoundsChanged (oldMin oldMax newMin newMax : UInt64)
  | versionChanged (old new : Int64)

/-- A difference; its path consists of names. -/
structure SchemaChange where
  path : Path
  kind : ChangeKind

namespace SchemaChange

/-- Some data of the old schema may not fit the new one. -/
def isBreaking (c : SchemaChange) : Bool :=
  match c.kind with
  | .attributeAdded required => required
  | .blockAdded minItems => 0 < minItems
  | .attributeRemoved | .blockRemoved | .typeChanged .. | .nestingChanged .. => true
  | .requiredChanged required => required
  | .optionalChanged optional => !optional
  | .itemBoundsChanged oldMin oldMax newMin newMax =>
    oldMin < newMin || (0 < newMax && (oldMax == 0 || newMax < oldMax))
  | .computedChanged _ | .sensitiveChanged _ | .deprecationChanged _ | .descriptionChanged
  | .versionChanged .. => false

def boolText (b : Bool) : String := if b then "true" else "false"

def text (c : SchemaChange) : String :=
  let change := match c.kind with
    | .attributeAdded _ => "attribute added"
    | .attributeRemoved => "attribute removed"
    | .blockAdded _ => "block added"
    | .blockRemoved => "block removed"
    | .typeChanged old new => "type " ++ old.text ++ " -> " ++ new.text
    | .nestingChanged old new => "nesting " ++ old.text ++ " -> " ++ new.text
    | .requiredChanged b => "required = " ++ boolText b
    | .optionalChanged b => "optional = " ++ boolText b
    | .computedChanged b => "computed = " ++ boolText b
    | .sensitiveChanged b => "sensitive = " ++ boolText b
    | .deprecationChanged (some m) => "deprecated (" ++ m ++ ")"
    | .deprecationChanged none => "no longer deprecated"
    | .descriptionChanged => "description changed"
    | .itemBoundsChanged oldMin oldMax newMin newMax =>
      "items [" ++ toString oldMin ++ ", " ++ toString oldMax ++ "] -> [" ++ toString newMin ++
        ", " ++ toString newMax ++ "]"
    | .versionChanged old new => "version " ++ toString old ++ " -> " ++ toString new
  (if c.path.isEmpty then "<schema>" else c.path.text) ++ ": " ++ change

end SchemaChange

/-- The change at a path, if the condition holds. -/
def changeIf (condition : Bool) (path : Path) (kind : ChangeKind) : List SchemaChange :=
  if condition then [⟨path, kind⟩] else []

def Documentation.diff (path : Path) (old new : Documentation) : List SchemaChange :=
  changeIf (old.description != new.description ||
      old.markdownDescription != new.markdownDescription) path .descriptionChanged ++
    changeIf (old.deprecationMessage != new.deprecationMessage) path
      (.deprecationChanged new.deprecationMessage)

def Flags.diff (path : Path) (old new : Flags) : List SchemaChange :=
  changeIf (old.required != new.required) path (.requiredChanged new.required) ++
    changeIf (old.optional != new.optional) path (.optionalChanged new.optional) ++
    changeIf (old.computed != new.computed) path (.computedChanged new.computed) ++
    changeIf (old.sensitive != new.sensitive) path (.sensitiveChanged new.sensitive)

/-- The members of `new` with names that `old` has not. -/
def added {α : Type} (path : Path) (kind : α → ChangeKind) (old new : List (String × α)) :
    List SchemaChange :=
  (new.filter fun (name, _) => (old.lookup name).isNone).map
    fun (name, a) => ⟨path ++ [.name name], kind a⟩

def attributesAdded (path : Path) : List (String × Attribute) → List (String × Attribute) →
    List SchemaChange :=
  added path fun a => .attributeAdded a.flags.required

def blocksAdded (path : Path) : List (String × Block) → List (String × Block) →
    List SchemaChange :=
  added path fun b => .blockAdded b.traits.minItems

namespace Attribute

mutual

/-- Differences of two attributes at a path. -/
def diff (path : Path) (old new : Attribute) : List SchemaChange :=
  (match old, new with
    | .leaf t _, .leaf u _ => changeIf (t != u) path (.typeChanged t u)
    | .group mode members _, .group mode' members' _ =>
      if mode = mode' then diffKept path members members' ++ attributesAdded path members members'
      else [⟨path, .nestingChanged mode mode'⟩]
    | old, new => [⟨path, .typeChanged old.ty new.ty⟩]) ++
    old.flags.diff path new.flags ++ old.docs.diff path new.docs

/-- Differences of the members of an old level from those of the new one. -/
def diffKept (path : Path) :
    List (String × Attribute) → List (String × Attribute) → List SchemaChange
  | [], _ => []
  | (name, a) :: rest, others =>
    (match others.lookup name with
      | some b => diff (path ++ [.name name]) a b
      | none => [⟨path ++ [.name name], .attributeRemoved⟩]) ++ diffKept path rest others

end
end Attribute

namespace Block

mutual

/-- Differences of two blocks at a path; a change of nesting hides all others. -/
def diff (path : Path) : Block → Block → List SchemaChange
  | ⟨nesting, attributes, blocks, traits⟩, ⟨nesting', attributes', blocks', traits'⟩ =>
    if nesting ≠ nesting' then [⟨path, .nestingChanged nesting.mode nesting'.mode⟩]
    else
      changeIf (traits.minItems != traits'.minItems || traits.maxItems != traits'.maxItems) path
          (.itemBoundsChanged traits.minItems traits.maxItems traits'.minItems traits'.maxItems) ++
        traits.docs.diff path traits'.docs ++ Attribute.diffKept path attributes attributes' ++
        diffKept path blocks blocks' ++ attributesAdded path attributes attributes' ++
        blocksAdded path blocks blocks'

/-- Differences of the blocks of an old level from those of the new one. -/
def diffKept (path : Path) : List (String × Block) → List (String × Block) → List SchemaChange
  | [], _ => []
  | (name, b) :: rest, others =>
    (match others.lookup name with
      | some c => diff (path ++ [.name name]) b c
      | none => [⟨path ++ [.name name], .blockRemoved⟩]) ++ diffKept path rest others

end
end Block

/-- The differences from `old` to `new`. -/
def Schema.diff (old new : Schema) : List SchemaChange :=
  changeIf (old.version != new.version) [] (.versionChanged old.version new.version) ++
    old.docs.diff [] new.docs ++ Attribute.diffKept [] old.attributes new.attributes ++
    Block.diffKept [] old.blocks new.blocks ++ attributesAdded [] old.attributes new.attributes ++
    blocksAdded [] old.blocks new.blocks

end ResourceSchema
