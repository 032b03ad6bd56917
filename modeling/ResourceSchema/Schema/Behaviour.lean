import ResourceSchema.Path.Expr

/-!
# Validators and plan modifiers

What an attribute or a block does beyond its shape, as data: the checks of its configuration and
the adjustments of its plan. A custom one has a name by which a program supplies what it does.
-/

namespace ResourceSchema

/-- A check of a configured value. -/
inductive Validator where
  /-- Length of a text in characters, of a collection in elements. -/
  | lengthBetween (min max : Nat)
  | oneOf (values : List String) (ignoreCase : Bool)
  | numberBetween (min max : Extended)
  /-- Not together with any node the expressions match. -/
  | conflictsWith (expressions : List PathExpr)
  /-- Only together with all nodes the expressions match. -/
  | alsoRequires (expressions : List PathExpr)
  /-- One, and only one, of the node itself and the nodes the expressions match. -/
  | exactlyOneOf (expressions : List PathExpr)
  | atLeastOneOf (expressions : List PathExpr)
  | custom (name description : String)

namespace Validator

def expressionList (expressions : List PathExpr) : String :=
  String.intercalate ", " (expressions.map PathExpr.text)

/-- What the check is, in prose. -/
def description : Validator → String
  | .lengthBetween min max =>
    "length must be between " ++ toString min ++ " and " ++ toString max
  | .oneOf values _ =>
    "value must be one of: [" ++ String.intercalate ", " (values.map Text.quoted) ++ "]"
  | .numberBetween min max =>
    match min.finite?, max.finite? with
    | some _, none => "value must be at least " ++ min.plainText
    | none, some _ => "value must be at most " ++ max.plainText
    | _, _ => "value must be between " ++ min.plainText ++ " and " ++ max.plainText
  | .conflictsWith es =>
    "Ensure that if an attribute is set, these are not set: [" ++ expressionList es ++ "]"
  | .alsoRequires es =>
    "Ensure that if an attribute is set, also these are set: [" ++ expressionList es ++ "]"
  | .exactlyOneOf es =>
    "Ensure that one and only one attribute from this collection is set: [" ++
      expressionList es ++ "]"
  | .atLeastOneOf es =>
    "Ensure that at least one attribute from this collection is set: [" ++
      expressionList es ++ "]"
  | .custom _ description => description

/-- Blocks take the checks that look at presence and length, attributes take all. -/
def appliesToBlocks : Validator → Bool
  | .oneOf .. | .numberBetween .. => false
  | _ => true

end Validator

/-- An adjustment of a planned value. -/
inductive PlanModifier where
  /-- A change of the value replaces the resource. -/
  | requiresReplace
  /-- A planned unknown keeps the value of the state. -/
  | useStateForUnknown
  /-- The value planned where the configuration has none. -/
  | default (value : Value)
  | custom (name description : String)

/-- What the adjustment is, in prose; `owner` is the word for what it is attached to. -/
def PlanModifier.description (owner : String) : PlanModifier → String
  | .requiresReplace =>
    "If the value of this " ++ owner ++
      " changes, the resource will be destroyed and recreated."
  | .useStateForUnknown =>
    "Once set, the value of this " ++ owner ++ " in state will not change."
  | .default v => "value defaults to " ++ v.text
  | .custom _ description => description

/-- Validators and plan modifiers of one node, in the order they run. -/
structure Behaviour where
  validators : List Validator
  modifiers : List PlanModifier

namespace Behaviour

def none : Behaviour := ⟨[], []⟩

/-- Both, the second after the first. -/
def append (b c : Behaviour) : Behaviour :=
  ⟨b.validators ++ c.validators, b.modifiers ++ c.modifiers⟩

end Behaviour
end ResourceSchema
