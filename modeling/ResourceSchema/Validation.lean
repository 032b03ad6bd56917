import ResourceSchema.Data
import ResourceSchema.Diagnostic
import ResourceSchema.Schema.Visit

/-!
# Validating configurations

A configuration is checked node by node: required attributes are set and read-only ones are not,
counts of blocks keep their bounds, set nodes that are deprecated warn, and the validators of the
node have their say. Nothing is checked where there is no resource.
-/

namespace ResourceSchema

/-- What a validator is asked about. -/
structure ValidateRequest where
  path : Path
  configValue : Value
  config : Data

/-- What the custom validators of a program do, by name. -/
abbrev CustomValidators := String → ValidateRequest → Diagnostics

namespace ValidateRequest

/-- The path as an expression. -/
def pathExpr (r : ValidateRequest) : PathExpr := .ofPath r.path

/-- Paths that the expressions match, relative to the node, without its own. -/
def matchedPaths (r : ValidateRequest) (es : List PathExpr) : List Path :=
  es.flatMap fun e =>
    match r.config.pathMatches (e.merge r.path) with
    | .ok paths => paths.filter fun p => !p.same r.path
    | .error _ => []

/-- An error for each expression that does not resolve. -/
def expressionErrors (r : ValidateRequest) (es : List PathExpr) : Diagnostics :=
  es.filterMap fun e =>
    match r.config.pathMatches (e.merge r.path) with
    | .ok _ => none
    | .error err =>
      some (.errorAt r.path "Invalid Path Expression for Schema"
        ("The validator for " ++ r.path.text ++ " has an invalid path expression: " ++ err.message))

/-- The matched paths with the values at them. -/
def matched (r : ValidateRequest) (es : List PathExpr) : List (Path × Value) :=
  (r.matchedPaths es).filterMap fun p => (r.config.get p).toOption.map fun v => (p, v)

/-- The node itself, then what the expressions match. -/
def group (r : ValidateRequest) (es : List PathExpr) : List (Path × Value) :=
  (r.path, r.configValue) :: r.matched es

/-- Paths of a group with known values. -/
def configured (r : ValidateRequest) (es : List PathExpr) : List Path :=
  ((r.group es).filter fun (_, v) => v.isKnown).map (·.1)

/-- Some value of a group is unknown. -/
def undecided (r : ValidateRequest) (es : List PathExpr) : Bool :=
  (r.group es).any fun (_, v) => v.isUnknown

/-- The names of a group in messages: the node, then the expressions as they apply to it. -/
def groupText (r : ValidateRequest) (es : List PathExpr) : String :=
  String.intercalate ", " (r.path.text :: es.map fun e => (e.merge r.path).resolve.text)

end ValidateRequest

namespace Validator

/-- Length of a text in characters, of a collection in elements. -/
def length? : Value → Option Nat
  | .string s => some s.length
  | v => v.elementCount?

/-- Equality of texts, with the case of ASCII letters left out of account if wanted. -/
def sameText (ignoreCase : Bool) (s t : String) : Bool :=
  if ignoreCase then s.toList.map Char.toLower == t.toList.map Char.toLower else s == t

/-- The number lies outside of the bounds. -/
def outOfBounds (min max : Extended) (n : Number) : Bool :=
  let x := Extended.finite n.toBinary64
  x.lt min || max.lt x

/-- The findings of a validator. -/
def check (custom : CustomValidators) (validator : Validator) (r : ValidateRequest) : Diagnostics :=
  let attributeText := "Attribute " ++ r.path.text
  match validator with
  | .lengthBetween min max =>
    match length? r.configValue with
    | some n =>
      if n < min ∨ max < n then
        [.errorAt r.path "Invalid Attribute Value Length"
          (attributeText ++ " " ++ validator.description ++ ", got: " ++ toString n)]
      else []
    | none => []
  | .oneOf values ignoreCase =>
    match r.configValue with
    | .string s =>
      if values.any fun t => sameText ignoreCase t s then []
      else
        [.errorAt r.path "Invalid Attribute Value Match"
          (attributeText ++ " " ++ validator.description ++ ", got: " ++ Text.quoted s)]
    | _ => []
  | .numberBetween min max =>
    match r.configValue with
    | .number n =>
      if outOfBounds min max n then
        [.errorAt r.path "Invalid Attribute Value"
          (attributeText ++ " " ++ validator.description ++ ", got: " ++ n.text)]
      else []
    | _ => []
  | .conflictsWith es =>
    if !r.configValue.isKnown then []
    else
      r.expressionErrors es ++
        ((r.matched es).filter fun (_, v) => v.isKnown).map fun (p, _) =>
          .errorAt r.path "Invalid Attribute Combination"
            ("Attribute " ++ p.text ++ " cannot be specified when " ++ r.path.text ++
              " is specified")
  | .alsoRequires es =>
    if r.configValue.isNull then []
    else
      r.expressionErrors es ++
        ((r.matched es).filter fun (_, v) => v.isNull).map fun (p, _) =>
          .errorAt r.path "Missing Attribute Configuration"
            ("Attribute " ++ p.text ++ " must be specified when " ++ r.path.text ++
              " is specified")
  | .exactlyOneOf es =>
    let found := r.configured es
    r.expressionErrors es ++
      if 1 < found.length then
        [.errorAt r.path "Invalid Attribute Combination"
          (toString found.length ++
            " attributes specified when one (and only one) of [" ++ r.groupText es ++
            "] is required: [" ++ String.intercalate ", " (found.map Path.text) ++ "]")]
      else if found.isEmpty && !r.undecided es then
        [.errorAt r.path "Invalid Attribute Combination"
          ("No attribute specified when one (and only one) of [" ++ r.groupText es ++
            "] is required")]
      else []
  | .atLeastOneOf es =>
    r.expressionErrors es ++
      if (r.configured es).isEmpty && !r.undecided es then
        [.errorAt r.path "Invalid Attribute Combination"
          ("At least one attribute out of [" ++ r.groupText es ++ "] must be specified")]
      else []
  | .custom name _ => custom name r

end Validator

/-- The diagnostic, if the condition holds. -/
def diagnoseIf (condition : Bool) (d : Diagnostic) : Diagnostics := if condition then [d] else []

/-- A warning at a node that is set though it is deprecated. -/
def deprecationWarning (path : Path) (summary : String) (docs : Documentation) (v : Value) :
    Diagnostics :=
  match docs.deprecationMessage with
  | some m => diagnoseIf (!v.isNull) (.warningAt path summary m)
  | none => []

/-- Findings about a value of an attribute from the attribute's shape. -/
def Attribute.diagnose (path : Path) (v : Value) (a : Attribute) : Diagnostics :=
  let computedOnly := a.flags.computed && !a.flags.optional && !a.flags.required
  diagnoseIf (a.flags.required && v.isNull)
      (.errorAt path "Missing Configuration for Required Attribute"
        ("Must set a configuration value for the " ++ path.text ++
          " attribute as the provider has marked it as required.")) ++
    diagnoseIf (computedOnly && !v.isNull)
      (.errorAt path "Invalid Configuration for Read-Only Attribute"
        ("Cannot set value for the " ++ path.text ++
          " attribute as the provider has marked it as read-only.")) ++
    deprecationWarning path "Attribute Deprecated" a.docs v

/-- Count of the elements of a block; a single block counts as one unless it is null. -/
def Block.itemCount (b : Block) (v : Value) : Nat :=
  match b.nesting with
  | .single => if v.isNull then 0 else 1
  | .list | .set => v.elementCount?.getD 0

/-- Findings about a value of a block from the block's shape. -/
def Block.diagnose (path : Path) (v : Value) (b : Block) : Diagnostics :=
  let count := b.itemCount v
  let min := b.traits.minItems.toNat
  let max := b.traits.maxItems.toNat
  deprecationWarning path "Block Deprecated" b.traits.docs v ++
    diagnoseIf (!v.isUnknown && count < min)
      (.errorAt path "Missing Configuration for Required Block"
        ("Block " ++ path.text ++ " must have a configuration value as the provider has marked " ++
          "it as required. At least " ++ toString min ++ " element(s) expected, got " ++
          toString count ++ ".")) ++
    diagnoseIf (!v.isUnknown && 0 < max && max < count)
      (.errorAt path "Too Many Block Elements"
        ("Block " ++ path.text ++ " allows at most " ++ toString max ++ " element(s), got " ++
          toString count ++ "."))

/-- All findings at one node: from its shape, then what its validators answer. -/
def Visit.diagnose (answer : Validator → ValidateRequest → Diagnostics) (config : Data)
    (visit : Visit) : Diagnostics :=
  let shape := match visit.member with
    | .attr a => a.diagnose visit.path visit.value
    | .block b => b.diagnose visit.path visit.value
  shape ++ visit.member.behaviour.validators.flatMap
    (answer · ⟨visit.path, visit.value, config⟩)

/-- All findings about a configuration, with what validators answer. -/
def Data.validateWith (answer : Validator → ValidateRequest → Diagnostics) (config : Data) :
    Diagnostics :=
  let resource := match config.schema.docs.deprecationMessage with
    | some m => diagnoseIf (!config.raw.isNull) (.warning "Resource Deprecated" m)
    | none => []
  resource ++ (config.schema.visits config.raw).flatMap (Visit.diagnose answer config)

/-- All findings about a configuration. -/
def Data.validate (custom : CustomValidators) (config : Data) : Diagnostics :=
  config.validateWith (Validator.check custom)

end ResourceSchema
