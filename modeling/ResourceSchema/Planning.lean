import ResourceSchema.Data
import ResourceSchema.Diagnostic
import ResourceSchema.Value.Build

/-!
# Modifying plans

The plan modifiers of a schema run over a planned value: those of a node before those below it,
elements one by one. The configuration and the state are looked up at the position of the planned
value. What a modifier returns replaces the planned value if it has the same type, and an object or
a collection is put together again only if the result is one.
-/

namespace ResourceSchema

/-- What a plan modifier is asked about. -/
structure PlanRequest where
  path : Path
  configValue : Value
  stateValue : Value
  planValue : Value
  config : Data
  state : Data
  plan : Data

/-- The path as an expression. -/
def PlanRequest.pathExpr (r : PlanRequest) : PathExpr := .ofPath r.path

/-- What a plan modifier answers. -/
structure PlanResponse where
  planValue : Value
  requiresReplace : Bool
  diagnostics : Diagnostics

/-- What the custom plan modifiers of a program do, by name. -/
abbrev CustomModifiers := String → PlanRequest → PlanResponse

/-- The answer that leaves everything as it is. -/
def PlanResponse.keep (v : Value) : PlanResponse := ⟨v, false, []⟩

/-- The answer of a plan modifier. -/
def PlanModifier.respond (custom : CustomModifiers) (m : PlanModifier) (r : PlanRequest) :
    PlanResponse :=
  match m with
  | .requiresReplace =>
    let stays := !r.state.raw.isNull && !r.plan.raw.isNull
    ⟨r.planValue, stays && !r.planValue.same r.stateValue, []⟩
  | .useStateForUnknown =>
    if r.stateValue.isNull || !r.planValue.isUnknown || r.configValue.isUnknown then
      .keep r.planValue
    else .keep r.stateValue
  | .default v =>
    if r.plan.raw.isNull || !r.configValue.isNull then .keep r.planValue else .keep v
  | .custom name _ => custom name r

/-- What planning notes on its way. -/
structure PlanLog where
  replaced : List Path
  diagnostics : Diagnostics

/-- A result together with what was noted on the way to it. -/
structure Planned (α : Type) where
  result : α
  log : PlanLog

namespace Planned

instance : Monad Planned where
  pure a := ⟨a, [], []⟩
  bind m f :=
    let next := f m.result
    ⟨next.result, m.log.replaced ++ next.log.replaced, m.log.diagnostics ++ next.log.diagnostics⟩

/-- Notes diagnostics and paths whose change replaces the resource. -/
def note (ds : Diagnostics) (replaced : List Path) : Planned Unit := ⟨(), replaced, ds⟩

/-- Notes a diagnostic. -/
def report (d : Diagnostic) : Planned Unit := note [d] []

end Planned

/-- Values of the configuration, the state and the plan at one position. -/
structure PlanNodes where
  config : Value
  state : Value
  plan : Value

/-- What planning refers to throughout, with what the plan modifiers answer. -/
structure PlanContext where
  answer : PlanModifier → PlanRequest → PlanResponse
  config : Data
  state : Data
  plan : Data

/-- The value one step below another, as a value of type `t`; null where the step does not apply. -/
def Value.descend (v : Value) (s : PathStep) (t : Ty) : Value :=
  match v.lookup t [s] with
  | .ok child => child
  | .error _ => .null t

/-- The values one step below. -/
def PlanNodes.descend (nodes : PlanNodes) (s : PathStep) (t : Ty) : PlanNodes :=
  ⟨nodes.config.descend s t, nodes.state.descend s t, nodes.plan.descend s t⟩

def invalidModification (path : Path) (detail : String) : Diagnostic :=
  .errorAt path "Invalid Plan Modification" detail

/-- The value that was put together, or the one from before with a report of the error. -/
def rebuilt (path : Path) (before : Value) : Except ValueError Value → Planned Value
  | .ok v => pure v
  | .error e => do
    Planned.report (invalidModification path e.message)
    return before

/-- Takes an answer: notes, then the new value if it has the type of the current one. -/
def absorb (path : Path) (current : Value) (response : PlanResponse) : Planned Value := do
  Planned.note response.diagnostics (if response.requiresReplace then [path] else [])
  if response.planValue.ty = current.ty then return response.planValue
  else
    Planned.report (invalidModification path
      ("Plan modifier returned a value of type " ++ response.planValue.ty.text ++ ", expected " ++
        current.ty.text))
    return current

/-- Runs modifiers one after another, each on the value left by those before it. -/
def runModifiers (context : PlanContext) (path : Path) (nodes : PlanNodes) (current : Value) :
    List PlanModifier → Planned Value
  | [] => pure current
  | m :: rest => do
    let request : PlanRequest :=
      ⟨path, nodes.config, nodes.state, current, context.config, context.state, context.plan⟩
    let next ← absorb path current (context.answer m request)
    runModifiers context path nodes next rest

/-- Plans a known object by planning its fields; other values stay as they are. -/
def planObject (planFields : List (String × Value) → Planned (List (String × Value)))
    (path : Path) (v : Value) : Planned Value :=
  match v with
  | .object fields => do rebuilt path v (Value.objectOfType v.ty (← planFields fields))
  | v => pure v

/-- Plans the objects collected in a value one by one and collects the results again. -/
def planCollected (planOne : Path → PlanNodes → Planned Value) (path : Path) (nodes : PlanNodes) :
    Planned Value := do
  let child (s : PathStep) (t : Ty) (v : Value) : Planned Value :=
    planOne (path ++ [s]) { nodes.descend s t with plan := v }
  match nodes.plan with
  | .object _ => planOne path nodes
  | .list t items =>
    if items.isEmpty then return nodes.plan
    let planned ← items.zipIdx.mapM fun (v, i) => child (.index i) t v
    rebuilt path nodes.plan (Value.listOf t planned)
  | .set t items =>
    if items.isEmpty then return nodes.plan
    let planned ← items.mapM fun v => child (.element v) t v
    rebuilt path nodes.plan (Value.setOf t planned)
  | .map t entries =>
    if entries.isEmpty then return nodes.plan
    let planned ← entries.mapM fun (k, v) => do return (k, ← child (.key k) t v)
    rebuilt path nodes.plan (Value.mapOf t planned)
  | v => return v

namespace Attribute

mutual

/-- Plans an attribute: its own modifiers, then those of a group in it. -/
def plan (context : PlanContext) (path : Path) (nodes : PlanNodes) : Attribute → Planned Value
  | .leaf _ traits => runModifiers context path nodes nodes.plan traits.behaviour.modifiers
  | .group _ members traits => do
    let planned ← runModifiers context path nodes nodes.plan traits.behaviour.modifiers
    planCollected
      (fun path nodes => planObject (planMembers context path nodes members) path nodes.plan)
      path { nodes with plan := planned }

/-- Plans the attributes of one object and puts the results into its fields. -/
def planMembers (context : PlanContext) (path : Path) (nodes : PlanNodes) :
    List (String × Attribute) → List (String × Value) → Planned (List (String × Value))
  | [], fields => pure fields
  | (name, a) :: rest, fields => do
    let planned ← plan context (path ++ [.name name]) (nodes.descend (.name name) a.ty) a
    planMembers context path nodes rest (Keyed.assign name planned fields)

end
end Attribute

namespace Block

mutual

/-- Plans a block: its own modifiers, then those of its members. -/
def plan (context : PlanContext) (path : Path) (nodes : PlanNodes) : Block → Planned Value
  | ⟨_, attributes, blocks, traits⟩ => do
    let planned ← runModifiers context path nodes nodes.plan traits.behaviour.modifiers
    planCollected
      (fun path nodes => planObject (fun fields => do
        planMembers context path nodes blocks
          (← Attribute.planMembers context path nodes attributes fields)) path nodes.plan)
      path { nodes with plan := planned }

/-- Plans the blocks of one object and puts the results into its fields. -/
def planMembers (context : PlanContext) (path : Path) (nodes : PlanNodes) :
    List (String × Block) → List (String × Value) → Planned (List (String × Value))
  | [], fields => pure fields
  | (name, b) :: rest, fields => do
    let planned ← plan context (path ++ [.name name]) (nodes.descend (.name name) b.ty) b
    planMembers context path nodes rest (Keyed.assign name planned fields)

end
end Block

/-- Plans the members of a whole resource. -/
def Schema.planResource (schema : Schema) (context : PlanContext) (nodes : PlanNodes) :
    Planned Value :=
  planObject (fun fields => do
    Block.planMembers context [] nodes schema.blocks
      (← Attribute.planMembers context [] nodes schema.attributes fields)) [] nodes.plan

/-- Each path once, at its first place. -/
def distinctPaths (paths : List Path) : List Path :=
  paths.foldl (fun acc p => if acc.any fun q => q.same p then acc else acc ++ [p]) []

structure PlanOutcome where
  plan : Data
  /-- Paths of the changes that replace the resource. -/
  requiresReplace : List Path
  diagnostics : Diagnostics

/-- Runs plan modifiers with the given answers over a plan. The plan of a resource that is to be
destroyed stays as it is. -/
def Data.modifyPlanWith (answer : PlanModifier → PlanRequest → PlanResponse)
    (config state plan : Data) : PlanOutcome :=
  if plan.raw.isNull then ⟨plan, [], []⟩
  else
    let planned := plan.schema.planResource ⟨answer, config, state, plan⟩
      ⟨config.raw, state.raw, plan.raw⟩
    let replaced := distinctPaths planned.log.replaced
    match Data.ofValue .plan plan.schema planned.result with
    | .ok modified => ⟨modified, replaced, planned.log.diagnostics⟩
    | .error e =>
      ⟨plan, replaced, planned.log.diagnostics ++ [.error "Invalid Plan Modification" e.message]⟩

/-- Runs all plan modifiers over a plan. -/
def Data.modifyPlan (custom : CustomModifiers) (config state plan : Data) : PlanOutcome :=
  modifyPlanWith (PlanModifier.respond custom) config state plan

end ResourceSchema
