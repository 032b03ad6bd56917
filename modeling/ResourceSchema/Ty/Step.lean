import ResourceSchema.Path.Error

/-!
# Steps through types

A type says which kind of step leads to its children. A list index or a map key is taken whether or
not any value has such an element.
-/

namespace ResourceSchema.Ty

/-- Kind of step that leads to the children of a type; primitives have none. -/
def childStep? : Ty → Option StepKind
  | .list _ => some .index
  | .set _ => some .element
  | .map _ => some .key
  | .object _ => some .name
  | _ => none

/-- The error of a step of the wrong kind. -/
def stepMismatch (t : Ty) (step : PathStep) : StepError :=
  match t.childStep? with
  | some expected => .unexpectedStep step t expected
  | none => .notComposite step t

/-- The type a step leads to. -/
def step (t : Ty) (s : PathStep) : Except StepError Ty :=
  match t, s with
  | .object as, .name name =>
    match as.lookup name with
    | some u => .ok u
    | none => .error (.noSuchAttribute name t)
  | .list u, .index i => if i < 0 then .error (.negativeIndex i) else .ok u
  | .set u, .element _ => .ok u
  | .map u, .key _ => .ok u
  | t, s => .error (t.stepMismatch s)

/-- The type a path leads to, or the error of its first step that does not apply. -/
def atPath (t : Ty) : Path → Except StepError Ty
  | [] => .ok t
  | s :: rest => do atPath (← t.step s) rest

end ResourceSchema.Ty
