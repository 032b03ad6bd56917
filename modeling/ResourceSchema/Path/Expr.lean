import ResourceSchema.Path.Basic

/-!
# Path expressions

An expression describes a set of paths. It starts from an anchor and goes on with exact steps,
wildcards and steps back to the parent. A relative expression still waits for the path that it is
relative to.
-/

namespace ResourceSchema

inductive ExprStep where
  | exact (step : PathStep)
  | anyIndex
  | anyKey
  | anyElement
  /-- Any index, key or set element. -/
  | anyChild
  /-- Back to the parent of the step before. -/
  | parent

namespace ExprStep

/-- Whether a step of a path fits; nothing fits a step back. -/
def fits : ExprStep → PathStep → Bool
  | .exact expected, step => expected.same step
  | .anyIndex, .index _ | .anyKey, .key _ | .anyElement, .element _ => true
  | .anyChild, .index _ | .anyChild, .key _ | .anyChild, .element _ => true
  | _, _ => false

def same : ExprStep → ExprStep → Bool
  | .exact s, .exact t => s.same t
  | .anyIndex, .anyIndex | .anyKey, .anyKey | .anyElement, .anyElement
  | .anyChild, .anyChild | .parent, .parent => true
  | _, _ => false

def text : ExprStep → String
  | .exact step => step.text
  | .anyIndex => "[*]"
  | .anyKey => "[\"*\"]"
  | .anyElement => "[Value(*)]"
  | .anyChild => "[**]"
  | .parent => "<"

end ExprStep

structure PathExpr where
  anchor : Path
  steps : List ExprStep
  relative : Bool

namespace PathExpr

/-- The expression that a single path fits. -/
def ofPath (p : Path) : PathExpr := ⟨p, [], false⟩

def same (e f : PathExpr) : Bool :=
  e.anchor.same f.anchor && e.steps.isEqv f.steps ExprStep.same && e.relative == f.relative

/-- Anchors a relative expression below a path; other expressions stay as they are. -/
def merge (e : PathExpr) (base : Path) : PathExpr :=
  if e.relative then ⟨base ++ e.anchor, e.steps, false⟩ else e

/-- One step of `resolve`: a step back removes the step before, from the anchor when there is no
other, and nothing at the root. -/
def resolveStep (acc : Path × List ExprStep) : ExprStep → Path × List ExprStep
  | .parent => if acc.2.isEmpty then (acc.1.dropLast, []) else (acc.1, acc.2.dropLast)
  | step => (acc.1, acc.2 ++ [step])

/-- The expression without steps back. -/
def resolve (e : PathExpr) : PathExpr :=
  let (anchor, steps) := e.steps.foldl resolveStep (e.anchor, [])
  ⟨anchor, steps, e.relative⟩

/-- All steps, those of the anchor first. -/
def allSteps (e : PathExpr) : List ExprStep := e.anchor.map .exact ++ e.steps

/-- Each step fits, as far as both lists go. -/
def allFit (steps : List ExprStep) (p : Path) : Bool :=
  (steps.zip p).all fun (expected, step) => expected.fits step

/-- The path has as many steps as the expression, and each fits. -/
def accepts (e : PathExpr) (p : Path) : Bool :=
  let steps := e.resolve.allSteps
  steps.length == p.length && allFit steps p

/-- The path has fewer steps than the expression, and each fits. -/
def passesThrough (e : PathExpr) (p : Path) : Bool :=
  let steps := e.resolve.allSteps
  p.length < steps.length && allFit steps p

/-- A name has a point before it except at the start. -/
def stepText (first : Bool) : ExprStep → String
  | .exact (.name n) => if first then n else "." ++ n
  | step => step.text

/-- The text of an expression: `rules[*].size`, with `~` before a relative one. -/
def text (e : PathExpr) : String :=
  let steps := match e.steps with
    | [] => ""
    | step :: rest =>
      stepText e.anchor.isEmpty step ++ String.join (rest.map (stepText false))
  (if e.relative then "~" else "") ++ e.anchor.text ++ steps

end PathExpr
end ResourceSchema
