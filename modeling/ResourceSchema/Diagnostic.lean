import ResourceSchema.Path.Basic

/-!
# Diagnostics

Findings about a configuration or a plan, in the order they were made.
-/

namespace ResourceSchema

inductive Severity where
  | error
  | warning
deriving DecidableEq

def Severity.text : Severity → String
  | .error => "error"
  | .warning => "warning"

structure Diagnostic where
  severity : Severity
  summary : String
  detail : String
  path : Option Path

namespace Diagnostic

/-- An error without a path. -/
def error (summary detail : String) : Diagnostic := ⟨.error, summary, detail, none⟩

/-- A warning without a path. -/
def warning (summary detail : String) : Diagnostic := ⟨.warning, summary, detail, none⟩

def errorAt (path : Path) (summary detail : String) : Diagnostic :=
  ⟨.error, summary, detail, some path⟩

def warningAt (path : Path) (summary detail : String) : Diagnostic :=
  ⟨.warning, summary, detail, some path⟩

def isError (d : Diagnostic) : Bool := d.severity == .error

def same (d e : Diagnostic) : Bool :=
  d.severity == e.severity && d.summary == e.summary && d.detail == e.detail &&
    match d.path, e.path with
    | some p, some q => p.same q
    | none, none => true
    | _, _ => false

/-- One line with the path, if it is not empty, and the summary; a second line for a detail. -/
def text (d : Diagnostic) : String :=
  let place := match d.path with
    | some p => if p.isEmpty then "" else " at " ++ p.text
    | none => ""
  d.severity.text ++ place ++ ": " ++ d.summary ++
    if d.detail.isEmpty then "" else "\n  " ++ d.detail

end Diagnostic

abbrev Diagnostics := List Diagnostic

namespace Diagnostics

def hasError (ds : Diagnostics) : Bool := ds.any Diagnostic.isError

def errors (ds : Diagnostics) : Diagnostics := ds.filter Diagnostic.isError

def warnings (ds : Diagnostics) : Diagnostics := ds.filter fun d => !d.isError

def text (ds : Diagnostics) : String := String.intercalate "\n" (ds.map Diagnostic.text)

end Diagnostics
end ResourceSchema
