import BladeTree.Diagnostic.Basic

namespace BladeTree

/-- How bad a diagnostic is. This is decided when it is shown, not when it is found. -/
inductive Severity where
  | error
  | warning
  | info
  deriving DecidableEq, Repr

def Severity.word : Severity → String
  | error => "error"
  | warning => "warning"
  | info => "info"

structure SeverityPolicy where
  severity : DiagnosticKind → Severity

namespace SeverityPolicy

/-- The tree is complete all the same, so everything is a warning. -/
def lenient : SeverityPolicy := ⟨fun _ => .warning⟩

def strict : SeverityPolicy := ⟨fun _ => .error⟩

end SeverityPolicy
end BladeTree
