namespace BladeTree

structure Span where
  start : Nat
  stop : Nat
  deriving DecidableEq, Repr

/-- What is wrong with a template. None of these keeps it from being read. -/
inductive DiagnosticKind where
  | unclosedElement
  | unclosedDirective
  | mismatchedClosingTag
  | unexpectedClosingTag
  | invalidNesting
  | missingContent
  | invalidAttribute
  | syntaxError
  deriving DecidableEq, Repr

namespace DiagnosticKind

def name : DiagnosticKind → String
  | unclosedElement => "UnclosedElement"
  | unclosedDirective => "UnclosedDirective"
  | mismatchedClosingTag => "MismatchedClosingTag"
  | unexpectedClosingTag => "UnexpectedClosingTag"
  | invalidNesting => "InvalidNesting"
  | missingContent => "MissingContent"
  | invalidAttribute => "InvalidAttribute"
  | syntaxError => "SyntaxError"

def summary : DiagnosticKind → String
  | unclosedElement => "element is never closed"
  | unclosedDirective => "directive block is never closed"
  | mismatchedClosingTag => "closing tag does not match the open element"
  | unexpectedClosingTag => "closing tag has no open element"
  | invalidNesting => "invalid nesting"
  | missingContent => "missing content"
  | invalidAttribute => "invalid attribute"
  | syntaxError => "syntax error"

def describe (kind : DiagnosticKind) (detail : String) : String :=
  match kind with
  | unclosedElement => "`<" ++ detail ++ ">` is never closed"
  | unclosedDirective => "`@" ++ detail ++ "` is never closed"
  | unexpectedClosingTag => "`" ++ detail ++ "` has nothing to close"
  | kind => kind.summary ++ ": " ++ detail

end DiagnosticKind

structure Related where
  span : Span
  message : String
  deriving DecidableEq, Repr

structure Diagnostic where
  kind : DiagnosticKind
  span : Span
  message : String
  /-- The construct around it. -/
  context : Option String
  related : List Related
  deriving DecidableEq, Repr

namespace Diagnostic

def plain (kind : DiagnosticKind) (span : Span) : Diagnostic :=
  ⟨kind, span, kind.summary, none, []⟩

def detailed (kind : DiagnosticKind) (span : Span) (detail : String)
    (context : Option String) : Diagnostic :=
  ⟨kind, span, kind.describe detail, context, []⟩

def line (d : Diagnostic) : String :=
  s!"{d.kind.name} at {d.span.start}..{d.span.stop}: {d.message}" ++
    d.context.elim "" fun context => " (in " ++ context ++ ")"

end Diagnostic
end BladeTree
