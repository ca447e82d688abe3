import BladeTree.Cli.Input
import BladeTree.Cli.TokenList
import BladeTree.Diagnostic.Printer
import BladeTree.Document.Dump
import BladeTree.Edit.Recipe

namespace BladeTree.Cli

structure Outcome where
  exitCode : UInt8
  output : String
  errors : String
  deriving Repr

def Outcome.success (output : String) : Outcome := ⟨0, output, ""⟩

def Outcome.failure (message : String) : Outcome := ⟨1, "", "error: " ++ message ++ "\n"⟩

def runTokens (a : Arguments) (d : Document) : Outcome :=
  .success (if a.has .json then d.tokenJson ++ "\n" else d.tokenList)

def runTree (a : Arguments) (d : Document) : Outcome :=
  .success (d.dump ⟨a.has .spans, a.has .tokens⟩)

/-- Whether to color the output; without a choice this depends on the terminal. -/
def isColored (a : Arguments) (terminal : Bool) : Bool :=
  match a.get? .color with
  | some "always" => true
  | some "never" => false
  | _ => terminal

def findings (source : InputSource) (d : Document) (policy : SeverityPolicy) (word : String)
    (colored : Bool) : String :=
  let faults := d.lexerErrors.toList.map fun e =>
    word ++ ": " ++ e.kind.reason ++ " at offset " ++ toString e.offset ++ "\n"
  let printer : DiagnosticPrinter := ⟨some d.source.text, some source.name, colored, policy⟩
  String.join faults ++ printer.print d.diagnostics.toList

def runCheck (a : Arguments) (terminal : Bool) (source : InputSource) (d : Document) : Outcome :=
  let strict := a.has .strict
  let severity := if strict then Severity.error else Severity.warning
  let found := findings source d ⟨fun _ => severity⟩ severity.word (isColored a terminal)
  ⟨if strict ∧ !found.isEmpty then 1 else 0, "", found⟩

def splitPair (expected value : String) : Except String (String × String) :=
  let cs := value.toList
  let left := String.ofList (cs.takeWhile (· != ':'))
  let right := String.ofList ((cs.dropWhile (· != ':')).drop 1)
  if left.isEmpty ∨ right.isEmpty then
    .error ("expected " ++ expected ++ ", got '" ++ value ++ "'")
  else .ok (left, right)

/-- The recipes that the arguments ask for, in the order in which they run at a node. -/
def recipes (a : Arguments) : Except String (List Recipe) := do
  let compile :=
    if a.has .compileAttributeDirectives then
      [Recipe.compileAttributeDirectives AttributeDirective.standard]
    else []
  let removed ← (a.getAll .removeAttr).mapM fun value => do
    let (tag, pattern) ← splitPair "TAG:PATTERN" value
    return Recipe.removeAttributes tag [pattern]
  let renamed ← (a.getAll .renameTag).mapM fun value => do
    let (tag, newName) ← splitPair "FROM:TO" value
    return Recipe.renameTag tag newName
  let directives := (a.getAll .removeDirective).map fun pattern =>
    Recipe.removeDirective (String.ofList (pattern.toList.dropWhile (· == '@')))
  return compile ++ removed ++ renamed ++ directives

def runTransform (a : Arguments) (d : Document) : Outcome :=
  match recipes a with
  | .ok rs => .success (d.transform (rs.map (·.visitor)))
  | .error message => .failure message

def runOn (c : Command) (a : Arguments) (terminal : Bool) (source : InputSource) (d : Document) :
    Outcome :=
  match c with
  | .tokens => runTokens a d
  | .tree => runTree a d
  | .check => runCheck a terminal source d
  | .transform => runTransform a d

def run [Monad m] (read : InputSource → m (Except ReadFault String)) (terminal : Bool)
    (c : Command) (a : Arguments) : m Outcome := do
  match ← load read a with
  | .ok (source, d) => return runOn c a terminal source d
  | .error e => return .failure e.message

end BladeTree.Cli
