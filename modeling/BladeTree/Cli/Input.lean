import BladeTree.Cli.Arguments
import BladeTree.Document.Basic

namespace BladeTree.Cli

inductive InputSource where
  | text (text : String)
  | standardInput
  | file (path : String)
  deriving DecidableEq, Repr

namespace InputSource

def name : InputSource → String
  | text _ => "<source>"
  | standardInput => "<stdin>"
  | file path => path

def ofArguments? (a : Arguments) : Option InputSource :=
  match a.get? .source, a.path with
  | some template, _ => some (.text template)
  | none, some "-" => some .standardInput
  | none, some path => some (.file path)
  | none, none => none

end InputSource

inductive ReadFault where
  | notUtf8
  | missing
  | denied
  | notADirectory
  | isADirectory
  | nameTooLong
  | other (code : UInt32)
  deriving DecidableEq, Repr

def ReadFault.message : ReadFault → String
  | notUtf8 => "stream did not contain valid UTF-8"
  | missing => "No such file or directory (os error 2)"
  | denied => "Permission denied (os error 13)"
  | notADirectory => "Not a directory (os error 20)"
  | isADirectory => "Is a directory (os error 21)"
  | nameTooLong => "File name too long (os error 36)"
  | other code => s!"os error {code}"

inductive InputError where
  | noSource
  | unreadable (source : InputSource) (fault : ReadFault)
  | unbuildable (e : BuildError)

def InputError.message : InputError → String
  | noSource => "template required: use a FILE argument, \"-\" for stdin, or -s/--source"
  | unreadable .standardInput fault => "failed to read stdin: " ++ fault.message
  | unreadable source fault => "failed to read '" ++ source.name ++ "': " ++ fault.message
  | unbuildable e => e.message

def limits (a : Arguments) : DepthLimits :=
  let limit := fun setting standard => ((a.get? setting).bind Arguments.readLimit?).getD standard
  { elements := limit .maxElementDepth DepthLimits.standard.elements
    directives := limit .maxDirectiveDepth DepthLimits.standard.directives
    conditions := limit .maxConditionDepth DepthLimits.standard.conditions }

def parseOptions (a : Arguments) : ParseOptions :=
  { ParseOptions.standard with
    directives := DirectiveSet.standard.insertAll (a.getAll .directive)
    depthLimits := limits a }

def load [Monad m] (read : InputSource → m (Except ReadFault String)) (a : Arguments) :
    m (Except InputError (InputSource × Document)) := do
  match InputSource.ofArguments? a with
  | none => return .error .noSource
  | some source =>
    match ← read source with
    | .error fault => return .error (.unreadable source fault)
    | .ok text =>
      match Document.parse (parseOptions a) text with
      | .error e => return .error (.unbuildable e)
      | .ok d => return .ok (source, d)

end BladeTree.Cli
