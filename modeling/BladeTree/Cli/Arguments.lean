namespace BladeTree.Cli

inductive Command where
  | tokens
  | tree
  | check
  | transform
  deriving DecidableEq, Repr

namespace Command

def all : List Command := [tokens, tree, check, transform]

def name : Command → String
  | tokens => "tokens"
  | tree => "tree"
  | check => "check"
  | transform => "rewrite"

def ofName? (s : String) : Option Command := all.find? (·.name == s)

end Command

inductive Switch where
  | json
  | spans
  | tokens
  | strict
  | compileAttributeDirectives
  deriving DecidableEq, Repr

inductive Setting where
  | source
  | color
  | maxElementDepth
  | maxDirectiveDepth
  | maxConditionDepth
  deriving DecidableEq, Repr

inductive Listing where
  | directive
  | removeAttr
  | renameTag
  | removeDirective
  deriving DecidableEq, Repr

inductive Opt where
  | switch (s : Switch)
  | setting (s : Setting)
  | listing (l : Listing)
  | help
  deriving DecidableEq, Repr

namespace Opt

def table : List (String × Opt) := [
  ("json", switch .json), ("spans", switch .spans), ("tokens", switch .tokens),
  ("strict", switch .strict),
  ("compile-attribute-directives", switch .compileAttributeDirectives),
  ("source", setting .source), ("color", setting .color),
  ("max-element-depth", setting .maxElementDepth),
  ("max-directive-depth", setting .maxDirectiveDepth),
  ("max-condition-depth", setting .maxConditionDepth),
  ("directive", listing .directive), ("remove-attr", listing .removeAttr),
  ("rename-tag", listing .renameTag), ("remove-directive", listing .removeDirective),
  ("help", help)]

/-- The commands that show something take the options of one another. -/
def isFor (c : Command) : Opt → Bool
  | help => true
  | setting .color => c != .transform
  | setting _ => true
  | listing .directive => true
  | listing _ => c == .transform
  | switch .compileAttributeDirectives => c == .transform
  | switch _ => c != .transform

def ofLong? (c : Command) (name : String) : Option Opt := (table.lookup name).filter (isFor c)

def ofShort? : Char → Option Opt
  | 's' => some (setting .source)
  | 'h' => some help
  | _ => none

end Opt

inductive Stop where
  | misuse
  | help
  deriving DecidableEq, Repr

structure Arguments where
  path : Option String
  switches : List Switch
  settings : List (Setting × String)
  /-- In the order in which they are given. -/
  listings : List (Listing × String)
  deriving Repr

namespace Arguments

def empty : Arguments := ⟨none, [], [], []⟩

def has (a : Arguments) (s : Switch) : Bool := a.switches.contains s

def get? (a : Arguments) (s : Setting) : Option String := a.settings.lookup s

def getAll (a : Arguments) (l : Listing) : List String :=
  (a.listings.filter (·.1 == l)).map (·.2)

def readInt? (s : String) : Option Int :=
  let digits := fun (cs : List Char) =>
    if cs.isEmpty || !cs.all Char.isDigit then none
    else some (cs.foldl (fun n c => 10 * n + (c.toNat - '0'.toNat)) 0)
  match s.toList with
  | '-' :: cs => (digits cs).map fun n => -Int.ofNat n
  | '+' :: cs => (digits cs).map Int.ofNat
  | cs => (digits cs).map Int.ofNat

def readLimit? (s : String) : Option Nat :=
  (readInt? s).bind fun n => if 0 ≤ n ∧ n ≤ 0xFFFFFFFF then some n.toNat else none

def accepts : Setting → String → Bool
  | .source, _ => true
  | .color, value => ["auto", "always", "never"].contains value
  | _, value => (readLimit? value).isSome

def addPath (a : Arguments) (path : String) : Except Stop Arguments :=
  if path.isEmpty ∨ a.path.isSome then .error .misuse else .ok { a with path := some path }

def addSwitch (a : Arguments) (s : Switch) : Except Stop Arguments :=
  if a.has s then .error .misuse else .ok { a with switches := s :: a.switches }

def addSetting (a : Arguments) (s : Setting) (value : String) : Except Stop Arguments :=
  if (a.get? s).isSome ∨ !accepts s value then .error .misuse
  else .ok { a with settings := (s, value) :: a.settings }

def addListing (a : Arguments) (l : Listing) (value : String) : Arguments :=
  { a with listings := a.listings ++ [(l, value)] }

/-- What an argument is for. -/
inductive Word where
  | path (path : String)
  /-- Only paths follow. -/
  | endOfOptions
  | option (o : Opt) (attached : Option String)
  | unknown
  deriving Repr

def readLong (c : Command) (cs : List Char) : Word :=
  let name := String.ofList (cs.takeWhile (· != '='))
  let attached := match cs.dropWhile (· != '=') with
    | [] => none
    | _ :: value => some (String.ofList value)
  match Opt.ofLong? c name with
  | some o => .option o attached
  | none => .unknown

def readShort (letter : Char) (cs : List Char) : Word :=
  let attached := match cs with
    | [] => none
    | '=' :: value => some (String.ofList value)
    | value => some (String.ofList value)
  match Opt.ofShort? letter with
  | some .help => .option .help none
  | some o => .option o attached
  | none => .unknown

def readWord (c : Command) (arg : String) : Word :=
  match arg.toList with
  | ['-', '-'] => .endOfOptions
  | '-' :: '-' :: cs => readLong c cs
  | '-' :: letter :: cs => readShort letter cs
  | _ => .path arg

def isValue (c : Command) (arg : String) : Bool := readWord c arg matches .path _

def addValue (a : Arguments) : Opt → String → Except Stop Arguments
  | .setting s, value => a.addSetting s value
  | .listing l, value => .ok (a.addListing l value)
  | _, _ => .error .misuse

def addBare (a : Arguments) : Opt → Except Stop Arguments
  | .switch s => a.addSwitch s
  | .help => .error .help
  | _ => .error .misuse

def takesValue : Opt → Bool
  | .setting _ | .listing _ => true
  | _ => false

def read (c : Command) (a : Arguments) : List String → Except Stop Arguments
  | [] => .ok a
  | arg :: rest =>
    match readWord c arg with
    | .path path => do read c (← a.addPath path) rest
    | .endOfOptions => rest.foldlM addPath a
    | .option o (some value) => do read c (← a.addValue o value) rest
    | .option o none =>
      if takesValue o then
        match rest with
        | value :: rest =>
          if isValue c value then do read c (← a.addValue o value) rest else .error .misuse
        | [] => .error .misuse
      else do read c (← a.addBare o) rest
    | .unknown => .error .misuse

def check (a : Arguments) : Except Stop Arguments :=
  if a.path.isSome ∧ (a.get? .source).isSome then .error .misuse else .ok a

end Arguments

def readCommandLine : List String → Except Stop (Command × Arguments)
  | [] => .error .misuse
  | name :: rest =>
    match Command.ofName? name with
    | some c => do return (c, ← (← Arguments.read c .empty rest).check)
    | none =>
      if name = "--help" ∨ name.startsWith "-h" then .error .help
      else if name = "help" then
        match rest with
        | [] => .error .help
        | [topic] =>
          .error (if topic = "help" ∨ (Command.ofName? topic).isSome then .help else .misuse)
        | _ => .error .misuse
      else .error .misuse

end BladeTree.Cli
