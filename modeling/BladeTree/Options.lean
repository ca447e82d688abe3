import BladeTree.Directive.Known
import BladeTree.Text.Quoted
import BladeTree.Tree.Extension

namespace BladeTree

/-- What is counted against a depth limit. -/
inductive DepthCounter where
  | elements
  | directives
  | conditions
  deriving DecidableEq, Repr

def DepthCounter.word : DepthCounter → String
  | elements => "element"
  | directives => "directive"
  | conditions => "condition"

structure DepthLimits where
  elements : Nat
  directives : Nat
  conditions : Nat
  deriving DecidableEq, Repr

namespace DepthLimits

def standard : DepthLimits := ⟨500, 250, 250⟩

def get (l : DepthLimits) : DepthCounter → Nat
  | .elements => l.elements
  | .directives => l.directives
  | .conditions => l.conditions

end DepthLimits

structure ParseOptions where
  directives : DirectiveSet
  depthLimits : DepthLimits
  /-- Highest priority first. -/
  lexerExtensions : List LexerExtension
  /-- Highest priority first. -/
  treeExtensions : List TreeExtension
  tokenTypes : Registry
  nodeKinds : Registry

namespace ParseOptions

def standard : ParseOptions :=
  ⟨.standard, .standard, [], [], .extensions, .extensions⟩

/-- Standard options but for the known directives. -/
def ofDirectives (names : List String) : ParseOptions :=
  ⟨⟨names, true⟩, .standard, [], [], .extensions, .extensions⟩

def build (directives : DirectiveSet) (depthLimits : DepthLimits)
    (lexerExtensions : List LexerExtension) (treeExtensions : List TreeExtension) :
    Except RegistryError ParseOptions := do
  let lexerExtensions := lexerExtensions.mergeSort fun a b => a.priority ≥ b.priority
  let tokenTypes ← Registry.extensions.registerAll (lexerExtensions.flatMap (·.types))
  let treeExtensions := treeExtensions.mergeSort fun a b => a.priority ≥ b.priority
  let nodeKinds ← Registry.extensions.registerAll (treeExtensions.flatMap (·.kinds))
  return ⟨directives, depthLimits, lexerExtensions, treeExtensions, tokenTypes, nodeKinds⟩

def isTrigger (o : ParseOptions) (b : UInt8) : Bool :=
  o.lexerExtensions.any (·.triggers.contains b)

def summary (o : ParseOptions) : String :=
  let names := fun (names : List String) =>
    "[" ++ ", ".intercalate (names.map Quoted.text) ++ "]"
  let limits := "elements: " ++ toString o.depthLimits.elements ++
    ", directives: " ++ toString o.depthLimits.directives ++
    ", conditions: " ++ toString o.depthLimits.conditions
  "ParseOptions \x7b directives: " ++ toString o.directives.size ++
    ", depth_limits: DepthLimits \x7b " ++ limits ++
    " \x7d, lexer_extensions: " ++ names (o.lexerExtensions.map (·.name)) ++
    ", tree_extensions: " ++ names (o.treeExtensions.map (·.name)) ++ " \x7d"

end ParseOptions
end BladeTree
