import BladeTree.Directive.Block

namespace BladeTree

/-- The names that make `@name` a directive, in order of insertion. -/
structure DirectiveSet where
  names : List String
  /-- An unknown name is a directive when `(` follows it directly. -/
  acceptsUnknownWithArgs : Bool

namespace DirectiveSet

def empty : DirectiveSet := ⟨[], true⟩

def contains (d : DirectiveSet) (name : String) : Bool := d.names.contains name

def insert (d : DirectiveSet) (name : String) : DirectiveSet :=
  if d.contains name then d else { d with names := d.names ++ [name] }

def insertAll (d : DirectiveSet) (names : List String) : DirectiveSet := names.foldl insert d

def size (d : DirectiveSet) : Nat := d.names.length

def isEmpty (d : DirectiveSet) : Bool := d.names.isEmpty

/-- `@name` is a directive; `immediateArgs` says that `(` follows the name at once. -/
def recognizes (d : DirectiveSet) (name : String) (immediateArgs : Bool) : Bool :=
  d.contains name || (immediateArgs && d.acceptsUnknownWithArgs)

def standalone : List String := [
  "extends", "include", "includeIf", "includeWhen", "includeUnless", "includeFirst", "each",
  "yield", "parent", "stack", "hasstack", "csrf", "method", "json", "js", "lang", "choice",
  "break", "continue", "class", "style", "checked", "selected", "disabled", "readonly",
  "required", "props", "aware", "inject", "use", "vite", "viteReactRefresh", "dd", "dump", "php",
  "endphp", "verbatim", "endverbatim", "livewire", "livewireStyles", "livewireScripts",
  "entangle", "this", "unset", "pushIf", "endPushIf"]

/-- The names of the block table, rule by rule, then the standalone ones. -/
def standard : DirectiveSet :=
  let blocks := BlockRule.table.flatMap fun rule =>
    rule.name :: (rule.terminators ++ rule.branches)
  (empty.insertAll blocks).insertAll standalone

end DirectiveSet
end BladeTree
