namespace BladeTree

/-- A directive that opens a block, with the directives that end or divide it. -/
structure BlockRule where
  name : String
  terminators : List String
  branches : List String
  /-- Counts against the depth limit of conditions. -/
  conditional : Bool
  /-- Opens a block only with arguments. -/
  requiresArgs : Bool
  /-- From this many arguments on the directive stands alone. -/
  inlineArity : Option Nat
  deriving DecidableEq, Repr

namespace BlockRule

def plain (name : String) (terminators branches : List String) : BlockRule :=
  ⟨name, terminators, branches, false, false, none⟩

def condition (name : String) (terminators branches : List String) : BlockRule :=
  { plain name terminators branches with conditional := true }

def table : List BlockRule := [
  condition "if" ["endif"] ["elseif", "else"],
  condition "unless" ["endunless"] ["else"],
  { condition "isset" ["endisset"] ["else"] with requiresArgs := true },
  { condition "empty" ["endempty"] ["else"] with requiresArgs := true },
  condition "auth" ["endauth"] ["else"],
  condition "guest" ["endguest"] ["else"],
  condition "env" ["endenv"] ["else"],
  condition "production" ["endproduction"] ["else"],
  condition "can" ["endcan"] ["elsecan", "elsecannot", "else"],
  condition "cannot" ["endcannot"] ["elsecannot", "elsecan", "else"],
  condition "canany" ["endcanany"] ["elsecanany", "else"],
  condition "hasSection" ["endif"] ["else"],
  condition "sectionMissing" ["endif"] ["else"],
  condition "error" ["enderror"] ["else"],
  condition "session" ["endsession"] [],
  condition "context" ["endcontext"] [],
  condition "switch" ["endswitch"] ["case", "default"],
  plain "for" ["endfor"] [],
  plain "foreach" ["endforeach"] [],
  plain "forelse" ["endforelse"] ["empty"],
  plain "while" ["endwhile"] [],
  { plain "section" ["endsection", "show", "stop", "overwrite", "append"] [] with
    inlineArity := some 2 },
  { plain "push" ["endpush"] [] with inlineArity := some 2 },
  { plain "prepend" ["endprepend"] [] with inlineArity := some 2 },
  plain "pushOnce" ["endPushOnce"] [],
  plain "prependOnce" ["endPrependOnce"] [],
  plain "once" ["endonce"] [],
  plain "component" ["endcomponent"] [],
  { plain "slot" ["endslot"] [] with inlineArity := some 2 },
  plain "fragment" ["endfragment"] []]

def find? (name : String) : Option BlockRule :=
  table.find? (·.name == name)

def isTerminator (rule : BlockRule) (name : String) : Bool := rule.terminators.contains name

/-- `@empty` both opens a block and divides `@forelse`; with arguments it always opens. -/
def acceptsBranch (rule : BlockRule) (name : String) (hasArgs : Bool) : Bool :=
  rule.branches.contains name && !(hasArgs && (find? name).isSome)

/-- The directive opens a block when written with this many arguments. -/
def opens (rule : BlockRule) (hasArgs : Bool) (arity : Nat) : Bool :=
  (hasArgs || !rule.requiresArgs) && rule.inlineArity.all (arity < ·)

end BlockRule

def isTerminatorName (name : String) : Bool := BlockRule.table.any (·.isTerminator name)

def isBranchName (name : String) : Bool := BlockRule.table.any (·.branches.contains name)

end BladeTree
