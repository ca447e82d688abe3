import BladeTree.Token.Code
import BladeTree.Tree.Builder

namespace BladeTree
namespace Tokenized

variable (t : Tokenized)

/-- The argument token of the directive at token `i`, with white space before it or none. -/
def argsIndex? (i : Nat) : Option Nat :=
  match t.kind? (i + 1) with
  | some .directiveArgs => some (i + 1)
  | some .whitespace => if t.kind? (i + 2) = some .directiveArgs then some (i + 2) else none
  | _ => none

def argumentCount (i : Nat) : Build Nat := do
  let args ← t.token i
  return (t.source.countArguments .empty args.start args.stop).1

def directiveName (i : Nat) : Build String := do
  let text ← t.text i
  return (text.dropPrefix? "@").elim text (·.toString)

end Tokenized

namespace Builder

variable (t : Tokenized)

def needsArguments : List String :=
  ["if", "elseif", "unless", "foreach", "for", "while", "forelse", "switch", "case"]

def directiveLeaf (b : Builder) (parent : Nat) (role : DirectiveRole) : Build Builder := do
  let count := (t.argsIndex? b.pos).elim 1 (· + 1 - b.pos)
  let (id, b) ← b.leaf t parent .directive count
  b.setData id role.data

/-- How a frame above a block is closed by a directive of the block. -/
def closedByDirective (name : String) (stack : List Frame) : ClosedBy × Option String :=
  if (stack.head?.bind Frame.elementName?).any OptionalTag.isListed then (.parentEnd, none)
  else (.directiveEnd, some ("closed by `@" ++ name ++ "`"))

def closeAboveBlock (b : Builder) (above : Nat) (name : String) : Build Builder :=
  b.forceCloseMany t (closedByDirective name) b.pos above

def openBlock (b : Builder) (rule : BlockRule) (name : String) : Build Builder := do
  let counters :=
    if rule.conditional then [DepthCounter.directives, .conditions] else [.directives]
  b.checkDepth t counters b.pos
  let (block, b) ← b.startIn b.parent .directiveBlock
  let b ← b.directiveLeaf t block .opener
  return b.pushFrame ⟨block, .directive rule name⟩

def missingArguments (b : Builder) (name : String) (start stop : Nat) : Build Builder :=
  b.reportTokens t .missingContent start stop ("`@" ++ name ++ "` needs arguments") none

inductive DirectivePlace where
  | branch (above : Nat)
  | terminator (above : Nat)
  | opener (rule : BlockRule)
  /-- An end without a block. -/
  | strayTerminator
  /-- A branch outside of its blocks. -/
  | strayBranch
  | standalone
  deriving DecidableEq

/-- Whether an entry of the block table for this name opens with the arguments given. -/
def opening? (name : String) (hasArgs : Bool) (arity : Nat) : Option BlockRule :=
  (BlockRule.find? name).filter (·.opens hasArgs arity)

def directivePlace (stack : List Frame) (name : String) (hasArgs : Bool) (arity : Nat) :
    DirectivePlace :=
  match Frame.nearestBlock? 0 stack with
  | some (above, rule) =>
    if rule.acceptsBranch name hasArgs then .branch above else outside stack name hasArgs arity
  | none => outside stack name hasArgs arity
where
  outside (stack : List Frame) (name : String) (hasArgs : Bool) (arity : Nat) :
      DirectivePlace :=
    match Frame.terminatedBlock? name stack with
    | some above => .terminator above
    | none =>
      match opening? name hasArgs arity with
      | some rule => .opener rule
      | none =>
        if isTerminatorName name then .strayTerminator
        else if isBranchName name && !(hasArgs && (BlockRule.find? name).isSome) then
          .strayBranch
        else .standalone

def directive (b : Builder) : Build Builder := do
  let start := b.pos
  let name ← t.directiveName start
  let args := t.argsIndex? start
  let hasArgs := args.isSome
  let arity ← match args with
    | some i => t.argumentCount i
    | none => pure 0
  let b ←
    if !hasArgs && needsArguments.contains name then b.missingArguments t name start (start + 1)
    else pure b
  match directivePlace b.stack name hasArgs arity with
  | .branch above =>
    let b ← b.closeAboveBlock t above name
    b.directiveLeaf t b.parent .branch
  | .terminator above =>
    let b ← b.closeAboveBlock t above name
    let b ← b.directiveLeaf t b.parent .closer
    return (← b.popFrame b.pos).2
  | .opener rule => b.openBlock t rule name
  | .strayTerminator =>
    let b ← b.directiveLeaf t b.parent .closer
    b.reportTokens t .unexpectedClosingTag start b.pos ("@" ++ name) none
  | .strayBranch =>
    let b ← b.directiveLeaf t b.parent .branch
    b.reportTokens t .invalidNesting start b.pos
      ("`@" ++ name ++ "` is outside of a block it belongs to") none
  | .standalone =>
    let b ← b.directiveLeaf t b.parent .standalone
    if !hasArgs && (BlockRule.find? name).any (·.requiresArgs) then
      b.missingArguments t name start b.pos
    else return b

end Builder
end BladeTree
