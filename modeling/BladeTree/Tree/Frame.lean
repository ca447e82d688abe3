import BladeTree.Directive.Block
import BladeTree.Node.Basic
import BladeTree.OptionalTag

namespace BladeTree

inductive FrameKind where
  | element (name : String)
  | directive (rule : BlockRule) (name : String)
  deriving DecidableEq, Repr

/-- A node that is still open. A stack of frames is a list, the innermost first. -/
structure Frame where
  node : Nat
  kind : FrameKind
  deriving DecidableEq, Repr

namespace Frame

def elementName? (f : Frame) : Option String :=
  match f.kind with
  | .element name => some name
  | .directive _ _ => none

def blockRule? (f : Frame) : Option BlockRule :=
  match f.kind with
  | .element _ => none
  | .directive rule _ => some rule

/-- The top element may end without an end tag where its parent ends. -/
def endsWithParent : List Frame → Bool
  | [] => false
  | f :: below =>
    f.elementName?.any fun name =>
      match below.head?.bind elementName? with
      | some parent => OptionalTag.endsWithParent name parent
      | none => OptionalTag.isListed name

/-- How many frames lie above the element that a start tag called `name` ends. Elements that end
with their parent are looked past. -/
def siblingTarget (name : String) : List Frame → Option Nat
  | [] => none
  | f :: below =>
    match f.elementName? with
    | none => none
    | some opened =>
      if OptionalTag.endsAtSibling opened name then some 0
      else if below.isEmpty || !endsWithParent (f :: below) then none
      else (siblingTarget name below).map (· + 1)

/-- What a closing tag finds on the stack. -/
inductive CloseTarget where
  /-- The element it closes, under this many frames. -/
  | element (above : Nat)
  /-- No element that it could close, and a block on the way. -/
  | blocked
  | missing
  deriving DecidableEq, Repr

/-- Looks for the innermost element called `name`. A block frame hides those below it. -/
def closeTarget (name : String) (above : Nat) (blocked : Bool) : List Frame → CloseTarget
  | [] => if blocked then .blocked else .missing
  | f :: below =>
    match f.kind with
    | .directive _ _ => closeTarget name (above + 1) true below
    | .element opened =>
      if sameName opened name then (if blocked then .blocked else .element above)
      else closeTarget name (above + 1) blocked below

def nearestBlock? (above : Nat) : List Frame → Option (Nat × BlockRule)
  | [] => none
  | f :: below =>
    match f.blockRule? with
    | some rule => some (above, rule)
    | none => nearestBlock? (above + 1) below

/-- The number of frames above the innermost block that `name` ends. -/
def terminatedBlock? (name : String) (stack : List Frame) : Option Nat :=
  stack.findIdx? fun f => f.blockRule?.any (·.isTerminator name)

end Frame
end BladeTree
