import BladeTree.Diagnostic.Basic
import BladeTree.Fault
import BladeTree.Node.Metadata
import BladeTree.Options
import BladeTree.Tree.Frame

namespace BladeTree

inductive BuildError where
  | depthLimit (counter : DepthCounter) (limit offset : Nat)
  | fault (f : Fault)
  deriving DecidableEq, Repr

abbrev Build := Except BuildError

def Build.fault (f : Fault) : Build α := .error (.fault f)

structure Tokenized where
  options : ParseOptions
  source : Source
  tokens : Array Token

namespace Tokenized

def size (t : Tokenized) : Nat := t.tokens.size

def kind? (t : Tokenized) (i : Nat) : Option TokenType := (t.tokens[i]?).map (·.kind)

def token (t : Tokenized) (i : Nat) : Build Token :=
  match t.tokens[i]? with
  | some token => .ok token
  | none => Build.fault (.missingToken i)

def text (t : Tokenized) (i : Nat) : Build String := (·.text t.source) <$> t.token i

/-- Where token `i` starts, or the end of the source past the last token. -/
def offset (t : Tokenized) (i : Nat) : Nat :=
  (t.tokens[i]?).elim t.source.size (·.start)

def span (t : Tokenized) (start stop : Nat) : Build Span := do
  if start < stop then
    return ⟨(← t.token start).start, (← t.token (stop - 1)).stop⟩
  else return ⟨t.offset start, t.offset start⟩

end Tokenized

/-- The tree built so far from the tokens before `pos`. -/
structure Builder where
  pos : Nat
  nodes : Array FlatNode
  metadata : Metadata
  diagnostics : Array Diagnostic
  stack : List Frame
  /-- Open elements, blocks and conditions. -/
  elements : Nat
  directives : Nat
  conditions : Nat

namespace Builder

variable (t : Tokenized)

def initial : Builder :=
  ⟨0, #[.unlinked .document 0], .empty, #[], [], 0, 0, 0⟩

def root : Nat := 0

def current? (b : Builder) : Option TokenType := t.kind? b.pos

def isAt (b : Builder) (kind : TokenType) : Bool := b.current? t == some kind

def bump (b : Builder) : Build Builder :=
  if b.pos < t.size then .ok { b with pos := b.pos + 1 } else Build.fault .pastEnd

def bumpMany : Nat → Builder → Build Builder
  | 0, b => .ok b
  | n + 1, b => do bumpMany n (← b.bump t)

def eat (b : Builder) (kind : TokenType) : Build (Bool × Builder) := do
  if b.isAt t kind then return (true, ← b.bump t) else return (false, b)

def node (b : Builder) (id : Nat) : Build FlatNode :=
  match b.nodes[id]? with
  | some node => .ok node
  | none => Build.fault (.missingNode id)

def modify (b : Builder) (id : Nat) (f : FlatNode → FlatNode) : Build Builder :=
  if id < b.nodes.size then .ok { b with nodes := b.nodes.modify id f }
  else Build.fault (.missingNode id)

/-- A new node under `parent`, after its other children, that starts at the next token. -/
def startIn (b : Builder) (parent : Nat) (kind : NodeKind) : Build (Nat × Builder) := do
  let id := b.nodes.size
  let prev := (← b.node parent).lastChild
  let child := { FlatNode.unlinked kind b.pos with parent := some parent, prevSibling := prev }
  let b := { b with nodes := b.nodes.push child }
  let b ← match prev with
    | some prev => b.modify prev ({ · with nextSibling := some id })
    | none => b.modify parent ({ · with firstChild := some id })
  return (id, ← b.modify parent ({ · with lastChild := some id }))

def parent (b : Builder) : Nat := b.stack.head?.elim root (·.node)

def finishAt (b : Builder) (id : Nat) (stop : Nat) : Build Builder := do
  let start := (← b.node id).tokenStart
  if start ≤ stop then b.modify id ({ · with tokenCount := stop - start })
  else Build.fault (.negativeSpan id)

def finish (b : Builder) (id : Nat) : Build Builder := b.finishAt id b.pos

def setData (b : Builder) (id : Nat) (data : Int32) : Build Builder :=
  b.modify id ({ · with data := data })

def setFlag (b : Builder) (id : Nat) (flag : ElementFlag) : Build Builder :=
  b.modify id fun n => { n with data := n.data ||| flag.bit }

def leaf (b : Builder) (parent : Nat) (kind : NodeKind) (count : Nat) :
    Build (Nat × Builder) := do
  let (id, b) ← b.startIn parent kind
  return (id, ← (← b.bumpMany t count).finish id)

def report (b : Builder) (d : Diagnostic) : Builder :=
  { b with diagnostics := b.diagnostics.push d }

def reportTokens (b : Builder) (kind : DiagnosticKind) (start stop : Nat) (detail : String)
    (context : Option String) : Build Builder := do
  return b.report (.detailed kind (← t.span start stop) detail context)

def depth (b : Builder) : DepthCounter → Nat
  | .elements => b.elements
  | .directives => b.directives
  | .conditions => b.conditions

def checkDepth (b : Builder) (counters : List DepthCounter) (start : Nat) : Build Unit :=
  counters.forM fun counter =>
    let limit := t.options.depthLimits.get counter
    if limit ≤ b.depth counter + 1 then .error (.depthLimit counter limit (t.offset start))
    else .ok ()

def pushFrame (b : Builder) (f : Frame) : Builder :=
  let b := match f.kind with
    | .element _ => { b with elements := b.elements + 1 }
    | .directive rule _ =>
      let b := { b with directives := b.directives + 1 }
      if rule.conditional then { b with conditions := b.conditions + 1 } else b
  { b with stack := f :: b.stack }

def countDown (n : Nat) : Build Nat :=
  if 0 < n then .ok (n - 1) else Build.fault .negativeDepth

/-- Takes the top frame off the stack and ends its node before token `stop`. -/
def popFrame (b : Builder) (stop : Nat) : Build (Option Frame × Builder) := do
  match b.stack with
  | [] => return (none, b)
  | f :: below =>
    let b := { b with stack := below }
    let b ← match f.kind with
      | .element _ => do pure { b with elements := ← countDown b.elements }
      | .directive rule _ => do
        let b := { b with directives := ← countDown b.directives }
        if rule.conditional then pure { b with conditions := ← countDown b.conditions }
        else pure b
    return (some f, ← b.finishAt f.node stop)

/-- Closes the top frame without an end of its own, and reports it unless the end is implied. -/
def forceClose (b : Builder) (reason : ClosedBy) (stop : Nat) (context : Option String) :
    Build Builder := do
  match ← b.popFrame stop with
  | (none, b) => return b
  | (some f, b) =>
    let b := { b with metadata := b.metadata.setClosedBy f.node reason }
    let node ← b.node f.node
    let start := node.tokenStart
    match f.kind with
    | .element name =>
      let b ← b.setFlag f.node .syntheticClose
      if reason.isImplied then return b
      b.reportTokens t .unclosedElement start (min (start + 2) stop) name context
    | .directive _ name =>
      let markerEnd ← match node.firstChild with
        | some marker => (·.tokenEnd) <$> b.node marker
        | none => pure (start + 1)
      b.reportTokens t .unclosedDirective start (min markerEnd stop) name context

def forceCloseMany (close : List Frame → ClosedBy × Option String) (stop : Nat) :
    Nat → Builder → Build Builder
  | 0, b => .ok b
  | n + 1, b => do
    let (reason, context) := close b.stack
    forceCloseMany close stop n (← b.forceClose t reason stop context)

end Builder
end BladeTree
