import BladeTree.Tree.Element

namespace BladeTree
namespace Builder

variable (t : Tokenized)

def single (b : Builder) (kind : NodeKind) : Build Builder := do
  return (← b.leaf t b.parent kind 1).2

/-- A construct of the language that starts with a token of this type. -/
def construct (b : Builder) (kind : TokenType) : Build Builder :=
  match kind with
  | .lessThan =>
    if t.kind? (b.pos + 1) = some .slash then b.closingTag t
    else if t.kind? (b.pos + 1) = some .tagName then b.startTag t
    else b.text t b.parent
  | .echoStart => b.escapedEcho t b.parent
  | .rawEchoStart => b.rawEcho t b.parent
  | .tripleEchoStart => b.tripleEcho t b.parent
  | .bladeCommentStart => b.bladeComment t b.parent
  | .commentStart => b.comment t b.parent
  | .bogusComment => b.single t .bogusComment
  | .doctype => b.single t .doctype
  | .cdata => b.single t .cdata
  | .phpBlockStart => b.phpBlock t b.parent
  | .phpTagStart => b.phpTag t b.parent
  | .verbatimStart => b.verbatim t b.parent
  | .directive => b.directive t
  | _ => b.text t b.parent

/-- One item of content: the leaf of an extension or a construct of the language. -/
def contentItem (b : Builder) : Build Builder :=
  match b.extensionLeaf? t with
  | some leaf => b.extensionLeaf t leaf
  | none =>
    match b.current? t with
    | some kind => b.construct t kind
    | none => return b

def items (b : Builder) : Build Builder := do
  if _h : b.pos < t.size then
    let next ← b.contentItem t
    if _hp : b.pos < next.pos then items next else Build.fault (.builderStuck b.pos)
  else return b
termination_by t.size - b.pos

def closedByEnd (stack : List Frame) : ClosedBy × Option String :=
  (if Frame.endsWithParent stack then .parentEnd else .eof, some "end of input")

def build : Build Builder := do
  let b ← initial.items t
  let b ← b.forceCloseMany t closedByEnd t.size b.stack.length
  b.finish root

end Builder
end BladeTree
