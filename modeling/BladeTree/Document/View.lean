import BladeTree.Document.Basic
import BladeTree.Document.Trivia

namespace BladeTree
namespace Document

variable (d : Document)

def kindName (id : Nat) : String := (d.kind id).nameIn d.options.nodeKinds

def tag (id : Nat) : String :=
  let span := d.span id
  s!"{d.kindName id}#{id} {span.start}..{span.stop}"

def closedBy? (id : Nat) : Option ClosedBy := d.metadata.closedBy? id

def hasFlag (id : Nat) (flag : ElementFlag) : Bool := (d.node id).hasFlag flag

def trivia (id : Nat) : List Trivia :=
  if d.kind id = .text then Trivia.classify (d.text id) else []

def childOfKind? (id : Nat) (kind : NodeKind) : Option Nat :=
  (d.children id).find? (d.kind · = kind)

def childrenOfKind (id : Nat) (kind : NodeKind) : List Nat :=
  (d.children id).filter (d.kind · = kind)

def tokenOfKind? (id : Nat) (kind : TokenType) : Option Token :=
  ((d.tokens.extract (d.node id).tokenStart (d.node id).tokenEnd).toList).find? (·.kind == kind)

def textOfKind? (id : Nat) (kind : TokenType) : Option String :=
  (d.tokenOfKind? id kind).map (·.text d.source)

/-! Attributes -/

def attributeName (id : Nat) : String :=
  (d.childOfKind? id .attributeName).elim "" d.text

def attributeValueNode? (id : Nat) : Option Nat := d.childOfKind? id .attributeValue

def attributeValue? (id : Nat) : Option String := (d.attributeValueNode? id).map d.text

def attributeQuote? (id : Nat) : Option Char := do
  let data := (d.node (← d.attributeValueNode? id)).data.toInt
  if 0 < data ∧ data < 256 then some (Char.ofNat data.toNat) else none

/-! Elements -/

def elementName (id : Nat) : String := (d.childOfKind? id .elementName).elim "" d.text

def genericArgs? (id : Nat) : Option String := do
  let offset ← d.metadata.genericArgsOffset? id
  let token ← d.tokens[(d.node id).tokenStart + offset]?
  return token.text d.source

def attributes (id : Nat) : List Nat := d.childrenOfKind id .attr

def attribute? (id : Nat) (name : String) : Option Nat :=
  (d.attributes id).find? (d.attributeName · == name)

/-- The token past the `>` that ends a start tag, from `pos` on; tokens of children are passed
over. -/
def startTagEndFrom (stop : Nat) (children : List Nat) (pos : Nat) : Nat :=
  if _h : pos < stop then
    match children.head?.filter fun child => (d.node child).tokenStart = pos with
    | some child =>
      startTagEndFrom stop children.tail (max (d.node child).tokenEnd (pos + 1))
    | none =>
      if d.kind? pos = some .greaterThan ∨ d.kind? pos = some .selfClose then pos + 1
      else startTagEndFrom stop children (pos + 1)
  else stop
termination_by stop - pos

def startTagEnd (id : Nat) : Nat :=
  d.startTagEndFrom (d.node id).tokenEnd (d.children id) (d.node id).tokenStart

def startTag (id : Nat) : String := d.tokenText (d.node id).tokenStart (d.startTagEnd id)

def closingTag? (id : Nat) : Option Nat := d.childOfKind? id .closingElementName

/-- A child that starts after the start tag and is not the closing tag. -/
def isContent (tagEnd child : Nat) : Bool :=
  tagEnd ≤ (d.node child).tokenStart && d.kind child != .closingElementName

def content (id : Nat) : List Nat := (d.children id).filter (d.isContent (d.startTagEnd id))

def isComponent (id : Nat) : Bool := (d.elementName id).startsWith "x-"

/-- The slot that an element fills, named in its tag or by an attribute. -/
def slotName? (id : Nat) : Option String :=
  let name := d.elementName id
  match name.dropPrefix? "x-slot:" with
  | some short => some short.toString
  | none =>
    if name = "x-slot" then (d.attribute? id "name").bind d.attributeValue? else none

/-- The elements in the content that fill slots. -/
def slots (id : Nat) : List Nat :=
  let start := d.startTagEnd id
  (d.childrenOfKind id .element).filter fun c =>
    start ≤ (d.node c).tokenStart && (d.slotName? c).isSome

/-! Directives -/

def directiveName (id : Nat) : String :=
  (d.textOfKind? id .directive).elim "" fun text => (text.dropPrefix? "@").elim text (·.toString)

def directiveArgs? (id : Nat) : Option String := d.textOfKind? id .directiveArgs

def directiveArgsInner? (id : Nat) : Option String := do
  let args ← d.directiveArgs? id
  let args := (args.dropPrefix? "(").elim args (·.toString)
  return (args.dropSuffix? ")").elim args (·.toString)

def directiveRole (id : Nat) : DirectiveRole := .ofData (d.node id).data

def markersOfRole (id : Nat) (role : DirectiveRole) : List Nat :=
  (d.childrenOfKind id .directive).filter (d.directiveRole · = role)

def blockOpener? (id : Nat) : Option Nat := (d.markersOfRole id .opener).head?

def blockName (id : Nat) : String := (d.blockOpener? id).elim "" d.directiveName

def blockBranches (id : Nat) : List Nat := d.markersOfRole id .branch

def blockCloser? (id : Nat) : Option Nat := (d.markersOfRole id .closer).head?

def isClosedBlock (id : Nat) : Bool := (d.blockCloser? id).isSome

/-! Echoes -/

def echoFlavor (id : Nat) : EchoFlavor :=
  match d.kind id with
  | .rawEcho => .raw
  | .tripleEcho => .triple
  | _ => .escaped

def echoExpression (id : Nat) : String :=
  (d.textOfKind? id .echoContent).elim "" WhiteSpace.trim

def isClosedEcho (id : Nat) : Bool :=
  0 < (d.node id).tokenCount && (d.kind? ((d.node id).tokenEnd - 1)).any (·.isEchoEnd)

end Document
end BladeTree
