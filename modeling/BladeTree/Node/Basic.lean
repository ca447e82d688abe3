import BladeTree.Registry

namespace BladeTree

inductive NodeKind where
  | document
  | text
  | element
  | elementName
  | closingElementName
  | attr
  | attributeName
  | attributeValue
  | echo
  | rawEcho
  | tripleEcho
  | directive
  | directiveBlock
  | comment
  | bladeComment
  | bogusComment
  | doctype
  | cdata
  | phpBlock
  | phpTag
  | verbatim
  | strayClosingTag
  /-- Ids `22 … 127`, which no construct uses. -/
  | unassigned (n : Fin 106)
  /-- Ids `128 … 255`. -/
  | extension (n : Fin 128)
  deriving DecidableEq, Repr

namespace NodeKind

/-- The kinds of the language's own constructs, in the order of their ids, with their names. -/
def builtins : List (NodeKind × String) := [
  (document, "Document"), (text, "Text"), (element, "Element"), (elementName, "ElementName"),
  (closingElementName, "ClosingElementName"), (attr, "Attribute"),
  (attributeName, "AttributeName"), (attributeValue, "AttributeValue"), (echo, "Echo"),
  (rawEcho, "RawEcho"), (tripleEcho, "TripleEcho"), (directive, "Directive"),
  (directiveBlock, "DirectiveBlock"), (comment, "Comment"), (bladeComment, "BladeComment"),
  (bogusComment, "BogusComment"), (doctype, "Doctype"), (cdata, "Cdata"),
  (phpBlock, "PhpBlock"), (phpTag, "PhpTag"), (verbatim, "Verbatim"),
  (strayClosingTag, "StrayClosingTag")]

def id : NodeKind → UInt8
  | unassigned n => 22 + n.val.toUInt8
  | extension n => 128 + n.val.toUInt8
  | k => (builtins.findIdx (·.1 == k)).toUInt8

def ofId (id : UInt8) : NodeKind :=
  let n := id.toNat
  match builtins[n]? with
  | some (k, _) => k
  | none =>
    if n < 128 then unassigned (Fin.ofNat 106 (n - 22)) else extension (Registry.extensionPlace n)

def builtinName? (k : NodeKind) : Option String := builtins.lookup k

def isExtension : NodeKind → Bool
  | extension _ => true
  | _ => false

def isEcho : NodeKind → Bool
  | echo | rawEcho | tripleEcho => true
  | _ => false

def isContainer : NodeKind → Bool
  | document | element | attr | directiveBlock => true
  | _ => false

def bareName (k : NodeKind) : String :=
  k.builtinName?.getD s!"Extension({k.id})"

/-- The name under which a kind is shown, given the registered ones. -/
def nameIn (k : NodeKind) (registry : Registry) : String :=
  k.builtinName?.getD <| ((registry.get? k.id).map (·.display)).getD k.bareName

end NodeKind

/-- One slot of an arena. The id of a node is the place of its slot, and the links of a tree are
the ids of other slots. -/
structure FlatNode where
  kind : NodeKind
  tokenStart : Nat
  tokenCount : Nat
  /-- Flags of an element, role of a directive or quote of an attribute value. -/
  data : Int32
  parent : Option Nat
  firstChild : Option Nat
  lastChild : Option Nat
  nextSibling : Option Nat
  prevSibling : Option Nat
  deriving DecidableEq

namespace FlatNode

def unlinked (kind : NodeKind) (tokenStart : Nat) : FlatNode :=
  ⟨kind, tokenStart, 0, 0, none, none, none, none, none⟩

def tokenEnd (n : FlatNode) : Nat := n.tokenStart + n.tokenCount

end FlatNode

/-- The bits in the data of an element. -/
inductive ElementFlag where
  | selfClosing
  | void
  /-- Closed without a closing tag of its own. -/
  | syntheticClose
  /-- The start tag ends before its `>`. -/
  | unclosedStartTag
  /-- Closed by its own closing tag. -/
  | paired
  deriving DecidableEq, Repr

namespace ElementFlag

def bit : ElementFlag → Int32
  | selfClosing => 1
  | void => 2
  | syntheticClose => 4
  | unclosedStartTag => 8
  | paired => 16

def all : List ElementFlag := [selfClosing, void, syntheticClose, unclosedStartTag, paired]

def isIn (flag : ElementFlag) (data : Int32) : Bool := data &&& flag.bit != 0

end ElementFlag

def FlatNode.hasFlag (n : FlatNode) (flag : ElementFlag) : Bool := flag.isIn n.data

/-- What a directive does for the block around it. -/
inductive DirectiveRole where
  | standalone
  | opener
  | branch
  | closer
  deriving DecidableEq, Repr

namespace DirectiveRole

def data : DirectiveRole → Int32
  | standalone => 0
  | opener => 1
  | branch => 2
  | closer => 3

def ofData (data : Int32) : DirectiveRole :=
  if data = 1 then opener else if data = 2 then branch else if data = 3 then closer
  else standalone

end DirectiveRole
end BladeTree
