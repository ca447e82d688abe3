import BladeTree.Edit.Record

namespace BladeTree

structure Written where
  id : Nat
  pieces : List Piece

inductive ElementPart where
  | child (w : Written)
  | own (token : Nat)

/-- What becomes of a part. -/
inductive PartOutput where
  | pieces (ps : List Piece)
  /-- A blank in the start tag; it goes if what follows it is dropped. -/
  | blank (text : String)
  | dropped
  /-- Text for the end of the start tag, before a blank that may be there. -/
  | appended (ps : List Piece)

namespace PartOutput

/-- Puts together what is written, with a blank that is still held back. -/
def join (held : List Piece) : List PartOutput → List Piece
  | [] => held
  | pieces ps :: rest => held ++ ps ++ join [] rest
  | blank text :: rest => held ++ join [.plain text] rest
  | dropped :: rest => join [] rest
  | appended ps :: rest => ps ++ join held rest

end PartOutput

namespace Document

variable (d : Document)

def elementParts (pos stop : Nat) (children : List Written) : List ElementPart :=
  if _h : pos < stop then
    match children with
    | w :: rest =>
      if (d.node w.id).tokenStart = pos then
        .child w :: elementParts (max (d.node w.id).tokenEnd (pos + 1)) stop rest
      else .own pos :: elementParts (pos + 1) stop (w :: rest)
    | [] => .own pos :: elementParts (pos + 1) stop []
  else []
termination_by stop - pos

def partStart : ElementPart → Nat
  | .child w => (d.node w.id).tokenStart
  | .own token => token

def isAttributeNamed (name : String) : ElementPart → Bool
  | .child w => d.kind w.id == .attr && d.attributeName w.id == name
  | .own _ => false

def isBeforeTagEnd (tagEnd : Nat) (p : ElementPart) : Bool :=
  d.partStart p < tagEnd && d.kind? (d.partStart p) != some .greaterThan &&
    d.kind? (d.partStart p) != some .selfClose

def attributeText (id : Nat) (name value : String) : String :=
  let quote := ((d.attributeQuote? id).getD '"').toString
  name ++ "=" ++ quote ++ value ++ quote

def editAttribute (e : NodeEdits) (w : Written) : PartOutput :=
  let name := d.attributeName w.id
  match e.setAttributes.lookup name with
  | some value => .pieces [.plain (d.attributeText w.id name value)]
  | none =>
    if e.removesAttribute name then .dropped
    else if name = "class" ∧ e.hasClassEdits then
      let classes := e.classes ((d.attributeValue? w.id).getD "")
      if classes.isEmpty then .dropped else .pieces [.plain (d.attributeText w.id name classes)]
    else .pieces w.pieces

/-- A closing tag under a new name; its blanks and anything else after the name stay. -/
def renamedClosingTag (id : Nat) (name : String) : String :=
  let stop := (d.node id).tokenEnd
  "</" ++ name ++ d.tokenText (min ((d.node id).tokenStart + 3) stop) stop

def editPart (e : NodeEdits) (tagEnd : Nat) : ElementPart → PartOutput
  | .own token =>
    let text := d.tokenText token (token + 1)
    if token < tagEnd ∧ d.kind? token = some .whitespace then .blank text
    else .pieces [.plain text]
  | .child w =>
    match d.kind w.id, e.newName with
    | .elementName, some name => .pieces [.plain name]
    | .closingElementName, some name => .pieces [.plain (d.renamedClosingTag w.id name)]
    | .attr, _ => d.editAttribute e w
    | _, _ => .pieces w.pieces

def newAttributes (e : NodeEdits) (id : Nat) (hasClass : Bool) : List Piece :=
  let new := e.setAttributes.filter fun (name, _) => (d.attribute? id name).isNone
  new.map (fun (name, value) => .plain (NewNode.attributeText (name, some value))) ++
    if hasClass || (e.setAttributes.lookup "class").isSome || e.addedClasses.isEmpty then []
    else [.plain (NewNode.attributeText ("class", some (e.classes "")))]

def editElement (e : NodeEdits) (id : Nat) (children : List Written) : List Piece :=
  let tagEnd := d.startTagEnd id
  let parts := d.elementParts (d.node id).tokenStart (d.node id).tokenEnd children
  let (inTag, rest) := parts.span (d.isBeforeTagEnd tagEnd)
  let new := d.newAttributes e id (inTag.any (d.isAttributeNamed "class"))
  PartOutput.join [] <|
    inTag.map (d.editPart e tagEnd) ++ .appended new :: rest.map (d.editPart e tagEnd)

end Document
end BladeTree
