import BladeTree.Edit.StartTag

namespace BladeTree
namespace Document

variable (d : Document)

/-- The tokens `pos … stop`, those of the children as they are written. -/
def interleave (pos stop : Nat) : List Written → List Piece
  | [] => [.plain (d.tokenText pos stop)]
  | w :: rest =>
    .plain (d.tokenText pos (d.node w.id).tokenStart) :: w.pieces ++
      interleave (d.node w.id).tokenEnd stop rest

def isMarker (id : Nat) : Bool :=
  d.kind id == .directive && d.directiveRole id != .standalone

/-- The children that stay when the syntax of a node is taken away. -/
def contentOnly (id : Nat) (children : List Written) : List Written :=
  match d.kind id with
  | .element =>
    let tagEnd := d.startTagEnd id
    children.filter fun w => d.isContent tagEnd w.id
  | .directiveBlock => children.filter fun w => !d.isMarker w.id
  | _ => children

def writeCore (e : NodeEdits) (id : Nat) (children : List Written) : List Piece :=
  if d.kind id = .element ∧ e.changesStartTag then d.editElement e id children
  else d.interleave (d.node id).tokenStart (d.node id).tokenEnd children

def writeBody (e : NodeEdits) (id : Nat) (children : List Written) : List Piece :=
  match e.replacement with
  | some .removed => []
  | some (.nodes ns) => NewNode.piecesOf ns
  | some .unwrapped => (d.contentOnly id children).flatMap (·.pieces)
  | none => d.writeCore e id children

def writeEdited (e : NodeEdits) (id : Nat) (children : List Written) : List Piece :=
  NewNode.piecesOf e.before ++ e.surrounds.reverse.map (·.before) ++
    d.writeBody e id children ++
    e.surrounds.map (·.after) ++ NewNode.piecesOf e.after

mutual

def write (es : Edits) (isMarked : Nat → Bool) : Tree → List Piece
  | .node id children =>
    match es.get? id with
    | some e => d.writeEdited e id (writeAll es isMarked children)
    | none =>
      if isMarked id then
        d.interleave (d.node id).tokenStart (d.node id).tokenEnd (writeAll es isMarked children)
      else [.plain (d.text id)]

def writeAll (es : Edits) (isMarked : Nat → Bool) : List Tree → List Written
  | [] => []
  | t :: rest => ⟨t.id, write es isMarked t⟩ :: writeAll es isMarked rest

end

def edit (es : Edits) : String :=
  if es.isEmpty then d.source.text
  else
    let marks := es.marks d
    Piece.join (d.write es (marks.getD · false) (d.tree Builder.root))

end Document
end BladeTree
