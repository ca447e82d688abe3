import BladeTree.Document.View
import BladeTree.Edit.NewNode
import BladeTree.Text.Glob

namespace BladeTree

inductive Replacement where
  | removed
  | nodes (ns : List NewNode)
  /-- The content, without the syntax of the node itself. -/
  | unwrapped

/-- What is to change at one node. -/
structure NodeEdits where
  before : List NewNode
  after : List NewNode
  /-- Innermost first. -/
  surrounds : List Surround
  replacement : Option Replacement
  newName : Option String
  setAttributes : List (String × String)
  /-- Patterns of names. -/
  removedAttributes : List String
  addedClasses : List String
  removedClasses : List String

namespace NodeEdits

def empty : NodeEdits := ⟨[], [], [], none, none, [], [], [], []⟩

def hasClassEdits (e : NodeEdits) : Bool :=
  !e.addedClasses.isEmpty || !e.removedClasses.isEmpty

def changesStartTag (e : NodeEdits) : Bool :=
  e.newName.isSome || !e.setAttributes.isEmpty || !e.removedAttributes.isEmpty ||
    e.hasClassEdits

def removesAttribute (e : NodeEdits) (name : String) : Bool :=
  e.removedAttributes.any (globMatch · name)

def classNames (value : String) : List String :=
  ((value.toList.splitOnP fun c => c.toNat < 128 && Byte.isSpace c.toUInt8).filter
    (!·.isEmpty)).map String.ofList

def classes (e : NodeEdits) (value : String) : String :=
  let kept := (classNames value).filter (!e.removedClasses.contains ·)
  let all := e.addedClasses.foldl (fun cs c => if cs.contains c then cs else cs ++ [c]) kept
  " ".intercalate all

end NodeEdits

inductive EditCall where
  | remove
  | replaceWith (ns : List NewNode)
  | unwrap
  | insertBefore (n : NewNode)
  | insertAfter (n : NewNode)
  /-- Later wraps lie outside earlier ones. -/
  | wrapWith (n : NewNode)
  | surroundWith (opening closing : String)
  /-- As `surroundWith`, with the two texts taken for directives. -/
  | safeSurround (opening closing : String)
  | setAttribute (name value : String)
  | removeAttribute (pattern : String)
  | addClass (name : String)
  | removeClass (name : String)
  | renameTag (name : String)

namespace EditCall

/-- Which nodes take a call. -/
inductive Target where
  /-- Those that are not removed or replaced. -/
  | live
  /-- Those that are not inside a removed or replaced node. -/
  | place
  /-- Live elements. -/
  | startTag
  | nothing
  deriving DecidableEq, Repr

def target : EditCall → Target
  | remove | replaceWith _ | unwrap | surroundWith .. | safeSurround .. => .live
  | wrapWith n => if n.surround?.isSome then .live else .nothing
  | insertBefore _ | insertAfter _ => .place
  | setAttribute .. | removeAttribute _ | addClass _ | removeClass _ | renameTag _ => .startTag

def record (e : NodeEdits) : EditCall → NodeEdits
  | remove => { e with replacement := some .removed }
  | replaceWith ns => { e with replacement := some (.nodes ns) }
  | unwrap => { e with replacement := some .unwrapped }
  | insertBefore n => { e with before := e.before ++ [n] }
  | insertAfter n => { e with after := e.after ++ [n] }
  | wrapWith n => { e with surrounds := e.surrounds ++ n.surround?.toList }
  | surroundWith opening closing =>
    { e with surrounds := e.surrounds ++ [⟨opening, closing, false⟩] }
  | safeSurround opening closing =>
    { e with surrounds := e.surrounds ++ [⟨opening, closing, true⟩] }
  | setAttribute name value => { e with setAttributes := putKey name value e.setAttributes }
  | removeAttribute pattern =>
    { e with
      setAttributes := e.setAttributes.filter (!globMatch pattern ·.1)
      removedAttributes := e.removedAttributes ++ [pattern] }
  | addClass name =>
    { e with
      removedClasses := e.removedClasses.filter (· != name)
      addedClasses := e.addedClasses ++ [name] }
  | removeClass name =>
    { e with
      addedClasses := e.addedClasses.filter (· != name)
      removedClasses := e.removedClasses ++ [name] }
  | renameTag name => { e with newName := some name }

end EditCall

structure Edits where
  slots : Array (Option NodeEdits)

namespace Edits

def none (d : Document) : Edits := ⟨.replicate d.nodes.size .none⟩

def get? (es : Edits) (id : Nat) : Option NodeEdits := (es.slots[id]?).join

def isEmpty (es : Edits) : Bool := es.slots.all (·.isNone)

def modify (es : Edits) (id : Nat) (f : NodeEdits → NodeEdits) : Edits :=
  ⟨es.slots.modify id fun e => some (f (e.getD .empty))⟩

def isReplaced (es : Edits) (id : Nat) : Bool :=
  (es.get? id).any (·.replacement.isSome)

def isInsideReplaced (es : Edits) (d : Document) (id : Nat) : Bool :=
  (d.ancestors id).any es.isReplaced

def isGone (es : Edits) (d : Document) (id : Nat) : Bool :=
  es.isReplaced id || es.isInsideReplaced d id

def accepts (es : Edits) (d : Document) (id : Nat) : EditCall.Target → Bool
  | .live => !es.isGone d id
  | .place => !es.isInsideReplaced d id
  | .startTag => d.kind id == .element && !es.isGone d id
  | .nothing => false

def apply (es : Edits) (d : Document) (id : Nat) (c : EditCall) : Edits :=
  if es.accepts d id c.target then es.modify id (c.record ·) else es

/-- Marks the nodes that have an edit in their tree: the edited ones and their ancestors. -/
def marks (es : Edits) (d : Document) : Array Bool :=
  (List.range d.nodes.size).foldl
    (fun marks id =>
      if (es.get? id).isSome then
        (id :: d.ancestors id).foldl (fun marks id => marks.setIfInBounds id true) marks
      else marks)
    (.replicate d.nodes.size false)

end Edits
end BladeTree
