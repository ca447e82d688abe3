import BladeTree.Edit.Piece
import BladeTree.Text.WhiteSpace
import BladeTree.Token.Mode

namespace BladeTree

/-- Text on both sides of something. -/
structure Surround where
  opening : String
  closing : String
  isDirective : Bool
  deriving DecidableEq, Repr

namespace Surround

def before (s : Surround) : Piece := ⟨s.opening, s.isDirective⟩

def after (s : Surround) : Piece := ⟨s.closing, s.isDirective⟩

end Surround

/-- A node that is not in a template yet. -/
inductive NewNode where
  /-- An attribute without a value is bare. -/
  | element (name : String) (attributes : List (String × Option String))
      (children : List NewNode) (selfClosing : Bool)
  | text (text : String)
  | echo (expression : String) (flavor : EchoFlavor)
  /-- The arguments are given without their parentheses. -/
  | directive (name : String) (args : Option String)
  | block (name : String) (args : Option String) (children : List NewNode)
  | comment (content : String)
  | bladeComment (content : String)
  /-- Written as it is. -/
  | raw (source : String)

namespace NewNode

def attributeText : String × Option String → String
  | (name, some value) => " " ++ name ++ "=\"" ++ value ++ "\""
  | (name, none) => " " ++ name

def startTag (name : String) (attributes : List (String × Option String))
    (selfClosing : Bool) : String :=
  "<" ++ name ++ "".intercalate (attributes.map attributeText) ++
    if selfClosing then " />" else ">"

def endTag (name : String) : String := "</" ++ name ++ ">"

def directiveText (name : String) (args : Option String) : String :=
  "@" ++ name ++ args.elim "" fun args => "(" ++ args ++ ")"

def endDirective (name : String) : String := "@end" ++ name

def echoText (expression : String) (flavor : EchoFlavor) : String :=
  flavor.opening ++ " " ++ WhiteSpace.trim expression ++ " " ++ flavor.closing

def padding (neighbour : Option Char) : String :=
  if neighbour = some ' ' ∨ neighbour = some '\t' then "" else " "

def pad (content : String) : String :=
  padding content.toList.head? ++ content ++ padding content.toList.getLast?

def commentText (content : String) : String := "<!--" ++ pad content ++ "-->"

def bladeCommentText (content : String) : String :=
  "\x7b\x7b--" ++ pad content ++ "--\x7d\x7d"

mutual

def pieces : NewNode → List Piece
  | element name attributes children selfClosing =>
    .plain (startTag name attributes selfClosing) ::
      if selfClosing then [] else piecesOf children ++ [.plain (endTag name)]
  | text t => [.plain t]
  | raw source => [.plain source]
  | echo expression flavor => [.plain (echoText expression flavor)]
  | directive name args => [.directive (directiveText name args)]
  | block name args children =>
    .directive (directiveText name args) ::
      piecesOf children ++ [.directive (endDirective name)]
  | comment content => [.plain (commentText content)]
  | bladeComment content => [.plain (bladeCommentText content)]

def piecesOf : List NewNode → List Piece
  | [] => []
  | n :: rest => pieces n ++ piecesOf rest

end

def source (n : NewNode) : String := Piece.join n.pieces

def isDirective : NewNode → Bool
  | directive .. | block .. => true
  | _ => false

/-- Puts a node after the children of an element or a block; nothing else takes any. -/
def addChild (child : NewNode) : NewNode → NewNode
  | element name attributes children selfClosing =>
    element name attributes (children ++ [child]) selfClosing
  | block name args children => block name args (children ++ [child])
  | n => n

def surround? : NewNode → Option Surround
  | element name attributes _ _ => some ⟨startTag name attributes false, endTag name, false⟩
  | block name args _ => some ⟨directiveText name args, endDirective name, true⟩
  | _ => none

end NewNode
end BladeTree
