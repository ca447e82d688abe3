import BladeTree.Document.View
import BladeTree.Text.Quoted

namespace BladeTree

structure DumpStyle where
  /-- The bytes of every line. -/
  spans : Bool
  /-- The tokens that nodes own themselves. -/
  tokens : Bool

namespace Document

variable (d : Document) (style : DumpStyle)

def indentation (depth : Nat) : String := "".pushn ' ' (2 * depth)

def spanSuffix (span : Span) : String :=
  if style.spans then s!" [{span.start}..{span.stop}]" else ""

def flagLabels : List (ElementFlag × String) :=
  [(.selfClosing, " self-closing"), (.void, " void"), (.unclosedStartTag, " unclosed-start-tag"),
    (.syntheticClose, " synthetic"), (.paired, " paired")]

def roleLabel : DirectiveRole → String
  | .standalone => ""
  | .opener => " opener"
  | .branch => " branch"
  | .closer => " closer"

def details (id : Nat) : String :=
  match d.kind id with
  | .element =>
    let flags := (flagLabels.filter (d.hasFlag id ·.1)).map (·.2)
    " " ++ d.elementName id ++ (d.genericArgs? id).elim "" (" generic=" ++ ·) ++
      String.join flags
  | .directiveBlock => " @" ++ d.blockName id
  | .directive => roleLabel (d.directiveRole id) ++ " " ++ Quoted.text (d.text id)
  | .document => ""
  | _ => if (d.node id).firstChild.isNone then " " ++ Quoted.text (d.text id) else ""

def dumpLine (depth : Nat) (id : Nat) : String :=
  indentation depth ++ d.kindName id ++ spanSuffix style (d.span id) ++ d.details id ++
    (d.closedBy? id).elim "" (" closed-by=" ++ ·.name) ++ "\n"

def dumpToken (depth : Nat) (token : Token) : String :=
  indentation depth ++ token.kind.nameIn d.options.tokenTypes ++
    spanSuffix style ⟨token.start, token.stop⟩ ++ " " ++ Quoted.text (token.text d.source) ++ "\n"

def dumpTokens (depth : Nat) (start stop : Nat) : List String :=
  (d.tokens.extract start stop).toList.map (d.dumpToken style depth)

mutual

def dumpTree (depth : Nat) : Tree → List String
  | .node id children =>
    d.dumpLine style depth id ::
      if style.tokens && !children.isEmpty then
        dumpOwned (depth + 1) (d.node id).tokenStart (d.node id).tokenEnd children
      else dumpForest (depth + 1) children

def dumpForest (depth : Nat) : List Tree → List String
  | [] => []
  | child :: rest => dumpTree depth child ++ dumpForest depth rest

/-- Children and the tokens around them, from token `pos` to `stop`. -/
def dumpOwned (depth pos stop : Nat) : List Tree → List String
  | [] => d.dumpTokens style depth pos stop
  | child :: rest =>
    d.dumpTokens style depth pos (d.node child.id).tokenStart ++ dumpTree depth child ++
      dumpOwned depth (d.node child.id).tokenEnd stop rest

end

def dump : String := String.join (d.dumpTree style 0 (d.tree Builder.root))

end Document
end BladeTree
