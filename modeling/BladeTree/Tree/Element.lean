import BladeTree.Tree.Content
import BladeTree.Tree.Directive

namespace BladeTree
namespace Builder

variable (t : Tokenized)

/-- Closes the element that a start tag called `name` ends, and those that end with it. -/
def closeForSibling (b : Builder) (name : String) : Build Builder :=
  match Frame.siblingTarget name b.stack with
  | none => return b
  | some above => do
    let stop := b.pos
    let b ← b.forceCloseMany t (fun _ => (.parentEnd, none)) stop above
    b.forceClose t .sibling stop none

def eatGenericArgs (b : Builder) (element : Nat) (start : Nat) : Build Builder := do
  if b.isAt t .genericArgs then
    let metadata := b.metadata.setGenericArgsOffset element (b.pos - start)
    { b with metadata }.bump t
  else return b

def eatSpaceBefore (b : Builder) (p : TokenType → Bool) : Build Builder := do
  if b.isAt t .whitespace && (t.kind? (b.pos + 1)).any p then b.bump t else return b

/-- The value after an equals sign: between quotes, bare or missing. -/
def attributeValue (b : Builder) (id : Nat) (start : Nat) : Build Builder := do
  if b.isAt t .quote then
    let quote ← t.token b.pos
    let some byte := if quote.start < quote.stop then t.source.byte? quote.start else none
      | Build.fault (.missingToken b.pos)
    let (value, b) ← (← b.bump t).startIn id .attributeValue
    let b ← b.setData value byte.toNat.toInt32
    let (_, b) ← b.eat t .attributeValue
    let b ← b.finish value
    let (closed, b) ← b.eat t .quote
    if closed then return b
    else
      b.reportTokens t .invalidAttribute start b.pos
        "attribute value is missing its closing quote" none
  else if b.isAt t .attributeValue then
    return (← b.leaf t id .attributeValue 1).2
  else b.reportTokens t .invalidAttribute start b.pos "`=` is not followed by a value" none

def attributePair (b : Builder) (element : Nat) : Build Builder := do
  let start := b.pos
  let (id, b) ← b.startIn element .attr
  let (_, b) ← b.leaf t id .attributeName 1
  let b ← b.eatSpaceBefore t (· == .equals)
  if !b.isAt t .equals then b.finish id
  else
    let b ← (← b.bump t).eatSpaceBefore t fun k => k == .quote || k == .attributeValue
    (← b.attributeValue t id start).finish id

def unexpectedText (b : Builder) : Build Builder := do
  let text ← t.text b.pos
  let b ← b.reportTokens t .invalidAttribute b.pos (b.pos + 1)
    ("unexpected `" ++ text ++ "` in start tag") none
  b.bump t

inductive TagEnd where
  | closed
  | selfClosed
  | unterminated
  deriving DecidableEq, Repr

/-- One token or construct of a start tag, after its name; none if the tag ends here. -/
def tagItem? (b : Builder) (element : Nat) (kind : TokenType) : Option (Build Builder) :=
  match kind with
  | .attributeName => some (b.attributePair t element)
  | .echoStart => some (b.escapedEcho t element)
  | .rawEchoStart => some (b.rawEcho t element)
  | .tripleEchoStart => some (b.tripleEcho t element)
  | .bladeCommentStart => some (b.bladeComment t element)
  | .directive => some (b.directiveLeaf t element .standalone)
  | .whitespace => some (b.bump t)
  | .text => some (b.unexpectedText t)
  | .extension _ => some (b.bump t)
  | _ => none

def tagItems (element : Nat) (b : Builder) : Build (TagEnd × Builder) := do
  match b.current? t with
  | none => return (.unterminated, b)
  | some .greaterThan => return (.closed, ← b.bump t)
  | some .selfClose => return (.selfClosed, ← b.bump t)
  | some kind =>
    match b.tagItem? t element kind with
    | none => return (.unterminated, b)
    | some item =>
      let next ← item
      if _h : b.pos < next.pos ∧ b.pos < t.size then tagItems element next
      else Build.fault (.builderStuck b.pos)
termination_by t.size - b.pos

def unterminatedTag (b : Builder) (element : Nat) (start : Nat) (name : String) :
    Build Builder := do
  let b ← b.setFlag element .unclosedStartTag
  let b ← b.setFlag element .syntheticClose
  let b := { b with metadata := b.metadata.setClosedBy element .unterminatedStartTag }
  let b ← b.finish element
  b.reportTokens t .unclosedElement start (start + 2) name (some "start tag is missing `>`")

def startTag (b : Builder) : Build Builder := do
  let start := b.pos
  let name ← t.text (start + 1)
  let b ← b.closeForSibling t name
  let (element, b) ← b.startIn b.parent .element
  let b ← b.bump t
  let (_, b) ← b.leaf t element .elementName 1
  let b ← b.eatGenericArgs t element start
  let (tagEnd, b) ← tagItems t element b
  if tagEnd = .unterminated then b.unterminatedTag t element start name
  else
    let b ← if tagEnd = .selfClosed then b.setFlag element .selfClosing else pure b
    let b ← if isVoidElement name then b.setFlag element .void else pure b
    if tagEnd = .selfClosed || isVoidElement name then b.finish element
    else
      b.checkDepth t [.elements] start
      return b.pushFrame ⟨element, .element name⟩

/-- Past the `>` of a closing tag, or past what stands before the next construct. -/
def closingTagEnd (i : Nat) : Nat :=
  if h : i < t.size then
    match (t.tokens[i]).kind with
    | .whitespace | .text => closingTagEnd (i + 1)
    | .greaterThan => i + 1
    | _ => i
  else i
termination_by t.size - i

/-- How a frame above an element is closed by the closing tag of the element. -/
def closedByTag (name : String) (stack : List Frame) : ClosedBy × Option String :=
  if Frame.endsWithParent stack then (.parentEnd, none)
  else (.mismatch, some ("closed by `</" ++ name ++ ">`"))

/-- The innermost of the `n` top elements whose end is not implied. -/
def mismatched? : Nat → List Frame → Option String
  | 0, _ => none
  | _, [] => none
  | n + 1, f :: below =>
    if Frame.endsWithParent (f :: below) then mismatched? n below
    else some (f.elementName?.getD "")

def strayClosingTag (b : Builder) (stop : Nat) (blocked : Bool) : Build Builder := do
  let start := b.pos
  let (_, b) ← b.leaf t b.parent .strayClosingTag (stop - start)
  let span ← t.span start stop
  let text := t.source.slice span.start span.stop
  if blocked then
    b.reportTokens t .invalidNesting start stop
      ("`" ++ text ++ "` cannot close an element outside the enclosing directive block") none
  else b.reportTokens t .unexpectedClosingTag start stop text none

def closingTag (b : Builder) : Build Builder := do
  let start := b.pos
  let name ← t.text (start + 2)
  let stop := closingTagEnd t (start + 3)
  match Frame.closeTarget name 0 false b.stack with
  | .blocked => b.strayClosingTag t stop true
  | .missing => b.strayClosingTag t stop false
  | .element above =>
    let mismatched := mismatched? above b.stack
    let b ← b.forceCloseMany t (closedByTag name) start above
    let b ← match mismatched with
      | some opened =>
        b.reportTokens t .mismatchedClosingTag start stop ("expected `</" ++ opened ++ ">`") none
      | none => pure b
    let element := b.parent
    let (_, b) ← b.leaf t element .closingElementName (stop - start)
    let b ← b.setFlag element .paired
    return (← b.popFrame b.pos).2

end Builder
end BladeTree
