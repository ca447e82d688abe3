import BladeTree.Text.WhiteSpace
import BladeTree.Tree.Builder

namespace BladeTree

/-- Tokens of this type open a construct of their own in content. -/
def TokenType.startsConstruct : TokenType → Bool
  | lessThan | echoStart | rawEchoStart | tripleEchoStart | bladeCommentStart | commentStart
  | bogusComment | doctype | cdata | directive | phpBlockStart | phpTagStart
  | verbatimStart => true
  | _ => false

namespace Builder

variable (t : Tokenized)

/-- End of a run of text: before a construct or a token of an extension. -/
def textEnd (i : Nat) : Nat :=
  if h : i < t.size then
    let kind := (t.tokens[i]).kind
    if kind.startsConstruct || kind.isExtension then i else textEnd (i + 1)
  else i
termination_by t.size - i

def text (b : Builder) (parent : Nat) : Build Builder := do
  return (← b.leaf t parent .text (textEnd t (b.pos + 1) - b.pos)).2

/-- Takes a token if it has this type, and says whether its text is blank. -/
def eatContent (b : Builder) (kind : TokenType) : Build (Bool × Builder) := do
  if b.isAt t kind then
    let blank := WhiteSpace.isBlank (← t.text b.pos)
    return (blank, ← b.bump t)
  else return (true, b)

def echo (b : Builder) (parent : Nat) (kind : NodeKind) (stopType : TokenType)
    (delimiter : String) : Build Builder := do
  let start := b.pos
  let (id, b) ← b.startIn parent kind
  let (blank, b) ← (← b.bump t).eatContent t .echoContent
  let (closed, b) ← b.eat t stopType
  let b ← b.finish id
  if !closed then
    b.reportTokens t .syntaxError start b.pos ("echo is missing `" ++ delimiter ++ "`") none
  else if blank then
    b.reportTokens t .missingContent start b.pos "echo has no expression" none
  else return b

def escapedEcho (b : Builder) (parent : Nat) : Build Builder :=
  b.echo t parent .echo .echoEnd "\x7d\x7d"

def rawEcho (b : Builder) (parent : Nat) : Build Builder :=
  b.echo t parent .rawEcho .rawEchoEnd "!!\x7d"

def tripleEcho (b : Builder) (parent : Nat) : Build Builder :=
  b.echo t parent .tripleEcho .tripleEchoEnd "\x7d\x7d\x7d"

/-- A start, content and an end. A missing end is reported if it has a name. -/
def delimited (b : Builder) (parent : Nat) (kind : NodeKind) (content stopType : TokenType)
    (endName : Option String) : Build Builder := do
  let start := b.pos
  let (id, b) ← b.startIn parent kind
  let (_, b) ← (← b.bump t).eat t content
  let (closed, b) ← b.eat t stopType
  let b ← b.finish id
  match endName with
  | some name =>
    if closed then return b
    else b.reportTokens t .syntaxError start b.pos ("missing " ++ name) none
  | none => return b

def bladeComment (b : Builder) (parent : Nat) : Build Builder :=
  b.delimited t parent .bladeComment .bladeCommentContent .bladeCommentEnd (some "`--\x7d\x7d`")

def comment (b : Builder) (parent : Nat) : Build Builder :=
  b.delimited t parent .comment .commentText .commentEnd (some "`-->`")

def phpBlock (b : Builder) (parent : Nat) : Build Builder :=
  b.delimited t parent .phpBlock .phpContent .phpBlockEnd (some "`@endphp`")

def phpTag (b : Builder) (parent : Nat) : Build Builder :=
  b.delimited t parent .phpTag .phpContent .phpTagEnd none

def verbatim (b : Builder) (parent : Nat) : Build Builder := do
  let start := b.pos
  let (id, b) ← b.startIn parent .verbatim
  let (_, b) ← (← b.bump t).eat t .text
  let (closed, b) ← b.eat t .verbatimEnd
  let b ← b.finish id
  if closed then return b
  else b.reportTokens t .unclosedDirective start (start + 1) "verbatim" none

/-- The leaf of the first tree extension that claims the position. -/
def extensionLeaf? (b : Builder) : Option Leaf :=
  t.options.treeExtensions.findSome?
    (·.claim? ⟨t.source, t.tokens, b.pos, t.options.nodeKinds⟩)

def extensionLeaf (b : Builder) (leaf : Leaf) : Build Builder := do
  let (id, b) ← b.leaf t b.parent leaf.kind leaf.tokenCount
  b.setData id leaf.data

end Builder
end BladeTree
