import BladeTree.Fault
import BladeTree.Token.Lexer.RawText
import BladeTree.Token.Lexer.Tag

namespace BladeTree

inductive MarkupStart where
  | comment
  /-- A declaration of one token, up to its terminator. -/
  | declaration (kind : TokenType) (terminator : String)
  /-- A code region whose opening tag has this many bytes. -/
  | php (width : Nat)
  | closingTag
  | startTag
  | text
  deriving DecidableEq

namespace Source

variable (s : Source)

/-- What opens with the `<` at `pos`. -/
def markupStart (pos : Nat) : MarkupStart :=
  if s.startsWith pos (ascii "<!--") then .comment
  else if s.startsWithIgnoreCase pos (ascii "<!doctype") then .declaration .doctype ">"
  else if s.startsWith pos (ascii "<![CDATA[") then .declaration .cdata "]]>"
  else if s.startsWith pos (ascii "<!") then .declaration .bogusComment ">"
  else if s.startsWithIgnoreCase pos (ascii "<?php") then .php 5
  else if s.startsWith pos (ascii "<?=") then .php 3
  else if s.startsWith (pos + 1) (ascii "/") && s.has Byte.isAlpha (pos + 2) then .closingTag
  else if s.has Byte.isAlpha (pos + 1) then .startTag
  else .text

end Source

namespace Lexer

variable (o : ParseOptions) (s : Source)

def comment (l : Lexer) : Lexer :=
  let start := l.pos
  let l := l.emit .commentStart 4
  match s.find (ascii "-->") l.pos with
  | some stop => (l.emitUntil .commentText stop).emit .commentEnd 3
  | none => (l.report .unterminatedComment start).emitUntil .commentText s.size

def declaration (l : Lexer) (kind : TokenType) (terminator : List UInt8) : Lexer :=
  match s.find terminator (l.pos + 2) with
  | some stop => l.emitUntil kind (stop + terminator.length)
  | none => (l.report .unterminatedDoctype l.pos).emitUntil kind s.size

def markup (l : Lexer) : Lexer :=
  match s.markupStart l.pos with
  | .comment => l.comment s
  | .declaration kind terminator => l.declaration s kind (ascii terminator)
  | .php width => (l.emit .phpTagStart width).goTo .phpTag
  | .closingTag => l.openClosingTag s
  | .startTag => l.openStartTag s
  | .text => l.readText 1

def stopsText (b : UInt8) : Bool :=
  b == Byte.lessThan || b == Byte.openBrace || b == Byte.atSign || o.isTrigger b

def data (l : Lexer) (b : UInt8) : Lexer :=
  if b = Byte.lessThan then l.markup s
  else if b = Byte.openBrace then l.brace s
  else if b = Byte.atSign then l.atSign o s
  else l.readTextUntil (s.skipWhile (fun b => !stopsText o b) (l.pos + 1))

def offer (l : Lexer) : LexerOffer := ⟨s, l.pos, l.mode.inTag, o.tokenTypes⟩

/-- The first claim of the extensions that are asked about `b`, one after another. -/
def claim? (l : Lexer) (b : UInt8) : Except Fault (Option (List Token × Nat)) :=
  if l.mode.asksExtensions then
    o.lexerExtensions.findSomeM? fun x =>
      if x.triggers.contains b then x.claim? (l.offer o s) else return none
  else return none

/-- Takes claimed tokens after the text before them. -/
def accept (l : Lexer) (tokens : List Token) (stop : Nat) : Lexer :=
  let l := l.flushText
  { l with tokens := l.tokens ++ tokens, pos := stop }

/-- Reads on at `b` as without extensions. -/
def read (l : Lexer) (b : UInt8) : Lexer :=
  match l.mode with
  | .data => l.data o s b
  | .beforeAttributeName => l.beforeAttributeName o s b
  | .attributeName => l.attributeName s
  | .afterAttributeName => l.afterAttributeName s
  | .beforeAttributeValue => l.beforeAttributeValue s
  | .attributeValueQuoted quote => l.attributeValue o s (some quote)
  | .attributeValueUnquoted => l.attributeValue o s none
  | .closingTag => l.closingTag s b
  | .echoContent flavor => l.echoContent s flavor
  | .directiveArgs => l.directiveArgs s
  | .rawText kind => l.rawText o s kind b
  | .verbatim => l.verbatim s
  | .phpBlock => l.phpBlock s
  | .phpTag => l.phpTag s

def step (l : Lexer) (b : UInt8) : Except Fault Lexer := do
  match ← l.claim? o s b with
  | some (tokens, stop) => return l.accept tokens stop
  | none => return l.read o s b

/-- Steps in a row that may leave the position where it is. -/
def idleLimit : Nat := 256

def run (idle : Nat) (l : Lexer) : Except Fault Lexer :=
  if h : l.pos < s.size then
    match l.step o s s.bytes[l.pos] with
    | .error f => .error f
    | .ok next =>
      if hp : l.pos < next.pos then run idleLimit next
      else if he : next.pos = l.pos ∧ 0 < idle then run (idle - 1) next
      else .error (.lexerStuck l.pos)
  else .ok l.flushText
termination_by (s.size - l.pos, idle)
decreasing_by
  · exact Prod.Lex.left _ _ (Nat.sub_lt_sub_left h hp)
  · rw [he.1]
    exact Prod.Lex.right _ (Nat.sub_lt he.2 Nat.one_pos)

end Lexer

def lex (o : ParseOptions) (s : Source) : Except Fault Lexed := do
  let l ← Lexer.run o s Lexer.idleLimit Lexer.initial
  return ⟨l.tokens, l.errors⟩

end BladeTree
