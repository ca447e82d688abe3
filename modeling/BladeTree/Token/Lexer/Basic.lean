import BladeTree.Options
import BladeTree.Token.Mode

namespace BladeTree

inductive LexerErrorKind where
  | unterminatedEcho
  | unterminatedComment
  | unterminatedBladeComment
  | unterminatedArguments
  | unterminatedAttributeValue
  | unterminatedVerbatim
  | unterminatedPhpBlock
  | unterminatedDoctype
  deriving DecidableEq, Repr

def LexerErrorKind.reason : LexerErrorKind → String
  | unterminatedEcho => "echo is never closed"
  | unterminatedComment => "comment is never closed"
  | unterminatedBladeComment => "Blade comment is never closed"
  | unterminatedArguments => "directive arguments are never closed"
  | unterminatedAttributeValue => "attribute value is never closed"
  | unterminatedVerbatim => "`@verbatim` has no `@endverbatim`"
  | unterminatedPhpBlock => "`@php` has no `@endphp`"
  | unterminatedDoctype => "markup declaration is never closed"

/-- A construct that is never closed, and the offset at which it is reported. -/
structure LexerError where
  kind : LexerErrorKind
  offset : Nat
  deriving DecidableEq, Repr

def LexerError.message (e : LexerError) : String := s!"{e.kind.reason} at {e.offset}"

/-- The matched brackets `<` and `>` of the last scan for type arguments. -/
structure GenericScan where
  /-- The scan covers the bytes `start … stop`. -/
  start : Nat
  stop : Nat
  /-- Each opening bracket of a list that names a type, with the offset past its end. -/
  closes : List (Nat × Nat)

/-- The lexer between two steps. -/
structure Lexer where
  pos : Nat
  mode : Mode
  /-- The mode to go back to after an echo or the arguments of a directive. -/
  returnMode : Mode
  /-- The kind of the start tag being read, if its content is raw text. -/
  pendingRawText : Option RawText
  /-- The closing delimiter found for the echo being read. -/
  echoClose : Option Nat
  generics : GenericScan
  /-- Directive arguments in an attribute value ran to the end of the source, so later values
  do not step over arguments. -/
  valueArgsUnclosed : Bool
  /-- The start of text not yet emitted. -/
  textStart : Option Nat
  memo : ScanMemo
  tokens : Array Token
  errors : Array LexerError

namespace Lexer

def initial : Lexer :=
  ⟨0, .data, .data, none, none, ⟨0, 0, []⟩, false, none, .empty, #[], #[]⟩

def flushText (l : Lexer) : Lexer :=
  match l.textStart with
  | none => l
  | some start =>
    let l := { l with textStart := none }
    if start < l.pos then { l with tokens := l.tokens.push ⟨.text, start, l.pos⟩ } else l

/-- Emits the next `length` bytes as one token, after the text before them. -/
def emit (l : Lexer) (kind : TokenType) (length : Nat) : Lexer :=
  let l := l.flushText
  { l with tokens := l.tokens.push ⟨kind, l.pos, l.pos + length⟩, pos := l.pos + length }

def emitUntil (l : Lexer) (kind : TokenType) (stop : Nat) : Lexer :=
  if l.pos < stop then l.emit kind (stop - l.pos) else l

def readText (l : Lexer) (length : Nat) : Lexer :=
  { l with textStart := some (l.textStart.getD l.pos), pos := l.pos + length }

def readTextUntil (l : Lexer) (stop : Nat) : Lexer := l.readText (stop - l.pos)

def goTo (l : Lexer) (mode : Mode) : Lexer := { l.flushText with mode := mode }

def report (l : Lexer) (kind : LexerErrorKind) (offset : Nat) : Lexer :=
  { l with errors := l.errors.push ⟨kind, offset⟩ }

end Lexer

structure Lexed where
  tokens : Array Token
  errors : Array LexerError

end BladeTree
