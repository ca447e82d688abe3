import BladeTree.Token.Lexer.Directive
import BladeTree.Token.Lexer.Echo
import BladeTree.Token.Lexer.Generic

namespace BladeTree
namespace Source

variable (s : Source)

def skipSpaces (pos : Nat) : Nat := s.skipWhile Byte.isSpace pos

def tagNameEnd (pos : Nat) : Nat := s.skipWhile Byte.isTagName pos

def selfCloses (pos : Nat) : Bool := s.startsWith pos (ascii "/>")

def endsAttributeName (b : UInt8) (pos : Nat) : Bool :=
  Byte.isSpace b || b == Byte.greaterThan || b == Byte.equals || b == Byte.lessThan ||
    b == Byte.doubleQuote || b == Byte.singleQuote || s.selfCloses pos ||
    (s.braceOpener? pos).isSome

def attributeNameEnd (i : Nat) : Nat :=
  if h : i < s.size then
    if s.endsAttributeName s.bytes[i] i then i else attributeNameEnd (i + 1)
  else i
termination_by s.size - i

def endsUnquoted (b : UInt8) (pos : Nat) : Bool :=
  Byte.isSpace b || b == Byte.greaterThan || s.selfCloses pos

end Source

/-- Where an attribute value ends, and what the search learned on the way. -/
structure ValueEnd where
  stop : Nat
  /-- The closing quote was found. -/
  closed : Bool
  argsUnclosed : Bool
  memo : ScanMemo

namespace Source

variable (s : Source) (known : DirectiveSet)

/-- Past an echo opener at `pos`: past its closing delimiter, or past the opener alone if it has
none. -/
def echoInValueEnd? (pos : Nat) : Option Nat :=
  match s.braceOpener? pos with
  | some (.echo flavor) =>
    let content := pos + flavor.width
    match s.findEchoEnd flavor content with
    | .closed stop => some (stop + flavor.width)
    | _ => some content
  | _ => none

theorem lt_of_echoInValueEnd? {pos stop : Nat} (h : s.echoInValueEnd? pos = some stop) :
    pos < stop := by
  have hw (f : EchoFlavor) : 0 < f.width := by cases f <;> decide
  unfold echoInValueEnd? at h
  split at h
  · rename_i f _
    have := hw f
    simp only at h
    split at h
    · rename_i he
      have := s.le_findEchoEnd he
      simp only [Option.some.injEq] at h
      omega
    · simp only [Option.some.injEq] at h; omega
  · simp at h

/-- The parenthesis that opens the arguments of a directive at `pos`. -/
def argsParen? (pos : Nat) : Option Nat :=
  match s.directiveAt? known pos with
  | some m => if m.hasArgs then some (s.skipHorizontalSpace m.nameEnd) else none
  | none => none

theorem lt_of_argsParen? {pos paren : Nat} (h : s.argsParen? known pos = some paren) :
    pos < paren := by
  unfold argsParen? at h
  split at h
  · rename_i m hm
    have := s.lt_directiveAt hm
    split at h
    · simp only [Option.some.injEq] at h
      have := s.le_skipWhile Byte.isHorizontalSpace m.nameEnd
      unfold skipHorizontalSpace at h
      omega
    · simp at h
  · simp at h

/-- End of an attribute value from `i` on. Echoes and directive arguments are stepped over
whole, so that quotes inside them do not end the value. -/
def valueEnd (quote : Option UInt8) (argsUnclosed : Bool) (memo : ScanMemo) (i : Nat) :
    ValueEnd :=
  if h : i < s.size then
    if quote = some s.bytes[i] then ⟨i, true, argsUnclosed, memo⟩
    else if quote = none ∧ s.endsUnquoted s.bytes[i] i then ⟨i, false, argsUnclosed, memo⟩
    else match he : s.echoInValueEnd? i with
      | some stop =>
        have := s.lt_of_echoInValueEnd? he
        valueEnd quote argsUnclosed memo stop
      | none =>
        if s.bytes[i] = Byte.atSign ∧ !argsUnclosed then
          match hp : s.argsParen? known i with
          | some paren =>
            have := s.lt_of_argsParen? known hp
            let args := s.balancedParens memo .php 0 paren
            if hc : args.1.2 then
              have := s.lt_balancedParens hc
              valueEnd quote argsUnclosed args.2 args.1.1
            else valueEnd quote true args.2 (i + 1)
          | none => valueEnd quote argsUnclosed memo (i + 1)
        else valueEnd quote argsUnclosed memo (i + 1)
  else ⟨s.size, false, argsUnclosed, memo⟩
termination_by s.size - i

end Source

namespace Lexer

variable (o : ParseOptions) (s : Source)

def openStartTag (l : Lexer) : Lexer :=
  let l := l.emit .lessThan 1
  let nameEnd := s.tagNameEnd l.pos
  let isComponent := s.has Byte.isUpper l.pos
  let l := { l with pendingRawText := RawText.ofTag? (s.slice l.pos nameEnd) }
  let l := l.emitUntil .tagName nameEnd
  let l := if isComponent then l.genericArgs s else l
  l.goTo .beforeAttributeName

def openClosingTag (l : Lexer) : Lexer :=
  let l := (l.emit .lessThan 1).emit .slash 1
  (l.emitUntil .tagName (s.tagNameEnd l.pos)).goTo .closingTag

def enterContent (l : Lexer) : Lexer :=
  match l.pendingRawText with
  | some kind => { l with pendingRawText := none }.goTo (.rawText kind)
  | none => l.goTo .data

def abandonTag (l : Lexer) : Lexer := { l with pendingRawText := none }.goTo .data

def beforeAttributeName (l : Lexer) (b : UInt8) : Lexer :=
  if Byte.isSpace b then l.emitUntil .whitespace (s.skipSpaces l.pos)
  else if b = Byte.greaterThan then (l.emit .greaterThan 1).enterContent
  else if s.selfCloses l.pos then
    { l.emit .selfClose 2 with pendingRawText := none }.goTo .data
  else if b = Byte.lessThan then l.abandonTag
  else if (s.braceOpener? l.pos).isSome then l.brace s
  else if b = Byte.atSign ∧ (s.directiveAt? o.directives l.pos).isSome then l.atSign o s
  else if b = Byte.doubleQuote ∨ b = Byte.singleQuote ∨ b = Byte.equals ∨ b = Byte.slash then
    l.readText 1
  else l.goTo .attributeName

def attributeName (l : Lexer) : Lexer :=
  (l.emitUntil .attributeName (s.attributeNameEnd (l.pos + 1))).goTo .afterAttributeName

def afterAttributeName (l : Lexer) : Lexer :=
  let stop := s.skipSpaces l.pos
  if s.has (· == Byte.equals) stop then
    ((l.emitUntil .whitespace stop).emit .equals 1).goTo .beforeAttributeValue
  else l.goTo .beforeAttributeName

def beforeAttributeValue (l : Lexer) : Lexer :=
  let stop := s.skipSpaces l.pos
  match s.byte? stop with
  | none => l.goTo .beforeAttributeName
  | some b =>
    if b = Byte.doubleQuote ∨ b = Byte.singleQuote then
      ((l.emitUntil .whitespace stop).emit .quote 1).goTo (.attributeValueQuoted b)
    else if b = Byte.greaterThan ∨ b = Byte.lessThan ∨ s.selfCloses stop then
      l.goTo .beforeAttributeName
    else (l.emitUntil .whitespace stop).goTo .attributeValueUnquoted

def attributeValue (l : Lexer) (quote : Option UInt8) : Lexer :=
  let start := l.pos
  let found := s.valueEnd o.directives quote l.valueArgsUnclosed l.memo start
  let l := { l with valueArgsUnclosed := found.argsUnclosed, memo := found.memo }
  let l := l.emitUntil .attributeValue found.stop
  let l :=
    if quote.isNone then l
    else if found.closed then l.emit .quote 1
    else l.report .unterminatedAttributeValue start
  l.goTo .beforeAttributeName

def closingTag (l : Lexer) (b : UInt8) : Lexer :=
  if Byte.isSpace b then l.emitUntil .whitespace (s.skipSpaces l.pos)
  else if b = Byte.greaterThan then (l.emit .greaterThan 1).goTo .data
  else if b = Byte.lessThan then l.abandonTag
  else
    let isJunk := fun b => !Byte.isSpace b && b != Byte.greaterThan && b != Byte.lessThan
    l.readTextUntil (s.skipWhile isJunk (l.pos + 1))

end Lexer
end BladeTree
