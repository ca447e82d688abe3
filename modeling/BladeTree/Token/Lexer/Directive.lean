import BladeTree.Token.Lexer.Basic

namespace BladeTree

/-- A directive in the source: its name, where the name ends and whether arguments follow. -/
structure DirectiveMatch where
  name : String
  nameEnd : Nat
  hasArgs : Bool
  deriving DecidableEq, Repr

namespace Source

variable (s : Source)

def skipHorizontalSpace (pos : Nat) : Nat := s.skipWhile Byte.isHorizontalSpace pos

def isGlued (pos : Nat) : Bool := 0 < pos && s.has Byte.isWord (pos - 1)

/-- The directive whose `@` is at `pos`. After a word only known names count, and none that a
dot follows. -/
def directiveAt? (known : DirectiveSet) (pos : Nat) : Option DirectiveMatch :=
  if !s.has (fun b => Byte.isAlpha b || b == Byte.underscore) (pos + 1) then none
  else
    let nameEnd := s.skipWhile Byte.isWord (pos + 1)
    let name := s.slice (pos + 1) nameEnd
    if s.isGlued pos && (!known.contains name || s.has (· == Byte.dot) nameEnd) then none
    else
      let paren := s.skipHorizontalSpace nameEnd
      let hasArgs := s.has (· == Byte.openParen) paren &&
        (paren == nameEnd || known.contains name)
      if known.recognizes name (hasArgs && paren == nameEnd) then some ⟨name, nameEnd, hasArgs⟩
      else none

theorem lt_directiveAt {known : DirectiveSet} {pos : Nat} {m : DirectiveMatch}
    (h : s.directiveAt? known pos = some m) : pos < m.nameEnd := by
  have hw := s.le_skipWhile Byte.isWord (pos + 1)
  unfold directiveAt? at h
  split at h
  · simp at h
  · simp only at h
    split at h
    · simp at h
    · split at h
      · simp only [Option.some.injEq] at h; subst h; simp only; omega
      · simp at h

end Source

namespace Lexer

variable (o : ParseOptions) (s : Source)

/-- Reads what an `@` opens. `@@name` and the braces after `@` are text. -/
def atSign (l : Lexer) : Lexer :=
  if s.startsWith l.pos (ascii "@@") then
    l.readTextUntil (s.skipWhile Byte.isWord (l.pos + 2))
  else if s.startsWith l.pos (ascii "@\x7b\x7b") then l.readText 3
  else match s.directiveAt? o.directives l.pos with
    | none => l.readTextUntil (s.skipWhile Byte.isWord (l.pos + 1))
    | some m =>
      if m.name = "verbatim" ∧ l.mode = .data ∧ !m.hasArgs then
        (l.emitUntil .verbatimStart m.nameEnd).goTo .verbatim
      else if m.name = "php" ∧ l.mode = .data ∧ !m.hasArgs then
        (l.emitUntil .phpBlockStart m.nameEnd).goTo .phpBlock
      else
        let l := l.emitUntil .directive m.nameEnd
        if m.hasArgs then { l with returnMode := l.mode }.goTo .directiveArgs else l

def directiveArgs (l : Lexer) : Lexer :=
  let paren := s.skipHorizontalSpace l.pos
  let l := l.emitUntil .whitespace paren
  let ((stop, closed), memo) := s.balancedParens l.memo .php 0 paren
  let l := { l with memo }
  let l := if closed then l else l.report .unterminatedArguments paren
  let l := l.emitUntil .directiveArgs stop
  l.goTo l.returnMode

def verbatim (l : Lexer) : Lexer :=
  match s.find (ascii "@endverbatim") l.pos with
  | some stop => ((l.emitUntil .text stop).emit .verbatimEnd 12).goTo .data
  | none => (l.report .unterminatedVerbatim l.pos).emitUntil .text s.size

def phpBlock (l : Lexer) : Lexer :=
  match s.findOutsideCode l.memo .php (ascii "@endphp") l.pos with
  | (some stop, memo) =>
    (({ l with memo }.emitUntil .phpContent stop).emit .phpBlockEnd 7).goTo .data
  | (none, memo) =>
    ({ l with memo }.report .unterminatedPhpBlock l.pos).emitUntil .phpContent s.size

/-- Reads up to the closing tag, which may be missing at the end of the source. -/
def phpTag (l : Lexer) : Lexer :=
  match s.findOutsideCode l.memo .php (ascii "?>") l.pos with
  | (some stop, memo) =>
    (({ l with memo }.emitUntil .phpContent stop).emit .phpTagEnd 2).goTo .data
  | (none, memo) => { l with memo }.emitUntil .phpContent s.size

end Lexer
end BladeTree
