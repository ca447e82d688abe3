import BladeTree.Proofs.Token.Phase
import BladeTree.Token.Lexer.Step

namespace BladeTree

def Enclosure.unclosed? : Enclosure → Option LexerErrorKind
  | echo _ => some .unterminatedEcho
  | bladeComment => some .unterminatedBladeComment
  | comment => some .unterminatedComment
  | phpBlock => some .unterminatedPhpBlock
  | phpTag => none
  | verbatim => some .unterminatedVerbatim

def Enclosure.looksAhead : Enclosure → Bool
  | echo _ | bladeComment | comment => true
  | phpBlock | phpTag | verbatim => false

/-- The report on what is not closed in this phase. Where the source ends right after the opener of
a block or the quote before a value, there is none. -/
def Phase.unclosed? : Phase → Option LexerErrorKind
  | opened e _ => if e.looksAhead then e.unclosed? else none
  | filled e _ => e.unclosed?
  | quotedValue => some .unterminatedAttributeValue
  | _ => none

theorem Phase.unclosed?_of_zone? {p : Phase} {zone : Zone} (h : p.zone? = some zone) :
    p.unclosed? = none := by
  cases p with
  | opened | filled | quotedValue => cases h
  | _ => rfl

def TokenType.terminator? : TokenType → Option String
  | doctype | bogusComment => some ">"
  | cdata => some "]]>"
  | _ => none

theorem TokenType.next?_of_terminator? {kind : TokenType} {terminator : String}
    (h : kind.terminator? = some terminator) {p : Phase} {zone : Zone} (hp : p.zone? = some zone) :
    p.next? kind = some (.between .content) := by
  cases kind with
  | doctype | cdata | bogusComment =>
      rw [Phase.next?_of_continues hp rfl]
      cases zone <;> rfl
  | _ => cases h

def Token.unclosed? (s : Source) (t : Token) : Option LexerErrorKind :=
  match t.kind with
  | .directiveArgs =>
    if (s.balancedParens .empty .php 0 t.start).1.2 then none else some .unterminatedArguments
  | kind => kind.terminator?.bind fun terminator =>
    if (s.find (ascii terminator) (t.start + 2)).isSome then none else some .unterminatedDoctype

namespace Token

variable (s : Source) (i j : Nat)

theorem unclosed?_declaration {kind : TokenType} {terminator : String}
    (h : kind.terminator? = some terminator) :
    (⟨kind, i, j⟩ : Token).unclosed? s =
      if (s.find (ascii terminator) (i + 2)).isSome then none else some .unterminatedDoctype := by
  cases kind with
  | doctype | cdata | bogusComment =>
      cases h
      rfl
  | _ => cases h

theorem unclosed?_enclosure (e : Enclosure) :
    (⟨e.opening, i, j⟩ : Token).unclosed? s = none ∧
      (⟨e.content, i, j⟩ : Token).unclosed? s = none ∧
        (⟨e.closing, i, j⟩ : Token).unclosed? s = none := by
  rcases e with ⟨flavor⟩ | _ | _ | _ | _ | _
  · cases flavor <;> exact ⟨rfl, rfl, rfl⟩
  all_goals exact ⟨rfl, rfl, rfl⟩

end Token

theorem Source.terminator?_of_markupStart {s : Source} {i : Nat} {kind : TokenType}
    {terminator : String} (h : s.markupStart i = .declaration kind terminator) :
    kind.terminator? = some terminator := by
  unfold markupStart at h
  repeat' split at h
  all_goals cases h <;> rfl

end BladeTree
