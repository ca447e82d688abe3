import BladeTree.Diagnostic.Basic
import BladeTree.Text.Width

namespace BladeTree

structure SourceLine where
  /-- Counted from one. -/
  number : Nat
  /-- Without the end of the line. -/
  text : List Char
  start : Nat
  textStop : Nat
  /-- Past the end of the line. -/
  stop : Nat

def utf8Length (cs : List Char) : Nat := cs.foldr (Char.utf8Size · + ·) 0

namespace SourceLine

/-- The text of a line that ends in a newline; a carriage return belongs to the end. -/
def withoutReturn (piece : List Char) : List Char :=
  if piece.getLast? = some '\r' then piece.dropLast else piece

def ofPieces (number start : Nat) : List (List Char) → List SourceLine
  | [] => []
  | [last] =>
    let stop := start + utf8Length last
    if last.isEmpty then [] else [⟨number, last, start, stop, stop⟩]
  | piece :: rest =>
    let text := withoutReturn piece
    let stop := start + utf8Length piece + 1
    ⟨number, text, start, start + utf8Length text, stop⟩ :: ofPieces (number + 1) stop rest

def split (source : String) : List SourceLine :=
  match ofPieces 1 0 (source.toList.splitOn '\n') with
  | [] => [⟨1, [], 0, 0, 0⟩]
  | lines => lines

def contains (l : SourceLine) (offset : Nat) : Bool := l.start ≤ offset && offset < l.stop

def find (lines : List SourceLine) (offset : Nat) : SourceLine :=
  ((lines.find? (·.contains offset)).or lines.getLast?).getD ⟨1, [], 0, 0, 0⟩

def textAt? (lines : List SourceLine) (number : Nat) : Option (List Char) :=
  (lines.find? (·.number == number)).map (·.text)

def before (l : SourceLine) (offset : Nat) : List Char :=
  go (offset - l.start) l.text
where
  go (bytes : Nat) : List Char → List Char
    | [] => []
    | c :: rest => if c.utf8Size ≤ bytes then c :: go (bytes - c.utf8Size) rest else []

end SourceLine

structure Place where
  line : Nat
  /-- Characters before it in its line. -/
  char : Nat
  /-- Terminal columns before it in its line. -/
  column : Nat
  byte : Nat
  deriving DecidableEq, Repr

namespace Place

/-- Where a span starts. The end of a line lies one character past its text. -/
def ofStart (lines : List SourceLine) (offset : Nat) : Place :=
  let l := SourceLine.find lines offset
  let before := l.before offset
  ⟨l.number, before.length + (if l.textStop < offset then 1 else 0), Width.ofList before, offset⟩

/-- Where a span stops that starts at a place. If it covers lines and the end of the last one,
that end counts as a character. -/
def ofStop (lines : List SourceLine) (start : Place) (offset : Nat) : Place :=
  if start.byte = offset then start
  else
    let l := SourceLine.find lines offset
    let before := l.before offset
    let past := if start.line ≠ l.number ∧ l.textStop < offset then 1 else 0
    ⟨l.number, before.length + past, Width.ofList before + past, offset⟩

end Place
end BladeTree
