import BladeTree.Diagnostic.Snippet.Line
import BladeTree.Text.WhiteSpace

namespace BladeTree

/-- The part of a marked span that lies in one line. A span over several lines has a depth: the
column, counted from the left, of the bar that runs along it. -/
inductive MarkShape where
  | whole
  | start (depth : Nat)
  | line (depth : Nat)
  | stop (depth : Nat)
  deriving DecidableEq, Repr

structure Mark where
  shape : MarkShape
  /-- Terminal columns. -/
  start : Nat
  stop : Nat
  /-- Characters before the start. Columns and characters do not order places alike: a combining
  character takes no column, and the end of a line counts only as a character. -/
  startChar : Nat
  /-- Characters before the stop. -/
  stopChar : Nat
  label : Option String
  isPrimary : Bool
  deriving DecidableEq, Repr

namespace Mark

def hasLabel (m : Mark) : Bool := m.label.any (!·.isEmpty)

def labelText (m : Mark) : List Char := m.label.elim [] (·.toList)

def isJoined (m : Mark) : Bool :=
  match m.shape with
  | .start _ | .stop _ => true
  | _ => false

def isLine (m : Mark) : Bool := m.shape matches .line _

def depth? (m : Mark) : Option Nat :=
  match m.shape with
  | .start depth | .stop depth => some depth
  | _ => none

def width (m : Mark) : Nat := max m.start m.stop - min m.start m.stop

def rangesMeet (aStart aStop bStart bStop : Nat) : Bool :=
  (bStart ≤ aStart && aStart < bStop) || (aStart ≤ bStart && bStart < aStop)

def overlaps (a b : Mark) (padding : Nat) : Bool :=
  rangesMeet a.start (a.stop + padding) b.start b.stop

def hasSameRange (a b : Mark) : Bool :=
  a.start == b.start && a.startChar == b.startChar && a.stop == b.stop && a.stopChar == b.stopChar

def startsNoEarlier (a b : Mark) : Bool :=
  b.start < a.start || (b.start == a.start && b.startChar ≤ a.startChar)

def stopsNoLater (a b : Mark) : Bool :=
  a.stop < b.stop || (a.stop == b.stop && a.stopChar ≤ b.stopChar)

end Mark

structure Annotation where
  span : Span
  label : Option String
  isPrimary : Bool

/-- An annotation over several lines. -/
structure LongMark where
  start : Place
  stop : Place
  label : Option String
  isPrimary : Bool
  depth : Nat
  /-- Another one covers exactly the same. -/
  hasTwin : Bool

namespace LongMark

def hasSameSpan (a b : LongMark) : Bool := a.start == b.start && a.stop == b.stop

def sharesLine (a b : LongMark) : Bool :=
  Mark.rangesMeet a.start.line (a.stop.line + 1) b.start.line (b.stop.line + 1)

/-- Moves the marks before number `index` that share a line with it one step along, up to the
first that does not. -/
def yieldTo (m : LongMark) (index : Nat) (isPrimary : LongMark → Bool) :
    Nat → List LongMark → List LongMark
  | _, [] => []
  | i, a :: rest =>
    if !m.hasSameSpan a && m.sharesLine a then
      { a with depth := a.depth + 1 } :: yieldTo m index isPrimary (i + 1) rest
    else if m.hasSameSpan a && i != index then
      { a with hasTwin := true } :: yieldTo m index isPrimary (i + 1) rest
    else { a with isPrimary := a.isPrimary || isPrimary a } :: rest

/-- Gives each mark a depth such that marks which share a line have different ones. -/
def assignDepths (ms : List LongMark) : List LongMark :=
  let sorted := ms.mergeSort fun a b =>
    a.start.line < b.start.line || (a.start.line == b.start.line && b.stop.line ≤ a.stop.line)
  let isPrimary := fun seen (a : LongMark) =>
    (sorted.take seen).any fun b => b.isPrimary && b.hasSameSpan a
  let raised := sorted.zipIdx.foldl
    (fun ms (m, i) => yieldTo m i (isPrimary (i + 1)) 0 ms) sorted
  let deepest := (raised.map (·.depth)).foldl max 0
  raised.map fun m => { m with depth := deepest - m.depth + 1 }

def startMark (m : LongMark) : Mark :=
  ⟨.start m.depth, m.start.column, m.start.column + 1, m.start.char, m.start.char + 1, none,
    m.isPrimary⟩

def lineMark (m : LongMark) : Mark := ⟨.line m.depth, 0, 0, 0, 0, none, m.isPrimary⟩

def stopMark (m : LongMark) : Mark :=
  ⟨if m.hasTwin then .whole else .stop m.depth, m.stop.column - 1, m.stop.column, m.stop.char - 1,
    m.stop.char, m.label, m.isPrimary⟩

def trimBlanks (cs : List Char) : List Char :=
  ((cs.dropWhile WhiteSpace.contains).reverse.dropWhile WhiteSpace.contains).reverse

/-- The line is worth showing: it is not blank, a lone bracket or a comment. -/
def isTelling (line : List Char) : Bool :=
  let text := String.ofList (trimBlanks line)
  let isComment := text.startsWith "//" && !(text.startsWith "///" || text.startsWith "//!")
  !isComment && !(["", "\x7b", "\x7d", "(", ")", "[", "]"].contains text)

/-- The lines that are shown in the middle: at most three after the first, up to the last telling
one, and the line before the last one. -/
def middleLines (lines : List SourceLine) (m : LongMark) : List Nat :=
  let isTellingAt := fun number => (SourceLine.textAt? lines number).any isTelling
  let middle := min (m.start.line + 4) m.stop.line
  let shown := (List.range' m.start.line (middle - m.start.line)).reverse
  let stop := (shown.find? isTellingAt).elim m.start.line (· + 1)
  let near := List.range' (m.start.line + 1) (stop - (m.start.line + 1))
  if middle < m.stop.line - 1 ∧ isTellingAt (m.stop.line - 1) then near ++ [m.stop.line - 1]
  else near

def marks (lines : List SourceLine) (m : LongMark) : List (Nat × Mark) :=
  (if m.hasTwin then []
    else (m.start.line, m.startMark) ::
      (middleLines lines m).map fun number => (number, m.lineMark)) ++
    [(m.stop.line, m.stopMark)]

end LongMark

namespace Annotation

/-- The marks of an annotation within one line, at least one column wide. -/
def mark? (lines : List SourceLine) (a : Annotation) : Option (Nat × Mark) :=
  let start := Place.ofStart lines a.span.start
  let stop := Place.ofStop lines start a.span.stop
  if start.line = stop.line then
    let stopColumn := if start.column = stop.column then stop.column + 1 else stop.column
    some (start.line,
      ⟨.whole, start.column, stopColumn, start.char, stop.char, a.label, a.isPrimary⟩)
  else none

def longMark? (lines : List SourceLine) (a : Annotation) : Option LongMark :=
  let start := Place.ofStart lines a.span.start
  let stop := Place.ofStop lines start a.span.stop
  if start.line = stop.line then none
  else some ⟨start, stop, a.label, a.isPrimary, 1, false⟩

end Annotation

structure MarkedLine where
  number : Nat
  text : List Char
  marks : List Mark

namespace MarkedLine

/-- The lines with marks in them, and the greatest depth of a mark. -/
def ofAnnotations (lines : List SourceLine) (as : List Annotation) : Nat × List MarkedLine :=
  let long := LongMark.assignDepths (as.filterMap (·.longMark? lines))
  let marks := as.filterMap (·.mark? lines) ++ long.flatMap (·.marks lines)
  let marked := lines.filterMap fun l =>
    match marks.filterMap fun (number, m) => if number = l.number then some m else none with
    | [] => none
    | own => some ⟨l.number, l.text, own⟩
  ((long.map (·.depth)).foldl max 0, marked)

end MarkedLine
end BladeTree
