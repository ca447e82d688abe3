import BladeTree.Diagnostic.Snippet.Canvas
import BladeTree.Diagnostic.Snippet.Margin

namespace BladeTree

structure SnippetLayout where
  /-- Digits of the greatest line number. -/
  digits : Nat
  /-- The bars of long marks, side by side. -/
  depth : Nat
  margin : Margin

namespace SnippetLayout

/-- Columns before the bars: the line number and the line after it with a blank on both sides. -/
def frameWidth (digits : Nat) : Nat := digits + 3

def codeStart (digits depth : Nat) : Nat :=
  frameWidth digits + if depth = 0 then 0 else depth + 1

variable (l : SnippetLayout)

def barColumn (depth : Nat) : Nat := frameWidth l.digits + depth - 1

def column (left display : Nat) : Nat := codeStart l.digits l.depth + display - left

def separator (c : Canvas) (y : Nat) : Canvas := c.put y (l.digits + 1) '|' .frame

end SnippetLayout

/-- Shows a control character by a sign for it, and a tab by four spaces. -/
def visible (c : Char) : List Char :=
  let n := c.toNat
  if c = '\t' then [' ', ' ', ' ', ' ']
  else if n < 0x20 ∧ c ≠ '\n' then [Char.ofNat (0x2400 + n)]
  else if n = 0x7F then ['\u2421']
  else if n = 0x200D then []
  else if (0x202A ≤ n ∧ n ≤ 0x202E) ∨ (0x2066 ≤ n ∧ n ≤ 0x2069) then ['\ufffd']
  else [c]

def visibleText (cs : List Char) : List Char := cs.flatMap visible

namespace Mark

def ink (m : Mark) : Ink := if m.isPrimary then .severity else .context

def underline (m : Mark) : Char := if m.isPrimary then '^' else '-'

/-- Two labels, or a label and a join, would be written over each other. -/
def collides (m next : Mark) (onFirstRow : Bool) : Bool :=
  let padding := next.label.elim 0 (·.utf8ByteSize + 2)
  (next.overlaps m padding && m.hasLabel && next.hasLabel) ||
    (m.isJoined && next.hasLabel) || (m.hasLabel && next.isJoined) ||
    (m.isJoined && next.isJoined) ||
    (next.overlaps m padding && next.stopsNoLater m && next.hasLabel && onFirstRow)

def isCrowded (m next : Mark) : Bool :=
  next.overlaps m 0 && m.hasLabel && !(next.hasSameRange m && !next.hasLabel)

/-- Gives every mark a row below the code, for its label or join, and tells the next free row. The
marks come from right to left. -/
def assignRows (row : Nat) : List Mark → List (Nat × Mark) × Nat
  | [] => ([], row)
  | m :: rest =>
    let row := if row = 0 ∧ rest.any (isCrowded m) then 1 else row
    let next := if rest.any (collides m · (row == 0)) then row + 1 else row
    let (placed, last) := assignRows next rest
    ((row, m) :: placed, last)

end Mark

/-- A mark with its row below the code. -/
structure PlacedMark where
  row : Nat
  mark : Mark

/-- The marks of a line with their rows, and how many more rows than one they need. -/
def placeMarks (ms : List Mark) : List PlacedMark × Nat :=
  let sorted := ms.mergeSort Mark.startsNoEarlier
  let (rows, last) := Mark.assignRows 0 sorted
  let placed := rows.map fun (row, m) => (⟨row, m⟩ : PlacedMark)
  let extra := if last = 0 then 0 else last + 1
  if placed.all (·.mark.shape matches .start _) then
    let deepest := (placed.map (·.row)).foldl max 0
    (placed.map fun p => { p with row := deepest - p.row }, extra - 1)
  else (placed, extra)

namespace SnippetLayout

variable (l : SnippetLayout)

/-- Takes the characters before column `left` off a text, with the columns that they take. -/
def skipColumns (left : Nat) : Nat → List Char → Nat × List Char
  | skipped, [] => (skipped, [])
  | skipped, c :: rest =>
    if skipped < left then skipColumns left (skipped + Width.ofChar c) rest
    else (skipped, c :: rest)

def takeColumns (room : Nat) : List Char → List Char
  | [] => []
  | c :: rest =>
    if Width.ofChar c ≤ room then c :: takeColumns (room - Width.ofChar c) rest else []

/-- How many characters make way for dots, and how wide they are. -/
def dotsRoom : Nat → Nat → List Char → Nat × Nat
  | count, width, [] => (count, width)
  | count, width, c :: rest =>
    let width := width + Width.ofChar c
    if Canvas.dots.length ≤ width then (count + 1, width) else dotsRoom (count + 1) width rest

/-- Draws a line of code with its number. Returns the columns that are cut off on the left. -/
def drawCode (c : Canvas) (y number : Nat) (text : List Char) : Nat × Canvas :=
  let length := Width.ofList text
  let left := l.margin.leftOf length
  let right := l.margin.rightOf length
  let (skipped, rest) := skipColumns left 0 text
  let code := takeColumns (right - left) rest
  let left := max left skipped
  let start := codeStart l.digits l.depth
  let (count, width) := if 0 < l.margin.left then dotsRoom 0 0 code else (0, 0)
  let c := if 0 < l.margin.left then c.write y start Canvas.dots .frame else c
  let shown := code.drop count
  let c := c.write y (start + width) shown .plain
  let c :=
    if right < length then
      let taken := (dotsRoom 0 0 code.reverse).1
      c.write y (start + width + shown.length - taken) Canvas.dots .frame
    else c
  let digits := (toString number).toList
  let c := c.write y 0 (List.replicate (l.digits - digits.length) ' ' ++ digits) .frame
  (left, l.separator c y)

/-- The start of a long mark that nothing stands before is drawn into the line of code. -/
def drawShortStart (c : Canvas) (y : Nat) (m : Mark) : Canvas :=
  match m.shape with
  | .start depth => c.put y (l.barColumn depth) '/' m.ink
  | _ => c

def drawHorizontal (left y : Nat) (c : Canvas) (p : PlacedMark) : Canvas :=
  match p.mark.depth? with
  | some depth =>
    c.fill (y + p.row + 1) (frameWidth l.digits + depth) (l.column left p.mark.start) '_' p.mark.ink
  | none => c

def drawStem (left y : Nat) (c : Canvas) (p : PlacedMark) : Canvas :=
  if 0 < p.row ∧ (p.mark.hasLabel ∨ p.mark.isJoined) then
    c.fillDown (l.column left p.mark.start) (y + 1) (y + p.row + 2) '|' p.mark.ink
  else c

def drawBar (y rows : Nat) (c : Canvas) (p : PlacedMark) : Canvas :=
  match p.mark.shape with
  | .start depth =>
    let c := c.put (y + p.row + 1) (l.barColumn depth) ' ' p.mark.ink
    c.fillDown (l.barColumn depth) (y + p.row + 2) (y + rows + 2) '|' p.mark.ink
  | .stop depth => c.fillDown (l.barColumn depth) y (y + p.row + 2) '|' p.mark.ink
  | _ => c

def drawLabel (left y : Nat) (c : Canvas) (p : PlacedMark) : Canvas :=
  let start := codeStart l.digits l.depth
  let m := p.mark
  if p.row = 0 then
    let gap := if m.stop = 0 then 2 else 1
    c.write (y + 1) (start + (m.stop + gap - left)) m.labelText m.ink
  else c.write (y + p.row + 2) (start + (m.start - left)) m.labelText m.ink

def drawUnderline (left y : Nat) (c : Canvas) (p : PlacedMark) : Canvas :=
  let m := p.mark
  let c := (List.range' m.start (m.stop - m.start)).foldl
    (fun c column => c.put (y + 1) (l.column left column) m.underline m.ink) c
  if m.isJoined ∨ (0 < p.row ∧ m.hasLabel) then
    c.put (y + 1) (l.column left m.start) m.underline m.ink
  else c

/-- Takes the middle out of a mark of more than twice the room for code. -/
def shorten (left y : Nat) (c : Canvas) (m : Mark) : Canvas :=
  if m.shape = .whole ∧ l.margin.width * 2 < m.width ∧ 10 < m.width then
    let kept := max (l.margin.width / 3) 5
    let cut := fun (c : Canvas) y =>
      c.elide y (l.column left m.start + kept) (l.column left m.stop - kept)
    cut (cut c y) (y + 1)
  else c

/-- Draws a line with its marks. Returns the depths of the long marks that start or stop in it. -/
def drawLine (c : Canvas) (line : MarkedLine) : List (Nat × Ink) × Canvas :=
  let y := c.height
  let code := visibleText line.text
  let (left, c) := l.drawCode c y line.number code
  let isShort := fun (m : Mark) =>
    match m.shape with
    | .start _ => (code.take m.start).all WhiteSpace.contains
    | .line _ => true
    | _ => false
  let depths := fun (ms : List Mark) => ms.filterMap fun m => m.depth?.map (·, m.ink)
  if line.marks.all isShort then
    (depths line.marks, line.marks.foldl (fun c m => l.drawShortStart c y m) c)
  else
    let (placed, rows) := placeMarks line.marks
    let byWidth := placed.mergeSort fun a b =>
      b.mark.width < a.mark.width ||
        (a.mark.width == b.mark.width && (!a.mark.isPrimary || b.mark.isPrimary))
    let c := (List.range (rows + 1)).foldl (fun c row => l.separator c (y + row + 1)) c
    let c := placed.foldl (l.drawHorizontal left y) c
    let c := placed.foldl (fun c p => l.drawBar y rows (l.drawStem left y c p) p) c
    let c := placed.foldl (l.drawLabel left y) c
    let c := byWidth.foldl (l.drawUnderline left y) c
    let c := (byWidth.map (·.mark)).foldl (l.shorten left y) c
    (depths (byWidth.map (·.mark)), c)

def drawBars (bars : List (Nat × Ink)) (y : Nat) (c : Canvas) : Canvas :=
  bars.foldl (fun c (depth, ink) => c.fillDown (l.barColumn depth) y c.height '|' ink) c

/-- Bars end where a mark of their depth stops; others start, one for each depth. -/
def toggle (bars : List (Nat × Ink)) :
    List (Nat × Ink) → List (Nat × Ink) × List (Nat × Ink)
  | [] => (bars, [])
  | (depth, ink) :: rest =>
    if bars.any (·.1 == depth) then toggle (bars.eraseP (·.1 == depth)) rest
    else
      let (staying, starting) := toggle bars rest
      (staying, if starting.any (·.1 == depth) then starting else (depth, ink) :: starting)

/-- Draws what stands between two lines with marks: nothing, the one line, or dots. -/
def drawGap (lines : List SourceLine) (c : Canvas) (line next : MarkedLine)
    (bars : List (Nat × Ink)) : Canvas :=
  let y := c.height
  let starting := line.marks.filterMap fun m =>
    match m.shape with
    | .start depth => some (depth, m.ink)
    | _ => none
  if next.number = line.number + 2 then
    let text := visibleText ((SourceLine.textAt? lines (line.number + 1)).getD [])
    l.drawBars (bars ++ starting) y (l.drawCode c y (line.number + 1) text).2
  else if line.number + 2 < next.number then
    l.drawBars (bars ++ starting) y (c.write y 0 Canvas.dots .frame)
  else c

/-- Draws lines with their marks, and the bars that go on from the lines before. -/
def drawLines (lines : List SourceLine) (bars : List (Nat × Ink)) (c : Canvas) :
    List MarkedLine → Canvas
  | [] => c
  | line :: rest =>
    let y := c.height
    let (changed, c) := l.drawLine c line
    let (staying, starting) := toggle bars changed
    let c := l.drawBars staying y c
    let c := match rest with
      | next :: _ => l.drawGap lines c line next staying
      | [] => c
    drawLines lines (staying ++ starting) c rest

end SnippetLayout
end BladeTree
