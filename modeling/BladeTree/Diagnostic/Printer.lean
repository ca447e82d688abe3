import BladeTree.Diagnostic.Snippet.Row
import BladeTree.Text.Source

namespace BladeTree

structure DiagnosticPrinter where
  /-- Shows the code that a diagnostic points at; without it each one takes a line. -/
  source : Option String
  path : Option String
  colored : Bool
  policy : SeverityPolicy

namespace DiagnosticPrinter

def standard : DiagnosticPrinter := ⟨none, none, false, .lenient⟩

/-- The character that starts at a boundary, or the last character at the end of a source. -/
def charSpan (s : Source) (offset : Nat) : Span :=
  if offset = s.size then
    ⟨offset - (s.text.toList.getLast?).elim 0 Char.utf8Size, offset⟩
  else ⟨offset, s.skipWhile Byte.isContinuation (offset + 1)⟩

/-- The part of a span inside a source; a character if there is none. -/
def visibleSpan (s : Source) (span : Span) : Span :=
  let start := min span.start s.size
  let stop := min span.stop s.size
  if start < stop then ⟨start, stop⟩ else charSpan s start

def annotations (s : Source) (d : Diagnostic) : List Annotation :=
  ⟨visibleSpan s d.span, d.context, true⟩ ::
    d.related.map fun r => ⟨visibleSpan s r.span, some r.message, false⟩

/-- Digits of the number of the last line that the annotations reach into. -/
def digits (lines : List SourceLine) (as : List Annotation) : Nat :=
  let stop := Margin.maximum (as.map (·.span.stop))
  (toString (max 1 (lines.countP (·.start < stop)))).length

def drawTitle (severity : Severity) (message : String) : Canvas :=
  let c := Canvas.empty.append 0 severity.word .severity
  let c := c.append 0 ": " .title
  let indentation := String.ofList (List.replicate (severity.word.length + 2) ' ')
  let lines := (visibleText message.toList).splitOn '\n'
  lines.zipIdx.foldl
    (fun c (line, y) =>
      let c := if y = 0 then c else c.append y indentation .plain
      c.append y (String.ofList line) .title) c

/-- Where the main mark starts, as a line and a column counted from one. -/
def position (lines : List MarkedLine) : Option (Nat × Nat) := do
  let line ← (lines.find? (·.marks.any (·.isPrimary))).or lines.head?
  let own := line.marks.filter (·.isPrimary)
  let chars := (if own.isEmpty then line.marks else own).map (·.startChar)
  return (line.number, Margin.minimum chars + 1)

def drawPath (digits : Nat) (path : String) (lines : List MarkedLine) (c : Canvas) : Canvas :=
  let y := c.height
  let place := (position lines).elim path fun (line, column) => s!"{path}:{line}:{column}"
  let c := c.append y (String.ofList (List.replicate digits ' ')) .plain
  (c.append y "--> " .frame).append y place .plain

def draw (p : DiagnosticPrinter) (s : Source) (d : Diagnostic) : Canvas :=
  let lines := SourceLine.split s.text
  let as := annotations s d
  let digits := digits lines as
  let (depth, marked) := MarkedLine.ofAnnotations lines as
  let room := Margin.terminalWidth - SnippetLayout.codeStart digits depth
  let layout : SnippetLayout := ⟨digits, depth, .fit (.of marked) room⟩
  let c := drawTitle (p.policy.severity d.kind) d.message
  let c := p.path.elim c fun path => drawPath digits path marked c
  layout.drawLines lines [] (layout.separator c c.height) marked

def snippet (p : DiagnosticPrinter) (s : Source) (d : Diagnostic) : String :=
  let code := if p.colored then Ink.code (p.policy.severity d.kind) else fun _ => ""
  (p.draw s d).text code

def print (p : DiagnosticPrinter) (ds : List Diagnostic) : String :=
  "\n".intercalate <|
    match p.source with
    | some source => ds.map (p.snippet (Source.ofString source))
    | none => ds.map fun d => (p.policy.severity d.kind).word ++ " " ++ d.line

end DiagnosticPrinter
end BladeTree
