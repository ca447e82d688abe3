import BladeTree.Diagnostic.Snippet.Mark

namespace BladeTree

/-- The columns of the code that are shown. Only long lines are cut. -/
structure Margin where
  left : Nat
  right : Nat
  /-- The room that there is for code. -/
  width : Nat

namespace Margin

def terminalWidth : Nat := 140

def padding : Nat := 6

def shortIndentation : Nat := 20

/-- What is taken off an indentation that is cut leaves this much of the short one. -/
def indentationKept : Nat := 16

structure Extent where
  indentation : Nat
  marksLeft : Nat
  marksRight : Nat
  labelsRight : Nat
  longestLine : Nat

def indentationOf (line : List Char) : Nat :=
  (line.takeWhile WhiteSpace.contains).foldr (fun c n => (if c = '\t' then 4 else 1) + n) 0

def minimum : List Nat → Nat
  | [] => 0
  | n :: rest => rest.foldl min n

def maximum (ns : List Nat) : Nat := ns.foldl max 0

def Extent.of (lines : List MarkedLine) : Extent :=
  let marks := (lines.flatMap (·.marks)).filter (!·.isLine)
  let filled := lines.filter (·.text.any (!WhiteSpace.contains ·))
  let ends := marks.flatMap fun m => [m.start, m.stop]
  { indentation := minimum (filled.map (indentationOf ·.text))
    marksLeft := minimum ends
    marksRight := maximum ends
    labelsRight := maximum <| marks.map fun m =>
      m.stop + m.label.elim 0 (Width.ofText · + 1)
    longestLine := maximum (lines.map (Width.ofList ·.text)) }

/-- Shows as much as possible: the whole lines, else the lines without indentation, else the
marks with their labels, else the marks alone. -/
def fit (e : Extent) (width : Nat) : Margin :=
  let indentation := min e.indentation e.marksLeft - padding
  let marksLeft := e.marksLeft - padding
  let marksRight := e.marksRight + padding
  let labelsRight := e.labelsRight + padding
  let left :=
    if shortIndentation < indentation then indentation - indentationKept else 0
  let right := max e.longestLine left
  if right - left ≤ width then ⟨left, right, width⟩
  else if indentation ≤ labelsRight ∧ labelsRight - indentation ≤ width then
    ⟨indentation, indentation + width, width⟩
  else if labelsRight - marksLeft ≤ width then
    let left := marksLeft - (width - (labelsRight - marksLeft)) / 2
    ⟨left, left + width, width⟩
  else if marksRight - marksLeft ≤ width then
    let left := marksLeft - (width - (marksRight - marksLeft)) / 5 * 2
    ⟨left, left + width, width⟩
  else ⟨marksLeft, marksRight, width⟩

def leftOf (m : Margin) (length : Nat) : Nat := min m.left length

def rightOf (m : Margin) (length : Nat) : Nat :=
  if length - m.left ≤ m.width then length else min length m.right

end Margin
end BladeTree
