import BladeTree.Diagnostic.Severity

namespace BladeTree

inductive Ink where
  | plain
  | title
  /-- The word for the severity, and the main mark with its label. -/
  | severity
  /-- Line numbers and the lines around the code. -/
  | frame
  /-- A second mark with its label. -/
  | context
  deriving DecidableEq, Repr

namespace Ink

def bold : String := "\x1b[1m"

def colored (number : String) : String := bold ++ "\x1b[" ++ number ++ "m"

def reset : String := "\x1b[0m"

def severityCode : Severity → String
  | .error => colored "91"
  | .warning => colored "33"
  | .info => colored "94"

def code (s : Severity) : Ink → String
  | plain => ""
  | title => bold
  | severity => severityCode s
  | frame | context => colored "94"

end Ink

structure Cell where
  char : Char
  ink : Ink

structure Canvas where
  rows : Array (Array Cell)

namespace Canvas

def empty : Canvas := ⟨#[]⟩

def height (c : Canvas) : Nat := c.rows.size

def blank : Cell := ⟨' ', .plain⟩

def padTo (x : α) (n : Nat) (xs : Array α) : Array α := xs ++ Array.replicate (n - xs.size) x

def row (c : Canvas) (y : Nat) : Array Cell := c.rows.getD y #[]

def setRow (c : Canvas) (y : Nat) (cells : Array Cell) : Canvas :=
  ⟨(padTo #[] (y + 1) c.rows).setIfInBounds y cells⟩

def put (c : Canvas) (y x : Nat) (char : Char) (ink : Ink) : Canvas :=
  c.setRow y ((padTo blank (x + 1) (c.row y)).setIfInBounds x ⟨char, ink⟩)

def write (c : Canvas) (y x : Nat) (text : List Char) (ink : Ink) : Canvas :=
  match text with
  | [] => c
  | char :: rest => write (c.put y x char ink) y (x + 1) rest ink

/-- Draws the same character in the columns `start … stop` of a row. -/
def fill (c : Canvas) (y start stop : Nat) (char : Char) (ink : Ink) : Canvas :=
  c.write y start (List.replicate (stop - start) char) ink

/-- Draws the same character in the rows `start … stop` of a column. -/
def fillDown (c : Canvas) (x start stop : Nat) (char : Char) (ink : Ink) : Canvas :=
  (List.range' start (stop - start)).foldl (fun c y => c.put y x char ink) c

def append (c : Canvas) (y : Nat) (text : String) (ink : Ink) : Canvas :=
  c.write y (c.row y).size text.toList ink

def dots : List Char := ['.', '.', '.']

def elide (c : Canvas) (y start stop : Nat) : Canvas :=
  let cells := c.row y
  if start = stop ∨ cells.size < start ∨ cells.size < stop then c
  else
    let dots := (dots.map fun char => (⟨char, .frame⟩ : Cell)).toArray
    c.setRow y (cells.extract 0 start ++ dots ++ cells.extract stop cells.size)

def rowText (code : Ink → String) (current : String) : List Cell → String
  | [] => if current = "" then "" else Ink.reset
  | cell :: rest =>
    let next := code cell.ink
    let change :=
      if next = current then ""
      else (if current = "" then "" else Ink.reset) ++ next
    change ++ cell.char.toString ++ rowText code next rest

def text (code : Ink → String) (c : Canvas) : String :=
  "\n".intercalate (c.rows.toList.map fun cells => rowText code "" cells.toList)

end Canvas
end BladeTree
