import BladeTree.Text.Source

namespace BladeTree

structure LineCol where
  line : UInt32
  col : UInt32
  deriving DecidableEq, Repr

/-- Where the lines of a text start, in order, and where the text ends. -/
structure LineIndex where
  starts : List UInt32
  size : UInt32

namespace LineIndex

/-- Offsets just past each newline from `i` on. -/
def lineStarts (s : Source) (i : Nat) : List UInt32 :=
  if h : i < s.size then
    if s.bytes[i] = Byte.newline then (i + 1).toUInt32 :: lineStarts s (i + 1)
    else lineStarts s (i + 1)
  else []
termination_by s.size - i

def ofSource (s : Source) : LineIndex :=
  ⟨0 :: lineStarts s 0, s.size.toUInt32⟩

def lineCount (x : LineIndex) : Nat := x.starts.length

/-- Position of an offset; offsets past the end count as the end. -/
def lineCol (x : LineIndex) (offset : UInt32) : LineCol :=
  let offset := min offset x.size
  let reached := x.starts.takeWhile (· ≤ offset)
  ⟨(reached.length - 1).toUInt32, offset - reached.getLastD 0⟩

/-- Offset of a position, unless it lies past the end of the text. The sum is a 32-bit word. -/
def offset (x : LineIndex) (p : LineCol) : Option UInt32 := do
  let start ← x.starts[p.line.toNat]?
  let offset := start + p.col
  if offset ≤ x.size then some offset else none

end LineIndex
end BladeTree
