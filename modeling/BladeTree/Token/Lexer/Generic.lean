import BladeTree.Token.Lexer.Basic

namespace BladeTree
namespace GenericScan

/-- Bytes that may stand in type arguments beside names and brackets. -/
def isFiller (b : UInt8) : Bool :=
  b == Byte.comma || b == Byte.space || b == Byte.dot || b == Byte.backslash || b == Byte.pipe ||
    b == Byte.ampersand || b == Byte.question || b == Byte.openBracket || b == Byte.closeBracket

/-- Matches brackets from `i` on until the outermost list closes or a byte cannot stand in type
arguments. `opened` holds the open brackets, innermost first, and `lastName` the last byte of a
name. Gives the end of the scan and the closed lists that name a type. -/
def matchBrackets (s : Source) (opened : List Nat) (lastName : Option Nat)
    (closes : List (Nat × Nat)) (i : Nat) : Nat × List (Nat × Nat) :=
  if h : i < s.size then
    let b := s.bytes[i]
    if b = Byte.lessThan then matchBrackets s (i :: opened) lastName closes (i + 1)
    else if b = Byte.greaterThan then
      match opened with
      | [] => (i, closes)
      | start :: opened =>
        let closes := if lastName.any (start < ·) then (start, i + 1) :: closes else closes
        if opened.isEmpty then (i + 1, closes)
        else matchBrackets s opened lastName closes (i + 1)
    else if Byte.isWord b then matchBrackets s opened (some i) closes (i + 1)
    else if isFiller b then matchBrackets s opened lastName closes (i + 1)
    else (i, closes)
  else (i, closes)
termination_by s.size - i

def startingAt (s : Source) (pos : Nat) : GenericScan :=
  let (stop, closes) := matchBrackets s [] none [] pos
  ⟨pos, max stop (pos + 1), closes⟩

def covers (g : GenericScan) (pos : Nat) : Bool := g.start ≤ pos && pos < g.stop

/-- The scan to ask about `pos`: this one if it covers the position, else a new one. -/
def covering (g : GenericScan) (s : Source) (pos : Nat) : GenericScan :=
  if g.covers pos then g else startingAt s pos

/-- The offset past the list of type arguments that opens at `pos`. -/
def close? (g : GenericScan) (pos : Nat) : Option Nat := g.closes.lookup pos

end GenericScan

namespace Lexer

variable (s : Source)

def genericArgs (l : Lexer) : Lexer :=
  if s.has (· == Byte.lessThan) l.pos then
    let generics := l.generics.covering s l.pos
    let l := { l with generics }
    match generics.close? l.pos with
    | some stop => l.emitUntil .genericArgs stop
    | none => l
  else l

end Lexer
end BladeTree
