import BladeTree.Token.Lexer.Basic

namespace BladeTree

inductive BraceOpener where
  | bladeComment
  | echo (flavor : EchoFlavor)
  deriving DecidableEq, Repr

/-- What a search for the end of an echo meets first. -/
inductive EchoEnd where
  | closed (pos : Nat)
  /-- Another opener, so that the first one is text. -/
  | degraded
  | unterminated
  deriving DecidableEq, Repr

namespace Source

variable (s : Source)

/-- The construct that opens with the brace at `pos`. -/
def braceOpener? (pos : Nat) : Option BraceOpener :=
  if s.startsWith pos (ascii "\x7b\x7b--") then some .bladeComment
  else if s.startsWith pos (ascii (EchoFlavor.opening .triple)) then some (.echo .triple)
  else if s.startsWith pos (ascii (EchoFlavor.opening .escaped)) then some (.echo .escaped)
  else if s.startsWith pos (ascii (EchoFlavor.opening .raw)) then some (.echo .raw)
  else none

def opensEcho (pos : Nat) : Bool :=
  s.startsWith pos (ascii "\x7b\x7b") || s.startsWith pos (ascii "\x7b!!")

def findEchoEnd (flavor : EchoFlavor) (i : Nat) : EchoEnd :=
  if i < s.size then
    if s.startsWith i (ascii flavor.closing) then .closed i
    else if s.opensEcho i then .degraded
    else findEchoEnd flavor (i + 1)
  else .unterminated
termination_by s.size - i

theorem le_findEchoEnd {flavor : EchoFlavor} {i pos : Nat}
    (h : s.findEchoEnd flavor i = .closed pos) : i ≤ pos := by
  fun_induction findEchoEnd s flavor i with
  | case1 i _ hs => simp at h; omega
  | case2 => simp at h
  | case3 i _ _ _ ih => have := ih h; omega
  | case4 => simp at h

end Source

namespace Lexer

variable (s : Source)

def beginEcho (l : Lexer) (flavor : EchoFlavor) (close : Option Nat) : Lexer :=
  let l := l.emit flavor.startType flavor.width
  { l with echoClose := close, returnMode := l.mode }.goTo (.echoContent flavor)

def bladeComment (l : Lexer) : Lexer :=
  let start := l.pos
  let l := l.emit .bladeCommentStart 4
  match s.find (ascii "--\x7d\x7d") l.pos with
  | some stop => (l.emitUntil .bladeCommentContent stop).emit .bladeCommentEnd 4
  | none =>
    (l.report .unterminatedBladeComment start).emitUntil .bladeCommentContent s.size

/-- Reads what opens at a brace; a brace that opens nothing is text. -/
def brace (l : Lexer) : Lexer :=
  match s.braceOpener? l.pos with
  | none => l.readText 1
  | some .bladeComment => l.bladeComment s
  | some (.echo flavor) =>
    match s.findEchoEnd flavor (l.pos + flavor.width) with
    | .degraded => l.readText flavor.width
    | .closed pos => l.beginEcho flavor (some pos)
    | .unterminated => (l.report .unterminatedEcho l.pos).beginEcho flavor none

def echoContent (l : Lexer) (flavor : EchoFlavor) : Lexer :=
  let closed := { l with echoClose := none }
  let l := match l.echoClose with
    | some pos => (closed.emitUntil .echoContent pos).emit flavor.endType flavor.width
    | none => closed.emitUntil .echoContent s.size
  l.goTo l.returnMode

end Lexer
end BladeTree
