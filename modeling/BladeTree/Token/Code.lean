import BladeTree.Text.Source

namespace BladeTree

/-- The host languages embedded in a template. -/
inductive CodeFlavor where
  /-- Strings in single or double quotes, comments after `//` or `#` or between `/*` and `*/`. -/
  | php
  /-- As `php`, with backquotes for strings and without `#`. -/
  | script
  /-- Strings in single or double quotes, comments between `/*` and `*/`. -/
  | style
  deriving DecidableEq, Repr

def CodeFlavor.isQuote (flavor : CodeFlavor) (b : UInt8) : Bool :=
  b == Byte.singleQuote || b == Byte.doubleQuote ||
    (b == Byte.backquote && flavor == .script)

/-- Where earlier scans found that a string or block comment is never closed. What opens later
with the same delimiter is never closed either, so no scan runs to the end twice. -/
structure ScanMemo where
  singleQuoted : Option Nat
  doubleQuoted : Option Nat
  otherQuoted : Option Nat
  comment : Option Nat
  deriving DecidableEq, Repr

namespace ScanMemo

def empty : ScanMemo := ⟨none, none, none, none⟩

def string (m : ScanMemo) (quote : UInt8) : Option Nat :=
  if quote = Byte.singleQuote then m.singleQuoted
  else if quote = Byte.doubleQuote then m.doubleQuoted
  else m.otherQuoted

def recordString (m : ScanMemo) (quote : UInt8) (start : Nat) : ScanMemo :=
  let least := (m.string quote).elim start (min start)
  if quote = Byte.singleQuote then { m with singleQuoted := some least }
  else if quote = Byte.doubleQuote then { m with doubleQuoted := some least }
  else { m with otherQuoted := some least }

def recordComment (m : ScanMemo) (start : Nat) : ScanMemo := { m with comment := some start }

end ScanMemo

namespace Source

variable (s : Source)

/-- Past the quote that closes a string with its body at `i`; a backslash hides the next byte. -/
def closeString (quote : UInt8) (i : Nat) : Option Nat :=
  if h : i < s.size then
    let b := s.bytes[i]
    if b = Byte.backslash then closeString quote (i + 2)
    else if b = quote then some (i + 1)
    else closeString quote (i + 1)
  else none
termination_by s.size - i

theorem lt_closeString {quote : UInt8} {i j : Nat} (h : s.closeString quote i = some j) :
    i < j := by
  fun_induction closeString s quote i with
  | case1 i _ b _ ih => have := ih h; omega
  | case2 i _ b _ _ => simp at h; omega
  | case3 i _ b _ _ ih => have := ih h; omega
  | case4 i _ => simp at h

def skipString (m : ScanMemo) (quote : UInt8) (pos : Nat) : Option Nat × ScanMemo :=
  if (m.string quote).any (· ≤ pos) then (none, m)
  else match s.closeString quote (pos + 1) with
    | some stop => (some stop, m)
    | none => (none, m.recordString quote pos)

/-- End of a line comment: its newline, or `stopAt` before it, or the end of the source. -/
def lineCommentEnd (stopAt : Option (List UInt8)) (i : Nat) : Nat :=
  if h : i < s.size then
    if s.bytes[i] = Byte.newline || stopAt.any (s.startsWith i) then i
    else lineCommentEnd stopAt (i + 1)
  else s.size
termination_by s.size - i

theorem le_lineCommentEnd (stopAt : Option (List UInt8)) {i : Nat} (hi : i ≤ s.size) :
    i ≤ s.lineCommentEnd stopAt i := by
  fun_induction lineCommentEnd s stopAt i with
  | case1 => omega
  | case2 i h _ ih => have := ih h; omega
  | case3 => omega

def startsLineComment (flavor : CodeFlavor) (pos : Nat) : Bool :=
  match flavor with
  | .php =>
    s.startsWith pos (ascii "//") ||
      (s.has (· == Byte.hash) pos && !s.has (· == Byte.openBracket) (pos + 1))
  | .script => s.startsWith pos (ascii "//")
  | .style => false

/-- Past the comment at `pos`, if there is one. A block comment that is never closed is none. -/
def skipComment (m : ScanMemo) (flavor : CodeFlavor) (stopAt : Option (List UInt8))
    (pos : Nat) : Option Nat × ScanMemo :=
  if s.startsWith pos (ascii "/*") then
    if m.comment.any (· ≤ pos) then (none, m)
    else match s.find (ascii "*/") (pos + 2) with
      | some stop => (some (stop + 2), m)
      | none => (none, m.recordComment pos)
  else if s.startsLineComment flavor pos then (some (s.lineCommentEnd stopAt (pos + 1)), m)
  else (none, m)

/-- Past the string or comment at `pos`, or past its one byte `b` if neither starts there. -/
def skipUnit (m : ScanMemo) (flavor : CodeFlavor) (stopAt : Option (List UInt8)) (b : UInt8)
    (pos : Nat) : Nat × ScanMemo :=
  let (stop, m) :=
    if flavor.isQuote b then s.skipString m b pos
    else if b = Byte.slash ∨ b = Byte.hash then s.skipComment m flavor stopAt pos
    else (none, m)
  (stop.getD (pos + 1), m)

theorem lt_of_skipString {m : ScanMemo} {quote : UInt8} {pos stop : Nat}
    (h : (s.skipString m quote pos).1 = some stop) : pos < stop := by
  unfold skipString at h
  split at h
  · simp at h
  · split at h
    · rename_i hc; have := s.lt_closeString hc; simp at h; omega
    · simp at h

theorem lt_of_skipComment {m : ScanMemo} {flavor : CodeFlavor} {stopAt : Option (List UInt8)}
    {pos stop : Nat} (hp : pos < s.size)
    (h : (s.skipComment m flavor stopAt pos).1 = some stop) : pos < stop := by
  unfold skipComment at h
  split at h
  · split at h
    · simp at h
    · split at h
      · rename_i hf; have := s.le_find hf; simp at h; omega
      · simp at h
  · split at h
    · have : pos + 1 ≤ _ := s.le_lineCommentEnd stopAt hp; simp at h; omega
    · simp at h

theorem lt_skipUnit (m : ScanMemo) (flavor : CodeFlavor) (stopAt : Option (List UInt8))
    (b : UInt8) {pos : Nat} (hp : pos < s.size) :
    pos < (s.skipUnit m flavor stopAt b pos).1 := by
  have get {o : Option Nat} (h : ∀ stop, o = some stop → pos < stop) :
      pos < o.getD (pos + 1) := by
    cases o with
    | none => simp
    | some stop => exact h stop rfl
  unfold skipUnit
  split
  rename_i heq
  split at heq
  · exact get fun stop h => s.lt_of_skipString (by rw [heq]; exact h)
  · split at heq
    · exact get fun stop h => s.lt_of_skipComment hp (by rw [heq]; exact h)
    · simp only [Prod.mk.injEq] at heq; rw [← heq.1]; simp

/-- Reads a group of parentheses from `i` on, `depth` of them being open. Gives the offset past
the one that closes the first, or else the end of the source. -/
def balancedParens (m : ScanMemo) (flavor : CodeFlavor) (depth i : Nat) :
    (Nat × Bool) × ScanMemo :=
  if h : i < s.size then
    let b := s.bytes[i]
    if b = Byte.openParen then balancedParens m flavor (depth + 1) (i + 1)
    else if b = Byte.closeParen then
      if depth ≤ 1 then ((i + 1, true), m) else balancedParens m flavor (depth - 1) (i + 1)
    else
      have := s.lt_skipUnit m flavor none s.bytes[i] h
      let next := s.skipUnit m flavor none s.bytes[i] i
      balancedParens next.2 flavor depth next.1
  else ((s.size, false), m)
termination_by s.size - i

theorem lt_balancedParens {m : ScanMemo} {flavor : CodeFlavor} {depth i : Nat}
    (h : (s.balancedParens m flavor depth i).1.2 = true) :
    i < (s.balancedParens m flavor depth i).1.1 := by
  fun_induction balancedParens s m flavor depth i with
  | case1 m depth i _ b _ ih => have := ih h; omega
  | case2 => simp
  | case3 m depth i _ b _ _ _ ih => have := ih h; omega
  | case4 m depth i _ b _ _ hlt next ih =>
    have h1 := ih h
    have h2 : i < next.1 := hlt
    omega
  | case5 => simp at h

/-- First occurrence of `terminator` at or after `i` outside strings and comments. -/
def findOutsideCode (m : ScanMemo) (flavor : CodeFlavor) (terminator : List UInt8) (i : Nat) :
    Option Nat × ScanMemo :=
  if h : i < s.size then
    if s.startsWith i terminator then (some i, m)
    else
      have := s.lt_skipUnit m flavor (some terminator) s.bytes[i] h
      let next := s.skipUnit m flavor (some terminator) s.bytes[i] i
      findOutsideCode next.2 flavor terminator next.1
  else (none, m)
termination_by s.size - i

def isOpenBracket (b : UInt8) : Bool :=
  b == Byte.openParen || b == Byte.openBracket || b == Byte.openBrace

def isCloseBracket (b : UInt8) : Bool :=
  b == Byte.closeParen || b == Byte.closeBracket || b == Byte.closeBrace

/-- Counts the commas in the outermost bracket of bytes `i … stop`, and whether anything but
brackets, commas and white space stands there. -/
def countCommas (m : ScanMemo) (stop depth commas : Nat) (content : Bool) (i : Nat) :
    (Nat × Bool) × ScanMemo :=
  if h : i < min stop s.size then
    have hi : i < s.size := by omega
    let b := s.bytes[i]
    if isOpenBracket b then countCommas m stop (depth + 1) commas content (i + 1)
    else if isCloseBracket b then countCommas m stop (depth - 1) commas content (i + 1)
    else if b = Byte.comma ∧ depth = 1 then
      countCommas m stop depth (commas + 1) content (i + 1)
    else if hq : b = Byte.singleQuote ∨ b = Byte.doubleQuote then
      let skipped := s.skipString m b i
      match hs : skipped.1 with
      | some e =>
        have : i < e := s.lt_of_skipString hs
        countCommas skipped.2 stop depth commas true (min e stop)
      | none => countCommas skipped.2 stop depth commas true (i + 1)
    else countCommas m stop depth commas (content || !Byte.isSpace b) (i + 1)
  else ((commas, content), m)
termination_by min stop s.size - i

/-- Number of arguments between the parentheses at `start … stop`. -/
def countArguments (m : ScanMemo) (start stop : Nat) : Nat × ScanMemo :=
  let ((commas, content), m) := s.countCommas m stop 0 0 false start
  (if content then commas + 1 else 0, m)

end Source
end BladeTree
