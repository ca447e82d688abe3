import BladeTree.Token.Lexer.Directive
import BladeTree.Token.Lexer.Echo

namespace BladeTree
namespace Source

variable (s : Source)

def closesRawText (kind : RawText) (pos : Nat) : Bool :=
  let name := ascii kind.tagName
  s.startsWith pos (ascii "</") && s.startsWithIgnoreCase (pos + 2) name &&
    !s.has Byte.isTagName (pos + 2 + name.length)

/-- End of a string in raw text with its body at `i`: past its closing quote, or before the
closing tag, or before a newline unless it is quoted by backquotes. -/
def rawStringEnd (kind : RawText) (quote : UInt8) (i : Nat) : Nat :=
  if h : i < s.size then
    let b := s.bytes[i]
    if b = Byte.backslash then rawStringEnd kind quote (i + 2)
    else if b = quote then i + 1
    else if b = Byte.newline ∧ quote ≠ Byte.backquote then i
    else if s.closesRawText kind i then i
    else rawStringEnd kind quote (i + 1)
  else s.size
termination_by s.size - i

def rawBlockCommentEnd (kind : RawText) (i : Nat) : Nat :=
  if i < s.size then
    if s.startsWith i (ascii "*/") then i + 2
    else if s.closesRawText kind i then i
    else rawBlockCommentEnd kind (i + 1)
  else s.size
termination_by s.size - i

def rawLineCommentEnd (kind : RawText) (i : Nat) : Nat :=
  if h : i < s.size then
    if s.bytes[i] = Byte.newline then i
    else if s.closesRawText kind i then i
    else rawLineCommentEnd kind (i + 1)
  else s.size
termination_by s.size - i

def rawUnitEnd (kind : RawText) (b : UInt8) (pos : Nat) : Nat :=
  match kind.flavor? with
  | none => pos + 1
  | some flavor =>
    if flavor.isQuote b then s.rawStringEnd kind b (pos + 1)
    else if s.startsWith pos (ascii "/*") then s.rawBlockCommentEnd kind (pos + 2)
    else if flavor = .script ∧ s.startsWith pos (ascii "//") then
      s.rawLineCommentEnd kind (pos + 2)
    else pos + 1

theorem le_rawStringEnd (kind : RawText) (quote : UInt8) {i : Nat} {j : Nat} (hj : j ≤ i)
    (hs : j ≤ s.size) : j ≤ s.rawStringEnd kind quote i := by
  fun_induction rawStringEnd s kind quote i with
  | case1 i _ b _ ih => exact ih (by omega)
  | case2 => omega
  | case3 => omega
  | case4 => omega
  | case5 i _ b _ _ _ _ ih => exact ih (by omega)
  | case6 => omega

theorem le_rawBlockCommentEnd (kind : RawText) {i : Nat} {j : Nat} (hj : j ≤ i)
    (hs : j ≤ s.size) : j ≤ s.rawBlockCommentEnd kind i := by
  fun_induction rawBlockCommentEnd s kind i with
  | case1 => omega
  | case2 => omega
  | case3 i _ _ _ ih => exact ih (by omega)
  | case4 => omega

theorem le_rawLineCommentEnd (kind : RawText) {i : Nat} {j : Nat} (hj : j ≤ i)
    (hs : j ≤ s.size) : j ≤ s.rawLineCommentEnd kind i := by
  fun_induction rawLineCommentEnd s kind i with
  | case1 => omega
  | case2 => omega
  | case3 i _ _ _ ih => exact ih (by omega)
  | case4 => omega

theorem lt_rawUnitEnd (kind : RawText) (b : UInt8) {pos : Nat} (hp : pos < s.size) :
    pos < s.rawUnitEnd kind b pos := by
  have h1 := s.le_rawStringEnd kind b (Nat.le_refl (pos + 1)) hp
  have h2 := s.le_rawBlockCommentEnd kind (Nat.le_succ (pos + 1)) hp
  have h3 := s.le_rawLineCommentEnd kind (Nat.le_succ (pos + 1)) hp
  unfold rawUnitEnd
  split
  · omega
  · split
    · omega
    · split
      · exact h2
      · split
        · exact h3
        · omega

/-- End of the run of raw text from `i` on: before a byte that may open something. -/
def rawRunEnd (kind : RawText) (i : Nat) : Nat :=
  if h : i < s.size then
    if s.bytes[i] = Byte.lessThan ∨ s.bytes[i] = Byte.openBrace ∨ s.bytes[i] = Byte.atSign then i
    else
      have := s.lt_rawUnitEnd kind s.bytes[i] h
      rawRunEnd kind (s.rawUnitEnd kind s.bytes[i] i)
  else i
termination_by s.size - i

end Source

namespace Lexer

variable (o : ParseOptions) (s : Source)

def rawText (l : Lexer) (kind : RawText) (b : UInt8) : Lexer :=
  if s.closesRawText kind l.pos then
    let l := (l.emit .lessThan 1).emit .slash 1
    (l.emit .tagName (ascii kind.tagName).length).goTo .closingTag
  else if (s.braceOpener? l.pos).isSome then l.brace s
  else if b = Byte.atSign ∧ (s.directiveAt? o.directives l.pos).isSome then l.atSign o s
  else l.readTextUntil (s.rawRunEnd kind (s.rawUnitEnd kind b l.pos))

end Lexer
end BladeTree
