import BladeTree.Proofs.Document.Parse
import BladeTree.Proofs.Token.Lexer.Phased
import BladeTree.Proofs.Token.ScanCall

namespace BladeTree

/-- Where a step may read a group of parentheses: the arguments of the directive before, or of one
in an attribute value. -/
inductive Lexer.ReadsGroup (o : ParseOptions) (s : Source) (l : Lexer) (paren : Nat) : Prop
  | directive : l.mode = .directiveArgs → s.skipHorizontalSpace l.pos = paren →
      ReadsGroup o s l paren
  | value (i : Nat) : s.argsParen? o.directives i = some paren → ReadsGroup o s l paren

/-- A group begins with a parenthesis, and its scan closes none while none is open. -/
structure Source.CountsGroup (s : Source) (start : Nat) : Prop where
  opens : s.byte? start = some Byte.openParen
  scan : ∀ m depth m' i, s.ScansGroup m .php start depth m' i →
    s.balancedParens m .php 0 start = s.balancedParens m' .php depth i ∧
      (s.byte? i = some Byte.closeParen → 0 < depth)

theorem Lexer.ReadsGroup.counts {o : ParseOptions} {s : Source} {l : Lexer} {paren : Nat}
    (h : l.ReadsGroup o s paren) (ho : o.lexerExtensions = []) (hl : Reachable o s l)
    (hlt : l.pos < s.size) : s.CountsGroup paren := by
  have hopens : s.byte? paren = some Byte.openParen := by
    cases h with
    | directive hm hparen => exact hparen ▸ hl.byte?_of_directiveArgs ho hm hlt
    | value i hparen => exact s.byte?_of_argsParen? hparen
  exact ⟨hopens, fun _ _ _ _ hscan => ⟨hscan.balancedParens_eq, hscan.pos_of_closes hopens⟩⟩

namespace Builder

/-- The builders that the loop over the items comes past. -/
inductive Reachable (t : Tokenized) : Builder → Prop
  | initial : Reachable t initial
  | item (b b' : Builder) : Reachable t b → b.pos < t.size → b.contentItem t = .ok b' →
      Reachable t b'

theorem Reachable.sound {t : Tokenized} {b : Builder} (h : Reachable t b) : b.Sound t := by
  induction h with
  | initial => exact sound_initial
  | item b b' _ hlt hitem ih =>
      have hyields := ih.contentItem hlt
      rw [hitem] at hyields
      exact hyields.1

end Builder

namespace Document

variable {o : ParseOptions}

end Document
end BladeTree
