import BladeTree.Proofs.Token.Lexer.Construct

namespace BladeTree
namespace Lexer
namespace Trail

variable {o : ParseOptions} {s : Source} {start l : Lexer} (h : Trail o s start l)
include h

theorem genericArgs : Trail o s start (l.genericArgs s) := by
  have hg := GenericScan.endsOnBoundaries_covering l.pos h.ready.generics
  unfold Lexer.genericArgs
  split
  · have hlearn := h.move (.learn _ hg) h.cut h.silent
    simp only
    split
    · rename_i stop hstop
      exact hlearn.emitUntil .genericArgs nofun (GenericScan.isBoundary_of_close? hg hstop)
    · exact hlearn
  · exact h

theorem openStartTag (hopen : s.byte? l.pos = some Byte.lessThan) :
    Trail o s start (l.openStartTag s) := by
  have hstart := h.opens hopen
  have hname : s.isBoundary (s.tagNameEnd (l.emit .lessThan 1).pos) :=
    s.isBoundary_skipWhile Byte.asciiClass_isTagName hstart.cut
  unfold Lexer.openStartTag
  simp only
  refine goTo ?_ .beforeAttributeName nofun
  split
  · exact ((hstart.note _ _ _ _).emitUntil .tagName nofun hname).genericArgs
  · exact (hstart.note _ _ _ _).emitUntil .tagName nofun hname

theorem openClosingTag (hopen : s.byte? l.pos = some Byte.lessThan)
    (hslash : s.startsWith (l.pos + 1) (ascii "/")) (halpha : s.has Byte.isAlpha (l.pos + 2)) :
    Trail o s start (l.openClosingTag s) := by
  have hmid : s.byte? (l.pos + 1) = some Byte.slash := s.byte?_of_startsWith hslash (k := 0) (by decide)
  have hlt : l.pos + 1 + 1 < s.tagNameEnd (l.pos + 1 + 1) := s.lt_tagNameEnd halpha
  have hstop : s.isBoundary (s.tagNameEnd (l.pos + 1 + 1)) := (s.isBoundary_tagName halpha).2
  have hstart := h.opens hopen
  unfold Lexer.openClosingTag
  simp only [emit_pos]
  rw [emitUntil_of_lt _ (by rwa [emit_pos, emit_pos]), emit_pos, emit_pos]
  refine goTo (hstart.slash (by rwa [emit_pos]) (Nat.sub_pos_of_lt hlt) ?_) .closingTag nofun
  rwa [emit_pos, Nat.add_sub_cancel' hlt.le]

theorem enterContent : Trail o s start l.enterContent := by
  unfold Lexer.enterContent
  split
  · exact (h.note _ _ _ _).goTo _ nofun
  · exact h.goTo _ nofun

theorem abandonTag : Trail o s start l.abandonTag :=
  (h.note _ _ _ _).goTo _ nofun

theorem attributeName (hpos : l.pos < s.size) : Trail o s start (l.attributeName s) :=
  (h.emitUntil .attributeName nofun (s.attributeNameEnd_bounds hpos).2).goTo _ nofun

theorem afterAttributeName : Trail o s start (l.afterAttributeName s) := by
  have hspaces : s.isBoundary (s.skipSpaces l.pos) :=
    s.isBoundary_skipWhile Byte.asciiClass_isSpace h.cut
  have hle : l.pos ≤ s.skipSpaces l.pos := s.le_skipWhile _ _
  unfold Lexer.afterAttributeName
  simp only
  split
  · rename_i hequals
    obtain ⟨b, hb, hbe⟩ := s.exists_of_has hequals
    rw [beq_iff_eq] at hbe
    subst hbe
    refine ((h.emitUntil .whitespace nofun hspaces).emit .equals nofun (by decide) ?_).goTo _ nofun
    rw [emitUntil_pos, Nat.max_eq_right hle]
    exact s.isBoundary_succ_of_ascii hb (by decide)
  · exact h.goTo _ nofun

theorem beforeAttributeValue : Trail o s start (l.beforeAttributeValue s) := by
  have hspaces : s.isBoundary (s.skipSpaces l.pos) :=
    s.isBoundary_skipWhile Byte.asciiClass_isSpace h.cut
  have hle : l.pos ≤ s.skipSpaces l.pos := s.le_skipWhile _ _
  have hspaced := h.emitUntil .whitespace nofun hspaces
  unfold Lexer.beforeAttributeValue
  simp only
  split
  · exact h.goTo _ nofun
  · rename_i b hb
    split
    · rename_i hquote
      have hascii : Byte.isAscii b := by
        rcases hquote with rfl | rfl <;> decide
      refine (hspaced.emit .quote nofun (by decide) ?_).goTo _ ?_
      · rw [emitUntil_pos, Nat.max_eq_right hle]
        exact s.isBoundary_succ_of_ascii hb hascii
      · rintro q ⟨⟩
        exact hascii
    · split
      · exact h.goTo _ nofun
      · exact hspaced.goTo _ nofun

theorem attributeValue {quote : Option UInt8} (hq : ∀ q, quote = some q → Byte.isAscii q) :
    Trail o s start (l.attributeValue o s quote) := by
  unfold Lexer.attributeValue
  simp only
  generalize hfound : s.valueEnd o.directives quote l.valueArgsUnclosed l.memo l.pos = found
  obtain ⟨hle, hstop, hclosed⟩ : s.EndsAfter l.pos found :=
    hfound ▸ s.endsAfter_valueEnd _ quote _ _ h.ready.inside hq
  refine goTo ?_ .beforeAttributeName nofun
  have hvalue := (h.note l.pendingRawText found.argsUnclosed found.memo l.errors).emitUntil
    .attributeValue nofun hstop
  split
  · exact hvalue
  · split
    · rename_i hc
      refine hvalue.emit .quote nofun (by decide) ?_
      rw [emitUntil_pos, Nat.max_eq_right hle]
      exact hclosed hc
    · exact hvalue.note _ _ _ _

theorem closingTag {b : UInt8} (hb : s.byte? l.pos = some b) :
    Trail o s start (l.closingTag s b) := by
  have hpos := s.lt_size_of_byte? hb
  unfold Lexer.closingTag
  split
  · exact h.emitUntil _ nofun (s.isBoundary_skipWhile Byte.asciiClass_isSpace h.cut)
  · split
    · rename_i hgt
      subst hgt
      exact (h.emit .greaterThan nofun (by decide)
        (s.isBoundary_succ_of_ascii hb (by decide))).goTo _ nofun
    · split
      · exact h.abandonTag
      · refine h.readTextUntil ((Nat.le_succ _).trans (s.le_skipWhile _ _))
          (s.isBoundary_skipWhile_not ?_ hpos)
        exact (Byte.asciiClass_iff _).2 (by decide +kernel)

end Trail
end Lexer
end BladeTree
