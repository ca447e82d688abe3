import BladeTree.Proofs.Token.Lexer.Trail

namespace BladeTree

theorem EchoFlavor.not_opensTag_startType (f : EchoFlavor) : ¬ f.startType.OpensTag := by
  cases f <;> nofun

theorem EchoFlavor.not_opensTag_endType (f : EchoFlavor) : ¬ f.endType.OpensTag := by
  cases f <;> nofun

namespace Lexer
namespace Trail

variable {o : ParseOptions} {s : Source} {start l : Lexer} (h : Trail o s start l)
include h

theorem comment (hopen : s.startsWith l.pos (ascii "<!--")) :
    Trail o s start (l.comment s) := by
  have hstart := h.emit .commentStart (n := 4) nofun (by decide)
    (s.isBoundary_after (by decide) hopen rfl)
  unfold Lexer.comment
  simp only
  split
  · rename_i stop hfind
    exact hstart.emitClosed .commentText .commentEnd nofun nofun (by decide) (s.le_find hfind)
      (s.startsWith_of_find hfind) rfl
  · exact (hstart.note _ _ _ _).emitUntil .commentText nofun s.isBoundary_size

theorem declaration {kind : TokenType} {terminator : List UInt8} (hk : ¬ kind.OpensTag)
    (hp : Source.Plain terminator) : Trail o s start (l.declaration s kind terminator) := by
  unfold Lexer.declaration
  split
  · rename_i stop hfind
    exact h.emitUntil kind hk (s.isBoundary_after hp (s.startsWith_of_find hfind) rfl)
  · exact (h.note _ _ _ _).emitUntil kind hk s.isBoundary_size

theorem bladeComment (hopen : s.startsWith l.pos (ascii "\x7b\x7b--")) :
    Trail o s start (l.bladeComment s) := by
  have hstart := h.emit .bladeCommentStart (n := 4) nofun (by decide)
    (s.isBoundary_after (by decide) hopen rfl)
  unfold Lexer.bladeComment
  simp only
  split
  · rename_i stop hfind
    exact hstart.emitClosed .bladeCommentContent .bladeCommentEnd nofun nofun (by decide)
      (s.le_find hfind) (s.startsWith_of_find hfind) rfl
  · exact (hstart.note _ _ _ _).emitUntil .bladeCommentContent nofun s.isBoundary_size

theorem beginEcho {flavor : EchoFlavor} {close : Option Nat} (hm : l.mode.Resumes)
    (hopen : s.startsWith l.pos (ascii flavor.opening))
    (hclose : ∀ c, close = some c →
      l.pos + flavor.width ≤ c ∧ s.startsWith c (ascii flavor.closing)) :
    Relation.ReflTransGen (Move o s) start (l.beginEcho flavor close) := by
  have hstart := h.emit flavor.startType flavor.not_opensTag_startType flavor.width_pos
    (s.isBoundary_add_width_opening hopen)
  exact hstart.moves.tail (.beginEcho flavor close hstart.cut (by rwa [emit_mode])
    (by rwa [emit_pos]))

theorem brace (hm : l.mode.Resumes)
    (hnone : s.braceOpener? l.pos = none → s.isBoundary (l.pos + 1)) :
    Relation.ReflTransGen (Move o s) start (l.brace s) := by
  unfold Lexer.brace
  split
  · exact (h.readText (hnone ‹_›)).moves
  · exact (h.bladeComment (s.startsWith_of_bladeComment ‹_›)).moves
  · rename_i flavor hopener
    have hopen := s.startsWith_of_braceOpener? hopener
    split
    · exact (h.readText (s.isBoundary_add_width_opening hopen)).moves
    · rename_i c hend
      refine h.beginEcho hm hopen ?_
      rintro _ ⟨⟩
      exact ⟨s.le_findEchoEnd hend, s.startsWith_of_findEchoEnd hend⟩
    · exact (h.note _ _ _ _).beginEcho hm hopen nofun

theorem atSign (hm : l.mode.Resumes) (hb : s.byte? l.pos = some Byte.atSign) :
    Trail o s start (l.atSign o s) := by
  have hword {i : Nat} (hi : s.isBoundary i) := s.isBoundary_skipWhile Byte.asciiClass_isWord hi
  have hskip (n : Nat) : l.pos ≤ s.skipWhile Byte.isWord (l.pos + n) :=
    (Nat.le_add_right _ _).trans (s.le_skipWhile Byte.isWord _)
  unfold Lexer.atSign
  split
  · rename_i htwo
    exact h.readTextUntil (hskip 2) (hword (s.isBoundary_after (by decide) htwo rfl))
  · split
    · rename_i hbraces
      exact h.readText (s.isBoundary_after (by decide) hbraces (by decide))
    · split
      · exact h.readTextUntil (hskip 1) (hword (s.isBoundary_succ_of_ascii hb (by decide)))
      · rename_i m hmatch
        have hname := s.isBoundary_nameEnd hmatch
        split
        · exact (h.emitUntil .verbatimStart nofun hname).goTo .verbatim nofun
        · split
          · exact (h.emitUntil .phpBlockStart nofun hname).goTo .phpBlock nofun
          · have hd := h.emitUntil .directive nofun hname
            simp only
            split
            · have hsave := hd.move (.saveMode hd.silent (by rwa [emitUntil_mode])) hd.cut
                hd.silent
              exact hsave.goTo .directiveArgs nofun
            · exact hd

theorem directiveArgs : Trail o s start (l.directiveArgs s) := by
  have hparen : s.isBoundary (s.skipHorizontalSpace l.pos) :=
    s.isBoundary_skipWhile Byte.asciiClass_isHorizontalSpace h.cut
  have hspace := h.emitUntil .whitespace nofun hparen
  unfold Lexer.directiveArgs
  simp only
  refine goToReturnMode (emitUntil ?_ .directiveArgs nofun (s.isBoundary_balancedParens _ _ _ _))
  split
  · exact hspace.note _ _ _ _
  · exact hspace.note _ _ _ _

theorem verbatim : Trail o s start (l.verbatim s) := by
  unfold Lexer.verbatim
  split
  · rename_i stop hfind
    exact (h.emitClosed .text .verbatimEnd nofun nofun (by decide) (s.le_find hfind)
      (s.startsWith_of_find hfind) (by decide)).goTo .data nofun
  · exact (h.note _ _ _ _).emitUntil .text nofun s.isBoundary_size

theorem phpClosed {terminator : List UInt8} {closeKind : TokenType} {n stop : Nat}
    {memo : ScanMemo}
    (hfind : s.findOutsideCode l.memo .php terminator l.pos = (some stop, memo))
    (hc : ¬ closeKind.OpensTag) (hp : Source.Plain terminator) (hn : terminator.length = n) :
    Trail o s start ((({ l with memo }.emitUntil .phpContent stop).emit closeKind n).goTo .data) := by
  obtain ⟨hle, hstop⟩ := s.le_of_findOutsideCode (congrArg Prod.fst hfind)
  have hnoted := h.note l.pendingRawText l.valueArgsUnclosed memo l.errors
  exact (hnoted.emitClosed .phpContent closeKind nofun hc hp hle hstop hn).goTo .data nofun

theorem phpBlock : Trail o s start (l.phpBlock s) := by
  unfold Lexer.phpBlock
  split
  · rename_i hfind
    exact h.phpClosed hfind nofun (by decide) rfl
  · exact (h.note _ _ _ _).emitUntil .phpContent nofun s.isBoundary_size

theorem phpTag : Trail o s start (l.phpTag s) := by
  unfold Lexer.phpTag
  split
  · rename_i hfind
    exact h.phpClosed hfind nofun (by decide) rfl
  · exact (h.note _ _ _ _).emitUntil .phpContent nofun s.isBoundary_size

end Trail

theorem moves_echoContent {o : ParseOptions} {s : Source} {l : Lexer} {flavor : EchoFlavor}
    (hr : Ready s l) (hm : l.mode = .echoContent flavor) :
    Relation.ReflTransGen (Move o s) l (l.echoContent s flavor) := by
  have hcut : s.isBoundary l.pos := hr.cut.resolve_left (by rw [hm]; nofun)
  have hclosed : Trail o s l { l with echoClose := none } :=
    ⟨.single .takeEcho, hr.move (o := o) .takeEcho, hcut, rfl⟩
  unfold echoContent
  simp only
  split
  · rename_i c hc
    obtain ⟨f, hf, hle, hstop⟩ := hr.echo c hc
    cases hm.symm.trans hf
    have hend := hclosed.emitClosed .echoContent flavor.endType nofun flavor.not_opensTag_endType
      flavor.plain_closing hle hstop flavor.length_ascii_closing
    exact hend.goToReturnMode.moves
  · exact (hclosed.emitUntil .echoContent nofun s.isBoundary_size).goToReturnMode.moves

end Lexer
end BladeTree
