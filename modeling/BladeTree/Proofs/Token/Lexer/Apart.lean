import BladeTree.Proofs.Token.Lexer.Cover
import BladeTree.Proofs.Token.Unclosed

namespace BladeTree
namespace Lexer

variable {o : ParseOptions} {s : Source} {start l l' : Lexer} {b : UInt8}

/-- Changes that read no echo: no content of one is among the new tokens, and the lexer is not about
to read any. -/
structure Apart (start l : Lexer) : Prop where
  mode : ∀ f, l.mode ≠ .echoContent f
  tokens : ∃ added : List Token, l.tokens = start.tokens ++ added ∧
    ∀ t ∈ added, t.kind ≠ .echoContent

theorem pendingText_ne_echoContent : ∀ t ∈ l.pendingText, t.kind ≠ .echoContent := by
  intro t ht
  obtain ⟨rfl, -⟩ := mem_pendingText ht
  nofun

theorem Apart.refl (hm : ∀ f, l.mode ≠ .echoContent f) : Apart l l :=
  ⟨hm, [], by simp, List.forall_mem_nil _⟩

namespace Apart

variable (h : Apart start l)
include h

theorem add (added : List Token) (ht : l'.tokens = l.tokens ++ added)
    (hadded : ∀ t ∈ added, t.kind ≠ .echoContent) (hm : ∀ f, l'.mode ≠ .echoContent f) :
    Apart start l' := by
  obtain ⟨before, hbefore, hkinds⟩ := h.tokens
  refine ⟨hm, before ++ added, ?_, ?_⟩
  · rw [ht, hbefore]
    apply Array.toList_inj.1
    simp
  · intro t ht
    rcases List.mem_append.1 ht with ht | ht
    · exact hkinds t ht
    · exact hadded t ht

theorem note (ht : l'.tokens = l.tokens) (hm : l'.mode = l.mode) : Apart start l' :=
  ⟨fun f => hm ▸ h.mode f, ht ▸ h.tokens⟩

theorem readText (n : Nat) : Apart start (l.readText n) := h.note rfl rfl

theorem readTextUntil (stop : Nat) : Apart start (l.readTextUntil stop) := h.note rfl rfl

theorem report (kind : LexerErrorKind) (offset : Nat) : Apart start (l.report kind offset) :=
  h.note rfl rfl

theorem emit (kind : TokenType) (n : Nat) (hk : kind ≠ .echoContent) :
    Apart start (l.emit kind n) := by
  refine h.add (l.pendingText ++ [⟨kind, l.pos, l.pos + n⟩]) (by rw [emit_eq]) ?_ ?_
  · intro t ht
    rcases List.mem_append.1 ht with ht | ht
    · exact pendingText_ne_echoContent t ht
    · cases List.mem_singleton.1 ht
      exact hk
  · rw [emit_mode]
    exact h.mode

theorem emitUntil (kind : TokenType) (stop : Nat) (hk : kind ≠ .echoContent) :
    Apart start (l.emitUntil kind stop) := by
  by_cases hlt : l.pos < stop
  · rw [emitUntil_of_lt kind hlt]
    exact h.emit kind _ hk
  · rw [emitUntil_of_le kind (Nat.le_of_not_lt hlt)]
    exact h

theorem goTo (mode : Mode) (hm : ∀ f, mode ≠ .echoContent f) : Apart start (l.goTo mode) := by
  refine h.add l.pendingText (by rw [goTo_eq]) pendingText_ne_echoContent ?_
  rw [goTo_mode]
  exact hm

/-! The constructs of content -/

theorem bladeComment : Apart start (l.bladeComment s) := by
  have hopen := h.emit .bladeCommentStart 4 nofun
  simp only [Lexer.bladeComment]
  split
  · exact (hopen.emitUntil .bladeCommentContent _ nofun).emit .bladeCommentEnd 4 nofun
  · exact (hopen.report _ _).emitUntil .bladeCommentContent _ nofun

theorem brace (hnone : ∀ f, s.braceOpener? l.pos ≠ some (.echo f)) :
    Apart start (l.brace s) := by
  cases hopener : s.braceOpener? l.pos with
  | none =>
      simp only [Lexer.brace, hopener]
      exact h.readText 1
  | some opener =>
      cases opener with
      | bladeComment =>
          simp only [Lexer.brace, hopener]
          exact h.bladeComment
      | echo f => exact absurd hopener (hnone f)

theorem atSign : Apart start (l.atSign o s) := by
  simp only [Lexer.atSign]
  split
  · exact h.readTextUntil _
  split
  · exact h.readText 3
  split
  · exact h.readTextUntil _
  split
  · exact (h.emitUntil .verbatimStart _ nofun).goTo .verbatim nofun
  split
  · exact (h.emitUntil .phpBlockStart _ nofun).goTo .phpBlock nofun
  split
  · rename_i m _ _ _ _
    have hname := h.emitUntil .directive m.nameEnd nofun
    refine goTo ?_ .directiveArgs nofun
    exact hname.note rfl rfl
  · exact h.emitUntil .directive _ nofun

theorem comment : Apart start (l.comment s) := by
  have hopen := h.emit .commentStart 4 nofun
  simp only [Lexer.comment]
  split
  · exact (hopen.emitUntil .commentText _ nofun).emit .commentEnd 3 nofun
  · exact (hopen.report _ _).emitUntil .commentText _ nofun

theorem declaration {kind : TokenType} (hk : kind ≠ .echoContent) (terminator : List UInt8) :
    Apart start (l.declaration s kind terminator) := by
  simp only [Lexer.declaration]
  split
  · exact h.emitUntil kind _ hk
  · exact (h.report _ _).emitUntil kind _ hk

theorem genericArgs : Apart start (l.genericArgs s) := by
  simp only [Lexer.genericArgs]
  split
  · split
    · refine emitUntil ?_ .genericArgs _ nofun
      exact h.note rfl rfl
    · exact h.note rfl rfl
  · exact h

theorem openStartTag : Apart start (l.openStartTag s) := by
  have hbracket := h.emit .lessThan 1 nofun
  have hname (kind : Option RawText) (stop : Nat) :
      Apart start
        (Lexer.emitUntil { l.emit .lessThan 1 with pendingRawText := kind } .tagName stop) := by
    refine emitUntil ?_ .tagName stop nofun
    exact hbracket.note rfl rfl
  simp only [Lexer.openStartTag]
  split
  · exact (hname _ _).genericArgs.goTo .beforeAttributeName nofun
  · exact (hname _ _).goTo .beforeAttributeName nofun

theorem openClosingTag : Apart start (l.openClosingTag s) := by
  have hslash := (h.emit .lessThan 1 nofun).emit .slash 1 nofun
  exact (hslash.emitUntil .tagName _ nofun).goTo .closingTag nofun

theorem markup : Apart start (l.markup s) := by
  cases hstart : s.markupStart l.pos with
  | comment =>
      simp only [Lexer.markup, hstart]
      exact h.comment
  | declaration kind terminator =>
      have hkind : kind ≠ .echoContent := by
        rintro rfl
        cases Source.terminator?_of_markupStart hstart
      simp only [Lexer.markup, hstart]
      exact h.declaration hkind _
  | php width =>
      simp only [Lexer.markup, hstart]
      exact (h.emit .phpTagStart width nofun).goTo .phpTag nofun
  | closingTag =>
      simp only [Lexer.markup, hstart]
      exact h.openClosingTag
  | startTag =>
      simp only [Lexer.markup, hstart]
      exact h.openStartTag
  | text =>
      simp only [Lexer.markup, hstart]
      exact h.readText 1

theorem data (hnone : ∀ f, s.braceOpener? l.pos ≠ some (.echo f)) :
    Apart start (l.data o s b) := by
  simp only [Lexer.data]
  split
  · exact h.markup
  split
  · exact h.brace hnone
  split
  · exact h.atSign
  · exact h.readTextUntil _

/-! Tags -/

theorem enterContent : Apart start l.enterContent := by
  simp only [Lexer.enterContent]
  split
  · rename_i kind _
    refine goTo ?_ (.rawText kind) nofun
    exact h.note rfl rfl
  · exact h.goTo .data nofun

theorem abandonTag : Apart start l.abandonTag := by
  refine goTo ?_ .data nofun
  exact h.note rfl rfl

theorem beforeAttributeName (hnone : ∀ f, s.braceOpener? l.pos ≠ some (.echo f)) :
    Apart start (l.beforeAttributeName o s b) := by
  simp only [Lexer.beforeAttributeName]
  split
  · exact h.emitUntil .whitespace _ nofun
  split
  · exact (h.emit .greaterThan 1 nofun).enterContent
  split
  · refine goTo ?_ .data nofun
    exact (h.emit .selfClose 2 nofun).note rfl rfl
  split
  · exact h.abandonTag
  split
  · exact h.brace hnone
  split
  · exact h.atSign
  split
  · exact h.readText 1
  · exact h.goTo .attributeName nofun

theorem attributeName : Apart start (l.attributeName s) :=
  (h.emitUntil .attributeName _ nofun).goTo .afterAttributeName nofun

theorem afterAttributeName : Apart start (l.afterAttributeName s) := by
  simp only [Lexer.afterAttributeName]
  split
  · have hspace := h.emitUntil .whitespace (s.skipSpaces l.pos) nofun
    exact (hspace.emit .equals 1 nofun).goTo .beforeAttributeValue nofun
  · exact h.goTo .beforeAttributeName nofun

theorem beforeAttributeValue : Apart start (l.beforeAttributeValue s) := by
  simp only [Lexer.beforeAttributeValue]
  split
  · exact h.goTo .beforeAttributeName nofun
  split
  · have hspace := h.emitUntil .whitespace (s.skipSpaces l.pos) nofun
    exact (hspace.emit .quote 1 nofun).goTo (.attributeValueQuoted _) nofun
  split
  · exact h.goTo .beforeAttributeName nofun
  · exact (h.emitUntil .whitespace _ nofun).goTo .attributeValueUnquoted nofun

theorem attributeValue (quote : Option UInt8) : Apart start (l.attributeValue o s quote) := by
  simp only [Lexer.attributeValue]
  generalize s.valueEnd o.directives quote l.valueArgsUnclosed l.memo l.pos = found
  have hvalue : Apart start (Lexer.emitUntil { l with
      valueArgsUnclosed := found.argsUnclosed, memo := found.memo } .attributeValue found.stop) := by
    refine emitUntil ?_ .attributeValue found.stop nofun
    exact h.note rfl rfl
  refine goTo ?_ .beforeAttributeName nofun
  split
  · exact hvalue
  split
  · exact hvalue.emit .quote 1 nofun
  · exact hvalue.report _ _

theorem closingTag : Apart start (l.closingTag s b) := by
  simp only [Lexer.closingTag]
  split
  · exact h.emitUntil .whitespace _ nofun
  split
  · exact (h.emit .greaterThan 1 nofun).goTo .data nofun
  split
  · exact h.abandonTag
  · exact h.readTextUntil _

/-! The other modes -/

theorem rawText {kind : RawText} (hnone : ∀ f, s.braceOpener? l.pos ≠ some (.echo f)) :
    Apart start (l.rawText o s kind b) := by
  simp only [Lexer.rawText]
  split
  · have hslash := (h.emit .lessThan 1 nofun).emit .slash 1 nofun
    exact (hslash.emit .tagName _ nofun).goTo .closingTag nofun
  split
  · exact h.brace hnone
  split
  · exact h.atSign
  · exact h.readTextUntil _

theorem directiveArgs (hreturn : l.returnMode.Resumes) : Apart start (l.directiveArgs s) := by
  have hmode (f : EchoFlavor) : l.returnMode ≠ .echoContent f := by
    intro heq
    rw [heq] at hreturn
    exact hreturn
  have hspace := h.emitUntil .whitespace (s.skipHorizontalSpace l.pos) nofun
  simp only [Lexer.directiveArgs]
  split
  · refine goTo (emitUntil ?_ .directiveArgs _ nofun) _ ?_
    · exact hspace.note rfl rfl
    · simpa using hmode
  · refine goTo (emitUntil (report ?_ _ _) .directiveArgs _ nofun) _ ?_
    · exact hspace.note rfl rfl
    · simpa using hmode

theorem verbatim : Apart start (l.verbatim s) := by
  simp only [Lexer.verbatim]
  split
  · exact ((h.emitUntil .text _ nofun).emit .verbatimEnd 12 nofun).goTo .data nofun
  · exact (h.report _ _).emitUntil .text _ nofun

theorem phpBlock : Apart start (l.phpBlock s) := by
  have hnote (memo : ScanMemo) : Apart start { l with memo } := h.note rfl rfl
  simp only [Lexer.phpBlock]
  split
  · rename_i stop memo _
    have hcode := (hnote memo).emitUntil .phpContent stop nofun
    exact (hcode.emit .phpBlockEnd 7 nofun).goTo .data nofun
  · exact ((hnote _).report _ _).emitUntil .phpContent _ nofun

theorem phpTag : Apart start (l.phpTag s) := by
  have hnote (memo : ScanMemo) : Apart start { l with memo } := h.note rfl rfl
  simp only [Lexer.phpTag]
  split
  · rename_i stop memo _
    have hcode := (hnote memo).emitUntil .phpContent stop nofun
    exact (hcode.emit .phpTagEnd 2 nofun).goTo .data nofun
  · exact (hnote _).emitUntil .phpContent _ nofun

end Apart

theorem apart_read (hr : Ready s l)
    (hm : ∀ f, l.mode ≠ .echoContent f)
    (hnone : l.mode.Resumes → ∀ f, s.braceOpener? l.pos ≠ some (.echo f)) :
    Apart l (l.read o s b) := by
  have h : Apart l l := .refl hm
  cases hmode : l.mode with
  | data =>
      simp only [read, hmode]
      exact h.data (hnone (by rw [hmode]; trivial))
  | beforeAttributeName =>
      simp only [read, hmode]
      exact h.beforeAttributeName (hnone (by rw [hmode]; trivial))
  | attributeName =>
      simp only [read, hmode]
      exact h.attributeName
  | afterAttributeName =>
      simp only [read, hmode]
      exact h.afterAttributeName
  | beforeAttributeValue =>
      simp only [read, hmode]
      exact h.beforeAttributeValue
  | attributeValueQuoted quote =>
      simp only [read, hmode]
      exact h.attributeValue _
  | attributeValueUnquoted =>
      simp only [read, hmode]
      exact h.attributeValue _
  | closingTag =>
      simp only [read, hmode]
      exact h.closingTag
  | echoContent f => exact absurd hmode (hm f)
  | directiveArgs =>
      simp only [read, hmode]
      exact h.directiveArgs hr.resume
  | rawText kind =>
      simp only [read, hmode]
      exact h.rawText (hnone (by rw [hmode]; trivial))
  | verbatim =>
      simp only [read, hmode]
      exact h.verbatim
  | phpBlock =>
      simp only [read, hmode]
      exact h.phpBlock
  | phpTag =>
      simp only [read, hmode]
      exact h.phpTag

end Lexer
end BladeTree
