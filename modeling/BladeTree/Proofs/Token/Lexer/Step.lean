import BladeTree.Proofs.Token.Lexer.Tag

namespace BladeTree
namespace Lexer

variable {o : ParseOptions} {s : Source} {l : Lexer} {b : UInt8}

namespace Trail

variable {start : Lexer} (h : Trail o s start l)
include h

theorem braceOf (hm : l.mode.Resumes) (hopener : (s.braceOpener? l.pos).isSome) :
    Relation.ReflTransGen (Move o s) start (l.brace s) :=
  h.brace hm fun hnone => by rw [hnone] at hopener; cases hopener

theorem beforeAttributeName (hm : l.mode.Resumes) (hb : s.byte? l.pos = some b) :
    Relation.ReflTransGen (Move o s) start (l.beforeAttributeName o s b) := by
  unfold Lexer.beforeAttributeName
  split
  · exact (h.emitUntil .whitespace nofun
      (s.isBoundary_skipWhile Byte.asciiClass_isSpace h.cut)).moves
  split
  · rename_i hgt
    subst hgt
    exact (h.emit .greaterThan nofun (by decide)
      (s.isBoundary_succ_of_ascii hb (by decide))).enterContent.moves
  split
  · rename_i hself
    have hclose := h.emit .selfClose (n := 2) nofun (by decide)
      (s.isBoundary_after (by decide) hself rfl)
    exact ((hclose.note _ _ _ _).goTo .data nofun).moves
  split
  · exact h.abandonTag.moves
  split
  · exact h.braceOf hm ‹_›
  split
  · rename_i hat
    exact (h.atSign hm (hat.1 ▸ hb)).moves
  split
  · rename_i hjunk
    refine (h.readText (s.isBoundary_succ_of_ascii hb ?_)).moves
    rcases hjunk with rfl | rfl | rfl | rfl <;> decide
  · exact (h.goTo .attributeName nofun).moves

theorem rawText {kind : RawText} (hm : l.mode.Resumes) (hb : s.byte? l.pos = some b) :
    Relation.ReflTransGen (Move o s) start (l.rawText o s kind b) := by
  have hpos := s.lt_size_of_byte? hb
  unfold Lexer.rawText
  split
  · rename_i hclose
    obtain ⟨hopen, hstop⟩ := s.isBoundary_of_closesRawText hclose
    have hlt : s.byte? l.pos = some Byte.lessThan :=
      s.byte?_of_startsWith hopen (k := 0) (by decide)
    have hmid : s.byte? (l.pos + 1) = some Byte.slash :=
      s.byte?_of_startsWith hopen (k := 1) (by decide)
    have hstart := h.opens hlt
    have hname := hstart.slash (by rwa [emit_pos])
      (List.length_pos_of_ne_nil kind.plain_tagName.1) (by rwa [emit_pos])
    exact (hname.goTo .closingTag nofun).moves
  split
  · exact h.braceOf hm ‹_›
  split
  · rename_i hat
    exact (h.atSign hm (hat.1 ▸ hb)).moves
  · obtain ⟨hle, hstop⟩ := s.rawRunEnd_bounds kind (s.rawUnitEnd_le_size kind b hpos)
    exact (h.readTextUntil ((s.lt_rawUnitEnd kind b hpos).le.trans hle) hstop).moves

theorem markup (hb : s.byte? l.pos = some Byte.lessThan) : Trail o s start (l.markup s) := by
  have hfits := s.fits_markupStart h.cut
  unfold Lexer.markup
  cases hm : s.markupStart l.pos with
  | comment =>
      have hopen : MarkupStart.comment.Fits s l.pos := hm ▸ hfits
      exact h.comment hopen
  | declaration kind terminator =>
      obtain ⟨hk, hp⟩ : (MarkupStart.declaration kind terminator).Fits s l.pos := hm ▸ hfits
      refine h.declaration ?_ hp
      rcases hk with rfl | rfl | rfl <;> nofun
  | php width =>
      obtain ⟨hwidth, hstop⟩ : (MarkupStart.php width).Fits s l.pos := hm ▸ hfits
      exact (h.emit .phpTagStart nofun hwidth hstop).goTo _ nofun
  | closingTag =>
      obtain ⟨hslash, halpha⟩ : MarkupStart.closingTag.Fits s l.pos := hm ▸ hfits
      exact h.openClosingTag hb hslash halpha
  | startTag => exact h.openStartTag hb
  | text => exact h.readText (s.isBoundary_succ_of_ascii hb (by decide))

end Trail

/-- A run of text may stop within a character, at a byte that some extension asks for. -/
theorem moves_data (hr : Ready s l) (hm : l.mode = .data) (hb : s.byte? l.pos = some b) :
    Relation.ReflTransGen (Move o s) l (l.data o s b) := by
  have hs : l.echoClose = none := hr.silent fun flavor => by rw [hm]; nofun
  have hresumes : l.mode.Resumes := by rw [hm]; trivial
  have trail (hascii : Byte.isAscii b) : Trail o s l l :=
    .refl hr (s.isBoundary_of_ascii hb hascii) hs
  unfold data
  split
  · rename_i hlt
    subst hlt
    exact ((trail (by decide)).markup hb).moves
  split
  · rename_i hbrace
    subst hbrace
    exact (trail (by decide)).brace hresumes
      fun _ => s.isBoundary_succ_of_ascii hb (by decide)
  split
  · rename_i hat
    subst hat
    exact ((trail (by decide)).atSign hresumes hb).moves
  · refine .single (.read _ hs ?_ (.inl hm))
    have hpos := s.lt_size_of_byte? hb
    have : s.skipWhile (fun b => !stopsText o b) (l.pos + 1) ≤ s.size := s.skipWhile_le_size _ hpos
    omega

theorem moves_read (hr : Ready s l) (hb : s.byte? l.pos = some b) :
    Relation.ReflTransGen (Move o s) l (l.read o s b) := by
  have trail (hdata : l.mode ≠ .data) (hecho : ∀ flavor, l.mode ≠ .echoContent flavor) :
      Trail o s l l :=
    .refl hr (hr.cut.resolve_left hdata) (hr.silent hecho)
  unfold read
  cases hm : l.mode with rw [hm] at trail
  | data => exact moves_data hr hm hb
  | beforeAttributeName => exact (trail nofun nofun).beforeAttributeName (by rw [hm]; trivial) hb
  | attributeName => exact ((trail nofun nofun).attributeName (s.lt_size_of_byte? hb)).moves
  | afterAttributeName => exact (trail nofun nofun).afterAttributeName.moves
  | beforeAttributeValue => exact (trail nofun nofun).beforeAttributeValue.moves
  | attributeValueQuoted quote =>
      refine ((trail nofun nofun).attributeValue ?_).moves
      rintro _ ⟨⟩
      exact hr.quote quote hm
  | attributeValueUnquoted =>
      refine ((trail nofun nofun).attributeValue ?_).moves
      exact nofun
  | closingTag => exact ((trail nofun nofun).closingTag hb).moves
  | echoContent flavor => exact moves_echoContent hr hm
  | directiveArgs => exact (trail nofun nofun).directiveArgs.moves
  | rawText kind => exact (trail nofun nofun).rawText (by rw [hm]; trivial) hb
  | verbatim => exact (trail nofun nofun).verbatim.moves
  | phpBlock => exact (trail nofun nofun).phpBlock.moves
  | phpTag => exact (trail nofun nofun).phpTag.moves

theorem step_cases {l' : Lexer} (h : l.step o s b = .ok l') :
    (∃ tokens stop, l.claim? o s b = .ok (some (tokens, stop)) ∧ l.accept tokens stop = l') ∨
      l.claim? o s b = .ok none ∧ l.read o s b = l' := by
  obtain ⟨claim, hclaim, h⟩ := exists_of_bind_eq_ok h
  cases claim with
  | none =>
      cases h
      exact .inr ⟨hclaim, rfl⟩
  | some claim =>
      cases h
      exact .inl ⟨claim.1, claim.2, hclaim, rfl⟩

theorem step_of_claim {tokens : List Token} {stop : Nat}
    (h : l.claim? o s b = .ok (some (tokens, stop))) :
    l.step o s b = .ok (l.accept tokens stop) := by
  rw [step, h]
  rfl

theorem step_of_decline (h : l.claim? o s b = .ok none) : l.step o s b = .ok (l.read o s b) := by
  rw [step, h]
  rfl

theorem step_eq_read (ho : o.lexerExtensions = []) : l.step o s b = .ok (l.read o s b) :=
  step_of_decline (claim?_eq_none ho)

theorem eq_read_of_step {l' : Lexer} (ho : o.lexerExtensions = []) (h : l.step o s b = .ok l') :
    l' = l.read o s b :=
  Except.ok.inj (h.symm.trans (step_eq_read ho))

theorem step_of_not_asks (h : l.mode.asksExtensions = false) :
    l.step o s b = .ok (l.read o s b) := by
  apply step_of_decline
  rw [claim?, h]
  rfl

theorem step_eq_error_iff {f : Fault} : l.step o s b = .error f ↔ l.claim? o s b = .error f := by
  cases hclaim : l.claim? o s b with
  | error f' =>
      rw [step, hclaim]
      exact ⟨fun h => congrArg _ (Except.error.inj h), fun h => congrArg _ (Except.error.inj h)⟩
  | ok claim =>
      refine iff_of_false (fun h => ?_) nofun
      cases claim with
      | none => cases (step_of_decline hclaim).symm.trans h
      | some claim => cases (step_of_claim hclaim).symm.trans h

theorem silent_of_claim? {tokens : List Token} {stop : Nat} (hr : Ready s l)
    (h : l.claim? o s b = .ok (some (tokens, stop))) : l.echoClose = none := by
  obtain ⟨x, hasks, -⟩ := (claim?_eq_iff (by nofun)).1 h
  refine hr.silent fun flavor hm => ?_
  have := hasks.mode
  rw [hm] at this
  cases this

theorem moves_step {l' : Lexer} (hr : Ready s l) (hb : s.byte? l.pos = some b)
    (h : l.step o s b = .ok l') : Relation.ReflTransGen (Move o s) l l' := by
  rcases step_cases h with ⟨tokens, stop, hclaim, rfl⟩ | ⟨-, rfl⟩
  · exact .single (.claim b tokens stop (silent_of_claim? hr hclaim) hb hclaim)
  · exact moves_read hr hb

end Lexer
end BladeTree
