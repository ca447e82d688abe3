import BladeTree.Proofs.Token.Lexer.Step

namespace BladeTree

/-- A bound on the steps in a row that leave the position where it is. -/
def Mode.patience : Mode → Nat
  | .data | .attributeName | .rawText _ | .verbatim | .phpBlock | .phpTag => 0
  | .beforeAttributeName | .closingTag => 1
  | .afterAttributeName | .attributeValueQuoted _ | .attributeValueUnquoted | .echoContent _
  | .directiveArgs => 2
  | .beforeAttributeValue => 3

theorem Mode.Resumes.patience_le {mode : Mode} (h : mode.Resumes) : mode.patience ≤ 1 := by
  cases mode with
  | data | rawText => exact Nat.zero_le _
  | beforeAttributeName => exact le_rfl
  | _ => cases h

theorem Source.lt_skipWhile {s : Source} {p : UInt8 → Bool} {i : Nat} {b : UInt8}
    (hb : s.byte? i = some b) (hp : p b) : i < s.skipWhile p i := by
  have h : s.has p i := by rw [has, hb]; exact hp
  rw [skipWhile, dif_pos h]
  exact s.le_skipWhile p (i + 1)

namespace Lexer

variable {o : ParseOptions} {s : Source} {l l' : Lexer} {b : UInt8}

theorem Move.le (hr : Ready s l) (hm : Move o s l l') : l.pos ≤ l'.pos := by
  cases hm with
  | emit | opens => simp
  | slash => simp; omega
  | read => simp
  | goTo => simp
  | claim _ _ _ _ _ hclaim =>
      rw [accept_eq]
      exact (claim?_bounds hclaim hr.inside).2.1.le
  | beginEcho => simp
  | takeEcho | saveMode | learn | note => exact le_rfl

theorem Ready.moves (hr : Ready s l) (hm : Relation.ReflTransGen (Move o s) l l') :
    Ready s l' ∧ l.pos ≤ l'.pos := by
  induction hm with
  | refl => exact ⟨hr, le_rfl⟩
  | tail _ hm ih => exact ⟨ih.1.move hm, ih.2.trans (hm.le ih.1)⟩

section Advance

theorem lt_emitClosed {kind closeKind : TokenType} {stop n : Nat} (hn : 0 < n) :
    l.pos < ((l.emitUntil kind stop).emit closeKind n).pos := by
  rw [emit_pos, emitUntil_pos]
  omega

theorem lt_comment : l.pos < (l.comment s).pos := by
  unfold comment
  simp only
  split
  · refine Nat.lt_trans ?_ (lt_emitClosed (by decide))
    simp
  · simp

theorem lt_declaration {kind : TokenType} {terminator : List UInt8} (hpos : l.pos < s.size) :
    l.pos < (l.declaration s kind terminator).pos := by
  unfold declaration
  split
  · have := s.le_find ‹_›
    rw [emitUntil_pos]
    omega
  · simpa using hpos

theorem lt_bladeComment : l.pos < (l.bladeComment s).pos := by
  unfold bladeComment
  simp only
  split
  · refine Nat.lt_trans ?_ (lt_emitClosed (by decide))
    simp
  · simp

theorem lt_beginEcho {flavor : EchoFlavor} {close : Option Nat} :
    l.pos < (l.beginEcho flavor close).pos := by
  have := flavor.width_pos
  simp [beginEcho, this]

theorem lt_brace : l.pos < (l.brace s).pos := by
  unfold brace
  split
  · simp
  · exact lt_bladeComment
  · rename_i flavor _
    have := flavor.width_pos
    split
    · simpa using this
    · exact lt_beginEcho
    · exact lt_beginEcho (l := l.report _ _)

theorem lt_atSign : l.pos < (l.atSign o s).pos := by
  unfold atSign
  split
  · have := s.le_skipWhile Byte.isWord (l.pos + 2)
    rw [readTextUntil_pos]
    omega
  split
  · simp
  split
  · have := s.le_skipWhile Byte.isWord (l.pos + 1)
    rw [readTextUntil_pos]
    omega
  · have := s.lt_directiveAt ‹_›
    split
    · simpa using this
    split
    · simpa using this
    · simp only
      split <;> simpa using this

theorem le_genericArgs : l.pos ≤ (l.genericArgs s).pos := by
  unfold genericArgs
  split
  · simp only
    split <;> simp
  · exact le_rfl

theorem lt_openStartTag : l.pos < (l.openStartTag s).pos := by
  unfold openStartTag
  simp only [goTo_pos]
  split
  · refine Nat.lt_of_lt_of_le ?_ le_genericArgs
    simp
  · simp

theorem lt_openClosingTag : l.pos < (l.openClosingTag s).pos := by
  simp [openClosingTag]

theorem lt_markup (hpos : l.pos < s.size) (hb : s.isBoundary l.pos) :
    l.pos < (l.markup s).pos := by
  have hfits := s.fits_markupStart hb
  unfold markup
  cases hm : s.markupStart l.pos with
  | comment => exact lt_comment
  | declaration => exact lt_declaration hpos
  | php width =>
      obtain ⟨hwidth, -⟩ : (MarkupStart.php width).Fits s l.pos := hm ▸ hfits
      simpa using hwidth
  | closingTag => exact lt_openClosingTag
  | startTag => exact lt_openStartTag
  | text => simp

theorem lt_data (hb : s.byte? l.pos = some b) : l.pos < (l.data o s b).pos := by
  have hpos := s.lt_size_of_byte? hb
  unfold data
  split
  · rename_i hlt
    subst hlt
    exact lt_markup hpos (s.isBoundary_of_ascii hb (by decide))
  split
  · exact lt_brace
  split
  · exact lt_atSign
  · have := s.le_skipWhile (fun b => !stopsText o b) (l.pos + 1)
    rw [readTextUntil_pos]
    omega

theorem lt_rawText {kind : RawText} (hpos : l.pos < s.size) :
    l.pos < (l.rawText o s kind b).pos := by
  have hunit := s.lt_rawUnitEnd kind b hpos
  have hrun := (s.rawRunEnd_bounds kind (s.rawUnitEnd_le_size kind b hpos)).1
  unfold rawText
  split
  · simp only [goTo_pos, emit_pos]
    omega
  split
  · exact lt_brace
  split
  · exact lt_atSign
  · rw [readTextUntil_pos]
    omega

theorem lt_attributeName (hpos : l.pos < s.size) : l.pos < (l.attributeName s).pos := by
  have := (s.attributeNameEnd_bounds (i := l.pos + 1) hpos).1
  rw [attributeName, goTo_pos, emitUntil_pos]
  omega

theorem lt_verbatim (hpos : l.pos < s.size) : l.pos < (l.verbatim s).pos := by
  unfold verbatim
  split
  · rw [goTo_pos]
    exact lt_emitClosed (by decide)
  · simpa using hpos

theorem lt_phpBlock (hpos : l.pos < s.size) : l.pos < (l.phpBlock s).pos := by
  unfold phpBlock
  split
  · rename_i memo _
    rw [goTo_pos]
    exact lt_emitClosed (l := { l with memo }) (by decide)
  · simpa using hpos

theorem lt_phpTag (hpos : l.pos < s.size) : l.pos < (l.phpTag s).pos := by
  unfold phpTag
  split
  · rename_i memo _
    rw [goTo_pos]
    exact lt_emitClosed (l := { l with memo }) (by decide)
  · simpa using hpos

end Advance

def Progresses (l l' : Lexer) : Prop := l.pos < l'.pos ∨ l'.mode.patience < l.mode.patience

theorem progresses_beforeAttributeName (hm : l.mode = .beforeAttributeName)
    (hb : s.byte? l.pos = some b) : Progresses l (l.beforeAttributeName o s b) := by
  unfold Progresses beforeAttributeName
  split
  · rename_i hspace
    have : l.pos < s.skipSpaces l.pos := Source.lt_skipWhile hb hspace
    left
    simpa using this
  split
  · left
    unfold enterContent
    split <;> simp
  split
  · left
    simp
  split
  · right
    simp [abandonTag, hm, Mode.patience]
  split
  · exact .inl lt_brace
  split
  · exact .inl lt_atSign
  split
  · left
    simp
  · right
    simp [hm, Mode.patience]

theorem progresses_closingTag (hm : l.mode = .closingTag) (hb : s.byte? l.pos = some b) :
    Progresses l (l.closingTag s b) := by
  unfold Progresses closingTag
  split
  · rename_i hspace
    have : l.pos < s.skipSpaces l.pos := Source.lt_skipWhile hb hspace
    left
    simpa using this
  split
  · left
    simp
  split
  · right
    simp [abandonTag, hm, Mode.patience]
  · left
    simp only [readTextUntil_pos]
    exact lt_max_of_lt_right (s.le_skipWhile _ _)

theorem progresses_afterAttributeName (hm : l.mode = .afterAttributeName) :
    Progresses l (l.afterAttributeName s) := by
  unfold Progresses afterAttributeName
  simp only
  split
  · left
    simp only [goTo_pos, emit_pos, emitUntil_pos]
    omega
  · right
    simp [hm, Mode.patience]

theorem progresses_beforeAttributeValue (hm : l.mode = .beforeAttributeValue) :
    Progresses l (l.beforeAttributeValue s) := by
  right
  unfold beforeAttributeValue
  simp only
  repeat' split
  all_goals simp [hm, Mode.patience]

theorem progresses_attributeValue {quote : Option UInt8} (hm : l.mode.patience = 2) :
    Progresses l (l.attributeValue o s quote) := by
  right
  rw [attributeValue, goTo_mode, hm]
  decide

theorem progresses_echoContent {flavor : EchoFlavor} (hr : Ready s l)
    (hm : l.mode.patience = 2) : Progresses l (l.echoContent s flavor) := by
  have hreturn := hr.resume.patience_le
  right
  unfold echoContent
  simp only [goTo_mode]
  split
  · simp only [emit_returnMode, emitUntil_returnMode]
    omega
  · simp only [emitUntil_returnMode]
    omega

theorem progresses_directiveArgs (hr : Ready s l) (hm : l.mode.patience = 2) :
    Progresses l (l.directiveArgs s) := by
  have hreturn := hr.resume.patience_le
  right
  unfold directiveArgs
  simp only [goTo_mode]
  split
  · simp only [emitUntil_returnMode]
    omega
  · simp only [emitUntil_returnMode, report_returnMode]
    omega

theorem progresses_read (hr : Ready s l) (hb : s.byte? l.pos = some b) :
    Progresses l (l.read o s b) := by
  have hpos := s.lt_size_of_byte? hb
  unfold read
  cases hm : l.mode with
  | data => exact .inl (lt_data hb)
  | beforeAttributeName => exact progresses_beforeAttributeName hm hb
  | attributeName => exact .inl (lt_attributeName hpos)
  | afterAttributeName => exact progresses_afterAttributeName hm
  | beforeAttributeValue => exact progresses_beforeAttributeValue hm
  | attributeValueQuoted | attributeValueUnquoted =>
      exact progresses_attributeValue (by rw [hm]; rfl)
  | closingTag => exact progresses_closingTag hm hb
  | echoContent => exact progresses_echoContent hr (by rw [hm]; rfl)
  | directiveArgs => exact progresses_directiveArgs hr (by rw [hm]; rfl)
  | rawText => exact .inl (lt_rawText hpos)
  | verbatim => exact .inl (lt_verbatim hpos)
  | phpBlock => exact .inl (lt_phpBlock hpos)
  | phpTag => exact .inl (lt_phpTag hpos)

theorem progresses_step (hr : Ready s l) (hb : s.byte? l.pos = some b)
    (h : l.step o s b = .ok l') : Progresses l l' := by
  rcases step_cases h with ⟨tokens, stop, hclaim, rfl⟩ | ⟨-, rfl⟩
  · left
    rw [accept_eq]
    exact (claim?_bounds hclaim hr.inside).2.1
  · exact progresses_read hr hb

end Lexer
end BladeTree
