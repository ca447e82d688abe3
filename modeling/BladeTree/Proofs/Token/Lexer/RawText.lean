import BladeTree.Proofs.Token.Lexer.Reachable

namespace BladeTree
namespace Source

variable (s : Source) (kind : RawText) {i j start mid stop : Nat}

/-- In `start … stop` the closing tag begins only right after a backslash, in a language with
strings. -/
def HidesEscaped (start stop : Nat) : Prop :=
  ∀ i, start ≤ i → i < stop → s.closesRawText kind i →
    kind.flavor?.isSome ∧ ∃ j, start ≤ j ∧ i = j + 1 ∧ s.byte? j = some Byte.backslash

theorem byte?_of_closesRawText (h : s.closesRawText kind i) :
    s.byte? i = some Byte.lessThan := by
  simp only [closesRawText, Bool.and_eq_true] at h
  exact s.byte?_of_startsWith h.1.1 (k := 0) rfl

theorem not_closesRawText (h : s.byte? i ≠ some Byte.lessThan) : ¬ s.closesRawText kind i :=
  fun hcloses => h (s.byte?_of_closesRawText kind hcloses)

namespace HidesEscaped

variable {s kind}

theorem trans (h : s.HidesEscaped kind start mid) (h' : s.HidesEscaped kind mid stop)
    (hle : start ≤ mid) : s.HidesEscaped kind start stop := by
  intro i hi hlt hcloses
  by_cases hmid : i < mid
  · exact h i hi hmid hcloses
  · obtain ⟨hflavor, j, hj, hij, hbyte⟩ := h' i (Nat.le_of_not_lt hmid) hlt hcloses
    exact ⟨hflavor, j, hle.trans hj, hij, hbyte⟩

theorem of_not (h : ∀ i, start ≤ i → i < stop → ¬ s.closesRawText kind i) :
    s.HidesEscaped kind start stop :=
  fun i hi hlt hcloses => absurd hcloses (h i hi hlt)

theorem empty (hle : stop ≤ start) : s.HidesEscaped kind start stop :=
  of_not fun i hi hlt => by omega

theorem cons (hnot : ¬ s.closesRawText kind start) (h : s.HidesEscaped kind (start + 1) stop) :
    s.HidesEscaped kind start stop := by
  refine trans (of_not fun i hi hlt => ?_) h (Nat.le_succ start)
  obtain rfl : i = start := by omega
  exact hnot

end HidesEscaped

theorem hidesEscaped_rawStringEnd {quote : UInt8} (hquote : quote ≠ Byte.lessThan)
    (hflavor : kind.flavor?.isSome) (i : Nat) :
    s.HidesEscaped kind i (s.rawStringEnd kind quote i) := by
  fun_induction rawStringEnd s kind quote i with
  | case1 i hlt b hb ih =>
      have hbyte : s.byte? i = some Byte.backslash := s.byte?_of_getElem hlt hb
      refine .trans (fun k hk hlt hcloses => ?_) ih (Nat.le_add_right i 2)
      have hother : s.byte? k = some Byte.lessThan := s.byte?_of_closesRawText kind hcloses
      have hne : k ≠ i := by
        rintro rfl
        rw [hbyte] at hother
        cases hother
      exact ⟨hflavor, i, le_rfl, by omega, hbyte⟩
  | case2 i hlt b _ hb =>
      refine .cons (s.not_closesRawText kind ?_) (.empty le_rfl)
      rw [s.byte?_of_getElem hlt hb, ne_eq, Option.some.injEq]
      exact hquote
  | case3 => exact .empty le_rfl
  | case4 => exact .empty le_rfl
  | case5 i _ b _ _ _ hnot ih => exact .cons hnot ih
  | case6 i hge => exact .empty (Nat.le_of_not_lt hge)

theorem hidesEscaped_rawBlockCommentEnd (i : Nat) :
    s.HidesEscaped kind i (s.rawBlockCommentEnd kind i) := by
  fun_induction rawBlockCommentEnd s kind i with
  | case1 i _ hend =>
      have hstar : s.byte? i = some 0x2A := s.byte?_of_startsWith hend (k := 0) rfl
      have hslash : s.byte? (i + 1) = some Byte.slash := s.byte?_of_startsWith hend (k := 1) rfl
      refine .cons (s.not_closesRawText kind ?_)
        (.cons (s.not_closesRawText kind ?_) (.empty le_rfl))
      · rw [hstar]
        decide
      · rw [hslash]
        decide
  | case2 => exact .empty le_rfl
  | case3 i _ _ hnot ih => exact .cons hnot ih
  | case4 i hge => exact .empty (Nat.le_of_not_lt hge)

theorem hidesEscaped_rawLineCommentEnd (i : Nat) :
    s.HidesEscaped kind i (s.rawLineCommentEnd kind i) := by
  fun_induction rawLineCommentEnd s kind i with
  | case1 => exact .empty le_rfl
  | case2 => exact .empty le_rfl
  | case3 i _ _ hnot ih => exact .cons hnot ih
  | case4 i hge => exact .empty (Nat.le_of_not_lt hge)

theorem hidesEscaped_rawUnitEnd {b : UInt8} (hnot : ¬ s.closesRawText kind i) :
    s.HidesEscaped kind i (s.rawUnitEnd kind b i) := by
  have hnext {c : UInt8} {pat : List UInt8} (hpat : s.startsWith i pat) (hc : pat[1]? = some c)
      (hne : c ≠ Byte.lessThan) : ¬ s.closesRawText kind (i + 1) := by
    refine s.not_closesRawText kind ?_
    rw [s.byte?_of_startsWith hpat hc, ne_eq, Option.some.injEq]
    exact hne
  cases hflavor : kind.flavor? with
  | none =>
      simp only [rawUnitEnd, hflavor]
      exact .cons hnot (.empty le_rfl)
  | some flavor =>
      simp only [rawUnitEnd, hflavor]
      split
      · rename_i hquote
        have hne : b ≠ Byte.lessThan := by
          rintro rfl
          cases flavor <;> cases hquote
        exact .cons hnot (s.hidesEscaped_rawStringEnd kind hne (by rw [hflavor]; rfl) (i + 1))
      split
      · rename_i _ hopen
        exact .cons hnot (.cons (hnext hopen rfl (by decide))
          (s.hidesEscaped_rawBlockCommentEnd kind (i + 2)))
      split
      · rename_i _ _ hopen
        exact .cons hnot (.cons (hnext hopen.2 rfl (by decide))
          (s.hidesEscaped_rawLineCommentEnd kind (i + 2)))
      · exact .cons hnot (.empty le_rfl)

theorem hidesEscaped_rawRunEnd (i : Nat) : s.HidesEscaped kind i (s.rawRunEnd kind i) := by
  fun_induction rawRunEnd s kind i with
  | case1 => exact .empty le_rfl
  | case2 i hlt hstops hunit ih =>
      have hnot : ¬ s.closesRawText kind i := by
        refine s.not_closesRawText kind fun hbyte => hstops (.inl ?_)
        exact Option.some.inj ((s.byte?_of_lt hlt).symm.trans hbyte)
      exact .trans (s.hidesEscaped_rawUnitEnd kind hnot) ih hunit.le
  | case3 => exact .empty le_rfl

theorem directiveAt?_eq_none {known : DirectiveSet} {pos : Nat}
    (h : s.startsWith pos (ascii "@@") ∨ s.startsWith pos (ascii "@\x7b\x7b")) :
    s.directiveAt? known pos = none := by
  have hname : s.has (fun b => Byte.isAlpha b || b == Byte.underscore) (pos + 1) = false := by
    rcases h with h | h
    · rw [has, s.byte?_of_startsWith h (k := 1) rfl]
      decide
    · rw [has, s.byte?_of_startsWith h (k := 1) rfl]
      decide
  simp [directiveAt?, hname]

end Source

namespace Lexer

variable {o : ParseOptions} {s : Source} {l l' : Lexer} {b : UInt8} {kind : RawText}

theorem emit_textStart (l : Lexer) (kind : TokenType) (n : Nat) :
    (l.emit kind n).textStart = none := by
  rw [emit_eq]

theorem emitUntil_textStart (kind : TokenType) (stop : Nat) (h : l.textStart = none) :
    (l.emitUntil kind stop).textStart = none := by
  simp only [emitUntil]
  split
  · exact emit_textStart ..
  · exact h

/-! Modes that are left -/

def Settles (l l' : Lexer) : Prop := l'.mode = l.mode ∨ l'.textStart = none

theorem settles_goTo (l l' : Lexer) (mode : Mode) : Settles l (l'.goTo mode) := by
  right
  rw [goTo_eq]

theorem settles_bladeComment : Settles l (l.bladeComment s) := by
  left
  simp only [bladeComment]
  split <;> simp [report]

theorem settles_brace : Settles l (l.brace s) := by
  simp only [brace]
  split
  · exact .inl rfl
  · exact settles_bladeComment
  split
  · exact .inl rfl
  · exact settles_goTo ..
  · exact settles_goTo ..

theorem settles_atSign : Settles l (l.atSign o s) := by
  simp only [atSign]
  split
  · exact .inl rfl
  split
  · exact .inl rfl
  split
  · exact .inl rfl
  split
  · exact settles_goTo ..
  split
  · exact settles_goTo ..
  split
  · exact settles_goTo ..
  · exact .inl (emitUntil_mode ..)

theorem settles_markup : Settles l (l.markup s) := by
  simp only [markup]
  split
  · left
    simp only [comment]
    split <;> simp [report]
  · left
    simp only [declaration]
    split <;> simp [report]
  · exact settles_goTo ..
  · exact settles_goTo ..
  · exact settles_goTo ..
  · exact .inl rfl

theorem settles_data : Settles l (l.data o s b) := by
  simp only [data]
  split
  · exact settles_markup
  split
  · exact settles_brace
  split
  · exact settles_atSign
  · exact .inl rfl

theorem settles_beforeAttributeName : Settles l (l.beforeAttributeName o s b) := by
  simp only [beforeAttributeName]
  split
  · exact .inl (emitUntil_mode ..)
  split
  · simp only [enterContent]
    split <;> exact settles_goTo ..
  split
  · exact settles_goTo ..
  split
  · exact settles_goTo ..
  split
  · exact settles_brace
  split
  · exact settles_atSign
  split
  · exact .inl rfl
  · exact settles_goTo ..

theorem settles_read (hm : ∀ kind, l.mode ≠ .rawText kind) : Settles l (l.read o s b) := by
  cases hmode : l.mode with
  | data =>
      simp only [read, hmode]
      exact settles_data
  | beforeAttributeName =>
      simp only [read, hmode]
      exact settles_beforeAttributeName
  | rawText kind => exact absurd hmode (hm kind)
  | attributeName =>
      simp only [read, hmode]
      exact settles_goTo ..
  | afterAttributeName =>
      simp only [read, hmode, afterAttributeName]
      split <;> exact settles_goTo ..
  | beforeAttributeValue =>
      simp only [read, hmode, beforeAttributeValue]
      split
      · exact settles_goTo ..
      split
      · exact settles_goTo ..
      split <;> exact settles_goTo ..
  | attributeValueQuoted quote =>
      simp only [read, hmode]
      exact settles_goTo ..
  | attributeValueUnquoted =>
      simp only [read, hmode]
      exact settles_goTo ..
  | closingTag =>
      simp only [read, hmode, closingTag]
      split
      · exact .inl (emitUntil_mode ..)
      split
      · exact settles_goTo ..
      split
      · exact settles_goTo ..
      · exact .inl rfl
  | echoContent f =>
      simp only [read, hmode]
      exact settles_goTo ..
  | directiveArgs =>
      simp only [read, hmode]
      exact settles_goTo ..
  | verbatim =>
      simp only [read, hmode, verbatim]
      split
      · exact settles_goTo ..
      · exact .inl (emitUntil_mode ..)
  | phpBlock =>
      simp only [read, hmode, phpBlock]
      split
      · exact settles_goTo ..
      · exact .inl ((emitUntil_mode ..).trans hmode.symm)
  | phpTag =>
      simp only [read, hmode, phpTag]
      split
      · exact settles_goTo ..
      · exact .inl ((emitUntil_mode ..).trans hmode.symm)

/-! Raw text -/

/-- The text that is pending in raw text hides the closing tag only after backslashes. -/
def HidesEscaped (s : Source) (l : Lexer) : Prop :=
  ∀ kind start, l.mode = .rawText kind → l.textStart = some start →
    s.HidesEscaped kind start l.pos

namespace HidesEscaped

theorem of_textStart (h : l.textStart = none) : HidesEscaped s l := by
  intro kind start _ htext
  rw [h] at htext
  cases htext

theorem goTo (mode : Mode) : HidesEscaped s (l.goTo mode) := by
  apply of_textStart
  rw [goTo_eq]

theorem readText (h : HidesEscaped s l) (hfront : l.front ≤ l.pos) (hm : l.mode = .rawText kind)
    {n : Nat} (hread : s.HidesEscaped kind l.pos (l.pos + n)) : HidesEscaped s (l.readText n) := by
  intro kind' start hmode htext
  obtain rfl : kind = kind' := Mode.rawText.inj (hm.symm.trans hmode)
  obtain rfl : l.front = start := Option.some.inj htext
  cases hstart : l.textStart with
  | none =>
      have hpos : l.front = l.pos := by rw [front, hstart]; rfl
      rw [hpos]
      exact hread
  | some start =>
      have hpos : l.front = start := by rw [front, hstart]; rfl
      rw [hpos] at hfront ⊢
      exact (h kind start hm hstart).trans hread hfront

theorem brace (h : HidesEscaped s l) (hfront : l.front ≤ l.pos) (hm : l.mode = .rawText kind)
    (hopener : (s.braceOpener? l.pos).isSome) : HidesEscaped s (l.brace s) := by
  cases hfound : s.braceOpener? l.pos with
  | none =>
      rw [hfound] at hopener
      cases hopener
  | some opener =>
      cases opener with
      | bladeComment =>
          simp only [Lexer.brace, hfound, bladeComment]
          split
          · exact of_textStart (emit_textStart ..)
          · exact of_textStart (emitUntil_textStart _ _ (emit_textStart l .bladeCommentStart 4))
      | echo f =>
          simp only [Lexer.brace, hfound]
          split
          · refine h.readText hfront hm (.of_not fun i hi hlt => s.not_closesRawText kind ?_)
            have hopen : s.startsWith l.pos (ascii f.opening) := s.startsWith_of_braceOpener? hfound
            have hother : Byte.lessThan ∉ ascii f.opening := by cases f <;> decide
            obtain ⟨k, rfl⟩ := Nat.exists_eq_add_of_le hi
            have hk : k < (ascii f.opening).length := by
              rw [f.length_ascii_opening]
              omega
            rw [s.byte?_of_startsWith hopen (List.getElem?_eq_getElem hk), ne_eq,
              Option.some.injEq]
            exact ne_of_mem_of_not_mem (List.getElem_mem hk) hother
          · exact goTo _
          · exact goTo _

theorem atSign (hname : (s.directiveAt? o.directives l.pos).isSome) :
    HidesEscaped s (l.atSign o s) := by
  have hescape : ¬ (s.startsWith l.pos (ascii "@@") ∨ s.startsWith l.pos (ascii "@\x7b\x7b")) := by
    intro hescape
    rw [s.directiveAt?_eq_none hescape] at hname
    cases hname
  obtain ⟨m, hm⟩ := Option.isSome_iff_exists.1 hname
  rw [not_or] at hescape
  simp only [Lexer.atSign, if_neg hescape.1, if_neg hescape.2, hm]
  split
  · exact goTo _
  split
  · exact goTo _
  split
  · exact goTo _
  · rw [emitUntil_of_lt .directive (s.lt_directiveAt hm)]
    exact of_textStart (emit_textStart ..)

theorem rawText (h : HidesEscaped s l) (hfront : l.front ≤ l.pos) (hm : l.mode = .rawText kind)
    (hb : s.byte? l.pos = some b) :
    HidesEscaped s (l.rawText o s kind b) := by
  simp only [Lexer.rawText]
  split
  · exact goTo _
  rename_i hnot
  split
  · rename_i hopener
    exact h.brace hfront hm hopener
  split
  · rename_i hat
    exact atSign hat.2
  · have hpos : l.pos < s.size := s.lt_size_of_byte? hb
    have hlt : l.pos < s.rawUnitEnd kind b l.pos := s.lt_rawUnitEnd kind b hpos
    have hle : s.rawUnitEnd kind b l.pos ≤ s.rawRunEnd kind (s.rawUnitEnd kind b l.pos) :=
      (s.rawRunEnd_bounds kind (s.rawUnitEnd_le_size kind b hpos)).1
    have hread : s.HidesEscaped kind l.pos (s.rawRunEnd kind (s.rawUnitEnd kind b l.pos)) :=
      .trans (s.hidesEscaped_rawUnitEnd kind hnot) (s.hidesEscaped_rawRunEnd kind _) hlt.le
    refine h.readText hfront hm ?_
    rwa [Nat.add_sub_cancel' (hlt.le.trans hle)]

end HidesEscaped

theorem Settles.hidesEscaped (h : Settles l l') (hm : ∀ kind, l.mode ≠ .rawText kind) :
    HidesEscaped s l' := by
  rcases h with h | h
  · exact fun kind _ hmode => absurd (h.symm.trans hmode) (hm kind)
  · exact .of_textStart h

/-- Without extensions the text of a raw text element contains its closing tag only right after a
backslash, which the script or the style may hold in a string. -/
theorem Reachable.hidesEscaped (ho : o.lexerExtensions = []) (h : Reachable o s l) :
    HidesEscaped s l := by
  induction h with
  | initial => exact .of_textStart rfl
  | step l l' hl hstep ih =>
      obtain ⟨b, hb, hstep⟩ := hstep
      obtain rfl := eq_read_of_step ho hstep
      by_cases hraw : ∃ kind, l.mode = .rawText kind
      · obtain ⟨kind, hm⟩ := hraw
        have hread : l.read o s b = l.rawText o s kind b := by simp only [read, hm]
        rw [hread]
        exact ih.rawText hl.covered.adds.behind hm hb
      · have hm : ∀ kind, l.mode ≠ .rawText kind := fun kind hmode => hraw ⟨kind, hmode⟩
        exact (settles_read hm).hidesEscaped hm

end Lexer
end BladeTree
