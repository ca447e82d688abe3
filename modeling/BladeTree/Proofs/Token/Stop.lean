import BladeTree.Token.Lexer.Step
import BladeTree.Proofs.Text.Scan

namespace BladeTree

theorem EchoFlavor.plain_opening (f : EchoFlavor) : Source.Plain (ascii f.opening) := by
  cases f <;> decide

theorem EchoFlavor.plain_closing (f : EchoFlavor) : Source.Plain (ascii f.closing) := by
  cases f <;> decide

theorem EchoFlavor.width_pos (f : EchoFlavor) : 0 < f.width := by
  cases f <;> decide

theorem RawText.plain_tagName (kind : RawText) : Source.Plain (ascii kind.tagName) := by
  cases kind <;> decide

def MarkupStart.Fits (s : Source) (pos : Nat) : MarkupStart → Prop
  | .comment => s.startsWith pos (ascii "<!--")
  | .declaration kind terminator =>
      (kind = .doctype ∨ kind = .cdata ∨ kind = .bogusComment) ∧ Source.Plain (ascii terminator)
  | .php width => 0 < width ∧ s.isBoundary (pos + width)
  | .closingTag => s.startsWith (pos + 1) (ascii "/") ∧ s.has Byte.isAlpha (pos + 2)
  | .startTag => s.has Byte.isAlpha (pos + 1)
  | .text => True

namespace Source

variable (s : Source)

theorem fits_markupStart {i : Nat} (hi : s.isBoundary i) : (s.markupStart i).Fits s i := by
  unfold markupStart
  repeat' split
  · assumption
  · exact ⟨.inl rfl, by decide⟩
  · exact ⟨.inr (.inl rfl), by decide⟩
  · exact ⟨.inr (.inr rfl), by decide⟩
  · have hphp : s.startsWithIgnoreCase i (ascii "<?php") := ‹_›
    exact ⟨by decide, s.isBoundary_add_length_ignoreCase (by decide) hi hphp⟩
  · have hecho : s.startsWith i (ascii "<?=") := ‹_›
    exact ⟨by decide, s.isBoundary_after (by decide) hecho (by decide)⟩
  · rename_i h
    exact (Bool.and_eq_true _ _).mp h
  · assumption
  · trivial

theorem exists_tagName_of_isAlpha {i : Nat} (h : s.has Byte.isAlpha i) :
    ∃ b, s.byte? i = some b ∧ Byte.isTagName b := by
  obtain ⟨b, hb, hbp⟩ := s.exists_of_has h
  refine ⟨b, hb, ?_⟩
  rw [Byte.isTagName, Byte.isAlphanum, hbp]
  rfl

theorem lt_tagNameEnd {i : Nat} (h : s.has Byte.isAlpha i) : i < s.tagNameEnd i := by
  obtain ⟨b, hb, hbp⟩ := s.exists_tagName_of_isAlpha h
  have hname : s.has Byte.isTagName i := by rwa [has, hb]
  rw [tagNameEnd, skipWhile, dif_pos hname]
  exact s.le_skipWhile Byte.isTagName (i + 1)

theorem isBoundary_tagName {i : Nat} (h : s.has Byte.isAlpha i) :
    s.isBoundary i ∧ s.isBoundary (s.tagNameEnd i) := by
  obtain ⟨b, hb, hbp⟩ := s.exists_tagName_of_isAlpha h
  have hstart := s.isBoundary_of_ascii hb (Byte.asciiClass_isTagName b hbp)
  exact ⟨hstart, s.isBoundary_skipWhile Byte.asciiClass_isTagName hstart⟩

theorem isBoundary_of_closesRawText {kind : RawText} {i : Nat} (h : s.closesRawText kind i) :
    s.startsWith i (ascii "</") ∧ s.isBoundary (i + 2 + (ascii kind.tagName).length) := by
  simp only [closesRawText, Bool.and_eq_true] at h
  obtain ⟨⟨hopen, hname⟩, -⟩ := h
  have := s.isBoundary_after (by decide) hopen rfl
  exact ⟨hopen, s.isBoundary_add_length_ignoreCase kind.plain_tagName.2 this hname⟩

theorem isBoundary_add_width_opening {f : EchoFlavor} {i : Nat}
    (h : s.startsWith i (ascii f.opening)) : s.isBoundary (i + f.width) :=
  s.isBoundary_after f.plain_opening h f.length_ascii_opening

theorem isBoundary_add_width_closing {f : EchoFlavor} {i : Nat}
    (h : s.startsWith i (ascii f.closing)) : s.isBoundary (i + f.width) :=
  s.isBoundary_after f.plain_closing h f.length_ascii_closing

theorem startsWith_of_braceOpener? {i : Nat} {f : EchoFlavor}
    (h : s.braceOpener? i = some (.echo f)) : s.startsWith i (ascii f.opening) := by
  unfold braceOpener? at h
  grind

theorem startsWith_of_bladeComment {i : Nat} (h : s.braceOpener? i = some .bladeComment) :
    s.startsWith i (ascii "\x7b\x7b--") := by
  unfold braceOpener? at h
  grind

theorem startsWith_of_findEchoEnd {flavor : EchoFlavor} {i j : Nat}
    (h : s.findEchoEnd flavor i = .closed j) : s.startsWith j (ascii flavor.closing) := by
  fun_induction findEchoEnd s flavor i with
  | case1 i _ hs => simp only [EchoEnd.closed.injEq] at h; exact h ▸ hs
  | case2 => cases h
  | case3 i _ _ _ ih => exact ih h
  | case4 => cases h

theorem isBoundary_word {i : Nat} (h : s.has (fun b => Byte.isAlpha b || b == Byte.underscore) i) :
    s.isBoundary i ∧ s.isBoundary (s.skipWhile Byte.isWord i) := by
  obtain ⟨b, hb, hbp⟩ := s.exists_of_has h
  have hword : Byte.isWord b := by
    simp only [Byte.isWord, Byte.isAlphanum, Bool.or_eq_true] at hbp ⊢
    tauto
  have hstart := s.isBoundary_of_ascii hb (Byte.asciiClass_isWord b hword)
  exact ⟨hstart, s.isBoundary_skipWhile Byte.asciiClass_isWord hstart⟩

theorem isBoundary_nameEnd {known : DirectiveSet} {pos : Nat} {m : DirectiveMatch}
    (h : s.directiveAt? known pos = some m) : s.isBoundary m.nameEnd := by
  unfold directiveAt? at h
  split at h
  · cases h
  · rename_i hfirst
    rw [Bool.not_eq_true, Bool.not_eq_false'] at hfirst
    have hend := (s.isBoundary_word hfirst).2
    simp only at h
    split at h
    · cases h
    · split at h
      · cases h; exact hend
      · cases h

theorem byte?_skipHorizontalSpace {known : DirectiveSet} {pos : Nat} {m : DirectiveMatch}
    (h : s.directiveAt? known pos = some m) (hargs : m.hasArgs) :
    s.byte? (s.skipHorizontalSpace m.nameEnd) = some Byte.openParen := by
  unfold directiveAt? at h
  split at h
  · cases h
  · simp only at h
    split at h
    · cases h
    · split at h
      · cases h
        obtain ⟨b, hb, hparen⟩ := s.exists_of_has ((Bool.and_eq_true _ _).mp hargs).1
        rwa [eq_of_beq hparen] at hb
      · cases h

theorem byte?_of_argsParen? {known : DirectiveSet} {pos paren : Nat}
    (h : s.argsParen? known pos = some paren) : s.byte? paren = some Byte.openParen := by
  unfold argsParen? at h
  split at h
  · rename_i m hm
    split at h
    · rename_i hargs
      cases h
      exact s.byte?_skipHorizontalSpace hm hargs
    · cases h
  · cases h

theorem isBoundary_of_selfCloses {i : Nat} (h : s.selfCloses i) : s.isBoundary i := by
  unfold selfCloses at h
  exact s.isBoundary_of_startsWith (by decide) h

theorem byte?_of_braceOpener? {i : Nat} (h : (s.braceOpener? i).isSome) :
    s.byte? i = some Byte.openBrace := by
  obtain ⟨opener, ho⟩ := Option.isSome_iff_exists.1 h
  cases opener with
  | bladeComment => exact s.byte?_of_startsWith (s.startsWith_of_bladeComment ho) (k := 0) rfl
  | echo f =>
      cases f <;> exact s.byte?_of_startsWith (s.startsWith_of_braceOpener? ho) (k := 0) rfl

theorem isBoundary_of_braceOpener? {i : Nat} (h : (s.braceOpener? i).isSome) :
    s.isBoundary i := by
  obtain ⟨opener, ho⟩ := Option.isSome_iff_exists.1 h
  cases opener with
  | bladeComment =>
      exact s.isBoundary_of_startsWith (by decide) (s.startsWith_of_bladeComment ho)
  | echo f => exact s.isBoundary_of_startsWith f.plain_opening (s.startsWith_of_braceOpener? ho)

theorem isBoundary_of_endsAttributeName {b : UInt8} {i : Nat} (hb : s.byte? i = some b)
    (h : s.endsAttributeName b i) : s.isBoundary i := by
  have hascii (hb' : Byte.isAscii b) : s.isBoundary i := s.isBoundary_of_ascii hb hb'
  simp only [endsAttributeName, Bool.or_eq_true, beq_iff_eq] at h
  rcases h with ((((((h | rfl) | rfl) | rfl) | rfl) | rfl) | h) | h
  · exact hascii (Byte.asciiClass_isSpace b h)
  · exact hascii (by decide)
  · exact hascii (by decide)
  · exact hascii (by decide)
  · exact hascii (by decide)
  · exact hascii (by decide)
  · exact s.isBoundary_of_selfCloses h
  · exact s.isBoundary_of_braceOpener? h

theorem isBoundary_of_endsUnquoted {b : UInt8} {i : Nat} (hb : s.byte? i = some b)
    (h : s.endsUnquoted b i) : s.isBoundary i := by
  simp only [endsUnquoted, Bool.or_eq_true, beq_iff_eq] at h
  rcases h with (h | rfl) | h
  · exact s.isBoundary_of_ascii hb (Byte.asciiClass_isSpace b h)
  · exact s.isBoundary_of_ascii hb (by decide)
  · exact s.isBoundary_of_selfCloses h

theorem attributeNameEnd_bounds {i : Nat} (hi : i ≤ s.size) :
    i ≤ s.attributeNameEnd i ∧ s.isBoundary (s.attributeNameEnd i) := by
  fun_induction attributeNameEnd s i with
  | case1 i hlt h =>
      exact ⟨le_rfl, s.isBoundary_of_endsAttributeName (s.byte?_of_lt hlt) h⟩
  | case2 i hlt h ih =>
      obtain ⟨hle, hb⟩ := ih hlt
      exact ⟨by omega, hb⟩
  | case3 i h =>
      have : i = s.size := by omega
      exact ⟨le_rfl, this ▸ s.isBoundary_size⟩

theorem le_size_of_echoInValueEnd? {i stop : Nat} (h : s.echoInValueEnd? i = some stop) :
    stop ≤ s.size := by
  unfold echoInValueEnd? at h
  split at h
  · rename_i f hf
    have hopen := s.isBoundary_add_width_opening (s.startsWith_of_braceOpener? hf)
    simp only at h
    split at h
    · rename_i j hj
      have hclose := s.isBoundary_add_width_closing (s.startsWith_of_findEchoEnd hj)
      cases h
      exact s.le_size_of_isBoundary hclose
    · cases h
      exact s.le_size_of_isBoundary hopen
  · cases h

/-- A value from `i` on ends with a character, and so does its closing quote. -/
def EndsAfter (i : Nat) (found : ValueEnd) : Prop :=
  i ≤ found.stop ∧ s.isBoundary found.stop ∧ (found.closed → s.isBoundary (found.stop + 1))

theorem EndsAfter.of_lt {i j : Nat} {found : ValueEnd} (hij : i < j) (h : s.EndsAfter j found) :
    s.EndsAfter i found :=
  ⟨hij.le.trans h.1, h.2⟩

theorem endsAfter_valueEnd (known : DirectiveSet) (quote : Option UInt8) (argsUnclosed : Bool)
    (memo : ScanMemo) {i : Nat} (hi : i ≤ s.size)
    (hq : ∀ q, quote = some q → Byte.isAscii q) :
    s.EndsAfter i (s.valueEnd known quote argsUnclosed memo i) := by
  fun_induction valueEnd s known quote argsUnclosed memo i with
  | case1 _ _ i hlt h =>
      have hb := s.byte?_of_lt hlt
      exact ⟨le_rfl, s.isBoundary_of_ascii hb (hq _ h),
        fun _ => s.isBoundary_succ_of_ascii hb (hq _ h)⟩
  | case2 _ _ i hlt _ h =>
      exact ⟨le_rfl, s.isBoundary_of_endsUnquoted (s.byte?_of_lt hlt) h.2, nofun⟩
  | case3 _ _ i _ _ _ stop he hlt ih =>
      exact (ih (s.le_size_of_echoInValueEnd? he)).of_lt s hlt
  | case4 _ memo i _ _ _ _ _ paren _ hlt args _ hargs ih =>
      have := s.isBoundary_balancedParens memo .php 0 paren
      exact (ih (s.le_size_of_isBoundary this)).of_lt s (hlt.trans hargs)
  | case5 _ _ i hlt _ _ _ _ _ _ _ _ _ ih => exact (ih hlt).of_lt s i.lt_succ_self
  | case6 _ _ i hlt _ _ _ _ _ ih => exact (ih hlt).of_lt s i.lt_succ_self
  | case7 _ _ i hlt _ _ _ _ ih => exact (ih hlt).of_lt s i.lt_succ_self
  | case8 => exact ⟨hi, s.isBoundary_size, nofun⟩

theorem stop_valueEnd (known : DirectiveSet) (q : UInt8) (argsUnclosed : Bool) (memo : ScanMemo)
    {i : Nat} (h : (s.valueEnd known (some q) argsUnclosed memo i).closed = false) :
    (s.valueEnd known (some q) argsUnclosed memo i).stop = s.size := by
  generalize hquote : some q = quote at h ⊢
  fun_induction valueEnd s known quote argsUnclosed memo i with
  | case1 => cases h
  | case2 _ _ _ _ _ hunquoted =>
      rw [← hquote] at hunquoted
      cases hunquoted.1
  | case3 _ _ _ _ _ _ _ _ _ ih => exact ih h
  | case4 _ _ _ _ _ _ _ _ _ _ _ _ _ _ ih => exact ih h
  | case5 _ _ _ _ _ _ _ _ _ _ _ _ _ ih => exact ih h
  | case6 _ _ _ _ _ _ _ _ _ ih => exact ih h
  | case7 _ _ _ _ _ _ _ _ ih => exact ih h
  | case8 => rfl

theorem rawStringEnd_le_size (kind : RawText) (quote : UInt8) (i : Nat) :
    s.rawStringEnd kind quote i ≤ s.size := by
  fun_induction rawStringEnd s kind quote i with
  | case1 _ _ _ _ ih => exact ih
  | case2 | case3 | case4 => omega
  | case5 _ _ _ _ _ _ _ ih => exact ih
  | case6 => exact le_rfl

theorem rawBlockCommentEnd_le_size (kind : RawText) (i : Nat) :
    s.rawBlockCommentEnd kind i ≤ s.size := by
  fun_induction rawBlockCommentEnd s kind i with
  | case1 i _ h => exact s.le_size_of_isBoundary (s.isBoundary_after (by decide) h rfl)
  | case2 => omega
  | case3 _ _ _ _ ih => exact ih
  | case4 => exact le_rfl

theorem rawLineCommentEnd_le_size (kind : RawText) (i : Nat) :
    s.rawLineCommentEnd kind i ≤ s.size := by
  fun_induction rawLineCommentEnd s kind i with
  | case1 | case2 => omega
  | case3 _ _ _ _ ih => exact ih
  | case4 => exact le_rfl

theorem rawUnitEnd_le_size (kind : RawText) (b : UInt8) {pos : Nat} (hp : pos < s.size) :
    s.rawUnitEnd kind b pos ≤ s.size := by
  unfold rawUnitEnd
  split
  · exact hp
  · split
    · exact s.rawStringEnd_le_size kind b (pos + 1)
    · split
      · exact s.rawBlockCommentEnd_le_size kind (pos + 2)
      · split
        · exact s.rawLineCommentEnd_le_size kind (pos + 2)
        · exact hp

theorem rawRunEnd_bounds (kind : RawText) {i : Nat} (hi : i ≤ s.size) :
    i ≤ s.rawRunEnd kind i ∧ s.isBoundary (s.rawRunEnd kind i) := by
  fun_induction rawRunEnd s kind i with
  | case1 i hlt h =>
      refine ⟨le_rfl, ?_⟩
      rcases h with h | h | h <;>
        exact s.isBoundary_of_ascii (s.byte?_of_getElem hlt h) (by decide)
  | case2 i hlt _ hunit ih =>
      obtain ⟨hle, hb⟩ := ih (s.rawUnitEnd_le_size kind _ hlt)
      exact ⟨hunit.le.trans hle, hb⟩
  | case3 i h =>
      have : i = s.size := by omega
      exact ⟨le_rfl, this ▸ s.isBoundary_size⟩

end Source

namespace GenericScan

def EndsOnBoundaries (s : Source) (closes : List (Nat × Nat)) : Prop :=
  ∀ c ∈ closes, s.isBoundary c.2

theorem EndsOnBoundaries.close {s : Source} {closes : List (Nat × Nat)} {i start : Nat}
    (h : EndsOnBoundaries s closes) (hi : s.byte? i = some Byte.greaterThan) (named : Bool) :
    EndsOnBoundaries s (if named then (start, i + 1) :: closes else closes) := by
  intro c hc
  split at hc
  · rcases List.mem_cons.1 hc with rfl | hc
    · exact s.isBoundary_succ_of_ascii hi (by decide)
    · exact h c hc
  · exact h c hc

theorem endsOnBoundaries_matchBrackets (s : Source) (opened : List Nat) (lastName : Option Nat)
    {closes : List (Nat × Nat)} (i : Nat) (h : EndsOnBoundaries s closes) :
    EndsOnBoundaries s (matchBrackets s opened lastName closes i).2 := by
  fun_induction matchBrackets s opened lastName closes i with
  | case1 _ _ _ _ _ _ _ ih => exact ih h
  | case2 => exact h
  | case3 _ _ _ hlt _ _ hb => exact h.close (s.byte?_of_getElem hlt hb) _
  | case4 _ _ _ hlt _ _ hb _ _ _ _ ih => exact ih (h.close (s.byte?_of_getElem hlt hb) _)
  | case5 _ _ _ _ _ _ _ _ _ ih => exact ih h
  | case6 _ _ _ _ _ _ _ _ _ _ ih => exact ih h
  | case7 => exact h
  | case8 => exact h

theorem isBoundary_of_close? {s : Source} {g : GenericScan} {pos stop : Nat}
    (h : EndsOnBoundaries s g.closes) (hc : g.close? pos = some stop) : s.isBoundary stop := by
  obtain ⟨l, r, hl, -⟩ := List.lookup_eq_some_iff.1 hc
  exact h (pos, stop) (by simp [hl])

theorem endsOnBoundaries_covering {s : Source} {g : GenericScan} (pos : Nat)
    (h : EndsOnBoundaries s g.closes) : EndsOnBoundaries s (g.covering s pos).closes := by
  unfold covering startingAt
  split
  · exact h
  · exact endsOnBoundaries_matchBrackets s [] none pos nofun

end GenericScan
end BladeTree
