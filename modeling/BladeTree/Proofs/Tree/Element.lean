import BladeTree.Proofs.Tree.Frames
import BladeTree.Proofs.Tree.Tag

namespace BladeTree
namespace Builder

variable {t : Tokenized} {start b : Builder} {element : Nat}

theorem closingTagEnd_bounds {i : Nat} (hi : i ≤ t.size) :
    i ≤ closingTagEnd t i ∧ closingTagEnd t i ≤ t.size := by
  fun_induction closingTagEnd t i with
  | case1 i hlt _ ih => exact ⟨(Nat.le_succ i).trans (ih hlt).1, (ih hlt).2⟩
  | case2 i hlt _ ih => exact ⟨(Nat.le_succ i).trans (ih hlt).1, (ih hlt).2⟩
  | case3 i hlt => exact ⟨Nat.le_succ i, hlt⟩
  | case4 => exact ⟨le_rfl, hi⟩
  | case5 => exact ⟨le_rfl, hi⟩

theorem Reads.enterElement
    (h : Reads t start (element :: start.parent :: start.outerPath) b) (hc : start.Counted)
    (empty : Bool) (first : Nat) (name : String) :
    t.Yields (if empty then b.finish element else do
        b.checkDepth t [.elements] first
        return b.pushFrame ⟨element, .element name⟩) fun b' =>
      b'.Sound t ∧ b'.pos = b.pos := by
  refine .ite (fun _ => ?_) fun _ => ?_
  · exact h.finish.mono fun b' ⟨h', hpos', _⟩ => ⟨h'.sound hc, hpos'⟩
  · refine (yields_checkDepth _ _).bind fun _ _ => ?_
    exact h.pushFrame (f := ⟨element, .element name⟩) hc

namespace Sound

variable (h : b.Sound t)
include h

theorem closeForSibling (name : String) :
    t.Yields (b.closeForSibling t name) fun b' => b'.Sound t ∧ b'.pos = b.pos := by
  unfold Builder.closeForSibling
  split
  · exact ⟨h, rfl⟩
  · refine (h.forceCloseMany _ rfl _).bind fun b₁ ⟨h₁, hpos₁, _⟩ => ?_
    rw [← hpos₁]
    exact (h₁.forceClose _ _).mono fun b' ⟨h', hpos', _⟩ => ⟨h', hpos'⟩

theorem startTag (hname : b.pos + 1 < t.size) :
    t.Yields (b.startTag t) fun b' => b'.Sound t ∧ b.pos < b'.pos := by
  unfold Builder.startTag
  refine (Tokenized.yields_text hname).bind fun name _ => ?_
  refine (h.closeForSibling name).bind fun b₁ ⟨h₁, hpos₁⟩ => ?_
  refine (h₁.reads.startIn .element).bind fun ⟨element, b₂⟩ ⟨h₂, hpos₂⟩ => ?_
  refine (h₂.bump (by omega)).bind fun b₃ ⟨h₃, hpos₃⟩ => ?_
  refine (h₃.leaf .elementName (by omega)).bind fun ⟨_, b₄⟩ ⟨h₄, hpos₄, _⟩ => ?_
  refine (h₄.eatGenericArgs element b.pos).bind fun b₅ ⟨h₅, hpos₅⟩ => ?_
  refine h₅.tagItems.bind fun ⟨tagEnd, b₆⟩ ⟨h₆, hpos₆⟩ => ?_
  refine .ite (fun _ => ?_) fun _ => ?_
  · exact (h₆.unterminatedTag hname name).mono fun b' ⟨h', hpos'⟩ => ⟨h₁.closed h', by omega⟩
  · have henter {b₇ : Builder}
        (h₇ : Reads t b₁ (element :: b₁.parent :: b₁.outerPath) b₇ ∧ b₇.pos = b₆.pos)
        (empty : Bool) :=
      (h₇.1.enterElement h₁.counted empty b.pos name).mono fun b' ⟨h', hpos'⟩ =>
        And.intro h' (show b.pos < b'.pos by omega)
    simp only
    split
    · refine (h₆.setFlag _ h₆.growing.lt_size).bind fun b₇ ⟨h₇, hpos₇⟩ => ?_
      split
      · refine (h₇.setFlag _ h₇.growing.lt_size).bind fun b₈ ⟨h₈, hpos₈⟩ => ?_
        exact henter ⟨h₈, by omega⟩ _
      · exact henter ⟨h₇, hpos₇⟩ _
    · split
      · exact (h₆.setFlag _ h₆.growing.lt_size).bind fun b₇ h₇ => henter h₇ _
      · exact henter ⟨h₆, rfl⟩ _

theorem strayClosingTag {stop : Nat} (hlt : b.pos < stop) (hstop : stop ≤ t.size)
    (blocked : Bool) :
    t.Yields (b.strayClosingTag t stop blocked) fun b' => b'.Sound t ∧ b.pos < b'.pos := by
  unfold Builder.strayClosingTag
  refine (h.reads.leaf .strayClosingTag (by omega)).bind fun ⟨_, b₁⟩ ⟨h₁, hpos₁, _⟩ => ?_
  have hclosed := h.closed h₁
  refine (Tokenized.yields_span hstop).bind fun span _ => ?_
  refine .ite (fun _ => ?_) fun _ => ?_
  · exact (hclosed.reportTokens _ hstop _ _).mono fun b' ⟨h', hpos', _⟩ => ⟨h', by omega⟩
  · exact (hclosed.reportTokens _ hstop _ _).mono fun b' ⟨h', hpos', _⟩ => ⟨h', by omega⟩

theorem closeElement {n : Nat} (hpos : 0 < n) (hn : b.pos + n ≤ t.size) :
    t.Yields (do
        let (_, b') ← b.leaf t b.parent .closingElementName n
        let b' ← b'.setFlag b.parent .paired
        return (← b'.popFrame b'.pos).2) fun b' =>
      b'.Sound t ∧ b.pos < b'.pos := by
  refine (h.reads.leaf .closingElementName hn).bind fun ⟨_, b₁⟩ ⟨h₁, hpos₁, _⟩ => ?_
  refine (h₁.setFlag _ h₁.growing.lt_size).bind fun b₂ ⟨h₂, hpos₂⟩ => ?_
  refine (h.closed h₂).popFrame.bind fun ⟨_, b₃⟩ ⟨h₃, hpos₃, _⟩ => ⟨h₃, ?_⟩
  simp only
  omega

theorem closingTag (hslash : t.kind? (b.pos + 1) = some .slash) :
    t.Yields (b.closingTag t) fun b' => b'.Sound t ∧ b.pos < b'.pos := by
  unfold Builder.closingTag
  refine (Tokenized.yields_text_of_grammatical fun hg => hg.named _ hslash).bind fun name hlt => ?_
  obtain ⟨hle, hstop⟩ : b.pos + 3 ≤ closingTagEnd t (b.pos + 3) ∧ _ :=
    closingTagEnd_bounds (by omega)
  simp only
  split
  · exact h.strayClosingTag (by omega) hstop true
  · exact h.strayClosingTag (by omega) hstop false
  · refine (h.forceCloseMany _ rfl _).bind fun b₁ ⟨h₁, hpos₁, _⟩ => ?_
    split
    · refine (h₁.reportTokens _ hstop _ _).bind fun b₂ ⟨h₂, hpos₂, _⟩ => ?_
      exact (h₂.closeElement (by omega) (by omega)).mono fun b' ⟨h', hlt'⟩ => ⟨h', by omega⟩
    · exact (h₁.closeElement (by omega) (by omega)).mono fun b' ⟨h', hlt'⟩ => ⟨h', by omega⟩

end Sound
end Builder
end BladeTree
