import BladeTree.Proofs.Text.Scan
import BladeTree.Proofs.Tree.Content

namespace BladeTree
namespace Builder

variable {t : Tokenized} {start b : Builder} {path : List Nat} {q : Nat}

theorem exists_byte (hg : t.Grammatical) {i : Nat} {u : Token} (hu : t.tokens[i]? = some u) :
    u.start < u.stop ∧ ∃ byte, t.source.byte? u.start = some byte := by
  obtain ⟨hlt, hle⟩ := hg.solid i u hu
  exact ⟨hlt, _, t.source.byte?_of_lt (hlt.trans_le hle)⟩

namespace Reads

theorem eatGenericArgs (h : Reads t start path b) (element first : Nat) :
    t.Yields (b.eatGenericArgs t element first) fun b' =>
      Reads t start path b' ∧ b.pos ≤ b'.pos := by
  unfold Builder.eatGenericArgs
  refine .ite (fun hat => ?_) fun _ => ⟨h, le_rfl⟩
  have hlt := lt_size_of_isAt hat
  have hbump := (h.metadata (b.metadata.setGenericArgsOffset element (b.pos - first))).bump hlt
  exact hbump.mono fun b' ⟨h', hpos'⟩ => ⟨h', by simp only at hpos'; omega⟩

theorem eatSpaceBefore (h : Reads t start path b) (p : TokenType → Bool) :
    t.Yields (b.eatSpaceBefore t p) fun b' => Reads t start path b' ∧ b.pos ≤ b'.pos := by
  unfold Builder.eatSpaceBefore
  refine .ite (fun hat => ?_) fun _ => ⟨h, le_rfl⟩
  have hlt := lt_size_of_isAt ((Bool.and_eq_true _ _).mp hat).1
  exact (h.bump hlt).mono fun b' ⟨h', hpos'⟩ => ⟨h', by omega⟩

theorem attributeValue (h : Reads t start (q :: path) b) (first : Nat) :
    t.Yields (b.attributeValue t q first) fun b' =>
      Reads t start (q :: path) b' ∧ b.pos ≤ b'.pos := by
  unfold Builder.attributeValue
  refine .ite (fun hat => ?_) fun _ => .ite (fun hat => ?_) fun _ => ?_
  · have hlt := lt_size_of_isAt hat
    refine (Tokenized.yields_token hlt).bind fun quote hquote => ?_
    split
    · refine (h.bump hlt).bind fun b₁ ⟨h₁, hpos₁⟩ => ?_
      refine (h₁.startIn .attributeValue).bind fun ⟨value, b₂⟩ ⟨h₂, hpos₂⟩ => ?_
      refine (h₂.setData _ h₂.growing.lt_size).bind fun b₃ ⟨h₃, hpos₃⟩ => ?_
      refine (h₃.eat .attributeValue).bind fun ⟨_, b₄⟩ ⟨h₄, hpos₄⟩ => ?_
      refine h₄.finish.bind fun b₅ ⟨h₅, hpos₅, _⟩ => ?_
      refine (h₅.eat .quote).bind fun ⟨closed, b₆⟩ ⟨h₆, hpos₆⟩ => ?_
      refine .ite (fun _ => ⟨h₆, by omega⟩) fun _ => ?_
      exact (h₆.reportTokens _ h₆.fits _ _).mono fun b' ⟨h', hpos'⟩ => ⟨h', by omega⟩
    · rename_i hno
      refine Tokenized.yields_fault fun hg => ?_
      obtain ⟨hsolid, byte, hbyte⟩ := exists_byte hg hquote
      rw [if_pos hsolid] at hno
      exact hno byte hbyte
  · refine (h.leaf .attributeValue (lt_size_of_isAt hat)).bind fun ⟨_, b₁⟩ ⟨h₁, hpos₁, _⟩ => ?_
    refine ⟨h₁, ?_⟩
    simp only
    omega
  · exact (h.reportTokens _ h.fits _ _).mono fun b' ⟨h', hpos'⟩ => ⟨h', hpos'.ge⟩

theorem attributePair (h : Reads t start (q :: path) b) (hlt : b.pos < t.size) :
    t.Yields (b.attributePair t q) fun b' =>
      Reads t start (q :: path) b' ∧ b.pos < b'.pos := by
  unfold Builder.attributePair
  refine (h.startIn .attr).bind fun ⟨id, b₁⟩ ⟨h₁, hpos₁⟩ => ?_
  refine (h₁.leaf .attributeName (by omega)).bind fun ⟨_, b₂⟩ ⟨h₂, hpos₂, _⟩ => ?_
  refine (h₂.eatSpaceBefore _).bind fun b₃ ⟨h₃, hpos₃⟩ => ?_
  refine .ite (fun _ => ?_) fun hat => ?_
  · exact h₃.finish.mono fun b' ⟨h', hpos', _⟩ => ⟨h', by omega⟩
  · have hequals : b₃.isAt t .equals := by simpa using hat
    refine (h₃.bump (lt_size_of_isAt hequals)).bind fun b₄ ⟨h₄, hpos₄⟩ => ?_
    refine (h₄.eatSpaceBefore _).bind fun b₅ ⟨h₅, hpos₅⟩ => ?_
    refine (h₅.attributeValue _).bind fun b₆ ⟨h₆, hpos₆⟩ => ?_
    exact h₆.finish.mono fun b' ⟨h', hpos', _⟩ => ⟨h', by omega⟩

theorem unexpectedText (h : Reads t start path b) (hlt : b.pos < t.size) :
    t.Yields (b.unexpectedText t) fun b' => Reads t start path b' ∧ b.pos < b'.pos := by
  unfold Builder.unexpectedText
  refine (Tokenized.yields_text hlt).bind fun text _ => ?_
  refine (h.reportTokens _ hlt _ _).bind fun b₁ ⟨h₁, hpos₁⟩ => ?_
  exact (h₁.bump (by omega)).mono fun b' ⟨h', hpos'⟩ => ⟨h', by omega⟩

theorem bumpAhead (h : Reads t start path b) (hlt : b.pos < t.size) :
    t.Yields (b.bump t) fun b' => Reads t start path b' ∧ b.pos < b'.pos :=
  (h.bump hlt).mono fun b' ⟨h', hpos'⟩ => ⟨h', by omega⟩

theorem tagItem? (h : Reads t start (q :: path) b) (hlt : b.pos < t.size) {kind : TokenType}
    {item : Build Builder} (hitem : b.tagItem? t q kind = some item) :
    t.Yields item fun b' => Reads t start (q :: path) b' ∧ b.pos < b'.pos := by
  unfold Builder.tagItem? at hitem
  split at hitem <;> cases hitem
  · exact h.attributePair hlt
  · exact h.echo hlt _ _ _
  · exact h.echo hlt _ _ _
  · exact h.echo hlt _ _ _
  · exact h.delimited hlt _ _ _ _
  · exact h.directiveLeaf hlt _
  · exact h.bumpAhead hlt
  · exact h.unexpectedText hlt
  · exact h.bumpAhead hlt

theorem tagItems (h : Reads t start (q :: path) b) :
    t.Yields (Builder.tagItems t q b) fun (_, b') =>
      Reads t start (q :: path) b' ∧ b.pos ≤ b'.pos := by
  fun_induction Builder.tagItems t q b with
  | case1 => exact ⟨h, le_rfl⟩
  | case2 b hc =>
      exact (h.bumpAhead (lt_size_of_current? hc)).bind fun b₁ ⟨h₁, hlt₁⟩ => ⟨h₁, hlt₁.le⟩
  | case3 b hc =>
      exact (h.bumpAhead (lt_size_of_current? hc)).bind fun b₁ ⟨h₁, hlt₁⟩ => ⟨h₁, hlt₁.le⟩
  | case4 => exact ⟨h, le_rfl⟩
  | case5 b kind _ _ hc item hitem ih =>
      have hlt := lt_size_of_current? hc
      refine (h.tagItem? hlt hitem).bind fun b₁ ⟨h₁, hlt₁⟩ => ?_
      rw [dif_pos ⟨hlt₁, hlt⟩]
      exact (ih b₁ ⟨hlt₁, hlt⟩ h₁).mono fun ⟨_, b'⟩ ⟨h', hle⟩ => ⟨h', hlt₁.le.trans hle⟩

theorem unterminatedTag (h : Reads t start (q :: path) b) {first : Nat}
    (hfirst : first + 2 ≤ t.size) (name : String) :
    t.Yields (b.unterminatedTag t q first name) fun b' =>
      Reads t start path b' ∧ b'.pos = b.pos := by
  unfold Builder.unterminatedTag
  refine (h.setFlag _ h.growing.lt_size).bind fun b₁ ⟨h₁, hpos₁⟩ => ?_
  refine (h₁.setFlag _ h₁.growing.lt_size).bind fun b₂ ⟨h₂, hpos₂⟩ => ?_
  refine (h₂.metadata _).finish.bind fun b₃ ⟨h₃, hpos₃, _⟩ => ?_
  exact (h₃.reportTokens _ hfirst _ _).mono fun b' ⟨h', hpos'⟩ =>
    ⟨h', by simp only at hpos₃; omega⟩

end Reads
end Builder
end BladeTree
