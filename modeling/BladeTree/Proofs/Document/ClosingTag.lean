import BladeTree.Proofs.Document.Total
import BladeTree.Proofs.Tree.ClosingTag
import BladeTree.Proofs.Tree.Implied
import Mathlib

namespace BladeTree
namespace Builder

variable {t : Tokenized} {b b' : Builder} {P : Builder → Prop} {name : String}
  {above below : List Frame} {f : Frame}

theorem Upheld.reachable (hP : Upheld t P) (hinitial : P initial) (h : Reachable t b) : P b := by
  induction h with
  | initial => exact hinitial
  | item b b' hb _ hitem ih => exact hP.contentItem hb.sound ih b' hitem

theorem Reachable.carrying (h : Reachable t b) : b.Carrying t := by
  have hupheld : Upheld t (Justified t none) :=
    (upheld_justified t).upheld (fun _ _ _ => trivial) fun _ _ _ => trivial
  exact (hupheld.reachable (justified_initial t) h).carrying

theorem contentItem_eq_closingTag (htag : t.ClosingTagAt b.pos name)
    (hext : b.extensionLeaf? t = none) : b.contentItem t = b.closingTag t := by
  have hopens : b.current? t = some .lessThan := htag.opens
  unfold contentItem construct
  rw [hext, hopens]
  exact if_pos htag.slash

/-! Blocks stay open -/

theorem Closes.directives_eq (h : b.Closes t above f below b')
    (hexposed : Frame.Exposed name b.stack above f below) :
    b'.stack.filter (·.blockRule?.isSome) = b.stack.filter (·.blockRule?.isSome) := by
  obtain ⟨opened, hkind, -⟩ := hexposed.called.exists_kind
  have hf : f.blockRule? = none := by
    unfold Frame.blockRule?
    rw [hkind]
  have habove : above.filter (·.blockRule?.isSome) = [] :=
    List.filter_eq_nil_iff.2 fun g hg => by simp [hexposed.elements g hg]
  rw [hexposed.stack_eq, List.filter_append, habove, List.nil_append,
    List.filter_cons_of_neg (by simp [hf]), h.stack]

/-- A closing tag ends the innermost element of its name, with those above it, unless a block is in
between; then it is filed where it stands. No block is left. -/
theorem closingTag_of_reachable (h : Reachable t b) (htag : t.ClosingTagAt b.pos name) :
    ∃ b', b.closingTag t = .ok b' ∧
      (b.extensionLeaf? t = none → b.contentItem t = .ok b') ∧
      (∀ above f below, Frame.Exposed name b.stack above f below →
        (∀ g ∈ above, ¬ g.IsCalled name) → b.Closes t above f below b') ∧
      ((∀ above f below, ¬ Frame.Exposed name b.stack above f below) → b.Strays t b') ∧
      b'.stack.filter (·.blockRule?.isSome) = b.stack.filter (·.blockRule?.isSome) := by
  have hs := h.sound
  obtain ⟨b', hb'⟩ := hs.succeeds_closingTag htag
  have hcloses (above : List Frame) (f : Frame) (below : List Frame)
      (hexposed : Frame.Exposed name b.stack above f below)
      (hinner : ∀ g ∈ above, ¬ g.IsCalled name) : b.Closes t above f below b' :=
    hs.closes h.carrying htag hexposed hinner b' hb'
  have hstrays (hnone : ∀ above f below, ¬ Frame.Exposed name b.stack above f below) :
      b.Strays t b' := hs.strays htag hnone b' hb'
  have hitem (hext : b.extensionLeaf? t = none) : b.contentItem t = .ok b' :=
    (contentItem_eq_closingTag htag hext).trans hb'
  refine ⟨b', hb', hitem, hcloses, hstrays, ?_⟩
  by_cases hexposed : ∃ above f below, Frame.Exposed name b.stack above f below
  · obtain ⟨_, _, _, hexposed⟩ := hexposed
    obtain ⟨above, f, below, hexposed, hinner⟩ := hexposed.exists_innermost
    exact (hcloses above f below hexposed hinner).directives_eq hexposed
  · rw [(hstrays fun above f below hexp => hexposed ⟨above, f, below, hexp⟩).stack]

theorem closingTag_of_reachable_nested : ∃ t b b', t.source = .ofString "<p><b></P>" ∧
    Reachable t b ∧ t.ClosingTagAt b.pos "P" ∧ b.closingTag t = .ok b' ∧
      b.Closes t [⟨3, .element "b"⟩] ⟨1, .element "p"⟩ [] b' := by
  obtain ⟨t, ht⟩ : ∃ t : Tokenized, t =
      ⟨.ofDirectives [], .ofString "<p><b></P>",
      #[⟨.lessThan, 0, 1⟩, ⟨.tagName, 1, 2⟩, ⟨.greaterThan, 2, 3⟩,
        ⟨.lessThan, 3, 4⟩, ⟨.tagName, 4, 5⟩, ⟨.greaterThan, 5, 6⟩,
        ⟨.lessThan, 6, 7⟩, ⟨.slash, 7, 8⟩, ⟨.tagName, 8, 9⟩, ⟨.greaterThan, 9, 10⟩]⟩ := ⟨_, rfl⟩
  have hread : ((initial.contentItem t).toOption.bind fun b₁ =>
      (b₁.contentItem t).toOption.map fun b₂ => (b₁.pos, b₂.pos, b₂.stack)) =
        some (3, 6, [⟨3, .element "b"⟩, ⟨1, .element "p"⟩]) := by
    subst ht
    cbv
  obtain ⟨b₁, hb₁, hread₁⟩ := Option.bind_eq_some_iff.1 hread
  obtain ⟨b, hb, hread₂⟩ := Option.map_eq_some_iff.1 hread₁
  simp only [Prod.mk.injEq] at hread₂
  obtain ⟨hpos₁, hpos, hstack⟩ := hread₂
  have hreach₁ : Reachable t b₁ := .item _ _ .initial (by subst ht; decide) (eq_ok_of_toOption hb₁)
  have hlt₁ : b₁.pos < t.size := by subst ht; rw [hpos₁]; decide
  have hreach : Reachable t b := .item _ _ hreach₁ hlt₁ (eq_ok_of_toOption hb)
  have htag : t.ClosingTagAt b.pos "P" := by
    subst ht
    rw [hpos]
    exact ⟨by cbv, by cbv, by cbv⟩
  obtain ⟨b', hb', -, hcloses, -⟩ := closingTag_of_reachable hreach htag
  refine ⟨t, b, b', ht ▸ rfl, hreach, htag, hb', hcloses _ _ _ ⟨hstack, ?_, ?_⟩ ?_⟩
  · exact (Frame.isCalled_element 1 "p").2 (by cbv)
  · exact List.forall_mem_singleton.2 rfl
  · have hother : sameName "b" "P" = false := by cbv
    refine List.forall_mem_singleton.2 fun hcalled => ?_
    cases hother.symm.trans ((Frame.isCalled_element 3 "b").1 hcalled)

/-- What a closing tag that ends nothing is reported as depends on the open blocks alone. -/
theorem reported_of_reachable (h : Reachable t b) (htag : t.ClosingTagAt b.pos name)
    (hnone : ∀ above f below, ¬ Frame.Exposed name b.stack above f below) :
    ∃ b' d, b.closingTag t = .ok b' ∧ b'.diagnostics = b.diagnostics.push d ∧
      (d.kind = .invalidNesting ↔ ∃ f ∈ b.stack, f.blockRule?.isSome) ∧
      (d.kind = .unexpectedClosingTag ↔ ∀ f ∈ b.stack, f.blockRule? = none) := by
  obtain ⟨b', hb'⟩ := h.sound.succeeds_closingTag htag
  obtain ⟨d, hd, hkind⟩ := (h.sound.strays htag hnone b' hb').reported
  have hopen : (∃ f ∈ b.stack, f.blockRule?.isSome) ↔ b.stack.any (·.blockRule?.isSome) :=
    List.any_eq_true.symm
  have hclosed : (∀ f ∈ b.stack, f.blockRule? = none) ↔ ¬ b.stack.any (·.blockRule?.isSome) := by
    simp
  refine ⟨b', d, hb', hd, ?_⟩
  rw [hopen, hclosed, hkind]
  cases b.stack.any (·.blockRule?.isSome) <;> decide

end Builder
end BladeTree
