import BladeTree.Proofs.Tree.Directive
import BladeTree.Proofs.Tree.Element

namespace BladeTree

theorem TreeExtension.claim?_bounds {x : TreeExtension} {offer : TreeOffer} {leaf : Leaf}
    (h : x.claim? offer = some leaf) (hp : offer.position ≤ offer.tokens.size) :
    0 < leaf.tokenCount ∧ offer.position + leaf.tokenCount ≤ offer.tokens.size := by
  unfold claim? at h
  split at h
  · simp only at h
    split at h
    · cases h
    · cases h
      simp only
      omega
  · cases h

namespace Builder

variable {t : Tokenized} {b : Builder}

theorem extensionLeaf?_bounds {leaf : Leaf} (h : b.extensionLeaf? t = some leaf)
    (hp : b.pos ≤ t.size) : 0 < leaf.tokenCount ∧ b.pos + leaf.tokenCount ≤ t.size := by
  obtain ⟨x, -, hx⟩ := List.exists_of_findSome?_eq_some h
  exact TreeExtension.claim?_bounds hx hp

namespace Sound

variable (h : b.Sound t)
include h

theorem ofReads {x : Build Builder}
    (hx : t.Yields x fun b' => Reads t b (b.parent :: b.outerPath) b' ∧ b.pos < b'.pos) :
    t.Yields x fun b' => b'.Sound t ∧ b.pos < b'.pos :=
  hx.mono fun _ ⟨h', hlt'⟩ => ⟨h.closed h', hlt'⟩

theorem single (hlt : b.pos < t.size) (kind : NodeKind) :
    t.Yields (b.single t kind) fun b' => b'.Sound t ∧ b.pos < b'.pos := by
  refine (h.reads.leaf kind hlt).bind fun ⟨_, b₁⟩ ⟨h₁, hpos₁, _⟩ => ⟨h.closed h₁, ?_⟩
  simp only
  omega

theorem extensionLeaf (leaf : Leaf) (hcount : 0 < leaf.tokenCount)
    (hn : b.pos + leaf.tokenCount ≤ t.size) :
    t.Yields (b.extensionLeaf t leaf) fun b' => b'.Sound t ∧ b.pos < b'.pos := by
  refine h.ofReads ((h.reads.leaf leaf.kind hn).bind fun ⟨id, b₁⟩ ⟨h₁, hpos₁, hid⟩ => ?_)
  exact (h₁.setData leaf.data hid).mono fun b' ⟨h', hpos'⟩ => ⟨h', by omega⟩

theorem construct {kind : TokenType} (hk : b.current? t = some kind) :
    t.Yields (b.construct t kind) fun b' => b'.Sound t ∧ b.pos < b'.pos := by
  have hlt := lt_size_of_current? hk
  unfold Builder.construct
  split
  · refine .ite (fun hslash => h.closingTag hslash) fun _ => ?_
    refine .ite (fun hname => h.startTag (Tokenized.lt_size_of_kind? hname)) fun _ => ?_
    exact h.ofReads (h.reads.text hlt)
  · exact h.ofReads (h.reads.echo hlt _ _ _)
  · exact h.ofReads (h.reads.echo hlt _ _ _)
  · exact h.ofReads (h.reads.echo hlt _ _ _)
  · exact h.ofReads (h.reads.delimited hlt _ _ _ _)
  · exact h.ofReads (h.reads.delimited hlt _ _ _ _)
  · exact h.single hlt _
  · exact h.single hlt _
  · exact h.single hlt _
  · exact h.ofReads (h.reads.delimited hlt _ _ _ _)
  · exact h.ofReads (h.reads.delimited hlt _ _ _ _)
  · exact h.ofReads (h.reads.verbatim hlt)
  · exact h.directive hlt
  · exact h.ofReads (h.reads.text hlt)

theorem contentItem (hlt : b.pos < t.size) :
    t.Yields (b.contentItem t) fun b' => b'.Sound t ∧ b.pos < b'.pos := by
  unfold Builder.contentItem
  split
  · rename_i leaf hleaf
    obtain ⟨hcount, hn⟩ := extensionLeaf?_bounds hleaf h.fits
    exact h.extensionLeaf leaf hcount hn
  · split
    · exact h.construct ‹_›
    · rename_i hnone
      obtain ⟨u, hu⟩ := Tokenized.exists_token hlt
      rw [current?, Tokenized.kind?, hu] at hnone
      cases hnone

theorem items : t.Yields (b.items t) fun b' => b'.Sound t ∧ b'.pos = t.size := by
  fun_induction Builder.items t b with
  | case1 b hlt ih =>
      refine (h.contentItem hlt).bind fun b₁ ⟨h₁, hlt₁⟩ => ?_
      rw [dif_pos hlt₁]
      exact ih b₁ hlt₁ h₁
  | case2 b hge => exact ⟨h, le_antisymm h.fits (Nat.le_of_not_lt hge)⟩

end Sound

theorem slot_initial (i : Nat) : slot initial.nodes i = .unlinked .document 0 := by
  cases i <;> rfl

theorem growing_initial : (outline initial.nodes).Growing [root] 0 := by
  have hparent (i : Nat) : (outline initial.nodes).parent i = none :=
    congrArg FlatNode.parent (slot_initial i)
  have hno {c p : Nat} {P : Prop} (hp : (outline initial.nodes).parent c = some p) : P := by
    rw [hparent] at hp
    cases hp
  have hnext (i : Nat) : (outline initial.nodes).nextSibling i = none :=
    congrArg FlatNode.nextSibling (slot_initial i)
  have hstop (i : Nat) : (outline initial.nodes).stop i = 0 :=
    congrArg FlatNode.tokenEnd (slot_initial i)
  have hstart (i : Nat) : (outline initial.nodes).start i = 0 :=
    congrArg FlatNode.tokenStart (slot_initial i)
  have hlinked : (outline initial.nodes).Linked := by
    refine ⟨Nat.one_pos, rfl, fun _ _ => hno, fun c hc hlt => ?_, fun p => ?_, fun p => ?_,
      fun c => ?_, fun c => ?_⟩
    · exact absurd hlt (Nat.not_lt_of_ge hc)
    · rw [show (outline initial.nodes).firstChild p = none from
        congrArg FlatNode.firstChild (slot_initial p)]
      exact fun _ => hno
    · rw [show (outline initial.nodes).lastChild p = none from
        congrArg FlatNode.lastChild (slot_initial p)]
      exact fun _ => hno
    · rw [hnext]
      exact fun _ ⟨_, _, hp, _⟩ => hno hp
    · rw [show (outline initial.nodes).prevSibling c = none from
        congrArg FlatNode.prevSibling (slot_initial c)]
      exact fun _ ⟨_, _, hp, _⟩ => hno hp
  refine ⟨hlinked, fun i hi => ?_, rfl, ?_, fun _ _ => hnext _, hstart 0, fun i => ?_,
    fun i _ => (hstop i).le, fun _ _ => hno, fun _ _ hp => hno hp, fun c d hd => ?_⟩
  · exact absurd hi (by simp [outline, initial])
  · rintro _ ⟨⟩
    exact .refl
  · rw [hstart, hstop]
  · rw [hnext] at hd
    cases hd

theorem sound_initial : initial.Sound t where
  growing := growing_initial
  fits := Nat.zero_le _
  document := rfl
  counted counter := by cases counter <;> rfl

structure Built (t : Tokenized) (b : Builder) : Prop where
  growing : (outline b.nodes).Growing [] t.size
  document : (slot b.nodes 0).kind = .document
  covers : (outline b.nodes).stop 0 = t.size

theorem yields_build : t.Yields (build t) (Built t) := by
  unfold build
  refine sound_initial.items.bind fun b₁ hitems => ?_
  obtain ⟨h₁, hpos₁⟩ := hitems
  refine (h₁.forceCloseMany _ hpos₁.symm _).bind fun b₂ hclosed => ?_
  obtain ⟨h₂, hpos₂, hstack₂⟩ := hclosed
  rw [List.drop_length] at hstack₂
  have hpath : b₂.parent :: b₂.outerPath = [root] := by
    rw [← openPath_eq, openPath, hstack₂]
    rfl
  have hreads : Reads t b₂ [root] b₂ := hpath ▸ h₂.reads
  refine hreads.finish.mono fun b₃ hfinished => ?_
  obtain ⟨h₃, hpos₃, -, hstop⟩ := hfinished
  have hend : b₃.pos = t.size := by omega
  exact ⟨hend ▸ h₃.growing, h₃.document, by rw [show Builder.root = 0 from rfl] at hstop; omega⟩

end Builder
end BladeTree
