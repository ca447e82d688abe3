import BladeTree.Proofs.Tree.Invariant

namespace BladeTree

namespace FlatNode

def tagName? (t : Tokenized) (n : FlatNode) : Option String :=
  if n.kind = .element then (t.text (n.tokenStart + 1)).toOption else none

def EndsAt (t : Tokenized) (n m : FlatNode) : Prop :=
  ∃ name ∈ n.tagName? t, ∃ sibling ∈ m.tagName? t, OptionalTag.endsAtSibling name sibling

variable {t : Tokenized} {n m n' m' : FlatNode}

theorem tagName?_congr (hkind : n.kind = m.kind) (hstart : n.tokenStart = m.tokenStart) :
    n.tagName? t = m.tagName? t := by
  unfold tagName?
  rw [hkind, hstart]

theorem tagName?_eq_none (h : n.kind ≠ .element) : n.tagName? t = none := if_neg h

theorem kind_of_tagName? {name : String} (h : name ∈ n.tagName? t) : n.kind = .element := by
  by_contra hkind
  rw [tagName?_eq_none hkind] at h
  cases h

theorem EndsAt.congr (h : n.EndsAt t m) (hn : n.tagName? t = n'.tagName? t)
    (hm : m.tagName? t = m'.tagName? t) : n'.EndsAt t m' := by
  unfold EndsAt at h ⊢
  rwa [← hn, ← hm]

end FlatNode

namespace Frame

def EndsAt (f : Frame) (name : String) : Prop :=
  ∃ opened ∈ f.elementName?, OptionalTag.endsAtSibling opened name

variable {name : String} {f : Frame} {stack below : List Frame} {above : Nat}

/-- If no element is found that the start tag ends, then it does not end the innermost one. -/
theorem not_endsAt_of_siblingTarget (h : siblingTarget name (f :: below) = none) :
    ¬ f.EndsAt name := by
  rintro ⟨opened, hopened, hends⟩
  have hopened : f.elementName? = some opened := hopened
  simp only [siblingTarget, hopened, hends, if_true] at h
  cases h

theorem endsAt_of_siblingTarget (h : siblingTarget name stack = some above) :
    ∃ f, stack.drop above = f :: stack.drop (above + 1) ∧ f.EndsAt name := by
  induction stack generalizing above with
  | nil => cases h
  | cons f below ih =>
      unfold siblingTarget at h
      split at h
      · cases h
      · rename_i opened hopened
        split at h
        · cases h
          exact ⟨f, rfl, opened, hopened, ‹_›⟩
        · split at h
          · cases h
          · obtain ⟨above', habove', rfl⟩ := Option.map_eq_some_iff.1 h
            exact ih habove'

end Frame

namespace Builder

variable {t : Tokenized} {b b' b₁ : Builder} {n q id : Nat} {kind : NodeKind} {name : String}

def Spared (t : Tokenized) (nodes : Array FlatNode) : Prop :=
  ∀ c p, (slot nodes c).parent = some p → (slot nodes p).EndsAt t (slot nodes c) →
    ∃ f < c, (slot nodes f).parent = some p ∧ (slot nodes f).EndsAt t (slot nodes c)

/-- Open elements have the names in their start tags, and none was left open without need. -/
structure Tidy (t : Tokenized) (b : Builder) : Prop where
  named : ∀ f ∈ b.stack,
    f.node < b.nodes.size ∧ (slot b.nodes f.node).tagName? t = f.elementName?
  spared : Spared t b.nodes

/-! What a step keeps -/

theorem Extends.tagName?_eq (h : Extends n b b') {i : Nat} (hi : i < b.nodes.size) :
    (slot b'.nodes i).tagName? t = (slot b.nodes i).tagName? t :=
  FlatNode.tagName?_congr (h.kind i hi) (h.tokenStart i hi)

theorem lt_size_of_tagName? {nodes : Array FlatNode} {i : Nat}
    (h : name ∈ (slot nodes i).tagName? t) : i < nodes.size := by
  apply lt_size_of_kind
  rw [FlatNode.kind_of_tagName? h]
  nofun

theorem Extends.tagName?_old (h : Extends n b b') {i : Nat}
    (hi : name ∈ (slot b'.nodes i).tagName? t) :
    i < b.nodes.size ∧ name ∈ (slot b.nodes i).tagName? t := by
  have hlt := lt_size_of_tagName? hi
  rcases Nat.lt_or_ge i b.nodes.size with hold | hnew
  · rw [h.tagName?_eq hold] at hi
    exact ⟨hold, hi⟩
  · have hkind : (slot b'.nodes i).kind ≠ .element := by
      intro hkind
      have hfresh := h.fresh i hnew hlt
      rw [hkind] at hfresh
      cases hfresh
    rw [FlatNode.tagName?_eq_none hkind] at hi
    cases hi

theorem Spared.extends (h : Spared t b.nodes) (hx : Extends n b b') : Spared t b'.nodes := by
  rintro c p hparent ⟨name, hname, sibling, hsibling, hends⟩
  obtain ⟨hp, hname⟩ := hx.tagName?_old hname
  obtain ⟨hc, hsibling'⟩ := hx.tagName?_old hsibling
  rw [hx.parent c hc] at hparent
  obtain ⟨f, hfc, hfp, hf⟩ := h c p hparent ⟨name, hname, sibling, hsibling', hends⟩
  have hf' : f < b.nodes.size := hfc.trans hc
  refine ⟨f, hfc, ?_, hf.congr (hx.tagName?_eq hf').symm (hx.tagName?_eq hc).symm⟩
  rw [hx.parent f hf']
  exact hfp

theorem Tidy.extends (h : b.Tidy t) (hx : Extends n b b') : b'.Tidy t where
  named f hf := by
    obtain ⟨hlt, hname⟩ := h.named f (hx.stack.subset hf)
    exact ⟨hlt.trans_le hx.size, (hx.tagName?_eq hlt).trans hname⟩
  spared := h.spared.extends hx

theorem Starts.old_eq (h : b.Starts q kind id b') {i : Nat} (hi : i < b.nodes.size) :
    (slot b'.nodes i).tagName? t = (slot b.nodes i).tagName? t ∧
      (slot b'.nodes i).parent = (slot b.nodes i).parent := by
  have hcore := h.old i hi
  simp only [FlatNode.core, Prod.mk.injEq] at hcore
  obtain ⟨hkind, hstart, hparent, -⟩ := hcore
  exact ⟨FlatNode.tagName?_congr hkind hstart, hparent⟩

theorem Tidy.starts (h : b.Tidy t) (hl : (outline b.nodes).Linked) (hq : q < b.nodes.size)
    (hs : b.Starts q kind id b')
    (hnew : (slot b.nodes q).EndsAt t (slot b'.nodes id) →
      ∃ f < b.nodes.size, (slot b.nodes f).parent = some q ∧
        (slot b.nodes f).EndsAt t (slot b'.nodes id)) : b'.Tidy t where
  named f hf := by
    have hstack : b'.stack = b.stack := by rw [hs.rest]
    obtain ⟨hlt, hname⟩ := h.named f (hstack ▸ hf)
    refine ⟨?_, (hs.old_eq hlt).1.trans hname⟩
    rw [hs.size]
    exact hlt.trans (Nat.lt_succ_self _)
  spared c p hparent hends := by
    have hlt : c < b'.nodes.size := by
      obtain ⟨_, _, _, hsibling, _⟩ := hends
      exact lt_size_of_tagName? hsibling
    rw [hs.size, Nat.lt_succ_iff_lt_or_eq] at hlt
    rcases hlt with hc | rfl
    · rw [(hs.old_eq (t := t) hc).2] at hparent
      have hp : p < b.nodes.size := (hl.below c p hparent).1.trans hc
      have hold := hends.congr (hs.old_eq hp).1 (hs.old_eq hc).1
      obtain ⟨f, hfc, hfp, hf⟩ := h.spared c p hparent hold
      have hf' : f < b.nodes.size := hfc.trans hc
      refine ⟨f, hfc, ?_, hf.congr (hs.old_eq hf').1.symm (hs.old_eq hc).1.symm⟩
      rw [(hs.old_eq (t := t) hf').2]
      exact hfp
    · rw [← hs.id_eq] at hparent hends ⊢
      obtain rfl : q = p := Option.some.inj (hs.parent_eq.symm.trans hparent)
      obtain ⟨f, hf', hfp, hf⟩ := hnew (hends.congr (hs.old_eq hq).1 rfl)
      refine ⟨f, hs.id_eq ▸ hf', ?_, hf.congr (hs.old_eq hf').1.symm rfl⟩
      rw [(hs.old_eq (t := t) hf').2]
      exact hfp

theorem Tidy.pushFrame (h : b.Tidy t) {f : Frame} (hlt : f.node < b.nodes.size)
    (hf : (slot b.nodes f.node).tagName? t = f.elementName?) : (b.pushFrame f).Tidy t := by
  obtain ⟨hnodes, hstack⟩ := nodes_pushFrame b f
  constructor
  · intro g hg
    rw [hstack, List.mem_cons] at hg
    rw [hnodes]
    rcases hg with rfl | hg
    · exact ⟨hlt, hf⟩
    · exact h.named g hg
  · rw [hnodes]
    exact h.spared

/-! Start tags -/

/-- What a start tag leaves open, unless it closes nothing, lies right below what it ended. -/
theorem Sound.stack_closeForSibling (h : b.Sound t) (name : String) :
    Build.Returns (b.closeForSibling t name) fun b' =>
      Frame.siblingTarget name b.stack = none ∧ b'.stack = b.stack ∨
        ∃ f, f :: b'.stack <:+ b.stack ∧ f.EndsAt name := by
  unfold Builder.closeForSibling
  split
  · exact .ok (.inl ⟨‹_›, rfl⟩)
  · rename_i above habove
    obtain ⟨f, hf, hends⟩ := Frame.endsAt_of_siblingTarget habove
    refine (h.forceCloseMany _ rfl above).returns.bind fun b₁ ⟨h₁, hpos₁, hstack₁⟩ => ?_
    rw [← hpos₁]
    refine (h₁.forceClose _ _).returns.mono fun b' ⟨_, _, hstack'⟩ => .inr ⟨f, ?_, hends⟩
    rw [hstack', hstack₁, hf]
    rw [List.tail_cons, ← hf]
    exact List.drop_suffix _ _

theorem Sound.parent_eq (h : b.Sound t) {f : Frame} {below : List Frame}
    (hs : f :: below <:+ b.stack) : (slot b.nodes f.node).parent = some (Frame.top below) := by
  obtain ⟨above, habove⟩ := hs
  have hpath : (f :: below).map (·.node) ++ [root] <:+ b.openPath := by
    refine ⟨above.map (·.node), ?_⟩
    rw [openPath, ← habove, List.map_append, List.append_assoc]
  have hspine := h.growing.spine.suffix hpath
  cases below with
  | nil => exact hspine.1
  | cons g rest => exact hspine.1

/-- What is left open when a new element starts is not ended by it, or an element there was. -/
theorem Tidy.exists_ended (h : b.Tidy t) (hs : b.Sound t) (hx : Extends n b b₁) (h₁ : b₁.Tidy t)
    (hs₁ : b₁.Sound t) {m : FlatNode} (hname : m.tagName? t = some name)
    (hclosed : Frame.siblingTarget name b.stack = none ∧ b₁.stack = b.stack ∨
      ∃ f, f :: b₁.stack <:+ b.stack ∧ f.EndsAt name)
    (hends : (slot b₁.nodes b₁.parent).EndsAt t m) :
    ∃ f < b₁.nodes.size, (slot b₁.nodes f).parent = some b₁.parent ∧
      (slot b₁.nodes f).EndsAt t m := by
  rcases hclosed with ⟨hnone, hstack⟩ | ⟨f, hsuffix, opened, hopened, hf⟩
  · obtain ⟨opened, hopened, sibling, hsibling, hends⟩ := hends
    obtain rfl : name = sibling := Option.some.inj (hname.symm.trans hsibling)
    cases hs' : b₁.stack with
    | nil =>
        have hroot : (slot b₁.nodes b₁.parent).kind = .document := by
          unfold parent
          rw [hs']
          exact hs₁.document
        rw [FlatNode.tagName?_eq_none (by rw [hroot]; nofun)] at hopened
        cases hopened
    | cons g below =>
        have hparent : b₁.parent = g.node := by
          unfold parent
          rw [hs']
          rfl
        rw [hparent, (h₁.named g (hs' ▸ List.mem_cons_self)).2] at hopened
        rw [← hstack, hs'] at hnone
        exact absurd ⟨opened, hopened, hends⟩ (Frame.not_endsAt_of_siblingTarget hnone)
  · obtain ⟨hlt, hold⟩ := h.named f (hsuffix.subset List.mem_cons_self)
    refine ⟨f.node, hlt.trans_le hx.size, ?_, opened, ?_, name, hname, hf⟩
    · rw [hx.parent f.node hlt]
      exact hs.parent_eq hsuffix
    · rw [hx.tagName?_eq hlt, hold]
      exact hopened

theorem tidy_openTag (hs : b.Sound t) (h : b.Tidy t) :
    Build.Returns (b.openTag t) fun (name, element, _, b') =>
      b'.Tidy t ∧ element < b'.nodes.size ∧ (slot b'.nodes element).tagName? t = some name := by
  have hrefl : Extends 0 b b := .refl (Nat.zero_le _)
  unfold openTag
  refine Build.Returns.bind (P := (t.text (b.pos + 1) = .ok ·)) (fun _ => id) fun name htext => ?_
  refine ((hs.closeForSibling name).returns.and ((hrefl.closeForSibling name).returns.and
    (hs.stack_closeForSibling name))).bind fun b₁ ⟨⟨hs₁, hpos₁⟩, hx₁, hclosed⟩ => ?_
  have h₁ := h.extends hx₁
  refine (startIn_starts b₁ b₁.parent .element).returns.bind fun ⟨element, b₂⟩ hstarts => ?_
  have hname : (slot b₂.nodes element).tagName? t = some name := by
    unfold FlatNode.tagName?
    rw [if_pos hstarts.kind_eq, hstarts.tokenStart_eq, hpos₁, htext]
    rfl
  have hlt : element < b₂.nodes.size := lt_size_of_tagName? hname
  have hparent : b₁.parent < b₁.nodes.size := hs₁.reads.growing.lt_size
  have h₂ := h₁.starts hs₁.growing.linked hparent hstarts
    (h.exists_ended hs hx₁ h₁ hs₁ hname hclosed)
  have hinner : Inner t element b₂ b₂ := .refl
  refine Build.Returns.bind (fun _ => hinner.bump) fun b₃ h₃ => ?_
  refine (h₃.leaf (.inl rfl) rfl 1).bind fun ⟨_, b₄⟩ ⟨h₄, _⟩ => ?_
  refine (h₄.eatGenericArgs b.pos).bind fun b₅ h₅ => ?_
  refine h₅.tagItems.bind fun ⟨tagEnd, b₆⟩ h₆ => .ok ?_
  have hx₆ := h₆.extends
  exact ⟨h₂.extends hx₆, hlt.trans_le hx₆.size, (hx₆.tagName?_eq hlt).trans hname⟩

theorem tidy_startTag (hs : b.Sound t) (h : b.Tidy t) :
    Build.Returns (b.startTag t) (·.Tidy t) := by
  rw [startTag_eq]
  refine (tidy_openTag hs h).bind fun ⟨name, element, tagEnd, b'⟩ ⟨h', hlt, hname⟩ => ?_
  have hrefl : Extends 0 b' b' := .refl (Nat.zero_le _)
  refine .ite (fun _ => ?_) fun _ => .ite (fun _ => ?_) fun _ => ?_
  · exact (hrefl.unterminatedTag (Nat.zero_le _) b.pos name).returns.mono fun _ => h'.extends
  · have hempty := ensures_emptyElement (FlatNode.kind_of_tagName? hname) hlt ‹_›
    exact hempty.returns.mono fun b'' ⟨hx, _⟩ => h'.extends hx
  · exact Build.Returns.any.bind fun _ _ =>
      .ok (h'.pushFrame (f := ⟨element, .element name⟩) hlt hname)

/-! The whole tree -/

theorem tidy_openBlock (hs : b.Sound t) (h : b.Tidy t) (rule : BlockRule) (name : String) :
    Build.Returns (b.openBlock t rule name) (·.Tidy t) := by
  unfold openBlock
  refine Build.Returns.any.bind fun _ _ => ?_
  refine (startIn_starts b b.parent .directiveBlock).returns.bind fun ⟨block, b₁⟩ hstarts => ?_
  have hname : (slot b₁.nodes block).tagName? t = none := by
    refine FlatNode.tagName?_eq_none ?_
    rw [hstarts.kind_eq]
    nofun
  have hlt : block < b₁.nodes.size := by
    rw [hstarts.size, hstarts.id_eq]
    exact Nat.lt_succ_self _
  have h₁ : b₁.Tidy t := by
    refine h.starts hs.growing.linked hs.reads.growing.lt_size hstarts ?_
    rintro ⟨_, _, sibling, hsibling, _⟩
    rw [hname] at hsibling
    cases hsibling
  have hrefl : Extends 0 b₁ b₁ := .refl (Nat.zero_le _)
  refine (hrefl.directiveLeaf block .opener).returns.bind fun b₂ hx₂ => .ok ?_
  refine (h₁.extends hx₂).pushFrame (f := ⟨block, .directive rule name⟩) (hlt.trans_le hx₂.size) ?_
  exact (hx₂.tagName?_eq hlt).trans hname

theorem tidy_initial : initial.Tidy t where
  named := nofun
  spared c p hparent := by
    rw [slot_initial] at hparent
    cases hparent

theorem invariant_tidy (t : Tokenized) : Invariant t (Tidy t) where
  quiet _ _ h hx _ := h.extends hx
  startTag _ := tidy_startTag
  openBlock _ rule name hs h := tidy_openBlock hs h rule name

theorem spared_build (hext : t.options.treeExtensions = []) :
    Build.Returns (build t) (Spared t ·.nodes) :=
  ((invariant_tidy t).build hext tidy_initial).mono fun _ h => h.spared

end Builder
end BladeTree
