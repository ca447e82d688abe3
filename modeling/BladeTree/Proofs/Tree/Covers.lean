import BladeTree.Proofs.Tree.Filed
import BladeTree.Proofs.Tree.TagEnd

namespace BladeTree

theorem Outline.Spine.exists_child {a : Outline} {path : List Nat} {c i : Nat}
    (h : a.Spine (c :: path)) (hi : i ∈ path) : ∃ d ∈ c :: path, a.parent d = some i := by
  induction path generalizing c with
  | nil => cases hi
  | cons q rest ih =>
      rcases List.mem_cons.1 hi with rfl | hi
      · exact ⟨c, List.mem_cons_self, h.1⟩
      · obtain ⟨d, hd, hparent⟩ := ih h.2 hi
        exact ⟨d, List.mem_cons_of_mem _ hd, hparent⟩

namespace Builder

variable {t : Tokenized} {b b' b₁ b₂ b₃ : Builder} {n i j id element : Nat} {kind : NodeKind}
  {name : String}

def Spans (b : Builder) (i j : Nat) : Prop :=
  (slot b.nodes i).tokenStart ≤ j ∧ (i ∈ b.openPath ∨ j < (slot b.nodes i).tokenEnd)

/-- From `b` to `b'` the old nodes have kept their tokens, and a child of each has the next tokens
that the node itself has: an open child or a new one. New children begin with those tokens, and none
of them is an attribute. -/
structure Covers (b b' : Builder) : Prop where
  widens : Widens b.nodes.size b b'
  final : Final b b'
  le : b.pos ≤ b'.pos
  spans : ∀ i < b.nodes.size, ∀ j < b.pos, b'.Spans i j ↔ b.Spans i j
  child : ∀ i < b.nodes.size, ∀ j, b.pos ≤ j → j < b'.pos → b'.Spans i j →
    ∃ c, (slot b'.nodes c).parent = some i ∧ b'.Spans c j ∧ (c ∈ b.openPath ∨ b.nodes.size ≤ c)
  fresh : ∀ c i, b.nodes.size ≤ c → (slot b'.nodes c).parent = some i → i < b.nodes.size →
    b.pos ≤ (slot b'.nodes c).tokenStart ∧ (slot b'.nodes c).kind ≠ .attr

theorem spans_iff (hw : Widens n b b') (hf : Final b b')
    (hleft : ∀ i ∈ b.openPath, i ∈ b'.openPath ∨ b.pos ≤ (slot b'.nodes i).tokenEnd)
    (hi : i < b.nodes.size) (hj : j < b.pos) : b'.Spans i j ↔ b.Spans i j := by
  unfold Spans
  rw [hw.tokenStart_eq hi]
  refine and_congr_right fun _ => ?_
  by_cases hopen : i ∈ b.openPath
  · exact iff_of_true ((hleft i hopen).imp_right hj.trans_le) (.inl hopen)
  · have hend : (slot b'.nodes i).tokenEnd = (slot b.nodes i).tokenEnd :=
      (congrArg FlatNode.tokenEnd (hf.own i hi hopen) :)
    have hclosed : i ∉ b'.openPath := fun hmem => hopen (hf.opened i hmem hi)
    rw [hend, or_iff_right hclosed, or_iff_right hopen]

theorem Covers.of_size (hw : Widens b.nodes.size b b') (hf : Final b b')
    (hsize : b'.nodes.size = b.nodes.size) (hpos : b'.pos = b.pos)
    (hleft : ∀ i ∈ b.openPath, i ∈ b'.openPath ∨ b.pos ≤ (slot b'.nodes i).tokenEnd) :
    Covers b b' where
  widens := hw
  final := hf
  le := hpos.ge
  spans _ hi _ hj := spans_iff hw hf hleft hi hj
  child _ _ _ hle hlt := absurd hle (Nat.not_le_of_lt (hpos ▸ hlt))
  fresh _ _ hc hp := absurd hc (Nat.not_le_of_lt (hsize ▸ lt_size_of_parent hp))

theorem Covers.leave {f : Frame} {g : FlatNode → FlatNode} {below : List Frame}
    (hs : b.stack = f :: below) (hstack : b'.stack = below) (hpos : b'.pos = b.pos)
    (hw : Widens b.nodes.size b b') (hf : Final b b') (ha : b.Alters f.node g b')
    (hstop : ∀ m, b.pos ≤ (g m).tokenEnd) : Covers b b' := by
  refine .of_size hw hf ha.size hpos fun i hi => ?_
  rw [openPath_of_pop hs hstack, List.mem_cons] at hi
  rcases hi with rfl | hi
  · right
    rw [ha.self]
    exact hstop _
  · exact .inl hi

/-! New nodes -/

/-- From `b` to `b'` the next tokens were taken into a new node of this kind under the innermost
open one. It is open or ends with them, and all other new nodes are below it and no elements. -/
structure Adds (b : Builder) (kind : NodeKind) (b' : Builder) : Prop where
  widens : Widens b.nodes.size b b'
  final : Final b b'
  le : b.pos ≤ b'.pos
  opened : b.openPath ⊆ b'.openPath
  parent : (slot b'.nodes b.nodes.size).parent = some b.parent
  start : (slot b'.nodes b.nodes.size).tokenStart = b.pos
  kind_eq : (slot b'.nodes b.nodes.size).kind = kind
  whole : b.nodes.size ∈ b'.openPath ∨ (slot b'.nodes b.nodes.size).tokenEnd = b'.pos
  under : ∀ c i, b.nodes.size < c → (slot b'.nodes c).parent = some i → b.nodes.size ≤ i
  inner : ∀ c, b.nodes.size < c → (slot b'.nodes c).kind ≠ .element

namespace Adds

theorem eq_of_parent (h : b.Adds kind b') {c i : Nat} (hc : b.nodes.size ≤ c)
    (hp : (slot b'.nodes c).parent = some i) (hi : i < b.nodes.size) : c = b.nodes.size := by
  by_contra hne
  exact absurd (h.under c i (Nat.lt_of_le_of_ne hc (Ne.symm hne)) hp) (Nat.not_le_of_lt hi)

theorem covers (h : b.Adds kind b') (hs : b.Sound t) (hk : kind ≠ .attr) : Covers b b' where
  widens := h.widens
  final := h.final
  le := h.le
  spans _ hi _ hj := spans_iff h.widens h.final (fun _ hmem => .inl (h.opened hmem)) hi hj
  child i hi j hle hlt hspans := by
    have hopen : i ∈ b.openPath := by
      by_contra hclosed
      have hend : (slot b'.nodes i).tokenEnd = (slot b.nodes i).tokenEnd :=
        (congrArg FlatNode.tokenEnd (h.final.own i hi hclosed) :)
      have hbefore : (slot b.nodes i).tokenEnd ≤ b.pos := hs.growing.taken i hi
      have hafter := hspans.2.resolve_left fun hmem => hclosed (h.final.opened i hmem hi)
      exact absurd (hend ▸ hafter) (Nat.not_lt_of_le (hbefore.trans hle))
    rw [openPath_eq, List.mem_cons] at hopen
    rcases hopen with rfl | houter
    · refine ⟨b.nodes.size, h.parent, ⟨h.start.trans_le hle, ?_⟩, .inr le_rfl⟩
      exact h.whole.imp_right fun hend => hlt.trans_eq hend.symm
    · have hspine := hs.growing.spine
      rw [openPath_eq] at hspine
      obtain ⟨c, hc, hp⟩ := hspine.exists_child houter
      rw [← openPath_eq] at hc
      have hlt : c < b.nodes.size := (hs.growing.linked.below c i hp).2
      have hstart : (slot b.nodes c).tokenStart ≤ b.pos := hs.growing.start_le hlt
      refine ⟨c, (h.widens.parent_eq hlt).trans hp, ⟨?_, .inl (h.opened hc)⟩, .inl hc⟩
      rw [h.widens.tokenStart_eq hlt]
      exact hstart.trans hle
  fresh c i hc hp hi := by
    obtain rfl := h.eq_of_parent hc hp hi
    exact ⟨h.start.ge, h.kind_eq.trans_ne hk⟩

end Adds

namespace Appends

theorem adds (h : b.Appends b.parent kind b') (hw : Widens b.nodes.size b b')
    (hle : b.pos ≤ b'.pos) : b.Adds kind b' where
  widens := hw
  final := h.final
  le := hle
  opened := (openPath_congr h.stack).symm ▸ List.Subset.refl _
  parent := congrArg (·.2.2) h.origin
  start := congrArg (·.2.1) h.origin
  kind_eq := congrArg (·.1) h.origin
  whole := .inr h.stop
  under _ _ hc hp := absurd (lt_size_of_parent hp) (Nat.not_lt_of_le (h.size.trans_le hc))
  inner c hc hk := by
    have hlt : c < b'.nodes.size := lt_size_of_kind (by rw [hk]; nofun)
    exact absurd hlt (Nat.not_lt_of_le (h.size.trans_le hc))

theorem of_calm {K : NodeKind → Prop} (h : b.Appends b.parent kind b') (hc : Calm K b b') :
    b.Adds kind b' := h.adds hc.widens hc.pos

end Appends

/-! Content that adds a node -/

theorem appends_leaf (b : Builder) (q : Nat) (kind : NodeKind) (n : Nat) :
    Build.Returns (b.leaf t q kind n) (b.Appends q kind ·.2) := by
  unfold leaf
  refine Build.Returns.bind (P := (b.startIn q kind = .ok ·)) (fun _ => id) fun ⟨id, b₁⟩ h₁ => ?_
  refine (bumpMany_eq b₁ n).bind fun b₂ hb₂ => ?_
  refine Build.Returns.bind (P := (b₂.finish id = .ok ·)) (fun _ hb => hb) fun b₃ h₃ => .ok ?_
  subst hb₂
  exact .of_steps h₁ rfl (Nat.le_add_right _ _) h₃

theorem adds_leaf (b : Builder) (kind : NodeKind) (n : Nat) :
    Build.Returns (b.leaf t b.parent kind n) (b.Adds kind ·.2) := by
  have hcalm : Calm (fun _ => True) b b := .refl b
  exact ((appends_leaf b _ kind n).and (hcalm.leaf (.inl b.parent_mem_openPath) trivial n)).mono
    fun _ ⟨h, hc, _⟩ => h.of_calm hc

theorem adds_directiveLeaf (b : Builder) (role : DirectiveRole) :
    Build.Returns (b.directiveLeaf t b.parent role) (b.Adds .directive) := by
  refine (returns_places b role).mono fun b' ⟨h, hpos⟩ => ?_
  have happends : b.Appends b.parent .directive b' := by
    refine ⟨h.final, h.stack, h.size, ?_, ?_⟩
    · rw [FlatNode.origin, h.kind_eq, h.tokenStart_eq, h.parent_eq]
    · rw [hpos]
      exact (congrArg FlatNode.tokenEnd h.own :)
  exact happends.adds h.widens (hpos ▸ Nat.le_add_right _ _)

theorem adds_construct (b : Builder) {kind : TokenType} (hdirective : kind ≠ .directive)
    (hopens : kind = .lessThan →
      t.kind? (b.pos + 1) ≠ some .slash ∧ t.kind? (b.pos + 1) ≠ some .tagName) :
    Build.Returns (b.construct t kind) fun b' =>
      ∃ node, node ≠ .attr ∧ node ≠ .element ∧ b.Adds node b' := by
  have hcalm : Calm (fun _ => True) b b := .refl b
  have hread {x : Build Builder} {node : NodeKind} {content stopType : TokenType}
      (hx : Build.Returns x (ReadsDelimited t b.parent node content stopType b))
      (hk : node ≠ .attr ∧ node ≠ .element) :
      Build.Returns x fun b' => ∃ node, node ≠ .attr ∧ node ≠ .element ∧ b.Adds node b' :=
    hx.mono fun b' h => ⟨node, hk.1, hk.2,
      h.appends.of_calm (hcalm.delimitedPart (.inl b.parent_mem_openPath) trivial h)⟩
  have hleaf (node : NodeKind) (n : Nat) (hk : node ≠ .attr ∧ node ≠ .element) :
      Build.Returns (do return (← b.leaf t b.parent node n).2) fun b' =>
        ∃ node, node ≠ .attr ∧ node ≠ .element ∧ b.Adds node b' :=
    (adds_leaf b node n).bind fun _ h => .ok ⟨node, hk.1, hk.2, h⟩
  unfold Builder.construct
  split
  · rw [if_neg (hopens rfl).1, if_neg (hopens rfl).2]
    exact hleaf .text _ ⟨nofun, nofun⟩
  · exact hread (reads_echo b _ _ _ _) ⟨nofun, nofun⟩
  · exact hread (reads_echo b _ _ _ _) ⟨nofun, nofun⟩
  · exact hread (reads_echo b _ _ _ _) ⟨nofun, nofun⟩
  · exact hread (reads_delimited b _ _ _ _ _) ⟨nofun, nofun⟩
  · exact hread (reads_delimited b _ _ _ _ _) ⟨nofun, nofun⟩
  · exact hleaf .bogusComment 1 ⟨nofun, nofun⟩
  · exact hleaf .doctype 1 ⟨nofun, nofun⟩
  · exact hleaf .cdata 1 ⟨nofun, nofun⟩
  · exact hread (reads_delimited b _ _ _ _ _) ⟨nofun, nofun⟩
  · exact hread (reads_delimited b _ _ _ _ _) ⟨nofun, nofun⟩
  · exact hread (reads_verbatim b _) ⟨nofun, nofun⟩
  · exact absurd rfl hdirective
  · exact hleaf .text _ ⟨nofun, nofun⟩

theorem adds_openBlock (b : Builder) (rule : BlockRule) (name : String) :
    Build.Returns (b.openBlock t rule name) (b.Adds .directiveBlock) := by
  unfold Builder.openBlock
  refine Build.Returns.any.bind fun _ _ => ?_
  have hcalm : Calm (fun _ => True) b b := .refl b
  refine ((hcalm.startIn (.inl b.parent_mem_openPath) trivial).and
    (startIn_starts b b.parent .directiveBlock).returns).bind fun ⟨block, b₁⟩ hstarted => ?_
  obtain ⟨⟨h₁, hnew⟩, hstarts⟩ := hstarted
  have hid := hstarts.id_eq
  subst hid
  have hinner : Inner t b.nodes.size b₁ b₁ := .refl
  refine (hinner.directiveLeaf (.inl rfl) .opener).bind fun b₂ h₂ => .ok ?_
  have hlt : b.nodes.size < b₁.nodes.size := hstarts.size ▸ Nat.lt_succ_self _
  have hcalm₂ := h₁.inner h₂ (.inr hnew) fun _ _ => trivial
  obtain ⟨hnodes, hstack⟩ := nodes_pushFrame b₂ ⟨b.nodes.size, .directive rule name⟩
  have hpos : (b₂.pushFrame ⟨b.nodes.size, .directive rule name⟩).pos = b₂.pos := by
    rw [b₂.pushFrame_rest]
  have hopen : (b₂.pushFrame ⟨b.nodes.size, .directive rule name⟩).openPath =
      b.nodes.size :: b.openPath := by
    unfold openPath
    rw [hstack, hcalm₂.stack]
    rfl
  refine ⟨hcalm₂.widens.trans (.pushFrame hnew), hcalm₂.final.pushFrame hnew,
    hcalm₂.pos.trans_eq hpos.symm, ?_, ?_, ?_, ?_, .inl ?_, fun c i hc hp => ?_, fun c hc hk => ?_⟩
  · rw [hopen]
    exact List.subset_cons_self _ _
  · rw [hnodes]
    exact (h₂.extends.parent _ hlt).trans hstarts.parent_eq
  · rw [hnodes]
    exact (h₂.extends.tokenStart _ hlt).trans hstarts.tokenStart_eq
  · rw [hnodes]
    exact (h₂.extends.kind _ hlt).trans hstarts.kind_eq
  · rw [hopen]
    exact List.mem_cons_self
  · rw [hnodes] at hp
    rcases h₂.parent_of_new (hstarts.size.trans_le hc) hp with rfl | ⟨hge, -⟩
    · exact le_rfl
    · exact hlt.le.trans hge
  · rw [hnodes] at hk
    have hlt' : c < b₂.nodes.size := lt_size_of_kind (by rw [hk]; nofun)
    have hplain := h₂.isPlain_of_new (hstarts.size.trans_le hc) hlt'
    rw [hk] at hplain
    cases hplain

theorem Settles.adds {f : FlatNode → FlatNode} {frames : List Frame}
    (h : Settles t b₁ b₂ name element f frames b₃) (hread : b₁.ReadsTag t name element b₂)
    (hwhole : element ∈ b₃.openPath ∨ (slot b₃.nodes element).tokenEnd = b₃.pos) :
    b₁.Adds .element b₃ := by
  obtain rfl := hread.id_eq
  refine ⟨h.changes.steady.toWidens, h.changes.final, hread.calm.pos.trans_eq h.pos.symm, ?_,
    h.parent hread, h.tokenStart hread, (h.titled hread).kind, hwhole, fun c i hlt hp => ?_,
    fun c hlt hk => ?_⟩
  · rw [h.openPath_eq]
    exact List.subset_append_right _ _
  · exact hread.under c i hlt ((h.parent_eq c).symm.trans hp)
  · rw [h.kind_eq] at hk
    have hplain := hread.plain c hlt (lt_size_of_kind (by rw [hk]; nofun))
    rw [hk] at hplain
    cases hplain

end Builder
end BladeTree
