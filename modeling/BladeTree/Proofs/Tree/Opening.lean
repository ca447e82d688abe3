import BladeTree.Proofs.Tree.Limits

namespace BladeTree

def FlatNode.shape (n : FlatNode) : NodeKind × Nat × Option Nat × Bool :=
  (n.kind, n.tokenStart, n.parent, n.opensFrame)

def FrameKind.Fits (t : Tokenized) (k : NodeKind) (first : Nat) : FrameKind → Prop
  | .element name => k = .element ∧ t.text (first + 1) = .ok name
  | .directive rule name => k = .directiveBlock ∧ t.directiveName first = .ok name ∧
    BlockRule.find? name = some rule

theorem FrameKind.Fits.isFrame {t : Tokenized} {k : NodeKind} {first : Nat} {kind : FrameKind}
    (h : kind.Fits t k first) : k.isFrame := by
  cases kind with
  | element name =>
      rw [h.1]
      rfl
  | directive rule name =>
      rw [h.1]
      rfl

namespace Frame

def top (stack : List Frame) : Nat := stack.head?.elim Builder.root (·.node)

structure Holds (t : Tokenized) (nodes : Array FlatNode) (f : Frame) : Prop where
  lt : f.node < nodes.size
  opens : (slot nodes f.node).opensFrame
  fits : f.kind.Fits t (slot nodes f.node).kind (slot nodes f.node).tokenStart

def Nested (t : Tokenized) (nodes : Array FlatNode) : List Frame → Prop
  | [] => True
  | f :: below => f.Holds t nodes ∧ (slot nodes f.node).parent = some (top below) ∧
    Nested t nodes below

variable {t : Tokenized} {nodes : Array FlatNode} {f : Frame} {stack below : List Frame}

theorem Nested.suffix (h : Nested t nodes stack) (hs : below <:+ stack) :
    Nested t nodes below := by
  induction stack with
  | nil => rwa [List.suffix_nil.1 hs]
  | cons f rest ih =>
      rcases List.suffix_cons_iff.1 hs with rfl | hs
      · exact h
      · exact ih h.2.2 hs

theorem Nested.top_eq (h : Nested t nodes stack) :
    top stack = Builder.root ∨ (slot nodes (top stack)).opensFrame := by
  cases stack with
  | nil => exact .inl rfl
  | cons f below => exact .inr h.1.opens

end Frame

theorem FlatNode.shape_of_core {n m : FlatNode} (h : n.core = m.core) : n.shape = m.shape := by
  have hopens := opensFrame_of_core h
  simp only [core, Prod.mk.injEq] at h
  simp only [shape, h, hopens]

theorem FlatNode.isFrame_of_opensFrame {n : FlatNode} (h : n.opensFrame) : n.kind.isFrame := by
  simp only [opensFrame, Bool.or_eq_true, Bool.and_eq_true] at h
  simp only [NodeKind.isFrame, Bool.or_eq_true]
  exact h.imp id And.left

theorem FlatNode.lt_size_of_opensFrame {nodes : Array FlatNode} {i : Nat}
    (h : (slot nodes i).opensFrame) : i < nodes.size := by
  by_contra hi
  have hslot : slot nodes i = .unlinked .document 0 := by
    unfold slot
    rw [Array.getD_eq_getD_getElem?, getElem?_neg nodes i hi]
    rfl
  rw [hslot] at h
  cases h

namespace Builder

structure Keeps (start b : Builder) : Prop where
  size : start.nodes.size ≤ b.nodes.size
  shape : ∀ i < start.nodes.size, (slot b.nodes i).shape = (slot start.nodes i).shape
  logged : start.diagnostics.toList <+: b.diagnostics.toList

/-- What an item of content does to the tree: frames are closed down to `below`, and at most one is
opened above them. -/
structure Grows (t : Tokenized) (opened : Option Frame) (below : List Frame)
    (start b : Builder) : Prop where
  keeps : Keeps start b
  closed : below <:+ start.stack
  stack : b.stack = opened.toList ++ below
  /-- New blocks and elements stand under what is left open. -/
  parent : ∀ i, start.nodes.size ≤ i → i < b.nodes.size → (slot b.nodes i).kind.isFrame →
    (slot b.nodes i).parent = some (Frame.top below)
  opens : ∀ i, start.nodes.size ≤ i → i < b.nodes.size → (slot b.nodes i).opensFrame →
    ∃ f, opened = some f ∧ f.node = i
  holds : ∀ f, opened = some f → f.Holds t b.nodes ∧ start.nodes.size ≤ f.node ∧
    (slot b.nodes f.node).tokenStart = start.pos

/-- `b'` is `b` with frames closed and one more node `id`, which is still open; since then the
first `n` nodes have kept what tells whether they opened a frame. -/
inductive Opening (b : Builder) (kind : NodeKind) (n id : Nat) (b' : Builder) : Prop
  | intro (b₁ b₂ : Builder) (closed : Extends b.nodes.size b b₁) (pos : b₁.pos = b.pos)
      (starts : b₁.Starts b₁.parent kind id b₂) (grown : Extends n b₂ b')
      (stack : b'.stack = b₁.stack)

variable {t : Tokenized} {start b b' b'' : Builder} {kind : NodeKind} {n m id : Nat}

theorem Extends.trans (h : Extends n start b) (h' : Extends m b b') (hnm : n ≤ m) :
    Extends n start b' := by
  refine ⟨h.bound, h.size.trans h'.size, fun i hi => ?_, fun i hi => ?_, fun i hi => ?_,
    fun i hi => ?_, fun i hi hlt => ?_, h'.stack.trans h.stack, h.logged.trans h'.logged⟩
  · exact (h'.kind i (hi.trans_le h.size)).trans (h.kind i hi)
  · exact (h'.tokenStart i (hi.trans_le h.size)).trans (h.tokenStart i hi)
  · exact (h'.parent i (hi.trans_le h.size)).trans (h.parent i hi)
  · exact (h'.opens i (hi.trans_le hnm)).trans (h.opens i hi)
  · rcases Nat.lt_or_ge i b.nodes.size with hb | hb
    · rw [h'.kind i hb]
      exact h.fresh i hi hb
    · exact h'.fresh i hb hlt

theorem Extends.mono (h : Extends n start b) (hmn : m ≤ n) : Extends m start b :=
  { h with
    bound := hmn.trans h.bound
    opens := fun i hi => h.opens i (hi.trans_le hmn) }

theorem Extends.shape (h : Extends n start b) {i : Nat} (hi : i < n) :
    (slot b.nodes i).shape = (slot start.nodes i).shape := by
  have hlt : i < start.nodes.size := hi.trans_le h.bound
  simp only [FlatNode.shape, h.kind i hlt, h.tokenStart i hlt, h.parent i hlt, h.opens i hi]

theorem Extends.not_opensFrame (h : Extends n start b) {i : Nat} (hi : start.nodes.size ≤ i)
    (hlt : i < b.nodes.size) : ¬ (slot b.nodes i).opensFrame := by
  intro hopens
  have := FlatNode.isFrame_of_opensFrame hopens
  rw [h.fresh i hi hlt] at this
  cases this

theorem Extends.grows (h : Extends start.nodes.size start b) : Grows t none b.stack start b where
  keeps := ⟨h.size, fun _ hi => h.shape hi, h.logged⟩
  closed := h.stack
  stack := rfl
  parent i hi hlt hframe := by
    rw [h.fresh i hi hlt] at hframe
    cases hframe
  opens i hi hlt hopens := absurd hopens (h.not_opensFrame hi hlt)
  holds := nofun

namespace Opening

variable (h : Opening b kind n id b')
include h

theorem extend (h' : Extends m b' b'') (hnm : n ≤ m) (hstack : b''.stack = b'.stack) :
    Opening b kind n id b'' := by
  obtain ⟨b₁, b₂, hclosed, hpos, hstarts, hgrown, hs⟩ := h
  exact ⟨b₁, b₂, hclosed, hpos, hstarts, hgrown.trans h' hnm, hstack.trans hs⟩

theorem mono (hmn : m ≤ n) : Opening b kind m id b' := by
  obtain ⟨b₁, b₂, hclosed, hpos, hstarts, hgrown, hs⟩ := h
  exact ⟨b₁, b₂, hclosed, hpos, hstarts, hgrown.mono hmn, hs⟩

theorem bounds : b.nodes.size ≤ id ∧ id < b'.nodes.size := by
  obtain ⟨b₁, b₂, hclosed, -, hstarts, hgrown, -⟩ := h
  have hid := hstarts.id_eq
  have hsize := hstarts.size
  have := hclosed.size
  have := hgrown.size
  omega

theorem below : b'.stack <:+ b.stack := by
  obtain ⟨b₁, b₂, hclosed, -, -, -, hs⟩ := h
  exact hs ▸ hclosed.stack

theorem logged : b.diagnostics.toList <+: b'.diagnostics.toList := by
  obtain ⟨b₁, b₂, hclosed, -, hstarts, hgrown, -⟩ := h
  have hlog : b₂.diagnostics = b₁.diagnostics := by rw [hstarts.rest]
  exact (hclosed.logged.trans (hlog ▸ List.prefix_refl _)).trans hgrown.logged

theorem shape (hn : id ≤ n) {i : Nat} (hi : i < b.nodes.size) :
    (slot b'.nodes i).shape = (slot b.nodes i).shape := by
  obtain ⟨b₁, b₂, hclosed, -, hstarts, hgrown, -⟩ := h
  have hid := hstarts.id_eq
  have hlt : i < b₁.nodes.size := hi.trans_le hclosed.size
  rw [hgrown.shape (by omega), FlatNode.shape_of_core (hstarts.old i hlt), hclosed.shape hi]

theorem node : (slot b'.nodes id).kind = kind ∧ (slot b'.nodes id).tokenStart = b.pos ∧
    (slot b'.nodes id).parent = some (Frame.top b'.stack) := by
  obtain ⟨b₁, b₂, -, hpos, hstarts, hgrown, hs⟩ := h
  have hlt : id < b₂.nodes.size := by
    rw [hstarts.size, hstarts.id_eq]
    exact Nat.lt_succ_self _
  refine ⟨(hgrown.kind id hlt).trans hstarts.kind_eq, ?_, ?_⟩
  · rw [hgrown.tokenStart id hlt, hstarts.tokenStart_eq, hpos]
  · rw [hgrown.parent id hlt, hstarts.parent_eq, hs]
    rfl

theorem eq_of_isFrame {i : Nat} (hi : b.nodes.size ≤ i) (hlt : i < b'.nodes.size)
    (hframe : (slot b'.nodes i).kind.isFrame) : i = id := by
  obtain ⟨b₁, b₂, hclosed, -, hstarts, hgrown, -⟩ := h
  have hid := hstarts.id_eq
  have hsize := hstarts.size
  by_contra hne
  have hfalse : (slot b'.nodes i).kind.isFrame = false := by
    rcases Nat.lt_or_ge i b₂.nodes.size with hb | hb
    · have hb : i < b₁.nodes.size := by omega
      have hkind : (slot b₂.nodes i).kind = (slot b₁.nodes i).kind :=
        congrArg (·.1) (hstarts.old i hb)
      rw [hgrown.kind i (by omega), hkind]
      exact hclosed.fresh i hi hb
    · exact hgrown.fresh i hb hlt
  rw [hfalse] at hframe
  cases hframe

theorem opensFrame (hn : id < n) (hkind : kind.isFrame) : (slot b'.nodes id).opensFrame := by
  obtain ⟨b₁, b₂, -, -, hstarts, hgrown, -⟩ := h
  rw [hgrown.opens id hn]
  simp only [NodeKind.isFrame, Bool.or_eq_true] at hkind
  simp only [FlatNode.opensFrame, FlatNode.hasFlag, hstarts.kind_eq, hstarts.data_eq]
  rcases hkind with hkind | hkind
  · rw [hkind]
    rfl
  · rw [hkind]
    exact Bool.or_true _

theorem grows_of_not_opensFrame (hn : id ≤ n) (hopens : (slot b'.nodes id).opensFrame = false) :
    Grows t none b'.stack b b' where
  keeps := ⟨(h.bounds.1.trans_lt h.bounds.2).le, fun _ hi => h.shape hn hi, h.logged⟩
  closed := h.below
  stack := rfl
  parent i hi hlt hframe := h.eq_of_isFrame hi hlt hframe ▸ h.node.2.2
  opens i hi hlt hi' := by
    have hid := h.eq_of_isFrame hi hlt (FlatNode.isFrame_of_opensFrame hi')
    rw [hid, hopens] at hi'
    cases hi'
  holds := nofun

theorem grows_of_pushFrame (hn : id < n) (hc : b'.Counted) {f : Frame} (hf : f.node = id)
    (hfits : f.kind.Fits t kind b.pos) : Grows t (some f) b'.stack b (b'.pushFrame f) := by
  subst hf
  obtain ⟨hkind, hstart, hparent⟩ := h.node
  rw [pushFrame_eq hc]
  refine ⟨⟨(h.bounds.1.trans_lt h.bounds.2).le, fun _ hi => h.shape hn.le hi, h.logged⟩, h.below,
    rfl, fun i hi hlt hi' => ?_, fun i hi hlt hi' => ?_, ?_⟩
  · exact h.eq_of_isFrame hi hlt hi' ▸ hparent
  · exact ⟨f, rfl, (h.eq_of_isFrame hi hlt (FlatNode.isFrame_of_opensFrame hi')).symm⟩
  · rintro _ ⟨⟩
    rw [← hkind, ← hstart] at hfits
    exact ⟨⟨h.bounds.2, h.opensFrame hn (hkind ▸ hfits.isFrame), hfits⟩, h.bounds.1, hstart⟩

end Opening

theorem Keeps.refl (b : Builder) : Keeps b b := ⟨le_rfl, fun _ _ => rfl, List.prefix_refl _⟩

theorem Keeps.trans (h : Keeps start b) (h' : Keeps b b') : Keeps start b' where
  size := h.size.trans h'.size
  shape i hi := (h'.shape i (hi.trans_le h.size)).trans (h.shape i hi)
  logged := h.logged.trans h'.logged

theorem Keeps.fields (h : Keeps start b) {i : Nat} (hi : i < start.nodes.size) :
    (slot b.nodes i).kind = (slot start.nodes i).kind ∧
      (slot b.nodes i).tokenStart = (slot start.nodes i).tokenStart ∧
      (slot b.nodes i).parent = (slot start.nodes i).parent ∧
      (slot b.nodes i).opensFrame = (slot start.nodes i).opensFrame := by
  have hshape := h.shape i hi
  simp only [FlatNode.shape, Prod.mk.injEq] at hshape
  exact hshape

theorem Keeps.holds (h : Keeps start b) {f : Frame} (hf : f.Holds t start.nodes) :
    f.Holds t b.nodes := by
  obtain ⟨hkind, hstart, -, hopens⟩ := h.fields hf.lt
  refine ⟨hf.lt.trans_le h.size, hopens.trans hf.opens, ?_⟩
  rw [hkind, hstart]
  exact hf.fits

theorem Keeps.nested (h : Keeps start b) {stack : List Frame}
    (hs : Frame.Nested t start.nodes stack) : Frame.Nested t b.nodes stack := by
  induction stack with
  | nil => trivial
  | cons f rest ih =>
      obtain ⟨hf, hparent, hrest⟩ := hs
      exact ⟨h.holds hf, (h.fields hf.lt).2.2.1.trans hparent, ih hrest⟩

theorem Grows.nested {opened : Option Frame} {below : List Frame}
    (h : Grows t opened below start b) (hs : Frame.Nested t start.nodes start.stack) :
    Frame.Nested t b.nodes b.stack := by
  have hbelow := h.keeps.nested (hs.suffix h.closed)
  rw [h.stack]
  cases opened with
  | none => exact hbelow
  | some f =>
      obtain ⟨hf, hle, -⟩ := h.holds f rfl
      exact ⟨hf, h.parent _ hle hf.lt (FlatNode.isFrame_of_opensFrame hf.opens), hbelow⟩

end Builder
end BladeTree
