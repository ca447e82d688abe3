import BladeTree.Proofs.Tree.Reads

namespace BladeTree

def Frame.counts (counter : DepthCounter) (f : Frame) : Bool :=
  match counter, f.kind with
  | .elements, .element _ => true
  | .directives, .directive _ _ => true
  | .conditions, .directive rule _ => rule.conditional
  | _, _ => false

namespace Builder

/-- The open nodes, the innermost first. -/
def openPath (b : Builder) : List Nat := b.stack.map (·.node) ++ [root]

def outerPath (b : Builder) : List Nat := (b.openPath).tail

/-- The depths are those of the stack. -/
def Counted (b : Builder) : Prop :=
  ∀ counter, b.depth counter = b.stack.countP (Frame.counts counter)

/-- A builder between two items of content. -/
structure Sound (t : Tokenized) (b : Builder) : Prop where
  growing : (outline b.nodes).Growing b.openPath b.pos
  fits : b.pos ≤ t.size
  document : (slot b.nodes 0).kind = .document
  counted : b.Counted

variable {t : Tokenized} {start b : Builder} {f : Frame} {below : List Frame}

theorem openPath_eq (b : Builder) : b.openPath = b.parent :: b.outerPath := by
  unfold outerPath openPath parent
  cases b.stack <;> rfl

theorem Sound.reads (h : b.Sound t) : Reads t b (b.parent :: b.outerPath) b where
  growing := b.openPath_eq ▸ h.growing
  fits := h.fits
  document := h.document
  le := le_rfl
  frames := rfl

theorem Reads.stack_eq {path : List Nat} (h : Reads t start path b) : b.stack = start.stack :=
  congrArg Prod.fst h.frames

theorem Reads.depth_eq {path : List Nat} (h : Reads t start path b) (counter : DepthCounter) :
    b.depth counter = start.depth counter := by
  have := h.frames
  simp only [Builder.frames, Prod.mk.injEq] at this
  obtain ⟨-, helements, hdirectives, hconditions⟩ := this
  cases counter <;> assumption

theorem Reads.counted {path : List Nat} (h : Reads t start path b) (hc : start.Counted) :
    b.Counted := by
  intro counter
  rw [h.depth_eq, h.stack_eq]
  exact hc counter

theorem Reads.sound (h : Reads t start (start.parent :: start.outerPath) b)
    (hc : start.Counted) : b.Sound t where
  growing := by
    have hpath : b.openPath = start.openPath := by rw [openPath, openPath, h.stack_eq]
    rw [hpath, openPath_eq]
    exact h.growing
  fits := h.fits
  document := h.document
  counted := h.counted hc

def withStack (b : Builder) (stack : List Frame) : Builder :=
  { b with
    stack
    elements := stack.countP (Frame.counts .elements)
    directives := stack.countP (Frame.counts .directives)
    conditions := stack.countP (Frame.counts .conditions) }

theorem counted_withStack (b : Builder) (stack : List Frame) : (b.withStack stack).Counted := by
  intro counter
  cases counter <;> rfl

theorem Counted.elements (h : b.Counted) : b.elements = b.stack.countP (Frame.counts .elements) :=
  h .elements

theorem Counted.directives (h : b.Counted) :
    b.directives = b.stack.countP (Frame.counts .directives) :=
  h .directives

theorem Counted.conditions (h : b.Counted) :
    b.conditions = b.stack.countP (Frame.counts .conditions) :=
  h .conditions

theorem pushFrame_eq (h : b.Counted) (f : Frame) : b.pushFrame f = b.withStack (f :: b.stack) := by
  obtain ⟨node, kind⟩ := f
  unfold pushFrame withStack
  rw [List.countP_cons, List.countP_cons, List.countP_cons, ← h.elements, ← h.directives,
    ← h.conditions]
  cases kind with
  | element => rfl
  | directive rule => cases hc : rule.conditional <;> simp [Frame.counts, hc]

theorem countDown_succ (n : Nat) : countDown (n + 1) = .ok n := rfl

theorem popFrame_eq (h : b.Counted) (hs : b.stack = f :: below) (stop : Nat) :
    b.popFrame stop = (some f, ·) <$> (b.withStack below).finishAt f.node stop := by
  obtain ⟨node, kind⟩ := f
  unfold popFrame
  have helements := h.elements
  have hdirectives := h.directives
  have hconditions := h.conditions
  rw [hs, List.countP_cons] at helements hdirectives hconditions
  rw [hs]
  cases kind with
  | element =>
      simp only [Frame.counts, ↓reduceIte, Bool.false_eq_true, Nat.add_zero]
        at helements hdirectives hconditions
      simp only [helements, countDown_succ, ok_bind]
      rw [withStack, ← hdirectives, ← hconditions]
      rfl
  | directive rule =>
      cases hc : rule.conditional with
      | false =>
          simp only [Frame.counts, hc, ↓reduceIte, Bool.false_eq_true, Nat.add_zero]
            at helements hdirectives hconditions
          simp only [hc, hdirectives, countDown_succ, ok_bind, Bool.false_eq_true, ↓reduceIte]
          rw [withStack, ← helements, ← hconditions]
          rfl
      | true =>
          simp only [Frame.counts, hc, ↓reduceIte, Bool.false_eq_true, Nat.add_zero]
            at helements hdirectives hconditions
          simp only [hc, hdirectives, hconditions, countDown_succ, ok_bind, ↓reduceIte]
          rw [withStack, ← helements]
          rfl

theorem Reads.pushFrame (h : Reads t start (f.node :: start.parent :: start.outerPath) b)
    (hc : start.Counted) : (b.pushFrame f).Sound t ∧ (b.pushFrame f).pos = b.pos := by
  rw [pushFrame_eq (h.counted hc)]
  refine ⟨⟨?_, h.fits, h.document, counted_withStack b _⟩, rfl⟩
  have hpath : (b.withStack (f :: b.stack)).openPath = f.node :: start.openPath := by
    rw [openPath, withStack, h.stack_eq]
    rfl
  rw [hpath, openPath_eq]
  exact h.growing

namespace Sound

variable (h : b.Sound t)
include h

theorem readsBelow (hs : b.stack = f :: below) :
    Reads t (b.withStack below)
      (f.node :: (b.withStack below).parent :: (b.withStack below).outerPath)
      (b.withStack below) where
  growing := by
    have hpath : b.openPath = f.node :: (b.withStack below).openPath := by
      rw [openPath, hs]
      rfl
    rw [← openPath_eq, ← hpath]
    exact h.growing
  fits := h.fits
  document := h.document
  le := le_rfl
  frames := rfl

theorem popFrame :
    t.Yields (b.popFrame b.pos) fun (popped, b') => b'.Sound t ∧ b'.pos = b.pos ∧
      popped = b.stack.head? ∧ b'.stack = b.stack.tail ∧
      ∀ f, popped = some f → f.node < b'.nodes.size := by
  cases hs : b.stack with
  | nil =>
      unfold Builder.popFrame
      rw [hs]
      exact ⟨h, rfl, rfl, hs, nofun⟩
  | cons f below =>
      rw [popFrame_eq h.counted hs]
      have hbelow := h.readsBelow hs
      refine hbelow.finish.map fun b' ⟨h', hpos', hsize, _⟩ => ?_
      refine ⟨h'.sound (counted_withStack b below), hpos', rfl, h'.stack_eq, ?_⟩
      rintro _ ⟨⟩
      have := hbelow.growing.lt_size
      exact this.trans_eq hsize.symm

theorem closed {b' : Builder} (h' : Reads t b (b.parent :: b.outerPath) b') : b'.Sound t :=
  h'.sound h.counted

theorem withMetadata (metadata : Metadata) : { b with metadata }.Sound t :=
  ⟨h.growing, h.fits, h.document, h.counted⟩

theorem reportTokens (kind : DiagnosticKind) {i j : Nat} (hj : j ≤ t.size) (detail : String)
    (context : Option String) :
    t.Yields (b.reportTokens t kind i j detail context) fun b' =>
      b'.Sound t ∧ b'.pos = b.pos ∧ b'.stack = b.stack :=
  (h.reads.reportTokens kind hj detail context).mono fun _ ⟨h', hpos'⟩ =>
    ⟨h.closed h', hpos', h'.stack_eq⟩

theorem forceClose (reason : ClosedBy) (context : Option String) :
    t.Yields (b.forceClose t reason b.pos context) fun b' =>
      b'.Sound t ∧ b'.pos = b.pos ∧ b'.stack = b.stack.tail := by
  unfold Builder.forceClose
  refine h.popFrame.bind fun ⟨popped, b₁⟩ ⟨h₁, hpos₁, hpopped, hstack₁, hnode⟩ => ?_
  cases popped with
  | none =>
      refine ⟨h₁, hpos₁, hstack₁⟩
  | some f =>
      have hf : f.node < b₁.nodes.size := hnode f rfl
      have h₂ := h₁.withMetadata (b₁.metadata.setClosedBy f.node reason)
      have hstop (i : Nat) : min i b.pos ≤ t.size := (Nat.min_le_right _ _).trans h.fits
      refine (yields_node hf).bind fun node hnode => ?_
      split
      · refine (h₂.reads.setFlag _ hf).bind fun b₃ ⟨h₃, hpos₃⟩ => ?_
        have hclosed := h₂.closed h₃
        refine .ite (fun _ => ⟨hclosed, hpos₃.trans hpos₁, h₃.stack_eq.trans hstack₁⟩) fun _ => ?_
        refine (hclosed.reportTokens _ (hstop _) _ _).mono fun b' ⟨h', hpos', hstack'⟩ => ?_
        exact ⟨h', by rw [hpos', hpos₃, hpos₁], by rw [hstack', h₃.stack_eq, hstack₁]⟩
      · have hreport (i j : Nat) (name : String) : t.Yields
            ({ b₁ with metadata := b₁.metadata.setClosedBy f.node reason }.reportTokens t
              .unclosedDirective i (min j b.pos) name context) fun b' =>
              b'.Sound t ∧ b'.pos = b.pos ∧ b'.stack = b.stack.tail :=
          (h₂.reportTokens _ (hstop j) name context).mono fun b' ⟨h', hpos', hstack'⟩ =>
            ⟨h', hpos'.trans hpos₁, hstack'.trans hstack₁⟩
        split
        · rename_i marker hmarker
          rw [hnode] at hmarker
          have hparent := (h₁.growing.linked.first f.node).of_eq_some hmarker
          have hlt : marker < b₁.nodes.size := (h₁.growing.linked.below marker _ hparent).2
          refine Tokenized.Yields.bind (P := fun _ => True)
            ((yields_node hlt).map fun _ _ => trivial) fun markerEnd _ => ?_
          exact hreport _ _ _
        · exact hreport _ _ _

theorem forceCloseMany (close : List Frame → ClosedBy × Option String) {stop : Nat}
    (hstop : stop = b.pos) (n : Nat) :
    t.Yields (Builder.forceCloseMany t close stop n b) fun b' =>
      b'.Sound t ∧ b'.pos = b.pos ∧ b'.stack = b.stack.drop n := by
  subst hstop
  induction n generalizing b with
  | zero => exact ⟨h, rfl, rfl⟩
  | succ n ih =>
      refine (h.forceClose _ _).bind fun b₁ ⟨h₁, hpos₁, hstack₁⟩ => ?_
      rw [← hpos₁]
      refine (ih h₁).mono fun b' ⟨h', hpos', hstack'⟩ => ⟨h', hpos', ?_⟩
      rw [hstack', hstack₁, List.drop_tail]

end Sound

theorem yields_checkDepth (counters : List DepthCounter) (first : Nat) :
    t.Yields (b.checkDepth t counters first) fun _ => True := by
  unfold checkDepth
  induction counters with
  | nil => trivial
  | cons counter counters ih =>
      rw [List.forM]
      refine Tokenized.Yields.bind (P := fun _ => True) ?_ fun _ _ => ih
      exact .ite (fun _ => trivial) fun _ => trivial

end Builder
end BladeTree
