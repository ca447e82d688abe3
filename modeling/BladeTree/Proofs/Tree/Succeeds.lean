import BladeTree.Proofs.Tree.Upheld

namespace BladeTree

def Build.Succeeds {α : Type} (x : Build α) : Prop := ∃ a, x = .ok a

namespace Build.Succeeds

variable {α β : Type} {x y : Build α} {f : α → Build β} {P : α → Prop}

theorem ok (a : α) : Build.Succeeds (.ok a) := ⟨a, rfl⟩

theorem bind (hx : Build.Succeeds x) (hr : Build.Returns x P)
    (hf : ∀ a, P a → Build.Succeeds (f a)) : Build.Succeeds (x >>= f) := by
  obtain ⟨a, rfl⟩ := hx
  exact hf a (hr a rfl)

theorem ite {c : Prop} [Decidable c] (hx : c → Build.Succeeds x) (hy : ¬ c → Build.Succeeds y) :
    Build.Succeeds (if c then x else y) := by
  split
  · exact hx ‹_›
  · exact hy ‹_›

end Build.Succeeds

namespace Tokenized

variable {t : Tokenized} {i j : Nat}

theorem succeeds_token (hi : i < t.size) : Build.Succeeds (t.token i) := by
  obtain ⟨u, hu⟩ := exists_token hi
  unfold token
  rw [hu]
  exact .ok u

theorem succeeds_span (hj : j ≤ t.size) : Build.Succeeds (t.span i j) := by
  unfold span
  refine .ite (fun hlt => ?_) fun _ => .ok _
  refine (succeeds_token (hlt.trans_le hj)).bind .any fun first _ => ?_
  exact (succeeds_token (by omega)).bind .any fun last _ => .ok _

end Tokenized

namespace Builder

def reportMismatch (t : Tokenized) (b : Builder) (start stop : Nat) :
    Option String → Build Builder
  | some opened =>
    b.reportTokens t .mismatchedClosingTag start stop ("expected `</" ++ opened ++ ">`") none
  | none => .ok b

variable {t : Tokenized} {start b : Builder} {path : List Nat} {c q : Nat} {name : String}

theorem closingTag_eq (h : t.text (b.pos + 2) = .ok name) :
    b.closingTag t = match Frame.closeTarget name 0 false b.stack with
      | .blocked => b.strayClosingTag t (closingTagEnd t (b.pos + 3)) true
      | .missing => b.strayClosingTag t (closingTagEnd t (b.pos + 3)) false
      | .element above => (do
        let b₁ ← b.forceCloseMany t (closedByTag name) b.pos above
        let b₂ ← b₁.reportMismatch t b.pos (closingTagEnd t (b.pos + 3))
          (mismatched? above b.stack)
        b₂.closeElement t (closingTagEnd t (b.pos + 3) - b.pos)) := by
  unfold closingTag
  simp only [h, ok_bind]
  cases Frame.closeTarget name 0 false b.stack with
  | blocked => rfl
  | missing => rfl
  | element above =>
      simp only
      cases mismatched? above b.stack <;> rfl

theorem succeeds_modify {f : FlatNode → FlatNode} (hc : c < b.nodes.size) :
    Build.Succeeds (b.modify c f) := ⟨_, modify_eq hc⟩

theorem succeeds_reportTokens (b : Builder) (kind : DiagnosticKind) {i j : Nat} (hj : j ≤ t.size)
    (detail : String) (context : Option String) :
    Build.Succeeds (b.reportTokens t kind i j detail context) :=
  (Tokenized.succeeds_span hj).bind .any fun _ _ => .ok _

theorem succeeds_reportMismatch {first stop : Nat} (hstop : stop ≤ t.size) (b : Builder)
    (opened : Option String) : Build.Succeeds (b.reportMismatch t first stop opened) := by
  cases opened with
  | none => exact .ok b
  | some opened => exact succeeds_reportTokens b _ hstop _ _

theorem succeeds_bumpMany {n : Nat} (hn : b.pos + n ≤ t.size) :
    Build.Succeeds (bumpMany t n b) := by
  induction n generalizing b with
  | zero => exact .ok b
  | succ n ih =>
      have hlt : b.pos < t.size := by omega
      have hbump : b.bump t = .ok { b with pos := b.pos + 1 } := if_pos hlt
      rw [bumpMany, hbump]
      apply ih
      simp only
      omega

namespace Reads

theorem succeeds_finish (h : Reads t start (c :: path) b) : Build.Succeeds (b.finish c) := by
  have hc : c < b.nodes.size := h.growing.lt_size
  have hstart : (slot b.nodes c).tokenStart ≤ b.pos := h.growing.start_le hc
  unfold Builder.finish finishAt
  rw [node_eq hc, ok_bind, if_pos hstart]
  exact succeeds_modify hc

theorem succeeds_leaf (h : Reads t start (q :: path) b) (kind : NodeKind) {n : Nat}
    (hn : b.pos + n ≤ t.size) : Build.Succeeds (b.leaf t q kind n) := by
  have hstart : Build.Succeeds (b.startIn q kind) :=
    ⟨_, startIn_eq h.growing.linked h.growing.lt_size⟩
  refine hstart.bind (h.startIn kind).returns fun ⟨id, b₁⟩ ⟨h₁, hpos₁⟩ => ?_
  have hn₁ : b₁.pos + n ≤ t.size := hpos₁ ▸ hn
  refine (succeeds_bumpMany hn₁).bind (h₁.bumpMany hn₁).returns fun b₂ ⟨h₂, _⟩ => ?_
  exact h₂.succeeds_finish.bind .any fun b₃ _ => .ok _

end Reads

namespace Sound

variable (h : b.Sound t)
include h

theorem succeeds_popFrame : Build.Succeeds (b.popFrame b.pos) := by
  cases hs : b.stack with
  | nil =>
      unfold Builder.popFrame
      rw [hs]
      exact .ok _
  | cons f below =>
      rw [popFrame_eq h.counted hs]
      exact (h.readsBelow hs).succeeds_finish.bind .any fun b₁ _ => .ok _

theorem succeeds_settle {f : Frame} (hf : f.node < b.nodes.size) (reason : ClosedBy)
    (context : Option String) : Build.Succeeds (b.settle t f reason b.pos context) := by
  have hstop (i : Nat) : min i b.pos ≤ t.size := (Nat.min_le_right _ _).trans h.fits
  unfold settle
  rw [node_eq hf, ok_bind]
  split
  · refine (succeeds_modify hf).bind .any fun b₁ _ => ?_
    exact .ite (fun _ => .ok b₁) fun _ => succeeds_reportTokens b₁ _ (hstop _) _ _
  · split
    · rename_i marker hmarker
      have hparent := (h.growing.linked.first f.node).of_eq_some hmarker
      have hlt : marker < b.nodes.size := (h.growing.linked.below marker _ hparent).2
      rw [node_eq hlt]
      exact succeeds_reportTokens _ _ (hstop _) _ _
    · exact succeeds_reportTokens _ _ (hstop _) _ _

theorem succeeds_forceClose (reason : ClosedBy) (context : Option String) :
    Build.Succeeds (b.forceClose t reason b.pos context) := by
  rw [forceClose_eq]
  refine h.succeeds_popFrame.bind h.popFrame.returns
    fun ⟨popped, b₁⟩ ⟨h₁, hpos₁, _, _, hnode⟩ => ?_
  cases popped with
  | none => exact .ok b₁
  | some f =>
      have h₂ := h₁.withMetadata (b₁.metadata.setClosedBy f.node reason)
      rw [← hpos₁]
      exact h₂.succeeds_settle (hnode f rfl) reason context

theorem succeeds_forceCloseMany (close : List Frame → ClosedBy × Option String) (n : Nat) :
    Build.Succeeds (Builder.forceCloseMany t close b.pos n b) := by
  induction n generalizing b with
  | zero => exact .ok b
  | succ n ih =>
      refine (h.succeeds_forceClose _ _).bind (h.forceClose _ _).returns fun b₁ ⟨h₁, hpos₁, _⟩ => ?_
      rw [← hpos₁]
      exact ih h₁

/-! Closing tags -/

theorem succeeds_closeElement {n : Nat} (hn : b.pos + n ≤ t.size) :
    Build.Succeeds (b.closeElement t n) := by
  unfold Builder.closeElement
  refine (h.reads.succeeds_leaf _ hn).bind (h.reads.leaf .closingElementName hn).returns
    fun ⟨_, b₁⟩ ⟨h₁, _⟩ => ?_
  have hlt : b.parent < b₁.nodes.size := h₁.growing.lt_size
  refine (succeeds_modify hlt).bind (h₁.setFlag .paired hlt).returns fun b₂ ⟨h₂, _⟩ => ?_
  exact (h.closed h₂).succeeds_popFrame.bind .any fun b₃ _ => .ok _

theorem succeeds_strayClosingTag {stop : Nat} (hlt : b.pos ≤ stop) (hstop : stop ≤ t.size)
    (blocked : Bool) : Build.Succeeds (b.strayClosingTag t stop blocked) := by
  unfold Builder.strayClosingTag
  refine (h.reads.succeeds_leaf _ (by omega)).bind .any fun ⟨_, b₁⟩ _ => ?_
  refine (Tokenized.succeeds_span hstop).bind .any fun span _ => ?_
  exact .ite (fun _ => succeeds_reportTokens b₁ _ hstop _ _) fun _ =>
    succeeds_reportTokens b₁ _ hstop _ _

theorem reportMismatch {first stop : Nat} (hstop : stop ≤ t.size) (opened : Option String) :
    Build.Returns (b.reportMismatch t first stop opened) fun b' =>
      b'.Sound t ∧ b'.pos = b.pos ∧ b'.stack = b.stack := by
  cases opened with
  | none => exact .ok ⟨h, rfl, rfl⟩
  | some opened => exact (h.reportTokens _ hstop _ _).returns

/-- No closing tag that has a name comes to a fault, whatever the other tokens are. -/
theorem succeeds_closingTag (htag : t.ClosingTagAt b.pos name) :
    Build.Succeeds (b.closingTag t) := by
  obtain ⟨hle, hstop⟩ := closingTagEnd_bounds (t := t) (i := b.pos + 3) htag.lt_size
  rw [closingTag_eq htag.named]
  split
  · exact h.succeeds_strayClosingTag (by omega) hstop _
  · exact h.succeeds_strayClosingTag (by omega) hstop _
  · refine (h.succeeds_forceCloseMany _ _).bind (h.forceCloseMany _ rfl _).returns
      fun b₁ ⟨h₁, hpos₁, _⟩ => ?_
    refine (succeeds_reportMismatch hstop b₁ _).bind (h₁.reportMismatch hstop _)
      fun b₂ ⟨h₂, hpos₂, _⟩ => ?_
    exact h₂.succeeds_closeElement (by omega)

end Sound
end Builder
end BladeTree
