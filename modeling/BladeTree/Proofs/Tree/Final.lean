import BladeTree.Proofs.Tree.Recovery

namespace BladeTree
namespace Builder

/-- From `start` to `b` the nodes that were not open have kept all but their links, and none of them
is open again. -/
structure Final (start b : Builder) : Prop where
  size : start.nodes.size ≤ b.nodes.size
  opened : ∀ i ∈ b.openPath, i < start.nodes.size → i ∈ start.openPath
  own : ∀ i < start.nodes.size, i ∉ start.openPath →
    (slot b.nodes i).own = (slot start.nodes i).own

variable {t : Tokenized} {start b b' : Builder} {q id : Nat} {f : FlatNode → FlatNode}

theorem openPath_congr (h : b'.stack = b.stack) : b'.openPath = b.openPath := by
  unfold openPath
  rw [h]

theorem parent_mem_openPath (b : Builder) : b.parent ∈ b.openPath := by
  rw [openPath_eq]
  exact List.mem_cons_self

theorem openPath_of_pop {f : Frame} {below : List Frame} (hs : b.stack = f :: below)
    (hstack : b'.stack = below) : b.openPath = f.node :: b'.openPath := by
  unfold openPath
  rw [hs, hstack]
  rfl

theorem nodes_pushFrame (b : Builder) (f : Frame) :
    (b.pushFrame f).nodes = b.nodes ∧ (b.pushFrame f).stack = f :: b.stack := by
  obtain ⟨node, kind⟩ := f
  cases kind with
  | element name => exact ⟨rfl, rfl⟩
  | directive rule name =>
      unfold pushFrame
      cases hc : rule.conditional <;>
        simp only [hc, if_true, if_false, Bool.false_eq_true, and_self]

namespace Final

theorem refl (b : Builder) : Final b b := ⟨le_rfl, fun _ hi _ => hi, fun _ _ _ => rfl⟩

theorem of_mem_openPath (h : Final start b) (hid : id ∈ b.openPath) :
    id ∈ start.openPath ∨ start.nodes.size ≤ id := by
  rcases Nat.lt_or_ge id start.nodes.size with hlt | hge
  · exact .inl (h.opened id hid hlt)
  · exact .inr hge

variable (h : Final start b)
include h

theorem trans (h' : Final b b') : Final start b' where
  size := h.size.trans h'.size
  opened i hi hlt := h.opened i (h'.opened i hi (hlt.trans_le h.size)) hlt
  own i hlt hclosed := by
    have hstill : i ∉ b.openPath := fun hi => hclosed (h.opened i hi hlt)
    rw [h'.own i (hlt.trans_le h.size) hstill, h.own i hlt hclosed]

theorem of_nodes (hnodes : b'.nodes = b.nodes) (hopen : b'.openPath ⊆ b.openPath) :
    Final start b' where
  size := hnodes ▸ h.size
  opened i hi hlt := h.opened i (hopen hi) hlt
  own := hnodes ▸ h.own

theorem modify (hid : id ∈ start.openPath ∨ start.nodes.size ≤ id) :
    Build.Returns (b.modify id f) (Final start) := by
  unfold Builder.modify
  refine .ite (fun hlt => .ok ?_) fun _ => .fault
  constructor
  · rw [Array.size_modify]
    exact h.size
  · exact h.opened
  · intro i hi hclosed
    have hne : i ≠ id := by
      rintro rfl
      rcases hid with hopen | hnew
      · exact hclosed hopen
      · exact absurd hi (Nat.not_lt_of_le hnew)
    rw [slot_modify hlt, if_neg hne]
    exact h.own i hi hclosed

theorem finishAt (hid : id ∈ start.openPath ∨ start.nodes.size ≤ id) (stop : Nat) :
    Build.Returns (b.finishAt id stop) (Final start) := by
  unfold Builder.finishAt
  refine Build.Returns.any.bind fun node _ => ?_
  exact .ite (fun _ => h.modify hid) fun _ => .fault

theorem bump : Build.Returns (b.bump t) (Final start) := by
  refine (returns_bump b).mono fun b' ⟨_, hb'⟩ => ?_
  subst hb'
  exact h.of_nodes rfl (List.Subset.refl _)

theorem reportTokens (kind : DiagnosticKind) (i j : Nat) (detail : String)
    (context : Option String) :
    Build.Returns (b.reportTokens t kind i j detail context) (Final start) := by
  refine (returns_report b kind i j detail context).mono fun b' ⟨_, _, hb'⟩ => ?_
  subst hb'
  exact h.of_nodes rfl (List.Subset.refl _)

theorem metadata (metadata : Metadata) : Final start { b with metadata } :=
  h.of_nodes rfl (List.Subset.refl _)

theorem startIn (q : Nat) (kind : NodeKind) :
    Build.Returns (b.startIn q kind) fun (id, b') => Final start b' ∧ start.nodes.size ≤ id := by
  refine (startIn_own b q kind).returns.mono fun ⟨id, b'⟩ ⟨hid, hsize, hrest, hown⟩ => ?_
  have hopen : b'.openPath = b.openPath := openPath_congr (by rw [hrest])
  refine ⟨⟨?_, ?_, ?_⟩, hid ▸ h.size⟩
  · rw [hsize]
    exact h.size.trans (Nat.le_succ _)
  · rw [hopen]
    exact h.opened
  · intro i hi hclosed
    rw [hown, if_neg (hi.trans_le h.size).ne]
    exact h.own i hi hclosed

theorem bumpMany (n : Nat) : Build.Returns (Builder.bumpMany t n b) (Final start) := by
  induction n generalizing b with
  | zero => exact .ok h
  | succ n ih => exact h.bump.bind fun b₁ h₁ => ih h₁

theorem leaf (q : Nat) (kind : NodeKind) (n : Nat) :
    Build.Returns (b.leaf t q kind n) fun (id, b') => Final start b' ∧ start.nodes.size ≤ id := by
  unfold Builder.leaf
  refine (h.startIn q kind).bind fun ⟨id, b₁⟩ ⟨h₁, hid⟩ => ?_
  refine (h₁.bumpMany n).bind fun b₂ h₂ => ?_
  exact (h₂.finishAt (.inr hid) _).bind fun b₃ h₃ => .ok ⟨h₃, hid⟩

end Final

theorem Inner.final (h : Inner t q start b) : Final start b := by
  induction h with
  | refl => exact .refl _
  | bump _ hb ih => exact ih.bump _ hb
  | node _ _ _ hb ih => exact (ih.startIn _ _ _ hb).1
  | finish _ hid hb ih => exact ih.finishAt (.inr hid) _ _ hb
  | data _ hid hb ih => exact ih.modify (.inr hid) _ hb
  | genericArgs _ _ ih => exact ih.metadata _
  | report _ _ hb ih => exact ih.reportTokens _ _ _ _ _ _ hb

namespace Final

variable (h : Final start b)
include h

theorem inner (h' : Inner t q b b') : Final start b' := h.trans h'.final

/-! Frames that end -/

theorem popFrame (stop : Nat) :
    Build.Returns (b.popFrame stop) fun (popped, b') => Final start b' ∧
      ∀ f ∈ popped, f.node ∈ start.openPath ∨ start.nodes.size ≤ f.node := by
  unfold Builder.popFrame
  split
  · exact .ok ⟨h, nofun⟩
  · rename_i f below hs
    have hpath : b.openPath = f.node :: (below.map (·.node) ++ [root]) := by
      unfold openPath
      rw [hs]
      rfl
    have hnode : f.node ∈ start.openPath ∨ start.nodes.size ≤ f.node :=
      h.of_mem_openPath (hpath ▸ List.mem_cons_self)
    have hclose {b₁ : Builder} (hnodes : b₁.nodes = b.nodes) (hstack : b₁.stack = below) :
        Build.Returns (do return (some f, ← b₁.finishAt f.node stop)) fun (popped, b') =>
          Final start b' ∧ ∀ f ∈ popped, f.node ∈ start.openPath ∨ start.nodes.size ≤ f.node := by
      have hopen : b₁.openPath ⊆ b.openPath := by
        rw [hpath]
        unfold openPath
        rw [hstack]
        exact List.subset_cons_self _ _
      refine ((h.of_nodes hnodes hopen).finishAt hnode stop).bind fun b₂ h₂ => .ok ⟨h₂, ?_⟩
      rintro _ ⟨⟩
      exact hnode
    simp only
    split
    · exact Build.Returns.any.bind fun _ _ => hclose rfl rfl
    · refine Build.Returns.any.bind fun _ _ => ?_
      split
      · exact Build.Returns.any.bind fun _ _ => hclose rfl rfl
      · exact hclose rfl rfl

theorem settle {f : Frame} (hf : f.node ∈ start.openPath ∨ start.nodes.size ≤ f.node)
    (reason : ClosedBy) (stop : Nat) (context : Option String) :
    Build.Returns (b.settle t f reason stop context) (Final start) := by
  unfold Builder.settle
  refine Build.Returns.any.bind fun node _ => ?_
  split
  · refine (h.modify hf).bind fun b₁ h₁ => ?_
    exact .ite (fun _ => .ok h₁) fun _ => h₁.reportTokens _ _ _ _ _
  · split
    · exact Build.Returns.any.bind fun _ _ => h.reportTokens _ _ _ _ _
    · exact Build.Returns.any.bind fun _ _ => h.reportTokens _ _ _ _ _

theorem forceClose (reason : ClosedBy) (stop : Nat) (context : Option String) :
    Build.Returns (b.forceClose t reason stop context) (Final start) := by
  rw [forceClose_eq]
  refine (h.popFrame stop).bind fun ⟨popped, b₁⟩ ⟨h₁, hpopped⟩ => ?_
  cases popped with
  | none => exact .ok h₁
  | some f => exact (h₁.metadata _).settle (hpopped f rfl) reason stop context

theorem forceCloseMany (close : List Frame → ClosedBy × Option String) (stop n : Nat) :
    Build.Returns (Builder.forceCloseMany t close stop n b) (Final start) := by
  induction n generalizing b with
  | zero => exact .ok h
  | succ n ih => exact (h.forceClose _ _ _).bind fun b₁ h₁ => ih h₁

/-! Directives -/

theorem pushFrame {f : Frame} (hf : start.nodes.size ≤ f.node) : Final start (b.pushFrame f) := by
  obtain ⟨hnodes, hstack⟩ := nodes_pushFrame b f
  refine ⟨hnodes ▸ h.size, fun i hi hlt => ?_, hnodes ▸ h.own⟩
  have hpath : (b.pushFrame f).openPath = f.node :: b.openPath := by
    unfold openPath
    rw [hstack]
    rfl
  rw [hpath, List.mem_cons] at hi
  rcases hi with rfl | hi
  · exact absurd hlt (Nat.not_lt_of_le hf)
  · exact h.opened i hi hlt

theorem directiveLeaf (role : DirectiveRole) (q : Nat) :
    Build.Returns (b.directiveLeaf t q role) (Final start) := by
  have hinner : Inner t q b b := .refl
  exact (hinner.directiveLeaf (.inl rfl) role).mono fun b' h' => h.inner h'

theorem openBlock (rule : BlockRule) (name : String) :
    Build.Returns (b.openBlock t rule name) (Final start) := by
  unfold Builder.openBlock
  refine Build.Returns.any.bind fun _ _ => ?_
  refine (h.startIn b.parent .directiveBlock).bind fun ⟨block, b₁⟩ ⟨h₁, hid⟩ => ?_
  refine (h₁.directiveLeaf .opener block).bind fun b₂ h₂ => ?_
  exact .ok (h₂.pushFrame (f := ⟨block, .directive rule name⟩) hid)

theorem place (name : String) (first : Nat) (hasArgs : Bool) (place : DirectivePlace) :
    Build.Returns (b.place t name first hasArgs place) (Final start) := by
  cases place with
  | branch above =>
      exact (h.forceCloseMany _ _ _).bind fun b₁ h₁ => h₁.directiveLeaf .branch _
  | terminator above =>
      refine (h.forceCloseMany _ _ _).bind fun b₁ h₁ => ?_
      refine (h₁.directiveLeaf .closer _).bind fun b₂ h₂ => ?_
      exact (h₂.popFrame b₂.pos).bind fun ⟨_, b₃⟩ ⟨h₃, _⟩ => .ok h₃
  | opener rule => exact h.openBlock rule name
  | strayTerminator =>
      exact (h.directiveLeaf .closer _).bind fun b₁ h₁ => h₁.reportTokens _ _ _ _ _
  | strayBranch =>
      exact (h.directiveLeaf .branch _).bind fun b₁ h₁ => h₁.reportTokens _ _ _ _ _
  | standalone =>
      refine (h.directiveLeaf .standalone _).bind fun b₁ h₁ => ?_
      exact .ite (fun _ => h₁.reportTokens _ _ _ _ _) fun _ => .ok h₁

theorem directive : Build.Returns (b.directive t) (Final start) := by
  rw [directive_eq]
  refine Build.Returns.any.bind fun name _ => ?_
  refine Build.Returns.any.bind fun arity _ => ?_
  refine Build.Returns.bind (P := Final start) ?_ fun b₁ h₁ => h₁.place _ _ _ _
  exact .ite (fun _ => h.reportTokens _ _ _ _ _) fun _ => .ok h

end Final
end Builder
end BladeTree
