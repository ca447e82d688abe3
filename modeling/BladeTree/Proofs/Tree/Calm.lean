import BladeTree.Proofs.Tree.Widens

namespace BladeTree
namespace Builder

/-- From `start` to `b` nothing was opened or closed: old nodes stay as they are but for links and
the length of open ones, and new ones, whose kinds satisfy `K`, are under open nodes or under one
another, from the position on. -/
structure Calm (K : NodeKind → Prop) (start b : Builder) : Prop where
  widens : Widens start.nodes.size start b
  final : Final start b
  core : ∀ i < start.nodes.size, (slot b.nodes i).core = (slot start.nodes i).core
  fresh : ∀ i, start.nodes.size ≤ i → i < b.nodes.size →
    K (slot b.nodes i).kind ∧ start.pos ≤ (slot b.nodes i).tokenStart
  pos : start.pos ≤ b.pos
  stack : b.stack = start.stack
  reason : b.metadata.closedBy? = start.metadata.closedBy?

variable {t : Tokenized} {K : NodeKind → Prop} {start b b' : Builder} {q id : Nat}
  {kind : NodeKind}

theorem Calm.refl (b : Builder) : Calm K b b where
  widens := .refl _ b
  final := .refl b
  core _ _ := rfl
  fresh _ hi hlt := absurd hlt (Nat.not_lt_of_le hi)
  pos := le_rfl
  stack := rfl
  reason := rfl

namespace Calm

variable (h : Calm K start b)
include h

theorem of_nodes (hw : Widens start.nodes.size b b') (hnodes : b'.nodes = b.nodes)
    (hpos : b.pos ≤ b'.pos) (hstack : b'.stack = b.stack)
    (hreason : b'.metadata.closedBy? = b.metadata.closedBy?) : Calm K start b' where
  widens := h.widens.trans hw
  final := h.final.of_nodes hnodes fun _ hi => openPath_congr hstack ▸ hi
  core := hnodes ▸ h.core
  fresh := hnodes ▸ h.fresh
  pos := h.pos.trans hpos
  stack := hstack.trans h.stack
  reason := hreason.trans h.reason

theorem bump : Build.Returns (b.bump t) (Calm K start) := by
  intro b' hb
  have hx : Extends 0 b b := .refl (Nat.zero_le _)
  have hx' := hx.bump.returns _ hb
  obtain ⟨-, rfl⟩ := returns_bump _ _ hb
  exact h.of_nodes (.of_size hx' rfl fun _ _ _ => rfl) rfl (Nat.le_succ _) rfl rfl

theorem report (d : Diagnostic) : Calm K start (b.report d) := by
  have hlog : b.diagnostics.toList <+: (b.report d).diagnostics.toList := by
    rw [Builder.report, Array.toList_push]
    exact List.prefix_append _ _
  have hx : Extends 0 b (b.report d) :=
    (Extends.refl (Nat.zero_le _)).of_nodes rfl (List.suffix_refl _) hlog
  exact h.of_nodes (.of_size hx rfl fun _ _ _ => rfl) rfl le_rfl rfl rfl

theorem reportTokens (kind : DiagnosticKind) (i j : Nat) (detail : String)
    (context : Option String) :
    Build.Returns (b.reportTokens t kind i j detail context) (Calm K start) := by
  intro b' hb
  obtain ⟨span, -, rfl⟩ := returns_report _ _ _ _ _ _ _ hb
  exact h.report _

theorem genericArgs (element offset : Nat) :
    Calm K start { b with metadata := b.metadata.setGenericArgsOffset element offset } := by
  have hx : Extends 0 b b := .refl (Nat.zero_le _)
  have hreason := Metadata.closedBy?_setGenericArgsOffset b.metadata element offset
  exact h.of_nodes (.of_size (hx.metadata _) rfl fun i _ _ => congrFun hreason i) rfl le_rfl rfl
    hreason

theorem startIn (hq : q ∈ start.openPath ∨ start.nodes.size ≤ q) (hk : K kind) :
    Build.Returns (b.startIn q kind) fun (id, b') => Calm K start b' ∧ start.nodes.size ≤ id := by
  intro (id, b') hb
  have hs : b.Starts q kind id b' := (startIn_starts b q kind).returns _ hb
  obtain ⟨hfinal, hid⟩ := h.final.startIn q kind _ hb
  have hopen : q ∈ b.openPath ∨ start.nodes.size ≤ q :=
    hq.imp_left fun hq => openPath_congr h.stack ▸ hq
  refine ⟨⟨h.widens.trans (.child hs hopen), hfinal, ?_, ?_, ?_, ?_, ?_⟩, hid⟩
  · intro i hi
    exact (hs.old i (hi.trans_le h.widens.size)).trans (h.core i hi)
  · intro i hi hlt
    rcases Nat.lt_or_ge i b.nodes.size with hold | hnew
    · have hcore := hs.old i hold
      simp only [FlatNode.core, Prod.mk.injEq] at hcore
      rw [hcore.1, hcore.2.1]
      exact h.fresh i hi hold
    · obtain rfl := hs.eq_of_ge hnew hlt
      rw [hs.kind_eq, hs.tokenStart_eq]
      exact ⟨hk, h.pos⟩
  · rw [hs.rest]
    exact h.pos
  · rw [hs.rest]
    exact h.stack
  · rw [hs.rest]
    exact h.reason

theorem amend {f : FlatNode → FlatNode} (hf : Settled f)
    (hid : start.nodes.size ≤ id ∨ id ∈ start.openPath ∧ ∀ m, (f m).core = m.core) :
    Build.Returns (b.modify id f) (Calm K start) := by
  intro b' hb
  have hx : Extends 0 b b := .refl (Nat.zero_le _)
  have hx' := (hx.modify hf fun hlt => absurd hlt (Nat.not_lt_zero _)).returns _ hb
  have hfinal := h.final.modify (hid.symm.imp_left And.left) _ hb
  obtain ⟨hlt, rfl⟩ := returns_modify _ _ _ _ hb
  refine ⟨h.widens.trans (.of_size hx' Array.size_modify fun _ _ _ => rfl), hfinal, ?_, ?_, h.pos,
    h.stack, h.reason⟩
  · intro i hi
    rw [slot_modify hlt]
    split
    · rename_i heq
      rcases hid with hnew | ⟨-, hcore⟩
      · exact absurd hi (Nat.not_lt_of_le (heq ▸ hnew))
      · exact (hcore _).trans (h.core i hi)
    · exact h.core i hi
  · intro i hi hlt'
    rw [Array.size_modify] at hlt'
    rw [slot_modify hlt]
    split
    · rw [hf.kind, hf.tokenStart]
      exact h.fresh i hi hlt'
    · exact h.fresh i hi hlt'

theorem finishAt (hid : start.nodes.size ≤ id ∨ id ∈ start.openPath) (stop : Nat) :
    Build.Returns (b.finishAt id stop) (Calm K start) := by
  unfold Builder.finishAt
  refine Build.Returns.any.bind fun node _ => ?_
  refine .ite (fun _ => ?_) fun _ => .fault
  exact h.amend ⟨fun _ => rfl, fun _ => rfl, fun _ => rfl⟩
    (hid.imp_right fun hid => ⟨hid, fun _ => rfl⟩)

theorem finish (hid : start.nodes.size ≤ id) : Build.Returns (b.finish id) (Calm K start) :=
  h.finishAt (.inl hid) b.pos

theorem setData (hid : start.nodes.size ≤ id) (data : Int32) :
    Build.Returns (b.setData id data) (Calm K start) :=
  h.amend ⟨fun _ => rfl, fun _ => rfl, fun _ => rfl⟩ (.inl hid)

theorem bumpMany (n : Nat) : Build.Returns (Builder.bumpMany t n b) (Calm K start) := by
  induction n generalizing b with
  | zero => exact .ok h
  | succ n ih => exact h.bump.bind fun b₁ h₁ => ih h₁

theorem eat (kind : TokenType) :
    Build.Returns (b.eat t kind) fun (_, b') => Calm K start b' := by
  unfold Builder.eat
  exact .ite (fun _ => h.bump.bind fun b₁ h₁ => .ok h₁) fun _ => .ok h

theorem leaf (hq : q ∈ start.openPath ∨ start.nodes.size ≤ q) (hk : K kind) (n : Nat) :
    Build.Returns (b.leaf t q kind n) fun (id, b') =>
      Calm K start b' ∧ start.nodes.size ≤ id := by
  unfold Builder.leaf
  refine (h.startIn hq hk).bind fun ⟨id, b₁⟩ ⟨h₁, hid⟩ => ?_
  refine (h₁.bumpMany n).bind fun b₂ h₂ => ?_
  exact (h₂.finish hid).bind fun b₃ h₃ => .ok ⟨h₃, hid⟩

theorem delimitedPart {content stopType : TokenType}
    (hq : q ∈ start.openPath ∨ start.nodes.size ≤ q) (hk : K kind)
    (hread : ReadsDelimited t q kind content stopType b b') : Calm K start b' := by
  induction hread with
  | read h₁ h₂ h₃ h₄ h₅ =>
      obtain ⟨hstarted, hid⟩ := h.startIn hq hk _ h₁
      have hate := (hstarted.bump _ h₂).eat _ _ h₃
      exact Calm.finish (hate.eat _ _ h₄) hid _ h₅
  | report _ _ hb ih => exact ih.reportTokens _ _ _ _ _ _ hb

theorem verbatim (hk : K .verbatim) : Build.Returns (b.verbatim t start.parent) (Calm K start) :=
  (reads_verbatim b start.parent).mono
    fun _ => h.delimitedPart (.inl start.parent_mem_openPath) hk

theorem inner (h' : Inner t q b b') (hq : q ∈ start.openPath ∨ start.nodes.size ≤ q)
    (hK : ∀ kind : NodeKind, kind.isPlain → K kind) : Calm K start b' := by
  have hsize : start.nodes.size ≤ b.nodes.size := h.widens.size
  induction h' with
  | refl => exact h
  | bump _ hb ih => exact ih.bump _ hb
  | node _ hp hk hb ih =>
      have hunder := hp.elim (fun heq => heq ▸ hq) fun hnew => .inr (hsize.trans hnew.1)
      exact (ih.startIn hunder (hK _ hk) _ hb).1
  | finish _ hid hb ih => exact ih.finish (hsize.trans hid) _ hb
  | data _ hid hb ih => exact ih.setData (hsize.trans hid) _ _ hb
  | genericArgs offset _ ih => exact ih.genericArgs _ offset
  | report _ _ hb ih => exact ih.reportTokens _ _ _ _ _ _ hb

end Calm
end Builder
end BladeTree
