import BladeTree.Proofs.Tree.Upheld

namespace BladeTree
namespace Builder

structure Contains (b : Builder) (p : Nat) : Prop where
  lt_size : p < b.nodes.size
  kind : (slot b.nodes p).kind.isContainer

structure Contained (b : Builder) : Prop where
  parents : ∀ i p, (slot b.nodes i).parent = some p → b.Contains p
  opened : ∀ p ∈ b.openPath, b.Contains p

variable {t : Tokenized} {b b' : Builder} {n p q id : Nat} {kind : NodeKind}

theorem Contains.of_kind (h : (slot b.nodes p).kind = kind) (hk : kind.isContainer)
    (hne : kind ≠ .document) : b.Contains p where
  lt_size := lt_size_of_kind (by rwa [h])
  kind := h ▸ hk

theorem Contains.keep (h : b.Contains p) (hw : Widens n b b') : b'.Contains p where
  lt_size := h.lt_size.trans_le hw.size
  kind := by
    rw [hw.kind_eq h.lt_size]
    exact h.kind

namespace Contained

variable (h : b.Contained)
include h

theorem keep (hw : Widens n b b')
    (hparents : ∀ i p, b.nodes.size ≤ i → (slot b'.nodes i).parent = some p → p ∉ b.openPath →
      b'.Contains p)
    (hopened : ∀ p ∈ b'.openPath, p ∉ b.openPath → b'.Contains p) : b'.Contained where
  parents i p hp := by
    rcases Nat.lt_or_ge i b.nodes.size with hold | hnew
    · exact (h.parents i p ((hw.parent_eq hold).symm.trans hp)).keep hw
    · by_cases hopen : p ∈ b.openPath
      · exact (h.opened p hopen).keep hw
      · exact hparents i p hnew hp hopen
  opened p hp := by
    by_cases hopen : p ∈ b.openPath
    · exact (h.opened p hopen).keep hw
    · exact hopened p hp hopen

theorem of_nodes (hnodes : b'.nodes = b.nodes) (hstack : b'.stack = b.stack) : b'.Contained := by
  have hcontains {p : Nat} (hp : b.Contains p) : b'.Contains p :=
    ⟨hnodes ▸ hp.lt_size, hnodes ▸ hp.kind⟩
  exact ⟨fun i p hp => hcontains (h.parents i p (hnodes ▸ hp)),
    fun p hp => hcontains (h.opened p (openPath_congr hstack ▸ hp))⟩

theorem of_size (hx : Extends 0 b b') (hsize : b'.nodes.size = b.nodes.size) : b'.Contained := by
  have hw : Widens 0 b b' := .of_size hx hsize fun i hi => absurd hi (Nat.not_lt_zero i)
  have hopen : b'.openPath ⊆ b.openPath := by
    unfold openPath
    exact List.append_subset.2 ⟨List.subset_append_of_subset_left _ (hx.stack.map Frame.node).subset,
      List.subset_append_right _ _⟩
  refine h.keep hw (fun i p hnew hp => ?_) fun p hp hclosed => absurd (hopen hp) hclosed
  have hlt := lt_size_of_parent hp
  exact absurd hnew (Nat.not_le_of_lt (hsize ▸ hlt))

theorem child (hs : b.Starts b.parent kind id b') : b'.Contained := by
  have hstack : b'.stack = b.stack := by rw [hs.rest]
  refine h.keep (.child (n := b.nodes.size) hs (.inl b.parent_mem_openPath))
    (fun i p hnew hp hclosed => ?_) fun p hp hclosed => ?_
  · obtain rfl := hs.eq_of_ge hnew (lt_size_of_parent hp)
    obtain rfl : b.parent = p := Option.some.inj (hs.parent_eq.symm.trans hp)
    exact absurd b.parent_mem_openPath hclosed
  · exact absurd (openPath_congr hstack ▸ hp) hclosed

theorem inner (hq : b.Contains q) (hi : Inner t q b b') : b'.Contained := by
  have hw : Widens 0 b b' := .inner hi (.inr (Nat.zero_le q)) (Nat.zero_le _)
  refine h.keep hw (fun i p hnew hp _ => ?_) fun p hp hclosed => ?_
  · rcases hi.parent_of_new hnew hp with rfl | ⟨-, hattr⟩
    · exact hq.keep hw
    · exact .of_kind hattr rfl nofun
  · exact absurd (openPath_congr hi.stack_eq ▸ hp) hclosed

theorem pushFrame {f : Frame} (hf : b.Contains f.node) : (b.pushFrame f).Contained := by
  obtain ⟨hnodes, hstack⟩ := nodes_pushFrame b f
  have hw : Widens 0 b (b.pushFrame f) := .pushFrame (Nat.zero_le _)
  refine h.keep hw (fun i p hnew hp => ?_) fun p hp hclosed => ?_
  · have hlt := lt_size_of_parent hp
    exact absurd hnew (Nat.not_le_of_lt (hnodes ▸ hlt))
  · unfold openPath at hp
    rw [hstack, List.map_cons, List.cons_append, List.mem_cons] at hp
    rcases hp with rfl | hp
    · exact hf.keep hw
    · exact absurd hp hclosed

theorem change (hc : Change t n b b') : b'.Contained := by
  have hx : Extends 0 b b := .refl (Nat.zero_le _)
  cases hc with
  | bump hb =>
      obtain ⟨-, rfl⟩ := returns_bump _ _ hb
      exact h.of_nodes rfl rfl
  | report hb =>
      obtain ⟨span, -, rfl⟩ := returns_report _ _ _ _ _ _ _ hb
      exact h.of_nodes rfl rfl
  | child _ hb => exact h.child ((startIn_starts _ _ _).returns _ hb)
  | inner _ hkind hi => exact h.inner (.of_kind hkind rfl nofun) hi
  | amend _ hf hb =>
      have hx' := (hx.modify hf fun hlt => absurd hlt (Nat.not_lt_zero _)).returns _ hb
      exact h.of_size hx' (size_modify _ hb)
  | unterminated => exact h.of_nodes rfl rfl
  | @close _ reason stop context hb =>
      refine h.of_size ((hx.forceClose _ _ _).returns _ hb) ?_
      cases hs : b.stack with
      | nil =>
          rw [forceClose_eq, Builder.popFrame, hs] at hb
          cases hb
          rfl
      | cons f below => exact (returns_closed hs reason stop context _ hb).2.1
  | @pair _ f below _ stop hs _ hb =>
      refine h.of_size ((hx.popFrame _).returns _ hb) ?_
      obtain ⟨-, -, -, -, -, -, hnodes⟩ := returns_popFrame hs stop _ hb
      rw [hnodes, Array.size_modify]
  | enter _ hkind => exact h.pushFrame (.of_kind hkind rfl nofun)

theorem changes (hc : Changes t b b') : b'.Contained := by
  induction hc with
  | refl => exact h
  | tail _ hc ih => exact ih.change hc

theorem openBlock (rule : BlockRule) (name : String) :
    Build.Returns (b.openBlock t rule name) Contained := by
  unfold Builder.openBlock
  refine Build.Returns.any.bind fun _ _ => ?_
  refine (startIn_starts b b.parent .directiveBlock).returns.bind fun ⟨block, b₁⟩ hs => ?_
  have hblock : b₁.Contains block := .of_kind hs.kind_eq rfl nofun
  have hinner : Inner t block b₁ b₁ := .refl
  refine (hinner.directiveLeaf (.inl rfl) .opener).bind fun b₂ h₂ => .ok ?_
  have hw : Widens 0 b₁ b₂ := .inner h₂ (.inr (Nat.zero_le _)) (Nat.zero_le _)
  exact ((h.child hs).inner hblock h₂).pushFrame (hblock.keep hw)

theorem leaf (kind : NodeKind) (n : Nat) :
    Build.Returns (b.leaf t b.parent kind n) (Contained ·.2) := by
  have hx : Extends 0 b b := .refl (Nat.zero_le _)
  unfold Builder.leaf
  refine (startIn_starts b b.parent kind).returns.bind fun ⟨id, b₁⟩ hs => ?_
  refine (bumpMany_eq b₁ n).bind fun b₂ hb₂ => ?_
  have h₂ : b₂.Contained := by
    subst hb₂
    exact (h.child hs).of_nodes rfl rfl
  have hx₂ : Extends 0 b₂ b₂ := .refl (Nat.zero_le _)
  exact ((hx₂.finish id).returns.and size_finish).bind fun b₃ ⟨hx₃, hsize⟩ =>
    .ok (h₂.of_size hx₃ hsize)

end Contained

theorem upheld_contained (t : Tokenized) : Upheld t Contained where
  report _ _ h := h.of_nodes rfl rfl
  close b _ _ _ h _ := fun _ hb => h.change (n := b.nodes.size) (.close hb)
  pair b f below opened name _ h hstack hkind _ _ := by
    have hrule : f.blockRule? = none := by
      unfold Frame.blockRule?
      rw [hkind]
    exact ((Changes.refl b).closeElement hstack hrule _).mono fun _ hc => h.changes hc
  stray b _ _ h _ := h.leaf .strayClosingTag _
  marker b role _ h _ := by
    have hinner : Inner t b.parent b b := .refl
    exact (hinner.directiveLeaf (.inl rfl) role).mono fun _ hi =>
      h.inner (h.opened _ b.parent_mem_openPath) hi
  leave b f below h hstack _ := fun (_, b') hb => by
    have hx : Extends 0 b b := .refl (Nat.zero_le _)
    refine h.of_size ((hx.popFrame b.pos).returns _ hb) ?_
    obtain ⟨-, -, -, -, -, -, hnodes⟩ := returns_popFrame hstack b.pos _ hb
    rw [hnodes, Array.size_modify]
  openBlock b rule name _ h _ := h.openBlock rule name
  startTag b _ h _ _ := (Changes.refl b).startTag.mono fun _ hc => h.changes hc
  plain b _ hs h _ hk _ := ((Changes.refl b).construct hs hk).mono fun _ hc => h.changes hc
  extension b leaf _ h _ := by
    unfold Builder.extensionLeaf
    refine (h.leaf leaf.kind leaf.tokenCount).bind fun ⟨id, b₁⟩ h₁ => ?_
    have hx₁ : Extends 0 b₁ b₁ := .refl (Nat.zero_le _)
    exact ((hx₁.setData leaf.data (Nat.zero_le id)).returns.and size_modify).mono
      fun b' ⟨hx', hsize⟩ => h₁.of_size hx' hsize
  finish b _ h := by
    have hx : Extends 0 b b := .refl (Nat.zero_le _)
    exact ((hx.finish root).returns.and size_finish).mono fun b' ⟨hx', hsize⟩ =>
      h.of_size hx' hsize

theorem contained_initial : initial.Contained where
  parents i p hp := by
    rw [slot_initial] at hp
    cases hp
  opened p hp := by
    obtain rfl := List.mem_singleton.1 hp
    exact ⟨Nat.one_pos, rfl⟩

theorem contained_build : Build.Returns (build t) fun b =>
    ∀ i p, (slot b.nodes i).parent = some p → (slot b.nodes p).kind.isContainer :=
  ((upheld_contained t).build contained_initial).mono fun _ ⟨h, _⟩ i p hp => (h.parents i p hp).kind

end Builder
end BladeTree
