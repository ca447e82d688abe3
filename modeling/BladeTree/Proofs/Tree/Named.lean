import BladeTree.Proofs.Tree.Invariant

namespace BladeTree
namespace Builder

variable {t : Tokenized} {b b' : Builder} {n q id : Nat} {kind : NodeKind}

def nameLeaf (element start : Nat) : FlatNode :=
  { FlatNode.unlinked .elementName (start + 1) with tokenCount := 1, parent := some element }

/-- The node after `i` has the name of the element `i`, and it is finished. -/
def NamedAt (b : Builder) (i : Nat) : Prop :=
  i + 1 < b.nodes.size ∧ i + 1 ∉ b.openPath ∧
    (slot b.nodes (i + 1)).own = nameLeaf i (slot b.nodes i).tokenStart

def Named (b : Builder) : Prop := ∀ i, (slot b.nodes i).kind = .element → b.NamedAt i

/-! Leaves -/

theorem bumpMany_eq (b : Builder) (n : Nat) :
    Build.Returns (bumpMany t n b) (· = { b with pos := b.pos + n }) := by
  induction n generalizing b with
  | zero => exact .ok rfl
  | succ n ih =>
      refine (returns_bump b).bind fun b₁ ⟨_, hb₁⟩ => ?_
      refine (ih b₁).mono fun b' hb' => ?_
      rw [hb', hb₁, Nat.add_right_comm, Nat.add_assoc]

theorem leaf_own (b : Builder) (q : Nat) (kind : NodeKind) (n : Nat) :
    Build.Returns (b.leaf t q kind n) fun (_, b') =>
      b'.nodes.size = b.nodes.size + 1 ∧ b'.openPath = b.openPath ∧
      ∀ i, (slot b'.nodes i).own = if i = b.nodes.size then
        { FlatNode.unlinked kind b.pos with tokenCount := n, parent := some q }
      else (slot b.nodes i).own := by
  unfold leaf
  refine (startIn_own b q kind).returns.bind fun ⟨id, b₁⟩ ⟨hid, hsize, hrest, hown⟩ => ?_
  refine (bumpMany_eq b₁ n).bind fun b₂ hb₂ => ?_
  subst hb₂ hid
  have hpos : b₁.pos = b.pos := by rw [hrest]
  have hstart : (slot b₁.nodes b.nodes.size).tokenStart = b.pos := by
    have hnode := congrArg FlatNode.tokenStart (hown b.nodes.size)
    rwa [if_pos rfl] at hnode
  unfold finish finishAt
  refine Build.Returns.bind (P := fun b' => b'.nodes.size = b.nodes.size + 1 ∧
    b'.openPath = b.openPath ∧ _) ?_ fun b₃ h₃ => .ok h₃
  refine (returns_node _ _).bind ?_
  rintro node ⟨hlt, rfl⟩
  refine .ite (fun _ => ?_) fun _ => .fault
  unfold modify
  refine .ite (fun _ => .ok ⟨?_, ?_, fun i => ?_⟩) fun _ => .fault
  · rw [Array.size_modify, hsize]
  · exact openPath_congr (by rw [hrest])
  · have hi := hown i
    rw [slot_modify hlt]
    split
    · rename_i heq
      rw [if_pos heq] at hi
      have hcount : b₁.pos + n - (slot b₁.nodes b.nodes.size).tokenStart = n := by
        rw [hstart, hpos, Nat.add_sub_cancel_left]
      simp only [hcount]
      exact congrArg (fun m => { m with tokenCount := n }) hi
    · rename_i hne
      rwa [if_neg hne] at hi

/-! What keeps the names -/

theorem NamedAt.kind_succ {i : Nat} (h : b.NamedAt i) :
    (slot b.nodes (i + 1)).kind = .elementName :=
  (congrArg FlatNode.kind h.2.2 :)

namespace Named

variable (h : b.Named)
include h

theorem quiet (hx : Extends n b b') (hf : Final b b') : b'.Named := by
  intro i hi
  have hlt : i < b.nodes.size := by
    by_contra hnew
    have hfresh := hx.fresh i (Nat.le_of_not_lt hnew) (lt_size_of_kind (by rw [hi]; nofun))
    rw [hi] at hfresh
    cases hfresh
  obtain ⟨hnext, hclosed, hname⟩ := h i ((hx.kind i hlt).symm.trans hi)
  refine ⟨hnext.trans_le hf.size, fun hopen => hclosed (hf.opened _ hopen hnext), ?_⟩
  rw [hf.own _ hnext hclosed, hname, hx.tokenStart i hlt]

theorem grow (hsize : b.nodes.size ≤ b'.nodes.size) (hopen : b'.openPath = b.openPath)
    (hown : ∀ i < b.nodes.size, (slot b'.nodes i).own = (slot b.nodes i).own)
    (hnew : ∀ i, b.nodes.size ≤ i → (slot b'.nodes i).kind = .element → b'.NamedAt i) :
    b'.Named := by
  intro i hi
  rcases Nat.lt_or_ge i b.nodes.size with hlt | hge
  · have hkind : (slot b'.nodes i).kind = (slot b.nodes i).kind :=
      (congrArg FlatNode.kind (hown i hlt) :)
    have hstart : (slot b'.nodes i).tokenStart = (slot b.nodes i).tokenStart :=
      (congrArg FlatNode.tokenStart (hown i hlt) :)
    obtain ⟨hnext, hclosed, hname⟩ := h i (hkind.symm.trans hi)
    refine ⟨hnext.trans_le hsize, hopen ▸ hclosed, ?_⟩
    rw [hown _ hnext, hname, hstart]
  · exact hnew i hge hi

theorem modify (hid : (slot b.nodes id).kind = .element) {f : FlatNode → FlatNode}
    (hkind : ∀ m, (f m).kind = m.kind) (hstart : ∀ m, (f m).tokenStart = m.tokenStart) :
    Build.Returns (b.modify id f) fun b' => b'.Named ∧ (slot b'.nodes id).kind = .element := by
  unfold Builder.modify
  refine .ite (fun hlt => .ok ?_) fun _ => .fault
  have hkind' (i : Nat) : (slot (b.nodes.modify id f) i).kind = (slot b.nodes i).kind := by
    rw [slot_modify hlt]
    split
    · exact hkind _
    · rfl
  have hstart' (i : Nat) :
      (slot (b.nodes.modify id f) i).tokenStart = (slot b.nodes i).tokenStart := by
    rw [slot_modify hlt]
    split
    · exact hstart _
    · rfl
  refine ⟨fun i hi => ?_, (hkind' id).trans hid⟩
  have hold := h i ((hkind' i).symm.trans hi)
  have hne : i + 1 ≠ id := by
    rintro rfl
    cases hid.symm.trans hold.kind_succ
  obtain ⟨hnext, hclosed, hname⟩ := hold
  refine ⟨?_, hclosed, ?_⟩
  · rw [Array.size_modify]
    exact hnext
  · rw [slot_modify hlt, if_neg hne, hname, hstart']

theorem setFlag (hid : (slot b.nodes id).kind = .element) (flag : ElementFlag) :
    Build.Returns (b.setFlag id flag) fun b' =>
      b'.Named ∧ (slot b'.nodes id).kind = .element :=
  h.modify (f := fun n => { n with data := n.data ||| flag.bit }) hid (fun _ => rfl) fun _ => rfl

theorem finish (hid : (slot b.nodes id).kind = .element) :
    Build.Returns (b.finish id) (·.Named) := by
  unfold Builder.finish finishAt
  refine Build.Returns.any.bind fun node _ => ?_
  refine .ite (fun _ => ?_) fun _ => .fault
  exact (h.modify (f := fun n => { n with tokenCount := b.pos - node.tokenStart }) hid
    (fun _ => rfl) fun _ => rfl).mono fun _ => And.left

theorem pushFrame {f : Frame} (hf : (slot b.nodes f.node).kind ≠ .elementName) :
    (b.pushFrame f).Named := by
  obtain ⟨hnodes, hstack⟩ := nodes_pushFrame b f
  have hpath : (b.pushFrame f).openPath = f.node :: b.openPath := by
    unfold openPath
    rw [hstack]
    rfl
  intro i hi
  rw [hnodes] at hi
  have hold := h i hi
  refine ⟨hnodes ▸ hold.1, ?_, hnodes ▸ hold.2.2⟩
  rw [hpath, List.mem_cons, not_or]
  refine ⟨?_, hold.2.1⟩
  intro heq
  exact hf (heq ▸ hold.kind_succ)

theorem element (hlt : ∀ p ∈ b.openPath, p < b.nodes.size)
    (hsize : b'.nodes.size = b.nodes.size + 1 + 1) (hopen : b'.openPath = b.openPath)
    (hown : ∀ i < b.nodes.size, (slot b'.nodes i).own = (slot b.nodes i).own)
    (hstart : (slot b'.nodes b.nodes.size).tokenStart = b.pos)
    (hname : (slot b'.nodes (b.nodes.size + 1)).own = nameLeaf b.nodes.size b.pos) : b'.Named := by
  refine h.grow ?_ hopen hown fun i hge hi => ?_
  · rw [hsize]
    exact (Nat.le_succ _).trans (Nat.le_succ _)
  · have hi' : i < b'.nodes.size := lt_size_of_kind (by rw [hi]; nofun)
    rw [hsize, Nat.lt_succ_iff_lt_or_eq] at hi'
    rcases hi' with hi' | rfl
    · obtain rfl : i = b.nodes.size := le_antisymm (Nat.le_of_lt_succ hi') hge
      refine ⟨hsize ▸ Nat.lt_succ_self _, fun hmem => ?_, hstart ▸ hname⟩
      exact absurd (hlt _ (hopen ▸ hmem)) (Nat.not_lt_of_le (Nat.le_succ _))
    · have hkind : (slot b'.nodes (b.nodes.size + 1)).kind = .elementName :=
        (congrArg FlatNode.kind hname :)
      cases hkind.symm.trans hi

/-! Start tags and blocks -/

theorem openTag (hs : b.Sound t) : Build.Returns (b.openTag t) fun (_, element, _, b') =>
    b'.Named ∧ (slot b'.nodes element).kind = .element := by
  have hx : Extends b.nodes.size b b := .refl le_rfl
  unfold Builder.openTag
  refine Build.Returns.any.bind fun name _ => ?_
  refine ((hs.closeForSibling name).returns.and ((hx.closeForSibling name).returns.and
    ((Changes.refl b).closeForSibling name))).bind fun b₁ ⟨⟨hs₁, _⟩, hx₁, hc₁⟩ => ?_
  have h₁ := h.quiet hx₁ hc₁.final
  refine (startIn_own b₁ _ _).returns.bind fun ⟨element, b₂⟩ ⟨hid, hsize, hrest, hown⟩ => ?_
  refine (returns_bump b₂).bind fun b₃ ⟨_, hb₃⟩ => ?_
  subst hid hb₃
  refine (leaf_own _ _ _ _).bind fun ⟨_, b₄⟩ ⟨hsize₄, hopen₄, hown₄⟩ => ?_
  have hlt : ∀ p ∈ b₁.openPath, p < b₁.nodes.size := hs₁.growing.spine.lt_size hs₁.growing.linked
  have hopen : b₄.openPath = b₁.openPath := hopen₄.trans (openPath_congr (by rw [hrest]))
  have hpos : b₂.pos = b₁.pos := by rw [hrest]
  have hold (i : Nat) (hi : i < b₁.nodes.size + 1) :
      (slot b₄.nodes i).own = (slot b₂.nodes i).own := by
    rw [hown₄, if_neg]
    exact (hsize ▸ hi).ne
  have helement : (slot b₄.nodes b₁.nodes.size).own =
      { FlatNode.unlinked .element b₁.pos with parent := some b₁.parent } := by
    rw [hold _ (Nat.lt_succ_self _), hown, if_pos rfl]
  have h₄ : b₄.Named := by
    refine h₁.element hlt ?_ hopen (fun i hi => ?_) (congrArg FlatNode.tokenStart helement :) ?_
    · rw [hsize₄, hsize]
    · rw [hold i (hi.trans (Nat.lt_succ_self _)), hown, if_neg hi.ne]
    · rw [hown₄, if_pos hsize.symm, hpos]
      rfl
  have hinner : Inner t b₁.nodes.size b₄ b₄ := .refl
  refine (hinner.eatGenericArgs b.pos).bind fun b₅ h₅ => ?_
  refine h₅.tagItems.bind fun ⟨tagEnd, b₆⟩ h₆ => .ok ?_
  have hkind : (slot b₄.nodes b₁.nodes.size).kind = .element := (congrArg FlatNode.kind helement :)
  have hsize' : b₁.nodes.size < b₄.nodes.size := lt_size_of_kind (by rw [hkind]; nofun)
  exact ⟨h₄.quiet h₆.extends h₆.final, (h₆.extends.kind _ hsize').trans hkind⟩

theorem unterminatedTag (hid : (slot b.nodes id).kind = .element) (first : Nat) (name : String) :
    Build.Returns (b.unterminatedTag t id first name) (·.Named) := by
  unfold Builder.unterminatedTag
  refine (h.setFlag hid _).bind fun b₁ ⟨h₁, hid₁⟩ => ?_
  refine (h₁.setFlag hid₁ _).bind fun b₂ ⟨h₂, hid₂⟩ => ?_
  have h₂' : Named { b₂ with metadata := b₂.metadata.setClosedBy id .unterminatedStartTag } := h₂
  refine (h₂'.finish hid₂).bind fun b₃ h₃ => ?_
  refine (returns_report b₃ _ _ _ _ _).mono fun b' ⟨_, _, hb'⟩ => ?_
  subst hb'
  exact h₃

theorem emptyElement (hid : (slot b.nodes id).kind = .element) (name : String)
    (selfClosed : Bool) : Build.Returns (b.emptyElement id name selfClosed) (·.Named) := by
  have hflag {b₁ : Builder} (h₁ : b₁.Named) (hid₁ : (slot b₁.nodes id).kind = .element) (c : Bool)
      (flag : ElementFlag) : Build.Returns (b₁.setFlagIf c id flag) fun b' =>
        b'.Named ∧ (slot b'.nodes id).kind = .element :=
    .ite (fun _ => h₁.setFlag hid₁ flag) fun _ => .ok ⟨h₁, hid₁⟩
  unfold Builder.emptyElement
  refine (hflag h hid selfClosed .selfClosing).bind fun b₁ ⟨h₁, hid₁⟩ => ?_
  refine (hflag h₁ hid₁ (isVoidElement name) .void).bind fun b₂ ⟨h₂, hid₂⟩ => ?_
  exact h₂.finish hid₂

theorem startTag (hs : b.Sound t) : Build.Returns (b.startTag t) (·.Named) := by
  rw [startTag_eq]
  refine (h.openTag hs).bind fun ⟨name, element, tagEnd, b'⟩ ⟨h', hid⟩ => ?_
  refine .ite (fun _ => h'.unterminatedTag hid _ _) fun _ => ?_
  refine .ite (fun _ => h'.emptyElement hid _ _) fun _ => ?_
  refine Build.Returns.any.bind fun _ _ => .ok ?_
  apply h'.pushFrame
  rw [hid]
  nofun

theorem openBlock (rule : BlockRule) (name : String) :
    Build.Returns (b.openBlock t rule name) (·.Named) := by
  unfold Builder.openBlock
  refine Build.Returns.any.bind fun _ _ => ?_
  refine (startIn_own b _ _).returns.bind fun ⟨block, b₁⟩ ⟨hid, hsize, hrest, hown⟩ => ?_
  subst hid
  have hkind : (slot b₁.nodes b.nodes.size).kind = .directiveBlock := by
    have hnew := congrArg FlatNode.kind (hown b.nodes.size)
    rwa [if_pos rfl] at hnew
  have hlt : b.nodes.size < b₁.nodes.size := hsize ▸ Nat.lt_succ_self _
  have h₁ : b₁.Named := by
    refine h.grow hlt.le (openPath_congr (by rw [hrest])) (fun i hi => ?_) fun i hge hi => ?_
    · rw [hown, if_neg hi.ne]
    · have hi' : i < b₁.nodes.size := lt_size_of_kind (by rw [hi]; nofun)
      rw [hsize] at hi'
      obtain rfl : i = b.nodes.size := le_antisymm (Nat.le_of_lt_succ hi') hge
      cases hkind.symm.trans hi
  have hx₁ : Extends b₁.nodes.size b₁ b₁ := .refl le_rfl
  have hleaf := (hx₁.directiveLeaf (t := t) b.nodes.size .opener).returns.and
    ((Final.refl b₁).directiveLeaf .opener b.nodes.size)
  refine hleaf.bind fun b₂ ⟨hx₂, hf₂⟩ => .ok ?_
  apply (h₁.quiet hx₂ hf₂).pushFrame
  rw [hx₂.kind _ hlt, hkind]
  nofun

end Named

theorem invariant_named (t : Tokenized) : Invariant t Named where
  quiet _ _ h := h.quiet
  startTag _ hs h := h.startTag hs
  openBlock _ rule name _ h := h.openBlock rule name

theorem named_initial : initial.Named := by
  intro i hi
  rw [slot_initial] at hi
  cases hi

theorem named_build (hext : t.options.treeExtensions = []) :
    Build.Returns (build t) (·.Named) :=
  (invariant_named t).build hext named_initial

end Builder
end BladeTree
