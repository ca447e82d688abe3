import BladeTree.Proofs.Tree.Calm
import BladeTree.Proofs.Tree.Named

namespace BladeTree

namespace FlatNode

def emptied (selfClosed void : Bool) (stop : Nat) (n : FlatNode) : FlatNode :=
  { n with
    data :=
      let data := if selfClosed then n.data ||| ElementFlag.selfClosing.bit else n.data
      if void then data ||| ElementFlag.void.bit else data
    tokenCount := stop - n.tokenStart }

def broken (stop : Nat) (n : FlatNode) : FlatNode :=
  { n with
    data := n.data ||| ElementFlag.unclosedStartTag.bit ||| ElementFlag.syntheticClose.bit
    tokenCount := stop - n.tokenStart }

def closedAt (stop : Nat) (n : FlatNode) : FlatNode :=
  { n with data := n.data ||| ElementFlag.paired.bit, tokenCount := stop - n.tokenStart }

theorem tokenEnd_emptied {n : FlatNode} {selfClosed void : Bool} {stop : Nat}
    (h : n.tokenStart ≤ stop) : (n.emptied selfClosed void stop).tokenEnd = stop :=
  Nat.add_sub_cancel' h

theorem hasFlag_emptied {n : FlatNode} {selfClosed void : Bool} {stop : Nat} (hdata : n.data = 0)
    (h : selfClosed || void) :
    (n.emptied selfClosed void stop).hasFlag .void ∨
      (n.emptied selfClosed void stop).hasFlag .selfClosing := by
  simp only [emptied, hasFlag, hdata]
  cases void with
  | true =>
      left
      cases selfClosed <;> decide
  | false =>
      right
      rw [Bool.or_false] at h
      subst h
      decide

end FlatNode

def Frame.forced (f : Frame) (stop : Nat) (n : FlatNode) : FlatNode :=
  { n with
    data := match f.kind with
      | .element _ => n.data ||| ElementFlag.syntheticClose.bit
      | .directive _ _ => n.data
    tokenCount := stop - n.tokenStart }

namespace Builder

variable {t : Tokenized} {b b' b'' b₁ b₂ : Builder} {n q i id element : Nat} {name : String}
  {f g : FlatNode → FlatNode}

/-! Changes of one node -/

structure Alters (b : Builder) (id : Nat) (f : FlatNode → FlatNode) (b' : Builder) : Prop where
  size : b'.nodes.size = b.nodes.size
  slot_eq : ∀ i, slot b'.nodes i = if i = id then f (slot b.nodes i) else slot b.nodes i

namespace Alters

theorem refl (b : Builder) (id : Nat) : b.Alters id (fun n => n) b :=
  ⟨rfl, fun _ => by split <;> rfl⟩

theorem trans (h : b.Alters id f b') (h' : b'.Alters id g b'') :
    b.Alters id (fun n => g (f n)) b'' where
  size := h'.size.trans h.size
  slot_eq i := by
    rw [h'.slot_eq, h.slot_eq]
    split <;> rfl

theorem of_nodes (h : b.Alters id f b') (hnodes : b''.nodes = b'.nodes) : b.Alters id f b'' :=
  ⟨hnodes ▸ h.size, hnodes ▸ h.slot_eq⟩

theorem self (h : b.Alters id f b') : slot b'.nodes id = f (slot b.nodes id) := by
  rw [h.slot_eq, if_pos rfl]

theorem other (h : b.Alters id f b') (hi : i ≠ id) : slot b'.nodes i = slot b.nodes i := by
  rw [h.slot_eq, if_neg hi]

end Alters

theorem alters_modify (b : Builder) (id : Nat) (f : FlatNode → FlatNode) :
    Build.Returns (b.modify id f) fun b' =>
      b.Alters id f b' ∧ b' = { b with nodes := b'.nodes } := by
  refine (returns_modify b id f).mono fun b' ⟨hid, hb'⟩ => ?_
  subst hb'
  exact ⟨⟨Array.size_modify, fun i => slot_modify hid i⟩, rfl⟩

theorem alters_finishAt (b : Builder) (id stop : Nat) :
    Build.Returns (b.finishAt id stop) fun b' =>
      b.Alters id (fun n => { n with tokenCount := stop - n.tokenStart }) b' ∧
        b' = { b with nodes := b'.nodes } := by
  refine (returns_finishAt b id stop).mono fun b' ⟨hid, hb'⟩ => ?_
  subst hb'
  refine ⟨⟨Array.size_modify, fun i => ?_⟩, rfl⟩
  rw [slot_modify hid]
  split
  · rename_i heq
    rw [heq]
  · rfl

theorem alters_setFlagIf (b : Builder) (c : Bool) (id : Nat) (flag : ElementFlag) :
    Build.Returns (b.setFlagIf c id flag) fun b' =>
      b.Alters id (fun n => { n with data := if c then n.data ||| flag.bit else n.data }) b' ∧
        b' = { b with nodes := b'.nodes } := by
  unfold setFlagIf
  cases c with
  | false => exact .ok ⟨Alters.refl b id, rfl⟩
  | true => exact alters_modify b id _

theorem alters_emptyElement (b : Builder) (id : Nat) (name : String) (selfClosed : Bool) :
    Build.Returns (b.emptyElement id name selfClosed) fun b' =>
      b.Alters id (FlatNode.emptied selfClosed (isVoidElement name) b.pos) b' ∧
        b' = { b with nodes := b'.nodes } := by
  unfold emptyElement
  refine (alters_setFlagIf b selfClosed id .selfClosing).bind fun b₁ ⟨h₁, hb₁⟩ => ?_
  refine (alters_setFlagIf b₁ (isVoidElement name) id .void).bind fun b₂ ⟨h₂, hb₂⟩ => ?_
  refine (alters_finishAt b₂ id b₂.pos).mono fun b₃ ⟨h₃, hb₃⟩ => ?_
  have hpos : b₂.pos = b.pos := by rw [hb₂, hb₁]
  rw [hpos] at h₃
  refine ⟨(h₁.trans h₂).trans h₃, ?_⟩
  rw [hb₃, hb₂, hb₁]

theorem alters_unterminatedTag (b : Builder) (id first : Nat) (name : String) :
    Build.Returns (b.unterminatedTag t id first name) fun b' =>
      b.Alters id (FlatNode.broken b.pos) b' ∧ b'.stack = b.stack ∧ b'.pos = b.pos ∧
        b'.metadata = b.metadata.setClosedBy id .unterminatedStartTag := by
  unfold unterminatedTag
  refine (alters_modify b id _).bind fun b₁ ⟨h₁, hb₁⟩ => ?_
  refine (alters_modify b₁ id _).bind fun b₂ ⟨h₂, hb₂⟩ => ?_
  refine (alters_finishAt _ id _).bind fun b₃ ⟨h₃, hb₃⟩ => ?_
  refine (returns_report b₃ _ _ _ _ _).mono fun b' ⟨_, _, hb'⟩ => ?_
  subst hb'
  have hpos : b₂.pos = b.pos := by rw [hb₂, hb₁]
  have h₂' : b.Alters id _ { b₂ with
      metadata := b₂.metadata.setClosedBy id .unterminatedStartTag } :=
    (h₁.trans h₂).of_nodes rfl
  refine ⟨?_, ?_, ?_, ?_⟩
  · rw [← hpos]
    exact (h₂'.trans h₃).of_nodes rfl
  · rw [hb₃, hb₂, hb₁]
    rfl
  · rw [hb₃, hb₂, hb₁]
    rfl
  · rw [hb₃, hb₂, hb₁]
    rfl

/-! Frames that end -/

theorem alters_popFrame {f : Frame} {below : List Frame} (hs : b.stack = f :: below) (stop : Nat) :
    Build.Returns (b.popFrame stop) fun (popped, b') => popped = some f ∧
      b.Alters f.node (fun n => { n with tokenCount := stop - n.tokenStart }) b' ∧
      b'.stack = below ∧ b'.pos = b.pos ∧ b'.metadata = b.metadata := by
  refine (returns_popFrame hs stop).mono
    fun (popped, b') ⟨hpopped, hstack, hpos, hm, _, hlt, hnodes⟩ =>
      ⟨hpopped, ⟨?_, fun i => ?_⟩, hstack, hpos, hm⟩
  · rw [hnodes, Array.size_modify]
  · rw [hnodes, slot_modify hlt]
    split
    · rename_i heq
      rw [heq]
    · rfl

theorem alters_forceClose {f : Frame} {below : List Frame} (hs : b.stack = f :: below)
    (reason : ClosedBy) (stop : Nat) (context : Option String) :
    Build.Returns (b.forceClose t reason stop context) fun b' =>
      b.Alters f.node (f.forced stop) b' ∧ b'.pos = b.pos := by
  rw [forceClose_eq]
  refine (alters_popFrame hs stop).bind fun ⟨popped, b₁⟩ ⟨hpopped, h₁, _, hpos₁, _⟩ => ?_
  subst hpopped
  obtain ⟨node, kind⟩ := f
  have hreport {b₂ : Builder} {g : FlatNode → FlatNode} (h₂ : b.Alters node g b₂)
      (hpos₂ : b₂.pos = b.pos) (kind : DiagnosticKind) (i j : Nat) (name : String) :
      Build.Returns (b₂.reportTokens t kind i j name context) fun b' =>
        b.Alters node g b' ∧ b'.pos = b.pos := by
    refine (returns_report b₂ kind i j name context).mono fun b' ⟨_, _, hb'⟩ => ?_
    subst hb'
    exact ⟨h₂.of_nodes rfl, hpos₂⟩
  have hclosedBy : b.Alters node _
      { b₁ with metadata := b₁.metadata.setClosedBy node reason } := h₁.of_nodes rfl
  unfold settle
  refine Build.Returns.any.bind fun first _ => ?_
  cases kind with
  | element name =>
      refine (alters_modify _ node _).bind fun b₂ ⟨h₂, hb₂⟩ => ?_
      have h₂' := hclosedBy.trans h₂
      have hpos₂ : b₂.pos = b.pos := by rw [hb₂]; exact hpos₁
      exact .ite (fun _ => .ok ⟨h₂', hpos₂⟩) fun _ => hreport h₂' hpos₂ _ _ _ _
  | directive rule name =>
      simp only
      split
      · exact Build.Returns.any.bind fun _ _ => hreport hclosedBy hpos₁ _ _ _ _
      · exact Build.Returns.any.bind fun _ _ => hreport hclosedBy hpos₁ _ _ _ _

/-! Closing tags -/

theorem leaf_rest (b : Builder) (q : Nat) (kind : NodeKind) (n : Nat) :
    Build.Returns (b.leaf t q kind n) fun (id, b') =>
      id = b.nodes.size ∧ b' = { b with pos := b.pos + n, nodes := b'.nodes } := by
  unfold leaf
  refine (startIn_own b q kind).returns.bind fun ⟨id, b₁⟩ ⟨hid, _, hrest, _⟩ => ?_
  refine (bumpMany_eq b₁ n).bind fun b₂ hb₂ => ?_
  refine (returns_finishAt b₂ id b₂.pos).bind fun b₃ ⟨_, hb₃⟩ => .ok ⟨hid, ?_⟩
  rw [hb₃, hb₂, hrest]

def closingLeaf (p start n : Nat) : FlatNode :=
  { FlatNode.unlinked .closingElementName start with tokenCount := n, parent := some p }

def closeElement (t : Tokenized) (b : Builder) (n : Nat) : Build Builder := do
  let (_, b') ← b.leaf t b.parent .closingElementName n
  let b' ← b'.setFlag b.parent .paired
  return (← b'.popFrame b'.pos).2

theorem returns_closeElement {f : Frame} {below : List Frame} (hs : b.stack = f :: below)
    (hf : f.node < b.nodes.size) (n : Nat) :
    Build.Returns (b.closeElement t n) fun b' =>
      b'.stack = below ∧ b'.pos = b.pos + n ∧ b'.metadata = b.metadata ∧
        b'.nodes.size = b.nodes.size + 1 ∧ ∀ i, (slot b'.nodes i).own =
          if i = b.nodes.size then closingLeaf f.node b.pos n
          else if i = f.node then ((slot b.nodes i).closedAt (b.pos + n)).own
          else (slot b.nodes i).own := by
  have hparent : b.parent = f.node := by
    unfold parent
    rw [hs]
    rfl
  unfold closeElement
  rw [hparent]
  refine ((leaf_own b f.node .closingElementName n).and (leaf_rest b _ _ n)).bind
    fun ⟨_, b₁⟩ ⟨⟨hsize, _, hown⟩, _, hrest⟩ => ?_
  refine (alters_modify b₁ f.node _).bind fun b₂ ⟨h₂, hb₂⟩ => ?_
  have hstack₂ : b₂.stack = f :: below := by rw [hb₂, hrest, hs]
  refine (alters_popFrame hstack₂ _).bind
    fun ⟨_, b₃⟩ ⟨_, h₃, hstack, hpos₃, hm₃⟩ => .ok ⟨hstack, ?_, ?_, ?_, fun i => ?_⟩
  · rw [hpos₃, hb₂, hrest]
  · rw [hm₃, hb₂, hrest]
  · rw [h₃.size, h₂.size, hsize]
  · have hpos : b₂.pos = b.pos + n := by rw [hb₂, hrest]
    rw [(h₂.trans h₃).slot_eq, hpos]
    by_cases heq : i = f.node
    · have hi := hown f.node
      rw [if_neg hf.ne] at hi
      subst heq
      rw [if_pos rfl, if_neg hf.ne, if_pos rfl]
      exact congrArg (FlatNode.closedAt (b.pos + n)) hi
    · rw [if_neg heq, if_neg heq]
      exact hown i

/-! Elements with names -/

/-- Node `i` is an element called `name`, and the node after it has the name. -/
structure Titled (t : Tokenized) (b : Builder) (i : Nat) (name : String) : Prop where
  kind : (slot b.nodes i).kind = .element
  text : t.text ((slot b.nodes i).tokenStart + 1) = .ok name
  leaf : b.NamedAt i

namespace Titled

theorem lt_size (h : b.Titled t i name) : i < b.nodes.size :=
  (Nat.lt_succ_self i).trans h.leaf.1

theorem congr (h : b.Titled t i name) (hkind : (slot b'.nodes i).kind = (slot b.nodes i).kind)
    (hstart : (slot b'.nodes i).tokenStart = (slot b.nodes i).tokenStart)
    (hlt : i + 1 < b'.nodes.size) (hclosed : i + 1 ∉ b'.openPath)
    (hown : (slot b'.nodes (i + 1)).own = (slot b.nodes (i + 1)).own) : b'.Titled t i name where
  kind := hkind.trans h.kind
  text := hstart ▸ h.text
  leaf := ⟨hlt, hclosed, by rw [hown, hstart, h.leaf.2.2]⟩

theorem keep (h : b.Titled t i name) (hw : Widens n b b') (hf : Final b b') :
    b'.Titled t i name := by
  obtain ⟨hlt, hclosed, -⟩ := h.leaf
  refine h.congr (hw.kind_eq h.lt_size) (hw.tokenStart_eq h.lt_size) (hlt.trans_le hw.size) ?_
    (hf.own _ hlt hclosed)
  exact fun hopen => hclosed (hf.opened _ hopen hlt)

theorem pushFrame (h : b.Titled t i name) {f : Frame} (hf : f.node ≠ i + 1) :
    (b.pushFrame f).Titled t i name := by
  obtain ⟨hnodes, hstack⟩ := nodes_pushFrame b f
  refine h.congr (by rw [hnodes]) (by rw [hnodes]) (hnodes ▸ h.leaf.1) ?_ (by rw [hnodes])
  unfold openPath
  rw [hstack, List.map_cons, List.cons_append, List.mem_cons, not_or]
  exact ⟨hf.symm, h.leaf.2.1⟩

end Titled

/-- From `b₁` to `b'` a start tag was read up to its end. It is the new node `element`, which is
called `name` and not yet open. -/
structure ReadsTag (t : Tokenized) (b₁ : Builder) (name : String) (element : Nat) (b' : Builder) :
    Prop where
  changes : Changes t b₁ b'
  calm : Calm (· ≠ .closingElementName) b₁ b'
  id_eq : element = b₁.nodes.size
  titled : b'.Titled t element name
  own : (slot b'.nodes element).own =
    { FlatNode.unlinked .element b₁.pos with parent := some b₁.parent }
  plain : ∀ i, element < i → i < b'.nodes.size → (slot b'.nodes i).kind.isPlain
  under : ∀ i p, element < i → (slot b'.nodes i).parent = some p → element ≤ p

theorem Inner.isPlain_of_new (h : Inner t q b b') (hi : b.nodes.size ≤ i)
    (hlt : i < b'.nodes.size) : (slot b'.nodes i).kind.isPlain := by
  induction h with
  | refl => exact absurd hlt (Nat.not_lt_of_le hi)
  | bump _ hb ih =>
      obtain ⟨-, rfl⟩ := returns_bump _ _ hb
      exact ih hlt
  | @node b₁ b₂ p id kind h₁ _ hk hb ih =>
      have hs := (startIn_starts b₁ p kind).returns _ hb
      rcases Nat.lt_or_ge i b₁.nodes.size with hold | hnew
      · have hkind : (slot b₂.nodes i).kind = (slot b₁.nodes i).kind :=
          congrArg (·.1) (hs.old i hold)
        rw [hkind]
        exact ih hold
      · obtain rfl := hs.eq_of_ge hnew hlt
        rw [hs.kind_eq]
        exact hk
  | @finish b₁ b₂ id _ _ hb ih =>
      obtain ⟨ha, -⟩ := alters_finishAt b₁ id _ _ hb
      rw [ha.slot_eq]
      split <;> exact ih (ha.size ▸ hlt)
  | @data b₁ b₂ id data _ _ hb ih =>
      obtain ⟨ha, -⟩ := alters_modify b₁ id _ _ hb
      rw [ha.slot_eq]
      split <;> exact ih (ha.size ▸ hlt)
  | genericArgs _ _ ih => exact ih hlt
  | report _ _ hb ih =>
      obtain ⟨span, -, rfl⟩ := returns_report _ _ _ _ _ _ _ hb
      exact ih hlt

theorem returns_openTag (hs : b.Sound t) :
    Build.Returns (b.openTag t) fun (name, element, _, b') =>
      t.text (b.pos + 1) = .ok name ∧
        ∃ b₁, b.closeForSibling t name = .ok b₁ ∧ b₁.ReadsTag t name element b' := by
  unfold openTag
  refine Build.Returns.bind (P := (t.text (b.pos + 1) = .ok ·)) (fun _ => id) fun name hname => ?_
  refine Build.Returns.bind (P := fun b₁ => b.closeForSibling t name = .ok b₁ ∧ b₁.Sound t ∧
    b₁.pos = b.pos) (fun b₁ hb₁ => ⟨hb₁, (hs.closeForSibling name).returns _ hb₁⟩)
    fun b₁ ⟨hclose, hs₁, hpos₁⟩ => ?_
  refine ((startIn_own b₁ b₁.parent .element).returns.and
    (((Changes.refl (t := t) b₁).startIn rfl).and
      ((Calm.refl (K := (· ≠ .closingElementName)) b₁).startIn (.inl b₁.parent_mem_openPath)
        nofun))).bind
    fun ⟨element, b₂⟩ ⟨⟨hid, hsize, hrest, hown⟩, ⟨hc₂, hnew⟩, hcalm₂, _⟩ => ?_
  subst hid
  have hinner : Inner t b₁.nodes.size b₂ b₂ := .refl
  refine Build.Returns.bind (P := fun b₃ => Inner t b₁.nodes.size b₂ b₃ ∧
    b₃ = { b₂ with pos := b₂.pos + 1 }) (fun b₃ hb₃ => ⟨hinner.bump hb₃, (returns_bump _ _ hb₃).2⟩)
    fun b₃ ⟨h₃, hb₃⟩ => ?_
  refine ((h₃.leaf (.inl rfl) rfl 1).and (leaf_own b₃ _ _ 1)).bind
    fun ⟨_, b₄⟩ ⟨⟨h₄, _⟩, hsize₄, hopen₄, hown₄⟩ => ?_
  refine ((h₄.eatGenericArgs b.pos).and (Inner.refl.eatGenericArgs b.pos)).bind
    fun b₅ ⟨h₅, hlast₅⟩ => ?_
  refine (h₅.tagItems.and hlast₅.tagItems).bind fun ⟨tagEnd, b₆⟩ ⟨h₆, hlast₆⟩ => .ok ?_
  subst hb₃
  have hlt : ∀ p ∈ b₁.openPath, p < b₁.nodes.size := hs₁.growing.spine.lt_size hs₁.growing.linked
  have hopen₂ : b₂.openPath = b₁.openPath := openPath_congr (by rw [hrest])
  have hclosed (k : Nat) : b₁.nodes.size + k ∉ b₂.openPath := by
    intro hmem
    have := hlt _ (hopen₂ ▸ hmem)
    omega
  have helement : (slot b₂.nodes b₁.nodes.size).own =
      { FlatNode.unlinked .element b₁.pos with parent := some b₁.parent } := by
    rw [hown, if_pos rfl]
  have hkind : (slot b₂.nodes b₁.nodes.size).kind = .element := (congrArg FlatNode.kind helement :)
  have hlt₂ : b₁.nodes.size < b₂.nodes.size := hsize ▸ Nat.lt_succ_self _
  have hown₆ : (slot b₆.nodes b₁.nodes.size).own = (slot b₂.nodes b₁.nodes.size).own :=
    h₆.final.own _ hlt₂ (hclosed 0)
  have hstart : (slot b₆.nodes b₁.nodes.size).tokenStart = b₁.pos :=
    (congrArg FlatNode.tokenStart (hown₆.trans helement) :)
  have hstack : b₆.stack = b₁.stack := h₆.stack_eq.trans (by rw [hrest])
  have hlt₄ : b₁.nodes.size + 1 < b₄.nodes.size := by
    rw [hsize₄, hsize]
    exact Nat.lt_succ_self _
  have hname₆ : (slot b₆.nodes (b₁.nodes.size + 1)).own = nameLeaf b₁.nodes.size b₁.pos := by
    have hpos₂ : b₂.pos = b₁.pos := by rw [hrest]
    rw [hlast₆.final.own _ hlt₄ (hopen₄ ▸ hclosed 1), hown₄, if_pos hsize.symm, hpos₂]
    rfl
  have hcalm₆ : Calm (· ≠ .closingElementName) b₁ b₆ :=
    hcalm₂.inner h₆ (.inr le_rfl) fun kind hkind => by rintro rfl; cases hkind
  refine ⟨hname, b₁, hclose, hc₂.change (.inner hnew hkind h₆), hcalm₆, rfl, ⟨?_, ?_, ?_, ?_, ?_⟩,
    hown₆.trans helement, fun i hi hi' => ?_, fun i p hi hp => ?_⟩
  · exact (congrArg FlatNode.kind (hown₆.trans helement) :)
  · rw [hstart, hpos₁]
    exact hname
  · exact hlt₄.trans_le hlast₆.size_le
  · rw [openPath_congr hstack, ← hopen₂]
    exact hclosed 1
  · rw [hstart]
    exact hname₆
  · refine h₆.isPlain_of_new ?_ hi'
    rw [hsize]
    exact hi
  · rcases h₆.parent_of_new (hsize.trans_le hi) hp with rfl | ⟨hnew, -⟩
    · exact le_rfl
    · exact hlt₂.le.trans hnew

/-! The end of a start tag -/

structure Settles (t : Tokenized) (b₁ b' : Builder) (name : String) (element : Nat)
    (f : FlatNode → FlatNode) (frames : List Frame) (b'' : Builder) : Prop where
  changes : Changes t b₁ b''
  alters : b'.Alters element f b''
  settled : Settled f
  pos : b''.pos = b'.pos
  stack : b''.stack = frames ++ b₁.stack
  own : ∀ g ∈ frames, g = ⟨element, .element name⟩

/-- A start tag breaks off, ends its element or is followed by content. -/
inductive TagOutcome (t : Tokenized) (b₁ b' : Builder) (name : String) (element : Nat)
    (tagEnd : TagEnd) (b'' : Builder) : Prop
  | broken : tagEnd = .unterminated →
      Settles t b₁ b' name element (FlatNode.broken b'.pos) [] b'' →
      b''.metadata = b'.metadata.setClosedBy element .unterminatedStartTag →
      TagOutcome t b₁ b' name element tagEnd b''
  | empty (selfClosed void : Bool) : tagEnd ≠ .unterminated → selfClosed || void →
      Settles t b₁ b' name element (FlatNode.emptied selfClosed void b'.pos) [] b'' →
      b''.metadata = b'.metadata → TagOutcome t b₁ b' name element tagEnd b''
  | entered : tagEnd ≠ .unterminated →
      Settles t b₁ b' name element (fun n => n) [⟨element, .element name⟩] b'' →
      b''.metadata = b'.metadata → TagOutcome t b₁ b' name element tagEnd b''

/-- A start tag closes what it ends, is read as a new element, and has one of three outcomes. -/
theorem returns_startTag {Q : String × Nat × TagEnd × Builder → Prop} (hs : b.Sound t)
    (hopen : Build.Returns (b.openTag t) Q) :
    Build.Returns (b.startTag t) fun b'' => ∃ name element tagEnd b' b₁,
      Q (name, element, tagEnd, b') ∧ b.closeForSibling t name = .ok b₁ ∧
        b₁.ReadsTag t name element b' ∧ TagOutcome t b₁ b' name element tagEnd b'' := by
  have hsettled (data : FlatNode → Int32) (count : FlatNode → Nat) :
      Settled fun n => { n with data := data n, tokenCount := count n } :=
    ⟨fun _ => rfl, fun _ => rfl, fun _ => rfl⟩
  rw [startTag_eq]
  refine ((returns_openTag hs).and hopen).bind
    fun ⟨name, element, tagEnd, b'⟩ ⟨⟨_, b₁, hclose, hread⟩, hq⟩ => ?_
  have hnew : b₁.nodes.size ≤ element := hread.id_eq.ge
  refine Build.Returns.mono (P := TagOutcome t b₁ b' name element tagEnd) ?_
    fun b'' houtcome => ⟨name, element, tagEnd, b', b₁, hq, hclose, hread, houtcome⟩
  refine .ite (fun hbroken => ?_) fun hended => .ite (fun hempty => ?_) fun _ => ?_
  · refine ((hread.changes.unterminatedTag hnew _ _).and
      (alters_unterminatedTag b' element b.pos name)).mono fun b'' ⟨hc, ha, hstack, hpos, hm⟩ => ?_
    exact .broken hbroken
      ⟨hc, ha, hsettled _ _, hpos, hstack.trans hread.calm.stack, nofun⟩ hm
  · refine ((hread.changes.emptyElement hnew _ _).and
      (alters_emptyElement b' element name _)).mono fun b'' ⟨hc, ha, hrest⟩ => ?_
    have hstack : b''.stack = b'.stack := by rw [hrest]
    refine .empty _ _ hended hempty
      ⟨hc, ha, hsettled _ _, by rw [hrest], hstack.trans hread.calm.stack, nofun⟩ ?_
    rw [hrest]
  · refine Build.Returns.any.bind fun _ _ => .ok ?_
    have hrest := b'.pushFrame_rest ⟨element, .element name⟩
    refine .entered hended ⟨hread.changes.change (.enter hnew hread.titled.kind),
      (Alters.refl b' element).of_nodes (by rw [hrest]), hsettled (·.data) (·.tokenCount),
      by rw [hrest], ?_, fun _ => List.mem_singleton.1⟩ ?_
    · rw [hrest, hread.calm.stack]
      rfl
    · rw [hrest]

namespace Settles

variable {frames : List Frame}
  (h : Settles t b₁ b' name element f frames b'') (hread : b₁.ReadsTag t name element b')
include h

theorem kind_eq (i : Nat) : (slot b''.nodes i).kind = (slot b'.nodes i).kind := by
  rw [h.alters.slot_eq]
  split
  · exact h.settled.kind _
  · rfl

theorem tokenStart_eq (i : Nat) :
    (slot b''.nodes i).tokenStart = (slot b'.nodes i).tokenStart := by
  rw [h.alters.slot_eq]
  split
  · exact h.settled.tokenStart _
  · rfl

theorem parent_eq (i : Nat) : (slot b''.nodes i).parent = (slot b'.nodes i).parent := by
  rw [h.alters.slot_eq]
  split
  · exact h.settled.parent _
  · rfl

theorem openPath_eq : b''.openPath = frames.map (·.node) ++ b₁.openPath := by
  unfold openPath
  rw [h.stack, List.map_append, List.append_assoc]

theorem eq_of_mem_openPath (hi : i ∈ b''.openPath) :
    i ∈ b₁.openPath ∨ i = element ∧ frames ≠ [] := by
  rw [h.openPath_eq, List.mem_append, List.mem_map] at hi
  rcases hi with ⟨g, hg, rfl⟩ | hi
  · exact .inr ⟨congrArg Frame.node (h.own g hg), List.ne_nil_of_mem hg⟩
  · exact .inl hi

include hread

theorem titled : b''.Titled t element name := by
  obtain ⟨hlt, hclosed, -⟩ := hread.titled.leaf
  refine hread.titled.congr (h.kind_eq _) (h.tokenStart_eq _) (h.alters.size ▸ hlt)
    (fun hopen => ?_) (by rw [h.alters.other (Nat.succ_ne_self element)])
  rcases h.eq_of_mem_openPath hopen with hopen | ⟨heq, -⟩
  · exact hclosed (openPath_congr hread.calm.stack ▸ hopen)
  · exact absurd heq (Nat.succ_ne_self element)

theorem parent : (slot b''.nodes element).parent = some b₁.parent :=
  (h.parent_eq element).trans (congrArg FlatNode.parent hread.own :)

theorem tokenStart : (slot b''.nodes element).tokenStart = b₁.pos :=
  (h.tokenStart_eq element).trans (congrArg FlatNode.tokenStart hread.own :)

end Settles

end Builder
end BladeTree
