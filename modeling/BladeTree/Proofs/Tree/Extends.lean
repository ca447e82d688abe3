import BladeTree.Proofs.Tree.Ensures
import BladeTree.Proofs.Tree.Items

namespace BladeTree

def NodeKind.isFrame (k : NodeKind) : Bool := k == .directiveBlock || k == .element

/-- A block, or an element whose start tag ends with `>` and leaves room for content. -/
def FlatNode.opensFrame (n : FlatNode) : Bool :=
  n.kind == .directiveBlock || n.kind == .element &&
    !(n.hasFlag .selfClosing || n.hasFlag .void || n.hasFlag .unclosedStartTag)

/-- What a node is apart from its links and its length: its kind, place, parent and data. -/
def FlatNode.core (n : FlatNode) : NodeKind × Nat × Option Nat × Int32 :=
  (n.kind, n.tokenStart, n.parent, n.data)

/-- A node without its links to the nodes below and beside it. -/
def FlatNode.own (n : FlatNode) : FlatNode :=
  { n with firstChild := none, lastChild := none, nextSibling := none, prevSibling := none }

theorem FlatNode.opensFrame_of_core {n m : FlatNode} (h : n.core = m.core) :
    n.opensFrame = m.opensFrame := by
  simp only [core, Prod.mk.injEq] at h
  obtain ⟨hkind, -, -, hdata⟩ := h
  simp only [opensFrame, hasFlag, hkind, hdata]

theorem ElementFlag.isIn_or_bit {flag late : ElementFlag} (h : late.bit &&& flag.bit = 0)
    (data : Int32) : flag.isIn (data ||| late.bit) = flag.isIn data := by
  have hand : (data ||| late.bit) &&& flag.bit = data &&& flag.bit := by
    apply Int32.toBitVec_inj.1
    have h' := congrArg Int32.toBitVec h
    simp only [Int32.toBitVec_and, Int32.toBitVec_or] at h' ⊢
    rw [BitVec.and_comm, BitVec.and_or_distrib_left, BitVec.and_comm flag.bit.toBitVec,
      BitVec.and_comm flag.bit.toBitVec late.bit.toBitVec, h']
    simp
  rw [isIn, isIn, hand]

namespace ElementFlag

/-- The flags that tell how an element was closed. -/
def IsLate (flag : ElementFlag) : Prop := flag = .syntheticClose ∨ flag = .paired

theorem IsLate.opensFrame {late : ElementFlag} (h : late.IsLate) (n : FlatNode) :
    FlatNode.opensFrame { n with data := n.data ||| late.bit } = n.opensFrame := by
  have hand (flag : ElementFlag) (hflag : flag = .selfClosing ∨ flag = .void ∨
      flag = .unclosedStartTag) : flag.isIn (n.data ||| late.bit) = flag.isIn n.data := by
    refine isIn_or_bit ?_ _
    rcases h with rfl | rfl <;> rcases hflag with rfl | rfl | rfl <;> decide
  simp only [FlatNode.opensFrame, FlatNode.hasFlag, hand _ (.inl rfl), hand _ (.inr (.inl rfl)),
    hand _ (.inr (.inr rfl))]

end ElementFlag

namespace Builder

/-- The tree grew from `start` to `b`: old nodes keep kind, place and parent, the first `n` of them
keep what tells whether they were opened, none of the new ones is a frame, frames are only closed
and diagnostics only added. -/
structure Extends (n : Nat) (start b : Builder) : Prop where
  bound : n ≤ start.nodes.size
  size : start.nodes.size ≤ b.nodes.size
  kind : ∀ i < start.nodes.size, (slot b.nodes i).kind = (slot start.nodes i).kind
  tokenStart : ∀ i < start.nodes.size,
    (slot b.nodes i).tokenStart = (slot start.nodes i).tokenStart
  parent : ∀ i < start.nodes.size, (slot b.nodes i).parent = (slot start.nodes i).parent
  opens : ∀ i < n, (slot b.nodes i).opensFrame = (slot start.nodes i).opensFrame
  fresh : ∀ i, start.nodes.size ≤ i → i < b.nodes.size → (slot b.nodes i).kind.isFrame = false
  stack : b.stack <:+ start.stack
  logged : start.diagnostics.toList <+: b.diagnostics.toList

structure Settled (f : FlatNode → FlatNode) : Prop where
  kind : ∀ n, (f n).kind = n.kind
  tokenStart : ∀ n, (f n).tokenStart = n.tokenStart
  parent : ∀ n, (f n).parent = n.parent

variable {t : Tokenized} {start b : Builder} {n : Nat} {q : Nat}

theorem Extends.refl (hn : n ≤ b.nodes.size) : Extends n b b :=
  ⟨hn, le_rfl, fun _ _ => rfl, fun _ _ => rfl, fun _ _ => rfl, fun _ _ => rfl,
    fun _ hi hlt => absurd hi (Nat.not_le_of_lt hlt), List.suffix_refl _, List.prefix_refl _⟩

namespace Extends

variable (h : Extends n start b)
include h

theorem le_size : n ≤ b.nodes.size := h.bound.trans h.size

theorem of_nodes {b' : Builder} (hnodes : b'.nodes = b.nodes) (hstack : b'.stack <:+ b.stack)
    (hlog : b.diagnostics.toList <+: b'.diagnostics.toList) : Extends n start b' := by
  refine ⟨h.bound, ?_, ?_, ?_, ?_, ?_, ?_, hstack.trans h.stack, h.logged.trans hlog⟩ <;>
    rw [hnodes]
  · exact h.size
  · exact h.kind
  · exact h.tokenStart
  · exact h.parent
  · exact h.opens
  · exact h.fresh

theorem metadata (metadata : Metadata) : Extends n start { b with metadata } :=
  h.of_nodes rfl (List.suffix_refl _) (List.prefix_refl _)

theorem modify {id : Nat} {f : FlatNode → FlatNode} (hf : Settled f)
    (ho : id < n → ∀ m, (f m).opensFrame = m.opensFrame) :
    Build.Ensures (b.modify id f) (Extends n start ·) := by
  unfold Builder.modify
  refine .ite (fun hid => .ok ?_) fun _ => .fault
  have hslot := slot_modify (f := f) hid
  have hkeep {α : Type} {g : FlatNode → α} (hg : ∀ m, g (f m) = g m) (i : Nat) :
      g (slot (b.nodes.modify id f) i) = g (slot b.nodes i) := by
    rw [hslot]
    split
    · exact hg _
    · rfl
  refine ⟨h.bound, ?_, fun i hi => ?_, fun i hi => ?_, fun i hi => ?_, fun i hi => ?_,
    fun i hi hlt => ?_, h.stack, h.logged⟩
  · exact h.size.trans_eq Array.size_modify.symm
  · exact (hkeep hf.kind i).trans (h.kind i hi)
  · exact (hkeep hf.tokenStart i).trans (h.tokenStart i hi)
  · exact (hkeep hf.parent i).trans (h.parent i hi)
  · refine Eq.trans ?_ (h.opens i hi)
    rw [hslot]
    split
    · rename_i hid
      exact ho (hid ▸ hi) _
    · rfl
  · have hlt' : i < b.nodes.size := hlt.trans_eq Array.size_modify
    rw [hkeep hf.kind i]
    exact h.fresh i hi hlt'

theorem finishAt (id stop : Nat) : Build.Ensures (b.finishAt id stop) (Extends n start ·) := by
  unfold Builder.finishAt
  refine (ensures_node b id).bind fun node _ => ?_
  refine .ite (fun _ => ?_) fun _ => .fault
  exact h.modify ⟨fun _ => rfl, fun _ => rfl, fun _ => rfl⟩ fun _ _ => rfl

theorem finish (id : Nat) : Build.Ensures (b.finish id) (Extends n start ·) :=
  h.finishAt id b.pos

theorem setData {id : Nat} (data : Int32) (hid : n ≤ id) :
    Build.Ensures (b.setData id data) (Extends n start ·) :=
  h.modify ⟨fun _ => rfl, fun _ => rfl, fun _ => rfl⟩ fun hlt => absurd hid (Nat.not_le_of_lt hlt)

theorem setFlag {id : Nat} (flag : ElementFlag) (hid : n ≤ id) :
    Build.Ensures (b.setFlag id flag) (Extends n start ·) :=
  h.modify ⟨fun _ => rfl, fun _ => rfl, fun _ => rfl⟩ fun hlt => absurd hid (Nat.not_le_of_lt hlt)

theorem setLateFlag {flag : ElementFlag} (hflag : flag.IsLate) (id : Nat) :
    Build.Ensures (b.setFlag id flag) (Extends n start ·) :=
  h.modify ⟨fun _ => rfl, fun _ => rfl, fun _ => rfl⟩ fun _ => hflag.opensFrame

theorem bump : Build.Ensures (b.bump t) (Extends n start ·) := by
  unfold Builder.bump
  exact .ite (fun _ => .ok (h.of_nodes rfl (List.suffix_refl _) (List.prefix_refl _))) fun _ => .fault

theorem bumpMany (m : Nat) : Build.Ensures (Builder.bumpMany t m b) (Extends n start ·) := by
  induction m generalizing b with
  | zero => exact .ok h
  | succ m ih => exact h.bump.bind fun b₁ h₁ => ih h₁

theorem eat (kind : TokenType) : Build.Ensures (b.eat t kind) (Extends n start ·.2) := by
  unfold Builder.eat
  exact .ite (fun _ => h.bump.bind fun b₁ h₁ => .ok h₁) fun _ => .ok h

theorem eatContent (kind : TokenType) :
    Build.Ensures (b.eatContent t kind) (Extends n start ·.2) := by
  unfold Builder.eatContent
  refine .ite (fun _ => ?_) fun _ => .ok h
  refine (Tokenized.ensures_text _).bind fun text _ => ?_
  exact h.bump.bind fun b₁ h₁ => .ok h₁

theorem reportTokens (kind : DiagnosticKind) (i j : Nat) (detail : String)
    (context : Option String) :
    Build.Ensures (b.reportTokens t kind i j detail context) (Extends n start ·) := by
  unfold Builder.reportTokens
  refine (Tokenized.ensures_span _ _).bind fun span _ => .ok (h.of_nodes rfl (List.suffix_refl _) ?_)
  rw [Builder.report, Array.toList_push]
  exact List.prefix_append _ _

end Extends

structure Starts (b : Builder) (q : Nat) (kind : NodeKind) (id : Nat) (b' : Builder) : Prop where
  id_eq : id = b.nodes.size
  size : b'.nodes.size = b.nodes.size + 1
  old : ∀ i < b.nodes.size, (slot b'.nodes i).core = (slot b.nodes i).core
  new : (slot b'.nodes id).core = (kind, b.pos, some q, 0)
  rest : b' = { b with nodes := b'.nodes }

namespace Starts

variable {b b' : Builder} {q : Nat} {kind : NodeKind} {id : Nat} (h : b.Starts q kind id b')
include h

theorem eq_of_ge {i : Nat} (hi : b.nodes.size ≤ i) (hlt : i < b'.nodes.size) : i = id := by
  rw [h.size] at hlt
  exact h.id_eq ▸ le_antisymm (Nat.le_of_lt_succ hlt) hi

theorem kind_eq : (slot b'.nodes id).kind = kind := congrArg (·.1) h.new

theorem tokenStart_eq : (slot b'.nodes id).tokenStart = b.pos := congrArg (·.2.1) h.new

theorem parent_eq : (slot b'.nodes id).parent = some q := congrArg (·.2.2.1) h.new

theorem data_eq : (slot b'.nodes id).data = 0 := congrArg (·.2.2.2) h.new

end Starts

theorem modify_own {f : FlatNode → FlatNode} (hf : ∀ m, (f m).own = m.own) (id : Nat) :
    Build.Ensures (b.modify id f) fun b' => b' = { b with nodes := b'.nodes } ∧
      b'.nodes.size = b.nodes.size ∧ ∀ i, (slot b'.nodes i).own = (slot b.nodes i).own := by
  unfold Builder.modify
  refine .ite (fun hid => .ok ⟨rfl, Array.size_modify, fun i => ?_⟩) fun _ => .fault
  rw [slot_modify hid]
  split
  · exact hf _
  · rfl

theorem startIn_own (b : Builder) (q : Nat) (kind : NodeKind) :
    Build.Ensures (b.startIn q kind) fun (id, b') => id = b.nodes.size ∧
      b'.nodes.size = b.nodes.size + 1 ∧ b' = { b with nodes := b'.nodes } ∧
      ∀ i, (slot b'.nodes i).own = if i = b.nodes.size then
        { FlatNode.unlinked kind b.pos with parent := some q } else (slot b.nodes i).own := by
  unfold Builder.startIn
  refine (ensures_node b q).bind fun parent _ => ?_
  simp only
  generalize hb : ({ b with nodes := _ } : Builder) = b₁
  have hnodes : b₁.nodes = b.nodes.push { FlatNode.unlinked kind b.pos with
      parent := some q, prevSibling := parent.lastChild } := by rw [← hb]
  have hrest : b₁ = { b with nodes := b₁.nodes } := by rw [← hb]
  have hlink (first : Nat) {f : FlatNode → FlatNode} (hf : ∀ m, (f m).own = m.own) :
      Build.Ensures (do
        let b₂ ← b₁.modify first f
        let b₃ ← b₂.modify q ({ · with lastChild := some b.nodes.size })
        return (b.nodes.size, b₃)) fun (id, b') => id = b.nodes.size ∧
          b'.nodes.size = b.nodes.size + 1 ∧ b' = { b with nodes := b'.nodes } ∧
          ∀ i, (slot b'.nodes i).own = if i = b.nodes.size then
            { FlatNode.unlinked kind b.pos with parent := some q } else (slot b.nodes i).own := by
    refine (modify_own hf first).bind fun b₂ h₂ => ?_
    obtain ⟨hrest₂, hsize₂, hown₂⟩ := h₂
    refine (modify_own (f := ({ · with lastChild := some b.nodes.size })) (fun _ => rfl) q).bind
      fun b₃ h₃ => .ok ?_
    obtain ⟨hrest₃, hsize₃, hown₃⟩ := h₃
    refine ⟨rfl, ?_, ?_, fun i => ?_⟩
    · rw [hsize₃, hsize₂, hnodes, Array.size_push]
    · rw [hrest₃, hrest₂, hrest]
    · rw [hown₃, hown₂, hnodes, slot_push]
      split <;> rfl
  split
  · exact hlink _ fun _ => rfl
  · exact hlink _ fun _ => rfl

theorem startIn_starts (b : Builder) (q : Nat) (kind : NodeKind) :
    Build.Ensures (b.startIn q kind) fun (id, b') => b.Starts q kind id b' := by
  refine (startIn_own b q kind).mono fun ⟨id, b'⟩ ⟨hid, hsize, hrest, hown⟩ => ?_
  have hcore (i : Nat) : (slot b'.nodes i).core = (slot b'.nodes i).own.core := rfl
  refine ⟨hid, hsize, fun i hi => ?_, ?_, hrest⟩
  · rw [hcore, hown, if_neg hi.ne]
    rfl
  · rw [hcore, hown, if_pos hid]
    rfl

namespace Extends

variable (h : Extends n start b)
include h

theorem starts {kind : NodeKind} (hk : kind.isFrame = false) {id : Nat} {b' : Builder}
    (hs : b.Starts q kind id b') : Extends n start b' ∧ n ≤ id := by
  obtain ⟨rfl, hsize, hold, hnew, hrest⟩ := hs
  have hlog : b'.diagnostics = b.diagnostics := by rw [hrest]
  have hstack : b'.stack = b.stack := by rw [hrest]
  have hlt {i : Nat} (hi : i < start.nodes.size) : i < b.nodes.size := hi.trans_le h.size
  refine ⟨⟨h.bound, h.size.trans (by omega), fun i hi => ?_, fun i hi => ?_, fun i hi => ?_,
    fun i hi => ?_, fun i hi hlt' => ?_, hstack ▸ h.stack, hlog ▸ h.logged⟩, h.le_size⟩
  · exact (congrArg (·.1) (hold i (hlt hi))).trans (h.kind i hi)
  · exact (congrArg (·.2.1) (hold i (hlt hi))).trans (h.tokenStart i hi)
  · exact (congrArg (·.2.2.1) (hold i (hlt hi))).trans (h.parent i hi)
  · exact (FlatNode.opensFrame_of_core (hold i (hi.trans_le h.le_size))).trans (h.opens i hi)
  · rw [hsize] at hlt'
    rcases Nat.lt_succ_iff_lt_or_eq.1 hlt' with hlt' | rfl
    · exact (congrArg (·.1.isFrame) (hold i hlt')).trans (h.fresh i hi hlt')
    · exact (congrArg (·.1.isFrame) hnew).trans hk

theorem startIn (q : Nat) {kind : NodeKind} (hk : kind.isFrame = false) :
    Build.Ensures (b.startIn q kind) fun (id, b') => Extends n start b' ∧ n ≤ id :=
  (startIn_starts b q kind).mono fun _ hs => h.starts hk hs

theorem leaf (q : Nat) {kind : NodeKind} (hk : kind.isFrame = false) (count : Nat) :
    Build.Ensures (b.leaf t q kind count) fun (id, b') => Extends n start b' ∧ n ≤ id := by
  unfold Builder.leaf
  refine (h.startIn q hk).bind fun ⟨id, b₁⟩ ⟨h₁, hid⟩ => ?_
  refine (h₁.bumpMany count).bind fun b₂ h₂ => ?_
  exact (h₂.finish id).bind fun b₃ h₃ => .ok ⟨h₃, hid⟩

theorem text (q : Nat) : Build.Ensures (b.text t q) (Extends n start ·) :=
  (h.leaf q rfl _).bind fun _ h₁ => .ok h₁.1

theorem echo (q : Nat) {kind : NodeKind} (hk : kind.isFrame = false) (stopType : TokenType)
    (delimiter : String) :
    Build.Ensures (b.echo t q kind stopType delimiter) (Extends n start ·) := by
  unfold Builder.echo
  refine (h.startIn q hk).bind fun ⟨id, b₁⟩ ⟨h₁, hid⟩ => ?_
  refine h₁.bump.bind fun b₂ h₂ => ?_
  refine (h₂.eatContent .echoContent).bind fun ⟨blank, b₃⟩ h₃ => ?_
  refine (h₃.eat stopType).bind fun ⟨closed, b₄⟩ h₄ => ?_
  refine (h₄.finish id).bind fun b₅ h₅ => ?_
  refine .ite (fun _ => h₅.reportTokens _ _ _ _ _) fun _ => ?_
  exact .ite (fun _ => h₅.reportTokens _ _ _ _ _) fun _ => .ok h₅

theorem delimited (q : Nat) {kind : NodeKind} (hk : kind.isFrame = false)
    (content stopType : TokenType) (endName : Option String) :
    Build.Ensures (b.delimited t q kind content stopType endName) (Extends n start ·) := by
  unfold Builder.delimited
  refine (h.startIn q hk).bind fun ⟨id, b₁⟩ ⟨h₁, hid⟩ => ?_
  refine h₁.bump.bind fun b₂ h₂ => ?_
  refine (h₂.eat content).bind fun ⟨_, b₃⟩ h₃ => ?_
  refine (h₃.eat stopType).bind fun ⟨closed, b₄⟩ h₄ => ?_
  refine (h₄.finish id).bind fun b₅ h₅ => ?_
  cases endName with
  | none => exact .ok h₅
  | some name => exact .ite (fun _ => .ok h₅) fun _ => h₅.reportTokens _ _ _ _ _

theorem verbatim (q : Nat) : Build.Ensures (b.verbatim t q) (Extends n start ·) := by
  unfold Builder.verbatim
  refine (h.startIn q rfl).bind fun ⟨id, b₁⟩ ⟨h₁, hid⟩ => ?_
  refine h₁.bump.bind fun b₂ h₂ => ?_
  refine (h₂.eat .text).bind fun ⟨_, b₃⟩ h₃ => ?_
  refine (h₃.eat .verbatimEnd).bind fun ⟨closed, b₄⟩ h₄ => ?_
  refine (h₄.finish id).bind fun b₅ h₅ => ?_
  exact .ite (fun _ => .ok h₅) fun _ => h₅.reportTokens _ _ _ _ _

theorem directiveLeaf (q : Nat) (role : DirectiveRole) :
    Build.Ensures (b.directiveLeaf t q role) (Extends n start ·) := by
  unfold Builder.directiveLeaf
  refine (h.leaf q rfl _).bind fun ⟨id, b₁⟩ ⟨h₁, hid⟩ => ?_
  exact h₁.setData role.data hid

/-! Start tags -/

theorem eatGenericArgs (element first : Nat) :
    Build.Ensures (b.eatGenericArgs t element first) (Extends n start ·) := by
  unfold Builder.eatGenericArgs
  refine .ite (fun _ => ?_) fun _ => .ok h
  exact (h.metadata _).bump

theorem eatSpaceBefore (p : TokenType → Bool) :
    Build.Ensures (b.eatSpaceBefore t p) (Extends n start ·) := by
  unfold Builder.eatSpaceBefore
  exact .ite (fun _ => h.bump) fun _ => .ok h

theorem attributeValue (id first : Nat) :
    Build.Ensures (b.attributeValue t id first) (Extends n start ·) := by
  unfold Builder.attributeValue
  refine .ite (fun _ => ?_) fun _ => .ite (fun _ => ?_) fun _ => h.reportTokens _ _ _ _ _
  · refine (Tokenized.ensures_token _).bind fun quote _ => ?_
    split
    · refine h.bump.bind fun b₁ h₁ => ?_
      refine (h₁.startIn id rfl).bind fun ⟨value, b₂⟩ ⟨h₂, hvalue⟩ => ?_
      refine (h₂.setData _ hvalue).bind fun b₃ h₃ => ?_
      refine (h₃.eat .attributeValue).bind fun ⟨_, b₄⟩ h₄ => ?_
      refine (h₄.finish value).bind fun b₅ h₅ => ?_
      refine (h₅.eat .quote).bind fun ⟨closed, b₆⟩ h₆ => ?_
      exact .ite (fun _ => .ok h₆) fun _ => h₆.reportTokens _ _ _ _ _
    · exact .fault
  · exact (h.leaf id rfl 1).bind fun _ h₁ => .ok h₁.1

theorem attributePair (element : Nat) :
    Build.Ensures (b.attributePair t element) (Extends n start ·) := by
  unfold Builder.attributePair
  refine (h.startIn element rfl).bind fun ⟨id, b₁⟩ ⟨h₁, hid⟩ => ?_
  refine (h₁.leaf id rfl 1).bind fun ⟨_, b₂⟩ ⟨h₂, _⟩ => ?_
  refine (h₂.eatSpaceBefore _).bind fun b₃ h₃ => ?_
  refine .ite (fun _ => h₃.finish id) fun _ => ?_
  refine h₃.bump.bind fun b₄ h₄ => ?_
  refine (h₄.eatSpaceBefore _).bind fun b₅ h₅ => ?_
  exact (h₅.attributeValue id _).bind fun b₆ h₆ => h₆.finish id

theorem unexpectedText : Build.Ensures (b.unexpectedText t) (Extends n start ·) := by
  unfold Builder.unexpectedText
  refine (Tokenized.ensures_text _).bind fun text _ => ?_
  exact (h.reportTokens _ _ _ _ _).bind fun b₁ h₁ => h₁.bump

theorem tagItem? {element : Nat} {kind : TokenType} {item : Build Builder}
    (hitem : b.tagItem? t element kind = some item) :
    Build.Ensures item (Extends n start ·) := by
  unfold Builder.tagItem? at hitem
  split at hitem <;> cases hitem
  · exact h.attributePair element
  · exact h.echo element rfl _ _
  · exact h.echo element rfl _ _
  · exact h.echo element rfl _ _
  · exact h.delimited element rfl _ _ _
  · exact h.directiveLeaf element _
  · exact h.bump
  · exact h.unexpectedText
  · exact h.bump

theorem tagItems (element : Nat) :
    Build.Ensures (Builder.tagItems t element b) (Extends n start ·.2) := by
  fun_induction Builder.tagItems t element b with
  | case1 => exact .ok h
  | case2 b _ => exact h.bump.bind fun b₁ h₁ => .ok h₁
  | case3 b _ => exact h.bump.bind fun b₁ h₁ => .ok h₁
  | case4 => exact .ok h
  | case5 b kind _ _ _ item hitem ih =>
      refine (h.tagItem? hitem).bind fun b₁ h₁ => ?_
      split
      · exact ih b₁ ‹_› h₁
      · exact .fault

theorem unterminatedTag {element : Nat} (hid : n ≤ element) (first : Nat) (name : String) :
    Build.Ensures (b.unterminatedTag t element first name) (Extends n start ·) := by
  unfold Builder.unterminatedTag
  refine (h.setFlag _ hid).bind fun b₁ h₁ => ?_
  refine (h₁.setFlag _ hid).bind fun b₂ h₂ => ?_
  refine ((h₂.metadata _).finish element).bind fun b₃ h₃ => ?_
  exact h₃.reportTokens _ _ _ _ _

/-! Frames that end -/

theorem popFrame (stop : Nat) : Build.Ensures (b.popFrame stop) (Extends n start ·.2) := by
  unfold Builder.popFrame
  split
  · exact .ok h
  · rename_i f below hs
    have hbelow : below <:+ b.stack := hs ▸ List.suffix_cons f below
    have hclose {b₁ : Builder} (hnodes : b₁.nodes = b.nodes) (hstack : b₁.stack = below)
        (hlog : b₁.diagnostics = b.diagnostics) :
        Build.Ensures (do return (some f, ← b₁.finishAt f.node stop)) (Extends n start ·.2) :=
      ((h.of_nodes hnodes (hstack ▸ hbelow) (hlog ▸ List.prefix_refl _)).finishAt f.node stop).bind
        fun _ h₂ => .ok h₂
    simp only
    split
    · exact (ensures_countDown _).bind fun _ _ => hclose rfl rfl rfl
    · refine (ensures_countDown _).bind fun _ _ => ?_
      split
      · exact (ensures_countDown _).bind fun _ _ => hclose rfl rfl rfl
      · exact hclose rfl rfl rfl

theorem forceClose (reason : ClosedBy) (stop : Nat) (context : Option String) :
    Build.Ensures (b.forceClose t reason stop context) (Extends n start ·) := by
  unfold Builder.forceClose
  refine (h.popFrame stop).bind fun ⟨popped, b₁⟩ h₁ => ?_
  cases popped with
  | none => exact .ok h₁
  | some f =>
      have h₂ := h₁.metadata (b₁.metadata.setClosedBy f.node reason)
      refine (ensures_node _ _).bind fun node _ => ?_
      simp only
      split
      · refine (h₂.setLateFlag (.inl rfl) f.node).bind fun b₃ h₃ => ?_
        exact .ite (fun _ => .ok h₃) fun _ => h₃.reportTokens _ _ _ _ _
      · split
        · rename_i marker _
          have hend : Build.Ensures ((·.tokenEnd) <$> b₁.node marker) fun _ => True :=
            (ensures_node b₁ marker).bind fun _ _ => trivial
          exact hend.bind fun _ _ => h₂.reportTokens _ _ _ _ _
        · exact h₂.reportTokens _ _ _ _ _

theorem forceCloseMany (close : List Frame → ClosedBy × Option String) (stop m : Nat) :
    Build.Ensures (Builder.forceCloseMany t close stop m b) (Extends n start ·) := by
  induction m generalizing b with
  | zero => exact .ok h
  | succ m ih => exact (h.forceClose _ stop _).bind fun b₁ h₁ => ih h₁

theorem closeForSibling (name : String) :
    Build.Ensures (b.closeForSibling t name) (Extends n start ·) := by
  unfold Builder.closeForSibling
  split
  · exact .ok h
  · exact (h.forceCloseMany _ _ _).bind fun b₁ h₁ => h₁.forceClose _ _ _

/-! Closing tags and directives -/

theorem strayClosingTag (stop : Nat) (blocked : Bool) :
    Build.Ensures (b.strayClosingTag t stop blocked) (Extends n start ·) := by
  unfold Builder.strayClosingTag
  refine (h.leaf _ rfl _).bind fun ⟨_, b₁⟩ ⟨h₁, _⟩ => ?_
  refine (Tokenized.ensures_span _ _).bind fun span _ => ?_
  exact .ite (fun _ => h₁.reportTokens _ _ _ _ _) fun _ => h₁.reportTokens _ _ _ _ _

theorem closeElement (id count : Nat) : Build.Ensures (do
    let (_, b') ← b.leaf t id .closingElementName count
    let b' ← b'.setFlag id .paired
    return (← b'.popFrame b'.pos).2) (Extends n start ·) := by
  refine (h.leaf _ rfl _).bind fun ⟨_, b₁⟩ ⟨h₁, _⟩ => ?_
  refine (h₁.setLateFlag (.inr rfl) _).bind fun b₂ h₂ => ?_
  exact (h₂.popFrame _).bind fun _ h₃ => .ok h₃

theorem closingTag : Build.Ensures (b.closingTag t) (Extends n start ·) := by
  unfold Builder.closingTag
  refine (Tokenized.ensures_text _).bind fun name _ => ?_
  simp only
  split
  · exact h.strayClosingTag _ _
  · exact h.strayClosingTag _ _
  · refine (h.forceCloseMany _ _ _).bind fun b₁ h₁ => ?_
    split
    · exact (h₁.reportTokens _ _ _ _ _).bind fun b₂ h₂ => h₂.closeElement _ _
    · exact h₁.closeElement _ _

theorem single {kind : NodeKind} (hk : kind.isFrame = false) :
    Build.Ensures (b.single t kind) (Extends n start ·) :=
  (h.leaf _ hk 1).bind fun _ h₁ => .ok h₁.1

theorem missingArguments (name : String) (first stop : Nat) :
    Build.Ensures (b.missingArguments t name first stop) (Extends n start ·) :=
  h.reportTokens _ _ _ _ _

theorem place (name : String) (first : Nat) (hasArgs : Bool) {place : DirectivePlace}
    (hplace : ∀ rule, place ≠ .opener rule) :
    Build.Ensures (b.place t name first hasArgs place) (Extends n start ·) := by
  cases place with
  | branch above =>
      exact (h.forceCloseMany _ _ _).bind fun b₁ h₁ => h₁.directiveLeaf _ _
  | terminator above =>
      refine (h.forceCloseMany _ _ _).bind fun b₁ h₁ => ?_
      refine (h₁.directiveLeaf _ _).bind fun b₂ h₂ => ?_
      exact (h₂.popFrame _).bind fun _ h₃ => .ok h₃
  | opener rule => exact absurd rfl (hplace rule)
  | strayTerminator =>
      exact (h.directiveLeaf _ _).bind fun b₁ h₁ => h₁.reportTokens _ _ _ _ _
  | strayBranch =>
      exact (h.directiveLeaf _ _).bind fun b₁ h₁ => h₁.reportTokens _ _ _ _ _
  | standalone =>
      refine (h.directiveLeaf _ _).bind fun b₁ h₁ => ?_
      exact .ite (fun _ => h₁.missingArguments _ _ _) fun _ => .ok h₁

end Extends
end Builder
end BladeTree
