import BladeTree.Proofs.Tree.Final

namespace BladeTree

def NodeKind.isBlockPart (k : NodeKind) : Bool := k == .directive || k == .directiveBlock

theorem Frame.exists_of_closeTarget {name : String} {k above : Nat} {blocked : Bool}
    {stack : List Frame} (h : closeTarget name k blocked stack = .element above) :
    ∃ f below opened, k ≤ above ∧ stack.drop (above - k) = f :: below ∧
      f.kind = .element opened ∧ sameName opened name := by
  induction stack generalizing k blocked with
  | nil =>
      unfold closeTarget at h
      split at h <;> cases h
  | cons f below ih =>
      have hbelow {c : Bool} (h' : closeTarget name (k + 1) c below = .element above) :
          ∃ g rest opened, k ≤ above ∧ (f :: below).drop (above - k) = g :: rest ∧
            g.kind = .element opened ∧ sameName opened name := by
        obtain ⟨g, rest, opened, hle, hdrop, hg⟩ := ih h'
        refine ⟨g, rest, opened, (Nat.le_succ k).trans hle, ?_, hg⟩
        rw [show above - k = above - (k + 1) + 1 by omega, List.drop_succ_cons]
        exact hdrop
      unfold closeTarget at h
      split at h
      · exact hbelow h
      · rename_i opened hkind
        split at h
        · rename_i hsame
          split at h <;> cases h
          exact ⟨f, below, opened, le_rfl, by rw [Nat.sub_self, List.drop_zero], hkind, hsame⟩
        · exact hbelow h

namespace Builder

/-- One change of the tree in an item of content that began with `n` nodes. Content goes into the
innermost open node or into nodes that are new, frames are closed with a reason or by the closing
tag of an element, and only new elements become frames: what is left are the blocks, which their
directives open and end. -/
inductive Change (t : Tokenized) (n : Nat) (b : Builder) : Builder → Prop
  | bump {b' : Builder} : b.bump t = .ok b' → Change t n b b'
  | report {b' : Builder} {kind : DiagnosticKind} {i j : Nat} {detail : String}
      {context : Option String} : b.reportTokens t kind i j detail context = .ok b' →
      Change t n b b'
  | child {b' : Builder} {kind : NodeKind} {id : Nat} : kind.isBlockPart = false →
      b.startIn b.parent kind = .ok (id, b') → Change t n b b'
  | inner {b' : Builder} {q : Nat} : n ≤ q → (slot b.nodes q).kind = .element →
      Inner t q b b' → Change t n b b'
  | amend {b' : Builder} {id : Nat} {f : FlatNode → FlatNode} : id ∈ b.openPath ∨ n ≤ id →
      Settled f → b.modify id f = .ok b' → Change t n b b'
  | unterminated {id : Nat} : n ≤ id →
      Change t n b { b with metadata := b.metadata.setClosedBy id .unterminatedStartTag }
  | close {b' : Builder} {reason : ClosedBy} {stop : Nat} {context : Option String} :
      b.forceClose t reason stop context = .ok b' → Change t n b b'
  | pair {b' : Builder} {f : Frame} {below : List Frame} {popped : Option Frame} {stop : Nat} :
      b.stack = f :: below → f.blockRule? = none → b.popFrame stop = .ok (popped, b') →
      Change t n b b'
  | enter {id : Nat} {name : String} : n ≤ id → (slot b.nodes id).kind = .element →
      Change t n b (b.pushFrame ⟨id, .element name⟩)

def Changes (t : Tokenized) (start b : Builder) : Prop :=
  Relation.ReflTransGen (Change t start.nodes.size) start b

variable {t : Tokenized} {start b b' : Builder} {n q id : Nat} {kind : NodeKind}

theorem Final.change (h : Final start b) (hc : Change t start.nodes.size b b') :
    Final start b' := by
  cases hc with
  | bump hb => exact h.bump _ hb
  | report hb => exact h.reportTokens _ _ _ _ _ _ hb
  | child _ hb => exact (h.startIn _ _ _ hb).1
  | inner _ _ hinner => exact h.inner hinner
  | amend hid _ hb => exact h.modify (hid.elim h.of_mem_openPath .inr) _ hb
  | unterminated => exact h.metadata _
  | close hb => exact h.forceClose _ _ _ _ hb
  | pair _ _ hb => exact (h.popFrame _ _ hb).1
  | enter hid _ => exact h.pushFrame hid

namespace Changes

theorem refl (b : Builder) : Changes t b b := Relation.ReflTransGen.refl

variable (h : Changes t start b)
include h

theorem change (hc : Change t start.nodes.size b b') : Changes t start b' := h.tail hc

theorem final : Final start b := by
  induction h with
  | refl => exact Final.refl start
  | tail _ hc ih => exact ih.change hc

theorem bump : Build.Returns (b.bump t) (Changes t start) := fun _ hb => h.change (.bump hb)

theorem bumpMany (n : Nat) : Build.Returns (Builder.bumpMany t n b) (Changes t start) := by
  induction n generalizing b with
  | zero => exact .ok h
  | succ n ih => exact h.bump.bind fun b₁ h₁ => ih h₁

theorem eat (kind : TokenType) :
    Build.Returns (b.eat t kind) fun (_, b') => Changes t start b' := by
  unfold Builder.eat
  exact .ite (fun _ => h.bump.bind fun b₁ h₁ => .ok h₁) fun _ => .ok h

theorem reportTokens (kind : DiagnosticKind) (i j : Nat) (detail : String)
    (context : Option String) :
    Build.Returns (b.reportTokens t kind i j detail context) (Changes t start) :=
  fun _ hb => h.change (.report hb)

theorem startIn (hk : kind.isBlockPart = false) :
    Build.Returns (b.startIn b.parent kind) fun (id, b') =>
      Changes t start b' ∧ start.nodes.size ≤ id :=
  fun _ hb => ⟨h.change (.child hk hb), (h.final.startIn _ _ _ hb).2⟩

theorem amend {f : FlatNode → FlatNode} (hid : id ∈ b.openPath ∨ start.nodes.size ≤ id)
    (hf : Settled f) : Build.Returns (b.modify id f) (Changes t start) :=
  fun _ hb => h.change (.amend hid hf hb)

theorem setFlag (hid : id ∈ b.openPath ∨ start.nodes.size ≤ id) (flag : ElementFlag) :
    Build.Returns (b.setFlag id flag) (Changes t start) :=
  h.amend (f := fun n => { n with data := n.data ||| flag.bit }) hid
    ⟨fun _ => rfl, fun _ => rfl, fun _ => rfl⟩

theorem finishAt (hid : id ∈ b.openPath ∨ start.nodes.size ≤ id) (stop : Nat) :
    Build.Returns (b.finishAt id stop) (Changes t start) := by
  unfold Builder.finishAt
  refine Build.Returns.any.bind fun node _ => ?_
  refine .ite (fun _ => ?_) fun _ => .fault
  exact h.amend hid ⟨fun _ => rfl, fun _ => rfl, fun _ => rfl⟩

theorem finish (hid : start.nodes.size ≤ id) : Build.Returns (b.finish id) (Changes t start) :=
  h.finishAt (.inr hid) b.pos

theorem leaf (hk : kind.isBlockPart = false) (n : Nat) :
    Build.Returns (b.leaf t b.parent kind n) fun (_, b') => Changes t start b' := by
  unfold Builder.leaf
  refine (h.startIn hk).bind fun ⟨id, b₁⟩ ⟨h₁, hid⟩ => ?_
  refine (h₁.bumpMany n).bind fun b₂ h₂ => ?_
  exact (h₂.finish hid).bind fun b₃ h₃ => .ok h₃

/-! Content -/

theorem single (hk : kind.isBlockPart = false) (n : Nat) :
    Build.Returns (do return (← b.leaf t b.parent kind n).2) (Changes t start) :=
  (h.leaf hk n).bind fun _ h₁ => .ok h₁

theorem delimitedPart {content stopType : TokenType} (hk : kind.isBlockPart = false)
    (hread : ReadsDelimited t b.parent kind content stopType b b') : Changes t start b' := by
  induction hread with
  | read h₁ h₂ h₃ h₄ h₅ =>
      obtain ⟨hstarted, hid⟩ := h.startIn hk _ h₁
      have hate := (hstarted.bump _ h₂).eat _ _ h₃
      exact Changes.finish (hate.eat _ _ h₄) hid _ h₅
  | report _ _ hb ih => exact ih.reportTokens _ _ _ _ _ _ hb

theorem echo (hk : kind.isBlockPart = false) (stopType : TokenType) (delimiter : String) :
    Build.Returns (b.echo t b.parent kind stopType delimiter) (Changes t start) :=
  (reads_echo b b.parent kind stopType delimiter).mono fun _ => h.delimitedPart hk

theorem delimited (hk : kind.isBlockPart = false) (content stopType : TokenType)
    (endName : Option String) :
    Build.Returns (b.delimited t b.parent kind content stopType endName) (Changes t start) :=
  (reads_delimited b b.parent kind content stopType endName).mono fun _ => h.delimitedPart hk

theorem verbatim : Build.Returns (b.verbatim t b.parent) (Changes t start) :=
  (reads_verbatim b b.parent).mono fun _ => h.delimitedPart rfl

/-! Frames that end -/

theorem forceCloseMany (close : List Frame → ClosedBy × Option String) (stop n : Nat) :
    Build.Returns (Builder.forceCloseMany t close stop n b) (Changes t start) := by
  induction n generalizing b with
  | zero => exact .ok h
  | succ n ih =>
      exact Build.Returns.bind (fun _ hb => h.change (.close hb)) fun b₁ h₁ => ih h₁

theorem closeForSibling (name : String) :
    Build.Returns (b.closeForSibling t name) (Changes t start) := by
  unfold Builder.closeForSibling
  split
  · exact .ok h
  · exact (h.forceCloseMany _ _ _).bind fun b₁ h₁ _ hb => h₁.change (.close hb)

theorem strayClosingTag (stop : Nat) (blocked : Bool) :
    Build.Returns (b.strayClosingTag t stop blocked) (Changes t start) := by
  unfold Builder.strayClosingTag
  refine (h.leaf rfl _).bind fun ⟨_, b₁⟩ h₁ => ?_
  refine Build.Returns.any.bind fun span _ => ?_
  exact .ite (fun _ => h₁.reportTokens _ _ _ _ _) fun _ => h₁.reportTokens _ _ _ _ _

theorem closeElement {f : Frame} {below : List Frame} (hs : b.stack = f :: below)
    (hf : f.blockRule? = none) (n : Nat) : Build.Returns (do
    let (_, b') ← b.leaf t b.parent .closingElementName n
    let b' ← b'.setFlag b.parent .paired
    return (← b'.popFrame b'.pos).2) (Changes t start) := by
  refine ((h.leaf rfl n).and (ledger_leaf b b.parent rfl n)).bind fun leaf hleaf => ?_
  obtain ⟨id, b₁⟩ := leaf
  obtain ⟨h₁, -, hledger₁⟩ := hleaf
  have hs₁ : b₁.stack = b.stack := congrArg Ledger.stack hledger₁
  have hopen : b.parent ∈ b₁.openPath := openPath_congr hs₁ ▸ b.parent_mem_openPath
  refine ((h₁.setFlag (.inl hopen) .paired).and (ledger_setFlag b₁ b.parent .paired)).bind
    fun b₂ hflag => ?_
  obtain ⟨h₂, -, hledger₂⟩ := hflag
  have hs₂ : b₂.stack = b₁.stack := congrArg Ledger.stack hledger₂
  have hpop : Build.Returns (b₂.popFrame b₂.pos) (Changes t start ·.2) :=
    fun _ hb => h₂.change (.pair (hs₂.trans (hs₁.trans hs)) hf hb)
  exact hpop.bind fun _ h₃ => .ok h₃

theorem closingTag (hs : b.Sound t) : Build.Returns (b.closingTag t) (Changes t start) := by
  unfold Builder.closingTag
  refine Build.Returns.any.bind fun name _ => ?_
  simp only
  split
  · exact h.strayClosingTag _ _
  · exact h.strayClosingTag _ _
  · rename_i above habove
    obtain ⟨f, below, opened, -, hdrop, hkind, -⟩ := Frame.exists_of_closeTarget habove
    have hf : f.blockRule? = none := by
      unfold Frame.blockRule?
      rw [hkind]
    refine ((h.forceCloseMany _ _ _).and (hs.forceCloseMany (closedByTag name) rfl above).returns).bind
      fun b₁ ⟨h₁, _, _, hstack₁⟩ => ?_
    have hs₁ : b₁.stack = f :: below := hstack₁.trans hdrop
    split
    · refine ((h₁.reportTokens _ _ _ _ _).and (returns_report b₁ _ _ _ _ _)).bind
        fun b₂ ⟨h₂, span, _, hb₂⟩ => ?_
      subst hb₂
      exact h₂.closeElement hs₁ hf _
    · exact h₁.closeElement hs₁ hf _

/-! Start tags -/

theorem unterminatedTag (hid : start.nodes.size ≤ id) (first : Nat) (name : String) :
    Build.Returns (b.unterminatedTag t id first name) (Changes t start) := by
  unfold Builder.unterminatedTag
  refine (h.setFlag (.inr hid) _).bind fun b₁ h₁ => ?_
  refine (h₁.setFlag (.inr hid) _).bind fun b₂ h₂ => ?_
  refine ((h₂.change (.unterminated hid)).finish hid).bind fun b₃ h₃ => ?_
  exact h₃.reportTokens _ _ _ _ _

theorem emptyElement (hid : start.nodes.size ≤ id) (name : String) (selfClosed : Bool) :
    Build.Returns (b.emptyElement id name selfClosed) (Changes t start) := by
  have hflag {b₁ : Builder} (h₁ : Changes t start b₁) (c : Bool) (flag : ElementFlag) :
      Build.Returns (b₁.setFlagIf c id flag) (Changes t start) :=
    .ite (fun _ => h₁.setFlag (.inr hid) flag) fun _ => .ok h₁
  unfold Builder.emptyElement
  refine (hflag h selfClosed .selfClosing).bind fun b₁ h₁ => ?_
  refine (hflag h₁ (isVoidElement name) .void).bind fun b₂ h₂ => ?_
  exact h₂.finish hid

theorem openTag : Build.Returns (b.openTag t) fun (_, element, _, b') =>
    Changes t start b' ∧ start.nodes.size ≤ element ∧
      (slot b'.nodes element).kind = .element := by
  unfold Builder.openTag
  refine Build.Returns.any.bind fun name _ => ?_
  refine (h.closeForSibling name).bind fun b₁ h₁ => ?_
  refine ((h₁.startIn rfl).and (startIn_starts b₁ b₁.parent .element).returns).bind
    fun ⟨element, b₂⟩ ⟨⟨h₂, hid⟩, hstarts⟩ => ?_
  have hlt : element < b₂.nodes.size := by
    rw [hstarts.size, hstarts.id_eq]
    exact Nat.lt_succ_self _
  have hinner : Inner t element b₂ b₂ := .refl
  refine Build.Returns.bind (fun _ => hinner.bump) fun b₃ h₃ => ?_
  refine (h₃.leaf (.inl rfl) rfl 1).bind fun ⟨_, b₄⟩ ⟨h₄, _⟩ => ?_
  refine (h₄.eatGenericArgs b.pos).bind fun b₅ h₅ => ?_
  exact h₅.tagItems.bind fun ⟨_, b₆⟩ h₆ => .ok ⟨h₂.change (.inner hid hstarts.kind_eq h₆), hid,
    (h₆.extends.kind element hlt).trans hstarts.kind_eq⟩

theorem startTag : Build.Returns (b.startTag t) (Changes t start) := by
  rw [startTag_eq]
  refine h.openTag.bind fun ⟨name, element, tagEnd, b'⟩ ⟨h', hid, hkind⟩ => ?_
  refine .ite (fun _ => h'.unterminatedTag hid _ _) fun _ => ?_
  refine .ite (fun _ => h'.emptyElement hid _ _) fun _ => ?_
  exact Build.Returns.any.bind fun _ _ => .ok (h'.change (.enter hid hkind))

theorem construct {kind : TokenType} (hs : b.Sound t) (hk : kind ≠ .directive) :
    Build.Returns (b.construct t kind) (Changes t start) := by
  unfold Builder.construct
  split
  · refine .ite (fun _ => h.closingTag hs) fun _ => ?_
    exact .ite (fun _ => h.startTag) fun _ => h.single rfl _
  · exact h.echo rfl _ _
  · exact h.echo rfl _ _
  · exact h.echo rfl _ _
  · exact h.delimited rfl _ _ _
  · exact h.delimited rfl _ _ _
  · exact h.single rfl 1
  · exact h.single rfl 1
  · exact h.single rfl 1
  · exact h.delimited rfl _ _ _
  · exact h.delimited rfl _ _ _
  · exact h.verbatim
  · exact absurd rfl hk
  · exact h.single rfl _

end Changes

namespace Final

theorem construct (h : Final start b) (hs : b.Sound t) (kind : TokenType) :
    Build.Returns (b.construct t kind) (Final start) := by
  by_cases hk : kind = .directive
  · subst hk
    exact h.directive
  · exact ((Changes.refl b).construct hs hk).mono fun _ hc => h.trans hc.final

theorem contentItem (h : Final start b) (hs : b.Sound t) :
    Build.Returns (b.contentItem t) (Final start) := by
  unfold Builder.contentItem
  split
  · refine (h.leaf _ _ _).bind fun ⟨id, b₁⟩ ⟨h₁, hid⟩ => ?_
    exact h₁.modify (.inr hid)
  · split
    · exact h.construct hs _
    · exact .ok h

/-- Whatever content follows, the nodes that are closed stay as they are. -/
theorem items (h : Final start b) (hs : b.Sound t) :
    Build.Returns (b.items t) (Final start) := by
  fun_induction Builder.items t b with
  | case1 b hlt ih =>
      refine ((hs.contentItem hlt).returns.and (h.contentItem hs)).bind fun b₁ hitem => ?_
      obtain ⟨⟨hs₁, hlt₁⟩, h₁⟩ := hitem
      rw [dif_pos hlt₁]
      exact ih b₁ hlt₁ h₁ hs₁
  | case2 b _ => exact .ok h

end Final
end Builder
end BladeTree
