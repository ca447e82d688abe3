import BladeTree.Proofs.Tree.ElementSteps
import BladeTree.Proofs.Tree.Taken

namespace BladeTree

namespace Builder

/-- The start tag of the element `i` ends with token `e`, and no token before it ends a tag. Nodes
under the element end there or start after it. -/
structure TagEndsAt (t : Tokenized) (b : Builder) (i e : Nat) : Prop where
  start : (slot b.nodes i).tokenStart ≤ e
  ends : ∃ kind, t.kind? e = some kind ∧ kind.endsTag
  free : ∀ j, (slot b.nodes i).tokenStart ≤ j → j < e →
    ∃ kind, t.kind? j = some kind ∧ kind.endsTag = false
  child : ∀ c, (slot b.nodes c).parent = some i →
    e < (slot b.nodes c).tokenStart ∨ c ∉ b.openPath ∧ (slot b.nodes c).tokenEnd ≤ e

variable {t : Tokenized} {start b b' : Builder} {i e n element : Nat} {kind : TokenType}

theorem TagEndsAt.keep (h : b.TagEndsAt t i e) (hi : i < b.nodes.size)
    (hw : Widens b.nodes.size b b') (hf : Final b b')
    (hafter : ∀ c, b.nodes.size ≤ c → (slot b'.nodes c).parent = some i →
      e < (slot b'.nodes c).tokenStart) : b'.TagEndsAt t i e where
  start := hw.tokenStart_eq hi ▸ h.start
  ends := h.ends
  free := hw.tokenStart_eq hi ▸ h.free
  child c hc := by
    rcases Nat.lt_or_ge c b.nodes.size with hold | hnew
    · rw [hw.parent_eq hold] at hc
      rcases h.child c hc with hstart | ⟨hclosed, hend⟩
      · left
        rwa [hw.tokenStart_eq hold]
      · right
        refine ⟨fun hopen => hclosed (hf.opened c hopen hold), ?_⟩
        have hown : (slot b'.nodes c).tokenEnd = (slot b.nodes c).tokenEnd :=
          (congrArg FlatNode.tokenEnd (hf.own c hold hclosed) :)
        rwa [hown]
    · exact .inl (hafter c hnew hc)

theorem TagEndsAt.alters (h : b.TagEndsAt t i e) {f : FlatNode → FlatNode} (ha : b.Alters i f b')
    (hf : Settled f) (hp : (slot b.nodes i).parent ≠ some i)
    (hopen : ∀ c ∈ b'.openPath, c = i ∨ c ∈ b.openPath) : b'.TagEndsAt t i e := by
  have hstart : (slot b'.nodes i).tokenStart = (slot b.nodes i).tokenStart := by
    rw [ha.self, hf.tokenStart]
  refine ⟨hstart ▸ h.start, h.ends, hstart ▸ h.free, fun c hc => ?_⟩
  have hne : c ≠ i := by
    rintro rfl
    rw [ha.self, hf.parent] at hc
    exact hp hc
  rw [ha.other hne] at hc ⊢
  exact (h.child c hc).imp_right (And.imp_left fun hclosed hmem =>
    hclosed ((hopen c hmem).resolve_left hne))

abbrev StaysInTag (t : Tokenized) (start b : Builder) : Prop :=
  Takes t (·.endsTag = false) (fun _ => True) start b

namespace StaysInTag

theorem tagItem? (h : StaysInTag t start b) {item : Build Builder}
    (hk : b.current? t = some kind) (hitem : b.tagItem? t element kind = some item) :
    Build.Returns item (StaysInTag t start) := by
  have hp (kind : TokenType) (hkind : kind.isTagPart) : kind.endsTag = false :=
    TokenType.endsTag_of_isTagPart hkind
  have hK (node : NodeKind) (_ : node.isPlain) (_ : node ≠ .text) : True := trivial
  unfold Builder.tagItem? at hitem
  split at hitem <;> cases hitem
  · exact h.attributePair hp hK hk element
  · exact h.echo hk rfl element trivial rfl rfl _
  · exact h.echo hk rfl element trivial rfl rfl _
  · exact h.echo hk rfl element trivial rfl rfl _
  · exact h.delimited hk rfl element trivial rfl rfl _
  · exact h.directiveLeaf hp hK hk element _
  · exact h.bump hk rfl
  · exact h.unexpectedText hp hk
  · exact h.bump hk rfl

end StaysInTag

def BreaksOff (t : Tokenized) (b : Builder) (i stop : Nat) : Prop :=
  ∀ j, (slot b.nodes i).tokenStart ≤ j → j < stop →
    ∃ kind, t.kind? j = some kind ∧ kind.endsTag = false

/-- Unless it breaks off, a start tag ends with the last token that was read, and the nodes under
the element before it. -/
theorem tagEndsAt_openTag (hs : b.Sound t) (hopens : t.kind? b.pos = some .lessThan)
    (hname : t.kind? (b.pos + 1) = some .tagName) :
    Build.Returns (b.openTag t) fun (_, element, tagEnd, b') =>
      (tagEnd = .unterminated → b'.BreaksOff t element b'.pos) ∧
        (tagEnd ≠ .unterminated → ∃ e, b'.TagEndsAt t element e ∧ b'.pos = e + 1 ∧
          ∀ c, (slot b'.nodes c).parent = some element → (slot b'.nodes c).tokenEnd ≤ e) := by
  unfold openTag
  refine Build.Returns.any.bind fun name _ => ?_
  refine (hs.closeForSibling name).returns.bind fun b₁ ⟨hs₁, hpos₁⟩ => ?_
  rw [← hpos₁] at hopens hname
  have hlt : b₁.pos < t.size := Tokenized.lt_size_of_kind? hopens
  have hstay : StaysInTag t b₁ b₁ := .refl b₁
  refine ((startIn_starts b₁ b₁.parent .element).returns.and
    ((hs₁.reads.startIn .element).returns.and (hstay.startIn b₁.parent trivial))).bind
    fun ⟨element, b₂⟩ ⟨hstarts, ⟨hr₂, hpos₂⟩, htake₂, hk₂⟩ => ?_
  have hinner₂ : Inner t element b₂ b₂ := .refl
  have hfirst₂ : b₂.current? t = some .lessThan := hk₂.trans hopens
  refine Build.Returns.bind (P := fun b₃ => StaysInTag t b₁ b₃ ∧
    Reads t b₁ (element :: b₁.parent :: b₁.outerPath) b₃ ∧ Inner t element b₂ b₃ ∧
    b₃.pos = b₁.pos + 1) (fun b₃ hb₃ => ?_) fun b₃ ⟨htake₃, hr₃, hinner₃, hpos₃⟩ => ?_
  · obtain ⟨hr₃, hpos₃⟩ := (hr₂.bump (hpos₂ ▸ hlt)).returns _ hb₃
    exact ⟨htake₂.bump hfirst₂ rfl _ hb₃, hr₃, hinner₂.bump hb₃, hpos₃.trans (by rw [hpos₂])⟩
  have hk₃ : b₃.current? t = some .tagName := (congrArg t.kind? hpos₃).trans hname
  refine ((htake₃.leaf element .elementName trivial hk₃ rfl).and
    ((hr₃.leaf .elementName (lt_size_of_current? hk₃)).returns.and
      (hinner₃.leaf (.inl rfl) rfl 1))).bind fun ⟨_, b₄⟩ ⟨htake₄, ⟨hr₄, _⟩, hinner₄, _⟩ => ?_
  refine ((htake₄.eatGenericArgs (fun _ => TokenType.endsTag_of_isTagPart) element b.pos).and
    ((hr₄.eatGenericArgs element b.pos).returns.and (hinner₄.eatGenericArgs b.pos))).bind
    fun b₅ ⟨htake₅, ⟨hr₅, _⟩, hinner₅⟩ => ?_
  have hitems := tagItems_keeps (P := fun b' =>
    StaysInTag t b₁ b' ∧ Reads t b₁ (element :: b₁.parent :: b₁.outerPath) b' ∧
      Inner t element b₂ b') (fun b' kind item ⟨htake, hr, hinner⟩ hk hitem =>
        (htake.tagItem? hk hitem).and (((hr.tagItem? (lt_size_of_current? hk) hitem).returns.mono
          fun _ => And.left).and (hinner.tagItem? hitem))) ⟨htake₅, hr₅, hinner₅⟩
  refine hitems.bind fun ⟨tagEnd, b'⟩ ⟨b₀, ⟨htake, hr, hinner⟩, hend⟩ => .ok ?_
  have hlt₂ : element < b₂.nodes.size := by
    rw [hstarts.size, hstarts.id_eq]
    exact Nat.lt_succ_self _
  have hstart : (slot b₀.nodes element).tokenStart = b₁.pos :=
    (hinner.extends.tokenStart element hlt₂).trans hstarts.tokenStart_eq
  have hfree : b₀.BreaksOff t element b₀.pos := by
    unfold BreaksOff
    rw [hstart]
    exact htake.each
  have hclosed {kind : TokenType} (hk : b₀.current? t = some kind) (hkind : kind.endsTag)
      (hbump : b₀.bump t = .ok b') : ∃ e, b'.TagEndsAt t element e ∧ b'.pos = e + 1 ∧
        ∀ c, (slot b'.nodes c).parent = some element → (slot b'.nodes c).tokenEnd ≤ e := by
    obtain ⟨-, rfl⟩ := returns_bump _ _ hbump
    have hend (c : Nat) (hc : (slot b₀.nodes c).parent = some element) :
        (slot b₀.nodes c).tokenEnd ≤ b₀.pos := hr.growing.taken c (lt_size_of_parent hc)
    refine ⟨b₀.pos, ⟨hstart ▸ htake.le, ⟨kind, hk, hkind⟩, hfree,
      fun c hc => .inr ⟨?_, hend c hc⟩⟩, rfl, hend⟩
    intro hopen
    have hpath : b₀.openPath = b₁.openPath :=
      openPath_congr (hinner.stack_eq.trans (by rw [hstarts.rest]))
    have hold : c < b₁.nodes.size :=
      hs₁.growing.spine.lt_size hs₁.growing.linked c (hpath ▸ hopen)
    have hnew := (hr.growing.linked.below c element hc).1
    rw [hstarts.id_eq] at hnew
    exact absurd hold (Nat.not_lt_of_lt hnew)
  cases tagEnd with
  | closed => exact ⟨nofun, fun _ => hclosed hend.1 rfl hend.2⟩
  | selfClosed => exact ⟨nofun, fun _ => hclosed hend.1 rfl hend.2⟩
  | unterminated =>
      obtain ⟨rfl, -⟩ := hend
      exact ⟨fun _ => hfree, fun hne => absurd rfl hne⟩

end Builder
end BladeTree
