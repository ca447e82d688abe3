import BladeTree.Proofs.Tree.Filed

namespace BladeTree

theorem TokenType.of?_of_isTagPart {kind : TokenType} (h : kind.isTagPart) :
    Enclosure.of? kind = none := by
  cases kind <;> first | rfl | cases h

namespace Builder

variable {t : Tokenized} {b b' : Builder} {e : Enclosure} {zone : Zone} {q id i : Nat}
  {kind : TokenType}

abbrev TakesQuietly (t : Tokenized) (start b : Builder) : Prop :=
  Takes t (fun kind => Enclosure.of? kind = none) (· ≠ .text) start b

/-! Parts of a start tag -/

theorem Filed.tagItem? {element : Nat} {item : Build Builder} (h : b.Filed t)
    (hopen : ∀ id ∈ b.openPath, id < b.nodes.size) (hfollows : t.Follows (.between .startTag) b.pos)
    (hk : t.kind? b.pos = some kind) (hitem : b.tagItem? t element kind = some item) :
    Build.Returns item fun b' => b'.Filed t ∧ t.Follows (.between .startTag) b'.pos := by
  have hinner : Inner t element b b := .refl
  have htake : TakesQuietly t b b := .refl b
  have hp (kind : TokenType) (hkind : kind.isTagPart) : Enclosure.of? kind = none :=
    TokenType.of?_of_isTagPart hkind
  have hK (node : NodeKind) (_ : node.isPlain) (hne : node ≠ .text) : node ≠ .text := hne
  have hread {e : Enclosure} {x : Build Builder}
      (hx : Build.Returns x (Encloses t e .startTag element b)) :
      Build.Returns x fun b' => b'.Filed t ∧ t.Follows (.between .startTag) b'.pos :=
    hx.mono fun b' hr => ⟨h.encloses hopen hr, hr.follows⟩
  unfold Builder.tagItem? at hitem
  split at hitem <;> cases hitem
  · exact ((hinner.attributePair.and (htake.attributePair hp hK hk element)).and
      (follows_attributePair hfollows hk element)).mono
      fun b' ⟨⟨hi, ht⟩, hf⟩ => ⟨h.quiet hi.final ht, hf⟩
  · have hopened := hfollows.step hk (Phase.next?_opening rfl (.echo .escaped))
    exact hread (encloses_echo (e := .echo .escaped) hk hopened element rfl _)
  · have hopened := hfollows.step hk (Phase.next?_opening rfl (.echo .raw))
    exact hread (encloses_echo (e := .echo .raw) hk hopened element rfl _)
  · have hopened := hfollows.step hk (Phase.next?_opening rfl (.echo .triple))
    exact hread (encloses_echo (e := .echo .triple) hk hopened element rfl _)
  · have hopened := hfollows.step hk (Phase.next?_opening rfl .bladeComment)
    exact hread (encloses_delimited (e := .bladeComment) hk hopened element _)
  · exact (((hinner.directiveLeaf (.inl rfl) _).and (htake.directiveLeaf hp hK hk element _)).and
      (directiveLeaf_own b element _)).mono fun b' ⟨⟨hi, ht⟩, hpos, _⟩ =>
        ⟨h.quiet hi.final ht, hpos ▸ hfollows.directive hk⟩
  · refine ((htake.bump hk rfl).and (returns_bump b)).mono fun b' ⟨ht, _, hb'⟩ => ?_
    subst hb'
    exact ⟨h.quiet ((Final.refl b).of_nodes rfl (List.Subset.refl _)) ht, hfollows.step hk rfl⟩
  · have hpos : Build.Returns (b.unexpectedText t) (·.pos = b.pos + 1) := by
      unfold unexpectedText
      refine Build.Returns.any.bind fun _ _ => ?_
      refine (returns_report b _ _ _ _ _).bind fun b₁ ⟨_, _, hb₁⟩ => ?_
      subst hb₁
      exact (returns_bump _).mono fun b' ⟨_, hb'⟩ => by rw [hb']; rfl
    exact ((hinner.unexpectedText.and (htake.unexpectedText hp hk)).and hpos).mono
      fun b' ⟨⟨hi, ht⟩, hpos⟩ => ⟨h.quiet hi.final ht, hpos ▸ hfollows.step hk rfl⟩
  · obtain ⟨q, hq, -⟩ := hfollows.next hk
    cases hq

/-! Start tags -/

theorem next?_startTag {element : Nat} (hends : kind.endsTag = false)
    (hnone : b.tagItem? t element kind = none) :
    Zone.startTag.next? kind = Zone.content.next? kind := by
  cases kind <;> first | rfl | (cases hends; done) | cases hnone

theorem follows_eatGenericArgs (h : t.Follows .named b.pos) (element first : Nat) :
    Build.Returns (b.eatGenericArgs t element first) fun b' =>
      t.Follows (.between .startTag) b'.pos := by
  unfold eatGenericArgs
  refine .ite (fun hat => ?_) fun hat => .ok (h.settle rfl fun kind hk => ?_)
  · refine (returns_bump _).mono fun b' ⟨_, hb'⟩ => ?_
    rw [hb']
    exact h.step (beq_iff_eq.1 hat) rfl
  · cases kind with
    | genericArgs => exact absurd (beq_iff_eq.2 hk) hat
    | _ => rfl

theorem Filed.openTag (h : b.Filed t) (hs : b.Sound t)
    (hfollows : t.Follows (.between .content) b.pos) (hopens : t.kind? b.pos = some .lessThan)
    (hname : t.kind? (b.pos + 1) = some .tagName) :
    Build.Returns (b.openTag t) fun (_, _, _, b') =>
      b'.Filed t ∧ t.Follows (.between .content) b'.pos := by
  have hp (kind : TokenType) (hkind : kind.isTagPart) : Enclosure.of? kind = none :=
    TokenType.of?_of_isTagPart hkind
  have hstart : TakesQuietly t b b := .refl b
  unfold Builder.openTag
  refine Build.Returns.any.bind fun name _ => ?_
  refine ((hs.closeForSibling name).returns.and ((hstart.closeForSibling name).and
    ((Changes.refl b).closeForSibling name))).bind
    fun b₁ ⟨⟨hs₁, hpos₁⟩, ⟨htake₁, _⟩, hchanges₁⟩ => ?_
  have h₁ : b₁.Filed t := h.quiet hchanges₁.final htake₁
  rw [← hpos₁] at hfollows hopens hname
  have htake : TakesQuietly t b₁ b₁ := .refl b₁
  have helement : NodeKind.element ≠ .text := nofun
  refine ((startIn_starts b₁ b₁.parent .element).returns.and
    (((Final.refl b₁).startIn b₁.parent .element).and
      (htake.startIn b₁.parent helement))).bind
    fun ⟨element, b₂⟩ ⟨hstarts, ⟨hfinal₂, _⟩, htake₂, hk₂⟩ => ?_
  have hpos₂ : b₂.pos = b₁.pos := by rw [hstarts.rest]
  have hinner₂ : Inner t element b₂ b₂ := .refl
  refine Build.Returns.bind (P := fun b₃ => TakesQuietly t b₁ b₃ ∧ Inner t element b₂ b₃ ∧
    b₃.pos = b₁.pos + 1) (fun b₃ hb₃ => ?_) fun b₃ ⟨htake₃, hinner₃, hpos₃⟩ => ?_
  · obtain ⟨-, heq⟩ := returns_bump _ _ hb₃
    refine ⟨htake₂.bump (hk₂.trans hopens) rfl _ hb₃, hinner₂.bump hb₃, ?_⟩
    rw [heq, ← hpos₂]
  have hk₃ : b₃.current? t = some .tagName := (congrArg t.kind? hpos₃).trans hname
  refine ((htake₃.leaf element .elementName nofun hk₃ rfl).and
    ((hinner₃.leaf (.inl rfl) rfl 1).and (leaf_rest b₃ element .elementName 1))).bind
    fun ⟨_, b₄⟩ ⟨htake₄, ⟨hinner₄, _⟩, _, hb₄⟩ => ?_
  have hnamed : t.Follows .named b₄.pos := by
    have hpos₄ : b₄.pos = b₁.pos + 2 := by
      rw [hb₄]
      exact congrArg (· + 1) hpos₃
    rw [hpos₄]
    exact (hfollows.step hopens rfl).step hname rfl
  refine ((htake₄.eatGenericArgs hp element b.pos).and
    ((hinner₄.eatGenericArgs b.pos).and (follows_eatGenericArgs hnamed element b.pos))).bind
    fun b₅ ⟨htake₅, hinner₅, hfollows₅⟩ => ?_
  have h₅ : b₅.Filed t := h₁.quiet (hfinal₂.inner hinner₅) htake₅
  have hopen {b' : Builder} (hinner : Inner t element b₂ b') :
      ∀ id ∈ b'.openPath, id < b'.nodes.size := by
    have hpath : b'.openPath = b₁.openPath :=
      openPath_congr (hinner.stack_eq.trans (by rw [hstarts.rest]))
    have hsize : b₁.nodes.size ≤ b'.nodes.size := hfinal₂.size.trans hinner.size_le
    intro id hid
    exact (hs₁.growing.spine.lt_size hs₁.growing.linked id (hpath ▸ hid)).trans_le hsize
  have hitems := tagItems_keeps (P := fun b' => (b'.Filed t ∧
      t.Follows (.between .startTag) b'.pos) ∧ Inner t element b₂ b')
    (fun b' kind item ⟨⟨h', hfollows'⟩, hinner'⟩ hk hitem =>
      (h'.tagItem? (hopen hinner') hfollows' hk hitem).and (hinner'.tagItem? hitem))
    ⟨⟨h₅, hfollows₅⟩, hinner₅⟩
  refine hitems.bind fun ⟨tagEnd, b'⟩ ⟨b₀, ⟨⟨h₀, hfollows₀⟩, _⟩, hend⟩ => .ok ?_
  have hclosed {kind : TokenType} (hk : b₀.current? t = some kind)
      (hkind : Enclosure.of? kind = none)
      (hnext : Zone.startTag.next? kind = some (.between .content))
      (hbump : b₀.bump t = .ok b') : b'.Filed t ∧ t.Follows (.between .content) b'.pos := by
    have htake₀ : TakesQuietly t b₀ b₀ := .refl b₀
    refine ⟨h₀.quiet ((Final.refl b₀).bump _ hbump) (htake₀.bump hk hkind _ hbump), ?_⟩
    obtain ⟨-, rfl⟩ := returns_bump _ _ hbump
    exact hfollows₀.step hk ((Phase.next?_of_zone? rfl rfl).trans hnext)
  cases tagEnd with
  | closed => exact hclosed hend.1 rfl rfl hend.2
  | selfClosed => exact hclosed hend.1 rfl rfl hend.2
  | unterminated =>
      obtain ⟨rfl, hnone⟩ := hend
      refine ⟨h₀, hfollows₀.congr rfl fun kind hk => ?_⟩
      obtain ⟨hends, hitem⟩ := hnone kind hk
      rw [Phase.next?_of_zone? rfl rfl, Phase.next?_of_zone? rfl rfl]
      exact (next?_startTag hends hitem).symm

theorem Filed.alters {f : FlatNode → FlatNode} (h : b.Filed t)
    (hid : (slot b.nodes id).kind = .element) (ha : b.Alters id f b')
    (hf : ∀ n, (f n).kind = n.kind) (hopen : ∀ i ∈ b'.openPath, i = id ∨ i ∈ b.openPath)
    (hpos : b'.pos = b.pos) : b'.Filed t where
  text i hk := by
    have hne : i ≠ id := by
      rintro rfl
      rw [ha.self, hf, hid] at hk
      cases hk
    rw [ha.other hne] at hk ⊢
    obtain ⟨hclosed, hrun⟩ := h.text i hk
    exact ⟨fun hmem => hclosed ((hopen i hmem).resolve_left hne), hrun⟩
  delimiter i kind e hi hk he := by
    obtain ⟨j, hj⟩ := h.delimiter i kind e (hpos ▸ hi) hk he
    have hne : j ≠ id := by
      rintro rfl
      exact e.nodeKind_ne.2.2 (hj.kind.symm.trans hid)
    have hslot : slot b'.nodes j = slot b.nodes j := ha.other hne
    exact ⟨j, hslot ▸ hj.kind, fun hmem => hj.closed ((hopen j hmem).resolve_left hne),
      hslot ▸ hj.opens, hslot ▸ hj.start, hslot ▸ hj.stop⟩

/-- Between two items of content: what was read is filed, and content goes on. -/
structure InOrder (t : Tokenized) (b : Builder) : Prop where
  filed : b.Filed t
  follows : t.Follows (.between .content) b.pos

namespace InOrder

variable (h : InOrder t b)
include h

theorem quiet (hf : Final b b') (ht : TakesQuietly t b b')
    (hfollows : t.Follows (.between .content) b'.pos) : InOrder t b' :=
  ⟨h.filed.quiet hf ht, hfollows⟩

theorem still (hf : Final b b') (ht : TakesQuietly t b b') (hpos : b'.pos = b.pos) :
    InOrder t b' := h.quiet hf ht (hpos ▸ h.follows)

theorem startTag (hs : b.Sound t) (hopens : t.kind? b.pos = some .lessThan)
    (hname : t.kind? (b.pos + 1) = some .tagName) :
    Build.Returns (b.startTag t) (InOrder t) := by
  refine (returns_startTag hs (h.filed.openTag hs h.follows hopens hname)).mono
    fun b'' ⟨name, element, tagEnd, b', b₁, ⟨h', hfollows⟩, _, hread, houtcome⟩ => ?_
  have hdone {f : FlatNode → FlatNode} {frames : List Frame}
      (hset : Settles t b₁ b' name element f frames b'') : InOrder t b'' := by
    refine ⟨h'.alters hread.titled.kind hset.alters hset.settled.kind (fun i hi => ?_) hset.pos,
      hset.pos ▸ hfollows⟩
    rcases hset.eq_of_mem_openPath hi with hopen | ⟨heq, -⟩
    · exact .inr (openPath_congr hread.calm.stack ▸ hopen)
    · exact .inl heq
  cases houtcome with
  | broken _ hset => exact hdone hset
  | empty _ _ _ _ hset => exact hdone hset
  | entered _ hset => exact hdone hset

/-! Items of content -/

theorem encloses (hs : b.Sound t) (hr : Encloses t e .content q b b') : InOrder t b' where
  filed := h.filed.encloses (hs.growing.spine.lt_size hs.growing.linked) hr
  follows := hr.follows

theorem text (hs : b.Sound t) (hk : t.kind? b.pos = some .text) :
    Build.Returns (b.text t b.parent) (InOrder t) := by
  obtain ⟨hfollows, hrun⟩ := (h.follows.step hk rfl).textEnd
  have hbound := (textEnd_bounds (t := t) (i := b.pos + 1) (Tokenized.lt_size_of_kind? hk)).1
  have hstop : b.pos + (textEnd t (b.pos + 1) - b.pos) = textEnd t (b.pos + 1) := by omega
  have htext (i : Nat) (hi : b.pos ≤ i) (hlt : i < textEnd t (b.pos + 1)) :
      t.kind? i = some .text := by
    rcases hi.eq_or_lt with rfl | hi'
    · exact hk
    · exact hrun i hi' hlt
  unfold Builder.text
  refine ((leaf_own b b.parent .text _).and ((leaf_rest b b.parent .text _).and
    ((Final.refl b).leaf b.parent .text _))).bind
    fun ⟨_, b'⟩ ⟨⟨hsize, hopen, hown⟩, ⟨_, hrest⟩, hfinal, _⟩ => .ok ?_
  have hpos : b'.pos = textEnd t (b.pos + 1) := by rw [hrest, hstop]
  refine ⟨h.filed.keep hfinal (fun id hid => ?_) (fun id hnew hkind => ?_)
    fun i kind e hi hlt hkind he => ?_, hpos ▸ hfollows⟩
  · exact (congrArg FlatNode.kind ((hown id).trans (if_neg hid.ne)) :)
  · have hlt : id < b'.nodes.size := lt_size_of_kind (by rw [hkind]; nofun)
    obtain rfl : id = b.nodes.size := by omega
    have hleaf := (hown b.nodes.size).trans (if_pos rfl)
    have hstart : (slot b'.nodes b.nodes.size).tokenStart = b.pos :=
      (congrArg FlatNode.tokenStart hleaf :)
    have hend : (slot b'.nodes b.nodes.size).tokenEnd = textEnd t (b.pos + 1) :=
      (congrArg FlatNode.tokenEnd hleaf :).trans hstop
    refine ⟨fun hmem => ?_, fun i hi hlt => htext i (hstart ▸ hi) (hend ▸ hlt)⟩
    exact Nat.lt_irrefl _ (hs.growing.spine.lt_size hs.growing.linked _ (hopen ▸ hmem))
  · cases hkind.symm.trans (htext i hi (hpos ▸ hlt))
    cases he

theorem single (hk : t.kind? b.pos = some kind) (hquiet : Enclosure.of? kind = none)
    (hnext : Zone.content.next? kind = some (.between .content)) {node : NodeKind}
    (hnode : node ≠ .text) : Build.Returns (b.single t node) (InOrder t) := by
  have htake : TakesQuietly t b b := .refl b
  unfold Builder.single
  refine ((htake.leaf b.parent node hnode hk hquiet).and ((leaf_rest b b.parent node 1).and
    ((Final.refl b).leaf b.parent node 1))).bind
    fun ⟨_, b'⟩ ⟨htake', ⟨_, hrest⟩, hfinal, _⟩ => .ok (h.quiet hfinal htake' ?_)
  rw [hrest]
  exact h.follows.step hk ((Phase.next?_of_zone? rfl rfl).trans hnext)

/-- The phases name all tokens that may come first in content: the builder takes nothing but text
for text. -/
theorem construct (hs : b.Sound t) (hk : t.kind? b.pos = some kind) (hdirective : kind ≠ .directive)
    (hopens : kind = .lessThan →
      t.kind? (b.pos + 1) ≠ some .slash ∧ t.kind? (b.pos + 1) ≠ some .tagName) :
    Build.Returns (b.construct t kind) (InOrder t) := by
  have hread {e : Enclosure} {x : Build Builder}
      (hx : Build.Returns x (Encloses t e .content b.parent b)) : Build.Returns x (InOrder t) :=
    hx.mono fun _ hr => h.encloses hs hr
  have hopened (e : Enclosure) (hopening : e.opening = kind) :
      t.Follows (.opened e .content) (b.pos + 1) := by
    have hnext := Phase.next?_opening (p := .between .content) rfl e
    rw [e.resumes_content, hopening] at hnext
    exact h.follows.step hk hnext
  by_cases hstarts : kind.startsConstruct
  · unfold Builder.construct
    cases kind with
    | lessThan =>
        obtain ⟨hslash, hname⟩ := hopens rfl
        have hbracket : t.Follows .bracket (b.pos + 1) := h.follows.step hk rfl
        cases hnext : t.kind? (b.pos + 1) with
        | none => cases hbracket.isFinal hnext
        | some next =>
            obtain ⟨q, hq, -⟩ := hbracket.next hnext
            cases next with
            | slash => exact absurd hnext hslash
            | tagName => exact absurd hnext hname
            | _ => cases hq
    | echoStart =>
        exact hread (encloses_echo (e := .echo .escaped) hk (hopened _ rfl) b.parent rfl _)
    | rawEchoStart =>
        exact hread (encloses_echo (e := .echo .raw) hk (hopened _ rfl) b.parent rfl _)
    | tripleEchoStart =>
        exact hread (encloses_echo (e := .echo .triple) hk (hopened _ rfl) b.parent rfl _)
    | bladeCommentStart =>
        exact hread (encloses_delimited (e := .bladeComment) hk (hopened _ rfl) b.parent _)
    | commentStart =>
        exact hread (encloses_delimited (e := .comment) hk (hopened _ rfl) b.parent _)
    | phpBlockStart =>
        exact hread (encloses_delimited (e := .phpBlock) hk (hopened _ rfl) b.parent _)
    | phpTagStart =>
        exact hread (encloses_delimited (e := .phpTag) hk (hopened _ rfl) b.parent _)
    | verbatimStart => exact hread (encloses_verbatim hk (hopened _ rfl) b.parent)
    | bogusComment => exact h.single hk rfl rfl nofun
    | doctype => exact h.single hk rfl rfl nofun
    | cdata => exact h.single hk rfl rfl nofun
    | directive => exact absurd rfl hdirective
    | _ => cases hstarts
  · obtain ⟨q, hq, -⟩ := h.follows.next hk
    rw [Phase.next?_of_zone? rfl rfl] at hq
    obtain ⟨rfl, -⟩ := Zone.eq_of_next?_content hq ((Bool.not_eq_true _).mp hstarts)
    exact h.text hs hk

/-! Closing tags -/

theorem strayClosingTag {name : String} (htag : t.ClosingTagAt b.pos name) :
    Build.Returns (b.leaf t b.parent .strayClosingTag (closingTagEnd t (b.pos + 3) - b.pos))
      (InOrder t ·.2) := by
  obtain ⟨hfollows, hname⟩ := h.follows.closingTag htag.opens htag.slash
  have hbound := (closingTagEnd_bounds (t := t) (i := b.pos + 3) htag.lt_size).1
  have hstop : b.pos + (closingTagEnd t (b.pos + 3) - b.pos) = closingTagEnd t (b.pos + 3) := by
    omega
  have htake : TakesQuietly t b b := .refl b
  refine ((htake.leaves b.parent .strayClosingTag nofun fun i hi hlt => ?_).and
    ((Final.refl b).leaf b.parent .strayClosingTag _)).mono
    fun (_, b') ⟨⟨htake', hpos⟩, hfinal, _⟩ => h.quiet hfinal htake' ?_
  · exact Tokenized.of?_closingTag htag.opens htag.slash hname hi (hstop ▸ hlt)
  · rw [hpos, hstop]
    exact hfollows

theorem closeElement (hs : b.Sound t) {f : Frame} {below : List Frame} {opened name : String}
    (hstack : b.stack = f :: below) (hkind : f.kind = .element opened)
    (htag : t.ClosingTagAt b.pos name) :
    Build.Returns (b.closeElement t (closingTagEnd t (b.pos + 3) - b.pos)) (InOrder t) := by
  obtain ⟨hfollows, hname⟩ := h.follows.closingTag htag.opens htag.slash
  have hbound := (closingTagEnd_bounds (t := t) (i := b.pos + 3) htag.lt_size).1
  have hstop : b.pos + (closingTagEnd t (b.pos + 3) - b.pos) = closingTagEnd t (b.pos + 3) := by
    omega
  have hrule : f.blockRule? = none := by
    unfold Frame.blockRule?
    rw [hkind]
  have hlt : f.node < b.nodes.size := by
    apply hs.growing.spine.lt_size hs.growing.linked
    unfold openPath
    rw [hstack]
    exact List.mem_cons_self
  have hchanges : Build.Returns (b.closeElement t (closingTagEnd t (b.pos + 3) - b.pos))
      (Changes t b) := (Changes.refl b).closeElement hstack hrule _
  refine (hchanges.and (returns_closeElement hstack hlt _)).mono
    fun b' ⟨hc, _, hpos, _, hsize, hown⟩ => ?_
  rw [hstop] at hpos
  refine h.quiet hc.final ⟨?_, fun i hi hlt => ?_, ?_, fun i hi => ?_, fun i hnew hlt => ?_⟩
    (hpos ▸ hfollows)
  · rw [hpos]
    exact (Nat.le_add_right _ 3).trans hbound
  · exact Tokenized.of?_closingTag htag.opens htag.slash hname hi (hpos ▸ hlt)
  · rw [hsize]
    exact Nat.le_succ _
  · have hi' := hown i
    rw [if_neg hi.ne] at hi'
    split at hi' <;> exact (congrArg FlatNode.kind hi' :)
  · have hi' := hown i
    rw [if_pos (by omega)] at hi'
    have hkind : (slot b'.nodes i).kind = .closingElementName := (congrArg FlatNode.kind hi' :)
    rw [hkind]
    nofun

/-! Frames -/

theorem forceClose (reason : ClosedBy) (stop : Nat) (context : Option String) :
    Build.Returns (b.forceClose t reason stop context) (InOrder t) := by
  have htake : TakesQuietly t b b := .refl b
  exact ((htake.forceClose reason stop context).and
    ((Final.refl b).forceClose reason stop context)).mono
    fun b' ⟨⟨htake', hpos⟩, hfinal⟩ => h.still hfinal htake' hpos

theorem popFrame {f : Frame} {below : List Frame} (hstack : b.stack = f :: below) (stop : Nat) :
    Build.Returns (b.popFrame stop) (InOrder t ·.2) := by
  have htake : TakesQuietly t b b := .refl b
  exact ((alters_popFrame hstack stop).and ((Final.refl b).popFrame stop)).mono
    fun (_, b') ⟨⟨_, ha, _, hpos, _⟩, hfinal, _⟩ =>
      h.still hfinal (htake.alters ha (fun _ => rfl) hpos) hpos

theorem finish (hroot : root ∈ b.openPath) : Build.Returns (b.finish root) (InOrder t) := by
  have htake : TakesQuietly t b b := .refl b
  refine ((alters_finishAt b root b.pos).and ((Final.refl b).finishAt (.inl hroot) b.pos)).mono
    fun b' ⟨⟨ha, hrest⟩, hfinal⟩ => ?_
  have hpos : b'.pos = b.pos := by rw [hrest]
  exact h.still hfinal (htake.alters ha (fun _ => rfl) hpos) hpos

/-! Directives -/

theorem directiveLeaf (hk : t.kind? b.pos = some .directive) (role : DirectiveRole) :
    Build.Returns (b.directiveLeaf t b.parent role) (InOrder t) := by
  have htake : TakesQuietly t b b := .refl b
  refine ((htake.directiveLeaf (fun _ => TokenType.of?_of_isTagPart) (fun _ _ hne => hne) hk
    b.parent role).and (((Final.refl b).directiveLeaf role b.parent).and
      (directiveLeaf_own b b.parent role))).mono fun b' ⟨htake', hfinal, hpos, _⟩ => ?_
  exact h.quiet hfinal htake' (hpos ▸ h.follows.directive hk)

theorem openBlock (hk : t.kind? b.pos = some .directive) (rule : BlockRule) (name : String) :
    Build.Returns (b.openBlock t rule name) (InOrder t) := by
  have htake : TakesQuietly t b b := .refl b
  have hreads : Build.Returns (b.openBlock t rule name) fun b' =>
      TakesQuietly t b b' ∧ b'.pos = b.pos + t.directiveLength b.pos := by
    have hblock : NodeKind.directiveBlock ≠ .text := nofun
    unfold Builder.openBlock
    refine Build.Returns.any.bind fun _ _ => ?_
    refine ((htake.startIn b.parent hblock).and
      (pos_startIn b b.parent .directiveBlock)).bind fun ⟨block, b₁⟩ ⟨⟨htake₁, hk₁⟩, hpos₁⟩ => ?_
    refine ((htake₁.directiveLeaf (fun _ => TokenType.of?_of_isTagPart) (fun _ _ hne => hne)
      (hk₁.trans hk) block .opener).and (directiveLeaf_own b₁ block .opener)).bind
      fun b₂ ⟨htake₂, hpos₂, _⟩ => .ok ?_
    have hrest := b₂.pushFrame_rest ⟨block, .directive rule name⟩
    have hpos : (b₂.pushFrame ⟨block, .directive rule name⟩).pos = b₂.pos := by rw [hrest]
    have hnodes : (b₂.pushFrame ⟨block, .directive rule name⟩).nodes = b₂.nodes := by rw [hrest]
    refine ⟨htake₂.of_kinds hpos (congrArg Array.size hnodes) fun i => by rw [hnodes], ?_⟩
    rw [hpos, hpos₂, hpos₁]
  refine (hreads.and ((Final.refl b).openBlock rule name)).mono
    fun b' ⟨⟨htake', hpos⟩, hfinal⟩ => h.quiet hfinal htake' (hpos ▸ h.follows.directive hk)

end InOrder

theorem upheld_inOrder (hext : t.options.treeExtensions = []) : Upheld t (InOrder t) where
  report b d h := by
    have htake : TakesQuietly t b (b.report d) := (Takes.refl b).of_kinds rfl rfl fun _ => rfl
    exact h.still ((Final.refl b).of_nodes rfl (List.Subset.refl _)) htake rfl
  close b reason context _ h _ := h.forceClose reason b.pos context
  pair _ _ _ _ _ hs h hstack hkind _ htag := h.closeElement hs hstack hkind htag
  stray _ _ _ h htag := h.strayClosingTag htag
  marker _ role _ h hk := h.directiveLeaf hk role
  leave b _ _ h hstack _ := h.popFrame hstack b.pos
  openBlock _ rule name _ h hk := h.openBlock hk rule name
  startTag _ hs h hopens hname := h.startTag hs hopens hname
  plain _ _ hs h hk hdirective hopens := h.construct hs hk hdirective hopens
  extension b leaf _ _ hclaims := by
    cases (extensionLeaf?_eq_none hext).symm.trans hclaims
  finish _ _ h := h.finish (List.mem_append_right _ List.mem_cons_self)

theorem inOrder_initial (h : t.Follows (.between .content) 0) : InOrder t initial := by
  refine ⟨⟨fun id hk => ?_, fun i _ _ hi => absurd hi (Nat.not_lt_zero i)⟩, h⟩
  rw [slot_initial] at hk
  cases hk

/-- Without extensions the nodes of text of the finished tree hold text, and all delimiters are in
nodes of their own. -/
theorem filed_build (hext : t.options.treeExtensions = [])
    (h : t.Follows (.between .content) 0) :
    Build.Returns (build t) fun b => b.Filed t ∧ b.pos = t.size :=
  ((upheld_inOrder hext).build (inOrder_initial h)).mono
    fun _ ⟨h, _, hpos⟩ => ⟨h.filed, hpos⟩

end Builder
end BladeTree
