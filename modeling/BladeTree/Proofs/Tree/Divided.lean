import BladeTree.Proofs.Tree.Covers
import BladeTree.Proofs.Tree.ElementEnds

namespace BladeTree
namespace Builder

variable {t : Tokenized} {b b' b'' b₁ : Builder} {e i element : Nat} {kind : NodeKind}
  {name : String} {f : Frame} {below : List Frame}

/-- The element `i` is its start tag, which ends with token `e`, and children that have the tokens
after it. The attributes are in the tag, and the closing tag is not. -/
structure Divides (t : Tokenized) (b : Builder) (i e : Nat) : Prop where
  tag : b.TagEndsAt t i e
  lt : e < b.pos
  spans : b.Spans i e
  content : ∀ j, e < j → j < b.pos → b.Spans i j → ∃ c, (slot b.nodes c).parent = some i ∧
    e < (slot b.nodes c).tokenStart ∧ b.Spans c j
  attr : ∀ c, (slot b.nodes c).parent = some i → (slot b.nodes c).kind = .attr →
    (slot b.nodes c).tokenStart ≤ e
  closing : ∀ c, (slot b.nodes c).parent = some i → (slot b.nodes c).kind = .closingElementName →
    e < (slot b.nodes c).tokenStart

structure Broken (t : Tokenized) (b : Builder) (i : Nat) : Prop where
  closed : i ∉ b.openPath
  breaksOff : b.BreaksOff t i (slot b.nodes i).tokenEnd
  bare : b.Bare i

def Divided (t : Tokenized) (b : Builder) : Prop :=
  ∀ i, (slot b.nodes i).kind = .element → (∃ e, b.Divides t i e) ∨ b.Broken t i

/-! What later steps keep -/

theorem Divides.keep (h : b.Divides t i e) (hi : i < b.nodes.size) (hc : Covers b b') :
    b'.Divides t i e := by
  have hafter {c : Nat} (hge : b.nodes.size ≤ c) (hp : (slot b'.nodes c).parent = some i) :
      e < (slot b'.nodes c).tokenStart := h.lt.trans_le (hc.fresh c i hge hp hi).1
  have hold {c : Nat} (hlt : c < b.nodes.size) (hp : (slot b'.nodes c).parent = some i) :
      (slot b.nodes c).parent = some i := (hc.widens.parent_eq hlt).symm.trans hp
  refine ⟨h.tag.keep hi hc.widens hc.final fun c => hafter, h.lt.trans_le hc.le,
    (hc.spans i hi e h.lt).2 h.spans, fun j hej hj hspans => ?_, fun c hp hk => ?_,
    fun c hp hk => ?_⟩
  · rcases Nat.lt_or_ge j b.pos with hbefore | hnext
    · obtain ⟨c, hp, hstart, hcj⟩ := h.content j hej hbefore ((hc.spans i hi j hbefore).1 hspans)
      have hlt : c < b.nodes.size := lt_size_of_parent hp
      refine ⟨c, (hc.widens.parent_eq hlt).trans hp, ?_, (hc.spans c hlt j hbefore).2 hcj⟩
      rwa [hc.widens.tokenStart_eq hlt]
    · obtain ⟨c, hp, hcj, hplace⟩ := hc.child i hi j hnext hj hspans
      refine ⟨c, hp, ?_, hcj⟩
      rcases Nat.lt_or_ge c b.nodes.size with hlt | hge
      · have hopen : c ∈ b.openPath := hplace.resolve_right (Nat.not_le_of_lt hlt)
        rw [hc.widens.tokenStart_eq hlt]
        exact (h.tag.child c (hold hlt hp)).resolve_right fun hclosed => hclosed.1 hopen
      · exact hafter hge hp
  · rcases Nat.lt_or_ge c b.nodes.size with hlt | hge
    · rw [hc.widens.kind_eq hlt] at hk
      rw [hc.widens.tokenStart_eq hlt]
      exact h.attr c (hold hlt hp) hk
    · exact absurd hk (hc.fresh c i hge hp hi).2
  · rcases Nat.lt_or_ge c b.nodes.size with hlt | hge
    · rw [hc.widens.kind_eq hlt] at hk
      rw [hc.widens.tokenStart_eq hlt]
      exact h.closing c (hold hlt hp) hk
    · exact hafter hge hp

theorem Broken.keep (h : b.Broken t i) (hi : i < b.nodes.size) (hw : Widens b.nodes.size b b')
    (hf : Final b b') : b'.Broken t i where
  closed hopen := h.closed (hf.opened i hopen hi)
  breaksOff := by
    have hend : (slot b'.nodes i).tokenEnd = (slot b.nodes i).tokenEnd :=
      (congrArg FlatNode.tokenEnd (hf.own i hi h.closed) :)
    have hbreaks := h.breaksOff
    unfold BreaksOff at hbreaks ⊢
    rwa [hw.tokenStart_eq hi, hend]
  bare := h.bare.keep hw fun c hge hp => absurd hp (hw.not_parent hi h.closed hge)

namespace Divided

theorem grow (h : b.Divided t) (hc : Covers b b')
    (hnew : ∀ i, b.nodes.size ≤ i → (slot b'.nodes i).kind = .element →
      (∃ e, b'.Divides t i e) ∨ b'.Broken t i) : b'.Divided t := by
  intro i hk
  rcases Nat.lt_or_ge i b.nodes.size with hlt | hge
  · rcases h i ((hc.widens.kind_eq hlt).symm.trans hk) with ⟨e, he⟩ | hbroken
    · exact .inl ⟨e, he.keep hlt hc⟩
    · exact .inr (hbroken.keep hlt hc.widens hc.final)
  · exact hnew i hge hk

theorem of_size (h : b.Divided t) (hc : Covers b b') (hsize : b'.nodes.size = b.nodes.size) :
    b'.Divided t := by
  refine h.grow hc fun i hge hk => ?_
  have hlt : i < b'.nodes.size := lt_size_of_kind (by rw [hk]; nofun)
  exact absurd hge (Nat.not_le_of_lt (hsize ▸ hlt))

theorem adds (h : b.Divided t) (hs : b.Sound t) (ha : b.Adds kind b') (hattr : kind ≠ .attr)
    (helement : kind ≠ .element) : b'.Divided t := by
  refine h.grow (ha.covers hs hattr) fun i hge hk => ?_
  obtain rfl | hlt := hge.eq_or_lt
  · exact absurd (ha.kind_eq.symm.trans hk) helement
  · exact absurd hk (ha.inner i hlt)

theorem calm {K : NodeKind → Prop} (h : b.Divided t) (hc : Calm K b b') (hpos : b'.pos = b.pos)
    (hsize : b'.nodes.size = b.nodes.size) : b'.Divided t :=
  h.of_size (.of_size hc.widens hc.final hsize hpos
    fun _ hi => .inl (openPath_congr hc.stack ▸ hi)) hsize

/-! Frames that end -/

theorem leave (h : b.Divided t) (hs : b.stack = f :: below) :
    Build.Returns (b.popFrame b.pos) (Divided t ·.2) := by
  intro (popped, b') hb
  obtain ⟨-, ha, hstack, hpos, -⟩ := alters_popFrame hs b.pos _ hb
  have hcovers : Covers b b' := .leave hs hstack hpos (.popFrame hs hb)
    ((Final.refl b).popFrame _ _ hb).1 ha fun _ => le_add_tsub
  exact h.of_size hcovers ha.size

theorem close (h : b.Divided t) (reason : ClosedBy) (context : Option String) :
    Build.Returns (b.forceClose t reason b.pos context) (Divided t) := by
  intro b' hb
  cases hs : b.stack with
  | nil =>
      rw [forceClose_eq, popFrame, hs] at hb
      cases hb
      exact h
  | cons f below =>
      obtain ⟨ha, hpos⟩ := alters_forceClose hs _ _ _ _ hb
      obtain ⟨-, -, hstack⟩ := returns_closed hs _ _ _ _ hb
      have hw : Widens b.nodes.size b b' := (Steady.close hb).toWidens
      have hcovers : Covers b b' := .leave hs hstack hpos hw
        ((Final.refl b).forceClose _ _ _ _ hb) ha fun _ => le_add_tsub
      exact h.of_size hcovers ha.size

theorem pair (h : b.Divided t) (hs : b.Sound t) (hstack : b.stack = f :: below) (n : Nat) :
    Build.Returns (b.closeElement t n) (Divided t) := by
  unfold closeElement
  refine ((adds_leaf b .closingElementName n).and (leaf_rest b _ _ n)).bind
    fun ⟨_, b₁⟩ ⟨hadds, _, hrest⟩ => ?_
  have h₁ : b₁.Divided t := h.adds hs hadds nofun nofun
  have hstack₁ : b₁.stack = f :: below := by rw [hrest, hstack]
  have hopen : b.parent ∈ b₁.openPath := hadds.opened b.parent_mem_openPath
  refine (((Changes.refl (t := t) b₁).setFlag (.inl hopen) .paired).and
    (alters_modify b₁ b.parent _)).bind fun b₂ ⟨hc₂, ha₂, hb₂⟩ => ?_
  have hstack₂ : b₂.stack = b₁.stack := by rw [hb₂]
  have h₂ : b₂.Divided t := by
    refine h₁.of_size (.of_size hc₂.steady.toWidens hc₂.final ha₂.size (by rw [hb₂]) ?_) ha₂.size
    exact fun _ hi => .inl (openPath_congr hstack₂ ▸ hi)
  exact (h₂.leave (hstack₂.trans hstack₁)).bind fun _ h₃ => .ok h₃

theorem closeForSibling (h : b.Divided t) (hs : b.Sound t) (name : String) :
    Build.Returns (b.closeForSibling t name) (Divided t) := by
  unfold Builder.closeForSibling
  split
  · exact .ok h
  · rename_i above habove
    have hpassed : Build.Returns (forceCloseMany t (fun _ => (.parentEnd, none)) b.pos above b)
        fun b' => b'.Divided t ∧ b'.Sound t ∧ b'.pos = b.pos ∧ b'.stack = b.stack.drop above :=
      forceCloseMany_keeps (fun b reason context _ h _ => h.close reason context) hs h
        fun k hk => Frame.permits_parentEnd (Frame.endsWithParent_of_siblingTarget habove hk)
    exact hpassed.bind fun b₁ ⟨h₁, _, hpos₁, _⟩ => hpos₁ ▸ h₁.close _ _

end Divided

/-! Start tags -/

theorem TagEndsAt.divides (h : b.TagEndsAt t i e) (hpos : b.pos = e + 1)
    (hspans : i ∈ b.openPath ∨ e < (slot b.nodes i).tokenEnd)
    (hend : ∀ c, (slot b.nodes c).parent = some i → (slot b.nodes c).tokenEnd ≤ e)
    (hbare : b.Bare i) : b.Divides t i e where
  tag := h
  lt := hpos ▸ Nat.lt_succ_self e
  spans := ⟨h.start, hspans⟩
  content j hej hj := absurd hj (by omega)
  attr c hp _ := (Nat.le_add_right _ _).trans (hend c hp)
  closing c hp hk := absurd hk (hbare c hp)

namespace Divided

theorem readsTag {g : FlatNode → FlatNode} {frames : List Frame} (h : b₁.Divided t)
    (hs : b₁.Sound t) (hread : b₁.ReadsTag t name element b')
    (hset : Settles t b₁ b' name element g frames b'')
    (hwhole : element ∈ b''.openPath ∨ (slot b''.nodes element).tokenEnd = b''.pos)
    (hnew : (∃ e, b''.Divides t element e) ∨ b''.Broken t element) : b''.Divided t := by
  have ha := hset.adds hread hwhole
  obtain rfl := hread.id_eq
  refine h.grow (ha.covers hs nofun) fun i hge hk => ?_
  obtain rfl | hlt := hge.eq_or_lt
  · exact hnew
  · exact absurd hk (ha.inner i hlt)

theorem startTag (h : b.Divided t) (hs : b.Sound t) (hopens : t.kind? b.pos = some .lessThan)
    (hname : t.kind? (b.pos + 1) = some .tagName) :
    Build.Returns (b.startTag t) (Divided t) := by
  refine (returns_startTag hs (tagEndsAt_openTag hs hopens hname)).mono
    fun b'' ⟨name, element, tagEnd, b', b₁, ⟨hbroken, hends⟩, hclose, hread, houtcome⟩ => ?_
  have h₁ := h.closeForSibling hs name _ hclose
  obtain ⟨hs₁, -⟩ := (hs.closeForSibling name).returns _ hclose
  have hstart : (slot b'.nodes element).tokenStart ≤ b'.pos := by
    have hfirst : (slot b'.nodes element).tokenStart = b₁.pos :=
      (congrArg FlatNode.tokenStart hread.own :)
    exact hfirst.trans_le hread.calm.pos
  have hdivides {g : FlatNode → FlatNode} {frames : List Frame} (hended : tagEnd ≠ .unterminated)
      (hset : Settles t b₁ b' name element g frames b'')
      (hwhole : element ∈ b''.openPath ∨ (slot b''.nodes element).tokenEnd = b''.pos) :
      b''.Divided t := by
    obtain ⟨e, htag, he, hend⟩ := hends hended
    have hpos : b''.pos = e + 1 := hset.pos.trans he
    refine h₁.readsTag hs₁ hread hset hwhole (.inl ⟨e, (hset.tagEndsAt hread hs₁ htag).divides hpos
      (hwhole.imp_right fun hstop => ?_) (fun c hp => ?_) (hset.bare hread hs₁)⟩)
    · rw [hstop, hpos]
      exact Nat.lt_succ_self e
    · have hne : c ≠ element := by
        rintro rfl
        have hlt := hs₁.growing.spine.lt_size hs₁.growing.linked _ b₁.parent_mem_openPath
        obtain rfl : b₁.parent = c := Option.some.inj ((hset.parent hread).symm.trans hp)
        exact absurd hread.id_eq hlt.ne
      rw [hset.parent_eq] at hp
      rw [hset.alters.other hne]
      exact hend c hp
  cases houtcome with
  | broken hunterminated hset =>
      have hstop : (slot b''.nodes element).tokenEnd = b''.pos := by
        rw [hset.alters.self, hset.pos]
        exact Nat.add_sub_cancel' hstart
      refine h₁.readsTag hs₁ hread hset (.inr hstop)
        (.inr ⟨fun hopen => ?_, ?_, hset.bare hread hs₁⟩)
      · rcases hset.eq_of_mem_openPath hopen with hold | ⟨-, hne⟩
        · have hlt := hs₁.growing.spine.lt_size hs₁.growing.linked element hold
          exact absurd hread.id_eq hlt.ne
        · exact absurd rfl hne
      · have hfree := hbroken hunterminated
        unfold BreaksOff at hfree ⊢
        rw [hstop, hset.pos, hset.tokenStart_eq]
        exact hfree
  | empty selfClosed void hended _ hset =>
      refine hdivides hended hset (.inr ?_)
      rw [hset.alters.self, hset.pos]
      exact FlatNode.tokenEnd_emptied hstart
  | entered hended hset =>
      refine hdivides hended hset (.inl ?_)
      rw [hset.openPath_eq]
      exact List.mem_cons_self

end Divided

theorem upheld_divided (hext : t.options.treeExtensions = []) : Upheld t (Divided t) where
  report b d h := h.calm ((Calm.refl (K := fun _ => True) b).report d) rfl rfl
  close b reason context _ h _ := h.close reason context
  pair b _ _ _ _ hs h hstack _ _ _ := h.pair hs hstack _
  stray b _ hs h _ := (adds_leaf b .strayClosingTag _).mono fun _ ha => h.adds hs ha nofun nofun
  marker b role hs h _ := (adds_directiveLeaf b role).mono fun _ ha => h.adds hs ha nofun nofun
  leave _ _ _ h hstack _ := h.leave hstack
  openBlock b rule name hs h _ :=
    (adds_openBlock b rule name).mono fun _ ha => h.adds hs ha nofun nofun
  startTag _ hs h hopens hname := h.startTag hs hopens hname
  plain b _ hs h _ hdirective hopens := (adds_construct b hdirective hopens).mono
    fun _ ⟨_, hattr, helement, ha⟩ => h.adds hs ha hattr helement
  extension _ _ _ _ hclaims := by cases (extensionLeaf?_eq_none hext).symm.trans hclaims
  finish b _ h := by
    have hroot : root ∈ b.openPath := List.mem_append_right _ List.mem_cons_self
    refine (((Calm.refl (K := fun _ => True) b).finishAt (.inr hroot) b.pos).and
      (alters_finishAt b root b.pos)).mono fun b' ⟨hc, ha, hb'⟩ => ?_
    exact h.calm hc (by rw [hb']) ha.size

theorem divided_initial (t : Tokenized) : initial.Divided t := by
  intro i hk
  rw [slot_initial] at hk
  cases hk

theorem divided_build (hext : t.options.treeExtensions = []) :
    Build.Returns (build t) fun b => b.Divided t ∧ b.stack = [] ∧
      ∀ i < b.nodes.size, (slot b.nodes i).tokenEnd ≤ b.pos := by
  refine (((upheld_divided hext).build (divided_initial t)).and yields_build.returns).mono
    fun b ⟨⟨h, hs, hpos⟩, hbuilt⟩ => ⟨h, hs, fun i hi => ?_⟩
  rw [hpos]
  exact hbuilt.growing.taken i hi

theorem spans_of_closed {i j : Nat} (hs : b.stack = []) (hi : i ≠ root) :
    b.Spans i j ↔ (slot b.nodes i).tokenStart ≤ j ∧ j < (slot b.nodes i).tokenEnd := by
  have hclosed : i ∉ b.openPath := by
    unfold openPath
    rw [hs]
    exact fun hmem => hi (List.mem_singleton.1 hmem)
  unfold Spans
  rw [or_iff_right hclosed]

theorem Finished.le_closing (h : b.Finished t i) {c x : Nat} (hc : (slot b.nodes c).parent = some i)
    (hk : (slot b.nodes c).kind = .closingElementName) (hx : (slot b.nodes x).parent = some i) :
    x ≤ c := by
  cases h with
  | paired c' _ _ hpairs =>
      obtain rfl := hpairs.only c hc hk
      exact hpairs.last x hx
  | synthetic _ _ _ _ hbare => exact absurd hk (hbare c hc)
  | broken _ _ hbare => exact absurd hk (hbare c hc)
  | empty _ _ _ hbare => exact absurd hk (hbare c hc)

end Builder
end BladeTree
