import BladeTree.Proofs.Tree.TagEnd
import BladeTree.Proofs.Tree.Upheld

namespace BladeTree
namespace Builder

variable {t : Tokenized} {b b' b₁ : Builder} {n i c element : Nat} {name : String}

def Bare (b : Builder) (i : Nat) : Prop :=
  ∀ c, (slot b.nodes c).parent = some i → (slot b.nodes c).kind ≠ .closingElementName

/-- Nothing has ended the element `i` so far. -/
structure Pending (b : Builder) (i : Nat) : Prop where
  data : (slot b.nodes i).data = 0
  reason : b.metadata.closedBy? i = none
  bare : b.Bare i

/-- Node `c` is a closing tag with the name of the element `i`. It is the last child of the element
and its only closing tag. -/
structure Pairs (t : Tokenized) (b : Builder) (i c : Nat) : Prop where
  closed : c ∉ b.openPath
  own : ∃ n, 3 ≤ n ∧ (slot b.nodes c).own = closingLeaf i (slot b.nodes c).tokenStart n
  named : ∃ opened name, b.Titled t i opened ∧
    t.ClosingTagAt (slot b.nodes c).tokenStart name ∧ sameName opened name
  last : ∀ x, (slot b.nodes x).parent = some i → x ≤ c
  only : ∀ x, (slot b.nodes x).parent = some i → (slot b.nodes x).kind = .closingElementName →
    x = c

/-- What has ended the element `i`: its closing tag, another end, the missing end of its start tag
or, where it has no content, the start tag itself. -/
inductive Finished (t : Tokenized) (b : Builder) (i : Nat) : Prop
  | paired (c : Nat) : (slot b.nodes i).data = ElementFlag.paired.bit →
      b.metadata.closedBy? i = none → b.Pairs t i c → Finished t b i
  | synthetic (reason : ClosedBy) : (slot b.nodes i).data = ElementFlag.syntheticClose.bit →
      b.metadata.closedBy? i = some reason → reason ≠ .unterminatedStartTag → b.Bare i →
      Finished t b i
  | broken : (slot b.nodes i).data =
        ElementFlag.unclosedStartTag.bit ||| ElementFlag.syntheticClose.bit →
      b.metadata.closedBy? i = some .unterminatedStartTag → b.Bare i → Finished t b i
  | empty (e : Nat) : (slot b.nodes i).hasFlag .void ∨ (slot b.nodes i).hasFlag .selfClosing →
      b.metadata.closedBy? i = none → b.Bare i → b.TagEndsAt t i e →
      (slot b.nodes i).tokenEnd = e + 1 → Finished t b i

/-- Every element is open and nothing has ended it, or it is closed and one thing has. Nodes to come
have no reason for an end. -/
structure Concluded (t : Tokenized) (b : Builder) : Prop where
  carrying : b.Carrying t
  fresh : ∀ i, b.nodes.size ≤ i → b.metadata.closedBy? i = none
  pending : ∀ i ∈ b.openPath, (slot b.nodes i).kind = .element → b.Pending i
  finished : ∀ i, (slot b.nodes i).kind = .element → i ∉ b.openPath → b.Finished t i

/-! What later steps keep -/

theorem Bare.keep (h : b.Bare i) (hw : Widens n b b')
    (hnew : ∀ c, b.nodes.size ≤ c → (slot b'.nodes c).parent = some i →
      (slot b'.nodes c).kind ≠ .closingElementName) : b'.Bare i := by
  intro c hc
  rcases Nat.lt_or_ge c b.nodes.size with hold | hge
  · rw [hw.kind_eq hold]
    exact h c ((hw.parent_eq hold).symm.trans hc)
  · exact hnew c hge hc

theorem Pending.keep (h : b.Pending i) (hw : Widens n b b')
    (hdata : (slot b'.nodes i).data = (slot b.nodes i).data)
    (hreason : b'.metadata.closedBy? i = b.metadata.closedBy? i)
    (hnew : ∀ c, b.nodes.size ≤ c → (slot b'.nodes c).parent = some i →
      (slot b'.nodes c).kind ≠ .closingElementName) : b'.Pending i where
  data := hdata.trans h.data
  reason := hreason.trans h.reason
  bare := h.bare.keep hw hnew

section Closed

variable (hi : i < b.nodes.size) (hclosed : i ∉ b.openPath) (hw : Widens b.nodes.size b b')

include hi hclosed hw in
theorem Widens.not_parent (hc : b.nodes.size ≤ c) : (slot b'.nodes c).parent ≠ some i := by
  intro hp
  exact (hw.entered c i hc hp).elim hclosed (Nat.not_le_of_lt hi)

variable (hf : Final b b')
include hi hclosed hw hf

theorem Pairs.keep (h : b.Pairs t i c) : b'.Pairs t i c := by
  have hold {x : Nat} (hx : (slot b'.nodes x).parent = some i) : x < b.nodes.size := by
    by_contra hge
    exact hw.not_parent hi hclosed (Nat.le_of_not_lt hge) hx
  obtain ⟨hc, ⟨n, hn, hown⟩, ⟨opened, name, htitled, htag, hsame⟩, hlast, honly⟩ := h
  have hlt : c < b.nodes.size := lt_size_of_parent (congrArg FlatNode.parent hown :)
  have hown' := hf.own c hlt hc
  have hstart := hw.tokenStart_eq hlt
  refine ⟨fun hopen => hc (hf.opened c hopen hlt), ⟨n, hn, ?_⟩,
    ⟨opened, name, htitled.keep hw hf, hstart ▸ htag, hsame⟩, fun x hx => ?_, fun x hx hk => ?_⟩
  · rw [hown', hown, hstart]
  · exact hlast x ((hw.parent_eq (hold hx)).symm.trans hx)
  · exact honly x ((hw.parent_eq (hold hx)).symm.trans hx) ((hw.kind_eq (hold hx)).symm.trans hk)

theorem Finished.keep (h : b.Finished t i) : b'.Finished t i := by
  have hdata : (slot b'.nodes i).data = (slot b.nodes i).data :=
    (congrArg FlatNode.data (hf.own i hi hclosed) :)
  have hend : (slot b'.nodes i).tokenEnd = (slot b.nodes i).tokenEnd :=
    (congrArg FlatNode.tokenEnd (hf.own i hi hclosed) :)
  have hreason := hw.reason i hi hclosed
  have hbare (h : b.Bare i) : b'.Bare i :=
    h.keep hw fun c hc hp => absurd hp (hw.not_parent hi hclosed hc)
  cases h with
  | paired c hd hr hpairs =>
      exact .paired c (hdata.trans hd) (hreason.trans hr) (hpairs.keep hi hclosed hw hf)
  | synthetic reason hd hr hne h =>
      exact .synthetic reason (hdata.trans hd) (hreason.trans hr) hne (hbare h)
  | broken hd hr h => exact .broken (hdata.trans hd) (hreason.trans hr) (hbare h)
  | empty e hd hr h htag he =>
      refine .empty e ?_ (hreason.trans hr) (hbare h) ?_ (hend.trans he)
      · unfold FlatNode.hasFlag
        rw [hdata]
        exact hd
      · exact htag.keep hi hw hf fun c hc hp => absurd hp (hw.not_parent hi hclosed hc)

end Closed

namespace Concluded

theorem grow (h : b.Concluded t) (hw : Widens b.nodes.size b b') (hf : Final b b')
    (hframes : ∀ f ∈ b'.stack, f ∈ b.stack ∨ b'.Carries t f)
    (hfresh : ∀ i, b'.nodes.size ≤ i → b'.metadata.closedBy? i = b.metadata.closedBy? i)
    (hpending : ∀ i ∈ b'.openPath, (slot b'.nodes i).kind = .element → b'.Pending i)
    (hfinished : ∀ i, i ∈ b.openPath ∨ b.nodes.size ≤ i → (slot b'.nodes i).kind = .element →
      i ∉ b'.openPath → b'.Finished t i) : b'.Concluded t where
  carrying := h.carrying.keep hw hf hframes
  fresh i hi := (hfresh i hi).trans (h.fresh i (hw.size.trans hi))
  pending := hpending
  finished i hk hclosed := by
    by_cases hold : i ∈ b.openPath ∨ b.nodes.size ≤ i
    · exact hfinished i hold hk hclosed
    · rw [not_or, Nat.not_le] at hold
      exact (h.finished i ((hw.kind_eq hold.2).symm.trans hk) hold.1).keep hold.2 hold.1 hw hf

theorem calm (h : b.Concluded t)
    (hc : Calm (fun kind => kind ≠ .element ∧ kind ≠ .closingElementName) b b') :
    b'.Concluded t := by
  have hopen : b'.openPath = b.openPath := openPath_congr hc.stack
  have hold {i : Nat} (hk : (slot b'.nodes i).kind = .element) : i < b.nodes.size := by
    by_contra hge
    have hlt : i < b'.nodes.size := lt_size_of_kind (by rw [hk]; nofun)
    exact (hc.fresh i (Nat.le_of_not_lt hge) hlt).1.1 hk
  refine h.grow hc.widens hc.final (fun f hf => .inl (hc.stack ▸ hf))
    (fun i _ => congrFun hc.reason i) (fun i hi hk => ?_) fun i hi hk hclosed => ?_
  · have hlt := hold hk
    have hpending := h.pending i (hopen ▸ hi) ((hc.widens.kind_eq hlt).symm.trans hk)
    refine hpending.keep hc.widens (congrArg (·.2.2.2) (hc.core i hlt)) (congrFun hc.reason i) ?_
    exact fun c hge hp => (hc.fresh c hge (lt_size_of_parent hp)).1.2
  · rcases hi with hi | hge
    · exact absurd (hopen ▸ hi) hclosed
    · exact absurd (hold hk) (Nat.not_lt_of_le hge)

theorem leave (h : b.Concluded t) {f : Frame} {below : List Frame} (hs : b.stack = f :: below)
    (hw : Widens b.nodes.size b b') (hf : Final b b') (hstack : b'.stack = below)
    (hdata : ∀ i < b.nodes.size, i ≠ f.node → (slot b'.nodes i).data = (slot b.nodes i).data)
    (hreason : ∀ i ≠ f.node, b'.metadata.closedBy? i = b.metadata.closedBy? i)
    (hnew : ∀ c, b.nodes.size ≤ c → c < b'.nodes.size →
      (slot b'.nodes c).kind ≠ .element ∧ (slot b'.nodes c).parent = some f.node)
    (hne : ∀ i ∈ b'.openPath, (slot b'.nodes i).kind = .element → i ≠ f.node)
    (hfinished : (slot b.nodes f.node).kind = .element → b.Pending f.node →
      f.node ∉ b'.openPath → b'.Finished t f.node) : b'.Concluded t := by
  have hopen := openPath_of_pop hs hstack
  have hold {i : Nat} (hk : (slot b'.nodes i).kind = .element) : i < b.nodes.size := by
    by_contra hge
    have hlt : i < b'.nodes.size := lt_size_of_kind (by rw [hk]; nofun)
    exact (hnew i (Nat.le_of_not_lt hge) hlt).1 hk
  have hpending {i : Nat} (hi : i ∈ b.openPath) (hk : (slot b'.nodes i).kind = .element) :
      (slot b.nodes i).kind = .element ∧ b.Pending i := by
    rw [hw.kind_eq (hold hk)] at hk
    exact ⟨hk, h.pending i hi hk⟩
  have hmem : f ∈ b.stack := hs ▸ List.mem_cons_self
  refine h.grow hw hf (fun g hg => .inl ?_) (fun i hge => ?_) (fun i hi hk => ?_)
    fun i hi hk hclosed => ?_
  · rw [hs]
    exact List.mem_cons_of_mem _ (hstack ▸ hg)
  · have hlt := (h.carrying f hmem).lt_size.trans_le (hw.size.trans hge)
    exact hreason i hlt.ne'
  · have hne' := hne i hi hk
    obtain ⟨-, hi'⟩ := hpending (hopen ▸ List.mem_cons_of_mem _ hi) hk
    refine hi'.keep hw (hdata i (hold hk) hne') (hreason i hne') fun c hge hp => ?_
    have hunder := (hnew c hge (lt_size_of_parent hp)).2
    exact absurd (Option.some.inj (hp.symm.trans hunder)) hne'
  · have hi' : i ∈ b.openPath := hi.resolve_right (Nat.not_le_of_lt (hold hk))
    obtain rfl : i = f.node := (List.mem_cons.1 (hopen ▸ hi')).resolve_right hclosed
    obtain ⟨hk', hpend⟩ := hpending hi' hk
    exact hfinished hk' hpend hclosed

end Concluded

theorem Sound.not_mem_of_pop (h : b.Sound t) {f : Frame} {below : List Frame}
    (hs : b.stack = f :: below) (hstack : b'.stack = below) : f.node ∉ b'.openPath := by
  have hspine := h.growing.spine
  rw [openPath_of_pop hs hstack] at hspine
  exact fun hmem => absurd (hspine.lt_of_mem h.growing.linked f.node hmem) (Nat.lt_irrefl _)

namespace Settles

variable {b'' : Builder} {f : FlatNode → FlatNode} {frames : List Frame}
  (h : Settles t b₁ b' name element f frames b'') (hread : b₁.ReadsTag t name element b')
  (hs : b₁.Sound t)
include h hread hs

theorem bare : b''.Bare element := by
  intro c hp
  rw [h.parent_eq] at hp
  rw [h.kind_eq]
  refine (hread.calm.fresh c ?_ (lt_size_of_parent hp)).1
  by_contra hlt
  have hold := (hread.calm.widens.parent_eq (Nat.lt_of_not_le hlt)).symm.trans hp
  have hbelow := (hs.growing.linked.below c element hold).1
  rw [hread.id_eq] at hbelow
  exact hlt hbelow.le

theorem tagEndsAt {e : Nat} (htag : b'.TagEndsAt t element e) : b''.TagEndsAt t element e := by
  have hparent : (slot b'.nodes element).parent ≠ some element := by
    have hlt := hs.growing.spine.lt_size hs.growing.linked _ b₁.parent_mem_openPath
    rw [← h.parent_eq, h.parent hread, hread.id_eq]
    exact fun heq => absurd (Option.some.inj heq) hlt.ne
  refine htag.alters h.alters h.settled hparent fun c hc => ?_
  rcases h.eq_of_mem_openPath hc with hopen | ⟨heq, -⟩
  · exact .inr (openPath_congr hread.calm.stack ▸ hopen)
  · exact .inl heq

end Settles

namespace Carrying

theorem exists_name (h : b.Carrying t) {f : Frame} (hf : f ∈ b.stack)
    (hk : (slot b.nodes f.node).kind = .element) :
    ∃ name, f.kind = .element name ∧ b.Titled t f.node name := by
  have hcarries := h f hf
  obtain ⟨node, kind⟩ := f
  cases kind with
  | element name => exact ⟨name, rfl, hcarries⟩
  | directive => cases hk.symm.trans hcarries

end Carrying

namespace Concluded

theorem forceClose (h : b.Concluded t) (hs : b.Sound t) {reason : ClosedBy}
    (hreason : reason ≠ .unterminatedStartTag) (stop : Nat) (context : Option String) :
    Build.Returns (b.forceClose t reason stop context) (Concluded t) := by
  intro b' hb
  cases hstack : b.stack with
  | nil =>
      rw [forceClose_eq, popFrame, hstack] at hb
      cases hb
      exact h
  | cons f below =>
      obtain ⟨ha, -⟩ := alters_forceClose hstack _ _ _ _ hb
      obtain ⟨hreasons, -, hstack'⟩ := returns_closed hstack _ _ _ _ hb
      have hclosed := hs.not_mem_of_pop hstack hstack'
      have hw : Widens b.nodes.size b b' := (Steady.close hb).toWidens
      refine h.leave hstack hw ((Final.refl b).forceClose _ _ _ _ hb) hstack' (fun i _ hi => ?_)
        (fun i hi => ?_) (fun c hge hlt => ?_) (fun i hi _ heq => ?_) fun hk hpending _ => ?_
      · rw [ha.other hi]
      · rw [hreasons, Function.update_of_ne hi]
      · exact absurd (ha.size ▸ hlt) (Nat.not_lt_of_le hge)
      · exact hclosed (heq ▸ hi)
      · obtain ⟨name, hkind, -⟩ := h.carrying.exists_name (hstack ▸ List.mem_cons_self) hk
        refine .synthetic reason ?_ ?_ hreason (hpending.bare.keep hw fun c hge hp => ?_)
        · rw [ha.self, Frame.forced, hkind]
          exact (congrArg (· ||| ElementFlag.syntheticClose.bit) hpending.data).trans (by decide)
        · rw [hreasons, Function.update_self]
        · exact absurd (lt_size_of_parent hp) (Nat.not_lt_of_le (ha.size ▸ hge))

theorem popFrame (h : b.Concluded t) {f : Frame} {below : List Frame} (hs : b.stack = f :: below)
    (hblock : f.blockRule?.isSome) (stop : Nat) :
    Build.Returns (b.popFrame stop) (Concluded t ·.2) := by
  intro (popped, b') hb
  obtain ⟨-, ha, hstack', -, hm⟩ := alters_popFrame hs stop _ hb
  have hw : Widens b.nodes.size b b' := .popFrame hs hb
  have hne : (slot b.nodes f.node).kind ≠ .element := by
    intro hk
    obtain ⟨name, hkind, -⟩ := h.carrying.exists_name (hs ▸ List.mem_cons_self) hk
    unfold Frame.blockRule? at hblock
    rw [hkind] at hblock
    cases hblock
  refine h.leave hs hw ((Final.refl b).popFrame _ _ hb).1 hstack' (fun i _ hi => ?_)
    (fun i _ => ?_) (fun c hge hlt => ?_) (fun i hi hk heq => ?_) fun hk => absurd hk hne
  · rw [ha.other hi]
  · rw [hm]
  · exact absurd (ha.size ▸ hlt) (Nat.not_lt_of_le hge)
  · subst heq
    rw [ha.self] at hk
    exact hne hk

theorem closeElement (h : b.Concluded t) (hs : b.Sound t) {f : Frame} {below : List Frame}
    {opened : String} (hstack : b.stack = f :: below) (hkind : f.kind = .element opened)
    (hsame : sameName opened name) (htag : t.ClosingTagAt b.pos name) (hn : 3 ≤ n) :
    Build.Returns (b.closeElement t n) (Concluded t) := by
  have hcarries := h.carrying f (hstack ▸ List.mem_cons_self)
  have hlt : f.node < b.nodes.size := hcarries.lt_size
  have hrule : f.blockRule? = none := by
    unfold Frame.blockRule?
    rw [hkind]
  have htitled : b.Titled t f.node opened := by
    apply hcarries.titled
    unfold Frame.elementName?
    rw [hkind]
    exact rfl
  have hchanges : Build.Returns (b.closeElement t n) (Changes t b) :=
    (Changes.refl b).closeElement hstack hrule n
  refine (hchanges.and (returns_closeElement hstack hlt n)).mono
    fun b' ⟨hc, hstack', _, hm, hsize, hown⟩ => ?_
  have hw : Widens b.nodes.size b b' := hc.steady.toWidens
  have hclosed := hs.not_mem_of_pop hstack hstack'
  have hlt_of_open := hs.growing.spine.lt_size hs.growing.linked
  have hnew {c : Nat} (hge : b.nodes.size ≤ c) (hlt' : c < b'.nodes.size) :
      c = b.nodes.size ∧ (slot b'.nodes c).own = closingLeaf f.node b.pos n := by
    have heq : c = b.nodes.size := Nat.le_antisymm (Nat.lt_succ_iff.1 (hlt'.trans_eq hsize)) hge
    exact ⟨heq, by rw [hown, if_pos heq]⟩
  have hself : (slot b'.nodes f.node).own =
      ((slot b.nodes f.node).closedAt (b.pos + n)).own := by
    rw [hown, if_neg hlt.ne, if_pos rfl]
  have hleaf : (slot b'.nodes b.nodes.size).own = closingLeaf f.node b.pos n := by
    rw [hown, if_pos rfl]
  have hleafStart : (slot b'.nodes b.nodes.size).tokenStart = b.pos :=
    (congrArg FlatNode.tokenStart hleaf :)
  refine h.leave hstack hw hc.final hstack' (fun i hi hne => ?_) (fun i _ => ?_)
    (fun c hge hlt' => ?_) (fun i hi _ heq => ?_) fun hk hpending _ => ?_
  · have hi' := hown i
    rw [if_neg hi.ne, if_neg hne] at hi'
    exact (congrArg FlatNode.data hi' :)
  · rw [hm]
  · obtain ⟨-, hc⟩ := hnew hge hlt'
    have hk : (slot b'.nodes c).kind = .closingElementName := (congrArg FlatNode.kind hc :)
    exact ⟨by rw [hk]; nofun, (congrArg FlatNode.parent hc :)⟩
  · exact hclosed (heq ▸ hi)
  · refine .paired b.nodes.size ?_ (hm ▸ hpending.reason) ⟨fun hopen => ?_, ⟨n, hn, ?_⟩,
      ⟨opened, name, htitled.keep hw hc.final, ?_, hsame⟩, fun x hx => ?_, fun x hx hk => ?_⟩
    · have hdata : (slot b'.nodes f.node).data =
          (slot b.nodes f.node).data ||| ElementFlag.paired.bit :=
        (congrArg FlatNode.data hself :)
      rw [hdata, hpending.data]
      decide
    · rw [openPath_of_pop hstack hstack'] at hlt_of_open
      exact absurd (hlt_of_open _ (List.mem_cons_of_mem _ hopen)) (Nat.lt_irrefl _)
    · rw [hleaf, hleafStart]
    · rw [hleafStart]
      exact htag
    · exact Nat.lt_succ_iff.1 ((lt_size_of_parent hx).trans_eq hsize)
    · rcases Nat.lt_or_ge x b.nodes.size with hold | hge
      · have hp := (hw.parent_eq hold).symm.trans hx
        exact absurd ((hw.kind_eq hold).symm.trans hk) (hpending.bare x hp)
      · exact (hnew hge (lt_size_of_parent hx)).1

theorem closeForSibling (h : b.Concluded t) (hs : b.Sound t) (name : String) :
    Build.Returns (b.closeForSibling t name) (Concluded t) := by
  unfold Builder.closeForSibling
  split
  · exact .ok h
  · rename_i above habove
    have hpassed : Build.Returns (forceCloseMany t (fun _ => (.parentEnd, none)) b.pos above b)
        fun b' => b'.Concluded t ∧ b'.Sound t ∧ b'.pos = b.pos ∧
          b'.stack = b.stack.drop above :=
      forceCloseMany_keeps
        (fun b _ context hs h hpermits => h.forceClose hs hpermits.1 b.pos context) hs h
        fun k hk => Frame.permits_parentEnd (Frame.endsWithParent_of_siblingTarget habove hk)
    have hreason : ClosedBy.sibling ≠ .unterminatedStartTag := nofun
    exact hpassed.bind fun b₁ ⟨h₁, hs₁, _⟩ => h₁.forceClose hs₁ hreason _ _

theorem readsTag (h : b₁.Concluded t) (hs : b₁.Sound t) (hread : b₁.ReadsTag t name element b')
    {b'' : Builder} {f : FlatNode → FlatNode} {frames : List Frame}
    (hset : Settles t b₁ b' name element f frames b'')
    (hreason : ∀ i ≠ element, b''.metadata.closedBy? i = b₁.metadata.closedBy? i)
    (hpending : frames ≠ [] → b''.Pending element)
    (hfinished : frames = [] → b''.Finished t element) : b''.Concluded t := by
  obtain rfl := hread.id_eq
  have hw : Widens b₁.nodes.size b₁ b'' := hset.changes.steady.toWidens
  have hlt := hs.growing.spine.lt_size hs.growing.linked
  have hbare {c : Nat} (hge : b₁.nodes.size ≤ c) (hlt : c < b''.nodes.size) :
      (slot b''.nodes c).kind ≠ .closingElementName := by
    rw [hset.kind_eq]
    exact (hread.calm.fresh c hge (hset.alters.size ▸ hlt)).1
  have hnew {c : Nat} (hge : b₁.nodes.size ≤ c) (hk : (slot b''.nodes c).kind = .element) :
      c = b₁.nodes.size := by
    by_contra hne
    have hlt : c < b''.nodes.size := lt_size_of_kind (by rw [hk]; nofun)
    have hplain := hread.plain c (Nat.lt_of_le_of_ne hge (Ne.symm hne)) (hset.alters.size ▸ hlt)
    rw [← hset.kind_eq, hk] at hplain
    cases hplain
  refine h.grow hw hset.changes.final (fun g hg => ?_) (fun i hge => ?_) (fun i hi hk => ?_)
    fun i hi hk hclosed => ?_
  · rw [hset.stack, List.mem_append] at hg
    refine hg.symm.imp_right fun hg => ?_
    rw [hset.own g hg]
    exact hset.titled hread
  · have hlt : b₁.nodes.size < b''.nodes.size := (hset.titled hread).lt_size
    exact hreason i (hlt.trans_le hge).ne'
  · rcases hset.eq_of_mem_openPath hi with hi | ⟨rfl, hne⟩
    · have hi' := hlt i hi
      have hdata : (slot b''.nodes i).data = (slot b₁.nodes i).data := by
        rw [hset.alters.other hi'.ne]
        exact congrArg (·.2.2.2) (hread.calm.core i hi')
      exact (h.pending i hi ((hw.kind_eq hi').symm.trans hk)).keep hw hdata (hreason i hi'.ne)
        fun c hge hp => hbare hge (lt_size_of_parent hp)
    · exact hpending hne
  · rw [hset.openPath_eq, List.mem_append, not_or] at hclosed
    obtain rfl := hnew (hi.resolve_left hclosed.2) hk
    refine hfinished ?_
    by_contra hne
    obtain ⟨g, hg⟩ := List.exists_mem_of_ne_nil frames hne
    exact hclosed.1 (List.mem_map.2 ⟨g, hg, congrArg Frame.node (hset.own g hg)⟩)

theorem startTag (h : b.Concluded t) (hs : b.Sound t) (hopens : t.kind? b.pos = some .lessThan)
    (hname : t.kind? (b.pos + 1) = some .tagName) :
    Build.Returns (b.startTag t) (Concluded t) := by
  refine (returns_startTag hs (tagEndsAt_openTag hs hopens hname)).mono
    fun b'' ⟨name, element, tagEnd, b', b₁, ⟨_, hends⟩, hclose, hread, houtcome⟩ => ?_
  have h₁ := h.closeForSibling hs name _ hclose
  obtain ⟨hs₁, -⟩ := (hs.closeForSibling name).returns _ hclose
  have hdata : (slot b'.nodes element).data = 0 := (congrArg FlatNode.data hread.own :)
  have hreason : b'.metadata.closedBy? element = none := by
    rw [hread.calm.reason]
    exact h₁.fresh element hread.id_eq.ge
  cases houtcome with
  | broken _ hset hm =>
      have hreasons : b''.metadata.closedBy? =
          Function.update b'.metadata.closedBy? element (some .unterminatedStartTag) := by
        rw [hm, Metadata.closedBy?_setClosedBy]
      refine h₁.readsTag hs₁ hread hset (fun i hi => ?_) (fun hne => absurd rfl hne) fun _ =>
        .broken ?_ ?_ (hset.bare hread hs₁)
      · rw [hreasons, Function.update_of_ne hi, hread.calm.reason]
      · rw [hset.alters.self]
        exact (congrArg (· ||| ElementFlag.unclosedStartTag.bit ||| ElementFlag.syntheticClose.bit)
          hdata).trans (by decide)
      · rw [hreasons, Function.update_self]
  | empty _ _ hended hempty hset hm =>
      obtain ⟨e, htag, hpos, -⟩ := hends hended
      refine h₁.readsTag hs₁ hread hset (fun i _ => ?_) (fun hne => absurd rfl hne) fun _ =>
        .empty e ?_ (hm ▸ hreason) (hset.bare hread hs₁) (hset.tagEndsAt hread hs₁ htag) ?_
      · rw [hm, hread.calm.reason]
      · rw [hset.alters.self]
        exact FlatNode.hasFlag_emptied hdata hempty
      · rw [hset.alters.self, hpos]
        exact FlatNode.tokenEnd_emptied (htag.start.trans (Nat.le_succ e))
  | entered _ hset hm =>
      refine h₁.readsTag hs₁ hread hset (fun i _ => ?_)
        (fun _ => ⟨?_, hm ▸ hreason, hset.bare hread hs₁⟩) nofun
      · rw [hm, hread.calm.reason]
      · rw [hset.alters.self]
        exact hdata

theorem enter (h : b.Concluded t)
    (hc : Calm (fun kind => kind ≠ .element ∧ kind ≠ .closingElementName) b b') {f : Frame}
    (hnew : b.nodes.size ≤ f.node) (hkind : (slot b'.nodes f.node).kind = .directiveBlock)
    (hblock : f.blockRule?.isSome) : (b'.pushFrame f).Concluded t := by
  have h' := h.calm hc
  obtain ⟨hnodes, hstack⟩ := nodes_pushFrame b' f
  have hm : (b'.pushFrame f).metadata = b'.metadata := by rw [b'.pushFrame_rest f]
  have hopen : (b'.pushFrame f).openPath = f.node :: b'.openPath := by
    unfold openPath
    rw [hstack]
    rfl
  refine h.grow (hc.widens.trans (.pushFrame hnew)) (hc.final.pushFrame hnew) (fun g hg => ?_)
    (fun i _ => ?_) (fun i hi hk => ?_) fun i hi hk hclosed => ?_
  · rw [hstack, List.mem_cons] at hg
    rcases hg with rfl | hg
    · exact .inr (carries_block (hnodes ▸ hkind) hblock)
    · exact .inl (hc.stack ▸ hg)
  · rw [hm, hc.reason]
  · rw [hnodes] at hk
    rw [hopen, List.mem_cons] at hi
    rcases hi with rfl | hi
    · cases hkind.symm.trans hk
    · obtain ⟨hdata, hreason, hbare⟩ := h'.pending i hi hk
      exact ⟨hnodes ▸ hdata, hm ▸ hreason, fun c hp => hnodes ▸ hbare c (hnodes ▸ hp)⟩
  · rw [hnodes] at hk
    rcases hi with hi | hge
    · rw [hopen, openPath_congr hc.stack] at hclosed
      exact absurd (List.mem_cons_of_mem _ hi) hclosed
    · have hlt : i < b'.nodes.size := lt_size_of_kind (by rw [hk]; nofun)
      exact absurd hk (hc.fresh i hge hlt).1.1

end Concluded

theorem upheld_concluded (t : Tokenized) :
    CalmlyUpheld t (fun kind => kind ≠ .element ∧ kind ≠ .closingElementName) (Concluded t) where
  calm _ _ h hc := h.calm hc
  close b _ context hs h hpermits := h.forceClose hs hpermits.1 b.pos context
  pair _ _ _ _ _ _ hs h hstack hkind hsame htag hn :=
    h.closeElement hs hstack hkind hsame htag hn
  leave b _ _ h hstack hblock := h.popFrame hstack hblock b.pos
  startTag _ hs h hopens hname := h.startTag hs hopens hname
  enter _ _ _ h hc hnew hkind hblock := h.enter hc hnew hkind hblock

theorem concluded_initial (t : Tokenized) : initial.Concluded t := by
  refine ⟨nofun, fun i _ => rfl, fun i _ hi => ?_, fun i hi => ?_⟩
  all_goals
    rw [slot_initial] at hi
    cases hi

/-- Without extensions every element of the finished tree has ended in one way. -/
theorem finished_build (hext : t.options.treeExtensions = []) :
    Build.Returns (build t) fun b => ∀ i, (slot b.nodes i).kind = .element → b.Finished t i := by
  have hleaf (b : Builder) (leaf : Leaf) (hclaims : b.extensionLeaf? t = some leaf) :
      leaf.kind ≠ .element ∧ leaf.kind ≠ .closingElementName := by
    cases (extensionLeaf?_eq_none hext).symm.trans hclaims
  have hupheld : Upheld t (Concluded t) :=
    (upheld_concluded t).upheld (fun _ hne hne' => ⟨hne, hne'⟩) hleaf
  refine ((hupheld.build (concluded_initial t)).and yields_build.returns).mono
    fun b ⟨⟨h, hstack, _⟩, hbuilt⟩ => ?_
  refine fun i hk => h.finished i hk fun hi => ?_
  unfold openPath at hi
  rw [hstack, List.map_nil, List.nil_append, List.mem_singleton] at hi
  subst hi
  cases hbuilt.document.symm.trans hk

end Builder
end BladeTree
