import BladeTree.Proofs.OptionalTag
import BladeTree.Proofs.Tree.Siblings
import BladeTree.Proofs.Tree.Upheld

namespace BladeTree
namespace Builder

variable {t : Tokenized} {b b' b₁ : Builder} {n i id : Nat} {name : String} {rule : OptionalTag}
  {reason : ClosedBy} {waiting : Option Nat}

def EndsBefore (t : Tokenized) (b : Builder) (i : Nat) (rule : OptionalTag) : Prop :=
  ∃ c sibling, b.Titled t c sibling ∧ listsTag rule.closedBySiblings sibling ∧
    LeastOf (fun x => i < x ∧ (outline b.nodes).Sibling i x) (some c)

def Implied (t : Tokenized) (b : Builder) (i : Nat) (reason : ClosedBy) : Prop :=
  ∃ name rule, b.Titled t i name ∧ OptionalTag.find? name = some rule ∧
    (reason = .sibling → b.EndsBefore t i rule)

/-- The element `i` was closed for a start tag called `sibling`, whose element will be the next one
under the innermost open node. -/
def Awaits (t : Tokenized) (b : Builder) (sibling : String) (i : Nat) : Prop :=
  ∃ name rule, b.Titled t i name ∧ OptionalTag.find? name = some rule ∧
    listsTag rule.closedBySiblings sibling ∧ (slot b.nodes i).parent = some b.parent ∧
    ∀ x, (slot b.nodes x).parent = some b.parent → x ≤ i

/-- Open elements have names, and every implied end is that of an element which may end so, but for
the one that waits for its sibling. -/
structure Justified (t : Tokenized) (waiting : Option Nat) (b : Builder) : Prop where
  carrying : b.Carrying t
  implied : ∀ i reason, b.metadata.closedBy? i = some reason → reason.isImplied →
    i ∉ waiting → b.Implied t i reason

/-! What later steps keep -/

theorem EndsBefore.keep (h : b.EndsBefore t i rule) (hi : i < b.nodes.size) (hw : Widens n b b')
    (hf : Final b b') : b'.EndsBefore t i rule := by
  obtain ⟨c, sibling, hc, hlisted, ⟨hlt, p, hip, hcp⟩, hleast⟩ := h
  refine ⟨c, sibling, hc.keep hw hf, hlisted, ⟨hlt, p, (hw.parent_eq hi).trans hip,
    (hw.parent_eq hc.lt_size).trans hcp⟩, ?_⟩
  intro x ⟨hix, q, hiq, hxq⟩
  rcases Nat.lt_or_ge x b.nodes.size with hold | hnew
  · exact hleast x ⟨hix, q, (hw.parent_eq hi).symm.trans hiq, (hw.parent_eq hold).symm.trans hxq⟩
  · exact hc.lt_size.le.trans hnew

theorem Implied.keep (h : b.Implied t i reason) (hw : Widens n b b') (hf : Final b b') :
    b'.Implied t i reason := by
  obtain ⟨name, rule, htitled, hrule, hsibling⟩ := h
  exact ⟨name, rule, htitled.keep hw hf, hrule,
    fun hreason => (hsibling hreason).keep htitled.lt_size hw hf⟩

namespace Justified

theorem keep (h : b.Justified t waiting) (hw : Widens n b b') (hf : Final b b')
    {waiting' : Option Nat}
    (hframes : ∀ f ∈ b'.stack, f ∈ b.stack ∨ b'.Carries t f)
    (hreasons : ∀ i reason, b'.metadata.closedBy? i = some reason → reason.isImplied →
      i ∉ waiting' → b.metadata.closedBy? i = some reason ∧ i ∉ waiting ∨ b'.Implied t i reason) :
    b'.Justified t waiting' where
  carrying := h.carrying.keep hw hf hframes
  implied i reason hreason himplied hi := by
    rcases hreasons i reason hreason himplied hi with ⟨hold, hi⟩ | hnew
    · exact (h.implied i reason hold himplied hi).keep hw hf
    · exact hnew

theorem quiet (h : b.Justified t none) (hw : Widens n b b') (hf : Final b b')
    (hframes : ∀ f ∈ b'.stack, f ∈ b.stack ∨ b'.Carries t f)
    (hreason : b'.metadata.closedBy? = b.metadata.closedBy?) : b'.Justified t none :=
  h.keep hw hf hframes fun _ _ hi _ hwaits => .inl ⟨hreason ▸ hi, hwaits⟩

theorem forceClose (h : b.Justified t none) (hpermits : Frame.Permits b.stack reason) (stop : Nat)
    (context : Option String) :
    Build.Returns (b.forceClose t reason stop context) (Justified t none) := by
  intro b' hb
  have hw := (Steady.close (n := b.nodes.size) hb).toWidens
  have hf := (Final.refl b).forceClose reason stop context _ hb
  cases hs : b.stack with
  | nil =>
      rw [forceClose_eq, popFrame, hs] at hb
      cases hb
      exact h
  | cons f below =>
      obtain ⟨hreason, -, hstack⟩ := returns_closed hs reason stop context _ hb
      refine h.keep hw hf (fun g hg => .inl ?_) fun i reason' hi himplied hwaits => ?_
      · rw [hs]
        exact List.mem_cons_of_mem _ (hstack ▸ hg)
      · rw [hreason, Function.update_apply] at hi
        split at hi
        · rename_i heq
          cases hi
          obtain ⟨-, hsibling, hlisted⟩ := hpermits
          obtain ⟨g, hg, hlisted⟩ := hlisted himplied
          rw [hs] at hg
          cases hg
          obtain ⟨name, hname, hrule⟩ := (Option.any_eq_true _ _).1 hlisted
          obtain ⟨rule, hrule⟩ := Option.isSome_iff_exists.1 hrule
          have htitled := ((h.carrying f (hs ▸ List.mem_cons_self)).titled hname).keep hw hf
          exact .inr ⟨name, rule, heq ▸ htitled, hrule, fun heq => absurd heq hsibling⟩
        · exact .inl ⟨hi, hwaits⟩

/-! Start tags -/

theorem closeForSibling (h : b.Justified t none) (hs : b.Sound t) (name : String) :
    Build.Returns (b.closeForSibling t name) fun b' =>
      ∃ waiting, b'.Justified t waiting ∧ ∀ i ∈ waiting, b'.Awaits t name i := by
  unfold Builder.closeForSibling
  split
  · exact .ok ⟨none, h, nofun⟩
  · rename_i above habove
    obtain ⟨f, hdrop, hends⟩ := Frame.endsAt_of_siblingTarget habove
    have hpassed : Build.Returns (forceCloseMany t (fun _ => (.parentEnd, none)) b.pos above b)
        fun b' => b'.Justified t none ∧ b'.Sound t ∧ b'.pos = b.pos ∧
          b'.stack = b.stack.drop above :=
      forceCloseMany_keeps (fun b _ context _ h hpermits => forceClose h hpermits b.pos context)
        hs h fun k hk => Frame.permits_parentEnd (Frame.endsWithParent_of_siblingTarget habove hk)
    refine hpassed.bind fun b₁ ⟨h₁, hs₁, _, hstack₁⟩ b' hb => ?_
    have hstack : b₁.stack = f :: b.stack.drop (above + 1) := hstack₁.trans hdrop
    have hw := (Steady.close (n := b₁.nodes.size) hb).toWidens
    have hf := (Final.refl b₁).forceClose _ _ _ _ hb
    obtain ⟨hreason, hsize, hstack'⟩ := returns_closed hstack _ _ _ _ hb
    refine ⟨some f.node, h₁.keep hw hf (fun g hg => .inl ?_) fun i _ hi _ hwaits => .inl ?_,
      ?_⟩
    · rw [hstack]
      exact List.mem_cons_of_mem _ (hstack' ▸ hg)
    · have hne : i ≠ f.node := fun heq => hwaits (congrArg some heq.symm)
      rw [hreason, Function.update_of_ne hne] at hi
      exact ⟨hi, nofun⟩
    · rintro i ⟨⟩
      obtain ⟨opened, hopened, hends⟩ := hends
      obtain ⟨rule, hrule, hlists⟩ := (Option.any_eq_true _ _).1 hends
      have htitled := (h₁.carrying f (hstack ▸ List.mem_cons_self)).titled hopened
      have hparent : (slot b₁.nodes f.node).parent = some b'.parent := by
        unfold parent
        rw [hstack']
        exact hs₁.parent_eq (hstack ▸ List.suffix_rfl)
      refine ⟨opened, rule, htitled.keep hw hf, hrule, hlists,
        (hw.parent_eq htitled.lt_size).trans hparent, fun x hx => ?_⟩
      by_contra hlt
      have hopen : f.node ∈ b₁.openPath := by
        unfold openPath
        rw [hstack]
        exact List.mem_cons_self
      have hnext := hs₁.growing.linked.next f.node
      rw [hs₁.growing.unfollowed f.node hopen] at hnext
      have hx₁ : x < b₁.nodes.size := hsize ▸ lt_size_of_parent hx
      exact hnext x ⟨Nat.lt_of_not_le hlt, b'.parent, hparent, (hw.parent_eq hx₁).symm.trans hx⟩

theorem readsTag {element : Nat} {f : FlatNode → FlatNode} {frames : List Frame} {b'' : Builder}
    (h : b₁.Justified t waiting) (hwaits : ∀ i ∈ waiting, b₁.Awaits t name i)
    (hread : b₁.ReadsTag t name element b') (hset : Settles t b₁ b' name element f frames b'')
    (hreasons : ∀ i reason, b''.metadata.closedBy? i = some reason → reason.isImplied →
      b'.metadata.closedBy? i = some reason) : b''.Justified t none := by
  have hw : Widens b₁.nodes.size b₁ b'' := hset.changes.steady.toWidens
  have htitled := hset.titled hread
  have hid := hread.id_eq
  refine h.keep hw hset.changes.final (fun f hf' => ?_) fun i reason hi himplied _ => ?_
  · rw [hset.stack, List.mem_append] at hf'
    refine hf'.symm.imp_right fun hnew => ?_
    rw [hset.own f hnew]
    exact htitled
  · have hold := hreasons i reason hi himplied
    rw [hread.calm.reason] at hold
    by_cases hi' : i ∈ waiting
    · obtain ⟨opened, rule, hopened, hrule, hlists, hp, hlast⟩ := hwaits i hi'
      have hip : (slot b''.nodes i).parent = some b₁.parent :=
        (hw.parent_eq hopened.lt_size).trans hp
      have hnext : i < element ∧ (outline b''.nodes).Sibling i element :=
        ⟨hid ▸ hopened.lt_size, _, hip, hset.parent hread⟩
      refine .inr ⟨opened, rule, hopened.keep hw hset.changes.final, hrule, fun _ =>
        ⟨element, name, htitled, hlists, hnext, fun x ⟨hix, q, hiq, hxq⟩ => ?_⟩⟩
      by_contra hlt
      have hx : x < b₁.nodes.size := hid ▸ Nat.lt_of_not_le hlt
      obtain rfl : b₁.parent = q := Option.some.inj (hip.symm.trans hiq)
      exact absurd (hlast x ((hw.parent_eq hx).symm.trans hxq)) (Nat.not_le_of_lt hix)
    · exact .inl ⟨hold, hi'⟩

theorem startTag (h : b.Justified t none) (hs : b.Sound t) :
    Build.Returns (b.startTag t) (Justified t none) := by
  refine (returns_startTag (Q := fun _ => True) hs .any).mono
    fun b'' ⟨name, element, tagEnd, b', b₁, _, hclose, hread, houtcome⟩ => ?_
  obtain ⟨waiting, h₁, hwaits⟩ := h.closeForSibling hs name _ hclose
  cases houtcome with
  | broken _ hset hm =>
      refine h₁.readsTag hwaits hread hset fun i reason hi himplied => ?_
      rw [hm, Metadata.closedBy?_setClosedBy, Function.update_apply] at hi
      split at hi
      · cases hi
        cases himplied
      · exact hi
  | empty _ _ _ _ hset hm => exact h₁.readsTag hwaits hread hset fun i reason hi _ => hm ▸ hi
  | entered _ hset hm => exact h₁.readsTag hwaits hread hset fun i reason hi _ => hm ▸ hi

/-! The whole tree -/

theorem enter (h : b.Justified t none) {f : Frame}
    (hkind : (slot b.nodes f.node).kind = .directiveBlock) (hf : f.blockRule?.isSome) :
    (b.pushFrame f).Justified t none := by
  have hrest := b.pushFrame_rest f
  have hnodes : (b.pushFrame f).nodes = b.nodes := by rw [hrest]
  have htitled {i : Nat} {name : String} (hi : b.Titled t i name) :
      (b.pushFrame f).Titled t i name := by
    apply hi.pushFrame
    intro heq
    cases (heq ▸ hkind).symm.trans hi.leaf.kind_succ
  constructor
  · apply h.carrying.pushFrame (carries_block hkind hf)
    rw [hkind]
    nofun
  · intro i reason hi himplied _
    rw [hrest] at hi
    obtain ⟨name, rule, hi, hrule, hsibling⟩ := h.implied i reason hi himplied nofun
    refine ⟨name, rule, htitled hi, hrule, fun hreason => ?_⟩
    obtain ⟨c, sibling, hc, hlists, hleast⟩ := hsibling hreason
    exact ⟨c, sibling, htitled hc, hlists, hnodes ▸ hleast⟩

theorem calm {K : NodeKind → Prop} (h : b.Justified t none) (hc : Calm K b b') :
    b'.Justified t none := by
  apply h.quiet hc.widens hc.final
  · intro f hf
    exact .inl (hc.stack ▸ hf)
  · exact hc.reason

end Justified

/-- Whatever the leaves of extensions are, the ends that are implied stay justified. -/
theorem upheld_justified (t : Tokenized) : CalmlyUpheld t (fun _ => True) (Justified t none) where
  calm _ _ h hc := h.calm hc
  close b reason context _ h hpermits := h.forceClose hpermits b.pos context
  pair b f below opened name n hs h hstack hkind _ _ _ := by
    have hrule : f.blockRule? = none := by
      unfold Frame.blockRule?
      rw [hkind]
    have hlt : f.node < b.nodes.size := (h.carrying f (hstack ▸ List.mem_cons_self)).lt_size
    have hclose : Build.Returns (b.closeElement t n) (Changes t b) :=
      (Changes.refl b).closeElement hstack hrule n
    refine (hclose.and (returns_closeElement hstack hlt n)).mono
      fun b' ⟨hc, hstack', _, hm, _⟩ => ?_
    refine h.quiet hc.steady.toWidens hc.final (fun g hg => .inl ?_) (hm ▸ rfl)
    rw [hstack]
    exact List.mem_cons_of_mem _ (hstack' ▸ hg)
  leave b f below h hstack _ := by
    intro (popped, b') hb
    obtain ⟨-, hstack', -, hm, -⟩ := returns_popFrame hstack _ _ hb
    have hw : Widens 0 b b' := .popFrame hstack hb
    refine h.quiet hw ((Final.refl b).popFrame _ _ hb).1 (fun g hg => .inl ?_) (hm ▸ rfl)
    rw [hstack]
    exact List.mem_cons_of_mem _ (hstack' ▸ hg)
  startTag b hs h _ _ := h.startTag hs
  enter _ _ _ h hc _ hkind hf := (h.calm hc).enter hkind hf

theorem justified_initial (t : Tokenized) : initial.Justified t none := ⟨nofun, nofun⟩

theorem justified_build (t : Tokenized) : Build.Returns (build t) (Justified t none) :=
  have hupheld : Upheld t (Justified t none) :=
    (upheld_justified t).upheld (fun _ _ _ => trivial) fun _ _ _ => trivial
  (hupheld.build (justified_initial t)).mono fun _ => And.left

end Builder
end BladeTree
