import BladeTree.Proofs.Tree.Opening

namespace BladeTree
namespace Builder

def openTag (t : Tokenized) (b : Builder) : Build (String × Nat × TagEnd × Builder) := do
  let name ← t.text (b.pos + 1)
  let b₁ ← b.closeForSibling t name
  let (element, b₂) ← b₁.startIn b₁.parent .element
  let b₃ ← b₂.bump t
  let (_, b₄) ← b₃.leaf t element .elementName 1
  let b₅ ← b₄.eatGenericArgs t element b.pos
  let (tagEnd, b₆) ← tagItems t element b₅
  return (name, element, tagEnd, b₆)

def setFlagIf (b : Builder) (c : Bool) (id : Nat) (flag : ElementFlag) : Build Builder :=
  if c then b.setFlag id flag else .ok b

def emptyElement (b : Builder) (element : Nat) (name : String) (selfClosed : Bool) :
    Build Builder := do
  let b₁ ← b.setFlagIf selfClosed element .selfClosing
  let b₂ ← b₁.setFlagIf (isVoidElement name) element .void
  b₂.finish element

theorem startTag_eq (t : Tokenized) (b : Builder) : b.startTag t = (do
    let (name, element, tagEnd, b') ← b.openTag t
    if tagEnd = .unterminated then b'.unterminatedTag t element b.pos name
    else if tagEnd = .selfClosed || isVoidElement name then
      b'.emptyElement element name (tagEnd = .selfClosed)
    else do
      b'.checkDepth t [.elements] b.pos
      return b'.pushFrame ⟨element, .element name⟩) := by
  unfold startTag openTag emptyElement
  simp only [bind_assoc, pure_bind]
  refine congrArg _ (funext fun name => congrArg _ (funext fun b₁ => ?_))
  refine congrArg _ (funext fun ⟨element, b₂⟩ => congrArg _ (funext fun b₃ => ?_))
  refine congrArg _ (funext fun ⟨_, b₄⟩ => congrArg _ (funext fun b₅ => ?_))
  refine congrArg _ (funext fun ⟨tagEnd, b₆⟩ => ?_)
  cases tagEnd <;> cases hvoid : isVoidElement name <;> rfl

@[simp] theorem openTag_withLimits (t : Tokenized) (l : DepthLimits) :
    openTag (t.withLimits l) = openTag t := by
  unfold openTag
  simp only [closeForSibling_withLimits, bump_withLimits, leaf_withLimits, tagItems_withLimits]
  rfl

theorem unterminatedTag_withLimits (t : Tokenized) (l : DepthLimits) (b : Builder)
    (element first : Nat) (name : String) :
    b.unterminatedTag (t.withLimits l) element first name =
      b.unterminatedTag t element first name := rfl

/-- An item of content has one result, unless the frame that it opens reaches a limit. -/
def Admits (t : Tokenized) (b : Builder) (x : DepthLimits → Build Builder) : Prop :=
  ∃ opened below b', b'.Sound t ∧ b.pos < b'.pos ∧ Grows t opened below b b' ∧
    ∀ l, x l = (do t.admit l opened below b.pos; return b')

variable {t : Tokenized} {b b' : Builder} {element id : Nat} {name : String}

theorem Admits.of_eq_ok {x : DepthLimits → Build Builder} (hb' : b'.Sound t)
    (hlt : b.pos < b'.pos) (hgrows : Grows t none b'.stack b b') (hx : ∀ l, x l = .ok b') :
    b.Admits t x :=
  ⟨none, b'.stack, b', hb', hlt, hgrows, hx⟩

theorem admits_of_extends (hg : t.Grammatical) {x : Build Builder}
    (hx : t.Yields x fun b' => b'.Sound t ∧ b.pos < b'.pos)
    (hx' : Build.Ensures x (Extends b.nodes.size b ·)) : b.Admits t fun _ => x := by
  obtain ⟨b', hb', ⟨hsound, hlt⟩, hextends⟩ := hx.exists_ok hx' hg
  exact .of_eq_ok hsound hlt hextends.grows fun _ => hb'

/-! Elements -/

def IsEmptyFlag (flag : ElementFlag) : Prop :=
  flag = .selfClosing ∨ flag = .void ∨ flag = .unclosedStartTag

theorem isIn_or_self (flag : ElementFlag) (data : Int32) : flag.isIn (data ||| flag.bit) := by
  have hand : (data ||| flag.bit) &&& flag.bit = flag.bit := by
    apply Int32.toBitVec_inj.1
    simp only [Int32.toBitVec_and, Int32.toBitVec_or]
    ext i
    simp only [BitVec.getElem_and, BitVec.getElem_or]
    exact Bool.and_eq_right_iff_imp.2 fun hi => by rw [hi, Bool.or_true]
  rw [ElementFlag.isIn, hand]
  cases flag <;> decide

theorem setFlag_not_opensFrame {flag : ElementFlag} (hflag : IsEmptyFlag flag)
    (hkind : (slot b.nodes id).kind = .element) (hid : id < b.nodes.size) :
    Build.Ensures (b.setFlag id flag) fun b' => Extends id b b' ∧
      (slot b'.nodes id).kind = .element ∧ (slot b'.nodes id).opensFrame = false := by
  refine ((Extends.refl hid.le).setFlag flag le_rfl).and ?_
  unfold setFlag
  rw [modify_eq hid]
  simp only [Build.Ensures, slot_modify hid, if_true, FlatNode.opensFrame, FlatNode.hasFlag, hkind]
  have hin := isIn_or_self flag (slot b.nodes id).data
  rcases hflag with rfl | rfl | rfl <;> simp [hin]

theorem ensures_unterminatedTag (hkind : (slot b.nodes id).kind = .element)
    (hid : id < b.nodes.size) (first : Nat) (name : String) :
    Build.Ensures (b.unterminatedTag t id first name) fun b' => Extends id b b' ∧
      (slot b'.nodes id).opensFrame = false := by
  unfold unterminatedTag
  refine (setFlag_not_opensFrame (.inr (.inr rfl)) hkind hid).bind fun b₁ ⟨h₁, _, hno⟩ => ?_
  have hid₁ : id < b₁.nodes.size := hid.trans_le h₁.size
  have hrefl : Extends b₁.nodes.size b₁ b₁ := .refl le_rfl
  refine (hrefl.setLateFlag (.inl rfl) id).bind fun b₂ h₂ => ?_
  refine ((h₂.metadata _).finish id).bind fun b₃ h₃ => ?_
  refine (h₃.reportTokens _ _ _ _ _).mono fun b₄ h₄ => ?_
  exact ⟨h₁.trans h₄ hid₁.le, (h₄.opens id hid₁).trans hno⟩

theorem ensures_emptyElement (hkind : (slot b.nodes id).kind = .element)
    (hid : id < b.nodes.size) {selfClosed : Bool} (hempty : selfClosed || isVoidElement name) :
    Build.Ensures (b.emptyElement id name selfClosed) fun b' => Extends id b b' ∧
      (slot b'.nodes id).opensFrame = false := by
  have hfinish {b₁ : Builder} (h₁ : Extends id b b₁)
      (hno : (slot b₁.nodes id).opensFrame = false) :
      Build.Ensures (b₁.finish id) fun b' => Extends id b b' ∧
        (slot b'.nodes id).opensFrame = false := by
    have hid₁ : id < b₁.nodes.size := hid.trans_le h₁.size
    have hrefl : Extends b₁.nodes.size b₁ b₁ := .refl le_rfl
    refine (hrefl.finish id).mono fun b₂ h₂ => ?_
    exact ⟨h₁.trans h₂ hid₁.le, (h₂.opens id hid₁).trans hno⟩
  unfold emptyElement
  cases selfClosed with
  | false =>
      have hvoid : isVoidElement name := hempty
      simp only [setFlagIf, hvoid, if_true, Bool.false_eq_true, if_false, ok_bind]
      refine (setFlag_not_opensFrame (.inr (.inl rfl)) hkind hid).bind fun b₁ ⟨h₁, _, hno⟩ => ?_
      exact hfinish h₁ hno
  | true =>
      refine (setFlag_not_opensFrame (.inl rfl) hkind hid).bind fun b₁ ⟨h₁, hkind₁, hno⟩ => ?_
      have hid₁ : id < b₁.nodes.size := hid.trans_le h₁.size
      unfold setFlagIf
      split
      · refine (setFlag_not_opensFrame (.inr (.inl rfl)) hkind₁ hid₁).bind
          fun b₂ ⟨h₂, _, hno₂⟩ => ?_
        exact hfinish (h₁.trans h₂ le_rfl) hno₂
      · exact hfinish h₁ hno

theorem Reads.emptyElement {start : Builder} {path : List Nat}
    (h : Reads t start (id :: path) b) (name : String) (selfClosed : Bool) :
    t.Yields (b.emptyElement id name selfClosed) fun b' =>
      Reads t start path b' ∧ b'.pos = b.pos := by
  have hflag {b₁ : Builder} (h₁ : Reads t start (id :: path) b₁) (c : Bool) (flag : ElementFlag) :
      t.Yields (b₁.setFlagIf c id flag) fun b₂ =>
        Reads t start (id :: path) b₂ ∧ b₂.pos = b₁.pos :=
    .ite (fun _ => h₁.setFlag flag h₁.growing.lt_size) fun _ => ⟨h₁, rfl⟩
  unfold Builder.emptyElement
  refine (hflag h selfClosed .selfClosing).bind fun b₁ ⟨h₁, hpos₁⟩ => ?_
  refine (hflag h₁ (isVoidElement name) .void).bind fun b₂ ⟨h₂, hpos₂⟩ => ?_
  exact h₂.finish.mono fun b₃ ⟨h₃, hpos₃, _⟩ => ⟨h₃, by omega⟩

namespace Sound

variable (h : b.Sound t) (hg : t.Grammatical)
include h hg

theorem exists_openTag (hname : b.pos + 1 < t.size) :
    ∃ name element tagEnd b₁ b', t.text (b.pos + 1) = .ok name ∧
      b.openTag t = .ok (name, element, tagEnd, b') ∧ b₁.Sound t ∧
      Reads t b₁ (element :: b₁.parent :: b₁.outerPath) b' ∧ b.pos < b'.pos ∧
      Opening b .element (element + 1) element b' := by
  obtain ⟨name, hname', -⟩ := (Tokenized.yields_text hname).exists_ok
    (Tokenized.ensures_text (b.pos + 1)) hg
  obtain ⟨b₁, hb₁, ⟨h₁, hpos₁⟩, hclosed⟩ := (h.closeForSibling name).exists_ok
    ((Extends.refl le_rfl).closeForSibling name) hg
  obtain ⟨⟨element, b₂⟩, hb₂, ⟨h₂, hpos₂⟩, hstarts⟩ := (h₁.reads.startIn .element).exists_ok
    (startIn_starts b₁ b₁.parent .element) hg
  have hsize : b₂.nodes.size = element + 1 := by rw [hstarts.size, hstarts.id_eq]
  have hx₂ : Extends (element + 1) b₂ b₂ := .refl hsize.ge
  obtain ⟨b₃, hb₃, ⟨h₃, hpos₃⟩, hx₃⟩ := (h₂.bump (by omega)).exists_ok hx₂.bump hg
  obtain ⟨⟨_, b₄⟩, hb₄, ⟨h₄, hpos₄, -⟩, hx₄, -⟩ := (h₃.leaf .elementName (by omega)).exists_ok
    (hx₃.leaf element rfl 1) hg
  obtain ⟨b₅, hb₅, ⟨h₅, hpos₅⟩, hx₅⟩ := (h₄.eatGenericArgs element b.pos).exists_ok
    (hx₄.eatGenericArgs element b.pos) hg
  obtain ⟨⟨tagEnd, b₆⟩, hb₆, ⟨h₆, hpos₆⟩, hx₆⟩ := h₅.tagItems.exists_ok (hx₅.tagItems element) hg
  refine ⟨name, element, tagEnd, b₁, b₆, hname', ?_, h₁, h₆, by omega,
    ⟨b₁, b₂, hclosed, hpos₁, hstarts, hx₆, h₆.stack_eq⟩⟩
  unfold openTag
  simp only [hname', hb₁, hb₂, hb₃, hb₄, hb₅, hb₆, ok_bind]
  rfl

theorem admits_startTag (hname : b.pos + 1 < t.size) :
    b.Admits t fun l => b.startTag (t.withLimits l) := by
  obtain ⟨name, element, tagEnd, b₁, b', htext, hopen, h₁, hreads, hlt, hopening⟩ :=
    h.exists_openTag hg hname
  have hkind := hopening.node.1
  have hid := hopening.bounds.2
  have heq (l : DepthLimits) : b.startTag (t.withLimits l) =
      if tagEnd = .unterminated then b'.unterminatedTag t element b.pos name
      else if tagEnd = .selfClosed || isVoidElement name then
        b'.emptyElement element name (tagEnd = .selfClosed)
      else do
        t.admit l (some ⟨element, .element name⟩) b'.stack b.pos
        return b'.pushFrame ⟨element, .element name⟩ := by
    rw [startTag_eq, openTag_withLimits, hopen]
    simp only [ok_bind, unterminatedTag_withLimits,
      checkDepth_element (hreads.counted h₁.counted) element name]
  simp only [heq]
  by_cases hun : tagEnd = .unterminated
  · simp only [hun, if_true]
    obtain ⟨b'', hb'', ⟨hreads'', hpos''⟩, hx'', hno⟩ :=
      (hreads.unterminatedTag hname name).exists_ok (ensures_unterminatedTag hkind hid b.pos name) hg
    have hstack : b''.stack = b'.stack := hreads''.stack_eq.trans hreads.stack_eq.symm
    exact .of_eq_ok (h₁.closed hreads'') (by omega)
      (((hopening.mono (Nat.le_succ _)).extend hx'' le_rfl hstack).grows_of_not_opensFrame le_rfl hno)
      fun _ => hb''
  · simp only [hun, if_false]
    by_cases hempty : tagEnd = .selfClosed || isVoidElement name
    · simp only [hempty, if_true]
      obtain ⟨b'', hb'', ⟨hreads'', hpos''⟩, hx'', hno⟩ :=
        (hreads.emptyElement name _).exists_ok (ensures_emptyElement hkind hid hempty) hg
      have hstack : b''.stack = b'.stack := hreads''.stack_eq.trans hreads.stack_eq.symm
      exact .of_eq_ok (h₁.closed hreads'') (by omega)
        (((hopening.mono (Nat.le_succ _)).extend hx'' le_rfl hstack).grows_of_not_opensFrame le_rfl
          hno) fun _ => hb''
    · simp only [hempty]
      obtain ⟨hsound, hpos⟩ := hreads.pushFrame (f := ⟨element, .element name⟩) h₁.counted
      refine ⟨some ⟨element, .element name⟩, b'.stack, b'.pushFrame ⟨element, .element name⟩, hsound,
        by omega, ?_, fun l => rfl⟩
      exact hopening.grows_of_pushFrame (Nat.lt_succ_self _) (hreads.counted h₁.counted) rfl
        ⟨rfl, htext⟩

end Sound

/-! Directives -/

theorem find?_of_opener {stack : List Frame} {hasArgs : Bool} {arity : Nat} {rule : BlockRule}
    (h : directivePlace stack name hasArgs arity = .opener rule) :
    BlockRule.find? name = some rule := by
  have houtside (h : directivePlace.outside stack name hasArgs arity = .opener rule) :
      BlockRule.find? name = some rule := by
    unfold directivePlace.outside at h
    split at h
    · cases h
    · split at h
      · rename_i hrule
        cases h
        exact (Option.filter_eq_some_iff.1 hrule).1
      · split at h
        · cases h
        · split at h <;> cases h
  unfold directivePlace at h
  split at h
  · split at h
    · cases h
    · exact houtside h
  · exact houtside h

namespace Sound

variable (h : b.Sound t) (hg : t.Grammatical)
include hg

theorem admits_openBlock {b₁ : Builder} (h₁ : b₁.Sound t) (hx₁ : Extends b.nodes.size b b₁)
    (hpos₁ : b₁.pos = b.pos) (hlt : b.pos < t.size) (hname : t.directiveName b.pos = .ok name)
    {rule : BlockRule} (hrule : BlockRule.find? name = some rule) :
    b.Admits t fun l => b₁.openBlock (t.withLimits l) rule name := by
  obtain ⟨⟨block, b₂⟩, hb₂, ⟨h₂, hpos₂⟩, hstarts⟩ :=
    (h₁.reads.startIn .directiveBlock).exists_ok (startIn_starts b₁ b₁.parent .directiveBlock) hg
  have hx₂ : Extends (block + 1) b₂ b₂ := .refl (by rw [hstarts.size, hstarts.id_eq])
  obtain ⟨b₃, hb₃, ⟨h₃, hlt₃⟩, hx₃⟩ :=
    (h₂.directiveLeaf (by omega) .opener).exists_ok
      (hx₂.directiveLeaf block .opener) hg
  have hopening : Opening b .directiveBlock (block + 1) block b₃ :=
    ⟨b₁, b₂, hx₁, hpos₁, hstarts, hx₃, h₃.stack_eq⟩
  obtain ⟨hsound, hpos⟩ := h₃.pushFrame (f := ⟨block, .directive rule name⟩) h₁.counted
  refine ⟨some ⟨block, .directive rule name⟩, b₃.stack, _, hsound, ?_,
    hopening.grows_of_pushFrame (Nat.lt_succ_self _) (h₃.counted h₁.counted) rfl
      ⟨rfl, hname, hrule⟩,
    fun l => ?_⟩
  · omega
  · unfold Builder.openBlock
    simp only [checkDepth_directive h₁.counted block rule name, directiveLeaf_withLimits, hb₂, hb₃,
      ok_bind, hpos₁, h₃.stack_eq]

include h

theorem admits_directive (hlt : b.pos < t.size) :
    b.Admits t fun l => b.directive (t.withLimits l) := by
  have hyields : t.Yields (t.directiveName b.pos) fun _ => True :=
    (Tokenized.yields_text hlt).bind fun _ _ => trivial
  obtain ⟨name, hname, -⟩ := hyields.exists_ok (Tokenized.ensures_directiveName b.pos) hg
  obtain ⟨arity, harity⟩ : ∃ arity, (t.argsIndex? b.pos).elim (pure 0) t.argumentCount =
      .ok arity := by
    cases hargs : t.argsIndex? b.pos with
    | none => exact ⟨0, rfl⟩
    | some i =>
        have hyields : t.Yields (t.argumentCount i) fun _ => True :=
          (Tokenized.yields_token (argsIndex?_bounds hargs).2).bind fun _ _ => trivial
        obtain ⟨arity, harity, -⟩ := hyields.exists_ok (Tokenized.ensures_argumentCount i) hg
        exact ⟨arity, harity⟩
  have hrefl : Extends b.nodes.size b b := .refl le_rfl
  obtain ⟨b₁, hb₁, ⟨h₁, hpos₁⟩, hx₁⟩ := Tokenized.Yields.exists_ok
    (P := fun b' : Builder => b'.Sound t ∧ b'.pos = b.pos)
    (x := if !(t.argsIndex? b.pos).isSome && needsArguments.contains name then
      b.missingArguments t name b.pos (b.pos + 1) else pure b)
    (.ite (fun _ => h.missingArguments name b.pos hlt) fun _ => ⟨h, rfl⟩)
    (.ite (fun _ => hrefl.missingArguments name b.pos (b.pos + 1)) fun _ => .ok hrefl) hg
  have heq (l : DepthLimits) : b.directive (t.withLimits l) =
      b₁.place (t.withLimits l) name b.pos (t.argsIndex? b.pos).isSome
        (directivePlace b₁.stack name (t.argsIndex? b.pos).isSome arity) := by
    rw [directive_eq]
    change (do
      let name ← t.directiveName b.pos
      let arity ← (t.argsIndex? b.pos).elim (pure 0) t.argumentCount
      let b' ← (if !(t.argsIndex? b.pos).isSome && needsArguments.contains name then
        b.missingArguments t name b.pos (b.pos + 1) else pure b)
      b'.place (t.withLimits l) name b.pos (t.argsIndex? b.pos).isSome
        (directivePlace b'.stack name (t.argsIndex? b.pos).isSome arity)) = _
    simp only [hname, harity, hb₁, ok_bind]
  simp only [heq]
  generalize hplace : directivePlace b₁.stack name (t.argsIndex? b.pos).isSome arity = place
  by_cases hopener : ∃ rule, place = .opener rule
  · obtain ⟨rule, rfl⟩ := hopener
    exact admits_openBlock hg h₁ hx₁ hpos₁ hlt hname (find?_of_opener hplace)
  · have hne : ∀ rule, place ≠ .opener rule := fun rule hrule => hopener ⟨rule, hrule⟩
    simp only [place_withLimits _ _ _ _ _ _ hne]
    refine admits_of_extends hg ((h₁.place (by omega) name b.pos _ place).mono fun b' ⟨h', hlt'⟩ => ?_)
      (hx₁.place name b.pos _ hne)
    exact ⟨h', by omega⟩

/-! Content -/

theorem admits_construct {kind : TokenType} (hk : b.current? t = some kind) :
    b.Admits t fun l => b.construct (t.withLimits l) kind := by
  have hx : Extends b.nodes.size b b := .refl le_rfl
  have hlt := lt_size_of_current? hk
  have hquiet {x : Build Builder}
      (hx : t.Yields x fun b' => Reads t b (b.parent :: b.outerPath) b' ∧ b.pos < b'.pos)
      (hx' : Build.Ensures x (Extends b.nodes.size b ·)) : b.Admits t fun _ => x :=
    admits_of_extends hg (h.ofReads hx) hx'
  have htext : b.Admits t fun l => b.text (t.withLimits l) b.parent := by
    simp only [text_withLimits]
    exact hquiet (h.reads.text hlt) (hx.text _)
  have hecho (kind : NodeKind) (hkind : kind.isFrame = false) (stopType : TokenType)
      (delimiter : String) :
      b.Admits t fun l => b.echo (t.withLimits l) b.parent kind stopType delimiter := by
    simp only [echo_withLimits]
    exact hquiet (h.reads.echo hlt _ _ _) (hx.echo _ hkind _ _)
  have hdelimited (kind : NodeKind) (hkind : kind.isFrame = false) (content stopType : TokenType)
      (endName : Option String) :
      b.Admits t fun l => b.delimited (t.withLimits l) b.parent kind content stopType endName := by
    simp only [delimited_withLimits]
    exact hquiet (h.reads.delimited hlt _ _ _ _) (hx.delimited _ hkind _ _ _)
  have hsingle (kind : NodeKind) (hkind : kind.isFrame = false) :
      b.Admits t fun l => b.single (t.withLimits l) kind := by
    simp only [single_withLimits]
    exact admits_of_extends hg (h.single hlt _) (hx.single hkind)
  unfold Builder.construct
  split
  · change b.Admits t fun l =>
      if t.kind? (b.pos + 1) = some .slash then b.closingTag (t.withLimits l)
      else if t.kind? (b.pos + 1) = some .tagName then b.startTag (t.withLimits l)
      else b.text (t.withLimits l) b.parent
    split
    · simp only [closingTag_withLimits]
      exact admits_of_extends hg (h.closingTag ‹_›) hx.closingTag
    · split
      · exact h.admits_startTag hg (Tokenized.lt_size_of_kind? ‹_›)
      · exact htext
  · exact hecho .echo rfl _ _
  · exact hecho .rawEcho rfl _ _
  · exact hecho .tripleEcho rfl _ _
  · exact hdelimited .bladeComment rfl _ _ _
  · exact hdelimited .comment rfl _ _ _
  · exact hsingle _ rfl
  · exact hsingle _ rfl
  · exact hsingle _ rfl
  · exact hdelimited .phpBlock rfl _ _ _
  · exact hdelimited .phpTag rfl _ _ _
  · simp only [verbatim_withLimits]
    exact hquiet (h.reads.verbatim hlt) (hx.verbatim _)
  · exact h.admits_directive hg hlt
  · exact htext

/-- Without tree extensions every item of content has one result under all limits, and fails only
if the frame that it opens reaches one. -/
theorem admits_contentItem (hext : t.options.treeExtensions = []) (hlt : b.pos < t.size) :
    b.Admits t fun l => b.contentItem (t.withLimits l) := by
  have hleaf (l : DepthLimits) : b.extensionLeaf? (t.withLimits l) = none := by
    unfold extensionLeaf?
    rw [show (t.withLimits l).options.treeExtensions = [] from hext]
    rfl
  obtain ⟨u, hu⟩ := Tokenized.exists_token hlt
  have hcurrent : b.current? t = some u.kind := congrArg (Option.map Token.kind) hu
  have heq (l : DepthLimits) :
      b.contentItem (t.withLimits l) = b.construct (t.withLimits l) u.kind := by
    unfold Builder.contentItem
    rw [hleaf, show b.current? (t.withLimits l) = some u.kind from hcurrent]
  simp only [heq]
  exact h.admits_construct hg hcurrent

end Sound
end Builder
end BladeTree
