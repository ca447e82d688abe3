import BladeTree.Proofs.Tree.Widens

namespace BladeTree

inductive IsFilled (nodes : Array FlatNode) (i : Nat) : Prop
  | tokens : 0 < (slot nodes i).tokenCount → IsFilled nodes i
  | inAttribute {p : Nat} : (slot nodes i).parent = some p → (slot nodes p).kind = .attr →
      IsFilled nodes i

section Nodes

variable {nodes nodes' : Array FlatNode} {f : FlatNode → FlatNode} {i id : Nat}

theorem origin_modify (hid : id < nodes.size) (hf : ∀ m, (f m).origin = m.origin) (i : Nat) :
    (slot (nodes.modify id f) i).origin = (slot nodes i).origin := by
  rw [slot_modify hid]
  split
  · exact hf _
  · rfl

theorem IsFilled.keep (h : IsFilled nodes i)
    (hparent : (slot nodes' i).parent = (slot nodes i).parent)
    (hkind : ∀ p, (slot nodes p).kind = .attr → (slot nodes' p).kind = .attr)
    (hcount : (slot nodes' i).tokenCount = (slot nodes i).tokenCount) : IsFilled nodes' i := by
  cases h with
  | tokens h => exact .tokens (hcount ▸ h)
  | inAttribute hp hk => exact .inAttribute (hparent.trans hp) (hkind _ hk)

theorem IsFilled.modify (h : IsFilled nodes i) (hid : id < nodes.size)
    (hf : ∀ m, (f m).origin = m.origin) (hcount : i = id → ∀ m, (f m).tokenCount = m.tokenCount) :
    IsFilled (nodes.modify id f) i := by
  have horigin := origin_modify hid hf
  refine h.keep (congrArg (·.2.2) (horigin i)) (fun p hp => ?_) ?_
  · exact (congrArg (·.1) (horigin p)).trans hp
  · rw [slot_modify hid]
    split
    · exact hcount ‹_› _
    · rfl

end Nodes

namespace Builder

/-- Every node but the document is filled, or it is one of `ids`, which began before the next token,
or of `begun`, which may begin there. -/
structure Filled (b : Builder) (stack : List Frame) (ids begun : List Nat) : Prop where
  stack_eq : b.stack = stack
  started : ∀ i ∈ ids, i < b.nodes.size ∧ (slot b.nodes i).tokenStart < b.pos
  starting : ∀ i ∈ begun, i < b.nodes.size ∧ (slot b.nodes i).tokenStart ≤ b.pos
  done : ∀ i < b.nodes.size, i = root ∨ i ∈ begun ∨ i ∈ ids ∨ IsFilled b.nodes i

def FilledOut (b : Builder) : Prop := b.Filled b.stack (b.stack.map (·.node)) []

variable {t : Tokenized} {b b' : Builder} {stack below : List Frame} {ids begun : List Nat}
  {f : FlatNode → FlatNode} {q id n stop : Nat} {kind : NodeKind}

theorem Filled.filledOut (h : b.Filled stack (stack.map (·.node)) []) : b.FilledOut := by
  unfold FilledOut
  rwa [h.stack_eq]

namespace Filled

section

variable (h : b.Filled stack ids begun)
include h

theorem of_nodes {stack' : List Frame} (hnodes : b'.nodes = b.nodes) (hpos : b'.pos = b.pos)
    (hstack : b'.stack = stack') : b'.Filled stack' ids begun where
  stack_eq := hstack
  started := by
    rw [hnodes, hpos]
    exact h.started
  starting := by
    rw [hnodes, hpos]
    exact h.starting
  done := by
    rw [hnodes]
    exact h.done

theorem metadata (metadata : Metadata) : Filled { b with metadata } stack ids begun :=
  h.of_nodes rfl rfl h.stack_eq

theorem modify {ids' : List Nat} (hid : id < b.nodes.size) (hf : ∀ m, (f m).origin = m.origin)
    (hsub : ids' ⊆ ids) (hids : ∀ i ∈ ids, i ≠ id → i ∈ ids')
    (hdone : id ∈ ids ∨ IsFilled b.nodes id →
      id ∈ ids' ∨ IsFilled (b.nodes.modify id f) id) :
    Filled { b with nodes := b.nodes.modify id f } stack ids' begun := by
  have horigin := origin_modify hid hf
  have hstart (i : Nat) : (slot (b.nodes.modify id f) i).tokenStart =
      (slot b.nodes i).tokenStart := congrArg (·.2.1) (horigin i)
  refine ⟨h.stack_eq, fun i hi => ?_, fun i hi => ?_, fun i hi => ?_⟩
  · rw [hstart, Array.size_modify]
    exact h.started i (hsub hi)
  · rw [hstart, Array.size_modify]
    exact h.starting i hi
  · rw [Array.size_modify] at hi
    refine (h.done i hi).imp_right fun hdone' => hdone'.imp_right fun hstate => ?_
    by_cases heq : i = id
    · subst heq
      exact hdone hstate
    · exact hstate.imp (hids i · heq) fun hfilled => hfilled.modify hid hf fun h' => absurd h' heq

theorem amend (hf : ∀ m, (f m).origin = m.origin) (hcount : ∀ m, (f m).tokenCount = m.tokenCount) :
    Build.Returns (b.modify id f) (·.Filled stack ids begun) := by
  refine (returns_modify b id f).mono fun b' ⟨hid, hb'⟩ => ?_
  subst hb'
  refine h.modify hid hf (List.Subset.refl _) (fun i hi _ => hi) fun hstate => ?_
  exact hstate.imp_right fun hfilled => hfilled.modify hid hf fun _ => hcount

theorem setFlag (flag : ElementFlag) :
    Build.Returns (b.setFlag id flag) (·.Filled stack ids begun) :=
  h.amend (f := fun n => { n with data := n.data ||| flag.bit }) (fun _ => rfl) fun _ => rfl

theorem setData (data : Int32) : Build.Returns (b.setData id data) (·.Filled stack ids begun) :=
  h.amend (f := ({ · with data := data })) (fun _ => rfl) fun _ => rfl

theorem reportTokens (kind : DiagnosticKind) (i j : Nat) (detail : String)
    (context : Option String) :
    Build.Returns (b.reportTokens t kind i j detail context) (·.Filled stack ids begun) := by
  refine (returns_report b kind i j detail context).mono fun b' ⟨_, _, hb'⟩ => ?_
  subst hb'
  exact h.of_nodes rfl rfl h.stack_eq

theorem bump : Build.Returns (b.bump t) (·.Filled stack (begun ++ ids) []) := by
  refine (returns_bump b).mono fun b' ⟨_, hb'⟩ => ?_
  subst hb'
  refine ⟨h.stack_eq, fun i hi => ?_, nofun, fun i hi => ?_⟩
  · rcases List.mem_append.1 hi with hi | hi
    · exact (h.starting i hi).imp_right Nat.lt_succ_of_le
    · exact (h.started i hi).imp_right Nat.lt_succ_of_lt
  · rcases h.done i hi with hroot | hbegun | hid | hfilled
    · exact .inl hroot
    · exact .inr (.inr (.inl (List.mem_append_left _ hbegun)))
    · exact .inr (.inr (.inl (List.mem_append_right _ hid)))
    · exact .inr (.inr (.inr hfilled))

theorem starts {begun' : List Nat} (hs : b.Starts q kind id b')
    (hown : ∀ i < b.nodes.size, (slot b'.nodes i).own = (slot b.nodes i).own)
    (hsub : begun ⊆ begun') (hbegun : ∀ i ∈ begun', i ∈ begun ∨ i = id)
    (hid : id ∈ begun' ∨ (slot b.nodes q).kind = .attr) : b'.Filled stack ids begun' := by
  have hpos : b'.pos = b.pos := by rw [hs.rest]
  have hstack : b'.stack = b.stack := by rw [hs.rest]
  have hle : b.nodes.size ≤ b'.nodes.size := hs.size ▸ Nat.le_succ _
  have hattr (p : Nat) (hp : (slot b.nodes p).kind = .attr) : (slot b'.nodes p).kind = .attr :=
    (congrArg FlatNode.kind (hown p (lt_size_of_kind (by rw [hp]; nofun))) :).trans hp
  have hstart {i : Nat} (hi : i < b.nodes.size) :
      (slot b'.nodes i).tokenStart = (slot b.nodes i).tokenStart :=
    (congrArg FlatNode.tokenStart (hown i hi) :)
  refine ⟨hstack.trans h.stack_eq, fun i hi => ?_, fun i hi => ?_, fun i hi => ?_⟩
  · obtain ⟨hlt, hstarted⟩ := h.started i hi
    exact ⟨hlt.trans_le hle, by rwa [hstart hlt, hpos]⟩
  · rcases hbegun i hi with hold | rfl
    · obtain ⟨hlt, hstarting⟩ := h.starting i hold
      exact ⟨hlt.trans_le hle, by rwa [hstart hlt, hpos]⟩
    · refine ⟨?_, by rw [hs.tokenStart_eq, hpos]⟩
      rw [hs.size, hs.id_eq]
      exact Nat.lt_succ_self _
  · rcases Nat.lt_or_ge i b.nodes.size with hlt | hge
    · have hkept (hfilled : IsFilled b.nodes i) : IsFilled b'.nodes i :=
        hfilled.keep (congrArg FlatNode.parent (hown i hlt) :) hattr
          (congrArg FlatNode.tokenCount (hown i hlt) :)
      exact (h.done i hlt).imp_right (Or.imp (hsub ·) (Or.imp_right hkept))
    · obtain rfl := hs.eq_of_ge hge hi
      rcases hid with hid | hq
      · exact .inr (.inl hid)
      · exact .inr (.inr (.inr (.inAttribute hs.parent_eq (hattr q hq))))

theorem startIn (q : Nat) (kind : NodeKind) :
    Build.Returns (b.startIn q kind) fun (id, b') =>
      (slot b'.nodes id).kind = kind ∧ b'.Filled stack ids (id :: begun) := by
  refine ((startIn_starts b q kind).returns.and (startIn_own b q kind).returns).mono
    fun (id, b') ⟨hs, _, _, _, hown⟩ => ⟨hs.kind_eq, ?_⟩
  refine h.starts hs (fun i hi => ?_) (List.subset_cons_self _ _) (fun i hi => ?_)
    (.inl List.mem_cons_self)
  · rw [hown, if_neg hi.ne]
  · exact (List.mem_cons.1 hi).symm

theorem startValue (hq : (slot b.nodes q).kind = .attr) (kind : NodeKind) :
    Build.Returns (b.startIn q kind) fun (id, b') =>
      (slot b'.nodes id).parent = some q ∧ (slot b'.nodes q).kind = .attr ∧
        b'.Filled stack ids begun := by
  refine ((startIn_starts b q kind).returns.and (startIn_own b q kind).returns).mono
    fun (id, b') ⟨hs, _, _, _, hown⟩ => ?_
  have hkept (i : Nat) (hi : i < b.nodes.size) :
      (slot b'.nodes i).own = (slot b.nodes i).own := by rw [hown, if_neg hi.ne]
  refine ⟨hs.parent_eq, (congrArg FlatNode.kind (hkept q ?_) :).trans hq, ?_⟩
  · exact lt_size_of_kind (by rw [hq]; nofun)
  · exact h.starts hs hkept (List.Subset.refl _) (fun i hi => .inl hi) (.inr hq)

end

theorem ended (h : b.Filled stack (id :: ids) begun) (hstop : b.pos ≤ stop) :
    Filled { b with
      nodes := b.nodes.modify id ({ · with tokenCount := stop - (slot b.nodes id).tokenStart }) }
      stack ids begun := by
  obtain ⟨hid, hstart⟩ := h.started id List.mem_cons_self
  refine h.modify hid (fun _ => rfl) (List.subset_cons_self _ _) (fun i hi hne => ?_)
    fun _ => .inr (.tokens ?_)
  · exact (List.mem_cons.1 hi).resolve_left hne
  · rw [slot_modify hid, if_pos rfl]
    exact Nat.sub_pos_of_lt (hstart.trans_le hstop)

theorem finish (h : b.Filled stack (id :: ids) begun) :
    Build.Returns (b.finish id) (·.Filled stack ids begun) := by
  refine (returns_finishAt b id b.pos).mono fun b' ⟨_, hb'⟩ => ?_
  rw [hb']
  exact h.ended le_rfl

theorem finishValue (h : b.Filled stack ids begun) (hp : (slot b.nodes id).parent = some q)
    (hq : (slot b.nodes q).kind = .attr) :
    Build.Returns (b.finish id) (·.Filled stack ids begun) := by
  refine (returns_finishAt b id b.pos).mono fun b' ⟨hid, hb'⟩ => ?_
  subst hb'
  have horigin := origin_modify (f := ({ · with
    tokenCount := b.pos - (slot b.nodes id).tokenStart })) hid fun _ => rfl
  refine h.modify hid (fun _ => rfl) (List.Subset.refl _) (fun i hi _ => hi) fun _ => .inr ?_
  exact .inAttribute ((congrArg (·.2.2) (horigin id)).trans hp)
    ((congrArg (·.1) (horigin q)).trans hq)

/-! Leaves -/

theorem take (h : b.Filled stack ids []) (n : Nat) :
    Build.Returns (Builder.bumpMany t n b) (·.Filled stack ids []) := by
  induction n generalizing b with
  | zero => exact .ok h
  | succ n ih => exact h.bump.bind fun b₁ h₁ => ih h₁

theorem leaf (h : b.Filled stack ids begun) (q : Nat) (kind : NodeKind) (hn : 0 < n) :
    Build.Returns (b.leaf t q kind n) fun (_, b') => b'.Filled stack (begun ++ ids) [] := by
  obtain ⟨n, rfl⟩ := Nat.exists_eq_succ_of_ne_zero hn.ne'
  unfold Builder.leaf
  refine (h.startIn q kind).bind fun ⟨id, b₁⟩ ⟨_, h₁⟩ => ?_
  have htaken : Build.Returns (Builder.bumpMany t (n + 1) b₁)
      (·.Filled stack (id :: (begun ++ ids)) []) := h₁.bump.bind fun b₂ h₂ => h₂.take n
  exact htaken.bind fun b₂ h₂ => h₂.finish.bind fun b₃ h₃ => .ok h₃

section

variable (h : b.Filled stack ids [])
include h

theorem eat (kind : TokenType) :
    Build.Returns (b.eat t kind) fun (_, b') => b'.Filled stack ids [] := by
  unfold Builder.eat
  exact .ite (fun _ => h.bump.bind fun b₁ h₁ => .ok h₁) fun _ => .ok h

theorem single (q : Nat) (kind : NodeKind) (hn : 0 < n) :
    Build.Returns (do return (← b.leaf t q kind n).2) (·.Filled stack ids []) :=
  (h.leaf q kind hn).bind fun _ h₁ => .ok h₁

/-! Content -/

theorem delimitedPart {kind : NodeKind} {content stopType : TokenType}
    (hread : ReadsDelimited t q kind content stopType b b') : b'.Filled stack ids [] := by
  induction hread with
  | read h₁ h₂ h₃ h₄ h₅ =>
      obtain ⟨-, hstarted⟩ := h.startIn q kind _ h₁
      have hate := (hstarted.bump _ h₂).eat _ _ h₃
      exact Filled.finish (hate.eat _ _ h₄) _ h₅
  | report _ _ hb ih => exact ih.reportTokens _ _ _ _ _ _ hb

theorem echo (q : Nat) (kind : NodeKind) (stopType : TokenType) (delimiter : String) :
    Build.Returns (b.echo t q kind stopType delimiter) (·.Filled stack ids []) :=
  (reads_echo b q kind stopType delimiter).mono fun _ => h.delimitedPart

theorem delimited (q : Nat) (kind : NodeKind) (content stopType : TokenType)
    (endName : Option String) :
    Build.Returns (b.delimited t q kind content stopType endName) (·.Filled stack ids []) :=
  (reads_delimited b q kind content stopType endName).mono fun _ => h.delimitedPart

theorem verbatim (q : Nat) : Build.Returns (b.verbatim t q) (·.Filled stack ids []) :=
  (reads_verbatim b q).mono fun _ => h.delimitedPart

theorem text (q : Nat) (hlt : b.pos < t.size) :
    Build.Returns (b.text t q) (·.Filled stack ids []) :=
  h.single q .text (Nat.sub_pos_of_lt (textEnd_bounds hlt).1)

/-! Start tags -/

theorem eatGenericArgs (element first : Nat) :
    Build.Returns (b.eatGenericArgs t element first) (·.Filled stack ids []) := by
  unfold Builder.eatGenericArgs
  refine .ite (fun _ => ?_) fun _ => .ok h
  exact (h.metadata _).bump

theorem eatSpaceBefore (accepts : TokenType → Bool) :
    Build.Returns (b.eatSpaceBefore t accepts) (·.Filled stack ids []) := by
  unfold Builder.eatSpaceBefore
  exact .ite (fun _ => h.bump) fun _ => .ok h

theorem attributeValue (hid : (slot b.nodes id).kind = .attr) (first : Nat) :
    Build.Returns (b.attributeValue t id first) (·.Filled stack ids []) := by
  unfold Builder.attributeValue
  refine .ite (fun _ => ?_) fun _ => .ite (fun _ => ?_) fun _ => h.reportTokens _ _ _ _ _
  · refine Build.Returns.any.bind fun quote _ => ?_
    split
    · refine (h.bump.and (returns_bump b)).bind fun b₁ ⟨h₁, _, hb₁⟩ => ?_
      have hid₁ : (slot b₁.nodes id).kind = .attr := hb₁ ▸ hid
      refine (h₁.startValue hid₁ .attributeValue).bind fun ⟨value, b₂⟩ ⟨hparent, hid₂, h₂⟩ => ?_
      have hx₂ : Extends 0 b₂ b₂ := .refl (Nat.zero_le _)
      refine ((h₂.setData _).and (hx₂.setData _ (Nat.zero_le _)).returns).bind
        fun b₃ ⟨h₃, hx₃⟩ => ?_
      refine ((h₃.eat .attributeValue).and (hx₃.eat .attributeValue).returns).bind
        fun ⟨_, b₄⟩ ⟨h₄, hx₄⟩ => ?_
      have hparent : (slot b₄.nodes value).parent = some id :=
        (hx₄.parent value (lt_size_of_parent hparent)).trans hparent
      have hkind : (slot b₄.nodes id).kind = .attr :=
        (hx₄.kind id (lt_size_of_kind (by rw [hid₂]; nofun))).trans hid₂
      refine (h₄.finishValue hparent hkind).bind fun b₅ h₅ => ?_
      refine (h₅.eat .quote).bind fun ⟨closed, b₆⟩ h₆ => ?_
      exact .ite (fun _ => .ok h₆) fun _ => h₆.reportTokens _ _ _ _ _
    · exact .fault
  · exact h.single id .attributeValue Nat.one_pos

theorem attributePair (element : Nat) :
    Build.Returns (b.attributePair t element) (·.Filled stack ids []) := by
  unfold Builder.attributePair
  refine (h.startIn element .attr).bind fun ⟨id, b₁⟩ ⟨hid, h₁⟩ => ?_
  have hlt : id < b₁.nodes.size := lt_size_of_kind (by rw [hid]; nofun)
  have hinner : Inner t id b₁ b₁ := .refl
  refine ((h₁.leaf id .attributeName Nat.one_pos).and (hinner.leaf (.inl rfl) rfl 1)).bind
    fun ⟨_, b₂⟩ ⟨h₂, hinner₂, _⟩ => ?_
  refine ((h₂.eatSpaceBefore _).and (hinner₂.eatSpaceBefore _)).bind fun b₃ ⟨h₃, hinner₃⟩ => ?_
  refine .ite (fun _ => h₃.finish) fun _ => ?_
  refine (h₃.bump.and fun _ => hinner₃.bump).bind fun b₄ ⟨h₄, hinner₄⟩ => ?_
  refine ((h₄.eatSpaceBefore _).and (hinner₄.eatSpaceBefore _)).bind fun b₅ ⟨h₅, hinner₅⟩ => ?_
  have hkind : (slot b₅.nodes id).kind = .attr := (hinner₅.extends.kind id hlt).trans hid
  exact (h₅.attributeValue hkind _).bind fun b₆ h₆ => h₆.finish

theorem unexpectedText : Build.Returns (b.unexpectedText t) (·.Filled stack ids []) := by
  unfold Builder.unexpectedText
  refine Build.Returns.any.bind fun _ _ => ?_
  exact (h.reportTokens _ _ _ _ _).bind fun _ h₁ => h₁.bump

end

theorem directiveLeaf (h : b.Filled stack ids begun) (q : Nat) (role : DirectiveRole) :
    Build.Returns (b.directiveLeaf t q role) (·.Filled stack (begun ++ ids) []) := by
  have hcount : 0 < (t.argsIndex? b.pos).elim 1 (· + 1 - b.pos) := by
    cases hargs : t.argsIndex? b.pos with
    | none => exact Nat.one_pos
    | some i =>
        have hlt := (argsIndex?_bounds hargs).1
        exact Nat.sub_pos_of_lt (hlt.trans (Nat.lt_succ_self i))
  unfold Builder.directiveLeaf
  exact (h.leaf q .directive hcount).bind fun ⟨id, b₁⟩ h₁ => h₁.setData _

section

variable (h : b.Filled stack ids [])
include h

theorem tagItem? {element : Nat} {kind : TokenType} {item : Build Builder}
    (hitem : b.tagItem? t element kind = some item) :
    Build.Returns item (·.Filled stack ids []) := by
  unfold Builder.tagItem? at hitem
  split at hitem <;> cases hitem
  · exact h.attributePair element
  · exact h.echo element _ _ _
  · exact h.echo element _ _ _
  · exact h.echo element _ _ _
  · exact h.delimited element _ _ _ _
  · exact h.directiveLeaf element _
  · exact h.bump
  · exact h.unexpectedText
  · exact h.bump

theorem tagItems (element : Nat) :
    Build.Returns (Builder.tagItems t element b) fun (_, b') => b'.Filled stack ids [] := by
  fun_induction Builder.tagItems t element b with
  | case1 => exact .ok h
  | case2 b _ => exact h.bump.bind fun _ h₁ => .ok h₁
  | case3 b _ => exact h.bump.bind fun _ h₁ => .ok h₁
  | case4 => exact .ok h
  | case5 b kind _ _ _ item hitem ih =>
      refine (h.tagItem? hitem).bind fun b₁ h₁ => ?_
      split
      · exact ih b₁ ‹_› h₁
      · exact .fault

end

theorem unterminatedTag (h : b.Filled stack (id :: ids) []) (first : Nat) (name : String) :
    Build.Returns (b.unterminatedTag t id first name) (·.Filled stack ids []) := by
  unfold Builder.unterminatedTag
  refine (h.setFlag _).bind fun b₁ h₁ => ?_
  refine (h₁.setFlag _).bind fun b₂ h₂ => ?_
  refine (h₂.metadata _).finish.bind fun b₃ h₃ => ?_
  exact h₃.reportTokens _ _ _ _ _

theorem emptyElement (h : b.Filled stack (id :: ids) []) (name : String) (selfClosed : Bool) :
    Build.Returns (b.emptyElement id name selfClosed) (·.Filled stack ids []) := by
  have hflag {b₁ : Builder} (h₁ : b₁.Filled stack (id :: ids) []) (c : Bool)
      (flag : ElementFlag) :
      Build.Returns (b₁.setFlagIf c id flag) (·.Filled stack (id :: ids) []) :=
    .ite (fun _ => h₁.setFlag flag) fun _ => .ok h₁
  unfold Builder.emptyElement
  refine (hflag h selfClosed .selfClosing).bind fun b₁ h₁ => ?_
  exact (hflag h₁ (isVoidElement name) .void).bind fun b₂ h₂ => h₂.finish

theorem pushFrame {g : Frame} (h : b.Filled stack (g.node :: ids) []) :
    (b.pushFrame g).Filled (g :: stack) (g.node :: ids) [] := by
  obtain ⟨hnodes, hstack⟩ := nodes_pushFrame b g
  have hpos : (b.pushFrame g).pos = b.pos := by rw [pushFrame_rest]
  refine ⟨by rw [hstack, h.stack_eq], ?_, nofun, ?_⟩
  · rw [hnodes, hpos]
    exact h.started
  · rw [hnodes]
    exact h.done

end Filled

/-! Frames that end -/

namespace FilledOut

variable (h : b.FilledOut)
include h

theorem popFrame (hstop : b.pos ≤ stop) :
    Build.Returns (b.popFrame stop) fun (_, b') => b'.FilledOut ∧ b'.pos = b.pos := by
  cases hs : b.stack with
  | nil =>
      unfold Builder.popFrame
      rw [hs]
      exact .ok ⟨h, rfl⟩
  | cons g below =>
      unfold FilledOut at h
      rw [hs, List.map_cons] at h
      refine (returns_popFrame hs stop).mono fun ⟨_, b'⟩ ⟨_, hstack, hpos, _, _, _, hnodes⟩ => ?_
      exact ⟨((h.ended hstop).of_nodes hnodes hpos hstack).filledOut, hpos⟩

theorem settle (g : Frame) (reason : ClosedBy) (stop : Nat) (context : Option String) :
    Build.Returns (b.settle t g reason stop context) (·.FilledOut) := by
  have hout {b₁ : Builder} (h₁ : b₁.Filled b.stack (b.stack.map (·.node)) []) : b₁.FilledOut :=
    h₁.filledOut
  unfold Builder.settle
  refine Build.Returns.any.bind fun node _ => ?_
  split
  · refine (Filled.setFlag h _).bind fun b₁ h₁ => ?_
    exact .ite (fun _ => .ok (hout h₁)) fun _ => (h₁.reportTokens _ _ _ _ _).mono fun _ => hout
  · split
    · exact Build.Returns.any.bind fun _ _ => (Filled.reportTokens h _ _ _ _ _).mono fun _ => hout
    · exact (Filled.reportTokens h _ _ _ _ _).mono fun _ => hout

theorem forceClose (reason : ClosedBy) (hstop : b.pos ≤ stop) (context : Option String) :
    Build.Returns (b.forceClose t reason stop context) fun b' =>
      b'.FilledOut ∧ b'.pos = b.pos := by
  rw [forceClose_eq]
  refine (h.popFrame hstop).bind fun ⟨popped, b₁⟩ ⟨h₁, hpos₁⟩ => ?_
  cases popped with
  | none => exact .ok ⟨h₁, hpos₁⟩
  | some g =>
      have h₂ : FilledOut { b₁ with metadata := b₁.metadata.setClosedBy g.node reason } :=
        Filled.metadata h₁ _
      refine ((h₂.settle g reason stop context).and (returns_settle _ g reason stop context)).mono
        fun b' ⟨h', _, _, _, hpos'⟩ => ⟨h', hpos'.trans hpos₁⟩

theorem forceCloseMany (close : List Frame → ClosedBy × Option String) (hstop : b.pos ≤ stop)
    (n : Nat) : Build.Returns (Builder.forceCloseMany t close stop n b) fun b' =>
      b'.FilledOut ∧ b'.pos = b.pos := by
  induction n generalizing b with
  | zero => exact .ok ⟨h, rfl⟩
  | succ n ih =>
      refine (h.forceClose _ hstop _).bind fun b₁ ⟨h₁, hpos₁⟩ => ?_
      exact (ih h₁ (hpos₁ ▸ hstop)).mono fun b' ⟨h', hpos'⟩ => ⟨h', hpos'.trans hpos₁⟩

/-! Tags -/

theorem closeForSibling (name : String) :
    Build.Returns (b.closeForSibling t name) (·.FilledOut) := by
  unfold Builder.closeForSibling
  split
  · exact .ok h
  · refine (h.forceCloseMany _ le_rfl _).bind fun b₁ ⟨h₁, hpos₁⟩ => ?_
    exact (h₁.forceClose _ hpos₁.le _).mono fun b' h' => h'.1

theorem openTag : Build.Returns (b.openTag t) fun (_, element, _, b') =>
    ∃ stack, b'.Filled stack (element :: stack.map (·.node)) [] := by
  unfold Builder.openTag
  refine Build.Returns.any.bind fun name _ => ?_
  refine (h.closeForSibling name).bind fun b₁ h₁ => ?_
  refine (Filled.startIn h₁ b₁.parent .element).bind fun ⟨element, b₂⟩ ⟨_, h₂⟩ => ?_
  refine h₂.bump.bind fun b₃ h₃ => ?_
  refine (h₃.leaf element .elementName Nat.one_pos).bind fun ⟨_, b₄⟩ h₄ => ?_
  refine (h₄.eatGenericArgs element b.pos).bind fun b₅ h₅ => ?_
  exact (h₅.tagItems element).bind fun ⟨tagEnd, b₆⟩ h₆ => .ok ⟨_, h₆⟩

theorem startTag : Build.Returns (b.startTag t) (·.FilledOut) := by
  rw [startTag_eq]
  refine h.openTag.bind fun ⟨name, element, tagEnd, b'⟩ ⟨stack, h'⟩ => ?_
  refine .ite (fun _ => ?_) fun _ => .ite (fun _ => ?_) fun _ => ?_
  · exact (h'.unterminatedTag _ _).mono fun _ hout => hout.filledOut
  · exact (h'.emptyElement _ _).mono fun _ hout => hout.filledOut
  · refine Build.Returns.any.bind fun _ _ => .ok ?_
    exact (h'.pushFrame (g := ⟨element, .element name⟩)).filledOut

theorem strayClosingTag (hstop : b.pos < stop) (blocked : Bool) :
    Build.Returns (b.strayClosingTag t stop blocked) (·.FilledOut) := by
  unfold Builder.strayClosingTag
  refine (Filled.leaf h b.parent .strayClosingTag (Nat.sub_pos_of_lt hstop)).bind
    fun ⟨_, b₁⟩ h₁ => ?_
  refine Build.Returns.any.bind fun span _ => ?_
  refine .ite (fun _ => ?_) fun _ => ?_
  · exact (h₁.reportTokens _ _ _ _ _).mono fun _ hout => hout.filledOut
  · exact (h₁.reportTokens _ _ _ _ _).mono fun _ hout => hout.filledOut

theorem closeElement (hn : 0 < n) : Build.Returns (do
    let (_, b') ← b.leaf t b.parent .closingElementName n
    let b' ← b'.setFlag b.parent .paired
    return (← b'.popFrame b'.pos).2) (·.FilledOut) := by
  refine (Filled.leaf h b.parent .closingElementName hn).bind fun ⟨_, b₁⟩ h₁ => ?_
  refine (h₁.setFlag _).bind fun b₂ h₂ => ?_
  exact (h₂.filledOut.popFrame le_rfl).bind fun _ h₃ => .ok h₃.1

theorem closingTag : Build.Returns (b.closingTag t) (·.FilledOut) := by
  unfold Builder.closingTag
  have hname : Build.Returns (t.text (b.pos + 2)) fun _ => b.pos + 2 < t.size :=
    (Tokenized.returns_token _).bind fun _ htoken => .ok (getElem?_eq_some_iff.1 htoken).1
  refine hname.bind fun name hlt => ?_
  have hstop : b.pos < closingTagEnd t (b.pos + 3) :=
    lt_of_lt_of_le (by omega) (closingTagEnd_bounds hlt).1
  simp only
  split
  · exact h.strayClosingTag hstop _
  · exact h.strayClosingTag hstop _
  · refine (h.forceCloseMany _ le_rfl _).bind fun b₁ ⟨h₁, _⟩ => ?_
    split
    · refine (Filled.reportTokens h₁ _ _ _ _ _).bind fun b₂ h₂ => ?_
      exact h₂.filledOut.closeElement (Nat.sub_pos_of_lt hstop)
    · exact h₁.closeElement (Nat.sub_pos_of_lt hstop)

/-! Directives -/

theorem directiveLeaf (q : Nat) (role : DirectiveRole) :
    Build.Returns (b.directiveLeaf t q role) (·.FilledOut) :=
  (Filled.directiveLeaf h q role).mono fun _ h' => h'.filledOut

theorem report (kind : DiagnosticKind) (i j : Nat) (detail : String) (context : Option String) :
    Build.Returns (b.reportTokens t kind i j detail context) (·.FilledOut) :=
  (Filled.reportTokens h kind i j detail context).mono fun _ h' => h'.filledOut

theorem openBlock (rule : BlockRule) (name : String) :
    Build.Returns (b.openBlock t rule name) (·.FilledOut) := by
  unfold Builder.openBlock
  refine Build.Returns.any.bind fun _ _ => ?_
  refine (Filled.startIn h b.parent .directiveBlock).bind fun ⟨block, b₁⟩ ⟨_, h₁⟩ => ?_
  refine (h₁.directiveLeaf block .opener).bind fun b₂ h₂ => .ok ?_
  exact (h₂.pushFrame (g := ⟨block, .directive rule name⟩)).filledOut

theorem closeAboveBlock (above : Nat) (name : String) :
    Build.Returns (b.closeAboveBlock t above name) (·.FilledOut) :=
  (h.forceCloseMany _ le_rfl above).mono fun _ h' => h'.1

theorem place (name : String) (first : Nat) (hasArgs : Bool) (place : DirectivePlace) :
    Build.Returns (b.place t name first hasArgs place) (·.FilledOut) := by
  cases place with
  | branch above => exact (h.closeAboveBlock above name).bind fun b₁ h₁ => h₁.directiveLeaf _ _
  | terminator above =>
      refine (h.closeAboveBlock above name).bind fun b₁ h₁ => ?_
      refine (h₁.directiveLeaf _ _).bind fun b₂ h₂ => ?_
      exact (h₂.popFrame le_rfl).bind fun _ h₃ => .ok h₃.1
  | opener rule => exact h.openBlock rule name
  | strayTerminator => exact (h.directiveLeaf _ _).bind fun b₁ h₁ => h₁.report _ _ _ _ _
  | strayBranch => exact (h.directiveLeaf _ _).bind fun b₁ h₁ => h₁.report _ _ _ _ _
  | standalone =>
      refine (h.directiveLeaf _ _).bind fun b₁ h₁ => ?_
      exact .ite (fun _ => h₁.report _ _ _ _ _) fun _ => .ok h₁

theorem directive : Build.Returns (b.directive t) (·.FilledOut) := by
  rw [directive_eq]
  refine Build.Returns.any.bind fun name _ => ?_
  refine Build.Returns.any.bind fun arity _ => ?_
  refine Build.Returns.bind (P := (·.FilledOut)) ?_ fun b₁ h₁ => h₁.place _ _ _ _
  exact .ite (fun _ => h.report _ _ _ _ _) fun _ => .ok h

/-! Content -/

theorem construct (hlt : b.pos < t.size) (kind : TokenType) :
    Build.Returns (b.construct t kind) (·.FilledOut) := by
  have hout {x : Build Builder}
      (hx : Build.Returns x (·.Filled b.stack (b.stack.map (·.node)) [])) :
      Build.Returns x (·.FilledOut) := hx.mono fun _ h' => h'.filledOut
  unfold Builder.construct
  split
  · refine .ite (fun _ => h.closingTag) fun _ => ?_
    exact .ite (fun _ => h.startTag) fun _ => hout (Filled.text h _ hlt)
  · exact hout (Filled.echo h _ _ _ _)
  · exact hout (Filled.echo h _ _ _ _)
  · exact hout (Filled.echo h _ _ _ _)
  · exact hout (Filled.delimited h _ _ _ _ _)
  · exact hout (Filled.delimited h _ _ _ _ _)
  · exact hout (Filled.single h _ _ Nat.one_pos)
  · exact hout (Filled.single h _ _ Nat.one_pos)
  · exact hout (Filled.single h _ _ Nat.one_pos)
  · exact hout (Filled.delimited h _ _ _ _ _)
  · exact hout (Filled.delimited h _ _ _ _ _)
  · exact hout (Filled.verbatim h _)
  · exact h.directive
  · exact hout (Filled.text h _ hlt)

theorem contentItem (hlt : b.pos < t.size) :
    Build.Returns (b.contentItem t) (·.FilledOut) := by
  unfold Builder.contentItem
  split
  · rename_i leaf hleaf
    have hcount := (extensionLeaf?_bounds hleaf hlt.le).1
    refine (Filled.leaf h b.parent leaf.kind hcount).bind fun ⟨id, b₁⟩ h₁ => ?_
    exact (h₁.setData _).mono fun _ h' => h'.filledOut
  · split
    · exact h.construct hlt _
    · exact .ok h

theorem items : Build.Returns (b.items t) (·.FilledOut) := by
  fun_induction Builder.items t b with
  | case1 b hlt ih =>
      refine (h.contentItem hlt).bind fun b₁ h₁ => ?_
      by_cases hlt₁ : b.pos < b₁.pos
      · rw [dif_pos hlt₁]
        exact ih b₁ hlt₁ h₁
      · rw [dif_neg hlt₁]
        exact .fault
  | case2 b _ => exact .ok h

end FilledOut

theorem filledOut_initial : initial.FilledOut := by
  refine ⟨rfl, nofun, nofun, fun i hi => .inl ?_⟩
  exact Nat.lt_one_iff.1 hi

theorem filled_build : Build.Returns (build t) fun b' =>
    ∀ i < b'.nodes.size, i = root ∨ IsFilled b'.nodes i := by
  unfold build
  refine ((filledOut_initial.items).and sound_initial.items.returns).bind
    fun b₁ ⟨h₁, hs₁, hpos₁⟩ => ?_
  refine ((h₁.forceCloseMany _ hpos₁.le _).and
    (hs₁.forceCloseMany _ hpos₁.symm _).returns).bind fun b₂ ⟨⟨h₂, _⟩, _, _, hstack₂⟩ => ?_
  rw [List.drop_length] at hstack₂
  unfold FilledOut at h₂
  rw [hstack₂] at h₂
  refine (returns_finishAt b₂ root b₂.pos).mono fun b₃ ⟨hroot, hb₃⟩ i hi => ?_
  rw [hb₃] at hi ⊢
  rw [Array.size_modify] at hi
  by_cases hne : i = root
  · exact .inl hne
  · rcases h₂.done i hi with hi | hi | hi | hi
    · exact .inl hi
    · cases hi
    · cases hi
    · exact .inr (IsFilled.modify (f := ({ · with tokenCount := _ })) hi hroot (fun _ => rfl)
        fun h' => absurd h' hne)

end Builder
end BladeTree
