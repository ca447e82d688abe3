import BladeTree.Proofs.Tree.Blocks
import BladeTree.Proofs.Tree.Calm
import BladeTree.Proofs.Tree.ElementSteps

namespace BladeTree

namespace Frame

/-- The top frame may be closed for this reason where no start tag follows: an end is implied only
for an element whose end tag may be left out. -/
def Permits (stack : List Frame) (reason : ClosedBy) : Prop :=
  reason ≠ .unterminatedStartTag ∧ reason ≠ .sibling ∧
    (reason.isImplied → ∃ f ∈ stack.head?, f.elementName?.any OptionalTag.isListed)

variable {stack : List Frame} {name : String} {above k : Nat}

theorem isListed_of_endsWithParent (h : endsWithParent stack) :
    ∃ f ∈ stack.head?, f.elementName?.any OptionalTag.isListed := by
  cases stack with
  | nil => cases h
  | cons f below =>
      simp only [endsWithParent, Option.any_eq_true] at h
      obtain ⟨opened, hopened, hends⟩ := h
      refine ⟨f, rfl, (Option.any_eq_true _ _).2 ⟨opened, hopened, ?_⟩⟩
      split at hends
      · obtain ⟨rule, hrule, -⟩ := (Option.any_eq_true _ _).1 hends
        simp [OptionalTag.isListed, hrule]
      · exact hends

theorem permits_parentEnd (h : endsWithParent stack) : Permits stack .parentEnd :=
  ⟨nofun, nofun, fun _ => isListed_of_endsWithParent h⟩

theorem permits_closedByTag (name : String) (stack : List Frame) :
    Permits stack (Builder.closedByTag name stack).1 := by
  unfold Builder.closedByTag
  split
  · exact permits_parentEnd ‹_›
  · exact ⟨nofun, nofun, nofun⟩

theorem permits_closedByEnd (stack : List Frame) : Permits stack (Builder.closedByEnd stack).1 := by
  simp only [Builder.closedByEnd]
  split
  · exact permits_parentEnd ‹_›
  · exact ⟨nofun, nofun, nofun⟩

theorem permits_closedByDirective (name : String) (stack : List Frame) :
    Permits stack (Builder.closedByDirective name stack).1 := by
  unfold Builder.closedByDirective
  split
  · rename_i hlisted
    refine ⟨nofun, nofun, fun _ => ?_⟩
    cases stack with
    | nil => cases hlisted
    | cons f below => exact ⟨f, rfl, hlisted⟩
  · exact ⟨nofun, nofun, nofun⟩

/-- The frames that a start tag looks past end with their parents. -/
theorem endsWithParent_of_siblingTarget (h : siblingTarget name stack = some above)
    (hk : k < above) : endsWithParent (stack.drop k) := by
  induction stack generalizing above k with
  | nil => cases h
  | cons f below ih =>
      unfold siblingTarget at h
      split at h
      · cases h
      · split at h
        · cases h
          exact absurd hk (Nat.not_lt_zero _)
        · split at h
          · cases h
          · rename_i hpast
            obtain ⟨above', habove', rfl⟩ := Option.map_eq_some_iff.1 h
            cases k with
            | zero =>
                simp only [Bool.or_eq_true, not_or, Bool.not_eq_true', Bool.not_eq_false] at hpast
                exact hpast.2
            | succ k => exact ih habove' (Nat.lt_of_succ_lt_succ hk)

end Frame

namespace Tokenized

variable {t : Tokenized} {i : Nat} {name : String}

/-- A closing tag called `name` starts at token `i`. -/
structure ClosingTagAt (t : Tokenized) (i : Nat) (name : String) : Prop where
  opens : t.kind? i = some .lessThan
  slash : t.kind? (i + 1) = some .slash
  named : t.text (i + 2) = .ok name

theorem ClosingTagAt.lt_size (h : t.ClosingTagAt i name) : i + 2 < t.size := by
  have htext : Build.Returns (t.text (i + 2)) fun _ => i + 2 < t.size := by
    refine (returns_token (i + 2)).bind fun token htoken => .ok ?_
    exact (getElem?_eq_some_iff.1 htoken).1
  exact htext _ h.named

end Tokenized

namespace Builder

variable {t : Tokenized} {K : NodeKind → Prop} {P : Builder → Prop} {b b' : Builder} {n : Nat}
  {f : Frame}

/-! Frames and their nodes -/

def Carries (t : Tokenized) (b : Builder) (f : Frame) : Prop :=
  match f.kind with
  | .element name => b.Titled t f.node name
  | .directive _ _ => (slot b.nodes f.node).kind = .directiveBlock

def Carrying (t : Tokenized) (b : Builder) : Prop := ∀ f ∈ b.stack, b.Carries t f

theorem Carries.titled {name : String} (h : b.Carries t f) (hname : name ∈ f.elementName?) :
    b.Titled t f.node name := by
  obtain ⟨node, kind⟩ := f
  cases kind with
  | element opened =>
      cases hname
      exact h
  | directive => cases hname

theorem carries_block (hkind : (slot b.nodes f.node).kind = .directiveBlock)
    (hf : f.blockRule?.isSome) : b.Carries t f := by
  obtain ⟨node, kind⟩ := f
  cases kind with
  | element => cases hf
  | directive => exact hkind

theorem Carries.lt_size (h : b.Carries t f) : f.node < b.nodes.size := by
  obtain ⟨node, kind⟩ := f
  cases kind with
  | element => exact Titled.lt_size h
  | directive =>
      have hkind : (slot b.nodes node).kind = .directiveBlock := h
      apply lt_size_of_kind
      rw [hkind]
      nofun

theorem Carries.keep (h : b.Carries t f) (hw : Widens n b b') (hf : Final b b') :
    b'.Carries t f := by
  have hlt := h.lt_size
  obtain ⟨node, kind⟩ := f
  cases kind with
  | element => exact Titled.keep h hw hf
  | directive => exact (hw.kind_eq hlt).trans h

namespace Carrying

theorem keep (h : b.Carrying t) (hw : Widens n b b') (hf : Final b b')
    (hnew : ∀ f ∈ b'.stack, f ∈ b.stack ∨ b'.Carries t f) : b'.Carrying t := by
  intro f hmem
  rcases hnew f hmem with hold | hnew
  · exact (h f hold).keep hw hf
  · exact hnew

theorem pushFrame (h : b.Carrying t) (hf : b.Carries t f)
    (hkind : (slot b.nodes f.node).kind ≠ .elementName) : (b.pushFrame f).Carrying t := by
  have htitled {i : Nat} {name : String} (hi : b.Titled t i name) :
      (b.pushFrame f).Titled t i name := by
    apply hi.pushFrame
    intro heq
    exact hkind (heq ▸ hi.leaf.kind_succ)
  obtain ⟨hnodes, hstack⟩ := nodes_pushFrame b f
  have hkeep (g : Frame) (hg : b.Carries t g) : (b.pushFrame f).Carries t g := by
    obtain ⟨node, kind⟩ := g
    cases kind with
    | element => exact htitled hg
    | directive =>
        unfold Carries
        rw [hnodes]
        exact hg
  intro g hg
  rw [hstack, List.mem_cons] at hg
  rcases hg with rfl | hg
  · exact hkeep g hf
  · exact hkeep g (h g hg)

end Carrying

/-! Items of content -/

/-- A property of trees between items of content, by the parts of an item: something is reported,
frames are closed, a closing tag ends an element or none, a directive marks, ends or enters a block,
an element starts, or there is a construct of its own. -/
structure Upheld (t : Tokenized) (P : Builder → Prop) : Prop where
  report : ∀ b d, P b → P (b.report d)
  close : ∀ b reason context, b.Sound t → P b → Frame.Permits b.stack reason →
    Build.Returns (b.forceClose t reason b.pos context) P
  pair : ∀ b f below opened name, b.Sound t → P b → b.stack = f :: below →
    f.kind = .element opened → sameName opened name → t.ClosingTagAt b.pos name →
    Build.Returns (b.closeElement t (closingTagEnd t (b.pos + 3) - b.pos)) P
  stray : ∀ b name, b.Sound t → P b → t.ClosingTagAt b.pos name → Build.Returns
    (b.leaf t b.parent .strayClosingTag (closingTagEnd t (b.pos + 3) - b.pos)) (P ·.2)
  marker : ∀ b role, b.Sound t → P b → t.kind? b.pos = some .directive →
    Build.Returns (b.directiveLeaf t b.parent role) P
  leave : ∀ b f below, P b → b.stack = f :: below → f.blockRule?.isSome →
    Build.Returns (b.popFrame b.pos) (P ·.2)
  openBlock : ∀ b rule name, b.Sound t → P b → t.kind? b.pos = some .directive →
    Build.Returns (b.openBlock t rule name) P
  startTag : ∀ b, b.Sound t → P b → t.kind? b.pos = some .lessThan →
    t.kind? (b.pos + 1) = some .tagName → Build.Returns (b.startTag t) P
  plain : ∀ b kind, b.Sound t → P b → t.kind? b.pos = some kind → kind ≠ .directive →
    (kind = .lessThan → t.kind? (b.pos + 1) ≠ some .slash ∧ t.kind? (b.pos + 1) ≠ some .tagName) →
    Build.Returns (b.construct t kind) P
  extension : ∀ b leaf, b.Sound t → P b → b.extensionLeaf? t = some leaf →
    Build.Returns (b.extensionLeaf t leaf) P
  finish : ∀ b, b.Sound t → P b → Build.Returns (b.finish root) P

theorem forceCloseMany_keeps
    (hclose : ∀ b reason context, b.Sound t → P b → Frame.Permits b.stack reason →
      Build.Returns (b.forceClose t reason b.pos context) P)
    {close : List Frame → ClosedBy × Option String} {n : Nat} (hs : b.Sound t) (h : P b)
    (hpermits : ∀ k < n, Frame.Permits (b.stack.drop k) (close (b.stack.drop k)).1) :
    Build.Returns (forceCloseMany t close b.pos n b) fun b' =>
      P b' ∧ b'.Sound t ∧ b'.pos = b.pos ∧ b'.stack = b.stack.drop n := by
  induction n generalizing b with
  | zero => exact .ok ⟨h, hs, rfl, rfl⟩
  | succ n ih =>
      have hfirst : Frame.Permits b.stack (close b.stack).1 := hpermits 0 n.succ_pos
      refine ((hclose b _ (close b.stack).2 hs h hfirst).and
        (hs.forceClose _ _).returns).bind fun b₁ ⟨h₁, hs₁, hpos₁, hstack₁⟩ => ?_
      have hrest (k : Nat) (hk : k < n) :
          Frame.Permits (b₁.stack.drop k) (close (b₁.stack.drop k)).1 := by
        rw [hstack₁, List.drop_tail]
        exact hpermits (k + 1) (Nat.succ_lt_succ hk)
      rw [← hpos₁]
      refine (ih hs₁ h₁ hrest).mono fun b' ⟨h', hs', hpos', hstack'⟩ => ⟨h', hs', hpos', ?_⟩
      rw [hstack', hstack₁, List.drop_tail]

namespace Upheld

variable (hP : Upheld t P)
include hP

theorem forceCloseMany {close : List Frame → ClosedBy × Option String} {n : Nat}
    (hs : b.Sound t) (h : P b) (hpermits : ∀ stack, Frame.Permits stack (close stack).1) :
    Build.Returns (Builder.forceCloseMany t close b.pos n b) fun b' =>
      P b' ∧ b'.Sound t ∧ b'.pos = b.pos ∧ b'.stack = b.stack.drop n :=
  forceCloseMany_keeps hP.close hs h fun _ _ => hpermits _

theorem reportTokens (h : P b) (kind : DiagnosticKind) (i j : Nat) (detail : String)
    (context : Option String) : Build.Returns (b.reportTokens t kind i j detail context) P := by
  refine (returns_report b kind i j detail context).mono fun b' ⟨_, _, hb'⟩ => ?_
  subst hb'
  exact hP.report b _ h

/-! Closing tags -/

theorem strayClosingTag (hs : b.Sound t) (h : P b) {name : String}
    (htag : t.ClosingTagAt b.pos name) (blocked : Bool) :
    Build.Returns (b.strayClosingTag t (closingTagEnd t (b.pos + 3)) blocked) P := by
  unfold Builder.strayClosingTag
  refine (hP.stray b name hs h htag).bind fun ⟨_, b₁⟩ h₁ => ?_
  refine Build.Returns.any.bind fun span _ => ?_
  exact .ite (fun _ => hP.reportTokens h₁ _ _ _ _ _) fun _ => hP.reportTokens h₁ _ _ _ _ _

theorem closingTag (hs : b.Sound t) (h : P b) (hopens : t.kind? b.pos = some .lessThan)
    (hslash : t.kind? (b.pos + 1) = some .slash) : Build.Returns (b.closingTag t) P := by
  unfold Builder.closingTag
  refine Build.Returns.bind (P := (t.text (b.pos + 2) = .ok ·)) (fun _ => id) fun name hname => ?_
  have htag : t.ClosingTagAt b.pos name := ⟨hopens, hslash, hname⟩
  have hstop := (closingTagEnd_bounds (t := t) (i := b.pos + 3) htag.lt_size).2
  simp only
  split
  · exact hP.strayClosingTag hs h htag _
  · exact hP.strayClosingTag hs h htag _
  · rename_i above habove
    obtain ⟨f, below, opened, -, hdrop, hkind, hsame⟩ := Frame.exists_of_closeTarget habove
    refine (hP.forceCloseMany hs h (Frame.permits_closedByTag name)).bind
      fun b₁ ⟨h₁, hs₁, hpos₁, hstack₁⟩ => ?_
    have hpair {b₂ : Builder} (h₂ : P b₂) (hs₂ : b₂.Sound t) (hpos₂ : b₂.pos = b.pos)
        (hstack₂ : b₂.stack = b₁.stack) :
        Build.Returns (b₂.closeElement t (closingTagEnd t (b.pos + 3) - b.pos)) P := by
      rw [← hpos₂] at htag ⊢
      exact hP.pair b₂ f below opened name hs₂ h₂ (hstack₂.trans (hstack₁.trans hdrop)) hkind hsame
        htag
    split
    · refine ((hP.reportTokens h₁ _ _ _ _ _).and (hs₁.reportTokens _ hstop _ _).returns).bind
        fun b₂ ⟨h₂, hs₂, hpos₂, hstack₂⟩ => ?_
      exact hpair h₂ hs₂ (hpos₂.trans hpos₁) hstack₂
    · exact hpair h₁ hs₁ hpos₁ rfl

/-! Directives -/

theorem place (hs : b.Sound t) (h : P b) (hk : t.kind? b.pos = some .directive) (name : String)
    (first : Nat) (hasArgs : Bool) {place : DirectivePlace}
    (hplace : place.Suits b.stack name hasArgs) :
    Build.Returns (b.place t name first hasArgs place) P := by
  have hclosed (above : Nat) : Build.Returns (b.closeAboveBlock t above name) fun b' =>
      P b' ∧ b'.Sound t ∧ t.kind? b'.pos = some .directive ∧ b'.stack = b.stack.drop above :=
    (hP.forceCloseMany hs h (Frame.permits_closedByDirective name)).mono
      fun _ ⟨h', hs', hpos', hstack'⟩ => ⟨h', hs', hpos' ▸ hk, hstack'⟩
  cases place with
  | branch above =>
      exact (hclosed above).bind fun b₁ ⟨h₁, hs₁, hk₁, _⟩ => hP.marker b₁ .branch hs₁ h₁ hk₁
  | terminator above =>
      obtain ⟨f, below, rule, hdrop, hrule, -⟩ := exists_of_terminatedBlock? hplace
      refine (hclosed above).bind fun b₁ ⟨h₁, hs₁, hk₁, hstack₁⟩ => ?_
      have hinner : Inner t b₁.parent b₁ b₁ := .refl
      refine ((hP.marker b₁ .closer hs₁ h₁ hk₁).and (hinner.directiveLeaf (.inl rfl) .closer)).bind
        fun b₂ ⟨h₂, hinner₂⟩ => ?_
      have hstack₂ : b₂.stack = f :: below := hinner₂.stack_eq.trans (hstack₁.trans hdrop)
      refine (hP.leave b₂ f below h₂ hstack₂ ?_).bind fun _ h₃ => .ok h₃
      rw [hrule]
      rfl
  | opener rule => exact hP.openBlock b rule name hs h hk
  | strayTerminator =>
      exact (hP.marker b .closer hs h hk).bind fun b₁ h₁ => hP.reportTokens h₁ _ _ _ _ _
  | strayBranch =>
      exact (hP.marker b .branch hs h hk).bind fun b₁ h₁ => hP.reportTokens h₁ _ _ _ _ _
  | standalone =>
      refine (hP.marker b .standalone hs h hk).bind fun b₁ h₁ => ?_
      exact .ite (fun _ => hP.reportTokens h₁ _ _ _ _ _) fun _ => .ok h₁

theorem directive (hs : b.Sound t) (h : P b) (hk : t.kind? b.pos = some .directive) :
    Build.Returns (b.directive t) P := by
  rw [directive_eq]
  refine Build.Returns.any.bind fun name _ => ?_
  refine Build.Returns.any.bind fun arity _ => ?_
  refine Build.Returns.bind
    (P := fun b' => P b' ∧ b'.Sound t ∧ t.kind? b'.pos = some .directive) ?_
    fun b₁ ⟨h₁, hs₁, hk₁⟩ => hP.place hs₁ h₁ hk₁ name b.pos _ (suits_directivePlace _ _ _ _)
  refine .ite (fun _ => ?_) fun _ => .ok ⟨h, hs, hk⟩
  have hlt : b.pos < t.size := Tokenized.lt_size_of_kind? hk
  exact ((hP.reportTokens h _ _ _ _ _).and (hs.reportTokens _ hlt _ _).returns).mono
    fun _ ⟨h', hs', hpos', _⟩ => ⟨h', hs', hpos' ▸ hk⟩

/-! Content -/

theorem construct (hs : b.Sound t) (h : P b) {kind : TokenType} (hk : b.current? t = some kind) :
    Build.Returns (b.construct t kind) P := by
  by_cases hdirective : kind = .directive
  · subst hdirective
    exact hP.directive hs h hk
  by_cases hopens : kind = .lessThan
  · subst hopens
    by_cases hslash : t.kind? (b.pos + 1) = some .slash
    · rw [Builder.construct, if_pos hslash]
      exact hP.closingTag hs h hk hslash
    by_cases hname : t.kind? (b.pos + 1) = some .tagName
    · rw [Builder.construct, if_neg hslash, if_pos hname]
      exact hP.startTag b hs h hk hname
    · exact hP.plain b .lessThan hs h hk hdirective fun _ => ⟨hslash, hname⟩
  · exact hP.plain b kind hs h hk hdirective fun heq => absurd heq hopens

theorem contentItem (hs : b.Sound t) (h : P b) : Build.Returns (b.contentItem t) P := by
  unfold Builder.contentItem
  split
  · exact hP.extension b _ hs h ‹_›
  · split
    · exact hP.construct hs h ‹_›
    · exact .ok h

theorem items (hs : b.Sound t) (h : P b) : Build.Returns (b.items t) P := by
  fun_induction Builder.items t b with
  | case1 b hlt ih =>
      refine ((hs.contentItem hlt).returns.and (hP.contentItem hs h)).bind fun b₁ hitem => ?_
      obtain ⟨⟨hs₁, hlt₁⟩, h₁⟩ := hitem
      rw [dif_pos hlt₁]
      exact ih b₁ hlt₁ hs₁ h₁
  | case2 b _ => exact .ok h

theorem build (h : P initial) :
    Build.Returns (Builder.build t) fun b => P b ∧ b.stack = [] ∧ b.pos = t.size := by
  unfold Builder.build
  refine (sound_initial.items.returns.and (hP.items sound_initial h)).bind
    fun b₁ ⟨⟨hs₁, hpos₁⟩, h₁⟩ => ?_
  rw [← hpos₁]
  refine (hP.forceCloseMany hs₁ h₁ Frame.permits_closedByEnd).bind
    fun b₂ ⟨h₂, hs₂, hpos₂, hstack₂⟩ => ?_
  refine ((hP.finish b₂ hs₂ h₂).and (returns_finishAt b₂ root b₂.pos)).mono
    fun b' ⟨h', _, hb'⟩ => ⟨h', ?_, ?_⟩
  · rw [hb', hstack₂, List.drop_length]
  · rw [hb', ← hpos₂]

end Upheld

structure CalmlyUpheld (t : Tokenized) (K : NodeKind → Prop) (P : Builder → Prop) : Prop where
  calm : ∀ b b', P b → Calm K b b' → P b'
  close : ∀ b reason context, b.Sound t → P b → Frame.Permits b.stack reason →
    Build.Returns (b.forceClose t reason b.pos context) P
  pair : ∀ b f below opened name n, b.Sound t → P b → b.stack = f :: below →
    f.kind = .element opened → sameName opened name → t.ClosingTagAt b.pos name → 3 ≤ n →
    Build.Returns (b.closeElement t n) P
  leave : ∀ b f below, P b → b.stack = f :: below → f.blockRule?.isSome →
    Build.Returns (b.popFrame b.pos) (P ·.2)
  startTag : ∀ b, b.Sound t → P b → t.kind? b.pos = some .lessThan →
    t.kind? (b.pos + 1) = some .tagName → Build.Returns (b.startTag t) P
  enter : ∀ b b' f, P b → Calm K b b' → b.nodes.size ≤ f.node →
    (slot b'.nodes f.node).kind = .directiveBlock → f.blockRule?.isSome → P (b'.pushFrame f)

namespace CalmlyUpheld

variable (hP : CalmlyUpheld t K P)
  (hK : ∀ kind : NodeKind, kind ≠ .element → kind ≠ .closingElementName → K kind)
include hK

theorem of_isPlain {kind : NodeKind} (h : kind.isPlain) : K kind := by
  apply hK <;> rintro rfl <;> cases h

include hP

theorem of_inner (h : P b) {x : Build Builder} (hx : Build.Returns x (Inner t b.parent b)) :
    Build.Returns x P :=
  hx.mono fun b' h' => hP.calm b b' h <|
    (Calm.refl b).inner h' (.inl b.parent_mem_openPath) fun _ => of_isPlain hK

theorem openBlock (h : P b) (rule : BlockRule) (name : String) :
    Build.Returns (b.openBlock t rule name) P := by
  unfold Builder.openBlock
  refine Build.Returns.any.bind fun _ _ => ?_
  have hk : K .directiveBlock := hK _ nofun nofun
  refine (((Calm.refl b).startIn (.inl b.parent_mem_openPath) hk).and
    (startIn_starts b b.parent .directiveBlock).returns).bind fun ⟨block, b₁⟩ hstarted => ?_
  obtain ⟨⟨h₁, hnew⟩, hstarts⟩ := hstarted
  have hinner : Inner t block b₁ b₁ := .refl
  refine (hinner.directiveLeaf (.inl rfl) .opener).bind fun b₂ h₂ => .ok ?_
  have hlt : block < b₁.nodes.size := by
    rw [hstarts.size, hstarts.id_eq]
    exact Nat.lt_succ_self _
  have hcalm := h₁.inner h₂ (.inr hnew) fun _ => of_isPlain hK
  refine hP.enter b b₂ ⟨block, .directive rule name⟩ h hcalm hnew ?_ rfl
  exact (h₂.extends.kind block hlt).trans hstarts.kind_eq

theorem construct (h : P b) {kind : TokenType} (hdirective : kind ≠ .directive)
    (hopens : kind = .lessThan →
      t.kind? (b.pos + 1) ≠ some .slash ∧ t.kind? (b.pos + 1) ≠ some .tagName) :
    Build.Returns (b.construct t kind) P := by
  have hinner : Inner t b.parent b b := .refl
  have hquiet {x : Build Builder} (hx : Build.Returns x (Inner t b.parent b)) :
      Build.Returns x P := hP.of_inner hK h hx
  unfold Builder.construct
  split
  · rw [if_neg (hopens rfl).1, if_neg (hopens rfl).2]
    exact hquiet (hinner.text (.inl rfl))
  · exact hquiet (hinner.echo (.inl rfl) rfl _ _)
  · exact hquiet (hinner.echo (.inl rfl) rfl _ _)
  · exact hquiet (hinner.echo (.inl rfl) rfl _ _)
  · exact hquiet (hinner.delimited (.inl rfl) rfl _ _ _)
  · exact hquiet (hinner.delimited (.inl rfl) rfl _ _ _)
  · exact hquiet (hinner.single (.inl rfl) rfl 1)
  · exact hquiet (hinner.single (.inl rfl) rfl 1)
  · exact hquiet (hinner.single (.inl rfl) rfl 1)
  · exact hquiet (hinner.delimited (.inl rfl) rfl _ _ _)
  · exact hquiet (hinner.delimited (.inl rfl) rfl _ _ _)
  · exact ((Calm.refl b).verbatim (hK _ nofun nofun)).mono fun b' h' => hP.calm b b' h h'
  · exact absurd rfl hdirective
  · exact hquiet (hinner.text (.inl rfl))

theorem upheld
    (hleaf : ∀ (b : Builder) (leaf : Leaf), b.extensionLeaf? t = some leaf → K leaf.kind) :
    Upheld t P where
  report b d h := hP.calm b _ h ((Calm.refl b).report d)
  close := hP.close
  pair b f below opened name hs h hstack hkind hsame htag := by
    have hstop := (closingTagEnd_bounds (t := t) (i := b.pos + 3) htag.lt_size).1
    exact hP.pair b f below opened name _ hs h hstack hkind hsame htag (by omega)
  stray b name _ h _ := by
    have hk : K .strayClosingTag := hK _ nofun nofun
    exact ((Calm.refl b).leaf (.inl b.parent_mem_openPath) hk _).mono
      fun (_, b') ⟨h', _⟩ => hP.calm b b' h h'
  marker b role _ h _ := hP.of_inner hK h (Inner.refl.directiveLeaf (.inl rfl) role)
  leave := hP.leave
  openBlock b rule name _ h _ := hP.openBlock hK h rule name
  startTag := hP.startTag
  plain b kind _ h _ hdirective hopens := hP.construct hK h hdirective hopens
  extension b leaf _ h hclaims := by
    unfold Builder.extensionLeaf
    refine ((Calm.refl b).leaf (.inl b.parent_mem_openPath) (hleaf b leaf hclaims) _).bind
      fun ⟨id, b₁⟩ ⟨h₁, hid⟩ => ?_
    exact (h₁.setData hid leaf.data).mono fun b' h' => hP.calm b b' h h'
  finish b _ h := by
    have hroot : root ∈ b.openPath := List.mem_append_right _ List.mem_cons_self
    exact ((Calm.refl b).finishAt (.inr hroot) b.pos).mono fun b' h' => hP.calm b b' h h'

end CalmlyUpheld
end Builder
end BladeTree
