import BladeTree.Proofs.Tree.Accounts
import BladeTree.Proofs.Tree.Admission

namespace BladeTree
namespace Builder

open Ledger

variable {t : Tokenized} {b b' : Builder} {p id first : Nat} {f : Frame} {reason : ClosedBy}

/-! Frames that end -/

theorem tokenStart_of_mark {kind : FrameKind} (h : b.ledger.mark id = some (kind.mark first)) :
    (slot b.nodes id).tokenStart = first := by
  have hmark : (slot b.nodes id).mark? = some (kind.mark first) := h
  unfold FlatNode.mark? at hmark
  split at hmark <;> cases kind <;> cases hmark <;> rfl

theorem endAt_of_mark {L : Ledger} {k : FrameKind} (h : L.mark id = some (k.mark first))
    (stop : Nat) : (L.mark id).map (·.endAt stop) = L.mark id := by
  rw [h]
  cases k <;> rfl

def settle (t : Tokenized) (b : Builder) (f : Frame) (reason : ClosedBy) (stop : Nat)
    (context : Option String) : Build Builder := do
  let node ← b.node f.node
  match f.kind with
  | .element name =>
    let b' ← b.setFlag f.node .syntheticClose
    if reason.isImplied then return b'
    b'.reportTokens t .unclosedElement node.tokenStart (min (node.tokenStart + 2) stop) name
      context
  | .directive _ name =>
    let markerEnd ← match node.firstChild with
      | some marker => (·.tokenEnd) <$> b.node marker
      | none => pure (node.tokenStart + 1)
    b.reportTokens t .unclosedDirective node.tokenStart (min markerEnd stop) name context

theorem forceClose_eq (b : Builder) (reason : ClosedBy) (stop : Nat) (context : Option String) :
    b.forceClose t reason stop context = (do
      match ← b.popFrame stop with
      | (none, b') => return b'
      | (some f, b') =>
        settle t { b' with metadata := b'.metadata.setClosedBy f.node reason } f reason stop
          context) :=
  rfl

theorem balanced_settle {L : Ledger} (h : L.Balanced t p) (hoff : ∀ g ∈ L.stack, g.node ≠ f.node)
    (hmark : L.mark f.node = some (f.kind.mark first)) (hreason : L.reason f.node = none)
    (hledger : b.ledger = L.setReason f.node reason) (stop : Nat) (context : Option String) :
    Build.Returns (b.settle t f reason stop context) fun b' =>
      b'.ledger.Balanced t p ∧ b'.pos = b.pos := by
  have hold : L.owed? t f.node = none := by
    rw [owed?_of_mark hmark, hreason]
    rfl
  have hmark' : (L.setReason f.node reason).mark f.node = some (f.kind.mark first) := hmark
  have howed : (L.setReason f.node reason).owed? t f.node = f.kind.unclosed? reason := by
    rw [owed?_of_mark hmark', reason_setReason_self]
    rfl
  have hreport {b₁ : Builder} {kind : DiagnosticKind} (hkind : f.kind.unclosed? reason = some kind)
      (hledger₁ : b₁.ledger = L.setReason f.node reason) (hpos₁ : b₁.pos = b.pos) (j : Nat)
      (name : String) :
      Build.Returns (b₁.reportTokens t kind first j name context) fun b' =>
        b'.ledger.Balanced t p ∧ b'.pos = b.pos := by
    refine (ledger_reportTokens b₁ kind first j name context).mono
      fun b' ⟨hpos', r, hr, hspan, hledger'⟩ => ⟨?_, hpos'.trans hpos₁⟩
    subst hr
    have hanswers : (L.setReason f.node reason).Answers t r f.node :=
      ⟨howed.trans hkind, _, hmark', by
        rw [Tokenized.returns_span _ _ _ hspan]
        cases f.kind <;> rfl⟩
    rw [hledger', isRecovery_of_isUnclosed (isUnclosed_of_owed? hanswers.1), if_pos rfl, hledger₁]
    exact h.setReason_report hoff hold hanswers
  have hstart : (slot b.nodes f.node).tokenStart = first :=
    tokenStart_of_mark (by rw [hledger]; exact hmark')
  unfold settle
  refine (returns_node b f.node).bind fun node ⟨_, hnode⟩ => ?_
  subst hnode
  rw [hstart]
  cases hkind : f.kind with
  | element name =>
      rw [hkind] at hreport howed
      refine (ledger_setFlag b f.node .syntheticClose).bind fun b₁ ⟨hpos₁, hledger₁⟩ => ?_
      refine .ite (fun himplied => .ok ⟨?_, hpos₁⟩) fun hreported => ?_
      · rw [hledger₁, hledger]
        refine h.setReason hoff (by rw [hmark]; exact Option.some_ne_none _) hold ?_
        rw [howed]
        exact if_pos himplied
      · exact hreport (if_neg hreported) (hledger₁.trans hledger) hpos₁ _ _
  | directive rule name =>
      rw [hkind] at hreport
      simp only
      split
      · exact Build.Returns.any.bind fun _ _ => hreport rfl hledger rfl _ _
      · exact hreport rfl hledger rfl _ _

section Balanced

variable (h : b.ledger.Balanced t p)
include h

theorem balanced_popFrame (stop : Nat) :
    Build.Returns (b.popFrame stop) fun (_, b') => b'.ledger.Balanced t p ∧ b'.pos = b.pos := by
  cases hs : b.stack with
  | nil =>
      unfold popFrame
      rw [hs]
      exact .ok ⟨h, rfl⟩
  | cons f below =>
      obtain ⟨-, first, hmark⟩ := h.orderly.frames f (by rw [ledger, hs]; exact List.mem_cons_self)
      refine (ledger_popFrame hs stop (endAt_of_mark hmark stop)).mono
        fun ⟨_, b'⟩ ⟨_, hpos, hledger⟩ => ⟨?_, hpos⟩
      rw [hledger]
      exact h.leave hs

theorem balanced_forceClose (reason : ClosedBy) (stop : Nat) (context : Option String) :
    Build.Returns (b.forceClose t reason stop context) fun b' =>
      b'.ledger.Balanced t p ∧ b'.pos = b.pos := by
  rw [forceClose_eq]
  cases hs : b.stack with
  | nil =>
      unfold popFrame
      rw [hs]
      exact .ok ⟨h, rfl⟩
  | cons f below =>
      obtain ⟨hreason, first, hmark⟩ :=
        h.orderly.frames f (by rw [ledger, hs]; exact List.mem_cons_self)
      refine (ledger_popFrame hs stop (endAt_of_mark hmark stop)).bind
        fun ⟨popped, b₁⟩ ⟨hpopped, hpos₁, hledger₁⟩ => ?_
      subst hpopped
      refine (balanced_settle (h.leave hs) (fun g hg => h.orderly.ne_of_mem_below hs hg) hmark
        hreason ?_ stop context).mono fun b' ⟨hbalanced, hpos⟩ => ⟨hbalanced, hpos.trans hpos₁⟩
      rw [ledger_setClosedBy, hledger₁]

theorem balanced_forceCloseMany (close : List Frame → ClosedBy × Option String) (stop n : Nat) :
    Build.Returns (forceCloseMany t close stop n b) fun b' =>
      b'.ledger.Balanced t p ∧ b'.pos = b.pos := by
  induction n generalizing b with
  | zero => exact .ok ⟨h, rfl⟩
  | succ n ih =>
      refine (balanced_forceClose h _ stop _).bind fun b₁ ⟨h₁, hpos₁⟩ => ?_
      exact (ih h₁).mono fun b' ⟨h', hpos'⟩ => ⟨h', hpos'.trans hpos₁⟩

theorem balanced_closeForSibling (name : String) :
    Build.Returns (b.closeForSibling t name) fun b' =>
      b'.ledger.Balanced t p ∧ b'.pos = b.pos := by
  unfold closeForSibling
  split
  · exact .ok ⟨h, rfl⟩
  · refine (balanced_forceCloseMany h _ _ _).bind fun b₁ ⟨h₁, hpos₁⟩ => ?_
    exact (balanced_forceClose h₁ _ _ _).mono fun b' ⟨h', hpos'⟩ => ⟨h', hpos'.trans hpos₁⟩

theorem balanced_inner {q : Nat} (hinner : Inner t q b b') : b'.ledger.Balanced t (p + 1) := by
  rw [hinner.ledger_eq]
  exact h.mono (Nat.le_succ p)

end Balanced

/-! Constructs -/

theorem entered_startIn (h : b.ledger.Balanced t b.pos) (q : Nat) (kind : NodeKind)
    (frame : FrameKind) (hk : (FlatNode.unlinked kind b.pos).mark? = some (frame.mark b.pos)) :
    Build.Returns (b.startIn q kind) fun (id, b') =>
      b'.ledger.Entered t (b.pos + 1) id (frame.mark b.pos) := by
  refine (ledger_startIn b q kind).mono fun ⟨id, b'⟩ ⟨hid, _, hledger⟩ => ?_
  have hnone : b.ledger.mark id = none := mark_eq_none hid.ge
  simp only [hledger, hk]
  refine h.entered hnone (by cases frame <;> rfl) (by cases frame <;> nofun) ?_
  rw [owed?_of_mark (mark_setMark_self _ _ _)]
  have hreason : b.ledger.reason id = none := h.orderly.closed id hnone
  exact congrArg (Option.bind · frame.unclosed?) hreason

theorem balanced_pushFrame (h : b.ledger.Entered t p f.node (f.kind.mark first)) :
    (b.pushFrame f).ledger.Balanced t p := by
  rw [ledger_pushFrame]
  exact h.push

theorem balanced_complain {kind : DiagnosticKind} (h : b.ledger.Balanced t p)
    (hkind : kind.isStray) (stop : Nat) (detail : String) (context : Option String) :
    Build.Returns (b.reportTokens t kind p stop detail context) (·.ledger.Balanced t (p + 1)) := by
  refine (ledger_reportTokens b kind p stop detail context).mono
    fun b' ⟨_, r, hr, hspan, hledger⟩ => ?_
  subst hr
  rw [hledger, isRecovery_of_isStray hkind, if_pos rfl]
  exact h.complain hkind hspan

/-! Elements -/

theorem balanced_unterminatedTag {name : String}
    (h : b.ledger.Entered t p id (.element first)) :
    Build.Returns (b.unterminatedTag t id first name) (·.ledger.Balanced t p) := by
  have hmark : b.ledger.mark id = some ((FrameKind.element name).mark first) := h.mark
  unfold unterminatedTag
  refine (ledger_setFlag b id _).bind fun b₁ ⟨_, hledger₁⟩ => ?_
  refine (ledger_setFlag b₁ id _).bind fun b₂ ⟨_, hledger₂⟩ => ?_
  have hclosed := ledger_setClosedBy b₂ id .unterminatedStartTag
  rw [hledger₂.trans hledger₁] at hclosed
  refine Build.Returns.bind (ledger_finishAt_of_endAt _ ?_) fun b₃ ⟨_, hledger₃⟩ => ?_
  · rw [hclosed]
    exact endAt_of_mark hmark _
  refine (ledger_reportTokens b₃ .unclosedElement first _ name _).mono
    fun b' ⟨_, r, hr, hspan, hledger'⟩ => ?_
  rw [hledger', hledger₃, hclosed]
  refine h.balanced.setReason_report h.off ?_ ⟨?_, _, hmark, Tokenized.returns_span _ _ _ hspan⟩
  · rw [owed?_of_mark hmark, h.reason]
    rfl
  · rw [owed?_of_mark (L := b.ledger.setReason id _) hmark, reason_setReason_self, hr]
    rfl

theorem balanced_emptyElement {name : String} {selfClosed : Bool}
    (h : b.ledger.Entered t p id (.element first)) :
    Build.Returns (b.emptyElement id name selfClosed) (·.ledger.Balanced t p) := by
  have hflag (b₁ : Builder) (c : Bool) (flag : ElementFlag) :
      Build.Returns (b₁.setFlagIf c id flag) (·.ledger = b₁.ledger) :=
    .ite (fun _ => (ledger_setFlag b₁ id flag).mono fun _ h => h.2) fun _ => .ok rfl
  unfold emptyElement
  refine (hflag b selfClosed .selfClosing).bind fun b₁ hledger₁ => ?_
  refine (hflag b₁ (isVoidElement name) .void).bind fun b₂ hledger₂ => ?_
  refine (ledger_finishAt_of_endAt _ ?_).mono fun b' ⟨_, hledger'⟩ => ?_
  · rw [hledger₂, hledger₁]
    exact endAt_of_mark (k := .element name) h.mark _
  · rw [hledger', hledger₂, hledger₁]
    exact h.balanced

theorem entered_openTag (h : b.ledger.Balanced t b.pos) :
    Build.Returns (b.openTag t) fun (_, element, _, b') =>
      b'.ledger.Entered t (b.pos + 1) element (.element b.pos) := by
  unfold openTag
  refine Build.Returns.any.bind fun name _ => ?_
  refine (balanced_closeForSibling h name).bind fun b₁ ⟨h₁, hpos₁⟩ => ?_
  rw [← hpos₁] at h₁
  refine (entered_startIn h₁ b₁.parent .element (.element name) rfl).bind
    fun ⟨element, b₂⟩ h₂ => ?_
  have hinner : Inner t element b₂ b₂ := .refl
  refine Build.Returns.bind (fun _ => hinner.bump) fun b₃ h₃ => ?_
  refine (h₃.leaf (.inl rfl) rfl 1).bind fun ⟨_, b₄⟩ ⟨h₄, _⟩ => ?_
  refine (h₄.eatGenericArgs b.pos).bind fun b₅ h₅ => ?_
  refine h₅.tagItems.bind fun ⟨tagEnd, b₆⟩ h₆ => .ok ?_
  have hledger : b₆.ledger = b₂.ledger := h₆.ledger_eq
  simp only [hledger, ← hpos₁]
  exact h₂

theorem balanced_startTag (h : b.ledger.Balanced t b.pos) :
    Build.Returns (b.startTag t) (·.ledger.Balanced t (b.pos + 1)) := by
  rw [startTag_eq]
  refine (entered_openTag h).bind fun ⟨name, element, tagEnd, b'⟩ h' => ?_
  refine .ite (fun _ => balanced_unterminatedTag h') fun _ => ?_
  refine .ite (fun _ => balanced_emptyElement h') fun _ => ?_
  exact Build.Returns.any.bind fun _ _ =>
    .ok (balanced_pushFrame (f := ⟨element, .element name⟩) h')

theorem balanced_strayClosingTag (h : b.ledger.Balanced t b.pos) {stop : Nat}
    (hstop : b.pos ≤ stop) (blocked : Bool) :
    Build.Returns (b.strayClosingTag t stop blocked) (·.ledger.Balanced t (b.pos + 1)) := by
  have hleaf : Build.Returns (b.leaf t b.parent .strayClosingTag (stop - b.pos)) fun (id, b') =>
      b.ledger.mark id = none ∧ b'.ledger = b.ledger.setMark id (some (.stray b.pos stop)) := by
    unfold leaf
    refine (ledger_startIn b b.parent .strayClosingTag).bind
      fun ⟨id, b₁⟩ ⟨hid, hpos₁, hledger₁⟩ => ?_
    refine (ledger_bumpMany b₁ (stop - b.pos)).bind fun b₂ ⟨hpos₂, hledger₂⟩ => ?_
    refine (ledger_finishAt b₂ id b₂.pos).bind fun b₃ ⟨_, hledger₃⟩ => .ok ⟨mark_eq_none hid.ge, ?_⟩
    rw [hledger₃, hledger₂, hledger₁, setMark_setMark, mark_setMark_self,
      show b₂.pos = stop by omega]
    rfl
  unfold strayClosingTag
  refine hleaf.bind fun ⟨id, b₁⟩ ⟨hnone, hledger₁⟩ => ?_
  have hreport {kind : DiagnosticKind} (hkind : kind.isStray) (detail : String) :
      Build.Returns (b₁.reportTokens t kind b.pos stop detail none)
        (·.ledger.Balanced t (b.pos + 1)) := by
    refine (ledger_reportTokens b₁ kind b.pos stop detail none).mono
      fun b' ⟨_, r, hr, hspan, hledger⟩ => ?_
    subst hr
    rw [hledger, isRecovery_of_isStray hkind, if_pos rfl, hledger₁]
    exact h.setMark_complain hnone hkind hspan
  refine Build.Returns.any.bind fun span _ => ?_
  exact .ite (fun _ => hreport rfl _) fun _ => hreport rfl _

theorem le_closingTagEnd (t : Tokenized) (i : Nat) : i ≤ closingTagEnd t i := by
  fun_induction closingTagEnd t i with
  | case1 i _ _ ih => exact (Nat.le_succ i).trans ih
  | case2 i _ _ ih => exact (Nat.le_succ i).trans ih
  | case3 i => exact Nat.le_succ i
  | case4 => exact le_rfl
  | case5 => exact le_rfl

theorem balanced_closingTag (h : b.ledger.Balanced t b.pos) :
    Build.Returns (b.closingTag t) (·.ledger.Balanced t (b.pos + 1)) := by
  have hclose {b₁ : Builder} (h₁ : b₁.ledger.Balanced t b.pos) (n : Nat) : Build.Returns (do
      let (_, b') ← b₁.leaf t b₁.parent .closingElementName n
      let b' ← b'.setFlag b₁.parent .paired
      return (← b'.popFrame b'.pos).2) (·.ledger.Balanced t (b.pos + 1)) := by
    refine (ledger_leaf b₁ b₁.parent rfl n).bind fun ⟨_, b₂⟩ ⟨_, hledger₂⟩ => ?_
    refine (ledger_setFlag b₂ b₁.parent .paired).bind fun b₃ ⟨_, hledger₃⟩ => ?_
    rw [← hledger₂, ← hledger₃] at h₁
    refine (balanced_popFrame h₁ b₃.pos).bind fun ⟨_, b₄⟩ ⟨h₄, _⟩ => .ok ?_
    exact h₄.mono (Nat.le_succ _)
  have hstop : b.pos ≤ closingTagEnd t (b.pos + 3) :=
    (Nat.le_add_right _ 3).trans (le_closingTagEnd t _)
  unfold closingTag
  refine Build.Returns.any.bind fun name _ => ?_
  simp only
  split
  · exact balanced_strayClosingTag h hstop true
  · exact balanced_strayClosingTag h hstop false
  · refine (balanced_forceCloseMany h _ _ _).bind fun b₁ ⟨h₁, hpos₁⟩ => ?_
    split
    · refine (ledger_reportTokens b₁ .mismatchedClosingTag _ _ _ _).bind
        fun b₂ ⟨_, _, _, _, hledger₂⟩ => ?_
      rw [← show b₂.ledger = b₁.ledger from hledger₂] at h₁
      exact hclose h₁ _
    · exact hclose h₁ _

/-! Verbatim regions -/

theorem returns_eat (b : Builder) (kind : TokenType) :
    Build.Returns (b.eat t kind) fun (eaten, b') => (eaten ↔ t.kind? b.pos = some kind) ∧
      b'.ledger = b.ledger ∧ b'.pos = if eaten then b.pos + 1 else b.pos := by
  have hat : b.isAt t kind ↔ t.kind? b.pos = some kind := beq_iff_eq
  unfold eat
  refine .ite (fun h => ?_) fun h => .ok ⟨by simp [← hat, h], rfl, rfl⟩
  refine (returns_bump b).bind fun b' ⟨_, hb'⟩ => .ok ?_
  subst hb'
  exact ⟨by simp [← hat, h], rfl, rfl⟩

theorem balanced_verbatim (h : b.ledger.Balanced t b.pos) (q : Nat)
    (hstart : t.kind? b.pos = some .verbatimStart) :
    Build.Returns (b.verbatim t q) (·.ledger.Balanced t (b.pos + 1)) := by
  unfold verbatim
  refine (ledger_startIn b q .verbatim).bind fun ⟨id, b₁⟩ ⟨hid, hpos₁, hledger₁⟩ => ?_
  refine (returns_bump b₁).bind fun b₂ ⟨_, hb₂⟩ => ?_
  refine (returns_eat b₂ .text).bind fun ⟨text, b₃⟩ ⟨htext, hledger₃, hpos₃⟩ => ?_
  refine (returns_eat b₃ .verbatimEnd).bind fun ⟨closed, b₄⟩ ⟨hclosed, hledger₄, hpos₄⟩ => ?_
  refine (ledger_finishAt b₄ id b₄.pos).bind fun b₅ ⟨_, hledger₅⟩ => ?_
  have hpos₂ : b₂.pos = b.pos + 1 := by rw [hb₂, hpos₁]
  have hledger₂ : b₂.ledger = b₁.ledger := by rw [hb₂]; rfl
  have hledger : b₅.ledger = b.ledger.setMark id (some (.verbatim b.pos b₄.pos)) := by
    rw [hledger₅, hledger₄, hledger₃, hledger₂, hledger₁, setMark_setMark, mark_setMark_self]
    rfl
  have hends : t.endsVerbatim b.pos b₄.pos = closed := by
    refine Bool.eq_iff_iff.2 (Tokenized.endsVerbatim_iff.trans ⟨?_, fun hc => ?_⟩)
    · rintro ⟨k, hle, hlt, hk⟩
      by_contra hc
      rw [hpos₄, if_neg hc] at hlt
      have hne : k ≠ b.pos := by
        rintro rfl
        cases hstart.symm.trans hk
      cases text with
      | false =>
          simp only [Bool.false_eq_true, if_false] at hpos₃
          omega
      | true =>
          simp only [if_true] at hpos₃
          obtain rfl : k = b₂.pos := by omega
          cases (htext.1 rfl).symm.trans hk
    · refine ⟨b₃.pos, ?_, ?_, hclosed.1 hc⟩
      · rw [hpos₃]
        split <;> omega
      · rw [hpos₄, if_pos hc]
        exact Nat.lt_succ_self _
  have hnone : b.ledger.mark id = none := mark_eq_none hid.ge
  refine .ite (fun hc => .ok ?_) fun hc => ?_
  · rw [hledger]
    refine (h.entered (m := .verbatim b.pos b₄.pos) hnone rfl nofun ?_).balanced
    unfold owed?
    rw [mark_setMark_self]
    exact if_pos (hends.trans hc)
  · refine (ledger_reportTokens b₅ .unclosedDirective _ _ _ _).mono
      fun b' ⟨_, r, hr, hspan, hledger'⟩ => ?_
    rw [hledger', hledger]
    refine h.setMark_report (m := .verbatim b.pos b₄.pos) hnone rfl nofun
      ⟨?_, _, mark_setMark_self _ _ _, ?_⟩
    · unfold owed?
      rw [mark_setMark_self, hr]
      exact if_neg (by rw [hends]; exact hc)
    · exact Tokenized.returns_span _ _ _ hspan

/-! Directives -/

theorem balanced_openBlock {b : Builder} (h : b.ledger.Balanced t b.pos) (rule : BlockRule)
    (name : String) :
    Build.Returns (b.openBlock t rule name) (·.ledger.Balanced t (b.pos + 1)) := by
  unfold openBlock
  refine Build.Returns.any.bind fun _ _ => ?_
  refine (entered_startIn h b.parent .directiveBlock (.directive rule name) rfl).bind
    fun ⟨block, b₁⟩ h₁ => ?_
  have hinner : Inner t block b₁ b₁ := .refl
  refine (hinner.directiveLeaf (.inl rfl) .opener).bind fun b₂ h₂ => .ok ?_
  have hentered : b₂.ledger.Entered t (b.pos + 1) block (.block b.pos) := by
    rw [h₂.ledger_eq]
    exact h₁
  exact balanced_pushFrame (f := ⟨block, .directive rule name⟩) hentered

theorem balanced_place (h : b.ledger.Balanced t b.pos) (name : String) (hasArgs : Bool)
    (place : DirectivePlace) :
    Build.Returns (b.place t name b.pos hasArgs place) (·.ledger.Balanced t (b.pos + 1)) := by
  have hleaf {b₁ : Builder} (role : DirectiveRole) :
      Build.Returns (b₁.directiveLeaf t b₁.parent role) (Inner t b₁.parent b₁) :=
    Inner.refl.directiveLeaf (.inl rfl) role
  cases place with
  | branch above =>
      refine (balanced_forceCloseMany h _ _ _).bind fun b₁ ⟨h₁, _⟩ => ?_
      exact (hleaf .branch).mono fun b' h' => balanced_inner h₁ h'
  | terminator above =>
      refine (balanced_forceCloseMany h _ _ _).bind fun b₁ ⟨h₁, _⟩ => ?_
      refine (hleaf .closer).bind fun b₂ h₂ => ?_
      refine (balanced_popFrame (balanced_inner h₁ h₂) _).bind fun ⟨_, b₃⟩ ⟨h₃, _⟩ => .ok h₃
  | opener rule => exact balanced_openBlock h rule name
  | strayTerminator =>
      refine (hleaf .closer).bind fun b₁ h₁ => ?_
      rw [← h₁.ledger_eq] at h
      exact balanced_complain h rfl _ _ _
  | strayBranch =>
      refine (hleaf .branch).bind fun b₁ h₁ => ?_
      rw [← h₁.ledger_eq] at h
      exact balanced_complain h rfl _ _ _
  | standalone =>
      refine (hleaf .standalone).bind fun b₁ h₁ => ?_
      refine .ite (fun _ => ?_) fun _ => .ok (balanced_inner h h₁)
      exact (h₁.missingArguments _ _ _).mono fun b' h' => balanced_inner h h'

theorem balanced_directive (h : b.ledger.Balanced t b.pos) :
    Build.Returns (b.directive t) (·.ledger.Balanced t (b.pos + 1)) := by
  rw [directive_eq]
  refine Build.Returns.any.bind fun name _ => ?_
  refine Build.Returns.any.bind fun arity _ => ?_
  refine Build.Returns.bind (P := fun b' => b'.ledger = b.ledger ∧ b'.pos = b.pos) ?_
    fun b₁ ⟨hledger₁, hpos₁⟩ => ?_
  · refine .ite (fun _ => ?_) fun _ => .ok ⟨rfl, rfl⟩
    exact (ledger_reportTokens b .missingContent _ _ _ _).mono
      fun b' ⟨hpos, _, _, _, hledger⟩ => ⟨hledger, hpos⟩
  · rw [← hledger₁, ← hpos₁] at h
    rw [← hpos₁]
    exact balanced_place h name _ _

/-! Content -/

theorem balanced_construct (h : b.ledger.Balanced t b.pos) {kind : TokenType}
    (hk : b.current? t = some kind) :
    Build.Returns (b.construct t kind) (·.ledger.Balanced t (b.pos + 1)) := by
  have hinner : Inner t b.parent b b := .refl
  have hquiet {x : Build Builder} (hx : Build.Returns x (Inner t b.parent b)) :
      Build.Returns x (·.ledger.Balanced t (b.pos + 1)) := hx.mono fun _ => balanced_inner h
  unfold construct
  split
  · refine .ite (fun _ => balanced_closingTag h) fun _ => ?_
    exact .ite (fun _ => balanced_startTag h) fun _ => hquiet (hinner.text (.inl rfl))
  · exact hquiet (hinner.echo (.inl rfl) rfl _ _)
  · exact hquiet (hinner.echo (.inl rfl) rfl _ _)
  · exact hquiet (hinner.echo (.inl rfl) rfl _ _)
  · exact hquiet (hinner.delimited (.inl rfl) rfl _ _ _)
  · exact hquiet (hinner.delimited (.inl rfl) rfl _ _ _)
  · exact hquiet (hinner.single (.inl rfl) rfl 1)
  · exact hquiet (hinner.single (.inl rfl) rfl 1)
  · exact hquiet (hinner.single (.inl rfl) rfl 1)
  · exact hquiet (hinner.delimited (.inl rfl) rfl _ _ _)
  · exact hquiet (hinner.delimited (.inl rfl) rfl _ _ _)
  · exact balanced_verbatim h _ hk
  · exact balanced_directive h
  · exact hquiet (hinner.text (.inl rfl))

theorem extensionLeaf?_eq_none (hext : t.options.treeExtensions = []) :
    b.extensionLeaf? t = none := by
  unfold extensionLeaf?
  rw [hext]
  rfl

theorem balanced_contentItem (hext : t.options.treeExtensions = [])
    (h : b.ledger.Balanced t b.pos) :
    Build.Returns (b.contentItem t) (·.ledger.Balanced t (b.pos + 1)) := by
  unfold contentItem
  rw [extensionLeaf?_eq_none hext]
  simp only
  split
  · exact balanced_construct h ‹_›
  · exact .ok (h.mono (Nat.le_succ _))

theorem balanced_items (hext : t.options.treeExtensions = [])
    (h : b.ledger.Balanced t b.pos) :
    Build.Returns (b.items t) fun b' => b'.ledger.Balanced t b'.pos := by
  fun_induction items t b with
  | case1 b hlt ih =>
      refine (balanced_contentItem hext h).bind fun b₁ h₁ => ?_
      split
      · rename_i hlt₁
        exact ih b₁ hlt₁ (h₁.mono hlt₁)
      · exact .fault
  | case2 b hge => exact .ok h

theorem balanced_initial (t : Tokenized) : initial.ledger.Balanced t 0 := by
  have hmark (id : Nat) : initial.ledger.mark id = none := by
    unfold ledger
    simp only [slot_initial]
    rfl
  have hno {id : Nat} {m : Landmark} {P : Prop} (hm : initial.ledger.mark id = some m) : P := by
    cases (hmark id).symm.trans hm
  refine ⟨⟨fun _ _ => hno, fun _ _ _ _ hi => hno hi, fun _ => nofun, .nil, fun _ _ => rfl⟩,
    ⟨[], .nil, fun id => ?_, .nil⟩, ⟨[], .nil, nofun, fun _ _ _ => hno, .nil⟩⟩
  rw [owed?_of_mark_eq_none (hmark id)]
  simp

/-- What is left open and what is out of place in a finished tree was reported, and nothing else. -/
theorem balanced_build (hext : t.options.treeExtensions = []) :
    Build.Returns (build t) fun b => b.ledger.Balanced t t.size := by
  have hroot {b : Builder} (hb : b.Sound t) :
      (b.ledger.mark root).map (·.endAt b.pos) = b.ledger.mark root := by
    have hmark : b.ledger.mark root = none := by
      have hkind := hb.document
      unfold ledger FlatNode.mark?
      simp only [root, hkind]
    rw [hmark]
    rfl
  unfold build
  have hitems := (sound_initial.items (t := t)).returns.and
    (balanced_items hext (balanced_initial t))
  refine hitems.bind fun b₁ ⟨⟨hsound₁, hpos₁⟩, h₁⟩ => ?_
  have hclosed := (hsound₁.forceCloseMany closedByEnd hpos₁.symm b₁.stack.length).returns.and
    (balanced_forceCloseMany h₁ closedByEnd t.size b₁.stack.length)
  refine hclosed.bind fun b₂ ⟨⟨hsound₂, _, _⟩, h₂, _⟩ => ?_
  refine (ledger_finishAt_of_endAt _ (hroot hsound₂)).mono fun b' ⟨_, hledger⟩ => ?_
  rw [hledger, ← hpos₁]
  exact h₂

end Builder
end BladeTree
