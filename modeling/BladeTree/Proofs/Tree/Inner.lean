import BladeTree.Proofs.Tree.Silent

namespace BladeTree

/-- The builder adds nodes of these kinds and ends them in one construct, without recovering. -/
def NodeKind.isPlain : NodeKind → Bool
  | .document | .element | .closingElementName | .directiveBlock | .verbatim | .strayClosingTag
  | .unassigned _ | .extension _ => false
  | _ => true

theorem NodeKind.isFrame_of_isPlain {kind : NodeKind} (h : kind.isPlain) :
    kind.isFrame = false := by
  cases kind <;> first | rfl | cases h

namespace DiagnosticKind

def isUnclosed : DiagnosticKind → Bool
  | unclosedElement | unclosedDirective => true
  | _ => false

def isStray : DiagnosticKind → Bool
  | unexpectedClosingTag | invalidNesting => true
  | _ => false

def isRecovery (kind : DiagnosticKind) : Bool := kind.isUnclosed || kind.isStray

end DiagnosticKind

namespace Builder

/-- `b` comes from `start` without leaving the node `q`: tokens are taken, plain nodes are added
under `q` or under attributes among them, only they are changed, and no recovery is reported. -/
inductive Inner (t : Tokenized) (q : Nat) (start : Builder) : Builder → Prop
  | refl : Inner t q start start
  | bump {b b' : Builder} : Inner t q start b → b.bump t = .ok b' → Inner t q start b'
  | node {b b' : Builder} {p id : Nat} {kind : NodeKind} : Inner t q start b →
      p = q ∨ start.nodes.size ≤ p ∧ (slot b.nodes p).kind = .attr → kind.isPlain →
      b.startIn p kind = .ok (id, b') → Inner t q start b'
  | finish {b b' : Builder} {id : Nat} : Inner t q start b → start.nodes.size ≤ id →
      b.finish id = .ok b' → Inner t q start b'
  | data {b b' : Builder} {id : Nat} {data : Int32} : Inner t q start b → start.nodes.size ≤ id →
      b.setData id data = .ok b' → Inner t q start b'
  | genericArgs {b : Builder} (offset : Nat) : Inner t q start b →
      Inner t q start { b with metadata := b.metadata.setGenericArgsOffset q offset }
  | report {b b' : Builder} {kind : DiagnosticKind} {i j : Nat} {detail : String}
      {context : Option String} : Inner t q start b → kind.isRecovery = false →
      b.reportTokens t kind i j detail context = .ok b' → Inner t q start b'

variable {t : Tokenized} {start b : Builder} {q p : Nat}

theorem returns_bump (b : Builder) :
    Build.Returns (b.bump t) fun b' => b.pos < t.size ∧ b' = { b with pos := b.pos + 1 } :=
  .ite (fun hlt => .ok ⟨hlt, rfl⟩) fun _ => .fault

theorem returns_report (b : Builder) (kind : DiagnosticKind) (i j : Nat) (detail : String)
    (context : Option String) :
    Build.Returns (b.reportTokens t kind i j detail context) fun b' =>
      ∃ span, t.span i j = .ok span ∧ b' = b.report (.detailed kind span detail context) :=
  Build.Returns.bind (fun _ => id) fun span hspan => .ok ⟨span, hspan, rfl⟩

/-! Constructs with delimiters -/

theorem returns_eatContent (b : Builder) (kind : TokenType) :
    Build.Returns (b.eatContent t kind) fun (_, b') => b.eat t kind = .ok (b.isAt t kind, b') := by
  unfold eatContent eat
  refine .ite (fun hat => ?_) fun hat => .ok ?_
  · refine Build.Returns.any.bind fun _ _ => ?_
    refine Build.Returns.bind (P := (b.bump t = .ok ·)) (fun _ => id) fun b' hb' => .ok ?_
    rw [if_pos hat, hb', hat]
    rfl
  · rw [if_neg hat, (Bool.not_eq_true _).mp hat]
    rfl

/-- From `b` to `b'` a node was started under `q`, its first token taken, its content and its end
eaten if they are there, and the node finished. Then what is amiss was reported. -/
inductive ReadsDelimited (t : Tokenized) (q : Nat) (nodeKind : NodeKind)
    (content stopType : TokenType) (b : Builder) : Builder → Prop
  | read {id : Nat} {b₁ b₂ b₃ b₄ b₅ : Builder} {ate closed : Bool} :
      b.startIn q nodeKind = .ok (id, b₁) → b₁.bump t = .ok b₂ →
      b₂.eat t content = .ok (ate, b₃) → b₃.eat t stopType = .ok (closed, b₄) →
      b₄.finish id = .ok b₅ → ReadsDelimited t q nodeKind content stopType b b₅
  | report {b' b'' : Builder} {kind : DiagnosticKind} {i j : Nat} {detail : String}
      {context : Option String} : ReadsDelimited t q nodeKind content stopType b b' →
      (nodeKind ≠ .verbatim → kind.isRecovery = false) →
      b'.reportTokens t kind i j detail context = .ok b'' →
      ReadsDelimited t q nodeKind content stopType b b''

theorem reads_echo (b : Builder) (q : Nat) (nodeKind : NodeKind) (stopType : TokenType)
    (delimiter : String) :
    Build.Returns (b.echo t q nodeKind stopType delimiter)
      (ReadsDelimited t q nodeKind .echoContent stopType b) := by
  unfold echo
  refine Build.Returns.bind (P := (b.startIn q nodeKind = .ok ·)) (fun _ => id)
    fun ⟨id, b₁⟩ h₁ => ?_
  refine Build.Returns.bind (P := (b₁.bump t = .ok ·)) (fun _ hb => hb) fun b₂ h₂ => ?_
  refine (returns_eatContent b₂ .echoContent).bind fun ⟨blank, b₃⟩ h₃ => ?_
  refine Build.Returns.bind (P := (b₃.eat t stopType = .ok ·)) (fun _ hb => hb)
    fun ⟨closed, b₄⟩ h₄ => ?_
  refine Build.Returns.bind (P := (b₄.finish id = .ok ·)) (fun _ hb => hb) fun b₅ h₅ => ?_
  have hread := ReadsDelimited.read h₁ h₂ h₃ h₄ h₅
  refine .ite (fun _ _ => hread.report fun _ => rfl) fun _ => ?_
  exact .ite (fun _ _ => hread.report fun _ => rfl) fun _ => .ok hread

theorem reads_delimited (b : Builder) (q : Nat) (nodeKind : NodeKind)
    (content stopType : TokenType) (endName : Option String) :
    Build.Returns (b.delimited t q nodeKind content stopType endName)
      (ReadsDelimited t q nodeKind content stopType b) := by
  unfold delimited
  refine Build.Returns.bind (P := (b.startIn q nodeKind = .ok ·)) (fun _ => id)
    fun ⟨id, b₁⟩ h₁ => ?_
  refine Build.Returns.bind (P := (b₁.bump t = .ok ·)) (fun _ hb => hb) fun b₂ h₂ => ?_
  refine Build.Returns.bind (P := (b₂.eat t content = .ok ·)) (fun _ hb => hb)
    fun ⟨ate, b₃⟩ h₃ => ?_
  refine Build.Returns.bind (P := (b₃.eat t stopType = .ok ·)) (fun _ hb => hb)
    fun ⟨closed, b₄⟩ h₄ => ?_
  refine Build.Returns.bind (P := (b₄.finish id = .ok ·)) (fun _ hb => hb) fun b₅ h₅ => ?_
  have hread := ReadsDelimited.read h₁ h₂ h₃ h₄ h₅
  cases endName with
  | none => exact .ok hread
  | some name => exact .ite (fun _ => .ok hread) fun _ _ => hread.report fun _ => rfl

theorem reads_verbatim (b : Builder) (q : Nat) :
    Build.Returns (b.verbatim t q) (ReadsDelimited t q .verbatim .text .verbatimEnd b) := by
  unfold verbatim
  refine Build.Returns.bind (P := (b.startIn q .verbatim = .ok ·)) (fun _ => id)
    fun ⟨id, b₁⟩ h₁ => ?_
  refine Build.Returns.bind (P := (b₁.bump t = .ok ·)) (fun _ hb => hb) fun b₂ h₂ => ?_
  refine Build.Returns.bind (P := (b₂.eat t .text = .ok ·)) (fun _ hb => hb)
    fun ⟨ate, b₃⟩ h₃ => ?_
  refine Build.Returns.bind (P := (b₃.eat t .verbatimEnd = .ok ·)) (fun _ hb => hb)
    fun ⟨closed, b₄⟩ h₄ => ?_
  refine Build.Returns.bind (P := (b₄.finish id = .ok ·)) (fun _ hb => hb) fun b₅ h₅ => ?_
  have hread := ReadsDelimited.read h₁ h₂ h₃ h₄ h₅
  exact .ite (fun _ => .ok hread) fun _ _ => hread.report fun hne => absurd rfl hne

/-! Steps that stay in a node -/

theorem size_of_startIn {kind : NodeKind} {id : Nat} {b' : Builder}
    (h : b.startIn p kind = .ok (id, b')) :
    id = b.nodes.size ∧ b'.nodes.size = b.nodes.size + 1 :=
  have hs := (startIn_starts b p kind).returns _ h
  ⟨hs.id_eq, hs.size⟩

theorem size_modify {id : Nat} {f : FlatNode → FlatNode} :
    Build.Returns (b.modify id f) (·.nodes.size = b.nodes.size) :=
  .ite (fun _ => .ok Array.size_modify) fun _ => .fault

theorem size_finish {id : Nat} : Build.Returns (b.finish id) (·.nodes.size = b.nodes.size) :=
  Build.Returns.any.bind fun _ _ => .ite (fun _ => size_modify) fun _ => .fault

theorem Inner.size_le (h : Inner t q start b) : start.nodes.size ≤ b.nodes.size := by
  induction h with
  | refl => exact le_rfl
  | bump _ hb ih =>
      obtain ⟨-, rfl⟩ := returns_bump _ _ hb
      exact ih
  | node _ _ _ hb ih => exact ih.trans ((size_of_startIn hb).2.symm ▸ Nat.le_succ _)
  | finish _ _ hb ih => exact ih.trans_eq (size_finish _ hb).symm
  | data _ _ hb ih => exact ih.trans_eq (size_modify _ hb).symm
  | genericArgs _ _ ih => exact ih
  | report _ _ hb ih =>
      obtain ⟨span, -, rfl⟩ := returns_report _ _ _ _ _ _ _ hb
      exact ih

theorem Inner.extends (h : Inner t q start b) : Extends start.nodes.size start b := by
  induction h with
  | refl => exact .refl le_rfl
  | bump _ hb ih => exact ih.bump.returns _ hb
  | node _ _ hk hb ih =>
      have hframe : NodeKind.isFrame _ = false := NodeKind.isFrame_of_isPlain hk
      exact ((ih.startIn _ hframe).returns _ hb).1
  | finish _ _ hb ih => exact (ih.finish _).returns _ hb
  | data _ hid hb ih => exact (ih.setData _ hid).returns _ hb
  | genericArgs _ _ ih => exact ih.metadata _
  | report _ _ hb ih => exact (ih.reportTokens _ _ _ _ _).returns _ hb

namespace Inner

variable (h : Inner t q start b)
include h

theorem eat (kind : TokenType) :
    Build.Returns (b.eat t kind) fun (_, b') => Inner t q start b' := by
  unfold Builder.eat
  refine .ite (fun _ => ?_) fun _ => .ok h
  exact Build.Returns.bind (fun _ => h.bump) fun _ h₁ => .ok h₁

theorem bumpMany (n : Nat) : Build.Returns (Builder.bumpMany t n b) (Inner t q start) := by
  induction n generalizing b with
  | zero => exact .ok h
  | succ n ih => exact Build.Returns.bind (fun _ => h.bump) fun _ h₁ => ih h₁

variable (hp : p = q ∨ start.nodes.size ≤ p ∧ (slot b.nodes p).kind = .attr)
include hp

theorem startIn {kind : NodeKind} (hk : kind.isPlain) :
    Build.Returns (b.startIn p kind) fun (id, b') =>
      Inner t q start b' ∧ start.nodes.size ≤ id :=
  fun _ hb => ⟨h.node hp hk hb, h.size_le.trans_eq (size_of_startIn hb).1.symm⟩

theorem leaf {kind : NodeKind} (hk : kind.isPlain) (n : Nat) :
    Build.Returns (b.leaf t p kind n) fun (id, b') =>
      Inner t q start b' ∧ start.nodes.size ≤ id := by
  unfold Builder.leaf
  refine (h.startIn hp hk).bind fun ⟨id, b₁⟩ ⟨h₁, hid⟩ => ?_
  refine (h₁.bumpMany n).bind fun b₂ h₂ => ?_
  exact Build.Returns.bind (fun _ => h₂.finish hid) fun b₃ h₃ => .ok ⟨h₃, hid⟩

theorem text : Build.Returns (b.text t p) (Inner t q start) :=
  (h.leaf hp rfl _).bind fun _ h₁ => .ok h₁.1

theorem single {kind : NodeKind} (hk : kind.isPlain) (n : Nat) :
    Build.Returns (do return (← b.leaf t p kind n).2) (Inner t q start) :=
  (h.leaf hp hk n).bind fun _ h₁ => .ok h₁.1

theorem delimitedPart {kind : NodeKind} {content stopType : TokenType} {b' : Builder}
    (hk : kind.isPlain) (hread : ReadsDelimited t p kind content stopType b b') :
    Inner t q start b' := by
  induction hread with
  | read h₁ h₂ h₃ h₄ h₅ =>
      obtain ⟨hstarted, hid⟩ := h.startIn hp hk _ h₁
      have hate := (hstarted.bump h₂).eat _ _ h₃
      exact Inner.finish (hate.eat _ _ h₄) hid h₅
  | report _ hkind hb ih => exact ih.report (hkind (by rintro rfl; cases hk)) hb

theorem echo {kind : NodeKind} (hk : kind.isPlain) (stopType : TokenType) (delimiter : String) :
    Build.Returns (b.echo t p kind stopType delimiter) (Inner t q start) :=
  (reads_echo b p kind stopType delimiter).mono fun _ => h.delimitedPart hp hk

theorem delimited {kind : NodeKind} (hk : kind.isPlain) (content stopType : TokenType)
    (endName : Option String) :
    Build.Returns (b.delimited t p kind content stopType endName) (Inner t q start) :=
  (reads_delimited b p kind content stopType endName).mono fun _ => h.delimitedPart hp hk

theorem directiveLeaf (role : DirectiveRole) :
    Build.Returns (b.directiveLeaf t p role) (Inner t q start) := by
  unfold Builder.directiveLeaf
  exact (h.leaf hp rfl _).bind fun ⟨id, b₁⟩ ⟨h₁, hid⟩ _ => h₁.data hid

omit hp

theorem missingArguments (name : String) (first stop : Nat) :
    Build.Returns (b.missingArguments t name first stop) (Inner t q start) :=
  fun _ => h.report rfl

/-! Start tags -/

theorem eatGenericArgs (first : Nat) :
    Build.Returns (b.eatGenericArgs t q first) (Inner t q start) := by
  unfold Builder.eatGenericArgs
  exact .ite (fun _ _ => (h.genericArgs _).bump) fun _ => .ok h

theorem eatSpaceBefore (accepts : TokenType → Bool) :
    Build.Returns (b.eatSpaceBefore t accepts) (Inner t q start) := by
  unfold Builder.eatSpaceBefore
  exact .ite (fun _ _ => h.bump) fun _ => .ok h

theorem attributeValue {id : Nat} (hid : start.nodes.size ≤ id)
    (hkind : (slot b.nodes id).kind = .attr) (first : Nat) :
    Build.Returns (b.attributeValue t id first) (Inner t q start) := by
  unfold Builder.attributeValue
  refine .ite (fun _ => ?_) fun _ => .ite (fun _ => ?_) fun _ _ => h.report rfl
  · refine Build.Returns.any.bind fun quote _ => ?_
    split
    · refine Build.Returns.bind (P := fun b₁ => Inner t q start b₁ ∧ b₁.nodes = b.nodes)
        (fun b₁ hb₁ => ⟨h.bump hb₁, by rw [(returns_bump _ _ hb₁).2]⟩) fun b₁ ⟨h₁, hnodes⟩ => ?_
      refine (h₁.startIn (.inr ⟨hid, hnodes ▸ hkind⟩) rfl).bind
        fun ⟨value, b₂⟩ ⟨h₂, hvalue⟩ => ?_
      refine Build.Returns.bind (fun _ => h₂.data hvalue) fun b₃ h₃ => ?_
      refine (h₃.eat .attributeValue).bind fun ⟨_, b₄⟩ h₄ => ?_
      refine Build.Returns.bind (fun _ => h₄.finish hvalue) fun b₅ h₅ => ?_
      refine (h₅.eat .quote).bind fun ⟨closed, b₆⟩ h₆ => ?_
      exact .ite (fun _ => .ok h₆) fun _ _ => h₆.report rfl
    · exact .fault
  · exact h.single (.inr ⟨hid, hkind⟩) rfl 1

theorem attributePair : Build.Returns (b.attributePair t q) (Inner t q start) := by
  unfold Builder.attributePair
  refine ((h.startIn (.inl rfl) rfl).and (startIn_starts b q .attr).returns).bind
    fun ⟨id, b₁⟩ ⟨⟨h₁, hid⟩, hstarts⟩ => ?_
  have hlt : id < b₁.nodes.size := by
    rw [hstarts.size, hstarts.id_eq]
    exact Nat.lt_succ_self _
  have hattr {b' : Builder} (h' : Inner t id b₁ b') : (slot b'.nodes id).kind = .attr :=
    (h'.extends.kind id hlt).trans hstarts.kind_eq
  have hinside : Inner t id b₁ b₁ := .refl
  refine ((h₁.leaf (.inr ⟨hid, hattr hinside⟩) rfl 1).and (hinside.leaf (.inl rfl) rfl 1)).bind
    fun ⟨_, b₂⟩ ⟨⟨h₂, _⟩, hinside₂, _⟩ => ?_
  refine ((h₂.eatSpaceBefore _).and (hinside₂.eatSpaceBefore _)).bind fun b₃ ⟨h₃, hinside₃⟩ => ?_
  refine .ite (fun _ _ => h₃.finish hid) fun _ => ?_
  refine Build.Returns.bind (P := fun b₄ => Inner t q start b₄ ∧ Inner t id b₁ b₄)
    (fun _ hb => ⟨h₃.bump hb, hinside₃.bump hb⟩) fun b₄ ⟨h₄, hinside₄⟩ => ?_
  refine ((h₄.eatSpaceBefore _).and (hinside₄.eatSpaceBefore _)).bind fun b₅ ⟨h₅, hinside₅⟩ => ?_
  exact (h₅.attributeValue hid (hattr hinside₅) _).bind fun b₆ h₆ _ => h₆.finish hid

theorem unexpectedText : Build.Returns (b.unexpectedText t) (Inner t q start) := by
  unfold Builder.unexpectedText
  refine Build.Returns.any.bind fun _ _ => ?_
  exact Build.Returns.bind (fun _ => h.report rfl) fun _ h₁ _ => h₁.bump

theorem tagItem? {kind : TokenType} {item : Build Builder}
    (hitem : b.tagItem? t q kind = some item) : Build.Returns item (Inner t q start) := by
  unfold Builder.tagItem? at hitem
  split at hitem <;> cases hitem
  · exact h.attributePair
  · exact h.echo (.inl rfl) rfl _ _
  · exact h.echo (.inl rfl) rfl _ _
  · exact h.echo (.inl rfl) rfl _ _
  · exact h.delimited (.inl rfl) rfl _ _ _
  · exact h.directiveLeaf (.inl rfl) _
  · exact fun _ => h.bump
  · exact h.unexpectedText
  · exact fun _ => h.bump

theorem tagItems :
    Build.Returns (Builder.tagItems t q b) fun (_, b') => Inner t q start b' := by
  fun_induction Builder.tagItems t q b with
  | case1 => exact .ok h
  | case2 b _ => exact Build.Returns.bind (fun _ => h.bump) fun _ h₁ => .ok h₁
  | case3 b _ => exact Build.Returns.bind (fun _ => h.bump) fun _ h₁ => .ok h₁
  | case4 => exact .ok h
  | case5 b kind _ _ _ item hitem ih =>
      refine (h.tagItem? hitem).bind fun b₁ h₁ => ?_
      split
      · exact ih b₁ ‹_› h₁
      · exact .fault

end Inner
end Builder
end BladeTree
