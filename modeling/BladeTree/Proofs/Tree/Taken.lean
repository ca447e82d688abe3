import BladeTree.Proofs.Tree.ElementSteps
import BladeTree.Proofs.Tree.Markers

namespace BladeTree

namespace TokenType

def isTagPart : TokenType → Bool
  | text | whitespace | genericArgs | attributeName | equals | quote | attributeValue | directive
  | directiveArgs | extension _ => true
  | _ => false

def endsTag : TokenType → Bool
  | greaterThan | selfClose => true
  | _ => false

theorem endsTag_of_isTagPart {kind : TokenType} (h : kind.isTagPart) : kind.endsTag = false := by
  cases kind <;> first | rfl | cases h

end TokenType

theorem Tokenized.kind?_directiveLength {t : Tokenized} {i j : Nat}
    (hi : t.kind? i = some .directive) (hij : i ≤ j) (hj : j < i + t.directiveLength i) :
    ∃ kind, t.kind? j = some kind ∧
      (kind = .directive ∨ kind = .whitespace ∨ kind = .directiveArgs) := by
  have hfirst (hj : j = i) : ∃ kind, t.kind? j = some kind ∧
      (kind = .directive ∨ kind = .whitespace ∨ kind = .directiveArgs) :=
    ⟨.directive, hj ▸ hi, .inl rfl⟩
  unfold directiveLength argsIndex? at hj
  split at hj
  · rename_i hargs
    simp only [Option.elim_some] at hj
    rcases (show j = i ∨ j = i + 1 by omega) with rfl | rfl
    · exact hfirst rfl
    · exact ⟨_, hargs, .inr (.inr rfl)⟩
  · rename_i hspace
    split at hj
    · rename_i hargs
      simp only [Option.elim_some] at hj
      rcases (show j = i ∨ j = i + 1 ∨ j = i + 2 by omega) with rfl | rfl | rfl
      · exact hfirst rfl
      · exact ⟨_, hspace, .inr (.inl rfl)⟩
      · exact ⟨_, hargs, .inr (.inr rfl)⟩
    · simp only [Option.elim_none] at hj
      exact hfirst (by omega)
  · simp only [Option.elim_none] at hj
    exact hfirst (by omega)

namespace Builder

/-- From `start` to `b` tokens of types that satisfy `p` were taken and nodes of kinds that satisfy
`K` were added. -/
structure Takes (t : Tokenized) (p : TokenType → Prop) (K : NodeKind → Prop) (start b : Builder) :
    Prop where
  le : start.pos ≤ b.pos
  each : ∀ i, start.pos ≤ i → i < b.pos → ∃ kind, t.kind? i = some kind ∧ p kind
  size : start.nodes.size ≤ b.nodes.size
  kind : ∀ i < start.nodes.size, (slot b.nodes i).kind = (slot start.nodes i).kind
  fresh : ∀ i, start.nodes.size ≤ i → i < b.nodes.size → K (slot b.nodes i).kind

variable {t : Tokenized} {p : TokenType → Prop} {K : NodeKind → Prop} {start b b' : Builder}
  {q id : Nat} {kind : TokenType} {node : NodeKind}

theorem Takes.refl (b : Builder) : Takes t p K b b where
  le := le_rfl
  each _ hi hlt := absurd hlt (Nat.not_lt_of_le hi)
  size := le_rfl
  kind _ _ := rfl
  fresh _ hi hlt := absurd hlt (Nat.not_lt_of_le hi)

namespace Takes

variable (h : Takes t p K start b)
include h

theorem trans (h' : Takes t p K b b') : Takes t p K start b' where
  le := h.le.trans h'.le
  each i hi hlt := by
    rcases Nat.lt_or_ge i b.pos with hold | hnew
    · exact h.each i hi hold
    · exact h'.each i hnew hlt
  size := h.size.trans h'.size
  kind i hi := (h'.kind i (hi.trans_le h.size)).trans (h.kind i hi)
  fresh i hi hlt := by
    rcases Nat.lt_or_ge i b.nodes.size with hold | hnew
    · rw [h'.kind i hold]
      exact h.fresh i hi hold
    · exact h'.fresh i hnew hlt

theorem of_kinds (hpos : b'.pos = b.pos) (hsize : b'.nodes.size = b.nodes.size)
    (hkind : ∀ i, (slot b'.nodes i).kind = (slot b.nodes i).kind) : Takes t p K start b' where
  le := hpos ▸ h.le
  each := hpos ▸ h.each
  size := hsize ▸ h.size
  kind i hi := (hkind i).trans (h.kind i hi)
  fresh i hi hlt := hkind i ▸ h.fresh i hi (hsize ▸ hlt)

theorem alters {f : FlatNode → FlatNode} (ha : b.Alters id f b')
    (hf : ∀ n, (f n).kind = n.kind) (hpos : b'.pos = b.pos) : Takes t p K start b' := by
  refine h.of_kinds hpos ha.size fun i => ?_
  rw [ha.slot_eq]
  split
  · exact hf _
  · rfl

theorem bump (hk : b.current? t = some kind) (hp : p kind) :
    Build.Returns (b.bump t) (Takes t p K start) := by
  refine (returns_bump b).mono fun b' ⟨_, hb'⟩ => ?_
  subst hb'
  refine ⟨h.le.trans (Nat.le_succ _), fun i hi hlt => ?_, h.size, h.kind, h.fresh⟩
  rcases Nat.lt_succ_iff_lt_or_eq.1 hlt with hlt | rfl
  · exact h.each i hi hlt
  · exact ⟨kind, hk, hp⟩

theorem eat (hp : p kind) : Build.Returns (b.eat t kind) fun (_, b') => Takes t p K start b' := by
  unfold Builder.eat
  refine .ite (fun hat => ?_) fun _ => .ok h
  exact (h.bump (beq_iff_eq.1 hat) hp).bind fun b₁ h₁ => .ok h₁

theorem startIn (q : Nat) (hK : K node) : Build.Returns (b.startIn q node) fun (_, b') =>
    Takes t p K start b' ∧ b'.current? t = b.current? t := by
  refine (startIn_starts b q node).returns.mono fun (id, b') hs => ?_
  have hpos : b'.pos = b.pos := by rw [hs.rest]
  have hkind {i : Nat} (hi : i < b.nodes.size) :
      (slot b'.nodes i).kind = (slot b.nodes i).kind := congrArg (·.1) (hs.old i hi)
  have hsize : b.nodes.size ≤ b'.nodes.size := hs.size ▸ Nat.le_succ _
  refine ⟨h.trans ⟨hpos.ge, fun i hi hlt => ?_, hsize, fun i => hkind, fun i hi hlt => ?_⟩, ?_⟩
  · exact absurd (hpos ▸ hlt) (Nat.not_lt_of_le hi)
  · obtain rfl := hs.eq_of_ge hi hlt
    rwa [hs.kind_eq]
  · rw [current?, hpos]
    rfl

theorem finish (id : Nat) : Build.Returns (b.finish id) (Takes t p K start) :=
  (alters_finishAt b id b.pos).mono fun b' ⟨ha, hb'⟩ => h.alters ha (fun _ => rfl) (by rw [hb'])

theorem setData (id : Nat) (data : Int32) : Build.Returns (b.setData id data) (Takes t p K start) :=
  (alters_modify b id _).mono fun b' ⟨ha, hb'⟩ => h.alters ha (fun _ => rfl) (by rw [hb'])

theorem reportTokens (kind : DiagnosticKind) (i j : Nat) (detail : String)
    (context : Option String) :
    Build.Returns (b.reportTokens t kind i j detail context) (Takes t p K start) := by
  refine (returns_report b kind i j detail context).mono fun b' ⟨_, _, hb'⟩ => ?_
  subst hb'
  exact h.of_kinds rfl rfl fun _ => rfl

theorem leaf (q : Nat) (node : NodeKind) (hK : K node) (hk : b.current? t = some kind)
    (hp : p kind) :
    Build.Returns (b.leaf t q node 1) fun (_, b') => Takes t p K start b' := by
  unfold Builder.leaf
  refine (h.startIn q hK).bind fun ⟨id, b₁⟩ ⟨h₁, hk₁⟩ => ?_
  refine Build.Returns.bind (P := Takes t p K start) ?_ fun b₂ h₂ => ?_
  · exact (h₁.bump (hk₁.trans hk) hp).bind fun b₂ h₂ => .ok h₂
  · exact (h₂.finish id).bind fun b₃ h₃ => .ok h₃

theorem leaves (q : Nat) (node : NodeKind) (hK : K node) {n : Nat}
    (hp : ∀ i, b.pos ≤ i → i < b.pos + n → ∃ kind, t.kind? i = some kind ∧ p kind) :
    Build.Returns (b.leaf t q node n) fun (_, b') =>
      Takes t p K start b' ∧ b'.pos = b.pos + n := by
  refine ((leaf_own b q node n).and (leaf_rest b q node n)).mono
    fun (_, b') ⟨⟨hsize, _, hown⟩, _, hrest⟩ => ?_
  have hpos : b'.pos = b.pos + n := by rw [hrest]
  refine ⟨h.trans ⟨?_, fun i hi hlt => hp i hi (hpos ▸ hlt), ?_, fun i hi => ?_,
    fun i hi hlt => ?_⟩, hpos⟩
  · rw [hpos]
    exact Nat.le_add_right _ _
  · rw [hsize]
    exact Nat.le_succ _
  · exact (congrArg FlatNode.kind ((hown i).trans (if_neg hi.ne)) :)
  · have heq : i = b.nodes.size := by omega
    have hkind : (slot b'.nodes i).kind = node :=
      (congrArg FlatNode.kind ((hown i).trans (if_pos heq)) :)
    rwa [hkind]

/-! Constructs -/

theorem delimitedPart {content stopType : TokenType} (hk : b.current? t = some kind) (hp : p kind)
    (hK : K node) (hcontent : p content) (hstop : p stopType)
    (hread : ReadsDelimited t q node content stopType b b') : Takes t p K start b' := by
  induction hread with
  | read h₁ h₂ h₃ h₄ h₅ =>
      obtain ⟨hstarted, hk₁⟩ := h.startIn q hK _ h₁
      have hate := (hstarted.bump (hk₁.trans hk) hp _ h₂).eat hcontent _ h₃
      exact Takes.finish (hate.eat hstop _ h₄) _ _ h₅
  | report _ _ hb ih => exact ih.reportTokens _ _ _ _ _ _ hb

theorem echo (hk : b.current? t = some kind) (hp : p kind) (q : Nat) (hK : K node)
    {stopType : TokenType} (hcontent : p .echoContent) (hstop : p stopType) (delimiter : String) :
    Build.Returns (b.echo t q node stopType delimiter) (Takes t p K start) :=
  (reads_echo b q node stopType delimiter).mono fun _ => h.delimitedPart hk hp hK hcontent hstop

theorem delimited (hk : b.current? t = some kind) (hp : p kind) (q : Nat) (hK : K node)
    {content stopType : TokenType} (hcontent : p content) (hstop : p stopType)
    (endName : Option String) :
    Build.Returns (b.delimited t q node content stopType endName) (Takes t p K start) :=
  (reads_delimited b q node content stopType endName).mono
    fun _ => h.delimitedPart hk hp hK hcontent hstop

/-! Frames that end -/

theorem forceClose (reason : ClosedBy) (stop : Nat) (context : Option String) :
    Build.Returns (b.forceClose t reason stop context) fun b' =>
      Takes t p K start b' ∧ b'.pos = b.pos := by
  cases hs : b.stack with
  | nil =>
      have hpop : b.popFrame stop = .ok (none, b) := by
        unfold Builder.popFrame
        rw [hs]
        rfl
      unfold Builder.forceClose
      rw [hpop]
      exact .ok ⟨h, rfl⟩
  | cons f below =>
      exact (alters_forceClose hs reason stop context).mono
        fun b' ⟨ha, hpos⟩ => ⟨h.alters ha (fun _ => rfl) hpos, hpos⟩

theorem forceCloseMany (close : List Frame → ClosedBy × Option String) (stop n : Nat) :
    Build.Returns (Builder.forceCloseMany t close stop n b) fun b' =>
      Takes t p K start b' ∧ b'.pos = b.pos := by
  induction n generalizing b with
  | zero => exact .ok ⟨h, rfl⟩
  | succ n ih =>
      refine (h.forceClose _ _ _).bind fun b₁ ⟨h₁, hpos₁⟩ => ?_
      exact (ih h₁).mono fun b' ⟨h', hpos'⟩ => ⟨h', hpos'.trans hpos₁⟩

theorem closeForSibling (name : String) :
    Build.Returns (b.closeForSibling t name) fun b' =>
      Takes t p K start b' ∧ b'.pos = b.pos := by
  unfold Builder.closeForSibling
  split
  · exact .ok ⟨h, rfl⟩
  · refine (h.forceCloseMany _ _ _).bind fun b₁ ⟨h₁, hpos₁⟩ => ?_
    exact (h₁.forceClose _ _ _).mono fun b' ⟨h', hpos'⟩ => ⟨h', hpos'.trans hpos₁⟩

/-! Parts of start tags -/

section TagPart

variable (hp : ∀ kind : TokenType, kind.isTagPart → p kind)
include hp

theorem eatSpaceBefore (accepts : TokenType → Bool) :
    Build.Returns (b.eatSpaceBefore t accepts) (Takes t p K start) := by
  unfold Builder.eatSpaceBefore
  refine .ite (fun hat => ?_) fun _ => .ok h
  exact h.bump (beq_iff_eq.1 ((Bool.and_eq_true _ _).mp hat).1) (hp _ rfl)

theorem unexpectedText (hk : b.current? t = some .text) :
    Build.Returns (b.unexpectedText t) (Takes t p K start) := by
  unfold Builder.unexpectedText
  refine Build.Returns.any.bind fun text _ => ?_
  refine Build.Returns.bind (P := fun b₁ => Takes t p K start b₁ ∧ b₁.pos = b.pos) ?_
    fun b₁ ⟨h₁, hpos₁⟩ => ?_
  · refine (returns_report b _ _ _ _ _).mono fun b₁ ⟨_, _, hb₁⟩ => ?_
    subst hb₁
    exact ⟨h.of_kinds rfl rfl fun _ => rfl, rfl⟩
  · have hk₁ : b₁.current? t = some .text := by
      rw [current?, hpos₁]
      exact hk
    exact h₁.bump hk₁ (hp _ rfl)

theorem eatGenericArgs (element first : Nat) :
    Build.Returns (b.eatGenericArgs t element first) (Takes t p K start) := by
  unfold Builder.eatGenericArgs
  refine .ite (fun hat => ?_) fun _ => .ok h
  have hm : Takes t p K start { b with
      metadata := b.metadata.setGenericArgsOffset element (b.pos - first) } :=
    h.of_kinds rfl rfl fun _ => rfl
  exact hm.bump (beq_iff_eq.1 hat) (hp _ rfl)

variable (hK : ∀ node : NodeKind, node.isPlain → node ≠ .text → K node)
include hK

theorem directiveLeaf (hk : b.current? t = some .directive) (q : Nat) (role : DirectiveRole) :
    Build.Returns (b.directiveLeaf t q role) (Takes t p K start) := by
  have hparts (i : Nat) (hi : b.pos ≤ i) (hlt : i < b.pos + t.directiveLength b.pos) :
      ∃ kind, t.kind? i = some kind ∧ p kind := by
    obtain ⟨kind, hkind, hcases⟩ := Tokenized.kind?_directiveLength hk hi hlt
    refine ⟨kind, hkind, hp kind ?_⟩
    rcases hcases with rfl | rfl | rfl <;> rfl
  unfold Builder.directiveLeaf
  refine (h.leaves q .directive (hK _ rfl nofun) hparts).bind fun ⟨id, b₁⟩ ⟨h₁, _⟩ => ?_
  exact h₁.setData id role.data

theorem attributeValue (id first : Nat) :
    Build.Returns (b.attributeValue t id first) (Takes t p K start) := by
  unfold Builder.attributeValue
  refine .ite (fun hat => ?_) fun _ => .ite (fun hat => ?_) fun _ => h.reportTokens _ _ _ _ _
  · refine Build.Returns.any.bind fun quote _ => ?_
    split
    · refine (h.bump (beq_iff_eq.1 hat) (hp _ rfl)).bind fun b₁ h₁ => ?_
      refine (h₁.startIn id (hK .attributeValue rfl nofun)).bind fun ⟨value, b₂⟩ ⟨h₂, _⟩ => ?_
      refine (h₂.setData value _).bind fun b₃ h₃ => ?_
      refine (h₃.eat (hp _ rfl)).bind fun ⟨_, b₄⟩ h₄ => ?_
      refine (h₄.finish value).bind fun b₅ h₅ => ?_
      refine (h₅.eat (hp _ rfl)).bind fun ⟨closed, b₆⟩ h₆ => ?_
      exact .ite (fun _ => .ok h₆) fun _ => h₆.reportTokens _ _ _ _ _
    · exact .fault
  · exact (h.leaf id .attributeValue (hK _ rfl nofun) (beq_iff_eq.1 hat) (hp _ rfl)).bind
      fun _ h₁ => .ok h₁

theorem attributePair (hk : b.current? t = some .attributeName) (element : Nat) :
    Build.Returns (b.attributePair t element) (Takes t p K start) := by
  unfold Builder.attributePair
  refine (h.startIn element (hK .attr rfl nofun)).bind fun ⟨id, b₁⟩ ⟨h₁, hk₁⟩ => ?_
  refine (h₁.leaf id .attributeName (hK _ rfl nofun) (hk₁.trans hk) (hp _ rfl)).bind
    fun ⟨_, b₂⟩ h₂ => ?_
  refine (h₂.eatSpaceBefore hp _).bind fun b₃ h₃ => ?_
  refine .ite (fun _ => h₃.finish id) fun hat => ?_
  have hequals : b₃.isAt t .equals := by simpa using hat
  refine (h₃.bump (beq_iff_eq.1 hequals) (hp _ rfl)).bind fun b₄ h₄ => ?_
  refine (h₄.eatSpaceBefore hp _).bind fun b₅ h₅ => ?_
  exact (h₅.attributeValue hp hK id _).bind fun b₆ h₆ => h₆.finish id

end TagPart
end Takes

theorem tagItems_keeps {P : Builder → Prop} {element : Nat}
    (hitem : ∀ (b : Builder) (kind : TokenType) (item : Build Builder), P b →
      b.current? t = some kind → b.tagItem? t element kind = some item → Build.Returns item P)
    (h : P b) :
    Build.Returns (tagItems t element b) fun (tagEnd, b') =>
      ∃ b₀, P b₀ ∧ match tagEnd with
        | .closed => b₀.current? t = some .greaterThan ∧ b₀.bump t = .ok b'
        | .selfClosed => b₀.current? t = some .selfClose ∧ b₀.bump t = .ok b'
        | .unterminated => b' = b₀ ∧ ∀ kind, b₀.current? t = some kind →
          kind.endsTag = false ∧ b₀.tagItem? t element kind = none := by
  fun_induction Builder.tagItems t element b with
  | case1 b hnone => exact .ok ⟨b, h, rfl, by simp [hnone]⟩
  | case2 b hk => exact Build.Returns.bind (fun _ => id) fun b₁ hb₁ => .ok ⟨b, h, hk, hb₁⟩
  | case3 b hk => exact Build.Returns.bind (fun _ => id) fun b₁ hb₁ => .ok ⟨b, h, hk, hb₁⟩
  | case4 b kind hgreater hself hk hnone =>
      refine .ok ⟨b, h, rfl, fun kind' hk' => ?_⟩
      obtain rfl : kind = kind' := Option.some.inj (hk.symm.trans hk')
      refine ⟨?_, hnone⟩
      unfold TokenType.endsTag
      split
      · exact (hgreater rfl).elim
      · exact (hself rfl).elim
      · rfl
  | case5 b kind _ _ hk item hsome ih =>
      refine (hitem b kind item h hk hsome).bind fun b₁ h₁ => ?_
      split
      · exact ih b₁ ‹_› h₁
      · exact .fault

end Builder
end BladeTree
