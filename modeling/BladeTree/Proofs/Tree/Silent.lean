import BladeTree.Proofs.Tree.Limits

namespace BladeTree

/-- Whatever comes satisfies `Q`. -/
def Build.Returns {α : Type} (x : Build α) (Q : α → Prop) : Prop := ∀ a, x = .ok a → Q a

namespace Build.Returns

variable {α β : Type} {x y : Build α} {f : α → Build β} {P Q : α → Prop} {R : β → Prop}

theorem bind (hx : Build.Returns x P) (hf : ∀ a, P a → Build.Returns (f a) R) :
    Build.Returns (x >>= f) R := by
  intro b hb
  cases x with
  | ok a => exact hf a (hx a rfl) b hb
  | error e => cases hb

theorem ok {a : α} (h : Q a) : Build.Returns (.ok a) Q := by
  rintro _ ⟨⟩
  exact h

theorem any : Build.Returns x fun _ => True := fun _ _ => trivial

theorem fault {e : Fault} : Build.Returns (Build.fault e) Q := nofun

theorem mono (hx : Build.Returns x P) (h : ∀ a, P a → Q a) : Build.Returns x Q :=
  fun a ha => h a (hx a ha)

theorem and (hx : Build.Returns x P) (hx' : Build.Returns x Q) :
    Build.Returns x fun a => P a ∧ Q a :=
  fun a ha => ⟨hx a ha, hx' a ha⟩

theorem ite {c : Prop} [Decidable c] (hx : c → Build.Returns x Q)
    (hy : ¬ c → Build.Returns y Q) : Build.Returns (if c then x else y) Q := by
  split
  · exact hx ‹_›
  · exact hy ‹_›

end Build.Returns

theorem Build.Ensures.returns {α : Type} {x : Build α} {Q : α → Prop} (h : Build.Ensures x Q) :
    Build.Returns x Q := by
  rintro a rfl
  exact h

theorem Tokenized.Yields.returns {t : Tokenized} {α : Type} {x : Build α} {Q : α → Prop}
    (h : t.Yields x Q) : Build.Returns x Q := by
  rintro a rfl
  exact h

namespace Tokenized

variable {t : Tokenized} {i : Nat} {u : Token} {us : List Token}

def rest (t : Tokenized) (i : Nat) : List Token := t.tokens.toList.drop i

theorem rest_add (h : t.rest i = us) (n : Nat) : t.rest (i + n) = us.drop n := by
  rw [rest, ← List.drop_drop, ← h]
  rfl

theorem rest_succ (h : t.rest i = u :: us) : t.rest (i + 1) = us := rest_add h 1

theorem getElem?_of_rest (h : t.rest i = u :: us) : t.tokens[i]? = some u := by
  have hhead := congrArg List.head? h
  rwa [rest, List.head?_drop, Array.getElem?_toList] at hhead

theorem kind?_of_rest (h : t.rest i = u :: us) : t.kind? i = some u.kind :=
  congrArg (Option.map Token.kind) (getElem?_of_rest h)

theorem text_of_rest (h : t.rest i = u :: us) : t.text i = .ok (u.text t.source) := by
  unfold text token
  rw [getElem?_of_rest h]
  rfl

theorem kind?_eq (i : Nat) : t.kind? i = (t.rest i).head?.map Token.kind := by
  rw [rest, List.head?_drop, Array.getElem?_toList]
  rfl

end Tokenized

namespace Builder

/-- The tokens `us` are ahead, and the open frames and the diagnostics are these. -/
structure Stands (t : Tokenized) (us : List Token) (stack : List Frame)
    (log : Array Diagnostic) (b : Builder) : Prop where
  rest : t.rest b.pos = us
  stack : b.stack = stack
  diagnostics : b.diagnostics = log

def Reports (start b : Builder) : Prop := start.diagnostics.size < b.diagnostics.size

variable {t : Tokenized} {us : List Token} {stack : List Frame} {log : Array Diagnostic}
variable {start b b' : Builder} {n : Nat}

theorem Stands.refl (t : Tokenized) (b : Builder) :
    b.Stands t (t.rest b.pos) b.stack b.diagnostics :=
  ⟨rfl, rfl, rfl⟩

namespace Stands

variable (h : b.Stands t us stack log)
include h

theorem modify (id : Nat) (f : FlatNode → FlatNode) :
    Build.Returns (b.modify id f) (·.Stands t us stack log) :=
  .ite (fun _ => .ok ⟨h.rest, h.stack, h.diagnostics⟩) fun _ => .fault

theorem finishAt (id stop : Nat) :
    Build.Returns (b.finishAt id stop) (·.Stands t us stack log) :=
  Build.Returns.any.bind fun _ _ => .ite (fun _ => h.modify _ _) fun _ => .fault

theorem finish (id : Nat) : Build.Returns (b.finish id) (·.Stands t us stack log) :=
  h.finishAt id b.pos

theorem bump : Build.Returns (b.bump t) (·.Stands t us.tail stack log) := by
  refine .ite (fun _ => .ok ⟨?_, h.stack, h.diagnostics⟩) fun _ => .fault
  rw [← List.drop_one]
  exact Tokenized.rest_add h.rest 1

theorem bumpMany (n : Nat) :
    Build.Returns (Builder.bumpMany t n b) (·.Stands t (us.drop n) stack log) := by
  induction n generalizing b us with
  | zero => exact .ok h
  | succ n ih =>
      refine h.bump.bind fun b₁ h₁ => ?_
      rw [← List.drop_tail]
      exact ih h₁

theorem startIn (q : Nat) (kind : NodeKind) :
    Build.Returns (b.startIn q kind) (·.2.Stands t us stack log) := by
  refine (startIn_starts b q kind).returns.mono fun ⟨id, b'⟩ hs => ?_
  have hpos : b'.pos = b.pos := by rw [hs.rest]
  have hstack : b'.stack = b.stack := by rw [hs.rest]
  have hlog : b'.diagnostics = b.diagnostics := by rw [hs.rest]
  exact ⟨hpos ▸ h.rest, hstack.trans h.stack, hlog.trans h.diagnostics⟩

theorem leaf (q : Nat) (kind : NodeKind) (n : Nat) :
    Build.Returns (b.leaf t q kind n) (·.2.Stands t (us.drop n) stack log) := by
  refine (h.startIn q kind).bind fun ⟨id, b₁⟩ h₁ => ?_
  refine (h₁.bumpMany n).bind fun b₂ h₂ => ?_
  exact (h₂.finish id).bind fun b₃ h₃ => .ok h₃

theorem pushFrame (f : Frame) : (b.pushFrame f).Stands t us (f :: stack) log := by
  obtain ⟨node, kind⟩ := f
  obtain ⟨hrest, rfl, hlog⟩ := h
  cases kind with
  | element name => exact ⟨hrest, rfl, hlog⟩
  | directive rule name =>
      cases hc : rule.conditional
      · simp only [Builder.pushFrame, hc]
        exact ⟨hrest, rfl, hlog⟩
      · simp only [Builder.pushFrame, hc]
        exact ⟨hrest, rfl, hlog⟩

theorem popFrame (stop : Nat) :
    Build.Returns (b.popFrame stop) fun p =>
      p.1 = stack.head? ∧ p.2.Stands t us stack.tail log := by
  unfold Builder.popFrame
  cases stack with
  | nil =>
      rw [h.stack]
      exact .ok ⟨rfl, h⟩
  | cons f below =>
      rw [h.stack]
      have hclose {b₁ : Builder} (h₁ : b₁.Stands t us below log) :
          Build.Returns (do return (some f, ← b₁.finishAt f.node stop)) fun p =>
            p.1 = some f ∧ p.2.Stands t us below log :=
        (h₁.finishAt f.node stop).bind fun _ h₂ => .ok ⟨rfl, h₂⟩
      simp only
      split
      · exact Build.Returns.any.bind fun _ _ => hclose ⟨h.rest, rfl, h.diagnostics⟩
      · refine Build.Returns.any.bind fun _ _ => ?_
        split
        · exact Build.Returns.any.bind fun _ _ => hclose ⟨h.rest, rfl, h.diagnostics⟩
        · exact hclose ⟨h.rest, rfl, h.diagnostics⟩

end Stands

/-! Reports -/

theorem Extends.reports (h : Extends n start b) (h' : Reports b b') : Reports start b' :=
  h.logged.length_le.trans_lt h'

theorem Reports.extends (h : Reports start b) (h' : Extends n b b') : Reports start b' :=
  h.trans_le h'.logged.length_le

theorem returns_reportTokens (b : Builder) (kind : DiagnosticKind) (i j : Nat) (detail : String)
    (context : Option String) :
    Build.Returns (b.reportTokens t kind i j detail context) (Reports b) := by
  refine Build.Returns.any.bind fun span _ => .ok ?_
  unfold Reports report
  rw [Array.size_push]
  exact Nat.lt_succ_self _

theorem returns_forceClose (hs : b.stack ≠ []) {reason : ClosedBy}
    (hreason : reason.isImplied = false) (stop : Nat) (context : Option String) :
    Build.Returns (b.forceClose t reason stop context) (Reports b) := by
  obtain ⟨f, below, hs⟩ := List.exists_cons_of_ne_nil hs
  refine ((Stands.refl t b).popFrame stop).bind fun ⟨popped, b₁⟩ ⟨hpopped, h₁⟩ => ?_
  have hf : popped = some f := by
    rw [hs] at hpopped
    exact hpopped
  subst hf
  have hreport {b₂ : Builder} (hlog : b₂.diagnostics = b.diagnostics) (kind : DiagnosticKind)
      (i j : Nat) (name : String) :
      Build.Returns (b₂.reportTokens t kind i j name context) (Reports b) := by
    unfold Reports
    rw [← hlog]
    exact returns_reportTokens b₂ kind i j name context
  have h₂ : { b₁ with metadata := b₁.metadata.setClosedBy f.node reason }.Stands t
      (t.rest b.pos) b.stack.tail b.diagnostics := ⟨h₁.rest, h₁.stack, h₁.diagnostics⟩
  refine Build.Returns.any.bind fun node _ => ?_
  simp only
  split
  · refine (h₂.modify f.node _).bind fun b₃ h₃ => ?_
    rw [hreason]
    exact hreport h₃.diagnostics _ _ _ _
  · split
    · exact Build.Returns.any.bind fun _ _ => hreport h₂.diagnostics _ _ _ _
    · exact hreport h₂.diagnostics _ _ _ _

theorem returns_forceCloseMany (hs : b.stack ≠ [])
    {close : List Frame → ClosedBy × Option String}
    (hclose : (close b.stack).1.isImplied = false) (stop n : Nat) :
    Build.Returns (Builder.forceCloseMany t close stop (n + 1) b) (Reports b) := by
  refine (returns_forceClose hs hclose stop _).bind fun b₁ h₁ => ?_
  exact ((Extends.refl le_rfl).forceCloseMany close stop n).returns.mono fun b' h' => h₁.extends h'

end Builder
end BladeTree
