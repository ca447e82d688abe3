import BladeTree.Proofs.Tree.Content
import BladeTree.Proofs.Tree.Frames

namespace BladeTree
namespace Builder

variable (t : Tokenized)

/-- What `directive` does once the place of the directive is known. -/
def place (b : Builder) (name : String) (first : Nat) (hasArgs : Bool) :
    DirectivePlace → Build Builder
  | .branch above => do
    let b ← b.closeAboveBlock t above name
    b.directiveLeaf t b.parent .branch
  | .terminator above => do
    let b ← b.closeAboveBlock t above name
    let b ← b.directiveLeaf t b.parent .closer
    return (← b.popFrame b.pos).2
  | .opener rule => b.openBlock t rule name
  | .strayTerminator => do
    let b ← b.directiveLeaf t b.parent .closer
    b.reportTokens t .unexpectedClosingTag first b.pos ("@" ++ name) none
  | .strayBranch => do
    let b ← b.directiveLeaf t b.parent .branch
    b.reportTokens t .invalidNesting first b.pos
      ("`@" ++ name ++ "` is outside of a block it belongs to") none
  | .standalone => do
    let b ← b.directiveLeaf t b.parent .standalone
    if !hasArgs && (BlockRule.find? name).any (·.requiresArgs) then
      b.missingArguments t name first b.pos
    else return b

theorem directive_eq (b : Builder) : b.directive t = (do
    let name ← t.directiveName b.pos
    let args := t.argsIndex? b.pos
    let arity ← args.elim (pure 0) t.argumentCount
    let b' ← (if !args.isSome && needsArguments.contains name then
      b.missingArguments t name b.pos (b.pos + 1) else pure b)
    b'.place t name b.pos args.isSome (directivePlace b'.stack name args.isSome arity)) := by
  unfold directive
  simp only
  cases t.argsIndex? b.pos with
  | none =>
      refine congrArg _ (funext fun name => ?_)
      dsimp only
      refine congrArg _ (funext fun arity => ?_)
      split <;> rfl
  | some i =>
      refine congrArg _ (funext fun name => ?_)
      dsimp only
      refine congrArg _ (funext fun arity => ?_)
      split <;> rfl

variable {t} {b : Builder}

namespace Sound

variable (h : b.Sound t)
include h

theorem directiveLeaf (hlt : b.pos < t.size) (role : DirectiveRole) :
    t.Yields (b.directiveLeaf t b.parent role) fun b' =>
      b'.Sound t ∧ b.pos < b'.pos ∧ b'.stack = b.stack :=
  (h.reads.directiveLeaf hlt role).mono fun _ ⟨h', hlt'⟩ => ⟨h.closed h', hlt', h'.stack_eq⟩

theorem closeAboveBlock (above : Nat) (name : String) :
    t.Yields (b.closeAboveBlock t above name) fun b' => b'.Sound t ∧ b'.pos = b.pos :=
  (h.forceCloseMany _ rfl above).mono fun _ ⟨h', hpos', _⟩ => ⟨h', hpos'⟩

theorem openBlock (hlt : b.pos < t.size) (rule : BlockRule) (name : String) :
    t.Yields (b.openBlock t rule name) fun b' => b'.Sound t ∧ b.pos < b'.pos := by
  unfold Builder.openBlock
  refine (yields_checkDepth _ _).bind fun _ _ => ?_
  refine (h.reads.startIn .directiveBlock).bind fun ⟨block, b₁⟩ ⟨h₁, hpos₁⟩ => ?_
  refine (h₁.directiveLeaf (by omega) .opener).bind fun b₂ ⟨h₂, hpos₂⟩ => ?_
  obtain ⟨hsound, hpos⟩ := h₂.pushFrame (f := ⟨block, .directive rule name⟩) h.counted
  exact ⟨hsound, by omega⟩

theorem missingArguments (name : String) (first : Nat) {stop : Nat} (hstop : stop ≤ t.size) :
    t.Yields (b.missingArguments t name first stop) fun b' => b'.Sound t ∧ b'.pos = b.pos :=
  (h.reportTokens _ hstop _ _).mono fun _ ⟨h', hpos', _⟩ => ⟨h', hpos'⟩

theorem place (hlt : b.pos < t.size) (name : String) (first : Nat) (hasArgs : Bool)
    (place : DirectivePlace) :
    t.Yields (b.place t name first hasArgs place) fun b' => b'.Sound t ∧ b.pos < b'.pos := by
  cases place with
  | branch above =>
      refine (h.closeAboveBlock above name).bind fun b₁ ⟨h₁, hpos₁⟩ => ?_
      exact (h₁.directiveLeaf (by omega) .branch).mono fun b' ⟨h', hlt', _⟩ => ⟨h', by omega⟩
  | terminator above =>
      refine (h.closeAboveBlock above name).bind fun b₁ ⟨h₁, hpos₁⟩ => ?_
      refine (h₁.directiveLeaf (by omega) .closer).bind fun b₂ ⟨h₂, hlt₂, _⟩ => ?_
      refine h₂.popFrame.bind fun ⟨_, b₃⟩ ⟨h₃, hpos₃, _⟩ => ⟨h₃, ?_⟩
      simp only
      omega
  | opener rule => exact h.openBlock hlt rule name
  | strayTerminator =>
      refine (h.directiveLeaf hlt .closer).bind fun b₁ ⟨h₁, hlt₁, _⟩ => ?_
      exact (h₁.reportTokens _ h₁.fits _ _).mono fun b' ⟨h', hpos', _⟩ => ⟨h', by omega⟩
  | strayBranch =>
      refine (h.directiveLeaf hlt .branch).bind fun b₁ ⟨h₁, hlt₁, _⟩ => ?_
      exact (h₁.reportTokens _ h₁.fits _ _).mono fun b' ⟨h', hpos', _⟩ => ⟨h', by omega⟩
  | standalone =>
      refine (h.directiveLeaf hlt .standalone).bind fun b₁ ⟨h₁, hlt₁, _⟩ => ?_
      refine .ite (fun _ => ?_) fun _ => ⟨h₁, hlt₁⟩
      exact (h₁.missingArguments name first h₁.fits).mono fun b' ⟨h', hpos'⟩ => ⟨h', by omega⟩

theorem directive (hlt : b.pos < t.size) :
    t.Yields (b.directive t) fun b' => b'.Sound t ∧ b.pos < b'.pos := by
  rw [directive_eq]
  refine Tokenized.Yields.bind (P := fun _ => True)
    ((Tokenized.yields_text hlt).bind fun _ _ => trivial) fun name _ => ?_
  refine Tokenized.Yields.bind (P := fun _ => True) ?_ fun arity _ => ?_
  · cases hargs : t.argsIndex? b.pos with
    | none => trivial
    | some i => exact (Tokenized.yields_token (argsIndex?_bounds hargs).2).bind fun _ _ => trivial
  refine Tokenized.Yields.bind
    (P := fun b' : Builder => b'.Sound t ∧ b'.pos = b.pos) ?_
    fun b₁ ⟨h₁, hpos₁⟩ => ?_
  · exact .ite (fun _ => h.missingArguments name b.pos hlt) fun _ => ⟨h, rfl⟩
  · exact (h₁.place (by omega) name _ _ _).mono fun b' ⟨h', hlt'⟩ => ⟨h', by omega⟩

end Sound
end Builder
end BladeTree
