import BladeTree.Proofs.Tree.Reads

namespace BladeTree
namespace Builder

variable {t : Tokenized} {start b : Builder} {path : List Nat} {q : Nat}

theorem textEnd_bounds {i : Nat} (hi : i ≤ t.size) : i ≤ textEnd t i ∧ textEnd t i ≤ t.size := by
  fun_induction textEnd t i with
  | case1 => exact ⟨le_rfl, hi⟩
  | case2 i hlt _ _ ih => exact ⟨(Nat.le_succ i).trans (ih hlt).1, (ih hlt).2⟩
  | case3 => exact ⟨le_rfl, hi⟩

theorem argsIndex?_bounds {i j : Nat} (h : t.argsIndex? i = some j) : i < j ∧ j < t.size := by
  unfold Tokenized.argsIndex? at h
  split at h
  · rename_i hk
    cases h
    exact ⟨Nat.lt_succ_self i, Tokenized.lt_size_of_kind? hk⟩
  · split at h
    · rename_i hk
      cases h
      exact ⟨by omega, Tokenized.lt_size_of_kind? hk⟩
    · cases h
  · cases h

namespace Reads

theorem text (h : Reads t start (q :: path) b) (hlt : b.pos < t.size) :
    t.Yields (b.text t q) fun b' => Reads t start (q :: path) b' ∧ b.pos < b'.pos := by
  obtain ⟨hle, hsize⟩ : b.pos + 1 ≤ textEnd t (b.pos + 1) ∧ _ := textEnd_bounds hlt
  unfold Builder.text
  refine (h.leaf .text (by omega)).bind fun ⟨id, b₁⟩ ⟨h₁, hpos₁, _⟩ => ⟨h₁, ?_⟩
  simp only
  omega

theorem echo (h : Reads t start (q :: path) b) (hlt : b.pos < t.size) (kind : NodeKind)
    (stopType : TokenType) (delimiter : String) :
    t.Yields (b.echo t q kind stopType delimiter) fun b' =>
      Reads t start (q :: path) b' ∧ b.pos < b'.pos := by
  unfold Builder.echo
  refine (h.startIn kind).bind fun ⟨id, b₁⟩ ⟨h₁, hpos₁⟩ => ?_
  refine (h₁.bump (by omega)).bind fun b₂ ⟨h₂, hpos₂⟩ => ?_
  refine (h₂.eatContent .echoContent).bind fun ⟨blank, b₃⟩ ⟨h₃, hpos₃⟩ => ?_
  refine (h₃.eat stopType).bind fun ⟨closed, b₄⟩ ⟨h₄, hpos₄⟩ => ?_
  refine h₄.finish.bind fun b₅ ⟨h₅, hpos₅, _⟩ => ?_
  refine .ite (fun _ => ?_) fun _ => .ite (fun _ => ?_) fun _ => ⟨h₅, by omega⟩
  · exact (h₅.reportTokens _ h₅.fits _ _).mono fun b' ⟨h', hpos'⟩ => ⟨h', by omega⟩
  · exact (h₅.reportTokens _ h₅.fits _ _).mono fun b' ⟨h', hpos'⟩ => ⟨h', by omega⟩

theorem delimited (h : Reads t start (q :: path) b) (hlt : b.pos < t.size) (kind : NodeKind)
    (content stopType : TokenType) (endName : Option String) :
    t.Yields (b.delimited t q kind content stopType endName) fun b' =>
      Reads t start (q :: path) b' ∧ b.pos < b'.pos := by
  unfold Builder.delimited
  refine (h.startIn kind).bind fun ⟨id, b₁⟩ ⟨h₁, hpos₁⟩ => ?_
  refine (h₁.bump (by omega)).bind fun b₂ ⟨h₂, hpos₂⟩ => ?_
  refine (h₂.eat content).bind fun ⟨_, b₃⟩ ⟨h₃, hpos₃⟩ => ?_
  refine (h₃.eat stopType).bind fun ⟨closed, b₄⟩ ⟨h₄, hpos₄⟩ => ?_
  refine h₄.finish.bind fun b₅ ⟨h₅, hpos₅, _⟩ => ?_
  cases endName with
  | none => exact ⟨h₅, by omega⟩
  | some name =>
      refine .ite (fun _ => ⟨h₅, by omega⟩) fun _ => ?_
      exact (h₅.reportTokens _ h₅.fits _ _).mono fun b' ⟨h', hpos'⟩ => ⟨h', by omega⟩

theorem verbatim (h : Reads t start (q :: path) b) (hlt : b.pos < t.size) :
    t.Yields (b.verbatim t q) fun b' => Reads t start (q :: path) b' ∧ b.pos < b'.pos := by
  unfold Builder.verbatim
  refine (h.startIn .verbatim).bind fun ⟨id, b₁⟩ ⟨h₁, hpos₁⟩ => ?_
  refine (h₁.bump (by omega)).bind fun b₂ ⟨h₂, hpos₂⟩ => ?_
  refine (h₂.eat .text).bind fun ⟨_, b₃⟩ ⟨h₃, hpos₃⟩ => ?_
  refine (h₃.eat .verbatimEnd).bind fun ⟨closed, b₄⟩ ⟨h₄, hpos₄⟩ => ?_
  refine h₄.finish.bind fun b₅ ⟨h₅, hpos₅, _⟩ => ?_
  refine .ite (fun _ => ⟨h₅, by omega⟩) fun _ => ?_
  exact (h₅.reportTokens _ (by omega) _ _).mono fun b' ⟨h', hpos'⟩ => ⟨h', by omega⟩

theorem directiveLeaf (h : Reads t start (q :: path) b) (hlt : b.pos < t.size)
    (role : DirectiveRole) :
    t.Yields (b.directiveLeaf t q role) fun b' =>
      Reads t start (q :: path) b' ∧ b.pos < b'.pos := by
  have hcount : 0 < (t.argsIndex? b.pos).elim 1 (· + 1 - b.pos) ∧
      b.pos + (t.argsIndex? b.pos).elim 1 (· + 1 - b.pos) ≤ t.size := by
    cases hargs : t.argsIndex? b.pos with
    | none => exact ⟨Nat.one_pos, hlt⟩
    | some i =>
        have := argsIndex?_bounds hargs
        simp only [Option.elim_some]
        omega
  unfold Builder.directiveLeaf
  refine (h.leaf .directive hcount.2).bind fun ⟨id, b₁⟩ ⟨h₁, hpos₁, hid⟩ => ?_
  exact (h₁.setData role.data hid).mono fun b' ⟨h', hpos'⟩ => ⟨h', by omega⟩

end Reads
end Builder
end BladeTree
