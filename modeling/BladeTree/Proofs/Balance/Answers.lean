import BladeTree.Proofs.Balance.Place
import BladeTree.Proofs.Balance.Reading

namespace BladeTree
namespace Builder

def pending (b : Builder) : List Symbol.Pending := b.stack.map Frame.pending

/-- `b'` comes after a symbol that was read silently if it may stand there, with the tokens `us`
ahead. Otherwise something was reported. -/
def Answers (t : Tokenized) (b : Builder) (symbol : Symbol) (us : List Token) (b' : Builder) :
    Prop :=
  match Symbol.next? b.pending symbol with
  | some pending => b'.pending = pending ∧ (∀ f ∈ b'.stack, f.Plain) ∧
    b'.Stands t us b'.stack b.diagnostics
  | none => Reports b b'

variable {t : Tokenized} {b b' : Builder} {symbol : Symbol} {symbols : List Symbol}
variable {us : List Token} {stack : List Frame} {name : String} {args : Option Nat}

theorem Stands.answers (h : b'.Stands t us stack b.diagnostics) (hplain : ∀ f ∈ stack, f.Plain)
    (hnext : Symbol.next? b.pending symbol = some (stack.map Frame.pending)) :
    b.Answers t symbol us b' := by
  obtain ⟨hrest, rfl, hlog⟩ := h
  rw [Answers, hnext]
  exact ⟨rfl, hplain, hrest, rfl, hlog⟩

theorem Reports.answers (h : Reports b b') (hnext : Symbol.next? b.pending symbol = none) :
    b.Answers t symbol us b' := by
  rwa [Answers, hnext]

/-! Directives -/

theorem directivePlace_nil {hasArgs : Bool} {arity above : Nat} :
    directivePlace [] name hasArgs arity ≠ .branch above ∧
      directivePlace [] name hasArgs arity ≠ .terminator above := by
  unfold directivePlace directivePlace.outside
  simp only [Frame.nearestBlock?, Frame.terminatedBlock?, List.findIdx?_nil]
  split
  · exact ⟨nofun, nofun⟩
  · split
    · exact ⟨nofun, nofun⟩
    · split
      · exact ⟨nofun, nofun⟩
      · exact ⟨nofun, nofun⟩

theorem not_isBranchName_of_standalone {arity : Nat}
    (h : directivePlace stack name false arity = .standalone) : ¬ isBranchName name := by
  have houtside (h : directivePlace.outside stack name false arity = .standalone) :
      ¬ isBranchName name := by
    unfold directivePlace.outside at h
    split at h
    · cases h
    · split at h
      · cases h
      · split at h
        · cases h
        · split at h
          · cases h
          · rename_i hbranch
            simpa using hbranch
  unfold directivePlace at h
  split at h
  · split at h
    · cases h
    · exact houtside h
  · exact houtside h

theorem requiresArgs_eq_false (hname : name ≠ "isset") (hbranch : ¬ isBranchName name) :
    (BlockRule.find? name).any (·.requiresArgs) = false := by
  have htable : ∀ rule ∈ BlockRule.table,
      rule.requiresArgs → rule.name = "isset" ∨ isBranchName rule.name := by decide
  cases hrule : BlockRule.find? name with
  | none => rfl
  | some rule =>
      have hentry : rule.name = name := by simpa using List.find?_some hrule
      by_contra hrequires
      rw [Option.any_some, Bool.not_eq_false] at hrequires
      have := htable rule (List.mem_of_find?_eq_some hrule) hrequires
      rw [hentry] at this
      exact this.elim hname hbranch

theorem returns_place (hat : t.DirectiveAt b.pos name args us) (hplain : ∀ f ∈ b.stack, f.Plain)
    (hargs : (Symbol.directive name args).Plain) :
    Build.Returns (b.place t name b.pos args.isSome
      (directivePlace b.stack name args.isSome (args.getD 0)))
      (b.Answers t (.directive name args) us) := by
  have hstands := Stands.refl t b
  have hrefl : Extends b.nodes.size b b := .refl le_rfl
  have hnext : Symbol.next? b.pending (.directive name args) = _ := Frame.next?_directive hplain
  have hnil : b.stack = [] → directivePlace b.stack name args.isSome (args.getD 0) =
      directivePlace [] name args.isSome (args.getD 0) := fun hstack => by rw [hstack]
  have hclose : (closedByDirective name b.stack).1.isImplied = false :=
    Frame.closedByDirective_of_plain hplain name
  cases hplace : directivePlace b.stack name args.isSome (args.getD 0) with
  | branch above =>
      rw [hplace] at hnext hnil
      cases above with
      | zero =>
          exact (hstands.directiveLeaf hat b.parent .branch).mono fun b' h' => h'.answers hplain hnext
      | succ above =>
          have hstack : b.stack ≠ [] := fun hstack => directivePlace_nil.1 (hnil hstack).symm
          refine (returns_forceCloseMany hstack hclose b.pos above).bind fun b₁ h₁ => ?_
          have hrefl₁ : Extends b₁.nodes.size b₁ b₁ := .refl le_rfl
          exact (hrefl₁.directiveLeaf _ _).returns.mono fun b' h' => (h₁.extends h').answers hnext
  | terminator above =>
      rw [hplace] at hnext hnil
      have hstack : b.stack ≠ [] := fun hstack => directivePlace_nil.2 (hnil hstack).symm
      cases above with
      | zero =>
          refine (hstands.directiveLeaf hat b.parent .closer).bind fun b₁ h₁ => ?_
          refine (h₁.popFrame b₁.pos).bind fun ⟨_, b₂⟩ ⟨_, h₂⟩ => .ok ?_
          refine h₂.answers (fun f hf => hplain f (List.mem_of_mem_tail hf)) ?_
          rw [hnext, List.map_tail]
          rfl
      | succ above =>
          refine (returns_forceCloseMany hstack hclose b.pos above).bind fun b₁ h₁ => ?_
          have hrefl₁ : Extends b₁.nodes.size b₁ b₁ := .refl le_rfl
          refine (hrefl₁.directiveLeaf _ _).returns.bind fun b₂ h₂ => ?_
          exact (h₂.popFrame _).returns.bind fun ⟨_, b₃⟩ h₃ => .ok ((h₁.extends h₃).answers hnext)
  | opener rule =>
      rw [hplace] at hnext
      refine (hstands.openBlock hat rule).mono fun b' ⟨f, hf, h'⟩ => ?_
      obtain ⟨node, kind⟩ := f
      obtain rfl : kind = .directive rule name := hf
      refine h'.answers (fun f hf => ?_) hnext
      rcases List.mem_cons.1 hf with rfl | hf
      · exact List.mem_of_find?_eq_some (find?_of_opener hplace)
      · exact hplain f hf
  | strayTerminator =>
      rw [hplace] at hnext
      refine (hrefl.directiveLeaf _ _).returns.bind fun b₁ h₁ => ?_
      exact (returns_reportTokens b₁ _ _ _ _ _).mono fun b' h' => (h₁.reports h').answers hnext
  | strayBranch =>
      rw [hplace] at hnext
      refine (hrefl.directiveLeaf _ _).returns.bind fun b₁ h₁ => ?_
      exact (returns_reportTokens b₁ _ _ _ _ _).mono fun b' h' => (h₁.reports h').answers hnext
  | standalone =>
      rw [hplace] at hnext
      have hsilent : (!args.isSome && (BlockRule.find? name).any (·.requiresArgs)) = false := by
        cases args with
        | some n => rfl
        | none => exact requiresArgs_eq_false hargs.1 (not_isBranchName_of_standalone hplace)
      refine (hstands.directiveLeaf hat b.parent .standalone).bind fun b₁ h₁ => ?_
      rw [hsilent]
      exact .ok (h₁.answers hplain hnext)

theorem returns_directive (hat : t.DirectiveAt b.pos name args us)
    (hplain : ∀ f ∈ b.stack, f.Plain) (hargs : (Symbol.directive name args).Plain) :
    Build.Returns (b.directive t) (b.Answers t (.directive name args) us) := by
  have hsilent : (!args.isSome && needsArguments.contains name) = false := by
    cases args with
    | some n => rfl
    | none => simpa using hargs.2
  rw [directive_eq]
  simp only [hat.name, hat.hasArgs, hat.arity, hsilent, ok_bind]
  exact returns_place hat hplain hargs

end Builder
end BladeTree
