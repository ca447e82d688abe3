import BladeTree.Proofs.Balance.Spelling

namespace BladeTree

def Builder.DirectivePlace.next? (stack : List Symbol.Pending) :
    Builder.DirectivePlace → Option (List Symbol.Pending)
  | .branch 0 | .standalone => some stack
  | .terminator 0 => some stack.tail
  | .opener rule => some (.block rule :: stack)
  | _ => none

namespace Frame

variable {stack : List Frame} {name : String} {args : Option Nat}

theorem mem_table_of_nearestBlock? (hplain : ∀ f ∈ stack, f.Plain) {n above : Nat}
    {rule : BlockRule} (h : nearestBlock? n stack = some (above, rule)) :
    n ≤ above ∧ rule ∈ BlockRule.table := by
  induction stack generalizing n with
  | nil => cases h
  | cons f below ih =>
      have hf := hplain f List.mem_cons_self
      obtain ⟨node, kind⟩ := f
      cases kind with
      | directive rule' opened =>
          cases h
          exact ⟨le_rfl, hf⟩
      | element opened =>
          obtain ⟨hle, hrule⟩ := ih (fun f' hf' => hplain f' (List.mem_cons_of_mem _ hf')) h
          exact ⟨(Nat.le_succ n).trans hle, hrule⟩

theorem isTerminatorName_of_terminatedBlock? (hplain : ∀ f ∈ stack, f.Plain) {above : Nat}
    (h : terminatedBlock? name stack = some above) : isTerminatorName name := by
  obtain ⟨hlt, hends, -⟩ := List.findIdx?_eq_some_iff_getElem.1 h
  have hf := hplain _ (List.getElem_mem hlt)
  generalize stack[above] = f at hends hf
  obtain ⟨node, kind⟩ := f
  cases kind with
  | element opened => cases hends
  | directive rule opened => exact Symbol.isTerminatorName_of_isTerminator hf hends

section Place

variable (hplain : ∀ f ∈ stack, f.Plain)
include hplain

theorem directivePlace_of_not_branch
    (h : ∀ rule ∈ BlockRule.table, ¬ rule.acceptsBranch name args.isSome) :
    Builder.directivePlace stack name args.isSome (args.getD 0) =
      Builder.directivePlace.outside stack name args.isSome (args.getD 0) := by
  unfold Builder.directivePlace
  split
  · rename_i above rule hnear
    rw [if_neg (h rule (mem_table_of_nearestBlock? hplain hnear).2)]
  · rfl

theorem directivePlace_of_opening? {rule : BlockRule}
    (h : Symbol.opening? name args = some rule) :
    Builder.directivePlace stack name args.isSome (args.getD 0) = .opener rule := by
  rw [directivePlace_of_not_branch hplain, Builder.directivePlace.outside]
  · cases hends : terminatedBlock? name stack with
    | some above =>
        have hname := isTerminatorName_of_terminatedBlock? hplain hends
        cases (Symbol.opening?_of_isTerminatorName hname args).symm.trans h
    | none =>
        rw [Symbol.opening?] at h
        simp only [h]
  · intro outer houter hbranch
    have hname := Symbol.isBranchName_of_acceptsBranch houter hbranch
    cases (Symbol.opening?_of_acceptsBranch hname hbranch).symm.trans h

theorem directivePlace_of_standalone (h : Symbol.Standalone name args) :
    Builder.directivePlace stack name args.isSome (args.getD 0) = .standalone := by
  obtain ⟨hopen, hterminator, hbranch⟩ := h
  rw [directivePlace_of_not_branch hplain, Builder.directivePlace.outside]
  · cases hends : terminatedBlock? name stack with
    | some above => exact absurd (isTerminatorName_of_terminatedBlock? hplain hends) hterminator
    | none =>
        rw [Symbol.opening?] at hopen
        simp only [hopen, hterminator, hbranch, Bool.false_and, Bool.false_eq_true, if_false]
  · intro rule hrule haccepts
    exact hbranch (Symbol.isBranchName_of_acceptsBranch hrule haccepts)

end Place

theorem next?_outside (hopen : Symbol.opening? name args = none)
    (hnot : ¬ Symbol.Standalone name args) (stack : List Frame)
    (pending : List Symbol.Pending) :
    (Builder.directivePlace.outside stack name args.isSome (args.getD 0)).next? pending =
      if terminatedBlock? name stack = some 0 then some pending.tail else none := by
  have hopen' : Builder.opening? name args.isSome (args.getD 0) = none := hopen
  unfold Builder.directivePlace.outside
  cases hends : terminatedBlock? name stack with
  | some above =>
      cases above with
      | zero => rfl
      | succ above => rfl
  | none =>
      simp only [hopen', reduceCtorEq, if_false]
      split
      · rfl
      · rename_i hterminator
        have hbranch : isBranchName name := by
          by_contra hbranch
          exact hnot ⟨hopen, hterminator, hbranch⟩
        have hshut : (args.isSome && (BlockRule.find? name).isSome) = false := by
          by_contra hboth
          simp only [Bool.not_eq_false, Bool.and_eq_true] at hboth
          obtain ⟨rule, hrule⟩ := Option.isSome_iff_exists.1 hboth.2
          rw [Builder.opening?, hrule, Option.filter_some,
            Symbol.opens_of_isBranchName hbranch hrule, hboth.1] at hopen'
          cases hopen'
        rw [hbranch, hshut]
        rfl

/-- A directive may stand where its place is that of an opener, a single directive or a branch or
end of the block on top. -/
theorem next?_directive (hplain : ∀ f ∈ stack, f.Plain) :
    Symbol.next? (stack.map pending) (.directive name args) =
      (Builder.directivePlace stack name args.isSome (args.getD 0)).next? (stack.map pending) := by
  cases hopen : Symbol.opening? name args with
  | some rule =>
      rw [Symbol.next?_opener hopen, directivePlace_of_opening? hplain hopen]
      rfl
  | none =>
      by_cases hstandalone : Symbol.Standalone name args
      · rw [Symbol.next?_standalone hstandalone, directivePlace_of_standalone hplain hstandalone]
        rfl
      · simp only [Symbol.next?, hopen, hstandalone, if_false]
        have houtside := next?_outside hopen hstandalone
        unfold Builder.directivePlace
        cases stack with
        | nil => exact (houtside [] []).symm
        | cons f below =>
            obtain ⟨node, kind⟩ := f
            cases kind with
            | directive rule opened =>
                have hnear : nearestBlock? 0 (⟨node, .directive rule opened⟩ :: below) =
                  some (0, rule) := rfl
                simp only [List.map_cons, pending, hnear]
                split
                · rfl
                · rw [houtside, terminatedBlock?, List.findIdx?_cons]
                  simp only [blockRule?, Option.any_some, List.tail_cons]
                  by_cases hends : rule.isTerminator name
                  · simp only [hends, if_true]
                  · cases terminatedBlock? name below <;> simp [hends]
            | element opened =>
                have hfar : terminatedBlock? name (⟨node, .element opened⟩ :: below) ≠ some 0 := by
                  rw [terminatedBlock?, List.findIdx?_cons]
                  simp [blockRule?]
                have hnear : nearestBlock? 0 (⟨node, .element opened⟩ :: below) =
                  nearestBlock? 1 below := rfl
                rw [hnear]
                cases hblock : nearestBlock? 1 below with
                | none =>
                    simp only
                    rw [houtside, if_neg hfar]
                    rfl
                | some block =>
                    obtain ⟨above, rule⟩ := block
                    have hpos := (mem_table_of_nearestBlock?
                      (fun f hf => hplain f (List.mem_cons_of_mem _ hf)) hblock).1
                    obtain ⟨above, rfl⟩ := Nat.exists_eq_succ_of_ne_zero (Nat.ne_of_gt hpos)
                    by_cases haccepts : rule.acceptsBranch name args.isSome
                    · simp only [haccepts, if_true]
                      rfl
                    · simp only [haccepts, if_false, Bool.false_eq_true]
                      rw [houtside, if_neg hfar]
                      rfl

end Frame
end BladeTree
