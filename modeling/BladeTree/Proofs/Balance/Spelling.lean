import BladeTree.Proofs.Balance.Grammar
import BladeTree.Proofs.Tree.Admission
import BladeTree.Proofs.Tree.Silent

namespace BladeTree

/-- The tokens of a source are those of symbols: text, start tags without attributes, closing tags
and directives with or without arguments. -/
inductive Spelled (s : Source) : List Token → List Symbol → Prop
  | nil : Spelled s [] []
  | text {u : Token} {us : List Token} {symbols : List Symbol} :
      u.kind = .text → Spelled s us symbols → Spelled s (u :: us) (.text :: symbols)
  | start {less tag greater : Token} (generic : Option Token) (blanks : List Token)
      {us : List Token} {name : String} {symbols : List Symbol} :
      less.kind = .lessThan → tag.kind = .tagName → tag.text s = name →
      (∀ u ∈ generic, u.kind = .genericArgs) → (∀ u ∈ blanks, u.kind = .whitespace) →
      greater.kind = .greaterThan → Spelled s us symbols →
      Spelled s (less :: tag :: (generic.toList ++ (blanks ++ greater :: us)))
        (.start name :: symbols)
  | close {less slash tag greater : Token} (blanks : List Token) {us : List Token}
      {name : String} {symbols : List Symbol} :
      less.kind = .lessThan → slash.kind = .slash → tag.kind = .tagName → tag.text s = name →
      (∀ u ∈ blanks, u.kind = .whitespace) → greater.kind = .greaterThan → Spelled s us symbols →
      Spelled s (less :: slash :: tag :: (blanks ++ greater :: us)) (.close name :: symbols)
  | directive {u : Token} {name : String} {us : List Token} {symbols : List Symbol} :
      u.kind = .directive → u.text s = "@" ++ name → Spelled s us symbols →
      Spelled s (u :: us) (.directive name none :: symbols)
  | directiveArgs {u args : Token} {name : String} {n : Nat} (blank : Option Token)
      {us : List Token} {symbols : List Symbol} :
      u.kind = .directive → u.text s = "@" ++ name → (∀ u ∈ blank, u.kind = .whitespace) →
      args.kind = .directiveArgs → (s.countArguments .empty args.start args.stop).1 = n →
      Spelled s us symbols →
      Spelled s (u :: (blank.toList ++ args :: us)) (.directive name (some n) :: symbols)

/-- No end of the element may be left out, and the directive has the arguments that it needs. -/
def Symbol.Plain : Symbol → Prop
  | .start name => isVoidElement name = false ∧ OptionalTag.isListed name = false
  | .directive name none => name ≠ "isset" ∧ name ∉ Builder.needsArguments
  | _ => True

def Frame.Plain (f : Frame) : Prop :=
  match f.kind with
  | .element name => OptionalTag.isListed name = false
  | .directive rule _ => rule ∈ BlockRule.table

theorem Spelled.kind_head {s : Source} {u : Token} {us : List Token} {symbols : List Symbol}
    (h : Spelled s (u :: us) symbols) :
    u.kind = .text ∨ u.kind = .lessThan ∨ u.kind = .directive := by
  cases h with
  | text hu _ => exact .inl hu
  | start _ _ hu _ _ _ _ _ _ => exact .inr (.inl hu)
  | close _ hu _ _ _ _ _ _ => exact .inr (.inl hu)
  | directive hu _ _ => exact .inr (.inr hu)
  | directiveArgs _ hu _ _ _ _ _ => exact .inr (.inr hu)

theorem OptionalTag.endsAtSibling_of_not_listed {name : String} (h : isListed name = false)
    (sibling : String) : endsAtSibling name sibling = false := by
  rw [isListed, Option.isSome_eq_false_iff, Option.isNone_iff_eq_none] at h
  rw [endsAtSibling, h]
  rfl

theorem OptionalTag.endsWithParent_of_not_listed {name : String} (h : isListed name = false)
    (parent : String) : endsWithParent name parent = false := by
  rw [isListed, Option.isSome_eq_false_iff, Option.isNone_iff_eq_none] at h
  rw [endsWithParent, h]
  rfl

namespace Frame

def pending (f : Frame) : Symbol.Pending :=
  match f.kind with
  | .element name => .element name
  | .directive rule _ => .block rule

section Plain

variable {stack : List Frame} (h : ∀ f ∈ stack, f.Plain)
include h

theorem endsWithParent_of_plain : endsWithParent stack = false := by
  cases stack with
  | nil => rfl
  | cons f below =>
      obtain ⟨node, kind⟩ := f
      cases kind with
      | directive rule name => rfl
      | element name =>
          have hname : OptionalTag.isListed name = false := h _ List.mem_cons_self
          simp only [endsWithParent, elementName?, Option.any_some]
          split
          · exact OptionalTag.endsWithParent_of_not_listed hname _
          · exact hname

theorem siblingTarget_of_plain (name : String) : siblingTarget name stack = none := by
  cases stack with
  | nil => rfl
  | cons f below =>
      have hends := endsWithParent_of_plain h
      obtain ⟨node, kind⟩ := f
      cases kind with
      | directive rule name => rfl
      | element opened =>
          have hname : OptionalTag.isListed opened = false := h _ List.mem_cons_self
          simp only [siblingTarget, elementName?, hends,
            OptionalTag.endsAtSibling_of_not_listed hname, Bool.not_false, Bool.or_true, if_true,
            Bool.false_eq_true, if_false]

theorem closedByDirective_of_plain (name : String) :
    (Builder.closedByDirective name stack).1.isImplied = false := by
  have hno : (stack.head?.bind elementName?).any OptionalTag.isListed = false := by
    cases stack with
    | nil => rfl
    | cons f below =>
        obtain ⟨node, kind⟩ := f
        cases kind with
        | directive rule name => rfl
        | element opened => exact h _ List.mem_cons_self
  rw [Builder.closedByDirective, hno]
  rfl

theorem closedByTag_of_plain (name : String) :
    (Builder.closedByTag name stack).1.isImplied = false := by
  rw [Builder.closedByTag, endsWithParent_of_plain h]
  rfl

theorem closedByEnd_of_plain : (Builder.closedByEnd stack).1.isImplied = false := by
  rw [Builder.closedByEnd, endsWithParent_of_plain h]
  rfl

end Plain

theorem closeTarget_blocked (name : String) (above : Nat) (stack : List Frame) :
    closeTarget name above true stack = .blocked := by
  induction stack generalizing above with
  | nil => rfl
  | cons f below ih =>
      unfold closeTarget
      split
      · exact ih _
      · split
        · rfl
        · exact ih _

theorem closeTarget_ne_element (name : String) {above k : Nat} (hk : k < above)
    (stack : List Frame) : closeTarget name above false stack ≠ .element k := by
  induction stack generalizing above with
  | nil => exact nofun
  | cons f below ih =>
      unfold closeTarget
      split
      · rw [closeTarget_blocked]
        exact nofun
      · split
        · rintro ⟨⟩
          exact absurd hk (Nat.lt_irrefl _)
        · exact ih (hk.trans (Nat.lt_succ_self _))

theorem next?_close (name : String) (stack : List Frame) :
    Symbol.next? (stack.map pending) (.close name) =
      if closeTarget name 0 false stack = .element 0 then some (stack.tail.map pending)
      else none := by
  cases stack with
  | nil => rfl
  | cons f below =>
      obtain ⟨node, kind⟩ := f
      cases kind with
      | directive rule opened =>
          rw [closeTarget, closeTarget_blocked]
          rfl
      | element opened =>
          have hno := closeTarget_ne_element name Nat.one_pos below
          by_cases hname : sameName opened name
          · simp only [List.map_cons, pending, Symbol.next?, closeTarget, hname, if_true,
              Bool.false_eq_true, if_false, List.tail_cons]
          · simp only [List.map_cons, pending, Symbol.next?, closeTarget, hname, if_false,
              Bool.false_eq_true, hno]

end Frame
end BladeTree
