import BladeTree.Tree.Directive
import Mathlib.Tactic

namespace BladeTree

/-- What templates are made of: text, start tags, closing tags and directives, with the number of
their arguments if they have a list of them. -/
inductive Symbol where
  | text
  | start (name : String)
  | close (name : String)
  | directive (name : String) (args : Option Nat)
  deriving DecidableEq, Repr

namespace Symbol

/-- The block that a directive opens. -/
def opening? (name : String) (args : Option Nat) : Option BlockRule :=
  Builder.opening? name args.isSome (args.getD 0)

/-- The directive neither opens, divides nor ends any block. -/
def Standalone (name : String) (args : Option Nat) : Prop :=
  opening? name args = none ∧ ¬ isTerminatorName name ∧ ¬ isBranchName name

instance (name : String) (args : Option Nat) : Decidable (Standalone name args) :=
  inferInstanceAs (Decidable (_ ∧ _))

mutual

/-- Elements and blocks that are closed, with text and directives in between. -/
inductive Items : List Symbol → Prop
  | nil : Items []
  | text {rest : List Symbol} : Items rest → Items (.text :: rest)
  | standalone {name : String} {args : Option Nat} {rest : List Symbol} :
      Standalone name args → Items rest → Items (.directive name args :: rest)
  | element {opened closed : String} {content rest : List Symbol} :
      Items content → sameName opened closed → Items rest →
      Items (.start opened :: (content ++ .close closed :: rest))
  | block {name ended : String} {args args' : Option Nat} {rule : BlockRule}
      {content branches rest : List Symbol} :
      opening? name args = some rule → Items content → Branches rule branches →
      rule.isTerminator ended → Items rest →
      Items (.directive name args :: (content ++ (branches ++ .directive ended args' :: rest)))

/-- What follows the first part of a block, up to its end. -/
inductive Branches : BlockRule → List Symbol → Prop
  | nil {rule : BlockRule} : Branches rule []
  | cons {rule : BlockRule} {name : String} {args : Option Nat} {content branches : List Symbol} :
      rule.acceptsBranch name args.isSome → Items content → Branches rule branches →
      Branches rule (.directive name args :: (content ++ branches))

end

/-- What is still to be closed. -/
inductive Pending where
  | element (name : String)
  | block (rule : BlockRule)
  deriving DecidableEq, Repr

/-- What is to be closed after a symbol, the innermost first, if the symbol may stand there. -/
def next? (stack : List Pending) : Symbol → Option (List Pending)
  | .text => some stack
  | .start name => some (.element name :: stack)
  | .close name =>
    match stack with
    | .element opened :: below => if sameName opened name then some below else none
    | _ => none
  | .directive name args =>
    match opening? name args with
    | some rule => some (.block rule :: stack)
    | none =>
      if Standalone name args then some stack
      else
        match stack with
        | .block rule :: below =>
          if rule.acceptsBranch name args.isSome then some stack
          else if rule.isTerminator name then some below
          else none
        | _ => none

def run? (stack : List Pending) (symbols : List Symbol) : Option (List Pending) :=
  symbols.foldlM next? stack

/-! What the block table keeps apart -/

theorem opening?_of_isTerminatorName {name : String} (h : isTerminatorName name)
    (args : Option Nat) : opening? name args = none := by
  have htable : ∀ rule ∈ BlockRule.table, ∀ ended ∈ rule.terminators,
      BlockRule.find? ended = none := by decide
  obtain ⟨rule, hrule, hended⟩ := List.any_eq_true.1 h
  have hnone := htable rule hrule name (List.contains_iff_mem.1 hended)
  rw [opening?, Builder.opening?, hnone]
  rfl

theorem not_isBranchName_of_isTerminatorName {name : String} (h : isTerminatorName name) :
    ¬ isBranchName name := by
  have htable : ∀ rule ∈ BlockRule.table, ∀ ended ∈ rule.terminators,
      isBranchName ended = false := by decide
  obtain ⟨rule, hrule, hended⟩ := List.any_eq_true.1 h
  rw [htable rule hrule name (List.contains_iff_mem.1 hended)]
  exact Bool.false_ne_true

theorem opens_of_isBranchName {name : String} {rule : BlockRule} (h : isBranchName name)
    (hrule : BlockRule.find? name = some rule) (hasArgs : Bool) (arity : Nat) :
    rule.opens hasArgs arity = hasArgs := by
  have htable : ∀ rule ∈ BlockRule.table, ∀ branch ∈ rule.branches,
      (BlockRule.find? branch).all fun r => r.requiresArgs && r.inlineArity.isNone := by decide
  obtain ⟨outer, houter, hbranch⟩ := List.any_eq_true.1 h
  have := htable outer houter name (List.contains_iff_mem.1 hbranch)
  rw [hrule, Option.all_some, Bool.and_eq_true, Option.isNone_iff_eq_none] at this
  rw [BlockRule.opens, this.1, this.2]
  simp

theorem opening?_of_acceptsBranch {rule : BlockRule} {name : String} {args : Option Nat}
    (hname : isBranchName name) (h : rule.acceptsBranch name args.isSome) :
    opening? name args = none := by
  unfold opening? Builder.opening?
  cases hfind : BlockRule.find? name with
  | none => rfl
  | some entry =>
      simp only [BlockRule.acceptsBranch, hfind, Bool.and_eq_true, Bool.not_eq_true',
        Option.isSome_some, Bool.and_true] at h
      rw [Option.filter_some, opens_of_isBranchName hname hfind, h.2]
      rfl

theorem mem_table_of_opening? {name : String} {args : Option Nat} {rule : BlockRule}
    (h : opening? name args = some rule) : rule ∈ BlockRule.table :=
  List.mem_of_find?_eq_some (Option.filter_eq_some_iff.1 h).1

section Next

variable {rule : BlockRule} {name : String} {args : Option Nat} {below stack : List Pending}

theorem isBranchName_of_acceptsBranch {hasArgs : Bool} (hrule : rule ∈ BlockRule.table)
    (h : rule.acceptsBranch name hasArgs) : isBranchName name :=
  List.any_eq_true.2 ⟨rule, hrule, ((Bool.and_eq_true _ _).mp h).1⟩

theorem isTerminatorName_of_isTerminator (hrule : rule ∈ BlockRule.table)
    (h : rule.isTerminator name) : isTerminatorName name :=
  List.any_eq_true.2 ⟨rule, hrule, h⟩

theorem next?_opener (h : opening? name args = some rule) :
    next? stack (.directive name args) = some (.block rule :: stack) := by
  simp only [next?, h]

theorem next?_standalone (h : Standalone name args) :
    next? stack (.directive name args) = some stack := by
  simp only [next?, h.1, h, if_true]

theorem next?_branch (hrule : rule ∈ BlockRule.table) (h : rule.acceptsBranch name args.isSome) :
    next? (.block rule :: below) (.directive name args) = some (.block rule :: below) := by
  have hname := isBranchName_of_acceptsBranch hrule h
  have hnot : ¬ Standalone name args := fun hs => hs.2.2 hname
  simp only [next?, opening?_of_acceptsBranch hname h, hnot, h, if_true, if_false]

theorem next?_terminator (hrule : rule ∈ BlockRule.table) (h : rule.isTerminator name) :
    next? (.block rule :: below) (.directive name args) = some below := by
  have hname := isTerminatorName_of_isTerminator hrule h
  have hnot : ¬ Standalone name args := fun hs => hs.2.1 hname
  have hbranch : ¬ rule.acceptsBranch name args.isSome := fun hb =>
    not_isBranchName_of_isTerminatorName hname (isBranchName_of_acceptsBranch hrule hb)
  simp only [next?, opening?_of_isTerminatorName hname, hnot, hbranch, h, if_true, if_false,
    Bool.false_eq_true]

end Next

theorem run?_cons (stack : List Pending) (symbol : Symbol) (symbols : List Symbol) :
    run? stack (symbol :: symbols) = (next? stack symbol).bind (run? · symbols) := by
  rw [run?, List.foldlM_cons]
  rfl

mutual

theorem Items.run?_append {symbols : List Symbol} (h : Items symbols) (stack : List Pending)
    (rest : List Symbol) : run? stack (symbols ++ rest) = run? stack rest := by
  cases h with
  | nil => rfl
  | text h => exact h.run?_append stack rest
  | standalone hname h =>
      rw [List.cons_append, run?_cons, next?_standalone hname]
      exact h.run?_append stack rest
  | element hcontent hname h =>
      rw [List.cons_append, List.append_assoc, run?_cons]
      refine (hcontent.run?_append _ _).trans ?_
      rw [List.cons_append, run?_cons]
      simp only [next?, hname, if_true]
      exact h.run?_append stack rest
  | block hopen hcontent hbranches hend h =>
      have hrule := mem_table_of_opening? hopen
      rw [List.cons_append, List.append_assoc, List.append_assoc, run?_cons, next?_opener hopen]
      refine (hcontent.run?_append _ _).trans ?_
      rw [hbranches.run?_append hrule, List.cons_append, run?_cons, next?_terminator hrule hend]
      exact h.run?_append stack rest
termination_by symbols.length

theorem Branches.run?_append {rule : BlockRule} {symbols : List Symbol} (h : Branches rule symbols)
    (hrule : rule ∈ BlockRule.table) (below : List Pending) (rest : List Symbol) :
    run? (.block rule :: below) (symbols ++ rest) = run? (.block rule :: below) rest := by
  cases h with
  | nil => rfl
  | cons hname hcontent hbranches =>
      rw [List.cons_append, List.append_assoc, run?_cons, next?_branch hrule hname]
      exact (hcontent.run?_append _ _).trans (hbranches.run?_append hrule below rest)
termination_by symbols.length

end

def Completes : List Pending → List Symbol → Prop
  | [], symbols => Items symbols
  | .element opened :: below, symbols => ∃ content closed rest, Items content ∧
    sameName opened closed ∧ Completes below rest ∧ symbols = content ++ .close closed :: rest
  | .block rule :: below, symbols => ∃ content branches name args rest, Items content ∧
    Branches rule branches ∧ rule.isTerminator name ∧ Completes below rest ∧
      symbols = content ++ (branches ++ .directive name args :: rest)

theorem Completes.prepend (item : List Symbol)
    (hitem : ∀ {symbols}, Items symbols → Items (item ++ symbols)) {stack : List Pending}
    {symbols : List Symbol} (h : Completes stack symbols) : Completes stack (item ++ symbols) := by
  cases stack with
  | nil => exact hitem h
  | cons top below =>
      cases top with
      | element opened =>
          obtain ⟨content, closed, rest, hcontent, hname, hrest, rfl⟩ := h
          exact ⟨item ++ content, closed, rest, hitem hcontent, hname, hrest, by
            rw [List.append_assoc]⟩
      | block rule =>
          obtain ⟨content, branches, name, args, rest, hcontent, hbranches, hend, hrest, rfl⟩ := h
          exact ⟨item ++ content, branches, name, args, rest, hitem hcontent, hbranches, hend, hrest,
            by rw [List.append_assoc]⟩

theorem Completes.of_next? {stack stack' : List Pending} {symbol : Symbol} {symbols : List Symbol}
    (hnext : next? stack symbol = some stack') (h : Completes stack' symbols) :
    Completes stack (symbol :: symbols) := by
  cases symbol with
  | text =>
      obtain rfl : stack = stack' := Option.some.inj hnext
      exact h.prepend [.text] Items.text
  | start name =>
      obtain rfl : .element name :: stack = stack' := Option.some.inj hnext
      obtain ⟨content, closed, rest, hcontent, hname, hrest, rfl⟩ := h
      have hitem {symbols : List Symbol} (hsymbols : Items symbols) :
          Items ((.start name :: (content ++ [.close closed])) ++ symbols) := by
        have := Items.element hcontent hname hsymbols
        simpa using this
      simpa using hrest.prepend _ hitem
  | close name =>
      simp only [next?] at hnext
      split at hnext
      · split at hnext
        · obtain rfl := Option.some.inj hnext
          exact ⟨[], name, symbols, .nil, ‹_›, h, rfl⟩
        · cases hnext
      · cases hnext
  | directive name args =>
      simp only [next?] at hnext
      split at hnext
      · rename_i rule hopen
        obtain rfl := Option.some.inj hnext
        obtain ⟨content, branches, ended, args', rest, hcontent, hbranches, hend, hrest, rfl⟩ := h
        have hitem {symbols : List Symbol} (hsymbols : Items symbols) :
            Items ((.directive name args :: (content ++ (branches ++ [.directive ended args']))) ++
              symbols) := by
          have hblock : Items (.directive name args ::
              (content ++ (branches ++ .directive ended args' :: symbols))) :=
            .block hopen hcontent hbranches hend hsymbols
          simpa using hblock
        simpa using hrest.prepend _ hitem
      · split at hnext
        · obtain rfl : stack = stack' := Option.some.inj hnext
          exact h.prepend [.directive name args] (Items.standalone ‹_›)
        · split at hnext
          · split at hnext
            · obtain rfl := Option.some.inj hnext
              obtain ⟨content, branches, ended, args', rest, hcontent, hbranches, hend, hrest, rfl⟩ :=
                h
              exact ⟨[], .directive name args :: (content ++ branches), ended, args', rest, .nil,
                .cons ‹_› hcontent hbranches, hend, hrest, by simp⟩
            · split at hnext
              · obtain rfl := Option.some.inj hnext
                exact ⟨[], [], name, args, symbols, .nil, .nil, ‹_›, h, rfl⟩
              · cases hnext
          · cases hnext

theorem completes_of_run? {stack : List Pending} {symbols : List Symbol}
    (h : run? stack symbols = some []) : Completes stack symbols := by
  induction symbols generalizing stack with
  | nil =>
      obtain rfl : stack = [] := Option.some.inj h
      exact Items.nil
  | cons symbol symbols ih =>
      rw [run?_cons] at h
      obtain ⟨stack', hnext, hrun⟩ := Option.bind_eq_some_iff.1 h
      exact Completes.of_next? hnext (ih hrun)

/-- The machine comes to the end with nothing left to close on closed elements and blocks only. -/
theorem run?_eq_some_nil_iff (symbols : List Symbol) :
    run? [] symbols = some [] ↔ Items symbols := by
  constructor
  · exact completes_of_run?
  · intro h
    have := h.run?_append [] []
    rwa [List.append_nil] at this

end Symbol
end BladeTree
