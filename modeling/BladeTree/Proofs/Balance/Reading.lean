import BladeTree.Proofs.Balance.Spelling

namespace BladeTree
namespace Tokenized

variable {t : Tokenized} {i : Nat} {name : String} {args : Option Nat} {us : List Token}

structure DirectiveAt (t : Tokenized) (i : Nat) (name : String) (args : Option Nat)
    (us : List Token) : Prop where
  name : t.directiveName i = .ok name
  hasArgs : (t.argsIndex? i).isSome = args.isSome
  arity : (t.argsIndex? i).elim (pure 0) t.argumentCount = .ok (args.getD 0)
  rest : t.rest (i + (t.argsIndex? i).elim 1 (· + 1 - i)) = us

theorem directiveName_eq {u : Token} (hrest : t.rest i = u :: us)
    (htext : u.text t.source = "@" ++ name) : t.directiveName i = .ok name := by
  have hname : (("@" ++ name).dropPrefix? "@").elim ("@" ++ name) (·.toString) = name := by
    cases hdrop : ("@" ++ name).dropPrefix? "@" with
    | some rest =>
        have happend := String.eq_append_of_dropPrefix?_string_eq_some hdrop
        exact ((String.append_right_inj _).1 happend).symm
    | none =>
        have hno := String.Slice.dropPrefix?_eq_none_iff.1 hdrop
        rw [String.startsWith_toSlice, String.startsWith_string_eq_false_iff,
          String.toList_append] at hno
        exact absurd (List.prefix_append _ _) hno
  unfold directiveName
  rw [text_of_rest hrest, htext, Builder.ok_bind, hname]
  rfl

theorem directiveAt_of_no_args {u : Token} (hrest : t.rest i = u :: us)
    (htext : u.text t.source = "@" ++ name)
    (hus : ∀ u' ∈ us.head?, u'.kind ≠ .directiveArgs ∧ u'.kind ≠ .whitespace) :
    t.DirectiveAt i name none us := by
  have hargs : t.argsIndex? i = none := by
    have hkind := t.kind?_eq (i + 1)
    rw [rest_succ hrest] at hkind
    rw [argsIndex?, hkind]
    cases us with
    | nil => rfl
    | cons u' us' =>
        obtain ⟨hne, hne'⟩ := hus u' rfl
        rw [List.head?_cons, Option.map_some]
        generalize u'.kind = kind at hne hne'
        cases kind <;> first | rfl | contradiction
  refine ⟨directiveName_eq hrest htext, ?_, ?_, ?_⟩
  · rw [hargs]
  · rw [hargs]
    rfl
  · rw [hargs]
    exact rest_succ hrest

theorem directiveAt_of_args {u a : Token} {blank : Option Token}
    (hrest : t.rest i = u :: (blank.toList ++ a :: us)) (htext : u.text t.source = "@" ++ name)
    (hblank : ∀ u ∈ blank, u.kind = .whitespace) (ha : a.kind = .directiveArgs) :
    t.DirectiveAt i name (some (t.source.countArguments .empty a.start a.stop).1) us := by
  have hargs : t.argsIndex? i = some (i + blank.toList.length + 1) := by
    have hkind := t.kind?_eq (i + 1)
    rw [rest_succ hrest] at hkind
    rw [argsIndex?, hkind]
    cases blank with
    | none =>
        simp only [Option.toList_none, List.nil_append, List.head?_cons, Option.map_some, ha]
        rfl
    | some blank =>
        have hnext : t.rest (i + 2) = a :: us := rest_add hrest 2
        simp only [Option.toList_some, List.cons_append, List.head?_cons, Option.map_some,
          hblank blank rfl, kind?_of_rest hnext, ha, if_true]
        rfl
  have hat : t.rest (i + blank.toList.length + 1) = a :: us := by
    rw [Nat.add_assoc, rest_add hrest, List.drop_succ_cons, List.drop_left]
  refine ⟨directiveName_eq hrest htext, ?_, ?_, ?_⟩
  · rw [hargs]
    rfl
  · rw [hargs]
    change t.argumentCount _ = _
    unfold argumentCount token
    rw [getElem?_of_rest hat]
    rfl
  · rw [hargs, Option.elim_some, show i + (i + blank.toList.length + 1 + 1 - i) =
      i + blank.toList.length + 1 + 1 by omega]
    exact rest_succ hat

end Tokenized

namespace Builder

variable {t : Tokenized} {b : Builder} {us : List Token} {stack : List Frame}
variable {log : Array Diagnostic}

/-! Text -/

theorem exists_textEnd {i : Nat} {symbols : List Symbol}
    (h : Spelled t.source (t.rest i) symbols) :
    ∃ k symbols', symbols = List.replicate k .text ++ symbols' ∧ textEnd t i = i + k ∧
      Spelled t.source (t.rest (i + k)) symbols' := by
  induction hus : t.rest i generalizing i symbols with
  | nil =>
      refine ⟨0, symbols, rfl, ?_, h⟩
      rw [textEnd_eq, t.kind?_eq, hus]
      rfl
  | cons u us ih =>
      have hrest := Tokenized.rest_succ hus
      rw [textEnd_eq, Tokenized.kind?_of_rest hus]
      rw [hus] at h
      have hstop (hkind : u.kind = .lessThan ∨ u.kind = .directive) : ∃ k symbols',
          symbols = List.replicate k .text ++ symbols' ∧
            (if u.kind.startsConstruct || u.kind.isExtension then i else textEnd t (i + 1)) =
              i + k ∧ Spelled t.source (t.rest (i + k)) symbols' := by
        refine ⟨0, symbols, rfl, ?_, hus ▸ h⟩
        rcases hkind with hkind | hkind <;> rw [hkind] <;> rfl
      cases h with
      | text hu h =>
          rw [← hrest] at h
          obtain ⟨k, symbols', rfl, hend, h'⟩ := ih h hrest
          refine ⟨k + 1, symbols', rfl, ?_, ?_⟩
          · rw [hu, hend, Nat.add_right_comm, Nat.add_assoc]
            rfl
          · rwa [Nat.add_right_comm, Nat.add_assoc] at h'
      | start _ _ hu => exact hstop (.inl hu)
      | close _ hu => exact hstop (.inl hu)
      | directive hu => exact hstop (.inr hu)
      | directiveArgs _ hu => exact hstop (.inr hu)

namespace Stands

/-! Start tags -/

theorem closeForSibling (h : b.Stands t us stack log) (hplain : ∀ f ∈ stack, f.Plain)
    (name : String) : Build.Returns (b.closeForSibling t name) (·.Stands t us stack log) := by
  rw [Builder.closeForSibling, h.stack, Frame.siblingTarget_of_plain hplain]
  exact .ok h

theorem eatGenericArgs {generic : Option Token} {u : Token}
    (h : b.Stands t (generic.toList ++ u :: us) stack log)
    (hgeneric : ∀ u ∈ generic, u.kind = .genericArgs) (hu : u.kind ≠ .genericArgs)
    (element first : Nat) :
    Build.Returns (b.eatGenericArgs t element first) (·.Stands t (u :: us) stack log) := by
  have hat : b.isAt t .genericArgs = generic.isSome := by
    rw [isAt, current?, t.kind?_eq, h.rest]
    cases generic with
    | none => exact beq_false_of_ne fun heq => hu (Option.some.inj heq)
    | some v =>
        have hv : v.kind = .genericArgs := hgeneric v rfl
        simp only [Option.toList_some, List.cons_append, List.head?_cons, Option.map_some, hv]
        rfl
  rw [Builder.eatGenericArgs, hat]
  cases generic with
  | none => exact .ok h
  | some v =>
      have h' : { b with metadata := b.metadata.setGenericArgsOffset element (b.pos - first)
          }.Stands t (v :: u :: us) stack log := ⟨h.rest, h.stack, h.diagnostics⟩
      exact h'.bump

theorem tagItems {blanks : List Token} {greater : Token}
    (h : b.Stands t (blanks ++ greater :: us) stack log)
    (hblanks : ∀ u ∈ blanks, u.kind = .whitespace) (hgreater : greater.kind = .greaterThan)
    (element : Nat) :
    Build.Returns (Builder.tagItems t element b) fun p =>
      p.1 = .closed ∧ p.2.Stands t us stack log := by
  induction blanks generalizing b with
  | nil =>
      have hkind : b.current? t = some .greaterThan := by
        rw [current?, Tokenized.kind?_of_rest h.rest, hgreater]
      rw [Builder.tagItems, hkind]
      exact h.bump.bind fun b₁ h₁ => .ok ⟨rfl, h₁⟩
  | cons u blanks ih =>
      have hkind : b.current? t = some .whitespace := by
        rw [current?, Tokenized.kind?_of_rest h.rest, hblanks u List.mem_cons_self]
      rw [Builder.tagItems, hkind]
      simp only [tagItem?]
      refine h.bump.bind fun b₁ h₁ => ?_
      split
      · exact ih h₁ fun u' hu' => hblanks u' (List.mem_cons_of_mem _ hu')
      · exact .fault

theorem startTag {less name greater : Token} {generic : Option Token} {blanks : List Token}
    (h : b.Stands t (less :: name :: (generic.toList ++ (blanks ++ greater :: us))) stack log)
    (hplain : ∀ f ∈ stack, f.Plain) (hgeneric : ∀ u ∈ generic, u.kind = .genericArgs)
    (hblanks : ∀ u ∈ blanks, u.kind = .whitespace) (hgreater : greater.kind = .greaterThan)
    (hvoid : isVoidElement (name.text t.source) = false) :
    Build.Returns (b.startTag t) fun b' => ∃ f : Frame,
      f.kind = .element (name.text t.source) ∧ b'.Stands t us (f :: stack) log := by
  have hname : t.text (b.pos + 1) = .ok (name.text t.source) :=
    Tokenized.text_of_rest (Tokenized.rest_succ h.rest)
  have hopen : Build.Returns (b.openTag t) fun opened => opened.1 = name.text t.source ∧
      opened.2.2.1 = .closed ∧ opened.2.2.2.Stands t us stack log := by
    unfold openTag
    rw [hname]
    refine (h.closeForSibling hplain _).bind fun b₁ h₁ => ?_
    refine (h₁.startIn _ _).bind fun started h₂ => ?_
    obtain ⟨element, b₂⟩ := started
    refine h₂.bump.bind fun b₃ h₃ => ?_
    refine (h₃.leaf element .elementName 1).bind fun named h₄ => ?_
    obtain ⟨_, b₄⟩ := named
    have hafter : ∃ u us', blanks ++ greater :: us = u :: us' ∧ u.kind ≠ .genericArgs := by
      cases blanks with
      | nil => exact ⟨greater, us, rfl, by rw [hgreater]; decide⟩
      | cons u blanks => exact ⟨u, _, rfl, by rw [hblanks u List.mem_cons_self]; decide⟩
    obtain ⟨u, us', hus', hu⟩ := hafter
    have h₄ : b₄.Stands t (generic.toList ++ (blanks ++ greater :: us)) stack log := h₄
    rw [hus'] at h₄
    refine (h₄.eatGenericArgs hgeneric hu element b.pos).bind fun b₅ h₅ => ?_
    rw [← hus'] at h₅
    exact (h₅.tagItems hblanks hgreater element).bind fun _ h₆ => .ok ⟨rfl, h₆⟩
  rw [startTag_eq]
  refine hopen.bind fun opened h₁ => ?_
  obtain ⟨n, element, tagEnd, b₁⟩ := opened
  obtain ⟨rfl, rfl, h₁⟩ := h₁
  simp only [hvoid, reduceCtorEq, if_false, Bool.or_false, decide_false, Bool.false_eq_true]
  exact Build.Returns.any.bind fun _ _ => .ok ⟨_, rfl, h₁.pushFrame _⟩

end Stands

/-! Closing tags -/

theorem closingTagEnd_of_rest {blanks : List Token} {greater : Token} {i : Nat}
    (h : t.rest i = blanks ++ greater :: us) (hblanks : ∀ u ∈ blanks, u.kind = .whitespace)
    (hgreater : greater.kind = .greaterThan) :
    closingTagEnd t i = i + (blanks.length + 1) := by
  induction blanks generalizing i with
  | nil =>
      rw [closingTagEnd_eq, Tokenized.kind?_of_rest h, hgreater]
      rfl
  | cons u blanks ih =>
      rw [closingTagEnd_eq, Tokenized.kind?_of_rest h, hblanks u List.mem_cons_self]
      simp only
      rw [ih (Tokenized.rest_succ h) fun u' hu' => hblanks u' (List.mem_cons_of_mem _ hu'),
        List.length_cons]
      omega

theorem returns_strayClosingTag (b : Builder) (stop : Nat) (blocked : Bool) :
    Build.Returns (b.strayClosingTag t stop blocked) (Reports b) := by
  have hrefl : Extends b.nodes.size b b := .refl le_rfl
  refine (hrefl.leaf (t := t) b.parent rfl _).returns.bind fun ⟨_, b₁⟩ ⟨h₁, _⟩ => ?_
  refine Build.Returns.any.bind fun span _ => ?_
  refine .ite (fun _ => ?_) fun _ => ?_
  · exact (returns_reportTokens b₁ _ _ _ _ _).mono fun b' h' => h₁.reports h'
  · exact (returns_reportTokens b₁ _ _ _ _ _).mono fun b' h' => h₁.reports h'

theorem Stands.closingTag {less slash name greater : Token} {blanks : List Token}
    (h : b.Stands t (less :: slash :: name :: (blanks ++ greater :: us)) stack log)
    (hplain : ∀ f ∈ stack, f.Plain) (hblanks : ∀ u ∈ blanks, u.kind = .whitespace)
    (hgreater : greater.kind = .greaterThan) :
    Build.Returns (b.closingTag t) fun b' =>
      if Frame.closeTarget (name.text t.source) 0 false stack = .element 0 then
        b'.Stands t us stack.tail log
      else Reports b b' := by
  have hname : t.rest (b.pos + 2) = name :: (blanks ++ greater :: us) :=
    Tokenized.rest_add h.rest 2
  have hend : closingTagEnd t (b.pos + 3) = b.pos + 3 + (blanks.length + 1) :=
    closingTagEnd_of_rest (Tokenized.rest_succ hname) hblanks hgreater
  have hdrop : (less :: slash :: name :: (blanks ++ greater :: us)).drop
      (b.pos + 3 + (blanks.length + 1) - b.pos) = us := by
    rw [show b.pos + 3 + (blanks.length + 1) - b.pos = blanks.length + 1 + 3 by omega]
    change (blanks ++ greater :: us).drop (blanks.length + 1) = us
    rw [← List.drop_drop, List.drop_left]
    rfl
  unfold Builder.closingTag
  simp only [Tokenized.text_of_rest hname, hend, ok_bind, h.stack]
  cases htarget : Frame.closeTarget (name.text t.source) 0 false stack with
  | blocked => exact returns_strayClosingTag b _ true
  | missing => exact returns_strayClosingTag b _ false
  | element above =>
      cases above with
      | zero =>
          simp only [forceCloseMany, mismatched?, ok_bind, if_true, pure_bind]
          refine (h.leaf b.parent .closingElementName _).bind fun named h₁ => ?_
          obtain ⟨_, b₁⟩ := named
          rw [hdrop] at h₁
          refine (h₁.modify _ _).bind fun b₂ h₂ => ?_
          exact (h₂.popFrame _).bind fun _ h₃ => .ok h₃.2
      | succ above =>
          have hne : Frame.CloseTarget.element (above + 1) ≠ .element 0 := by simp
          simp only [hne, if_false]
          have hstack : b.stack ≠ [] := by
            rw [h.stack]
            rintro rfl
            cases htarget
          have hclose : (closedByTag (name.text t.source) b.stack).1.isImplied = false := by
            rw [h.stack]
            exact Frame.closedByTag_of_plain hplain _
          refine (returns_forceCloseMany hstack hclose b.pos above).bind fun b₁ h₁ => ?_
          have hrefl : Extends b₁.nodes.size b₁ b₁ := .refl le_rfl
          split
          · refine (hrefl.reportTokens _ _ _ _ _).returns.bind fun b₂ h₂ => ?_
            exact (h₂.closeElement _ _).returns.mono fun b' h' => h₁.extends h'
          · exact (hrefl.closeElement _ _).returns.mono fun b' h' => h₁.extends h'

/-! Directives -/

namespace Stands

variable {name : String} {args : Option Nat} {us' : List Token}

theorem directiveLeaf (h : b.Stands t us' stack log) (hat : t.DirectiveAt b.pos name args us)
    (q : Nat) (role : DirectiveRole) :
    Build.Returns (b.directiveLeaf t q role) (·.Stands t us stack log) := by
  refine (h.leaf q .directive _).bind fun ⟨id, b₁⟩ h₁ => ?_
  rw [← Tokenized.rest_add h.rest, hat.rest] at h₁
  exact h₁.modify id _

theorem openBlock (h : b.Stands t us' stack log) (hat : t.DirectiveAt b.pos name args us)
    (rule : BlockRule) :
    Build.Returns (b.openBlock t rule name) fun b' => ∃ f : Frame,
      f.kind = .directive rule name ∧ b'.Stands t us (f :: stack) log := by
  refine Build.Returns.any.bind fun _ _ => ?_
  have hstart := (startIn_starts b b.parent .directiveBlock).returns
  refine Build.Returns.bind (P := fun p => p.2.Stands t us' stack log ∧ p.2.pos = b.pos) ?_
    fun ⟨block, b₁⟩ ⟨h₁, hpos₁⟩ => ?_
  · intro p hp
    refine ⟨h.startIn b.parent .directiveBlock p hp, ?_⟩
    have hrest := (hstart p hp).rest
    rw [hrest]
  · rw [← hpos₁] at hat
    refine (h₁.directiveLeaf hat block .opener).bind fun b₂ h₂ => ?_
    exact .ok ⟨_, rfl, h₂.pushFrame _⟩

end Stands

end Builder
end BladeTree
