import BladeTree.Proofs.Tree.Extends

namespace BladeTree

def ParseOptions.withLimits (o : ParseOptions) (l : DepthLimits) : ParseOptions :=
  { o with depthLimits := l }

def Tokenized.withLimits (t : Tokenized) (l : DepthLimits) : Tokenized :=
  { t with options := t.options.withLimits l }

def DepthCounter.all : List DepthCounter := [elements, directives, conditions]

/-- The limit that a new frame above others reaches first. -/
def Frame.blocker? (l : DepthLimits) (below : List Frame) (f : Frame) : Option DepthCounter :=
  DepthCounter.all.find? fun counter =>
    f.counts counter && l.get counter ≤ below.countP (Frame.counts counter) + 1

def Tokenized.admit (t : Tokenized) (l : DepthLimits) (opened : Option Frame)
    (below : List Frame) (first : Nat) : Build Unit :=
  match opened.bind (Frame.blocker? l below) with
  | some counter => .error (.depthLimit counter (l.get counter) (t.offset first))
  | none => .ok ()

namespace Builder

variable (t : Tokenized) (l : DepthLimits)

/-! The limits are read in two places only. -/

@[simp] theorem bump_withLimits : Builder.bump (t.withLimits l) = Builder.bump t := rfl

@[simp] theorem reportTokens_withLimits :
    Builder.reportTokens (t.withLimits l) = Builder.reportTokens t := rfl

@[simp] theorem echo_withLimits : Builder.echo (t.withLimits l) = Builder.echo t := rfl

@[simp] theorem delimited_withLimits : Builder.delimited (t.withLimits l) = Builder.delimited t := rfl

@[simp] theorem verbatim_withLimits : Builder.verbatim (t.withLimits l) = Builder.verbatim t := rfl

@[simp] theorem forceClose_withLimits :
    Builder.forceClose (t.withLimits l) = Builder.forceClose t := rfl

@[simp] theorem bumpMany_withLimits : Builder.bumpMany (t.withLimits l) = Builder.bumpMany t := by
  funext n
  induction n with
  | zero => rfl
  | succ n ih =>
      funext b
      simp only [bumpMany, ih, bump_withLimits]

@[simp] theorem leaf_withLimits : Builder.leaf (t.withLimits l) = Builder.leaf t := by
  unfold leaf
  simp only [bumpMany_withLimits]

theorem kind?_eq_none {i : Nat} (h : t.size ≤ i) : t.kind? i = none :=
  congrArg (Option.map Token.kind) (getElem?_neg t.tokens i (Nat.not_lt_of_le h))

theorem textEnd_eq (i : Nat) :
    textEnd t i = match t.kind? i with
      | some kind => if kind.startsConstruct || kind.isExtension then i else textEnd t (i + 1)
      | none => i := by
  rw [textEnd]
  by_cases h : i < t.size
  · have h' : i < t.tokens.size := h
    have hkind : t.kind? i = some t.tokens[i].kind :=
      congrArg (Option.map Token.kind) (getElem?_pos t.tokens i h')
    rw [dif_pos h, hkind]
    rfl
  · rw [dif_neg h, kind?_eq_none t (Nat.le_of_not_lt h)]

@[simp] theorem textEnd_withLimits : textEnd (t.withLimits l) = textEnd t := by
  funext i
  have hkind (i : Nat) : (t.withLimits l).kind? i = t.kind? i := rfl
  induction hn : t.size - i generalizing i with
  | zero =>
      have hnone := kind?_eq_none t (Nat.sub_eq_zero_iff_le.1 hn)
      rw [textEnd_eq, hkind, textEnd_eq t, hnone]
  | succ n ih =>
      rw [textEnd_eq, hkind, textEnd_eq t, ih (i + 1) (by omega)]

@[simp] theorem text_withLimits : Builder.text (t.withLimits l) = Builder.text t := by
  unfold Builder.text
  simp only [textEnd_withLimits, leaf_withLimits]

@[simp] theorem single_withLimits : Builder.single (t.withLimits l) = Builder.single t := by
  unfold single
  simp only [leaf_withLimits]

@[simp] theorem directiveLeaf_withLimits :
    Builder.directiveLeaf (t.withLimits l) = Builder.directiveLeaf t := by
  unfold directiveLeaf
  simp only [leaf_withLimits]
  rfl

@[simp] theorem forceCloseMany_withLimits :
    Builder.forceCloseMany (t.withLimits l) = Builder.forceCloseMany t := by
  funext close stop n
  induction n with
  | zero => rfl
  | succ n ih =>
      funext b
      simp only [forceCloseMany, ih, forceClose_withLimits]

@[simp] theorem closeForSibling_withLimits :
    Builder.closeForSibling (t.withLimits l) = Builder.closeForSibling t := by
  unfold closeForSibling
  simp only [forceCloseMany_withLimits, forceClose_withLimits]

@[simp] theorem attributePair_withLimits :
    Builder.attributePair (t.withLimits l) = Builder.attributePair t := by
  unfold attributePair attributeValue
  simp only [leaf_withLimits]
  rfl

@[simp] theorem tagItem?_withLimits : Builder.tagItem? (t.withLimits l) = Builder.tagItem? t := by
  unfold tagItem?
  simp only [attributePair_withLimits, directiveLeaf_withLimits]
  rfl

@[simp] theorem tagItems_withLimits : Builder.tagItems (t.withLimits l) = Builder.tagItems t := by
  funext element b
  have hat (b : Builder) : b.current? (t.withLimits l) = b.current? t := rfl
  fun_induction Builder.tagItems t element b with
  | case1 b h => rw [tagItems, hat, h]
  | case2 b h =>
      rw [tagItems, hat, h]
      rfl
  | case3 b h =>
      rw [tagItems, hat, h]
      rfl
  | case4 b kind _ _ h hnone =>
      rw [tagItems, hat, h]
      simp only [tagItem?_withLimits, hnone]
  | case5 b kind _ _ h item hitem ih =>
      rw [tagItems, hat, h]
      simp only [tagItem?_withLimits, hitem]
      refine congrArg _ (funext fun next => ?_)
      by_cases hlt : b.pos < next.pos ∧ b.pos < t.size
      · rw [dif_pos hlt]
        exact (dif_pos hlt).trans (ih next hlt)
      · rw [dif_neg hlt]
        exact dif_neg hlt

theorem closingTagEnd_eq (i : Nat) :
    closingTagEnd t i = match t.kind? i with
      | some .whitespace | some .text => closingTagEnd t (i + 1)
      | some .greaterThan => i + 1
      | _ => i := by
  rw [closingTagEnd]
  by_cases h : i < t.size
  · have h' : i < t.tokens.size := h
    have hkind : t.kind? i = some t.tokens[i].kind :=
      congrArg (Option.map Token.kind) (getElem?_pos t.tokens i h')
    rw [dif_pos h, hkind]
    generalize t.tokens[i].kind = kind
    cases kind <;> rfl
  · rw [dif_neg h, kind?_eq_none t (Nat.le_of_not_lt h)]

@[simp] theorem closingTagEnd_withLimits : closingTagEnd (t.withLimits l) = closingTagEnd t := by
  funext i
  have hkind (i : Nat) : (t.withLimits l).kind? i = t.kind? i := rfl
  induction hn : t.size - i generalizing i with
  | zero =>
      have hnone := kind?_eq_none t (Nat.sub_eq_zero_iff_le.1 hn)
      rw [closingTagEnd_eq, hkind, closingTagEnd_eq t, hnone]
  | succ n ih =>
      rw [closingTagEnd_eq, hkind, closingTagEnd_eq t, ih (i + 1) (by omega)]

@[simp] theorem closingTag_withLimits :
    Builder.closingTag (t.withLimits l) = Builder.closingTag t := by
  unfold closingTag strayClosingTag
  simp only [leaf_withLimits, closingTagEnd_withLimits, forceCloseMany_withLimits]
  rfl

theorem place_withLimits (b : Builder) (name : String) (first : Nat) (hasArgs : Bool)
    {place : DirectivePlace} (hplace : ∀ rule, place ≠ .opener rule) :
    b.place (t.withLimits l) name first hasArgs place = b.place t name first hasArgs place := by
  cases place with
  | opener rule => exact absurd rfl (hplace rule)
  | branch above => simp only [Builder.place, closeAboveBlock, forceCloseMany_withLimits,
      directiveLeaf_withLimits]
  | terminator above => simp only [Builder.place, closeAboveBlock, forceCloseMany_withLimits,
      directiveLeaf_withLimits]
  | strayTerminator => simp only [Builder.place, directiveLeaf_withLimits, reportTokens_withLimits]
  | strayBranch => simp only [Builder.place, directiveLeaf_withLimits, reportTokens_withLimits]
  | standalone => simp only [Builder.place, directiveLeaf_withLimits, missingArguments,
      reportTokens_withLimits]

variable {t l} {b : Builder}

theorem checkDepth_eq (counters : List DepthCounter) (first : Nat) :
    b.checkDepth (t.withLimits l) counters first =
      match counters.find? fun counter => l.get counter ≤ b.depth counter + 1 with
      | some counter => .error (.depthLimit counter (l.get counter) (t.offset first))
      | none => .ok () := by
  unfold checkDepth
  induction counters with
  | nil => rfl
  | cons counter counters ih =>
      rw [List.forM, List.find?_cons]
      by_cases h : l.get counter ≤ b.depth counter + 1
      · simp only [h, decide_true]
        exact congrArg (· >>= _) (if_pos h)
      · simp only [h, decide_false]
        exact (congrArg (· >>= _) (if_neg h)).trans ih

theorem checkDepth_element (h : b.Counted) (id : Nat) (name : String) (first : Nat) :
    b.checkDepth (t.withLimits l) [.elements] first =
      t.admit l (some ⟨id, .element name⟩) b.stack first := by
  rw [checkDepth_eq, Tokenized.admit]
  simp only [h .elements, Option.bind_some, Frame.blocker?, DepthCounter.all, Frame.counts,
    List.find?, Bool.true_and, Bool.false_and]

theorem checkDepth_directive (h : b.Counted) (id : Nat) (rule : BlockRule) (name : String)
    (first : Nat) :
    b.checkDepth (t.withLimits l)
        (if rule.conditional then [.directives, .conditions] else [.directives]) first =
      t.admit l (some ⟨id, .directive rule name⟩) b.stack first := by
  rw [checkDepth_eq, Tokenized.admit]
  cases hc : rule.conditional <;>
    simp only [h .directives, h .conditions, Option.bind_some, Frame.blocker?, DepthCounter.all,
      Frame.counts, List.find?, hc, Bool.true_and, Bool.false_and, if_true, if_false,
      Bool.false_eq_true]

end Builder
end BladeTree
