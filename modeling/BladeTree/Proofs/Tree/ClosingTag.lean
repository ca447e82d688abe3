import BladeTree.Proofs.Tree.ElementEnds
import BladeTree.Proofs.Tree.Succeeds

namespace BladeTree

theorem ElementFlag.isIn_or_self (flag : ElementFlag) (data : Int32) :
    flag.isIn (data ||| flag.bit) := by
  have habsorb : (data ||| flag.bit) &&& flag.bit = flag.bit := by
    apply Int32.toBitVec_inj.1
    rw [Int32.toBitVec_and, Int32.toBitVec_or]
    ext i hi
    rw [BitVec.getElem_and, BitVec.getElem_or]
    cases flag.bit.toBitVec[i] <;> simp
  unfold isIn
  rw [habsorb]
  cases flag <;> decide

namespace Frame

/-- An element called `name`, up to the case of letters. -/
def IsCalled (name : String) (f : Frame) : Prop := f.elementName?.any (sameName · name)

/-- `f` is an element called `name`, and there is no block among the frames `above` it. -/
structure Exposed (name : String) (stack above : List Frame) (f : Frame) (below : List Frame) :
    Prop where
  stack_eq : stack = above ++ f :: below
  called : f.IsCalled name
  elements : ∀ g ∈ above, g.blockRule? = none

variable {name : String} {stack above below : List Frame} {f g : Frame} {k : Nat}

theorem isCalled_element (node : Nat) (opened : String) :
    IsCalled name ⟨node, .element opened⟩ ↔ sameName opened name := .rfl

theorem IsCalled.exists_kind (h : f.IsCalled name) :
    ∃ opened, f.kind = .element opened ∧ sameName opened name := by
  obtain ⟨node, kind⟩ := f
  cases kind with
  | element opened => exact ⟨opened, rfl, h⟩
  | directive => cases h

theorem exists_kind_of_blockRule? (h : f.blockRule? = none) :
    ∃ opened, f.kind = .element opened := by
  obtain ⟨node, kind⟩ := f
  cases kind with
  | element opened => exact ⟨opened, rfl⟩
  | directive => cases h

namespace Exposed

theorem cons (h : Exposed name stack above f below) (hg : g.blockRule? = none) :
    Exposed name (g :: stack) (g :: above) f below where
  stack_eq := congrArg (g :: ·) h.stack_eq
  called := h.called
  elements := List.forall_mem_cons.2 ⟨hg, h.elements⟩

theorem exists_innermost (h : Exposed name stack above f below) : ∃ above f below,
    Exposed name stack above f below ∧ ∀ g ∈ above, ¬ g.IsCalled name := by
  induction above generalizing stack with
  | nil => exact ⟨[], f, below, h, nofun⟩
  | cons g above ih =>
      obtain ⟨rfl, hcalled, helements⟩ := h
      obtain ⟨hg, habove⟩ := List.forall_mem_cons.1 helements
      by_cases hfirst : g.IsCalled name
      · exact ⟨[], g, above ++ f :: below, ⟨rfl, hfirst, nofun⟩, nofun⟩
      · obtain ⟨above', f', below', h', hinner⟩ := ih ⟨rfl, hcalled, habove⟩
        exact ⟨g :: above', f', below', h'.cons hg, List.forall_mem_cons.2 ⟨hfirst, hinner⟩⟩

end Exposed

/-! What the search for an element finds -/

theorem closeTarget_past_block (name : String) (k : Nat) (stack : List Frame) :
    closeTarget name k true stack = .blocked := by
  induction stack generalizing k with
  | nil => rfl
  | cons f below ih =>
      unfold closeTarget
      split
      · exact ih (k + 1)
      · split
        · rfl
        · exact ih (k + 1)

theorem closeTarget_of_exposed (h : Exposed name stack above f below)
    (hinner : ∀ g ∈ above, ¬ g.IsCalled name) (k : Nat) :
    closeTarget name k false stack = .element (k + above.length) := by
  obtain ⟨rfl, hcalled, helements⟩ := h
  induction above generalizing k with
  | nil =>
      obtain ⟨opened, hkind, hsame⟩ := hcalled.exists_kind
      rw [List.nil_append, closeTarget, hkind]
      simp only
      rw [if_pos hsame]
      rfl
  | cons g above ih =>
      obtain ⟨hg, habove⟩ := List.forall_mem_cons.1 helements
      obtain ⟨hfirst, hrest⟩ := List.forall_mem_cons.1 hinner
      obtain ⟨node, kind⟩ := g
      cases kind with
      | directive => cases hg
      | element opened =>
          rw [isCalled_element] at hfirst
          rw [List.cons_append, closeTarget]
          simp only
          rw [if_neg hfirst, ih hrest (k + 1) habove, List.length_cons, Nat.add_right_comm,
            Nat.add_assoc]

theorem closeTarget_of_not_exposed (h : ∀ above f below, ¬ Exposed name stack above f below)
    (k : Nat) : closeTarget name k false stack =
      if stack.any (·.blockRule?.isSome) then .blocked else .missing := by
  induction stack generalizing k with
  | nil => rfl
  | cons f below ih =>
      obtain ⟨node, kind⟩ := f
      cases kind with
      | directive rule opened => exact closeTarget_past_block name (k + 1) below
      | element opened =>
          have hother : ¬ sameName opened name := fun hsame => h [] _ below ⟨rfl, hsame, nofun⟩
          rw [closeTarget]
          simp only
          rw [if_neg hother]
          exact ih (fun above f rest hexposed => h _ f rest (hexposed.cons rfl)) (k + 1)

end Frame

namespace Builder

variable {t : Tokenized} {b b' b₁ : Builder} {name : String} {above below stack : List Frame}
  {f : Frame} {n : Nat}

theorem closedByTag_eq (name : String) (stack : List Frame) : (closedByTag name stack).1 =
    if Frame.endsWithParent stack then .parentEnd else .mismatch := by
  unfold closedByTag
  split <;> rfl

theorem mismatched?_eq_none_iff (hn : n ≤ stack.length) :
    mismatched? n stack = none ↔ ∀ i < n, Frame.endsWithParent (stack.drop i) := by
  induction n generalizing stack with
  | zero => exact ⟨fun _ _ hi => absurd hi (Nat.not_lt_zero _), fun _ => rfl⟩
  | succ n ih =>
      cases stack with
      | nil => cases hn
      | cons f below =>
          rw [Nat.forall_lt_succ_left, mismatched?]
          split
          · rename_i hends
            rw [ih (Nat.le_of_succ_le_succ hn)]
            exact ⟨fun h => ⟨hends, h⟩, fun h => h.2⟩
          · rename_i hends
            exact ⟨nofun, fun h => absurd h.1 hends⟩

/-! Elements that end before their own ends -/

theorem reports_forceClose (hs : b.stack = f :: below) (hf : f.blockRule? = none)
    (reason : ClosedBy) (stop : Nat) (context : Option String) :
    Build.Returns (b.forceClose t reason stop context) fun b' => ∃ new,
      b'.diagnostics.toList = b.diagnostics.toList ++ new ∧
        ∀ d ∈ new, d.kind = .unclosedElement := by
  obtain ⟨opened, hkind⟩ := Frame.exists_kind_of_blockRule? hf
  rw [forceClose_eq]
  refine (returns_popFrame hs stop).bind fun ⟨popped, b₁⟩ ⟨hpopped, _, _, _, hlog, _⟩ => ?_
  subst hpopped
  unfold settle
  refine Build.Returns.any.bind fun node _ => ?_
  rw [hkind]
  refine (returns_modify _ f.node _).bind fun b₂ ⟨_, hb₂⟩ => ?_
  have hlog₂ : b₂.diagnostics = b.diagnostics := by rw [hb₂, ← hlog]
  refine .ite (fun _ => .ok ⟨[], ?_, nofun⟩) fun _ => ?_
  · rw [hlog₂, List.append_nil]
  · refine (returns_report b₂ _ _ _ _ _).mono fun b' ⟨span, _, hb'⟩ => ?_
    refine ⟨[.detailed .unclosedElement span opened context], ?_, by simp [Diagnostic.detailed]⟩
    rw [hb', report, Array.toList_push, hlog₂]

/-- The elements `above` are closed by force, and `b'` is what that makes of `b`. -/
structure Unwinds (name : String) (b : Builder) (above below : List Frame) (b' : Builder) :
    Prop where
  stack : b'.stack = below
  size : b'.nodes.size = b.nodes.size
  kind : ∀ i, (slot b'.nodes i).kind = (slot b.nodes i).kind
  others : ∀ i, (∀ g ∈ above, g.node ≠ i) → slot b'.nodes i = slot b.nodes i ∧
    b'.metadata.closedBy? i = b.metadata.closedBy? i
  reason : ∀ (i : Nat) (hi : i < above.length),
    b'.metadata.closedBy? above[i].node = some (closedByTag name (b.stack.drop i)).1
  reported : ∃ new, b'.diagnostics.toList = b.diagnostics.toList ++ new ∧
    ∀ d ∈ new, d.kind = .unclosedElement

theorem Unwinds.refl (name : String) (b : Builder) : Unwinds name b [] b.stack b where
  stack := rfl
  size := rfl
  kind _ := rfl
  others _ _ := ⟨rfl, rfl⟩
  reason _ hi := absurd hi (Nat.not_lt_zero _)
  reported := ⟨[], (List.append_nil _).symm, nofun⟩

theorem Unwinds.cons (hs : b.Sound t) (hstack : b.stack = f :: (above ++ below))
    (hf : f.blockRule? = none)
    (hb₁ : b.forceClose t (closedByTag name b.stack).1 b.pos (closedByTag name b.stack).2 = .ok b₁)
    (h : Unwinds name b₁ above below b') : Unwinds name b (f :: above) below b' := by
  obtain ⟨ha, -⟩ := alters_forceClose hstack _ _ _ _ hb₁
  obtain ⟨hreasons, -, hstack₁⟩ := returns_closed hstack _ _ _ _ hb₁
  obtain ⟨new₁, hlog₁, hnew₁⟩ := reports_forceClose hstack hf _ _ _ _ hb₁
  obtain ⟨new, hlog, hnew⟩ := h.reported
  have hclosed : ∀ g ∈ above, g.node ≠ f.node := by
    intro g hg heq
    refine hs.not_mem_of_pop hstack hstack₁ ?_
    have hmem : g ∈ b₁.stack := hstack₁ ▸ List.mem_append_left below hg
    exact List.mem_append_left _ (heq ▸ List.mem_map_of_mem hmem)
  refine ⟨h.stack, h.size.trans ha.size, fun i => ?_, fun i hi => ?_, fun i hi => ?_, ?_⟩
  · rw [h.kind, ha.slot_eq]
    split <;> rfl
  · obtain ⟨hne, hrest⟩ := List.forall_mem_cons.1 hi
    obtain ⟨hslot, hreason⟩ := h.others i hrest
    refine ⟨hslot.trans (ha.other (Ne.symm hne)), hreason.trans ?_⟩
    rw [hreasons, Function.update_of_ne (Ne.symm hne)]
  · cases i with
    | zero =>
        rw [List.getElem_cons_zero, (h.others _ hclosed).2, hreasons, Function.update_self]
        rfl
    | succ i =>
        rw [List.getElem_cons_succ, h.reason i (Nat.lt_of_succ_lt_succ hi), hstack₁, hstack,
          List.drop_succ_cons]
  · refine ⟨new₁ ++ new, by rw [hlog, hlog₁, List.append_assoc], fun d hd => ?_⟩
    exact (List.mem_append.1 hd).elim (hnew₁ d) (hnew d)

theorem unwinds_forceCloseMany (hs : b.Sound t) (hstack : b.stack = above ++ below)
    (helements : ∀ g ∈ above, g.blockRule? = none) :
    Build.Returns (forceCloseMany t (closedByTag name) b.pos above.length b)
      (Unwinds name b above below) := by
  induction above generalizing b with
  | nil =>
      obtain rfl : b.stack = below := hstack
      exact .ok (.refl name b)
  | cons f above ih =>
      obtain ⟨hf, habove⟩ := List.forall_mem_cons.1 helements
      refine Build.Returns.bind (P := (b.forceClose t _ b.pos _ = .ok ·)) (fun _ => id)
        fun b₁ hb₁ => ?_
      obtain ⟨hs₁, hpos₁, hstack₁⟩ := (hs.forceClose _ _).returns b₁ hb₁
      rw [hstack] at hstack₁
      rw [← hpos₁]
      exact (ih hs₁ hstack₁ habove).mono fun b' h' => .cons hs hstack hf hb₁ h'

/-! The closing tag of an element -/

theorem Sound.lastChild_eq {q : Nat} (h : b.Sound t) (hsize : b.nodes.size = n + 1)
    (hparent : (slot b.nodes n).parent = some q) : (slot b.nodes q).lastChild = some n := by
  refine ((h.growing.linked.last q).eq_some_iff n).2 ⟨hparent, fun x hx => ?_⟩
  have hlt : x < b.nodes.size := (h.growing.linked.below x q hx).2
  omega

theorem returns_reportMismatch (b : Builder) (first stop : Nat) (opened : Option String) :
    Build.Returns (b.reportMismatch t first stop opened) fun b' =>
      b' = { b with diagnostics := b'.diagnostics } ∧ ∃ new,
        b'.diagnostics.toList = b.diagnostics.toList ++ new ∧
          (∀ d ∈ new, d.kind = .mismatchedClosingTag) ∧
          new.length = if opened.isSome then 1 else 0 := by
  cases opened with
  | none => exact .ok ⟨rfl, [], (List.append_nil _).symm, nofun, rfl⟩
  | some opened =>
      refine (returns_report b _ _ _ _ _).mono fun b' ⟨span, _, hb'⟩ => ?_
      subst hb'
      exact ⟨rfl, [_], Array.toList_push, by simp [Diagnostic.detailed], rfl⟩

theorem diagnostics_closeElement (hs : b.stack = f :: below) (n : Nat) :
    Build.Returns (b.closeElement t n) (·.diagnostics = b.diagnostics) := by
  unfold closeElement
  refine (leaf_rest b _ _ n).bind fun ⟨_, b₁⟩ ⟨_, hb₁⟩ => ?_
  refine (returns_modify b₁ _ _).bind fun b₂ ⟨_, hb₂⟩ => ?_
  have hstack : b₂.stack = f :: below := by rw [hb₂, hb₁, hs]
  refine (returns_popFrame hstack _).bind fun ⟨_, b₃⟩ ⟨_, _, _, _, hlog, _⟩ => .ok ?_
  rw [hlog, hb₂, hb₁]

/-- What a closing tag makes of `b` that ends the element of `f` and the frames `above` it. -/
structure Closes (t : Tokenized) (b : Builder) (above : List Frame) (f : Frame)
    (below : List Frame) (b' : Builder) : Prop where
  stack : b'.stack = below
  pos : b'.pos = closingTagEnd t (b.pos + 3)
  size : b'.nodes.size = b.nodes.size + 1
  elements : ∀ g ∈ f :: above, (slot b'.nodes g.node).kind = .element
  paired : (slot b'.nodes f.node).hasFlag .paired
  closingTag : (slot b'.nodes b.nodes.size).own = closingLeaf f.node b.pos (b'.pos - b.pos)
  lastChild : (slot b'.nodes f.node).lastChild = some b.nodes.size
  reason : ∀ (i : Nat) (hi : i < above.length), b'.metadata.closedBy? above[i].node =
    some (if Frame.endsWithParent (b.stack.drop i) then .parentEnd else .mismatch)
  others : ∀ i, (∀ g ∈ above, g.node ≠ i) → b'.metadata.closedBy? i = b.metadata.closedBy? i
  reported : ∃ new, b'.diagnostics.toList = b.diagnostics.toList ++ new ∧
    (∀ d ∈ new, d.kind = .unclosedElement ∨ d.kind = .mismatchedClosingTag) ∧
    new.countP (·.kind = .mismatchedClosingTag) =
      if ∃ g ∈ above, b'.metadata.closedBy? g.node = some .mismatch then 1 else 0

namespace Unwinds

variable (h : Unwinds name b above below b')
include h

theorem reason_eq (i : Nat) (hi : i < above.length) : b'.metadata.closedBy? above[i].node =
    some (if Frame.endsWithParent (b.stack.drop i) then .parentEnd else .mismatch) := by
  rw [h.reason i hi, closedByTag_eq]

theorem isSome_mismatched?_iff (hn : above.length ≤ b.stack.length) :
    (mismatched? above.length b.stack).isSome ↔
      ∃ g ∈ above, b'.metadata.closedBy? g.node = some .mismatch := by
  rw [Option.isSome_iff_ne_none, ne_eq, mismatched?_eq_none_iff hn]
  constructor
  · intro hnot
    push Not at hnot
    obtain ⟨i, hi, hends⟩ := hnot
    exact ⟨above[i], List.getElem_mem hi, by rw [h.reason_eq i hi, if_neg hends]⟩
  · rintro ⟨g, hg, hreason⟩ hall
    obtain ⟨i, hi, rfl⟩ := List.getElem_of_mem hg
    rw [h.reason_eq i hi, if_pos (hall i hi)] at hreason
    cases hreason

end Unwinds

/-- The frames are closed, a mismatch is reported, and the closing tag is filed. -/
theorem Unwinds.closes {b₂ : Builder} (hu : Unwinds name b above (f :: below) b₁)
    (hstack : b.stack = above ++ f :: below) (hpos : b₁.pos = b.pos)
    (hkind : ∀ g ∈ f :: above, (slot b.nodes g.node).kind = .element)
    {stop : Nat} (hle : b.pos ≤ stop) (hstop : stop = closingTagEnd t (b.pos + 3))
    (hb₂ : b₁.reportMismatch t b.pos stop (mismatched? above.length b.stack) = .ok b₂)
    (hb' : b₂.closeElement t (stop - b.pos) = .ok b') (hs' : b'.Sound t) :
    b.Closes t above f below b' := by
  obtain ⟨hrest, new₂, hlog₂, hnew₂, hcount₂⟩ := returns_reportMismatch _ _ _ _ _ hb₂
  have hstack₂ : b₂.stack = f :: below := by rw [hrest, hu.stack]
  have hpos₂ : b₂.pos = b.pos := by rw [hrest, hpos]
  have hnodes₂ : b₂.nodes = b₁.nodes := by rw [hrest]
  have hsize₂ : b₂.nodes.size = b.nodes.size := by rw [hnodes₂, hu.size]
  have hlt : ∀ g ∈ f :: above, g.node < b.nodes.size := fun g hg =>
    lt_size_of_kind (by rw [hkind g hg]; nofun)
  have hf : f.node < b.nodes.size := hlt f List.mem_cons_self
  obtain ⟨hstack', hpos', hmetadata, hsize, hown⟩ :=
    returns_closeElement hstack₂ (hsize₂ ▸ hf) _ _ hb'
  have hlog' := diagnostics_closeElement hstack₂ _ _ hb'
  rw [hsize₂] at hsize hown
  have hmetadata' : b'.metadata = b₁.metadata := by rw [hmetadata, hrest]
  have hleaf := hown b.nodes.size
  rw [if_pos rfl, hpos₂] at hleaf
  refine ⟨hstack', ?_, hsize, fun g hg => ?_, ?_, ?_, ?_, fun i hi => ?_, fun i hi => ?_, ?_⟩
  · rw [hpos', hpos₂, Nat.add_sub_cancel' hle, hstop]
  · have hg' := congrArg FlatNode.kind (hown g.node)
    rw [if_neg (hlt g hg).ne, hnodes₂] at hg'
    refine hg'.trans (Eq.trans ?_ ((hu.kind g.node).trans (hkind g hg)))
    split <;> rfl
  · have hdata := congrArg FlatNode.data (hown f.node)
    rw [if_neg hf.ne, if_pos rfl] at hdata
    unfold FlatNode.hasFlag
    rw [show (slot b'.nodes f.node).data = _ from hdata]
    exact ElementFlag.isIn_or_self .paired _
  · rw [hleaf, hpos', hpos₂, Nat.add_sub_cancel_left]
  · exact hs'.lastChild_eq hsize (congrArg FlatNode.parent hleaf)
  · rw [hmetadata', hu.reason_eq i hi]
  · rw [hmetadata', (hu.others i hi).2]
  · obtain ⟨new₁, hlog₁, hnew₁⟩ := hu.reported
    refine ⟨new₁ ++ new₂, by rw [hlog', hlog₂, hlog₁, List.append_assoc], fun d hd => ?_, ?_⟩
    · exact (List.mem_append.1 hd).imp (hnew₁ d) (hnew₂ d)
    · have hnone : new₁.countP (·.kind = .mismatchedClosingTag) = 0 :=
        List.countP_eq_zero.2 fun d hd => by simp [hnew₁ d hd]
      have hall : new₂.countP (·.kind = .mismatchedClosingTag) = new₂.length :=
        List.countP_eq_length.2 fun d hd => by simp [hnew₂ d hd]
      have hle : above.length ≤ b.stack.length := by simp [hstack]
      rw [List.countP_append, hnone, hall, hcount₂, Nat.zero_add, hmetadata']
      exact if_congr (hu.isSome_mismatched?_iff hle) rfl rfl

theorem Sound.closes (hs : b.Sound t) (hc : b.Carrying t) (htag : t.ClosingTagAt b.pos name)
    (h : Frame.Exposed name b.stack above f below) (hinner : ∀ g ∈ above, ¬ g.IsCalled name) :
    Build.Returns (b.closingTag t) (b.Closes t above f below) := by
  have hkind : ∀ g ∈ f :: above, (slot b.nodes g.node).kind = .element := by
    intro g hg
    have hmem : g ∈ b.stack := by
      rw [h.stack_eq]
      rcases List.mem_cons.1 hg with rfl | hg
      · exact List.mem_append_right above List.mem_cons_self
      · exact List.mem_append_left _ hg
    have hopened : ∃ opened, g.kind = .element opened := by
      rcases List.mem_cons.1 hg with rfl | hg
      · obtain ⟨opened, hkind, -⟩ := h.called.exists_kind
        exact ⟨opened, hkind⟩
      · exact Frame.exists_kind_of_blockRule? (h.elements g hg)
    obtain ⟨opened, hopened⟩ := hopened
    have htitled : opened ∈ g.elementName? := by
      unfold Frame.elementName?
      rw [hopened]
      rfl
    exact ((hc g hmem).titled htitled).kind
  obtain ⟨hle, hstop⟩ := closingTagEnd_bounds (t := t) (i := b.pos + 3) htag.lt_size
  have hsteps : Build.Returns (b.closingTag t) fun b' =>
      b'.Sound t → b.Closes t above f below b' := by
    rw [closingTag_eq htag.named, Frame.closeTarget_of_exposed h hinner, Nat.zero_add]
    refine ((unwinds_forceCloseMany hs h.stack_eq h.elements).and
      (hs.forceCloseMany _ rfl _).returns).bind fun b₁ ⟨hu, _, hpos₁, _⟩ => ?_
    refine Build.Returns.bind (P := (b₁.reportMismatch t _ _ _ = .ok ·)) (fun _ => id)
      fun b₂ hb₂ b' hb' hs' => ?_
    exact hu.closes h.stack_eq hpos₁ hkind (by omega) rfl hb₂ hb' hs'
  exact (hsteps.and (hs.closingTag htag.slash).returns).mono fun b' ⟨h', hs', _⟩ => h' hs'

/-! A closing tag that ends nothing -/

/-- What a closing tag makes of `b` that finds no element to end. -/
structure Strays (t : Tokenized) (b b' : Builder) : Prop where
  stack : b'.stack = b.stack
  pos : b'.pos = closingTagEnd t (b.pos + 3)
  size : b'.nodes.size = b.nodes.size + 1
  closingTag : (slot b'.nodes b.nodes.size).own =
    { FlatNode.unlinked .strayClosingTag b.pos with
      tokenCount := b'.pos - b.pos, parent := some b.parent }
  lastChild : (slot b'.nodes b.parent).lastChild = some b.nodes.size
  others : ∀ i < b.nodes.size, (slot b'.nodes i).own = (slot b.nodes i).own
  metadata : b'.metadata = b.metadata
  reported : ∃ d, b'.diagnostics = b.diagnostics.push d ∧ d.kind =
    if b.stack.any (·.blockRule?.isSome) then .invalidNesting else .unexpectedClosingTag

theorem returns_stray (b : Builder) (stop : Nat) (blocked : Bool) :
    Build.Returns (b.strayClosingTag t stop blocked) fun b' =>
      b' = { b with
        pos := b.pos + (stop - b.pos), nodes := b'.nodes, diagnostics := b'.diagnostics } ∧
      b'.nodes.size = b.nodes.size + 1 ∧
      (∀ i, (slot b'.nodes i).own = if i = b.nodes.size then
        { FlatNode.unlinked .strayClosingTag b.pos with
          tokenCount := stop - b.pos, parent := some b.parent }
        else (slot b.nodes i).own) ∧
      ∃ d, b'.diagnostics = b.diagnostics.push d ∧
        d.kind = if blocked then .invalidNesting else .unexpectedClosingTag := by
  unfold strayClosingTag
  refine ((leaf_own b b.parent .strayClosingTag (stop - b.pos)).and (leaf_rest b _ _ _)).bind
    fun r hr => ?_
  obtain ⟨_, b₁⟩ := r
  obtain ⟨⟨hsize, _, hown⟩, _, hrest⟩ := hr
  refine Build.Returns.any.bind fun span _ => ?_
  have hlog : b₁.diagnostics = b.diagnostics := by rw [hrest]
  refine .ite (fun hblocked => ?_) fun hblocked => ?_
  all_goals
    refine (returns_report b₁ _ _ _ _ _).mono fun b' hb' => ?_
    obtain ⟨span', -, rfl⟩ := hb'
    refine ⟨by rw [report, hrest], hsize, hown, _, by rw [report, hlog], ?_⟩
    simp [Diagnostic.detailed, hblocked]

theorem Sound.strays (hs : b.Sound t) (htag : t.ClosingTagAt b.pos name)
    (h : ∀ above f below, ¬ Frame.Exposed name b.stack above f below) :
    Build.Returns (b.closingTag t) (b.Strays t) := by
  obtain ⟨hle, -⟩ := closingTagEnd_bounds (t := t) (i := b.pos + 3) htag.lt_size
  have hsteps : Build.Returns (b.closingTag t) fun b' => b'.Sound t → b.Strays t b' := by
    have hstray (blocked : Bool) (hblocked : blocked = b.stack.any (·.blockRule?.isSome)) :
        Build.Returns (b.strayClosingTag t (closingTagEnd t (b.pos + 3)) blocked) fun b' =>
          b'.Sound t → b.Strays t b' := by
      refine (returns_stray b _ blocked).mono
        fun b' ⟨hrest, hsize, hown, hreported⟩ hs' => ?_
      have hpos : b'.pos = closingTagEnd t (b.pos + 3) := by rw [hrest]; simp only; omega
      have hleaf := hown b.nodes.size
      rw [if_pos rfl, ← hpos] at hleaf
      refine ⟨by rw [hrest], hpos, hsize, hleaf, ?_, fun i hi => ?_, by rw [hrest], ?_⟩
      · exact hs'.lastChild_eq hsize (congrArg FlatNode.parent hleaf)
      · rw [hown i, if_neg hi.ne]
      · rw [← hblocked]
        exact hreported
    rw [closingTag_eq htag.named, Frame.closeTarget_of_not_exposed h]
    cases hany : b.stack.any (·.blockRule?.isSome) with
    | true => exact hstray true hany.symm
    | false => exact hstray false hany.symm
  exact (hsteps.and (hs.closingTag htag.slash).returns).mono fun b' ⟨h', hs', _⟩ => h' hs'

end Builder
end BladeTree
