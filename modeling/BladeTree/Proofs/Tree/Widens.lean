import BladeTree.Proofs.Tree.Change

namespace BladeTree

/-- What a node is from the beginning: its kind, place and parent. -/
def FlatNode.origin (n : FlatNode) : NodeKind × Nat × Option Nat :=
  (n.kind, n.tokenStart, n.parent)

namespace Builder

/-- The tree has grown from `start` to `b` in an item that began with `n` nodes: old nodes keep their
origin, and no node is added to those that are closed, nor are they closed anew or with another
reason. -/
structure Widens (n : Nat) (start b : Builder) : Prop where
  size : start.nodes.size ≤ b.nodes.size
  origin : ∀ i < start.nodes.size, (slot b.nodes i).origin = (slot start.nodes i).origin
  entered : ∀ i p, start.nodes.size ≤ i → (slot b.nodes i).parent = some p →
    p ∈ start.openPath ∨ n ≤ p
  opened : ∀ i ∈ b.openPath, i ∈ start.openPath ∨ n ≤ i
  reason : ∀ i < n, i ∉ start.openPath → b.metadata.closedBy? i = start.metadata.closedBy? i
  logged : start.diagnostics.toList <+: b.diagnostics.toList

/-- In addition there is no new block, an old node gets no new directive, and a block that is not open
any more has got a reason. -/
structure Steady (n : Nat) (start b : Builder) : Prop extends Widens n start b where
  fresh : ∀ i, start.nodes.size ≤ i → (slot b.nodes i).kind ≠ .directiveBlock
  bare : ∀ i p, start.nodes.size ≤ i → (slot b.nodes i).parent = some p → p < n →
    (slot b.nodes i).kind ≠ .directive
  stack : ∀ f ∈ b.stack, f.blockRule?.isSome → f ∈ start.stack
  recorded : ∀ i, (start.metadata.closedBy? i).isSome → (b.metadata.closedBy? i).isSome
  left : ∀ f ∈ start.stack, f.blockRule?.isSome →
    f ∈ b.stack ∨ (b.metadata.closedBy? f.node).isSome

variable {t : Tokenized} {start b b' : Builder} {n q id : Nat} {kind : NodeKind}

theorem parent_eq_none (hi : b.nodes.size ≤ id) : (slot b.nodes id).parent = none := by
  unfold slot
  rw [Array.getD_eq_getD_getElem?, Array.getElem?_eq_none hi]
  rfl

theorem lt_size_of_parent {p : Nat} (hp : (slot b.nodes id).parent = some p) :
    id < b.nodes.size := by
  by_contra hid
  cases (parent_eq_none (Nat.le_of_not_lt hid)).symm.trans hp

namespace Widens

section

variable (h : Widens n start b)
include h

theorem kind_eq {i : Nat} (hi : i < start.nodes.size) :
    (slot b.nodes i).kind = (slot start.nodes i).kind := congrArg (·.1) (h.origin i hi)

theorem tokenStart_eq {i : Nat} (hi : i < start.nodes.size) :
    (slot b.nodes i).tokenStart = (slot start.nodes i).tokenStart :=
  congrArg (·.2.1) (h.origin i hi)

theorem parent_eq {i : Nat} (hi : i < start.nodes.size) :
    (slot b.nodes i).parent = (slot start.nodes i).parent := congrArg (·.2.2) (h.origin i hi)

theorem trans (h' : Widens n b b') : Widens n start b' where
  size := h.size.trans h'.size
  origin i hi := (h'.origin i (hi.trans_le h.size)).trans (h.origin i hi)
  entered i p hi hp := by
    rcases Nat.lt_or_ge i b.nodes.size with hlt | hge
    · exact h.entered i p hi ((h'.parent_eq hlt).symm.trans hp)
    · exact (h'.entered i p hge hp).elim (h.opened p) .inr
  opened i hi := (h'.opened i hi).elim (h.opened i) .inr
  reason i hi hclosed := by
    have hstill : i ∉ b.openPath := by
      intro hopen
      exact (h.opened i hopen).elim hclosed (Nat.not_le_of_lt hi)
    exact (h'.reason i hi hstill).trans (h.reason i hi hclosed)
  logged := h.logged.trans h'.logged

end

theorem refl (n : Nat) (b : Builder) : Widens n b b where
  size := le_rfl
  origin _ _ := rfl
  entered _ _ hi hp := absurd (lt_size_of_parent hp) (Nat.not_lt_of_le hi)
  opened _ hi := .inl hi
  reason _ _ _ := rfl
  logged := List.prefix_refl _

theorem of_extends (hx : Extends 0 b b')
    (hentered : ∀ i p, b.nodes.size ≤ i → (slot b'.nodes i).parent = some p →
      p ∈ b.openPath ∨ n ≤ p)
    (hreason : ∀ i < n, i ∉ b.openPath → b'.metadata.closedBy? i = b.metadata.closedBy? i) :
    Widens n b b' where
  size := hx.size
  origin i hi := by
    unfold FlatNode.origin
    rw [hx.kind i hi, hx.tokenStart i hi, hx.parent i hi]
  entered := hentered
  opened i hi := by
    unfold openPath at hi ⊢
    rw [List.mem_append] at hi ⊢
    exact .inl (hi.imp_left fun hf => (hx.stack.map Frame.node).subset hf)
  reason := hreason
  logged := hx.logged

theorem of_size (hx : Extends 0 b b') (hsize : b'.nodes.size = b.nodes.size)
    (hreason : ∀ i < n, i ∉ b.openPath → b'.metadata.closedBy? i = b.metadata.closedBy? i) :
    Widens n b b' := by
  refine of_extends hx (fun i p hi hp => ?_) hreason
  have hlt := lt_size_of_parent hp
  rw [hsize] at hlt
  exact absurd hlt (Nat.not_lt_of_le hi)

theorem child (hs : b.Starts q kind id b') (hq : q ∈ b.openPath ∨ n ≤ q) : Widens n b b' where
  size := by
    rw [hs.size]
    exact Nat.le_succ _
  origin i hi := congrArg (fun core => (core.1, core.2.1, core.2.2.1)) (hs.old i hi)
  entered i p hi hp := by
    obtain rfl := hs.eq_of_ge hi (lt_size_of_parent hp)
    obtain rfl : q = p := Option.some.inj (hs.parent_eq.symm.trans hp)
    exact hq
  opened i hi := .inl (openPath_congr (show b'.stack = b.stack by rw [hs.rest]) ▸ hi)
  reason i _ _ := by rw [show b'.metadata = b.metadata by rw [hs.rest]]
  logged := by rw [show b'.diagnostics = b.diagnostics by rw [hs.rest]]

end Widens

/-! Single changes -/

theorem pushFrame_rest (b : Builder) (f : Frame) : b.pushFrame f = { b with
    stack := f :: b.stack, elements := (b.pushFrame f).elements,
    directives := (b.pushFrame f).directives, conditions := (b.pushFrame f).conditions } := by
  obtain ⟨node, kind⟩ := f
  cases kind with
  | element name => rfl
  | directive rule name =>
      unfold pushFrame
      cases hc : rule.conditional <;> simp only [hc, if_true, if_false, Bool.false_eq_true]

theorem returns_modify (b : Builder) (id : Nat) (f : FlatNode → FlatNode) :
    Build.Returns (b.modify id f) fun b' =>
      id < b.nodes.size ∧ b' = { b with nodes := b.nodes.modify id f } :=
  .ite (fun hid => .ok ⟨hid, rfl⟩) fun _ => .fault

theorem returns_finishAt (b : Builder) (id stop : Nat) :
    Build.Returns (b.finishAt id stop) fun b' => id < b.nodes.size ∧ b' = { b with
      nodes := b.nodes.modify id ({ · with tokenCount := stop - (slot b.nodes id).tokenStart }) } := by
  unfold finishAt
  refine (returns_node b id).bind ?_
  rintro node ⟨_, rfl⟩
  exact .ite (fun _ => returns_modify b id _) fun _ => .fault

theorem parent_modify {f : FlatNode → FlatNode} (hf : ∀ m, (f m).parent = m.parent)
    (hb : b.modify id f = .ok b') (i : Nat) : (slot b'.nodes i).parent = (slot b.nodes i).parent := by
  obtain ⟨hid, rfl⟩ := returns_modify b id f _ hb
  rw [slot_modify hid]
  split
  · exact hf _
  · rfl

theorem parent_finish (hb : b.finish id = .ok b') (i : Nat) :
    (slot b'.nodes i).parent = (slot b.nodes i).parent := by
  obtain ⟨hid, rfl⟩ := returns_finishAt b id _ _ hb
  rw [slot_modify hid]
  split <;> rfl

theorem returns_popFrame {f : Frame} {below : List Frame} (hs : b.stack = f :: below)
    (stop : Nat) : Build.Returns (b.popFrame stop) fun (popped, b') => popped = some f ∧
      b'.stack = below ∧ b'.pos = b.pos ∧ b'.metadata = b.metadata ∧
      b'.diagnostics = b.diagnostics ∧ f.node < b.nodes.size ∧
      b'.nodes = b.nodes.modify f.node
        ({ · with tokenCount := stop - (slot b.nodes f.node).tokenStart }) := by
  have hclose {b₁ : Builder} (hb₁ : b₁ = { b with
      stack := below, elements := b₁.elements, directives := b₁.directives,
      conditions := b₁.conditions }) :
      Build.Returns (do return (some f, ← b₁.finishAt f.node stop)) fun (popped, b') =>
        popped = some f ∧ b'.stack = below ∧ b'.pos = b.pos ∧ b'.metadata = b.metadata ∧
          b'.diagnostics = b.diagnostics ∧ f.node < b.nodes.size ∧
          b'.nodes = b.nodes.modify f.node
            ({ · with tokenCount := stop - (slot b.nodes f.node).tokenStart }) := by
    refine (returns_finishAt b₁ f.node stop).bind fun b₂ ⟨hid, hb₂⟩ => .ok ?_
    rw [hb₁] at hid hb₂
    subst hb₂
    exact ⟨rfl, rfl, rfl, rfl, rfl, hid, rfl⟩
  unfold popFrame
  rw [hs]
  simp only
  split
  · exact Build.Returns.any.bind fun _ _ => hclose rfl
  · refine Build.Returns.any.bind fun _ _ => ?_
    split
    · exact Build.Returns.any.bind fun _ _ => hclose rfl
    · exact hclose rfl

theorem returns_settle (b : Builder) (f : Frame) (reason : ClosedBy) (stop : Nat)
    (context : Option String) :
    Build.Returns (b.settle t f reason stop context) fun b' =>
      b'.metadata = b.metadata ∧ b'.nodes.size = b.nodes.size ∧ b'.stack = b.stack ∧
        b'.pos = b.pos := by
  have hreport {b₁ : Builder} (h₁ : b₁.metadata = b.metadata ∧ b₁.nodes.size = b.nodes.size ∧
      b₁.stack = b.stack ∧ b₁.pos = b.pos) (kind : DiagnosticKind) (i j : Nat) (name : String) :
      Build.Returns (b₁.reportTokens t kind i j name context) fun b' =>
        b'.metadata = b.metadata ∧ b'.nodes.size = b.nodes.size ∧ b'.stack = b.stack ∧
          b'.pos = b.pos := by
    refine (returns_report b₁ kind i j name context).mono fun b' ⟨_, _, hb'⟩ => ?_
    subst hb'
    exact h₁
  unfold settle
  refine Build.Returns.any.bind fun node _ => ?_
  split
  · refine (returns_modify b f.node _).bind fun b₁ ⟨_, hb₁⟩ => ?_
    have h₁ : b₁.metadata = b.metadata ∧ b₁.nodes.size = b.nodes.size ∧ b₁.stack = b.stack ∧
        b₁.pos = b.pos := by
      subst hb₁
      exact ⟨rfl, Array.size_modify, rfl, rfl⟩
    exact .ite (fun _ => .ok h₁) fun _ => hreport h₁ _ _ _ _
  · split
    · exact Build.Returns.any.bind fun _ _ => hreport ⟨rfl, rfl, rfl, rfl⟩ _ _ _ _
    · exact hreport ⟨rfl, rfl, rfl, rfl⟩ _ _ _ _

theorem returns_closed {f : Frame} {below : List Frame} (hs : b.stack = f :: below)
    (reason : ClosedBy) (stop : Nat) (context : Option String) :
    Build.Returns (b.forceClose t reason stop context) fun b' =>
      b'.metadata.closedBy? = Function.update b.metadata.closedBy? f.node (some reason) ∧
        b'.nodes.size = b.nodes.size ∧ b'.stack = below := by
  rw [forceClose_eq]
  refine (returns_popFrame hs stop).bind
    fun ⟨popped, b₁⟩ ⟨hpopped, hstack, _, hmetadata, _, _, hnodes⟩ => ?_
  subst hpopped
  refine (returns_settle _ f reason stop context).mono fun b' ⟨hmetadata', hsize', hstack', _⟩ => ?_
  refine ⟨?_, ?_, hstack'.trans hstack⟩
  · rw [hmetadata', ← hmetadata]
    exact Metadata.closedBy?_setClosedBy _ _ _
  · rw [hsize', hnodes, Array.size_modify]

theorem Inner.stack_eq (h : Inner t q start b) : b.stack = start.stack :=
  congrArg Ledger.stack h.ledger_eq

theorem Inner.closedBy?_eq (h : Inner t q start b) :
    b.metadata.closedBy? = start.metadata.closedBy? :=
  congrArg Ledger.reason h.ledger_eq

theorem Inner.parent_of_new (h : Inner t q start b) {i p : Nat} (hi : start.nodes.size ≤ i)
    (hp : (slot b.nodes i).parent = some p) :
    p = q ∨ start.nodes.size ≤ p ∧ (slot b.nodes p).kind = .attr := by
  have hfirst (b : Builder) : Extends 0 b b := .refl (Nat.zero_le _)
  have hkept {b b' : Builder} (hx : Extends 0 b b')
      (h : p = q ∨ start.nodes.size ≤ p ∧ (slot b.nodes p).kind = .attr) :
      p = q ∨ start.nodes.size ≤ p ∧ (slot b'.nodes p).kind = .attr := by
    refine h.imp_right (And.imp_right fun hk => (hx.kind p ?_).trans hk)
    exact lt_size_of_kind (by rw [hk]; nofun)
  induction h with
  | refl => exact absurd (lt_size_of_parent hp) (Nat.not_lt_of_le hi)
  | @bump b b' _ hb ih =>
      obtain ⟨-, rfl⟩ := returns_bump _ _ hb
      exact ih hp
  | @node b b' q' id kind hb hq hk hstarts ih =>
      have hs := (startIn_starts b q' kind).returns _ hstarts
      have hx := (hfirst b).starts (NodeKind.isFrame_of_isPlain hk) hs
      rcases Nat.lt_or_ge i b.nodes.size with hlt | hge
      · have hold : (slot b'.nodes i).parent = (slot b.nodes i).parent :=
          congrArg (·.2.2.1) (hs.old i hlt)
        exact hkept hx.1 (ih (hold.symm.trans hp))
      · obtain rfl := hs.eq_of_ge hge (lt_size_of_parent hp)
        obtain rfl : q' = p := Option.some.inj (hs.parent_eq.symm.trans hp)
        exact hkept hx.1 hq
  | @finish b b' id _ _ hb ih =>
      have hx := ((hfirst b).finish id).returns _ hb
      exact hkept hx (ih ((parent_finish hb _).symm.trans hp))
  | @data b b' id data _ _ hb ih =>
      have hx := ((hfirst b).setData data (Nat.zero_le id)).returns _ hb
      have hparent := parent_modify (f := ({ · with data := data })) (fun _ => rfl) hb i
      exact hkept hx (ih (hparent.symm.trans hp))
  | genericArgs _ _ ih => exact ih hp
  | report _ _ hb ih =>
      obtain ⟨span, -, rfl⟩ := returns_report _ _ _ _ _ _ _ hb
      exact ih hp

namespace Widens

theorem inner (h : Inner t q b b') (hq : q ∈ b.openPath ∨ n ≤ q) (hn : n ≤ b.nodes.size) :
    Widens n b b' := by
  refine of_extends (h.extends.mono (Nat.zero_le _)) (fun i p hi hp => ?_) fun i _ _ => ?_
  · rcases h.parent_of_new hi hp with rfl | ⟨hnew, -⟩
    · exact hq
    · exact .inr (hn.trans hnew)
  · rw [h.closedBy?_eq]

theorem pushFrame {f : Frame} (hf : n ≤ f.node) : Widens n b (b.pushFrame f) := by
  have hrest := b.pushFrame_rest f
  have hnodes : (b.pushFrame f).nodes = b.nodes := by rw [hrest]
  refine ⟨?_, ?_, ?_, fun i hi => ?_, ?_, ?_⟩
  · rw [hnodes]
  · rw [hnodes]
    exact fun _ _ => rfl
  · rw [hnodes]
    exact (refl n b).entered
  · rw [hrest] at hi
    rcases List.mem_cons.1 hi with rfl | hi
    · exact .inr hf
    · exact .inl hi
  · rw [hrest]
    exact fun _ _ _ => rfl
  · rw [hrest]

theorem popFrame {f : Frame} {below : List Frame} {popped : Option Frame} {stop : Nat}
    (hs : b.stack = f :: below) (hb : b.popFrame stop = .ok (popped, b')) : Widens n b b' := by
  have hx : Extends 0 b b := .refl (Nat.zero_le _)
  obtain ⟨-, -, -, hmetadata, -, -, hnodes⟩ := returns_popFrame hs stop _ hb
  refine of_size ((hx.popFrame _).returns _ hb) ?_ fun i _ _ => by rw [hmetadata]
  rw [hnodes, Array.size_modify]

end Widens

namespace Steady

theorem trans (h : Steady n start b) (h' : Steady n b b') : Steady n start b' where
  toWidens := h.toWidens.trans h'.toWidens
  fresh i hi := by
    rcases Nat.lt_or_ge i b.nodes.size with hlt | hge
    · rw [h'.kind_eq hlt]
      exact h.fresh i hi
    · exact h'.fresh i hge
  bare i p hi hp hlt := by
    rcases Nat.lt_or_ge i b.nodes.size with hold | hnew
    · rw [h'.kind_eq hold]
      exact h.bare i p hi ((h'.parent_eq hold).symm.trans hp) hlt
    · exact h'.bare i p hnew hp hlt
  stack f hf hrule := h.stack f (h'.stack f hf hrule) hrule
  recorded i hi := h'.recorded i (h.recorded i hi)
  left f hf hrule := (h.left f hf hrule).elim (h'.left f · hrule) fun hi => .inr (h'.recorded _ hi)

theorem of_size (hw : Widens n b b') (hsize : b'.nodes.size = b.nodes.size)
    (hstack : b'.stack ⊆ b.stack)
    (hrecorded : ∀ i, (b.metadata.closedBy? i).isSome → (b'.metadata.closedBy? i).isSome)
    (hleft : ∀ f ∈ b.stack, f.blockRule?.isSome →
      f ∈ b'.stack ∨ (b'.metadata.closedBy? f.node).isSome) : Steady n b b' where
  toWidens := hw
  fresh i hi hkind := by
    have hlt : i < b'.nodes.size := lt_size_of_kind (by rw [hkind]; nofun)
    rw [hsize] at hlt
    exact absurd hi (Nat.not_le_of_lt hlt)
  bare i p hi hp := by
    have hlt := lt_size_of_parent hp
    rw [hsize] at hlt
    exact absurd hi (Nat.not_le_of_lt hlt)
  stack f hf _ := hstack hf
  recorded := hrecorded
  left := hleft

theorem of_nodes (hw : Widens n b b') (hsize : b'.nodes.size = b.nodes.size)
    (hstack : b'.stack = b.stack) (hmetadata : b'.metadata = b.metadata) : Steady n b b' :=
  of_size hw hsize (fun _ hf => hstack ▸ hf) (fun _ hi => hmetadata ▸ hi)
    fun _ hf _ => .inl (hstack ▸ hf)

theorem refl (n : Nat) (b : Builder) : Steady n b b := of_nodes (.refl n b) rfl rfl rfl

theorem child (hs : b.Starts b.parent kind id b') (hk : kind.isBlockPart = false) :
    Steady n b b' where
  toWidens := .child hs (.inl b.parent_mem_openPath)
  fresh i hi hkind := by
    obtain rfl := hs.eq_of_ge hi (lt_size_of_kind (by rw [hkind]; nofun))
    rw [← hs.kind_eq, hkind] at hk
    cases hk
  bare i p hi hp _ hkind := by
    obtain rfl := hs.eq_of_ge hi (lt_size_of_parent hp)
    rw [← hs.kind_eq, hkind] at hk
    cases hk
  stack f hf _ := (show b'.stack = b.stack by rw [hs.rest]) ▸ hf
  recorded i hi := (show b'.metadata = b.metadata by rw [hs.rest]) ▸ hi
  left f hf _ := .inl ((show b'.stack = b.stack by rw [hs.rest]) ▸ hf)

theorem inner (h : Inner t q b b') (hq : n ≤ q) (hn : n ≤ b.nodes.size) : Steady n b b' where
  toWidens := .inner h (.inr hq) hn
  fresh i hi hkind := by
    have hframe := h.extends.fresh i hi (lt_size_of_kind (by rw [hkind]; nofun))
    rw [hkind] at hframe
    cases hframe
  bare i p hi hp hlt := by
    rcases h.parent_of_new hi hp with rfl | ⟨hnew, -⟩
    · exact absurd hq (Nat.not_le_of_lt hlt)
    · exact absurd (hn.trans hnew) (Nat.not_le_of_lt hlt)
  stack f hf _ := h.stack_eq ▸ hf
  recorded i hi := by rwa [h.closedBy?_eq]
  left f hf _ := .inl (h.stack_eq ▸ hf)

theorem close {reason : ClosedBy} {stop : Nat} {context : Option String}
    (hb : b.forceClose t reason stop context = .ok b') : Steady n b b' := by
  have hx : Extends 0 b b := .refl (Nat.zero_le _)
  cases hs : b.stack with
  | nil =>
      rw [forceClose_eq, popFrame, hs] at hb
      cases hb
      exact .refl n b
  | cons f below =>
      obtain ⟨hreason, hsize, hstack⟩ := returns_closed hs reason stop context _ hb
      have hopen : f.node ∈ b.openPath := by
        unfold openPath
        rw [hs]
        exact List.mem_cons_self
      have hw : Widens n b b' := .of_size ((hx.forceClose _ _ _).returns _ hb) hsize
        fun i _ hi => by
          rw [hreason, Function.update_of_ne]
          rintro rfl
          exact hi hopen
      refine of_size hw hsize ?_ (fun i hi => ?_) fun g hg _ => ?_
      · rw [hstack, hs]
        exact List.subset_cons_self _ _
      · rw [hreason, Function.update_apply]
        split
        · rfl
        · exact hi
      · rw [hs, List.mem_cons] at hg
        rcases hg with rfl | hg
        · right
          rw [hreason, Function.update_self]
          rfl
        · exact .inl (hstack ▸ hg)

theorem pair {f : Frame} {below : List Frame} {popped : Option Frame} {stop : Nat}
    (hs : b.stack = f :: below) (hf : f.blockRule? = none)
    (hb : b.popFrame stop = .ok (popped, b')) : Steady n b b' := by
  obtain ⟨-, hstack, -, hmetadata, -, -, hnodes⟩ := returns_popFrame hs stop _ hb
  refine of_size (.popFrame hs hb) ?_ ?_ (fun i hi => hmetadata ▸ hi) fun g hg hrule => ?_
  · rw [hnodes, Array.size_modify]
  · rw [hstack, hs]
    exact List.subset_cons_self _ _
  · rw [hs, List.mem_cons] at hg
    rcases hg with rfl | hg
    · rw [hf] at hrule
      cases hrule
    · exact .inl (hstack ▸ hg)

theorem enter (hid : n ≤ id) (name : String) :
    Steady n b (b.pushFrame ⟨id, .element name⟩) where
  toWidens := .pushFrame hid
  fresh := (refl n b).fresh
  bare := (refl n b).bare
  stack f hf hrule := by
    rcases List.mem_cons.1 hf with rfl | hf
    · cases hrule
    · exact hf
  recorded _ hi := hi
  left f hf _ := .inl (List.mem_cons_of_mem _ hf)

end Steady

theorem Change.steady (h : Change t n b b') (hn : n ≤ b.nodes.size) : Steady n b b' := by
  have hx : Extends 0 b b := .refl (Nat.zero_le _)
  cases h with
  | bump hb =>
      have hx' := hx.bump.returns _ hb
      obtain ⟨-, rfl⟩ := returns_bump _ _ hb
      exact .of_nodes (.of_size hx' rfl fun _ _ _ => rfl) rfl rfl rfl
  | report hb =>
      have hx' := (hx.reportTokens _ _ _ _ _).returns _ hb
      obtain ⟨span, -, rfl⟩ := returns_report _ _ _ _ _ _ _ hb
      exact .of_nodes (.of_size hx' rfl fun _ _ _ => rfl) rfl rfl rfl
  | child hk hb => exact .child ((startIn_starts _ _ _).returns _ hb) hk
  | inner hq _ hinner => exact .inner hinner hq hn
  | amend hid hf hb =>
      have hx' := (hx.modify hf fun hlt => absurd hlt (Nat.not_lt_zero _)).returns _ hb
      obtain ⟨-, rfl⟩ := returns_modify _ _ _ _ hb
      exact .of_nodes (.of_size hx' Array.size_modify fun _ _ _ => rfl) Array.size_modify rfl rfl
  | @unterminated id hid =>
      have hreason := Metadata.closedBy?_setClosedBy b.metadata id .unterminatedStartTag
      have hw : Widens n b
          { b with metadata := b.metadata.setClosedBy id .unterminatedStartTag } :=
        .of_size (hx.metadata _) rfl fun i hi _ => by
          rw [hreason, Function.update_of_ne]
          rintro rfl
          exact absurd hid (Nat.not_le_of_lt hi)
      refine .of_size hw rfl (List.Subset.refl _) (fun i hi => ?_) fun _ hf _ => .inl hf
      rw [hreason, Function.update_apply]
      split
      · rfl
      · exact hi
  | close hb => exact .close hb
  | pair hs hf hb => exact .pair hs hf hb
  | enter hid _ => exact .enter hid _

theorem Changes.steady (h : Changes t start b) : Steady start.nodes.size start b := by
  induction h with
  | refl => exact .refl _ _
  | tail _ hc ih => exact ih.trans (hc.steady ih.size)

end Builder
end BladeTree
