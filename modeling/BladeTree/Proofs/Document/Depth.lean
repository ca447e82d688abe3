import BladeTree.Proofs.Document.Parse
import BladeTree.Proofs.Tree.Admission

namespace BladeTree
namespace Document

variable (d : Document)

def blockRule? (id : Nat) : Option BlockRule :=
  if d.kind id = .directiveBlock then
    (d.toTokenized.directiveName (d.node id).tokenStart).toOption.bind BlockRule.find?
  else none

def isCounted (counter : DepthCounter) (id : Nat) : Bool :=
  match counter with
  | .elements => d.kind id == .element
  | .directives => d.kind id == .directiveBlock
  | .conditions => (d.blockRule? id).any (·.conditional)

def depth (counter : DepthCounter) (id : Nat) : Nat :=
  (d.ancestors id).countP (d.isCounted counter)

/-- The limit that a node reaches first by opening a frame. -/
def blocker? (l : DepthLimits) (id : Nat) : Option DepthCounter :=
  if (d.node id).opensFrame then
    DepthCounter.all.find? fun counter =>
      d.isCounted counter id && l.get counter ≤ d.depth counter id + 1
  else none

def depthError? (l : DepthLimits) (id : Nat) : Option BuildError :=
  (d.blocker? l id).map fun counter =>
    .depthLimit counter (l.get counter) (d.offset (d.node id).tokenStart)

variable {d} {d' : Document} {i : Nat}

theorem lt_of_mem_ancestors {j : Nat} (h : j ∈ d.ancestors i) : j < i := by
  fun_induction ancestors d i with
  | case1 i p hp hlt ih =>
      rcases List.mem_cons.1 h with rfl | h
      · exact hlt
      · exact (ih h).trans hlt
  | case2 => cases h
  | case3 => cases h

theorem mem_ancestors_trans {j k : Nat} (hk : k ∈ d.ancestors j) (hj : j ∈ d.ancestors i) :
    k ∈ d.ancestors i := by
  fun_induction ancestors d i with
  | case1 i p hp hlt ih =>
      rcases List.mem_cons.1 hj with rfl | hj
      · exact List.mem_cons_of_mem _ hk
      · exact List.mem_cons_of_mem _ (ih hj)
  | case2 => cases hj
  | case3 => cases hj

theorem ancestors_congr (h : ∀ j ≤ i, (d.node j).parent = (d'.node j).parent) :
    d.ancestors i = d'.ancestors i := by
  fun_induction ancestors d i with
  | case1 i p hp hlt ih =>
      rw [ancestors.eq_def d' i, ← h i le_rfl, hp, ih fun j hj => h j (hj.trans hlt.le)]
      simp only [hlt, dif_pos]
  | case2 i p hp hlt =>
      rw [ancestors.eq_def d' i, ← h i le_rfl, hp]
      simp only [hlt, dif_neg, not_false_eq_true]
  | case3 i hp => rw [ancestors.eq_def d' i, ← h i le_rfl, hp]

section Congr

variable (hs : d.source = d'.source) (ht : d.tokens = d'.tokens)
  (h : ∀ j ≤ i, (d.node j).shape = (d'.node j).shape)
include hs ht h

theorem isCounted_congr (counter : DepthCounter) {j : Nat} (hj : j ≤ i) :
    d.isCounted counter j = d'.isCounted counter j := by
  have hshape := h j hj
  simp only [FlatNode.shape, Prod.mk.injEq] at hshape
  obtain ⟨hkind, hstart, -, -⟩ := hshape
  have hkind : d.kind j = d'.kind j := hkind
  cases counter <;> simp only [isCounted, blockRule?, Tokenized.directiveName, Tokenized.text,
    Tokenized.token, hkind, hstart, hs, ht]

theorem depth_congr (counter : DepthCounter) : d.depth counter i = d'.depth counter i := by
  have hparent (j : Nat) (hj : j ≤ i) : (d.node j).parent = (d'.node j).parent := by
    have hshape := h j hj
    simp only [FlatNode.shape, Prod.mk.injEq] at hshape
    exact hshape.2.2.1
  unfold depth
  rw [ancestors_congr hparent]
  exact List.countP_congr fun j hj => by
    rw [isCounted_congr hs ht h counter (lt_of_mem_ancestors hj).le]

theorem blocker?_congr (l : DepthLimits) : d.blocker? l i = d'.blocker? l i := by
  have hshape := h i le_rfl
  simp only [FlatNode.shape, Prod.mk.injEq] at hshape
  simp only [blocker?, hshape.2.2.2, depth_congr hs ht h, isCounted_congr hs ht h _ le_rfl]

theorem depthError?_congr (l : DepthLimits) : d.depthError? l i = d'.depthError? l i := by
  have hshape := h i le_rfl
  simp only [FlatNode.shape, Prod.mk.injEq] at hshape
  simp only [depthError?, blocker?_congr hs ht h, Tokenized.offset, hshape.2.1, hs, ht]

end Congr

end Document

namespace Builder

def document (t : Tokenized) (b : Builder) : Document :=
  ⟨t, #[], b.nodes, b.metadata, b.diagnostics⟩

/-- Fails with the first of the nodes since `start` that reaches a limit. -/
def admitNew (t : Tokenized) (l : DepthLimits) (start b : Builder) : Build Unit :=
  match (List.range' start.nodes.size (b.nodes.size - start.nodes.size)).findSome?
      ((b.document t).depthError? l) with
  | some e => .error e
  | none => .ok ()

variable {t : Tokenized} {start b b' : Builder} {f : Frame} {below : List Frame} {l : DepthLimits}

theorem isCounted_of_holds (h : f.Holds t b.nodes) (counter : DepthCounter) :
    (b.document t).isCounted counter f.node = f.counts counter := by
  obtain ⟨id, kind⟩ := f
  have hfits := h.fits
  have hkind : (b.document t).kind id = (slot b.nodes id).kind := rfl
  have hstart : ((b.document t).node id).tokenStart = (slot b.nodes id).tokenStart := rfl
  cases kind with
  | element name =>
      obtain ⟨hk, -⟩ := hfits
      cases counter <;>
        simp only [Document.isCounted, Document.blockRule?, Frame.counts, hkind, hk] <;> rfl
  | directive rule name =>
      obtain ⟨hk, hname, hrule⟩ := hfits
      have hname' : (b.document t).toTokenized.directiveName (slot b.nodes id).tokenStart =
          .ok name := hname
      cases counter <;>
        simp only [Document.isCounted, Document.blockRule?, Frame.counts, hkind, hk, hstart,
          hname', if_true, Except.toOption, Option.bind_some, hrule, Option.any_some] <;> rfl

theorem ancestors_of_nested (hl : (outline b.nodes).Linked)
    (hn : Frame.Nested t b.nodes (f :: below)) :
    (b.document t).ancestors f.node = below.map (·.node) ++ [root] := by
  have hparent (i : Nat) : ((b.document t).node i).parent = (outline b.nodes).parent i := rfl
  induction below generalizing f with
  | nil =>
      have hroot : (outline b.nodes).parent f.node = some root := hn.2.1
      have hlt := (hl.below _ _ hroot).1
      have hnone : (outline b.nodes).parent root = none := hl.root
      rw [Document.ancestors, hparent, hroot]
      simp only [hlt, dif_pos]
      rw [Document.ancestors, hparent, hnone]
      rfl
  | cons g rest ih =>
      have hg : (outline b.nodes).parent f.node = some g.node := hn.2.1
      have hlt := (hl.below _ _ hg).1
      rw [Document.ancestors, hparent, hg]
      simp only [hlt, dif_pos]
      rw [ih hn.2.2]
      rfl

theorem depth_of_nested (hb : b.Sound t) (hn : Frame.Nested t b.nodes (f :: below))
    (counter : DepthCounter) :
    (b.document t).depth counter f.node = below.countP (Frame.counts counter) := by
  have hroot : (b.document t).isCounted counter root = false := by
    have hkind : (b.document t).kind root = .document := hb.document
    cases counter <;> simp only [Document.isCounted, Document.blockRule?, hkind] <;> rfl
  have hbelow : ∀ stack, Frame.Nested t b.nodes stack →
      (stack.map (·.node)).countP ((b.document t).isCounted counter) =
        stack.countP (Frame.counts counter) := by
    intro stack
    induction stack with
    | nil => intro _; rfl
    | cons g rest ih =>
        rintro ⟨hg, -, hrest⟩
        rw [List.map_cons, List.countP_cons, List.countP_cons, ih hrest, isCounted_of_holds hg]
  unfold Document.depth
  rw [ancestors_of_nested hb.growing.linked hn, List.countP_append, hbelow _ hn.2.2]
  simp [hroot]

theorem blocker?_of_nested (hb : b.Sound t) (hn : Frame.Nested t b.nodes (f :: below)) :
    (b.document t).blocker? l f.node = f.blocker? l below := by
  have hopens : ((b.document t).node f.node).opensFrame := hn.1.opens
  unfold Document.blocker? Frame.blocker?
  rw [if_pos hopens]
  simp only [isCounted_of_holds hn.1, depth_of_nested hb hn]

theorem depthError?_of_not_opensFrame {i : Nat} (h : ¬ (slot b.nodes i).opensFrame) :
    (b.document t).depthError? l i = none := by
  have hopens : ¬ ((b.document t).node i).opensFrame := h
  unfold Document.depthError? Document.blocker?
  rw [if_neg hopens]
  rfl

theorem findSome?_eq_of_unique {α β : Type} {g : α → Option β} {a : α} {xs : List α}
    (ha : a ∈ xs) (h : ∀ x ∈ xs, x ≠ a → g x = none) : xs.findSome? g = g a := by
  cases hz : xs.findSome? g with
  | none => exact (List.findSome?_eq_none_iff.1 hz a ha).symm
  | some z =>
      obtain ⟨x, hx, hgx⟩ := List.exists_of_findSome?_eq_some hz
      by_cases hxa : x = a
      · rw [← hxa, hgx]
      · cases (h x hx hxa).symm.trans hgx

theorem Grows.admit_eq {opened : Option Frame} (h : Grows t opened below start b)
    (hb : b.Sound t) (hn : Frame.Nested t b.nodes b.stack) (l : DepthLimits) :
    t.admit l opened below start.pos = admitNew t l start b := by
  have hquiet : ∀ i ∈ List.range' start.nodes.size (b.nodes.size - start.nodes.size),
      (∀ f, opened = some f → i ≠ f.node) → (b.document t).depthError? l i = none := by
    intro i hi hne
    have := List.mem_range'_1.1 hi
    refine depthError?_of_not_opensFrame fun hopens => ?_
    obtain ⟨f, hf, rfl⟩ := h.opens i this.1 (by omega) hopens
    exact hne f hf rfl
  unfold Tokenized.admit admitNew
  cases opened with
  | none =>
      rw [List.findSome?_eq_none_iff.2 fun i hi => hquiet i hi nofun]
      rfl
  | some f =>
      obtain ⟨hf, hle, hstart⟩ := h.holds f rfl
      have hlt := hf.lt
      have hmem : f.node ∈ List.range' start.nodes.size (b.nodes.size - start.nodes.size) :=
        List.mem_range'_1.2 ⟨hle, by omega⟩
      have hstack : b.stack = f :: below := h.stack
      rw [findSome?_eq_of_unique hmem fun i hi hne => hquiet i hi (by rintro _ ⟨⟩; exact hne)]
      unfold Document.depthError?
      rw [blocker?_of_nested hb (hstack ▸ hn),
        show ((b.document t).node f.node).tokenStart = start.pos from hstart]
      simp only [Option.bind_some]
      cases f.blocker? l below <;> rfl

theorem admitNew_self (b : Builder) : admitNew t l b b = .ok () := by
  unfold admitNew
  rw [Nat.sub_self]
  rfl

theorem Keeps.admitNew_trans (h : Keeps start b) (h' : Keeps b b') :
    admitNew t l start b' = (do admitNew t l start b; admitNew t l b b') := by
  have hsize := h.size
  have hsize' := h'.size
  have hsplit : List.range' start.nodes.size (b'.nodes.size - start.nodes.size) =
      List.range' start.nodes.size (b.nodes.size - start.nodes.size) ++
        List.range' b.nodes.size (b'.nodes.size - b.nodes.size) := by
    have happend := List.range'_append_1 (s := start.nodes.size)
      (m := b.nodes.size - start.nodes.size) (n := b'.nodes.size - b.nodes.size)
    rw [show start.nodes.size + (b.nodes.size - start.nodes.size) = b.nodes.size by omega] at happend
    rw [happend, show b.nodes.size - start.nodes.size + (b'.nodes.size - b.nodes.size) =
      b'.nodes.size - start.nodes.size by omega]
  have hold (xs : List Nat) (hxs : ∀ i ∈ xs, i < b.nodes.size) :
      xs.findSome? ((b'.document t).depthError? l) = xs.findSome? ((b.document t).depthError? l) := by
    induction xs with
    | nil => rfl
    | cons i xs ih =>
        have hi := hxs i List.mem_cons_self
        have hshape : ∀ j ≤ i, ((b'.document t).node j).shape = ((b.document t).node j).shape :=
          fun j hj => h'.shape j (hj.trans_lt hi)
        have hs : (b'.document t).source = (b.document t).source := rfl
        have ht : (b'.document t).tokens = (b.document t).tokens := rfl
        rw [List.findSome?_cons, List.findSome?_cons, Document.depthError?_congr hs ht hshape,
          ih fun j hj => hxs j (List.mem_cons_of_mem _ hj)]
  unfold admitNew
  rw [hsplit, List.findSome?_append, hold _ fun i hi => by
    have := List.mem_range'_1.1 hi
    omega]
  cases (List.range' start.nodes.size (b.nodes.size - start.nodes.size)).findSome?
    ((b.document t).depthError? l) <;> rfl

/-- What the frames and the nodes that opened one have in common. -/
structure Framed (t : Tokenized) (b : Builder) : Prop where
  nested : Frame.Nested t b.nodes b.stack
  height : b.stack.length ≤ b.pos
  /-- Blocks and elements stand under the root or a node that opened a frame. -/
  parent : ∀ i < b.nodes.size, (slot b.nodes i).kind.isFrame →
    ∃ p, (slot b.nodes i).parent = some p ∧ (p = root ∨ (slot b.nodes p).opensFrame)
  opened : ∀ i < b.nodes.size, (slot b.nodes i).opensFrame → ∃ f : Frame, f.node = i ∧
    f.Holds t b.nodes ∧
      ∀ counter, (b.document t).depth counter i ≤ (slot b.nodes i).tokenStart

theorem Grows.depth_le {opened : Option Frame} (h : Grows t opened below start b)
    (hb : b.Sound t) (hs : start.Framed t) {f : Frame} (hf : opened = some f)
    (counter : DepthCounter) : (b.document t).depth counter f.node ≤ start.pos := by
  have hstack : b.stack = f :: below := by
    rw [h.stack, hf]
    rfl
  rw [depth_of_nested hb (hstack ▸ h.nested hs.nested)]
  calc below.countP (Frame.counts counter) ≤ below.length := List.countP_le_length
    _ ≤ start.stack.length := h.closed.length_le
    _ ≤ start.pos := hs.height

theorem Grows.framed {opened : Option Frame} (h : Grows t opened below start b)
    (hs : start.Framed t) (hle : start.pos + opened.toList.length ≤ b.pos)
    (hdepth : ∀ f, opened = some f →
      ∀ counter, (b.document t).depth counter f.node ≤ start.pos) : b.Framed t where
  nested := h.nested hs.nested
  height := by
    have hlength := h.closed.length_le
    have hheight := hs.height
    rw [h.stack, List.length_append]
    omega
  parent i hi hframe := by
    by_cases hold : i < start.nodes.size
    · obtain ⟨hkind, -, hparent, -⟩ := h.keeps.fields hold
      obtain ⟨p, hp, hopens⟩ := hs.parent i hold (hkind ▸ hframe)
      refine ⟨p, hparent.trans hp, hopens.imp_right fun hopens => ?_⟩
      exact (h.keeps.fields (FlatNode.lt_size_of_opensFrame hopens)).2.2.2.trans hopens
    · have hbelow := h.keeps.nested (hs.nested.suffix h.closed)
      exact ⟨_, h.parent i (Nat.le_of_not_lt hold) hi hframe, hbelow.top_eq⟩
  opened i hi hopens := by
    by_cases hold : i < start.nodes.size
    · obtain ⟨-, hstart, -, hopens'⟩ := h.keeps.fields hold
      obtain ⟨f, hf, hholds, hdepth'⟩ := hs.opened i hold (hopens' ▸ hopens)
      refine ⟨f, hf, h.keeps.holds hholds, fun counter => ?_⟩
      have hshape : ∀ j ≤ i, ((b.document t).node j).shape = ((start.document t).node j).shape :=
        fun j hj => h.keeps.shape j (hj.trans_lt hold)
      have hs : (b.document t).source = (start.document t).source := rfl
      have ht : (b.document t).tokens = (start.document t).tokens := rfl
      rw [Document.depth_congr hs ht hshape, hstart]
      exact hdepth' counter
    · obtain ⟨f, hf, rfl⟩ := h.opens i (Nat.le_of_not_lt hold) hi hopens
      obtain ⟨hholds, -, hstart⟩ := h.holds f hf
      exact ⟨f, rfl, hholds, fun counter => hstart ▸ hdepth f hf counter⟩

theorem Extends.framed (h : Extends b.nodes.size b b') (hb : b.Framed t) (hpos : b'.pos = b.pos) :
    b'.Framed t :=
  h.grows.framed hb hpos.ge nofun

theorem Sound.exists_items (hg : t.Grammatical) (hext : t.options.treeExtensions = [])
    (h : b.Sound t) (hf : b.Framed t) :
    ∃ b', b'.Sound t ∧ b'.pos = t.size ∧ b'.Framed t ∧ Keeps b b' ∧
      ∀ l, b.items (t.withLimits l) = (do admitNew t l b b'; return b') := by
  induction hn : t.size - b.pos using Nat.strong_induction_on generalizing b with
  | _ n ih =>
      by_cases hlt : b.pos < t.size
      · obtain ⟨opened, below, b₁, h₁, hlt₁, hgrows, hitem⟩ := h.admits_contentItem hg hext hlt
        have hone : opened.toList.length ≤ 1 := by cases opened <;> simp
        have hf₁ := hgrows.framed hf (by omega) fun f' hf' => hgrows.depth_le h₁ hf hf'
        obtain ⟨b', h', hpos', hf', hkeeps, hitems⟩ := ih (t.size - b₁.pos) (by omega) h₁ hf₁ rfl
        refine ⟨b', h', hpos', hf', hgrows.keeps.trans hkeeps, fun l => ?_⟩
        have hlt' : b.pos < (t.withLimits l).size := hlt
        have hitem : b.contentItem (t.withLimits l) =
            (do t.admit l opened below b.pos; return b₁) := hitem l
        rw [Builder.items, dif_pos hlt', hitem, hgrows.admit_eq h₁ hf₁.nested,
          hgrows.keeps.admitNew_trans hkeeps]
        simp only [bind_assoc, pure_bind, dif_pos hlt₁, hitems]
      · refine ⟨b, h, le_antisymm h.fits (Nat.le_of_not_lt hlt), hf, .refl b, fun l => ?_⟩
        have hlt' : ¬ b.pos < (t.withLimits l).size := hlt
        rw [Builder.items, dif_neg hlt', admitNew_self]
        rfl

theorem Extends.admitNew (h : Extends b.nodes.size b b') : admitNew t l b b' = .ok () := by
  have hnone : (List.range' b.nodes.size (b'.nodes.size - b.nodes.size)).findSome?
      ((b'.document t).depthError? l) = none := by
    refine List.findSome?_eq_none_iff.2 fun i hi => depthError?_of_not_opensFrame ?_
    have hi := List.mem_range'_1.1 hi
    exact h.not_opensFrame hi.1 (by omega)
  unfold Builder.admitNew
  rw [hnone]

theorem framed_initial : initial.Framed t where
  nested := trivial
  height := le_rfl
  parent i _ hframe := by
    rw [slot_initial] at hframe
    cases hframe
  opened i _ hopens := by
    rw [slot_initial] at hopens
    cases hopens

/-- The whole tree: one result under all limits, unless one of its nodes reaches one. -/
theorem exists_build (hg : t.Grammatical) (hext : t.options.treeExtensions = []) :
    ∃ b, b.Framed t ∧ (slot b.nodes root).kind = .document ∧
      ∀ l, build (t.withLimits l) = (do admitNew t l initial b; return b) := by
  obtain ⟨b₁, h₁, hpos₁, hf₁, hkeeps₁, hitems⟩ := sound_initial.exists_items hg hext framed_initial
  have hx₁ : Extends b₁.nodes.size b₁ b₁ := .refl le_rfl
  obtain ⟨b₂, hb₂, ⟨h₂, hpos₂, hstack₂⟩, hx₂⟩ :=
    (h₁.forceCloseMany closedByEnd hpos₁.symm b₁.stack.length).exists_ok
      (hx₁.forceCloseMany closedByEnd t.size b₁.stack.length) hg
  rw [List.drop_length] at hstack₂
  have hpath : b₂.parent :: b₂.outerPath = [root] := by
    rw [← openPath_eq, openPath, hstack₂]
    rfl
  have hreads : Reads t b₂ [root] b₂ := hpath ▸ h₂.reads
  obtain ⟨b₃, hb₃, ⟨h₃, hpos₃, -⟩, hx₃⟩ := hreads.finish.exists_ok (hx₂.finish root) hg
  refine ⟨b₃, hx₃.framed hf₁ (hpos₃.trans hpos₂), h₃.document, fun l => ?_⟩
  have hclose : b₁.forceCloseMany (t.withLimits l) closedByEnd (t.withLimits l).size
      b₁.stack.length = .ok b₂ := by
    rw [forceCloseMany_withLimits]
    exact hb₂
  unfold build
  rw [hitems, hkeeps₁.admitNew_trans (hx₃.grows (t := t)).keeps, hx₃.admitNew]
  simp only [bind_assoc, pure_bind, ok_bind, hclose, hb₃]
  rfl

end Builder
end BladeTree
