import BladeTree.Edit.Record
import BladeTree.Proofs.Document.Render
import BladeTree.Proofs.Document.Trees

namespace BladeTree

/-- A node with its first token and its links counted from `pos` and `id`, and without its links
to nodes that are not in `ids`. -/
def FlatNode.movedFrom (n : FlatNode) (ids : List Nat) (id pos : Nat) : FlatNode :=
  let move (link : Option Nat) := (link.filter (· ∈ ids)).map (· - id)
  { n with
    tokenStart := n.tokenStart - pos
    parent := move n.parent
    firstChild := move n.firstChild
    lastChild := move n.lastChild
    nextSibling := move n.nextSibling
    prevSibling := move n.prevSibling }

theorem FlatNode.tokenEnd_movedFrom {n : FlatNode} {pos : Nat} (hpos : pos ≤ n.tokenStart)
    (ids : List Nat) (id : Nat) : (n.movedFrom ids id pos).tokenEnd = n.tokenEnd - pos := by
  change n.tokenStart - pos + n.tokenCount = n.tokenStart + n.tokenCount - pos
  omega

def Token.movedFrom (t : Token) (offset : Nat) : Token := ⟨t.kind, t.start - offset, t.stop - offset⟩

namespace Document

variable (d : Document) (id : Nat)

def part : List Nat := id :: d.descendants id

/-- A node as a template of its own: its text, the tokens in it and the nodes from it down. -/
def excerpt : Document where
  options := .standard
  source := .ofString (d.text id)
  tokens := (d.tokens.extract (d.node id).tokenStart (d.node id).tokenEnd).map
    (·.movedFrom (d.offset (d.node id).tokenStart))
  lexerErrors := #[]
  nodes := ((d.part id).map fun j =>
    (d.node j).movedFrom (d.part id) id (d.node id).tokenStart).toArray
  metadata := .empty
  diagnostics := #[]

end Document

/-- The edits in the tree under a node, for its excerpt. -/
def Edits.excerpt (es : Edits) (d : Document) (id : Nat) : Edits :=
  ⟨((d.part id).map es.get?).toArray⟩

namespace Document

/-- `e` is a part of `d`, with its ids and tokens counted from `id` and `pos`. -/
structure Excerpted (e d : Document) (id pos : Nat) : Prop where
  kind : ∀ j < e.nodes.size, d.kind (id + j) = e.kind j
  data : ∀ j < e.nodes.size, (d.node (id + j)).data = (e.node j).data
  start : ∀ j < e.nodes.size, (d.node (id + j)).tokenStart = pos + (e.node j).tokenStart
  stop : ∀ j < e.nodes.size, (d.node (id + j)).tokenEnd = pos + (e.node j).tokenEnd
  stop_le : ∀ j < e.nodes.size, (e.node j).tokenEnd ≤ e.size
  parent : ∀ j < e.nodes.size, 0 < j →
    (d.node (id + j)).parent = (e.node j).parent.map (id + ·)
  root : (e.node 0).parent = none
  firstChild : ∀ j < e.nodes.size, (d.node (id + j)).firstChild = (e.node j).firstChild.map (id + ·)
  nextSibling : ∀ j < e.nodes.size, 0 < j →
    (d.node (id + j)).nextSibling = (e.node j).nextSibling.map (id + ·)
  tokenKind : ∀ i < e.size, d.kind? (pos + i) = e.kind? i
  tokenText : ∀ i j, j ≤ e.size → d.tokenText (pos + i) (pos + j) = e.tokenText i j
  forward : e.Forward

section Part

variable {d : Document} {id last j : Nat} (hl : d.outline.Linked) (hpre : d.outline.Preordered)
  (hlast : last < d.nodes.size) (habove : ∀ x, d.outline.Above id x ↔ id ≤ x ∧ x ≤ last)
include hl hpre hlast habove

theorem part_eq : d.part id = List.range' id (last + 1 - id) := by
  have hle : id ≤ last := ((habove id).1 .refl).2
  rw [part, (descendants_eq hl hpre (hle.trans_lt hlast)).1, subtreeSize_eq hl hlast habove,
    show last + 1 - id = last - id + 1 by omega, List.range'_succ]

theorem mem_part_iff (x : Nat) : x ∈ d.part id ↔ d.outline.Above id x := by
  rw [part_eq hl hpre hlast habove, List.mem_range'_1, habove]
  omega

theorem size_excerpt : (d.excerpt id).nodes.size = last + 1 - id := by
  rw [excerpt, part_eq hl hpre hlast habove]
  simp

theorem node_excerpt (hj : j < last + 1 - id) : (d.excerpt id).node j =
    (d.node (id + j)).movedFrom (d.part id) id (d.node id).tokenStart := by
  rw [node, excerpt, Array.getD_eq_getD_getElem?]
  simp only [part_eq hl hpre hlast habove, List.getElem?_toArray, List.getElem?_map]
  rw [List.getElem?_range' hj]
  simp

theorem move_eq {link : Option Nat} (hlink : ∀ x, link = some x → d.outline.Above id x) :
    link = ((link.filter (· ∈ d.part id)).map (· - id)).map (id + ·) := by
  cases link with
  | none => rfl
  | some x =>
      have hx := hlink x rfl
      have hmem := (mem_part_iff hl hpre hlast habove x).2 hx
      have hle := hx.le hl
      rw [Option.filter_some_pos (by simpa using hmem)]
      simp [show id + (x - id) = x by omega]

theorem eq_of_move_eq {link : Option Nat} {c : Nat}
    (h : (link.filter (· ∈ d.part id)).map (· - id) = some c) :
    link = some (id + c) ∧ c < last + 1 - id := by
  obtain ⟨x, hx, rfl⟩ := Option.map_eq_some_iff.1 h
  obtain ⟨hx, hmem⟩ := Option.filter_eq_some_iff.1 hx
  have habovex := (mem_part_iff hl hpre hlast habove x).1 (by simpa using hmem)
  have := (habove x).1 habovex
  exact ⟨hx.trans (by rw [show id + (x - id) = x by omega]), by omega⟩

theorem link_of_excerpt (link : FlatNode → Option Nat)
    (hmoved : ∀ n ids i pos, link (n.movedFrom ids i pos) = ((link n).filter (· ∈ ids)).map (· - i))
    (hfresh : link (.unlinked .document 0) = none) {c : Nat}
    (h : link ((d.excerpt id).node j) = some c) :
    link (d.node (id + j)) = some (id + c) ∧ c < (d.excerpt id).nodes.size := by
  by_cases hj : j < last + 1 - id
  · rw [node_excerpt hl hpre hlast habove hj, hmoved] at h
    rw [size_excerpt hl hpre hlast habove]
    exact eq_of_move_eq hl hpre hlast habove h
  · rw [node, Array.getD_eq_getD_getElem?, Array.getElem?_eq_none
      ((size_excerpt hl hpre hlast habove).trans_le (Nat.le_of_not_lt hj))] at h
    exact nomatch hfresh.symm.trans h

theorem forward_excerpt : (d.excerpt id).Forward where
  firstChild j c hc := by
    obtain ⟨hlink, hlt⟩ := link_of_excerpt hl hpre hlast habove _ (fun _ _ _ _ => rfl) rfl hc
    have := (hl.below _ _ ((hl.first _).of_eq_some hlink)).1
    omega
  nextSibling j c hc := by
    obtain ⟨hlink, hlt⟩ := link_of_excerpt hl hpre hlast habove _ (fun _ _ _ _ => rfl) rfl hc
    have := ((hl.next _).of_eq_some hlink).1
    omega
  parent j p hp := by
    obtain ⟨hlink, hlt⟩ := link_of_excerpt hl hpre hlast habove _ (fun _ _ _ _ => rfl) rfl hp
    have := (hl.below _ _ hlink).1
    omega

theorem parent_excerpt_zero : ((d.excerpt id).node 0).parent = none := by
  cases hp : ((d.excerpt id).node 0).parent with
  | none => rfl
  | some p =>
      obtain ⟨hlink, -⟩ := link_of_excerpt hl hpre hlast habove _ (fun _ _ _ _ => rfl) rfl hp
      have := (hl.below _ _ hlink).1
      omega

end Part

section Tokens

variable {d : Document} {id : Nat} (hw : d.toTokenized.Whole)
  (hstop : (d.node id).tokenEnd ≤ d.size)

include hstop in
theorem size_excerpt_tokens : (d.excerpt id).size = (d.node id).tokenCount := by
  rw [Tokenized.size, excerpt, Array.size_map, Array.size_extract, FlatNode.tokenEnd]
  rw [FlatNode.tokenEnd, Tokenized.size] at hstop
  omega

include hstop in
theorem getElem?_excerpt_tokens {i : Nat} (hi : i < (d.node id).tokenCount) :
    (d.excerpt id).tokens[i]? = (d.tokens[(d.node id).tokenStart + i]?).map
      (·.movedFrom (d.offset (d.node id).tokenStart)) := by
  rw [FlatNode.tokenEnd, Tokenized.size] at hstop
  rw [excerpt, Array.getElem?_map, Array.getElem?_extract, FlatNode.tokenEnd, if_pos (by omega)]

include hw hstop in
theorem tokenText_excerpt {i j : Nat} (hj : j ≤ (d.node id).tokenCount) :
    d.tokenText ((d.node id).tokenStart + i) ((d.node id).tokenStart + j) =
      (d.excerpt id).tokenText i j := by
  by_cases hij : i < j
  · have htoken (k : Nat) (hk : k < (d.node id).tokenCount) :
        ∃ token, d.tokens[(d.node id).tokenStart + k]? = some token ∧
          (d.excerpt id).tokens[k]? =
            some (token.movedFrom (d.offset (d.node id).tokenStart)) := by
      have hlt : (d.node id).tokenStart + k < d.tokens.size := by
        rw [FlatNode.tokenEnd, Tokenized.size] at hstop
        omega
      refine ⟨d.tokens[(d.node id).tokenStart + k], Array.getElem?_eq_getElem hlt, ?_⟩
      rw [getElem?_excerpt_tokens hstop hk, Array.getElem?_eq_getElem hlt, Option.map_some]
    obtain ⟨first, hfirst, hfirst'⟩ := htoken i (by omega)
    obtain ⟨last, hlast, hlast'⟩ := htoken (j - 1) (by omega)
    have hspan : (d.excerpt id).tokenSpan i j =
        ⟨d.offset ((d.node id).tokenStart + i) - d.offset (d.node id).tokenStart,
          d.offset ((d.node id).tokenStart + j) - d.offset (d.node id).tokenStart⟩ := by
      have hoffset := hw.stop_eq_offset hlast
      rw [show (d.node id).tokenStart + (j - 1) + 1 = (d.node id).tokenStart + j by omega] at hoffset
      have hstart : d.offset ((d.node id).tokenStart + i) = first.start := by
        rw [Tokenized.offset, hfirst]
        rfl
      rw [tokenSpan, if_pos hij, Tokenized.offset, hfirst', hlast', ← hoffset, hstart]
      rfl
    have hsource : (d.excerpt id).source = .ofString (d.text id) := rfl
    have hordered : (d.node id).tokenStart ≤ (d.node id).tokenEnd := Nat.le_add_right _ _
    rw [tokenText_eq hw (by omega), tokenText, hspan, hsource, text, tokenText_eq hw hordered]
    exact (d.source.slice_ofString_slice (hw.isBoundary_offset _) (hw.isBoundary_offset _)
      (hw.offset_le_offset (by omega)) (hw.offset_le_offset (by omega))
      (hw.offset_le_offset (Nat.add_le_add_left hj _))).symm
  · rw [tokenText, tokenText, tokenSpan, tokenSpan, if_neg hij, if_neg (by omega), Source.slice_self,
      Source.slice_self]

end Tokens

theorem within_of_above {d : Document} {id x : Nat}
    (hg : (BladeTree.outline d.nodes).Growing [] d.size) (h : d.outline.Above id x) :
    (d.node id).tokenStart ≤ (d.node x).tokenStart ∧
      (d.node x).tokenEnd ≤ (d.node id).tokenEnd := by
  induction h with
  | refl => exact ⟨le_rfl, le_rfl⟩
  | @tail p c _ hp ih =>
      exact ⟨ih.1.trans (hg.starts c p hp), (hg.inside c p hp List.not_mem_nil).trans ih.2⟩

theorem excerpted_excerpt {d : Document} {id : Nat} (hw : d.toTokenized.Whole)
    (hg : (BladeTree.outline d.nodes).Growing [] d.size) (hid : id < d.nodes.size) :
    (d.excerpt id).Excerpted d id (d.node id).tokenStart := by
  have hl : d.outline.Linked := hg.linked
  have hpre : d.outline.Preordered := hg.preordered
  obtain ⟨last, hlast, habove⟩ := exists_last hl hpre hid
  have hsize := size_excerpt hl hpre hlast habove
  have hstop : (d.node id).tokenEnd ≤ d.size := hg.taken id hid
  have hcount := size_excerpt_tokens hstop
  have hmem {j : Nat} (hj : j < (d.excerpt id).nodes.size) : d.outline.Above id (id + j) :=
    (habove _).2 (by omega)
  have hnode {j : Nat} (hj : j < (d.excerpt id).nodes.size) : (d.excerpt id).node j =
      (d.node (id + j)).movedFrom (d.part id) id (d.node id).tokenStart :=
    node_excerpt hl hpre hlast habove (hsize ▸ hj)
  have hmove {link : Option Nat} (hlink : ∀ x, link = some x → d.outline.Above id x) :=
    move_eq hl hpre hlast habove hlink
  have hparent {j p : Nat} (hj : j < (d.excerpt id).nodes.size) (hpos : 0 < j)
      (hp : (d.node (id + j)).parent = some p) : d.outline.Above id p := by
    obtain ⟨q, hq, hidq⟩ := (hmem hj).cases_parent.resolve_left (by omega)
    rwa [Option.some.inj (hp.symm.trans hq)]
  constructor
  case kind =>
    intro j hj
    rw [kind, kind, hnode hj]
    rfl
  case data =>
    intro j hj
    rw [hnode hj]
    rfl
  case start =>
    intro j hj
    rw [hnode hj]
    exact (Nat.add_sub_cancel' (within_of_above hg (hmem hj)).1).symm
  case stop =>
    intro j hj
    have hle := (within_of_above hg (hmem hj)).1
    rw [hnode hj, FlatNode.tokenEnd_movedFrom hle]
    exact (Nat.add_sub_cancel' (hle.trans (hg.ordered (id + j)))).symm
  case stop_le =>
    intro j hj
    obtain ⟨hle, hend⟩ := within_of_above hg (hmem hj)
    rw [hnode hj, FlatNode.tokenEnd_movedFrom hle, hcount]
    exact Nat.sub_le_of_le_add (hend.trans_eq (Nat.add_comm _ _))
  case parent =>
    intro j hj hpos
    rw [hnode hj]
    exact hmove fun p hp => hparent hj hpos hp
  case root => exact parent_excerpt_zero hl hpre hlast habove
  case firstChild =>
    intro j hj
    rw [hnode hj]
    exact hmove fun c hc => (hmem hj).tail ((hl.first _).of_eq_some hc)
  case nextSibling =>
    intro j hj hpos
    rw [hnode hj]
    refine hmove fun c hc => ?_
    obtain ⟨-, p, hp, hpc⟩ := (hl.next _).of_eq_some hc
    exact (hparent hj hpos hp).tail hpc
  case tokenKind =>
    intro i hi
    rw [Tokenized.kind?, Tokenized.kind?, getElem?_excerpt_tokens hstop (hcount ▸ hi),
      Option.map_map]
    rfl
  case tokenText =>
    intro i j hj
    exact tokenText_excerpt hw hstop (hcount ▸ hj)
  case forward => exact forward_excerpt hl hpre hlast habove

end Document
end BladeTree
