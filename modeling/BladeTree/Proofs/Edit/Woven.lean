import BladeTree.Proofs.Edit.Output
import BladeTree.Proofs.Edit.Pieces

namespace BladeTree
namespace Document

variable (d : Document) (es : Edits)

/-- The node has an edit and no node above it has one. -/
def isTopmost (id : Nat) : Bool :=
  (es.get? id).isSome && (d.ancestors id).all fun p => (es.get? p).isNone

def topmost : List Nat := (List.range d.nodes.size).filter (d.isTopmost es)

/-- The source from byte `pos` on with other text in place of some of its nodes: for each of them
the pieces of its excerpt, each with a separator before it, and one more separator. -/
inductive Woven : Nat → List Nat → String → Prop
  | nil {pos : Nat} : Woven pos [] (d.source.slice pos d.source.size)
  | cons {pos id : Nat} {ids : List Nat} {x s rest : String} :
      pos ≤ (d.span id).start →
      Piece.Spaced ((d.excerpt id).pieces (es.excerpt d id) Builder.root) x → IsSeparator s →
      Woven (d.span id).stop ids rest →
      Woven pos (id :: ids) (d.source.slice pos (d.span id).start ++ x ++ s ++ rest)

/-- Pieces for the tokens `pos … stop`: the pieces of some nodes and the rest as it is. -/
inductive Laid : Nat → Nat → List Nat → List Piece → Prop
  | plain {pos stop : Nat} {ps : List Piece} : pos ≤ stop → (∀ p ∈ ps, p.isDirective = false) →
      Piece.concat ps = d.textBetween pos stop → Laid pos stop [] ps
  | edited {pos id stop : Nat} {ids : List Nat} {ps rest : List Piece} :
      id < d.nodes.size → pos ≤ (d.node id).tokenStart → (∀ p ∈ ps, p.isDirective = false) →
      Piece.concat ps = d.textBetween pos (d.node id).tokenStart →
      Laid (d.node id).tokenEnd stop ids rest →
      Laid pos stop (id :: ids) (ps ++ (d.pieces es id ++ rest))

variable {d es} {pos mid stop id p : Nat} {ids ids' : List Nat} {ps ps' : List Piece}

theorem isTopmost_iff : d.isTopmost es id ↔
    (es.get? id).isSome ∧ ∀ p ∈ d.ancestors id, es.get? p = none := by
  simp [isTopmost]

section Laid

variable (hw : d.toTokenized.Whole)
include hw

theorem Laid.append (h : d.Laid es pos mid ids ps) (h' : d.Laid es mid stop ids' ps') :
    d.Laid es pos stop (ids ++ ids') (ps ++ ps') := by
  induction h with
  | @plain pos mid ps hle hplain htext =>
      cases h' with
      | plain hle' hplain' htext' =>
          refine .plain (hle.trans hle') (fun p hp => ?_) ?_
          · exact (List.mem_append.1 hp).elim (hplain p) (hplain' p)
          · rw [Piece.concat_append, htext, htext', hw.textBetween_append hle hle']
      | @edited _ id stop ids ps' rest hid hle' hplain' htext' hrest =>
          rw [← List.append_assoc]
          refine .edited hid (hle.trans hle') (fun p hp => ?_) ?_ hrest
          · exact (List.mem_append.1 hp).elim (hplain p) (hplain' p)
          · rw [Piece.concat_append, htext, htext', hw.textBetween_append hle hle']
  | edited hid hle hplain htext _ ih =>
      rw [List.append_assoc, List.append_assoc]
      exact .edited hid hle hplain htext (ih h')

variable (hg : (BladeTree.outline d.nodes).Growing [] d.size)
include hg

/-- What is laid out comes out woven, after a separator for what was put out before. -/
theorem Laid.woven (h : d.Laid es pos d.size ids ps) (o : Output) :
    ∃ s y, IsSeparator s ∧ (o.endsInName = false → s = "") ∧ d.Woven es (d.offset pos) ids y ∧
      (ps.foldl Output.push o).text = o.text ++ s ++ y := by
  generalize hsize : d.size = stop at h
  induction h generalizing o with
  | @plain pos stop ps hle hplain htext =>
      subst hsize
      obtain ⟨s, hs, hnone, hpushed⟩ := Output.foldl_push_plain hplain o
      refine ⟨s, _, hs, hnone, .nil, ?_⟩
      rw [hpushed, htext, Tokenized.textBetween, Tokenized.Whole.offset_size]
  | @edited pos id stop ids ps rest hid hle hplain htext hrest ih =>
      obtain ⟨s, hs, hnone, hpushed⟩ := Output.foldl_push_plain hplain o
      obtain ⟨x, hx, hpieces⟩ := Output.foldl_push (d.pieces es id) (ps.foldl Output.push o)
      obtain ⟨s', y, hs', -, hy, hafter⟩ :=
        ih ((d.pieces es id).foldl Output.push (ps.foldl Output.push o)) hsize
      have hspan : d.span id = ⟨d.offset (d.node id).tokenStart, d.offset (d.node id).tokenEnd⟩ :=
        tokenSpan_eq hw (Nat.le_add_right _ _)
      refine ⟨s, d.source.slice (d.offset pos) (d.span id).start ++ x ++ s' ++ y, hs, hnone,
        .cons ?_ (pieces_excerpt hw hg hid ▸ hx) hs' ?_, ?_⟩
      · rw [hspan]
        exact hw.offset_le_offset hle
      · rw [hspan]
        exact hy
      · rw [List.foldl_append, List.foldl_append, hafter, hpieces, hpushed, htext, hspan]
        simp only [String.append_assoc, Tokenized.textBetween]

end Laid

section Write

variable (hl : d.outline.Linked) {last : Nat} (hlast : last < d.nodes.size)
  (habove : ∀ x, d.outline.Above id x ↔ id ≤ x ∧ x ≤ last)
include hl habove

theorem filter_topmost_of_edit (hedit : (es.get? id).isSome)
    (hfree : ∀ p ∈ d.ancestors id, es.get? p = none) :
    (List.range' id (last + 1 - id)).filter (d.isTopmost es) = [id] := by
  have hle : id ≤ last := ((habove id).1 .refl).2
  rw [show last + 1 - id = last - id + 1 by omega, List.range'_succ,
    List.filter_cons_of_pos (isTopmost_iff.2 ⟨hedit, hfree⟩)]
  congr 1
  refine List.filter_eq_nil_iff.2 fun x hx htop => ?_
  rw [List.mem_range'_1] at hx
  have habovex : d.outline.Above id x := (habove x).2 (by omega)
  have hmem : id ∈ d.ancestors x := (mem_ancestors_iff hl id x).2 ⟨habovex, by omega⟩
  rw [(isTopmost_iff.1 htop).2 id hmem] at hedit
  cases hedit

include hlast in
theorem filter_topmost_of_unmarked (hmark : (es.marks d).getD id false = false) :
    (List.range' id (last + 1 - id)).filter (d.isTopmost es) = [] := by
  refine List.filter_eq_nil_iff.2 fun x hx htop => ?_
  rw [List.mem_range'_1] at hx
  have habovex : d.outline.Above id x := (habove x).2 (by omega)
  exact Bool.eq_false_iff.1 hmark ((es.marks_getD d id).2
    ⟨(by omega), x, (by omega), (isTopmost_iff.1 htop).1, (mem_cons_ancestors_iff hl).2 habovex⟩)

end Write

variable (hw : d.toTokenized.Whole)
include hw

theorem laid_tokenText {i j : Nat} (hij : i ≤ j) : d.Laid es i j [] [.plain (d.tokenText i j)] := by
  refine .plain hij (fun p hp => ?_) ?_
  · rw [List.mem_singleton.1 hp]
    rfl
  · rw [Piece.concat, Piece.concat, String.append_empty, Piece.plain, tokenText_eq hw hij]

variable (hg : (BladeTree.outline d.nodes).Growing [] d.size)
include hg

theorem laid_pieces {last : Nat} (hlast : last < d.nodes.size)
    (habove : ∀ x, d.outline.Above id x ↔ id ≤ x ∧ x ≤ last)
    (hfree : ∀ p ∈ d.ancestors id, es.get? p = none) :
    d.Laid es (d.node id).tokenStart (d.node id).tokenEnd
      ((List.range' id (last + 1 - id)).filter (d.isTopmost es)) (d.pieces es id) := by
  have hl : d.outline.Linked := hg.linked
  have hpre : d.outline.Preordered := hg.preordered
  have hf := forward_of_linked hl
  refine preorder_induction hl hpre
    (P := fun id last => (∀ p ∈ d.ancestors id, es.get? p = none) →
      d.Laid es (d.node id).tokenStart (d.node id).tokenEnd
        ((List.range' id (last + 1 - id)).filter (d.isTopmost es)) (d.pieces es id))
    (Q := fun p id last => ∀ pos ≤ (d.node id).tokenStart,
      (∀ q ∈ p :: d.ancestors p, es.get? q = none) →
      d.Laid es pos (d.node p).tokenEnd ((List.range' id (last + 1 - id)).filter (d.isTopmost es))
        (d.interleave pos (d.node p).tokenEnd
          (d.writeAll es ((es.marks d).getD · false) (d.forest id))))
    ?_ ?_ hlast habove hfree
  · intro id last hle hlast habove hchild ih hfree
    have hordered : (d.node id).tokenStart ≤ (d.node id).tokenEnd := hg.ordered id
    cases hedit : es.get? id with
    | some e =>
        rw [filter_topmost_of_edit hl habove (by rw [hedit]; rfl) hfree]
        have hlaid : d.Laid es (d.node id).tokenStart (d.node id).tokenEnd [id]
            ([] ++ (d.pieces es id ++ [])) :=
          .edited (hle.trans_lt hlast) le_rfl nofun
            (by rw [Tokenized.textBetween, d.source.slice_self]; rfl)
            (.plain le_rfl nofun (by rw [Tokenized.textBetween, d.source.slice_self]; rfl))
        rwa [List.nil_append, List.append_nil] at hlaid
    | none =>
        unfold pieces
        rw [tree_eq hf, write, hedit]
        simp only
        split
        · have hnot : ¬ d.isTopmost es id := by
            rw [isTopmost_iff, hedit]
            exact fun h => Bool.noConfusion h.1
          rw [hchild, show last + 1 - id = last + 1 - (id + 1) + 1 by omega, List.range'_succ,
            List.filter_cons_of_neg hnot]
          by_cases hlt : id < last
          · rw [if_pos hlt] at hchild ⊢
            have hp : (d.node (id + 1)).parent = some id := (hl.first id).of_eq_some hchild
            exact ih hlt hp _ (hg.starts (id + 1) id hp) (List.forall_mem_cons.2 ⟨hedit, hfree⟩)
          · rw [if_neg hlt, show last + 1 - (id + 1) = 0 by omega]
            exact laid_tokenText hw hordered
        · rename_i hmark
          rw [filter_topmost_of_unmarked hl hlast habove (Bool.eq_false_iff.2 hmark)]
          exact laid_tokenText hw hordered
  · intro p id stop last hidstop hstoplast hp hid hnext ih pos hpos hfree
    have hrange : List.range' id (last + 1 - id) =
        List.range' id (stop + 1 - id) ++ List.range' (stop + 1) (last + 1 - (stop + 1)) := by
      rw [show last + 1 - id = stop + 1 - id + (last + 1 - (stop + 1)) by omega,
        ← List.range'_append_1, show id + (stop + 1 - id) = stop + 1 by omega]
    rw [forest_eq hf, writeAll, interleave, id_tree, hnext, hrange, List.filter_append]
    have hbefore : d.Laid es pos (d.node id).tokenStart [] _ := laid_tokenText hw hpos
    refine (hbefore.append hw (hid ((ancestors_eq hf hp).symm ▸ hfree))).append hw ?_
    have hend : (d.node id).tokenEnd ≤ (d.node p).tokenEnd := hg.inside id p hp List.not_mem_nil
    by_cases hmore : stop < last
    · rw [if_pos hmore] at hnext ⊢
      obtain ⟨-, q, hq, hpnext⟩ := (hl.next id).of_eq_some hnext
      obtain rfl : p = q := Option.some.inj (hp.symm.trans hq)
      exact ih hmore hpnext _ (hg.apart id _ hnext) hfree
    · rw [if_neg hmore, show last + 1 - (stop + 1) = 0 by omega]
      exact laid_tokenText hw hend

end Document
end BladeTree
