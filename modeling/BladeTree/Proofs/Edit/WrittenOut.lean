import BladeTree.Proofs.Edit.Outside

namespace BladeTree

namespace Edits

def FreeBelow (es : Edits) (d : Document) (id : Nat) : Prop :=
  ∀ x, id ∈ d.ancestors x → es.get? x = .none

variable {d : Document} {es : Edits} {id p c : Nat}

theorem FreeBelow.child (h : es.FreeBelow d p) (hf : d.Forward) (hp : (d.node c).parent = some p) :
    es.get? c = .none ∧ es.FreeBelow d c := by
  have hpc : p ∈ d.ancestors c := by
    rw [Document.ancestors_eq hf hp]
    exact List.mem_cons_self
  constructor
  · exact h c hpc
  · intro x hx
    exact h x (Document.mem_ancestors_trans hpc hx)

theorem freeBelow_of_unmarked (hl : d.outline.Linked) (hid : id < d.nodes.size)
    (hmark : (es.marks d).getD id false = false) : es.FreeBelow d id := by
  intro x hx
  by_contra hsome
  apply Bool.eq_false_iff.1 hmark
  rw [marks_getD]
  have hlt : x < d.nodes.size := ((Document.mem_ancestors_iff hl id x).1 hx).1.lt_size hl hid
  exact ⟨hid, x, hlt, Option.isSome_iff_ne_none.2 hsome, List.mem_cons_of_mem x hx⟩

end Edits

namespace Document

/-- The nodes under a node, written out: no part of the source is copied as a whole. -/
def childrenOut (d : Document) (es : Edits) (id : Nat) : List Written :=
  d.writeAll es (fun _ => true) ((d.node id).firstChild.elim [] d.forest)

def writtenOut (d : Document) (es : Edits) (id : Nat) : List Piece :=
  d.write es (fun _ => true) (d.tree id)

variable {d : Document} {es : Edits} {id p pos : Nat}

section Forward

variable (hf : d.Forward)
include hf

theorem writtenOut_of_none (hid : es.get? id = none) : d.writtenOut es id =
    d.interleave (d.node id).tokenStart (d.node id).tokenEnd (d.childrenOut es id) := by
  rw [writtenOut, tree_eq hf, write, hid]
  rfl

theorem writtenOut_of_some {e : NodeEdits} (hid : es.get? id = some e) :
    d.writtenOut es id = d.writeEdited e id (d.childrenOut es id) := by
  rw [writtenOut, tree_eq hf, write, hid]
  rfl

end Forward

variable (hw : d.toTokenized.Whole) (hg : (BladeTree.outline d.nodes).Growing [] d.size)
include hw hg

theorem alike_text (hfree : es.FreeBelow d id) :
    Piece.Alike (d.interleave (d.node id).tokenStart (d.node id).tokenEnd (d.childrenOut es id))
      [.plain (d.text id)] := by
  have hl : d.outline.Linked := hg.linked
  have hf := forward_of_linked hl
  revert hfree
  refine tree_induction hf
    (P := fun id => es.FreeBelow d id → Piece.Alike (d.interleave (d.node id).tokenStart
      (d.node id).tokenEnd (d.childrenOut es id)) [.plain (d.text id)])
    (Q := fun id => ∀ p, (d.node id).parent = some p → es.FreeBelow d p →
      ∀ pos ≤ (d.node id).tokenStart,
        Piece.Alike (d.interleave pos (d.node p).tokenEnd
          (d.writeAll es (fun _ => true) (d.forest id)))
          [.plain (d.tokenText pos (d.node p).tokenEnd)])
    ?_ ?_ id
  · intro id ih hfree
    rw [childrenOut]
    cases hchild : (d.node id).firstChild with
    | none => exact .refl _
    | some child =>
        have hp : (d.node child).parent = some id := (hl.first id).of_eq_some hchild
        exact ih child hchild id hp hfree _ (hg.starts child id hp)
  · intro id hid ih p hp hfree pos hpos
    obtain ⟨hown, hbelow⟩ := hfree.child hf hp
    have hordered : (d.node id).tokenStart ≤ (d.node id).tokenEnd := hg.ordered id
    have hend : (d.node id).tokenEnd ≤ (d.node p).tokenEnd := hg.inside id p hp List.not_mem_nil
    have hnode : Piece.Alike (d.writtenOut es id) [.plain (d.text id)] := by
      rw [writtenOut_of_none hf hown]
      exact hid hbelow
    have hrest : Piece.Alike (d.interleave (d.node id).tokenEnd (d.node p).tokenEnd
        (d.writeAll es (fun _ => true) ((d.node id).nextSibling.elim [] d.forest)))
        [.plain (d.tokenText (d.node id).tokenEnd (d.node p).tokenEnd)] := by
      cases hs : (d.node id).nextSibling with
      | none => exact .refl _
      | some next =>
          obtain ⟨-, q, hq, hnext⟩ := (hl.next id).of_eq_some hs
          obtain rfl : p = q := Option.some.inj (hp.symm.trans hq)
          exact ih next hs p hnext hfree _ (hg.apart id next hs)
    have htext : d.tokenText pos (d.node p).tokenEnd =
        d.tokenText pos (d.node id).tokenStart ++ d.text id ++
          d.tokenText (d.node id).tokenEnd (d.node p).tokenEnd := by
      rw [text, tokenText_eq hw hpos, tokenText_eq hw hordered, tokenText_eq hw hend,
        tokenText_eq hw (hpos.trans (hordered.trans hend)), hw.textBetween_append hpos hordered,
        hw.textBetween_append (hpos.trans hordered) hend]
    rw [forest_eq hf, writeAll, interleave, id_tree, htext]
    have hbefore := (hnode.cons (.plain (d.tokenText pos (d.node id).tokenStart))).trans
      (Piece.alike_plain_append _ _)
    exact (hbefore.append hrest).trans (Piece.alike_plain_append _ _)

theorem alike_pieces (hid : id < d.nodes.size) :
    Piece.Alike (d.pieces es id) (d.writtenOut es id) := by
  have hl : d.outline.Linked := hg.linked
  have hf := forward_of_linked hl
  revert hid
  refine tree_induction hf
    (P := fun id => id < d.nodes.size → Piece.Alike (d.pieces es id) (d.writtenOut es id))
    (Q := fun id => id < d.nodes.size → List.Forall₂ Written.Alike
      (d.writeAll es ((es.marks d).getD · false) (d.forest id))
      (d.writeAll es (fun _ => true) (d.forest id)))
    ?_ ?_ id
  · intro id ih hid
    have hchildren : List.Forall₂ Written.Alike
        (d.writeAll es ((es.marks d).getD · false) ((d.node id).firstChild.elim [] d.forest))
        (d.childrenOut es id) := by
      rw [childrenOut]
      cases hchild : (d.node id).firstChild with
      | none => exact .nil
      | some child => exact ih child hchild (hf.firstChild id child hchild).2
    cases hedit : es.get? id with
    | some e =>
        rw [writtenOut_of_some hf hedit, pieces, tree_eq hf, write, hedit]
        exact alike_writeEdited hchildren e id
    | none =>
        rw [writtenOut_of_none hf hedit, pieces, tree_eq hf, write, hedit]
        by_cases hmark : (es.marks d).getD id false
        · simp only [hmark, if_true]
          exact alike_interleave hchildren _ _
        · have hfree := Edits.freeBelow_of_unmarked hl hid (Bool.eq_false_iff.2 hmark)
          simp only [hmark, Bool.false_eq_true, if_false]
          exact (alike_text hw hg hfree).symm
  · intro id hid ih hlt
    rw [forest_eq hf, writeAll, writeAll]
    refine .cons ⟨rfl, hid hlt⟩ ?_
    cases hs : (d.node id).nextSibling with
    | none => exact .nil
    | some next => exact ih next hs (hf.nextSibling id next hs).2

variable (hcovers : (d.node Builder.root).tokenEnd = d.size)
include hcovers

theorem edit_eq_join (es : Edits) :
    d.edit es = Piece.join (d.writtenOut es Builder.root) := by
  rw [edit]
  by_cases hempty : es.isEmpty
  · have hfree : es.FreeBelow d Builder.root := fun x _ => get?_of_isEmpty hempty x
    have hstart : (d.node Builder.root).tokenStart = 0 := hg.origin
    have htext : d.text Builder.root = d.source.text := by
      rw [text, hstart, hcovers, tokenText_eq hw (Nat.zero_le _), hw.textBetween_all]
    rw [if_pos hempty, writtenOut_of_none (forward_of_linked hg.linked)
      (get?_of_isEmpty hempty _), (alike_text hw hg hfree).join_eq, htext, Piece.join_plain]
  · have hnonempty : 0 < d.nodes.size := hg.linked.nonempty
    rw [if_neg hempty]
    exact (alike_pieces hw hg hnonempty).join_eq

/-- One node written out decides over the output, if all that differs is in that node. -/
theorem edit_eq_of_alike {es es' : Edits} {id : Nat} (hagree : es.AgreeOutside es' d id)
    (hnode : Piece.Alike (d.writtenOut es id) (d.writtenOut es' id)) : d.edit es = d.edit es' := by
  have hroot : id ∉ d.ancestors Builder.root := fun hmem =>
    Nat.not_lt_zero id (lt_of_mem_ancestors hmem)
  rw [edit_eq_join hw hg hcovers, edit_eq_join hw hg hcovers]
  exact (alike_write_of_agree hg.linked hagree (fun _ _ => rfl) hnode hroot).join_eq

end Document
end BladeTree
