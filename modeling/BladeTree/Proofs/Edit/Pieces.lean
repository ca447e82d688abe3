import BladeTree.Proofs.Edit.Marks
import BladeTree.Proofs.Edit.Moved

namespace BladeTree
namespace Document

def pieces (d : Document) (es : Edits) (id : Nat) : List Piece :=
  d.write es ((es.marks d).getD · false) (d.tree id)

variable {d e : Document} {es : Edits} {id pos j : Nat}

theorem map_id_forest (hf : d.Forward) (j : Nat) :
    (d.forest j).map Tree.id = d.siblingsFrom j := by
  induction hn : d.nodes.size - j using Nat.strong_induction_on generalizing j with
  | _ n ih =>
      rw [forest_eq hf, siblingsFrom_eq hf, List.map_cons, id_tree]
      cases hs : (d.node j).nextSibling with
      | none => rfl
      | some next =>
          obtain ⟨hlt, hnext⟩ := hf.nextSibling j next hs
          exact congrArg _ (ih _ (by omega) next rfl)

theorem map_id_writeAll (es : Edits) (isMarked : Nat → Bool) (ts : List Tree) :
    (d.writeAll es isMarked ts).map (·.id) = ts.map Tree.id := by
  induction ts with
  | nil => rfl
  | cons t ts ih => rw [writeAll, List.map_cons, List.map_cons, ih]

theorem lt_of_mem_writeAll (hf : d.Forward) {isMarked : Nat → Bool} {w : Written}
    (hw : w ∈ d.writeAll es isMarked ((d.node j).firstChild.elim [] d.forest)) :
    w.id < d.nodes.size := by
  have hid := List.mem_map_of_mem (f := Written.id) hw
  rw [map_id_writeAll] at hid
  cases hfirst : (d.node j).firstChild with
  | none =>
      rw [hfirst] at hid
      cases hid
  | some first =>
      rw [hfirst, Option.elim_some, map_id_forest hf] at hid
      exact Excerpted.lt_of_mem_siblingsFrom hf (hf.firstChild j first hfirst).2 hid

theorem Excerpted.add_mem_ancestors_iff (h : e.Excerpted d id pos) (hl : d.outline.Linked) {i : Nat}
    (hj : j < e.nodes.size) : id + i ∈ d.ancestors (id + j) ↔ i ∈ e.ancestors j := by
  have hf := forward_of_linked hl
  induction j using Nat.strong_induction_on with
  | _ j ih =>
      rcases Nat.eq_zero_or_pos j with rfl | hpos
      · have hempty : e.ancestors 0 = [] := by rw [ancestors, h.root]
        rw [hempty, mem_ancestors_iff hl]
        refine iff_of_false (fun hmem => ?_) List.not_mem_nil
        have := hmem.1.le hl
        have := hmem.2
        omega
      · have hparent := h.parent j hj hpos
        cases hp : (e.node j).parent with
        | none =>
            rw [hp] at hparent
            have hempty : d.ancestors (id + j) = [] := by rw [ancestors, hparent]; rfl
            have hempty' : e.ancestors j = [] := by rw [ancestors, hp]
            rw [hempty, hempty']
            exact iff_of_false List.not_mem_nil List.not_mem_nil
        | some p =>
            rw [hp, Option.map_some] at hparent
            have hlt := h.forward.parent j p hp
            rw [ancestors_eq hf hparent, ancestors_eq h.forward hp, List.mem_cons, List.mem_cons]
            exact or_congr Nat.add_left_cancel_iff (ih p hlt (hlt.trans hj))

section Write

variable {es' : Edits} (h : e.Excerpted d id pos) (hl : d.outline.Linked)
  (hedits : ∀ j < e.nodes.size, es'.get? j = es.get? (id + j))
  {isMarked isMarked' : Nat → Bool} (hmarks : ∀ j < e.nodes.size, isMarked' j = isMarked (id + j))
include h hl hedits hmarks

theorem Excerpted.write_eq (hj : j < e.nodes.size) :
    d.write es isMarked (d.tree (id + j)) = e.write es' isMarked' (e.tree j) := by
  have hf := forward_of_linked hl
  refine tree_induction h.forward
    (P := fun j => j < e.nodes.size →
      d.write es isMarked (d.tree (id + j)) = e.write es' isMarked' (e.tree j))
    (Q := fun j => 0 < j → j < e.nodes.size →
      d.writeAll es isMarked (d.forest (id + j)) =
        (e.writeAll es' isMarked' (e.forest j)).map (·.moved id))
    ?_ ?_ j hj
  · intro j ih hj
    have hchildren : d.writeAll es isMarked ((d.node (id + j)).firstChild.elim [] d.forest) =
        (e.writeAll es' isMarked' ((e.node j).firstChild.elim [] e.forest)).map (·.moved id) := by
      rw [h.firstChild j hj]
      cases hfirst : (e.node j).firstChild with
      | none => rfl
      | some first =>
          obtain ⟨hlt, hsize⟩ := h.forward.firstChild j first hfirst
          exact ih first hfirst (by omega) hsize
    have hws : ∀ w ∈ e.writeAll es' isMarked' ((e.node j).firstChild.elim [] e.forest),
        w.id < e.nodes.size := fun w hw => lt_of_mem_writeAll h.forward hw
    rw [tree_eq hf, tree_eq h.forward, write, write, hedits j hj, hmarks j hj, hchildren,
      h.start j hj, h.stop j hj, h.interleave_eq hws (h.stop_le j hj), h.text_eq hj]
    cases es.get? (id + j) with
    | none => rfl
    | some ed => exact h.writeEdited_eq hf hj hws ed
  · intro j ihtree ih hpos hj
    rw [forest_eq hf, forest_eq h.forward, writeAll, writeAll, List.map_cons, ihtree hj, id_tree,
      id_tree, Written.moved, h.nextSibling j hj hpos]
    cases hs : (e.node j).nextSibling with
    | none => rfl
    | some next =>
        obtain ⟨hlt, hsize⟩ := h.forward.nextSibling j next hs
        exact congrArg _ (ih next hs (by omega) hsize)

end Write

theorem pieces_excerpt (hw : d.toTokenized.Whole)
    (hg : (BladeTree.outline d.nodes).Growing [] d.size) (hid : id < d.nodes.size) :
    d.pieces es id = (d.excerpt id).pieces (es.excerpt d id) Builder.root := by
  have hl : d.outline.Linked := hg.linked
  have hpre : d.outline.Preordered := hg.preordered
  have h := excerpted_excerpt hw hg hid
  obtain ⟨last, hlast, habove⟩ := exists_last hl hpre hid
  have hidlast : id ≤ last := ((habove id).1 .refl).2
  have hsize := size_excerpt hl hpre hlast habove
  have hedits (j : Nat) (hj : j < (d.excerpt id).nodes.size) :
      (es.excerpt d id).get? j = es.get? (id + j) := by
    rw [Edits.excerpt, Edits.get?, part_eq hl hpre hlast habove, List.getElem?_toArray,
      List.getElem?_map, List.getElem?_range' (hsize ▸ hj), Option.map_some, Nat.one_mul]
    rfl
  have hmarks (j : Nat) (hj : j < (d.excerpt id).nodes.size) :
      ((es.excerpt d id).marks (d.excerpt id)).getD j false = (es.marks d).getD (id + j) false := by
    rw [Bool.eq_iff_iff, Edits.marks_getD, Edits.marks_getD]
    constructor
    · rintro ⟨-, x, hx, hedit, hj'⟩
      rw [hedits x hx] at hedit
      refine ⟨by omega, id + x, by omega, hedit, ?_⟩
      rw [List.mem_cons, h.add_mem_ancestors_iff hl hx, Nat.add_left_cancel_iff]
      exact List.mem_cons.1 hj'
    · rintro ⟨-, x, hx, hedit, hj'⟩
      have habovex : d.outline.Above id x := by
        have habovej : d.outline.Above id (id + j) := (habove _).2 (by omega)
        rcases List.mem_cons.1 hj' with rfl | hmem
        · exact habovej
        · exact habovej.trans ((mem_ancestors_iff hl _ _).1 hmem).1
      obtain ⟨hidx, hxlast⟩ := (habove x).1 habovex
      obtain ⟨y, rfl⟩ := Nat.exists_eq_add_of_le hidx
      have hy : y < (d.excerpt id).nodes.size := by omega
      refine ⟨hj, y, hy, (hedits y hy).symm ▸ hedit, ?_⟩
      rw [List.mem_cons, h.add_mem_ancestors_iff hl hy, Nat.add_left_cancel_iff] at hj'
      exact List.mem_cons.2 hj'
  have hpos : 0 < (d.excerpt id).nodes.size := by omega
  exact h.write_eq hl hedits hmarks hpos

end Document
end BladeTree
