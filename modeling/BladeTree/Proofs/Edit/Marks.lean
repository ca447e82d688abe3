import BladeTree.Edit.Record
import BladeTree.Proofs.Document.Descendants

namespace BladeTree

section Set

variable {marks : Array Bool} {ids : List Nat} {j : Nat}

def markAll (marks : Array Bool) (ids : List Nat) : Array Bool :=
  ids.foldl (fun marks id => marks.setIfInBounds id true) marks

theorem size_markAll (marks : Array Bool) (ids : List Nat) :
    (markAll marks ids).size = marks.size := by
  induction ids generalizing marks with
  | nil => rfl
  | cons id ids ih => exact (ih _).trans Array.size_setIfInBounds

theorem markAll_getD (marks : Array Bool) (ids : List Nat) (j : Nat) :
    (markAll marks ids).getD j false ↔ marks.getD j false ∨ j ∈ ids ∧ j < marks.size := by
  induction ids generalizing marks with
  | nil => simp [markAll]
  | cons id ids ih =>
      have hset : (marks.setIfInBounds id true).getD j false ↔
          marks.getD j false ∨ j = id ∧ j < marks.size := by
        rw [Array.getD_eq_getD_getElem?, Array.getD_eq_getD_getElem?, Array.getElem?_setIfInBounds]
        by_cases hid : id = j
        · subst hid
          by_cases hlt : id < marks.size
          · simp [hlt]
          · simp [hlt]
        · have hne : j ≠ id := fun h => hid h.symm
          simp [hid, hne]
      have hstep : markAll marks (id :: ids) = markAll (marks.setIfInBounds id true) ids := rfl
      rw [hstep, ih, hset, Array.size_setIfInBounds, List.mem_cons]
      tauto

theorem size_foldl_markAll (f : Nat → List Nat) (xs : List Nat) (marks : Array Bool) :
    (xs.foldl (fun marks x => markAll marks (f x)) marks).size = marks.size := by
  induction xs generalizing marks with
  | nil => rfl
  | cons x xs ih => exact (ih _).trans (size_markAll _ _)

theorem foldl_markAll_getD (f : Nat → List Nat) (xs : List Nat) (marks : Array Bool) (j : Nat) :
    (xs.foldl (fun marks x => markAll marks (f x)) marks).getD j false ↔
      marks.getD j false ∨ j < marks.size ∧ ∃ x ∈ xs, j ∈ f x := by
  induction xs generalizing marks with
  | nil => simp
  | cons x xs ih =>
      rw [List.foldl_cons, ih, markAll_getD, size_markAll, or_assoc, and_comm, ← and_or_left,
        List.exists_mem_cons_iff]

theorem getD_replicate_false (n j : Nat) : (Array.replicate n false).getD j false = false := by
  rw [Array.getD_eq_getD_getElem?, Array.getElem?_replicate]
  split <;> rfl

end Set

namespace Edits

variable (es : Edits) (d : Document)

theorem marks_eq_foldl : es.marks d =
    ((List.range d.nodes.size).filter fun x => (es.get? x).isSome).foldl
      (fun marks x => markAll marks (x :: d.ancestors x)) (.replicate d.nodes.size false) :=
  List.foldl_filter.symm

theorem marks_getD (j : Nat) : (es.marks d).getD j false ↔
    j < d.nodes.size ∧ ∃ x < d.nodes.size, (es.get? x).isSome ∧ j ∈ x :: d.ancestors x := by
  rw [marks_eq_foldl, foldl_markAll_getD, getD_replicate_false, Array.size_replicate]
  simp only [Bool.false_eq_true, false_or, List.mem_filter, List.mem_range, and_assoc]

end Edits
end BladeTree
