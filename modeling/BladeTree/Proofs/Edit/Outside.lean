import BladeTree.Proofs.Edit.Alike
import BladeTree.Proofs.Edit.Element

namespace BladeTree

/-- The two tell the same of all nodes but `n` and those below it. -/
def Edits.AgreeOutside (es es' : Edits) (d : Document) (n : Nat) : Prop :=
  ∀ x, n ∉ x :: d.ancestors x → es.get? x = es'.get? x

theorem Edits.AgreeOutside.symm {es es' : Edits} {d : Document} {n : Nat}
    (h : es.AgreeOutside es' d n) : es'.AgreeOutside es d n := fun x hx => (h x hx).symm

namespace Document

variable {d : Document} {es es' : Edits} {isMarked isMarked' : Nat → Bool} {n id : Nat}

theorem alike_write_of_agree (hl : d.outline.Linked) (hagree : es.AgreeOutside es' d n)
    (hmarks : ∀ x, n ∉ x :: d.ancestors x → isMarked x = isMarked' x)
    (hn : Piece.Alike (d.write es isMarked (d.tree n)) (d.write es' isMarked' (d.tree n)))
    (hid : n ∉ d.ancestors id) :
    Piece.Alike (d.write es isMarked (d.tree id)) (d.write es' isMarked' (d.tree id)) := by
  have hf := forward_of_linked hl
  revert hid
  refine tree_induction hf
    (P := fun id => n ∉ d.ancestors id →
      Piece.Alike (d.write es isMarked (d.tree id)) (d.write es' isMarked' (d.tree id)))
    (Q := fun id => ∀ p, (d.node id).parent = some p → n ∉ p :: d.ancestors p →
      List.Forall₂ Written.Alike (d.writeAll es isMarked (d.forest id))
        (d.writeAll es' isMarked' (d.forest id)))
    ?_ ?_ id
  · intro id ih hid
    by_cases hne : n = id
    · subst hne
      exact hn
    have hout : n ∉ id :: d.ancestors id := by simp [hne, hid]
    have hchildren : List.Forall₂ Written.Alike
        (d.writeAll es isMarked ((d.node id).firstChild.elim [] d.forest))
        (d.writeAll es' isMarked' ((d.node id).firstChild.elim [] d.forest)) := by
      cases hchild : (d.node id).firstChild with
      | none => exact .nil
      | some child => exact ih child hchild id ((hl.first id).of_eq_some hchild) hout
    rw [tree_eq hf, write, write, hagree id hout, hmarks id hout]
    cases es'.get? id with
    | some e => exact alike_writeEdited hchildren e id
    | none =>
        by_cases hmark : isMarked' id
        · simp only [hmark, if_true]
          exact alike_interleave hchildren _ _
        · simp only [hmark, Bool.false_eq_true, if_false]
          exact .refl _
  · intro id hid ih p hp hout
    rw [forest_eq hf, writeAll, writeAll]
    refine .cons ⟨rfl, hid ?_⟩ ?_
    · rwa [ancestors_eq hf hp]
    · cases hs : (d.node id).nextSibling with
      | none => exact .nil
      | some next =>
          obtain ⟨-, q, hq, hnext⟩ := (hl.next id).of_eq_some hs
          obtain rfl : p = q := Option.some.inj (hp.symm.trans hq)
          exact ih next hs p hnext hout

theorem marked_of_agree (hl : d.outline.Linked) (hagree : es.AgreeOutside es' d n)
    (hn : (es'.get? n).isSome) {x : Nat} (hx : n ∉ x :: d.ancestors x)
    (hmark : (es.marks d).getD x false) : (es'.marks d).getD x false := by
  obtain ⟨hlt, y, hy, hsome, hxy⟩ := (es.marks_getD d x).1 hmark
  rw [Edits.marks_getD]
  by_cases hny : n ∈ y :: d.ancestors y
  · rw [mem_cons_ancestors_iff hl] at hxy hny hx
    have hxn : d.outline.Above x n := (hxy.total hny).resolve_right hx
    exact ⟨hlt, n, (hny.le hl).trans_lt hy, hn, (mem_cons_ancestors_iff hl).2 hxn⟩
  · rw [hagree y hny] at hsome
    exact ⟨hlt, y, hy, hsome, hxy⟩

/-- What is put out for one node decides over the output, if all that differs is in that node. -/
theorem edit_eq_of_agree (hl : d.outline.Linked) (hagree : es.AgreeOutside es' d n)
    (hn : (es.get? n).isSome) (hn' : (es'.get? n).isSome)
    (hpieces : Piece.Alike (d.pieces es n) (d.pieces es' n)) : d.edit es = d.edit es' := by
  have hmarks (x : Nat) (hx : n ∉ x :: d.ancestors x) :
      (es.marks d).getD x false = (es'.marks d).getD x false := by
    rw [Bool.eq_iff_iff]
    exact ⟨marked_of_agree hl hagree hn' hx, marked_of_agree hl hagree.symm hn hx⟩
  have hroot : n ∉ d.ancestors Builder.root := by
    intro hmem
    exact absurd (lt_of_mem_ancestors hmem) (Nat.not_lt_zero n)
  have hempty {es : Edits} (hn : (es.get? n).isSome) : ¬ es.isEmpty := by
    intro hempty
    rw [get?_of_isEmpty hempty] at hn
    cases hn
  rw [edit, edit, if_neg (hempty hn), if_neg (hempty hn')]
  exact (alike_write_of_agree hl hagree hmarks hpieces hroot).join_eq

end Document
end BladeTree
