import BladeTree.Edit.Recipe
import BladeTree.Proofs.Edit.Element
import BladeTree.Proofs.Edit.WrittenOut

namespace BladeTree

section Set

variable {marks marks' : Array Bool} {ids : List Nat}

theorem marks_ext (hsize : marks.size = marks'.size)
    (h : ∀ j, marks.getD j false ↔ marks'.getD j false) : marks = marks' := by
  refine Array.ext hsize fun j hj hj' => Bool.eq_iff_iff.2 ?_
  have hget := h j
  rwa [← Array.getElem_eq_getD, ← Array.getElem_eq_getD] at hget

theorem markAll_eq_self (h : ∀ j ∈ ids, marks.getD j false) : markAll marks ids = marks := by
  refine marks_ext (size_markAll marks ids) fun j => ?_
  rw [markAll_getD]
  exact or_iff_left_of_imp fun hj => h j hj.1

def markUntil (marks : Array Bool) : List Nat → Array Bool
  | [] => marks
  | id :: ids =>
    if marks.getD id false then marks else markUntil (marks.setIfInBounds id true) ids

theorem markUntil_eq_markAll (hnodup : ids.Nodup)
    (hup : ids.Pairwise fun i j => marks.getD i false → marks.getD j false) :
    markUntil marks ids = markAll marks ids := by
  induction ids generalizing marks with
  | nil => rfl
  | cons id ids ih =>
      obtain ⟨hfresh, hnodup⟩ := List.nodup_cons.1 hnodup
      obtain ⟨hid, hup⟩ := List.pairwise_cons.1 hup
      rw [markUntil]
      split
      case isTrue hmarked =>
        refine (markAll_eq_self fun j hj => ?_).symm
        rcases List.mem_cons.1 hj with rfl | hj
        · exact hmarked
        · exact hid j hj hmarked
      case isFalse =>
        have hset {j : Nat} (hj : j ∈ ids) :
            (marks.setIfInBounds id true).getD j false = marks.getD j false := by
          have hne : id ≠ j := fun heq => hfresh (heq ▸ hj)
          rw [Array.getD_eq_getD_getElem?, Array.getElem?_setIfInBounds_ne hne,
            Array.getD_eq_getD_getElem?]
        refine ih hnodup (hup.imp_of_mem fun hi hj h => ?_)
        rwa [hset hi, hset hj]

end Set

namespace Document

variable {d : Document}

theorem pairwise_ancestors (hl : d.outline.Linked) (id : Nat) :
    (id :: d.ancestors id).Pairwise fun i j => j ∈ d.ancestors i := by
  induction id using Nat.strong_induction_on with
  | _ id ih =>
      refine List.pairwise_cons.2 ⟨fun j hj => hj, ?_⟩
      cases hp : (d.node id).parent with
      | none =>
          rw [ancestors, hp]
          exact .nil
      | some p =>
          rw [ancestors_eq (forward_of_linked hl) hp]
          exact ih p ((forward_of_linked hl).parent id p hp)

/-- Marks nodes in some order, each with its ancestors up to one that is marked already. -/
def climbMarks (d : Document) (order : List Nat) : Array Bool :=
  order.foldl (fun marks id => markUntil marks (id :: d.ancestors id))
    (.replicate d.nodes.size false)

def Climbed (d : Document) (marks : Array Bool) : Prop :=
  ∀ j, marks.getD j false → ∀ a ∈ d.ancestors j, marks.getD a false

theorem Climbed.markAll {marks : Array Bool} (h : d.Climbed marks) (id : Nat)
    (hlt : id < marks.size) : d.Climbed (markAll marks (id :: d.ancestors id)) := by
  intro j hj a ha
  rw [markAll_getD] at hj ⊢
  rcases hj with hj | ⟨hj, hjlt⟩
  · exact .inl (h j hj a ha)
  · refine .inr ⟨List.mem_cons_of_mem id ?_, (lt_of_mem_ancestors ha).trans hjlt⟩
    rcases List.mem_cons.1 hj with rfl | hj
    · exact ha
    · exact mem_ancestors_trans ha hj

theorem Climbed.markUntil_eq (hl : d.outline.Linked) {marks : Array Bool} (h : d.Climbed marks)
    (id : Nat) :
    markUntil marks (id :: d.ancestors id) = BladeTree.markAll marks (id :: d.ancestors id) := by
  have hpairwise := pairwise_ancestors hl id
  refine markUntil_eq_markAll (hpairwise.imp fun h => (lt_of_mem_ancestors h).ne') ?_
  exact hpairwise.imp fun hji hi => h _ hi _ hji

theorem climbMarks_eq_foldl (hl : d.outline.Linked) {order : List Nat}
    (horder : ∀ x ∈ order, x < d.nodes.size) : d.climbMarks order =
      order.foldl (fun marks id => BladeTree.markAll marks (id :: d.ancestors id))
        (.replicate d.nodes.size false) := by
  have hfold (marks : Array Bool) (hsize : marks.size = d.nodes.size) (h : d.Climbed marks) :
      order.foldl (fun marks id => markUntil marks (id :: d.ancestors id)) marks =
        order.foldl (fun marks id => BladeTree.markAll marks (id :: d.ancestors id)) marks := by
    induction order generalizing marks with
    | nil => rfl
    | cons x xs ih =>
        obtain ⟨hx, hxs⟩ := List.forall_mem_cons.1 horder
        rw [List.foldl_cons, List.foldl_cons, h.markUntil_eq hl]
        exact ih hxs _ ((size_markAll _ _).trans hsize) (h.markAll x (hsize ▸ hx))
  refine hfold _ Array.size_replicate fun j hj => ?_
  rw [getD_replicate_false] at hj
  cases hj

/-- Climbing from the edited nodes marks what is to be marked, whatever their order. -/
theorem climbMarks_eq (hl : d.outline.Linked) {es : Edits} {order : List Nat}
    (horder : ∀ x, x ∈ order ↔ x < d.nodes.size ∧ (es.get? x).isSome) :
    d.climbMarks order = es.marks d := by
  rw [climbMarks_eq_foldl hl fun x hx => ((horder x).1 hx).1, Edits.marks_eq_foldl]
  refine marks_ext ?_ fun j => ?_
  · rw [size_foldl_markAll, size_foldl_markAll]
  · rw [foldl_markAll_getD, foldl_markAll_getD]
    simp only [horder, List.mem_filter, List.mem_range]

/-- Copying whole nodes makes no difference to writing out every node from its tokens and children,
and what is written out is the edited nodes and those around them. -/
theorem edit_eq_join_of_parse {o : ParseOptions} {text : String} (h : parse o text = .ok d)
    (hx : ∀ x ∈ o.lexerExtensions, x.OnBoundaries (.ofString text)) (es : Edits) :
    d.edit es = Piece.join (d.write es (fun _ => true) (d.tree Builder.root)) ∧
      (∀ j, (es.marks d).getD j false ↔
        j < d.nodes.size ∧ ∃ x < d.nodes.size, (es.get? x).isSome ∧ j ∈ x :: d.ancestors x) ∧
      ∀ order : List Nat, (∀ x, x ∈ order ↔ x < d.nodes.size ∧ (es.get? x).isSome) →
        d.climbMarks order = es.marks d := by
  obtain ⟨hw, hg, hwf, -⟩ := layout_of_parse h hx
  exact ⟨edit_eq_join hw hg hwf.covers.2 es, es.marks_getD d, fun _ => climbMarks_eq hg.linked⟩

/-- One of two elements is renamed. -/
theorem edit_eq_join_renamed : ∃ d,
    parse (.ofDirectives []) "<p><b>x</b></p><p>y</p>" = .ok d ∧
      Piece.join (d.write (d.visit [(Recipe.renameTag "b" "i").visitor]).edits (fun _ => true)
        (d.tree Builder.root)) = "<p><i>x</i></p><p>y</p>" := by
  have hread : (parse (.ofDirectives [])
      "<p><b>x</b></p><p>y</p>").toOption.map (·.follow (.renameTag "b" "i")) =
        some "<p><i>x</i></p><p>y</p>" := by cbv
  obtain ⟨d, hd, hfollow⟩ := Option.map_eq_some_iff.1 hread
  have hparse := eq_ok_of_toOption hd
  refine ⟨d, hparse, ?_⟩
  rw [← (edit_eq_join_of_parse hparse (fun _ hx => absurd hx List.not_mem_nil) _).1]
  exact hfollow

end Document
end BladeTree
