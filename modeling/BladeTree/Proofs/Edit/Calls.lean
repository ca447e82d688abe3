import BladeTree.Proofs.Edit.Element

namespace BladeTree

theorem EditCall.isSome_replacement_record (c : EditCall) {e : NodeEdits}
    (h : e.replacement.isSome) : (c.record e).replacement.isSome := by
  cases c with
  | remove | replaceWith | unwrap => rfl
  | _ => exact h

namespace Edits

variable {d : Document} {es es' : Edits} {id x : Nat} {c : EditCall}

theorem ext_get? (hsize : es.slots.size = es'.slots.size) (h : ∀ x, es.get? x = es'.get? x) :
    es = es' := by
  obtain ⟨slots⟩ := es
  obtain ⟨slots'⟩ := es'
  congr 1
  apply Array.ext hsize
  intro i hi hi'
  have hget := h i
  simp only [get?, Array.getElem?_eq_getElem hi, Array.getElem?_eq_getElem hi',
    Option.join_some] at hget
  exact hget

theorem size_apply (es : Edits) (d : Document) (id : Nat) (c : EditCall) :
    (es.apply d id c).slots.size = es.slots.size := by
  rw [apply]
  split
  · exact Array.size_modify
  · rfl

/-- What a call leaves of the edits of each node. -/
theorem get?_apply (es : Edits) (d : Document) (id : Nat) (c : EditCall) (x : Nat) :
    (es.apply d id c).get? x =
      if x = id ∧ id < es.slots.size ∧ es.accepts d id c.target then
        some (c.record ((es.get? id).getD .empty))
      else es.get? x := by
  rw [apply]
  by_cases haccepts : es.accepts d id c.target
  · rw [if_pos haccepts]
    by_cases hid : id < es.slots.size
    · rw [get?_modify es id x _ hid]
      simp only [hid, haccepts, and_true]
    · have hsame : es.modify id (c.record ·) = es := by
        apply ext_get?
        · exact Array.size_modify
        · intro i
          simp only [modify, get?, Array.getElem?_modify]
          by_cases hi : id = i
          · subst hi
            simp [hid]
          · simp [hi]
      simp only [hsame, hid, false_and, and_false, if_false]
  · simp only [haccepts, Bool.false_eq_true, and_false, if_false]

theorem apply_eq_self (h : ¬ (es.accepts d id c.target ∧ id < es.slots.size)) :
    es.apply d id c = es := by
  apply ext_get? (size_apply es d id c)
  intro x
  rw [get?_apply, if_neg fun hx => h ⟨hx.2.2, hx.2.1⟩]

theorem get?_apply_of_ne (h : x ≠ id) : (es.apply d id c).get? x = es.get? x := by
  simp only [get?_apply, h, false_and, if_false]

theorem isSome_get?_apply (h : (es.get? x).isSome) : ((es.apply d id c).get? x).isSome := by
  rw [get?_apply]
  split
  · rfl
  · exact h

theorem isReplaced_apply (h : es.isReplaced x) : (es.apply d id c).isReplaced x := by
  rw [isReplaced, get?_apply]
  split
  · rename_i hx
    rw [isReplaced, hx.1] at h
    cases hedits : es.get? id with
    | none =>
        rw [hedits] at h
        cases h
    | some e =>
        rw [hedits] at h
        exact c.isSome_replacement_record h
  · exact h

theorem accepts_congr (h : ∀ x ∈ id :: d.ancestors id, es.isReplaced x = es'.isReplaced x)
    (t : EditCall.Target) : es.accepts d id t = es'.accepts d id t := by
  obtain ⟨hown, habove⟩ := List.forall_mem_cons.1 h
  have hinside : es.isInsideReplaced d id = es'.isInsideReplaced d id := by
    rw [isInsideReplaced, isInsideReplaced, Bool.eq_iff_iff, List.any_eq_true, List.any_eq_true]
    apply exists_congr
    intro p
    exact and_congr_right fun hp => by rw [habove p hp]
  have hgone : es.isGone d id = es'.isGone d id := by rw [isGone, isGone, hown, hinside]
  cases t with
  | live => rw [accepts, accepts, hgone]
  | place => rw [accepts, accepts, hinside]
  | startTag => rw [accepts, accepts, hgone]
  | nothing => rfl

end Edits
end BladeTree
