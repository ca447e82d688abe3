import BladeTree.Edit.Scripted
import BladeTree.Proofs.Edit.Outside
import BladeTree.Proofs.Edit.Request

namespace BladeTree

/-- Takes a node away together with what is in it. -/
def EditCall.drops : EditCall → Bool
  | remove => true
  | replaceWith _ => true
  | _ => false

def Request.isInside (r : Request) (d : Document) (n : Nat) : Bool := (d.ancestors r.id).contains n

theorem Request.isInside_iff {r : Request} {d : Document} {n : Nat} :
    r.isInside d n ↔ n ∈ d.ancestors r.id := by
  rw [isInside, List.contains_iff_mem]

/-- One of the calls removes or replaces `n`, and is not ignored. -/
def Document.Drops (d : Document) (rs : List Request) (n : Nat) : Prop :=
  ∃ before c after, rs = before ++ ⟨n, c⟩ :: after ∧ c.drops ∧
    ((Edits.none d).replay d before).accepts d n c.target

namespace Edits

variable {d : Document} {es es' : Edits} {n : Nat} {r : Request} {rs rs' : List Request}

/-- The two tell the same of all nodes but those inside `n`. -/
structure AgreeNotInside (es es' : Edits) (d : Document) (n : Nat) : Prop where
  size : es.slots.size = es'.slots.size
  get : ∀ x, n ∉ d.ancestors x → es.get? x = es'.get? x

theorem AgreeNotInside.refl (es : Edits) : es.AgreeNotInside es d n := ⟨rfl, fun _ _ => rfl⟩

theorem AgreeNotInside.symm (h : es.AgreeNotInside es' d n) : es'.AgreeNotInside es d n :=
  ⟨h.size.symm, fun x hx => (h.get x hx).symm⟩

theorem AgreeNotInside.trans {es'' : Edits} (h : es.AgreeNotInside es' d n)
    (h' : es'.AgreeNotInside es'' d n) : es.AgreeNotInside es'' d n :=
  ⟨h.size.trans h'.size, fun x hx => (h.get x hx).trans (h'.get x hx)⟩

theorem AgreeNotInside.outside (h : es.AgreeNotInside es' d n) : es.AgreeOutside es' d n :=
  fun x hx => h.get x fun hmem => hx (List.mem_cons_of_mem x hmem)

theorem AgreeNotInside.apply_inside (h : es.AgreeNotInside es' d n) (hr : r.isInside d n) :
    (es.apply d r.id r.call).AgreeNotInside es' d n where
  size := (size_apply es d r.id r.call).trans h.size
  get x hx := by
    have hne : x ≠ r.id := by
      rintro rfl
      exact hx (Request.isInside_iff.1 hr)
    rw [get?_apply_of_ne hne, h.get x hx]

/-- Nothing inside `n` decides whether a call elsewhere is taken, or what it leaves. -/
theorem AgreeNotInside.apply (h : es.AgreeNotInside es' d n) (hr : ¬ r.isInside d n) :
    (es.apply d r.id r.call).AgreeNotInside (es'.apply d r.id r.call) d n where
  size := by rw [size_apply, size_apply, h.size]
  get x hx := by
    rw [Request.isInside_iff] at hr
    have habove : ∀ p ∈ r.id :: d.ancestors r.id, es.isReplaced p = es'.isReplaced p := by
      intro p hp
      have hout : n ∉ d.ancestors p := by
        rcases List.mem_cons.1 hp with rfl | hp
        · exact hr
        · exact fun hmem => hr (Document.mem_ancestors_trans hmem hp)
      rw [isReplaced, isReplaced, h.get p hout]
    rw [get?_apply, get?_apply, accepts_congr habove, h.size, h.get r.id hr, h.get x hx]

theorem AgreeNotInside.replay (h : es.AgreeNotInside es' d n) (rs : List Request) :
    (es.replay d rs).AgreeNotInside (es'.replay d (rs.filter (!·.isInside d n))) d n := by
  induction rs generalizing es es' with
  | nil => exact h
  | cons r rs ih =>
      by_cases hr : r.isInside d n
      · rw [List.filter_cons_of_neg (by simp [hr])]
        exact ih (h.apply_inside hr)
      · rw [List.filter_cons_of_pos (by simp [hr])]
        exact ih (h.apply hr)

theorem agreeNotInside_replay (es : Edits)
    (h : rs.filter (!·.isInside d n) = rs'.filter (!·.isInside d n)) :
    (es.replay d rs).AgreeNotInside (es.replay d rs') d n := by
  have hrs : (es.replay d rs).AgreeNotInside _ d n := AgreeNotInside.replay (.refl es) rs
  have hrs' : (es.replay d rs').AgreeNotInside _ d n := AgreeNotInside.replay (.refl es) rs'
  rw [h] at hrs
  exact hrs.trans hrs'.symm

/-- The node is removed, or there are new nodes in its place. -/
def IsDropped (es : Edits) (n : Nat) : Prop :=
  ∃ e, es.get? n = some e ∧ ∃ r, e.replacement = some r ∧ r ≠ .unwrapped

theorem IsDropped.isReplaced (h : es.IsDropped n) : es.isReplaced n := by
  obtain ⟨e, he, r, hr, -⟩ := h
  rw [Edits.isReplaced, he, Option.any_some, hr]
  rfl

theorem isDropped_apply {c : EditCall} (hc : c.drops) (hn : n < es.slots.size)
    (haccepts : es.accepts d n c.target) : (es.apply d n c).IsDropped n := by
  refine ⟨_, by rw [get?_apply, if_pos ⟨rfl, hn, haccepts⟩], ?_⟩
  cases c with
  | remove => exact ⟨_, rfl, nofun⟩
  | replaceWith ns => exact ⟨_, rfl, nofun⟩
  | _ => cases hc

/-- Later calls leave it so: of those at the node, all but insertions beside it are ignored. -/
theorem IsDropped.apply (h : es.IsDropped n) (r : Request) :
    (es.apply d r.id r.call).IsDropped n := by
  obtain ⟨e, he, hdropped⟩ := id h
  by_cases htaken : n = r.id ∧ r.id < es.slots.size ∧ es.accepts d r.id r.call.target
  · refine ⟨_, by rw [get?_apply, if_pos htaken], ?_⟩
    obtain ⟨rfl, -, haccepts⟩ := htaken
    have hgone : es.isGone d r.id := by rw [isGone, h.isReplaced, Bool.true_or]
    rw [he, Option.getD_some]
    obtain ⟨x, c⟩ := r
    cases c with
    | insertBefore m => exact hdropped
    | insertAfter m => exact hdropped
    | wrapWith m =>
        simp only [EditCall.target] at haccepts
        split at haccepts
        · simp [accepts, hgone] at haccepts
        · cases haccepts
    | _ => simp [EditCall.target, accepts, hgone] at haccepts
  · exact ⟨e, by rw [get?_apply, if_neg htaken, he], hdropped⟩

theorem IsDropped.replay (h : es.IsDropped n) (rs : List Request) :
    (es.replay d rs).IsDropped n := by
  induction rs generalizing es with
  | nil => exact h
  | cons r rs ih => exact ih (h.apply r)

theorem isDropped_of_drops (h : d.Drops rs n) (hn : n < d.nodes.size) :
    ((none d).replay d rs).IsDropped n := by
  obtain ⟨before, c, after, rfl, hc, haccepts⟩ := h
  have hsize : n < ((none d).replay d before).slots.size := by
    rw [size_replay]
    exact hn.trans_eq Array.size_replicate.symm
  rw [replay_append]
  exact (isDropped_apply hc hsize haccepts).replay after

end Edits

namespace Document

variable {o : ParseOptions} {text : String} {d : Document} {es es' : Edits} {n : Nat}
  {vs ws : List Visitor}

theorem linked_of_parse (h : parse o text = .ok d) : d.outline.Linked := by
  obtain ⟨lexed, b, -, hbuilt, rfl⟩ := exists_built_of_parse h
  exact hbuilt.growing.linked

theorem pieces_of_isDropped (hl : d.outline.Linked) (h : es.IsDropped n)
    (hsame : es.get? n = es'.get? n) : d.pieces es n = d.pieces es' n := by
  have hf := forward_of_linked hl
  obtain ⟨e, he, r, hr, hkept⟩ := h
  have hbody (ws ws' : List Written) : d.writeBody e n ws = d.writeBody e n ws' := by
    rw [writeBody, writeBody, hr]
    cases r with
    | removed => rfl
    | nodes ns => rfl
    | unwrapped => exact absurd rfl hkept
  rw [pieces, pieces, tree_eq hf, write, write, ← hsame, he]
  simp only
  rw [writeEdited, writeEdited, hbody]

/-- What visitors do inside a node that one of them removes or replaces is not seen in the
output. -/
theorem transform_eq_of_drops (h : parse o text = .ok d) (hn : n < d.nodes.size)
    (hsame : (d.requests vs).filter (!·.isInside d n) =
      (d.requests ws).filter (!·.isInside d n))
    (hdrops : d.Drops (d.requests vs) n) : d.transform vs = d.transform ws := by
  have hl := linked_of_parse h
  have hagree := Edits.agreeNotInside_replay (Edits.none d) hsame
  have hdropped := Edits.isDropped_of_drops hdrops hn
  rw [← edits_visit_eq] at hagree hdropped
  rw [← edits_visit_eq] at hagree
  have hown : (d.visit vs).edits.get? n = (d.visit ws).edits.get? n :=
    hagree.get n fun hmem => absurd (lt_of_mem_ancestors hmem) (lt_irrefl n)
  have hsome : ((d.visit vs).edits.get? n).isSome := by
    obtain ⟨e, he, -⟩ := hdropped
    rw [he]
    rfl
  rw [transform, transform]
  apply edit_eq_of_agree hl hagree.outside hsome (hown ▸ hsome)
  rw [pieces_of_isDropped hl hdropped hown]
  exact .refl _

def removingLater (c : EditCall) : Visitor := .ofRules
  [⟨.enter, ⟨none, some "i", none, none, none⟩, [.edit c]⟩,
    ⟨.leave, ⟨none, some "b", none, none, none⟩, [.edit .remove]⟩]

theorem transform_eq_of_drops_later : ∃ d,
    parse (.ofDirectives []) "<b><i></i></b>" = .ok d ∧
      d.transform [removingLater (.renameTag "u")] =
        d.transform [removingLater (.insertBefore (.text "x"))] := by
  have hread : (parse (.ofDirectives [])
      "<b><i></i></b>").toOption.map (fun d => (d.nodes.size, d.ancestors 1, d.ancestors 3,
        d.requests [removingLater (.renameTag "u")],
        d.requests [removingLater (.insertBefore (.text "x"))],
        ((Edits.none d).replay d [⟨3, .renameTag "u"⟩]).accepts d 1 .live)) =
      some (7, [0], [1, 0], [⟨3, .renameTag "u"⟩, ⟨1, .remove⟩],
        [⟨3, .insertBefore (.text "x")⟩, ⟨1, .remove⟩], true) := by cbv
  obtain ⟨d, hd, hall⟩ := Option.map_eq_some_iff.1 hread
  simp only [Prod.mk.injEq] at hall
  obtain ⟨hsize, hone, hthree, hrenamed, hinserted, haccepts⟩ := hall
  have hparse := eq_ok_of_toOption hd
  have hn : 1 < d.nodes.size := by omega
  refine ⟨d, hparse, transform_eq_of_drops hparse hn ?_ ?_⟩
  · rw [hrenamed, hinserted]
    simp [Request.isInside, hone, hthree]
  · rw [hrenamed]
    exact ⟨[⟨3, .renameTag "u"⟩], .remove, [], rfl, rfl, haccepts⟩

end Document
end BladeTree
