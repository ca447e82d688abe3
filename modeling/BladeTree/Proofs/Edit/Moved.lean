import BladeTree.Edit.Writer
import BladeTree.Proofs.Edit.View

namespace BladeTree

def Written.moved (id : Nat) (w : Written) : Written := ⟨id + w.id, w.pieces⟩

def ElementPart.moved (id pos : Nat) : ElementPart → ElementPart
  | .child w => .child (w.moved id)
  | .own token => .own (pos + token)

theorem span_map_eq {α β : Type} {f : α → β} {p : β → Bool} {q : α → Bool} {l : List α}
    (h : ∀ x ∈ l, p (f x) = q x) :
    (l.map f).span p = ((l.span q).1.map f, (l.span q).2.map f) := by
  rw [List.span_eq_takeWhile_dropWhile, List.span_eq_takeWhile_dropWhile]
  induction l with
  | nil => rfl
  | cons x l ih =>
      obtain ⟨hx, hl⟩ := List.forall_mem_cons.1 h
      obtain ⟨htake, hdrop⟩ := Prod.mk.inj (ih hl)
      rw [List.map_cons, List.takeWhile_cons, List.takeWhile_cons, List.dropWhile_cons,
        List.dropWhile_cons, hx, htake, hdrop]
      cases q x with
      | false => rfl
      | true => rfl

namespace Document

def Inside (d : Document) (p : ElementPart) : Prop :=
  d.partStart p < d.size ∧ ∀ w, p = .child w → w.id < d.nodes.size

namespace Excerpted

variable {d e : Document} {id pos j stop : Nat} {w : Written} {ws : List Written} {p : ElementPart}
  (h : e.Excerpted d id pos)
include h

theorem interleave_eq (hws : ∀ w ∈ ws, w.id < e.nodes.size) (hstop : stop ≤ e.size) (i : Nat) :
    d.interleave (pos + i) (pos + stop) (ws.map (·.moved id)) = e.interleave i stop ws := by
  induction ws generalizing i with
  | nil => rw [List.map_nil, interleave, interleave, h.tokenText i stop hstop]
  | cons w ws ih =>
      obtain ⟨hw, hrest⟩ := List.forall_mem_cons.1 hws
      have hstart : (e.node w.id).tokenStart ≤ e.size :=
        (Nat.le_add_right _ _).trans (h.stop_le w.id hw)
      rw [List.map_cons, interleave, interleave, Written.moved, h.start w.id hw, h.stop w.id hw,
        h.tokenText i _ hstart, ih hrest]

theorem elementParts_eq (hws : ∀ w ∈ ws, w.id < e.nodes.size) (i : Nat) :
    d.elementParts (pos + i) (pos + stop) (ws.map (·.moved id)) =
      (e.elementParts i stop ws).map (·.moved id pos) := by
  fun_induction elementParts e i stop ws with
  | case1 w rest hlt ih =>
      obtain ⟨hw, hrest⟩ := List.forall_mem_cons.1 hws
      have hmoved : (d.node (w.moved id).id).tokenStart = pos + (e.node w.id).tokenStart :=
        h.start w.id hw
      have hrest := ih hrest
      rw [← Nat.add_max_add_left, ← Nat.add_assoc, ← h.stop w.id hw] at hrest
      rw [List.map_cons, elementParts, dif_pos (Nat.add_lt_add_left hlt pos), if_pos hmoved,
        List.map_cons, ElementPart.moved]
      exact congrArg _ hrest
  | case2 i hlt w rest hstart ih =>
      obtain ⟨hw, -⟩ := List.forall_mem_cons.1 hws
      have hmoved : (d.node (w.moved id).id).tokenStart ≠ pos + i := fun hi =>
        hstart (Nat.add_left_cancel ((h.start w.id hw).symm.trans hi))
      rw [List.map_cons, elementParts, dif_pos (Nat.add_lt_add_left hlt pos), if_neg hmoved,
        List.map_cons, ElementPart.moved]
      exact congrArg _ (ih hws)
  | case3 i hlt ih =>
      rw [List.map_nil, elementParts, dif_pos (Nat.add_lt_add_left hlt pos), List.map_cons,
        ElementPart.moved]
      exact congrArg _ (ih hws)
  | case4 i ws hlt =>
      rw [elementParts.eq_def, dif_neg (fun hlt' => hlt (Nat.lt_of_add_lt_add_left hlt')), List.map_nil]

omit h in
theorem inside_of_mem_elementParts (hws : ∀ w ∈ ws, w.id < e.nodes.size) (hstop : stop ≤ e.size)
    {i : Nat} (hp : p ∈ e.elementParts i stop ws) : e.Inside p := by
  fun_induction elementParts e i stop ws with
  | case1 w rest hlt ih =>
      obtain ⟨hw, hrest⟩ := List.forall_mem_cons.1 hws
      rcases List.mem_cons.1 hp with rfl | hp
      · exact ⟨hlt.trans_le hstop, fun w' hw' => ElementPart.child.inj hw' ▸ hw⟩
      · exact ih hrest hp
  | case2 i hlt w rest hstart ih =>
      rcases List.mem_cons.1 hp with rfl | hp
      · exact ⟨hlt.trans_le hstop, nofun⟩
      · exact ih hws hp
  | case3 i hlt ih =>
      rcases List.mem_cons.1 hp with rfl | hp
      · exact ⟨hlt.trans_le hstop, nofun⟩
      · exact ih hws hp
  | case4 => cases hp

section Parts

variable (hp : e.Inside p)
include hp

theorem partStart_eq : d.partStart (p.moved id pos) = pos + e.partStart p := by
  cases p with
  | child w => exact h.start w.id (hp.2 w rfl)
  | own token => rfl

theorem isBeforeTagEnd_eq (tagEnd : Nat) :
    d.isBeforeTagEnd (pos + tagEnd) (p.moved id pos) = e.isBeforeTagEnd tagEnd p := by
  rw [isBeforeTagEnd, isBeforeTagEnd, h.partStart_eq hp, h.tokenKind _ hp.1]
  congr 2
  exact decide_eq_decide.2 Nat.add_lt_add_iff_left

variable (hf : d.Forward)
include hf

theorem isAttributeNamed_eq (name : String) :
    d.isAttributeNamed name (p.moved id pos) = e.isAttributeNamed name p := by
  cases p with
  | child w =>
      have hw := hp.2 w rfl
      rw [ElementPart.moved, isAttributeNamed, isAttributeNamed, Written.moved, h.kind _ hw,
        h.attributeName_eq hf hw]
  | own token => rfl

omit hp in
theorem attributeText_eq (hj : j < e.nodes.size) (name value : String) :
    d.attributeText (id + j) name value = e.attributeText j name value := by
  rw [attributeText, attributeText, h.attributeQuote?_eq hf hj]

omit hp in
theorem editAttribute_eq (hw : w.id < e.nodes.size) (ed : NodeEdits) :
    d.editAttribute ed (w.moved id) = e.editAttribute ed w := by
  rw [editAttribute, editAttribute, Written.moved]
  simp only [h.attributeName_eq hf hw, h.attributeText_eq hf hw, h.attributeValue?_eq hf hw]

omit hp hf in
theorem renamedClosingTag_eq (hj : j < e.nodes.size) (name : String) :
    d.renamedClosingTag (id + j) name = e.renamedClosingTag j name := by
  rw [renamedClosingTag, renamedClosingTag, h.start j hj, h.stop j hj, Nat.add_assoc,
    Nat.add_min_add_left, h.tokenText _ _ (h.stop_le j hj)]

theorem editPart_eq (ed : NodeEdits) (tagEnd : Nat) :
    d.editPart ed (pos + tagEnd) (p.moved id pos) = e.editPart ed tagEnd p := by
  cases p with
  | child w =>
      have hw := hp.2 w rfl
      rw [ElementPart.moved, editPart, editPart, h.editAttribute_eq hf hw, Written.moved,
        h.kind _ hw]
      simp only [h.renamedClosingTag_eq hw]
  | own token =>
      have htoken : token < e.size := hp.1
      rw [ElementPart.moved, editPart, editPart, h.tokenKind _ htoken, Nat.add_assoc,
        h.tokenText _ _ htoken]
      simp only [Nat.add_lt_add_iff_left]

end Parts

section Element

variable (hf : d.Forward) (hj : j < e.nodes.size)
include hf hj

theorem newAttributes_eq (ed : NodeEdits) (hasClass : Bool) :
    d.newAttributes ed (id + j) hasClass = e.newAttributes ed j hasClass := by
  rw [newAttributes, newAttributes]
  simp only [h.attribute?_eq hf hj, Option.isNone_map]

theorem editElement_eq (hws : ∀ w ∈ ws, w.id < e.nodes.size) (ed : NodeEdits) :
    d.editElement ed (id + j) (ws.map (·.moved id)) = e.editElement ed j ws := by
  have hstop : (e.node j).tokenEnd ≤ e.size := h.stop_le j hj
  have hinside (p : ElementPart)
      (hp : p ∈ e.elementParts (e.node j).tokenStart (e.node j).tokenEnd ws) : e.Inside p :=
    inside_of_mem_elementParts hws hstop hp
  have hin {l : List ElementPart}
      (hl : l.Sublist (e.elementParts (e.node j).tokenStart (e.node j).tokenEnd ws)) :
      ∀ p ∈ l, e.Inside p := fun p hp => hinside p (hl.subset hp)
  have hedit {l : List ElementPart} (hl : ∀ p ∈ l, e.Inside p) :
      (l.map (·.moved id pos)).map (d.editPart ed (pos + e.startTagEnd j)) =
        l.map (e.editPart ed (e.startTagEnd j)) := by
    rw [List.map_map]
    exact List.map_congr_left fun p hp => h.editPart_eq (hl p hp) hf ed _
  have hclass {l : List ElementPart} (hl : ∀ p ∈ l, e.Inside p) :
      (l.map (·.moved id pos)).any (d.isAttributeNamed "class") =
        l.any (e.isAttributeNamed "class") := by
    rw [List.any_map, Bool.eq_iff_iff, List.any_eq_true, List.any_eq_true]
    refine exists_congr fun p => and_congr_right fun hp => ?_
    rw [Function.comp, h.isAttributeNamed_eq (hl p hp) hf]
  rw [editElement, editElement, h.startTagEnd_eq hf hj, h.start j hj, h.stop j hj,
    h.elementParts_eq hws, span_map_eq fun p hp => h.isBeforeTagEnd_eq (hinside p hp) _,
    List.span_eq_takeWhile_dropWhile]
  simp only
  rw [hedit (hin (List.takeWhile_sublist _)), hedit (hin (List.dropWhile_sublist _)),
    hclass (hin (List.takeWhile_sublist _)), h.newAttributes_eq hf hj]

theorem contentOnly_eq (hws : ∀ w ∈ ws, w.id < e.nodes.size) :
    d.contentOnly (id + j) (ws.map (·.moved id)) = (e.contentOnly j ws).map (·.moved id) := by
  rw [contentOnly, contentOnly, h.kind j hj]
  split
  · rw [List.filter_map, h.startTagEnd_eq hf hj]
    congr 1
    refine List.filter_congr fun w hw => ?_
    rw [Function.comp, Written.moved, isContent, isContent, h.start _ (hws w hw),
      h.kind _ (hws w hw)]
    congr 1
    exact decide_eq_decide.2 Nat.add_le_add_iff_left
  · rw [List.filter_map]
    congr 1
    refine List.filter_congr fun w hw => ?_
    rw [Function.comp, Written.moved, isMarker, isMarker, directiveRole, directiveRole,
      h.data _ (hws w hw), h.kind _ (hws w hw)]
  · rfl

theorem writeEdited_eq (hws : ∀ w ∈ ws, w.id < e.nodes.size) (ed : NodeEdits) :
    d.writeEdited ed (id + j) (ws.map (·.moved id)) = e.writeEdited ed j ws := by
  have hcore : d.writeCore ed (id + j) (ws.map (·.moved id)) = e.writeCore ed j ws := by
    rw [writeCore, writeCore, h.kind j hj, h.editElement_eq hf hj hws, h.start j hj, h.stop j hj,
      h.interleave_eq hws (h.stop_le j hj)]
  have hcontent : (d.contentOnly (id + j) (ws.map (·.moved id))).flatMap (·.pieces) =
      (e.contentOnly j ws).flatMap (·.pieces) := by
    rw [h.contentOnly_eq hf hj hws, List.flatMap_map]
    rfl
  rw [writeEdited, writeEdited, writeBody, writeBody, hcore, hcontent]

end Element

end Excerpted
end Document
end BladeTree
